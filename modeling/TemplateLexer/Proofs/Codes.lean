import TemplateLexer.Proofs.LittleEndian
import TemplateLexer.Proofs.Validity

namespace TemplateLexer

/-- A token fits into words if the length of its contents and its span do. -/
def Token.FitsWords (token : Token) : Prop :=
  token.contents.utf8ByteSize < wordCount ∧ token.span.FitsWords

instance (token : Token) : Decidable token.FitsWords :=
  inferInstanceAs (Decidable (_ ∧ _ ∧ _))

namespace Binary

namespace Decoder

/-- The decoder reads a value from the bytes that are written for it and leaves what follows. It
reads no other bytes, and those that end before all is written are truncated. -/
structure Reads {α : Type} (decoder : Decoder α) (written : α → List UInt8 → Prop) : Prop where
  accepts : ∀ {value code}, written value code → ∀ rest,
    decoder.run (code ++ rest) = .ok (value, rest)
  only : ∀ {bytes value rest}, decoder.run bytes = .ok (value, rest) →
    ∃ code, written value code ∧ bytes = code ++ rest
  truncated : ∀ {value front more}, written value (front ++ more) → more ≠ [] →
    decoder.run front = .error .truncated

section Sequences

variable {α β : Type} {decoder : Decoder α} {next : α → Decoder β}

theorem run_bind_of_ok {bytes rest : List UInt8} {value : α}
    (read : decoder.run bytes = .ok (value, rest)) :
    (decoder >>= next).run bytes = (next value).run rest := by
  rw [StateT.run_bind, read]
  rfl

theorem run_bind_of_error {bytes : List UInt8} {error : DecodeError}
    (failed : decoder.run bytes = .error error) :
    (decoder >>= next).run bytes = .error error := by
  rw [StateT.run_bind, failed]
  rfl

theorem Reads.of_iff {written other : α → List UInt8 → Prop} (reads : decoder.Reads written)
    (same : ∀ value code, written value code ↔ other value code) : decoder.Reads other := by
  have equal : written = other := by
    funext value code
    exact propext (same value code)
  rw [← equal]
  exact reads

theorem reads_pure (value : α) :
    (pure value : Decoder α).Reads fun other code => other = value ∧ code = [] where
  accepts := by
    rintro _ _ ⟨rfl, rfl⟩ rest
    rfl
  only := by
    intro bytes other rest read
    cases read
    exact ⟨[], ⟨rfl, rfl⟩, rfl⟩
  truncated := by
    rintro _ front more ⟨rfl, nothing⟩ left
    exact absurd (List.append_eq_nil_iff.mp nothing).2 left

/-- A decoder that always fails reads nothing. -/
theorem reads_throw (error : DecodeError) :
    (throw error : Decoder α).Reads fun _ _ => False where
  accepts := False.elim
  only := nofun
  truncated := False.elim

/-- What a decoder reads behind another is written behind it. -/
theorem Reads.bind {written : α → List UInt8 → Prop} {behind : α → β → List UInt8 → Prop}
    (first : decoder.Reads written)
    (second : ∀ part code, written part code → (next part).Reads (behind part)) :
    (decoder >>= next).Reads fun value code => ∃ part front back,
      written part front ∧ behind part value back ∧ code = front ++ back where
  accepts := by
    rintro value _ ⟨part, front, back, before, after, rfl⟩ rest
    rw [List.append_assoc, run_bind_of_ok (first.accepts before _)]
    exact (second part front before).accepts after rest
  only := by
    intro bytes value rest read
    cases begun : decoder.run bytes with
    | error error =>
        rw [run_bind_of_error begun] at read
        contradiction
    | ok pair =>
        obtain ⟨part, middle⟩ := pair
        obtain ⟨front, before, rfl⟩ := first.only begun
        rw [run_bind_of_ok begun] at read
        obtain ⟨back, after, rfl⟩ := (second part front before).only read
        exact ⟨_, ⟨part, front, back, before, after, rfl⟩, (List.append_assoc _ _ _).symm⟩
  truncated := by
    rintro value short more ⟨part, front, back, before, after, split⟩ left
    -- The bytes end within the first part, or behind it within the second.
    rcases List.append_eq_append_iff.mp split with ⟨cut, rfl, rfl⟩ | ⟨read, rfl, rfl⟩
    · by_cases whole : cut = []
      · rw [whole, List.append_nil] at before
        rw [whole, List.nil_append] at left
        have begun := first.accepts before []
        rw [List.append_nil] at begun
        rw [run_bind_of_ok begun]
        exact (second part short before).truncated after left
      · exact run_bind_of_error (first.truncated before whole)
    · rw [run_bind_of_ok (first.accepts before read)]
      exact (second part front before).truncated after left

end Sequences

theorem reads_take (count : Nat) :
    (take count).Reads fun value code => value = code ∧ code.length = count where
  accepts := by
    rintro code _ ⟨rfl, rfl⟩ rest
    have enough : ¬ (code ++ rest).length < code.length := by
      rw [List.length_append]
      omega
    rw [StateT.run, take, if_neg enough, List.take_left, List.drop_left]
  only := by
    intro bytes value rest read
    rw [StateT.run, take] at read
    split at read
    · contradiction
    · next enough =>
        cases read
        refine ⟨bytes.take count, ⟨rfl, ?_⟩, (List.take_append_drop _ _).symm⟩
        exact List.length_take_of_le (Nat.le_of_not_lt enough)
  truncated := by
    rintro _ front more ⟨-, rfl⟩ left
    have short : front.length < (front ++ more).length := by
      rw [List.length_append]
      exact Nat.lt_add_of_pos_right (List.length_pos_iff.mpr left)
    rw [StateT.run, take, if_pos short]

theorem reads_number (width : Nat) :
    (number width).Reads fun value code =>
      value < 256 ^ width ∧ code = littleEndian width value := by
  refine ((reads_take width).bind fun digits _ _ => reads_pure (ofLittleEndian digits)).of_iff ?_
  intro value code
  constructor
  · rintro ⟨digits, _, _, ⟨rfl, rfl⟩, ⟨rfl, rfl⟩, rfl⟩
    refine ⟨ofLittleEndian_lt digits, ?_⟩
    rw [littleEndian_ofLittleEndian, List.append_nil]
  · rintro ⟨fits, rfl⟩
    exact ⟨_, _, [], ⟨rfl, length_littleEndian width value⟩,
      ⟨(ofLittleEndian_littleEndian fits).symm, rfl⟩, (List.append_nil _).symm⟩

/-- A choice from a table is written as its index, so that no entry may stand in it twice. -/
theorem reads_choice {α : Type} [BEq α] [LawfulBEq α] {table : List α} (distinct : table.Nodup)
    (small : table.length ≤ 256 ^ indexWidth) :
    (choice table).Reads fun value code =>
      value ∈ table ∧ code = littleEndian indexWidth (table.idxOf value) := by
  have chosen : (choice table).Reads fun value code => ∃ index front back,
      (index < 256 ^ indexWidth ∧ front = littleEndian indexWidth index) ∧
        (table[index]? = some value ∧ back = []) ∧ code = front ++ back := by
    refine Reads.bind (reads_number indexWidth) fun index _ _ => ?_
    cases entry : table[index]? with
    | some chosen =>
        refine (reads_pure chosen).of_iff fun value code => ?_
        rw [Option.some.injEq, eq_comm]
    | none =>
        refine (reads_throw _).of_iff fun value code => ?_
        simp
  refine chosen.of_iff fun value code => ?_
  constructor
  · rintro ⟨index, _, _, ⟨-, rfl⟩, ⟨entry, rfl⟩, rfl⟩
    obtain ⟨inside, rfl⟩ := List.getElem?_eq_some_iff.mp entry
    rw [distinct.idxOf_getElem, List.append_nil]
    exact ⟨List.getElem_mem inside, rfl⟩
  · rintro ⟨member, rfl⟩
    have inside := List.idxOf_lt_length_iff.mpr member
    exact ⟨_, _, [], ⟨Nat.lt_of_lt_of_le inside small, rfl⟩, ⟨List.getElem?_idxOf member, rfl⟩,
      (List.append_nil _).symm⟩

/-- The elements of a list are written one behind the other. -/
theorem Reads.times {α : Type} {element : Decoder α} {fits : α → Prop}
    {encode : α → List UInt8}
    (reads : element.Reads fun value code => fits value ∧ code = encode value) (count : Nat) :
    (element.times count).Reads fun values code =>
      (values.length = count ∧ ∀ value ∈ values, fits value) ∧ code = values.flatMap encode := by
  induction count with
  | zero =>
      refine (reads_pure []).of_iff fun values code => ?_
      constructor
      · rintro ⟨rfl, rfl⟩
        exact ⟨⟨rfl, List.forall_mem_nil _⟩, rfl⟩
      · rintro ⟨⟨none, -⟩, rfl⟩
        obtain rfl := List.length_eq_zero_iff.mp none
        exact ⟨rfl, rfl⟩
  | succ count ih =>
      refine (reads.bind fun first _ _ => ih.bind fun rest _ _ =>
        reads_pure (first :: rest)).of_iff fun values code => ?_
      constructor
      · rintro ⟨first, _, _, ⟨fit, rfl⟩, ⟨rest, _, _, ⟨⟨rfl, fits⟩, rfl⟩, ⟨rfl, rfl⟩, rfl⟩, rfl⟩
        rw [List.append_nil, List.flatMap_cons]
        exact ⟨⟨rfl, List.forall_mem_cons.mpr ⟨fit, fits⟩⟩, rfl⟩
      · rintro ⟨⟨counted, fits⟩, rfl⟩
        cases values with
        | nil => contradiction
        | cons first rest =>
            obtain ⟨fit, fits⟩ := List.forall_mem_cons.mp fits
            exact ⟨first, _, _, ⟨fit, rfl⟩,
              ⟨rest, _, [], ⟨⟨Nat.succ.inj counted, fits⟩, rfl⟩, ⟨rfl, rfl⟩,
                (List.append_nil _).symm⟩, rfl⟩

theorem reads_text :
    text.Reads fun value code => value.utf8ByteSize < wordCount ∧ code = encodeText value := by
  let decoded (bytes : List UInt8) (value : String) (code : List UInt8) : Prop :=
    Utf8.encode value = bytes ∧ code = []
  refine ((reads_number wordWidth).bind fun length _ _ =>
    Reads.bind (reads_take length) fun bytes _ _ => (?_ : Reads _ (decoded bytes))).of_iff
      fun value code => ?_
  · simp only [decoded, ← Utf8.decode_eq_ok_iff]
    cases Utf8.decode bytes with
    | ok text =>
        refine (reads_pure text).of_iff fun value code => ?_
        rw [Except.ok.injEq, eq_comm]
    | error fault =>
        refine (reads_throw _).of_iff fun value code => ?_
        simp
  · have size : (Utf8.encode value).length = value.utf8ByteSize := rfl
    constructor
    · rintro ⟨_, _, _, ⟨fits, rfl⟩, ⟨_, _, _, ⟨rfl, rfl⟩, ⟨rfl, rfl⟩, rfl⟩, rfl⟩
      rw [size] at fits ⊢
      rw [List.append_nil]
      exact ⟨fits, rfl⟩
    · rintro ⟨fits, rfl⟩
      exact ⟨_, _, _, ⟨fits, rfl⟩,
        ⟨_, _, [], ⟨rfl, size⟩, ⟨rfl, rfl⟩, (List.append_nil _).symm⟩, rfl⟩

theorem reads_kind : kind.Reads fun value code => code = encodeKind value := by
  have chosen : (choice Kind.all).Reads fun value code => value ∈ Kind.all ∧ code =
      littleEndian indexWidth (Kind.all.idxOf value) := reads_choice (by decide) (by decide)
  exact chosen.of_iff fun value code => and_iff_right value.mem_all

theorem reads_span : span.Reads fun value code => value.FitsWords ∧ code = encodeSpan value := by
  refine ((reads_number wordWidth).bind fun start _ _ =>
    (reads_number wordWidth).bind fun stop _ _ =>
      reads_pure (⟨start, stop⟩ : Span)).of_iff fun value code => ?_
  constructor
  · rintro ⟨start, _, _, ⟨fits, rfl⟩, ⟨stop, _, _, ⟨fits', rfl⟩, ⟨rfl, rfl⟩, rfl⟩, rfl⟩
    rw [List.append_nil]
    exact ⟨⟨fits, fits'⟩, rfl⟩
  · rintro ⟨⟨fits, fits'⟩, rfl⟩
    exact ⟨_, _, _, ⟨fits, rfl⟩,
      ⟨_, _, [], ⟨fits', rfl⟩, ⟨rfl, rfl⟩, (List.append_nil _).symm⟩, rfl⟩

theorem reads_token : token.Reads fun value code => value.FitsWords ∧ code = encodeToken value := by
  refine (reads_kind.bind fun kind _ _ => reads_text.bind fun contents _ _ =>
    reads_span.bind fun span _ _ => reads_pure (⟨kind, contents, span⟩ : Token)).of_iff
    fun value code => ?_
  constructor
  · rintro ⟨kind, _, _, rfl, ⟨contents, _, _, ⟨fits, rfl⟩, ⟨span, _, _, ⟨fits', rfl⟩, ⟨rfl, rfl⟩,
      rfl⟩, rfl⟩, rfl⟩
    rw [List.append_nil, ← List.append_assoc]
    exact ⟨⟨fits, fits'⟩, rfl⟩
  · rintro ⟨⟨fits, fits'⟩, rfl⟩
    refine ⟨_, _, _, rfl,
      ⟨_, _, _, ⟨fits, rfl⟩, ⟨_, _, [], ⟨fits', rfl⟩, ⟨rfl, rfl⟩, rfl⟩, rfl⟩, ?_⟩
    rw [List.append_nil, ← List.append_assoc]
    rfl

end Decoder

/-- A list has a code if its length and its tokens fit into words. -/
def Encodable (tokens : List Token) : Prop :=
  tokens.length < wordCount ∧ ∀ token ∈ tokens, token.FitsWords

instance (tokens : List Token) : Decidable (Encodable tokens) :=
  inferInstanceAs (Decidable (_ ∧ _))

namespace Decoder

/-- A list of tokens is read from its code if its numbers fit into words. -/
theorem reads_tokens :
    tokens.Reads fun value code => Encodable value ∧ code = encodeTokens value := by
  refine ((reads_number wordWidth).bind fun count _ _ => reads_token.times count).of_iff
    fun value code => ?_
  constructor
  · rintro ⟨_, _, _, ⟨fits, rfl⟩, ⟨⟨rfl, each⟩, rfl⟩, rfl⟩
    exact ⟨⟨fits, each⟩, rfl⟩
  · rintro ⟨⟨fits, each⟩, rfl⟩
    exact ⟨_, _, _, ⟨fits, rfl⟩, ⟨⟨rfl, each⟩, rfl⟩, rfl⟩

namespace Reads

variable {α : Type} {decoder : Decoder α} {written : α → List UInt8 → Prop}

theorem decode_eq_ok_iff (reads : decoder.Reads written) {value : α} {bytes : List UInt8} :
    decoder.decode bytes = .ok value ↔ ∃ code, written value code ∧ code <+: bytes := by
  rw [decode]
  constructor
  · intro read
    cases result : decoder.run bytes with
    | error error =>
        rw [result] at read
        contradiction
    | ok pair =>
        rw [result] at read
        cases read
        obtain ⟨code, wrote, rfl⟩ := reads.only result
        exact ⟨code, wrote, List.prefix_append _ _⟩
  · rintro ⟨code, wrote, rest, rfl⟩
    rw [reads.accepts wrote rest]
    rfl

theorem decode_of_prefix (reads : decoder.Reads written) {value : α} {code bytes : List UInt8}
    (wrote : written value code) (begins : bytes <+: code) (short : bytes ≠ code) :
    decoder.decode bytes = .error .truncated := by
  obtain ⟨more, rfl⟩ := begins
  have left : more ≠ [] := by
    rintro rfl
    exact short (List.append_nil bytes).symm
  rw [decode, reads.truncated wrote left]
  rfl

end Reads

end Decoder

/-- Bytes are read as a list of tokens if and only if the list fits into words and the bytes begin
with its code. So what was written is read back, what was read is written again but for the bytes
behind it, no code begins the code of another list, and bytes that end within a code are
truncated. -/
theorem tokens_canonical (tokens others : List Token) (bytes : List UInt8) :
    (Decoder.tokens.decode bytes = .ok tokens ↔
        Encodable tokens ∧ encodeTokens tokens <+: bytes) ∧
      (Encodable tokens → Decoder.tokens.decode (encodeTokens tokens) = .ok tokens) ∧
      (Decoder.tokens.decode bytes = .ok tokens →
        ∃ trailing, bytes = encodeTokens tokens ++ trailing) ∧
      (Encodable tokens → Encodable others → encodeTokens tokens <+: encodeTokens others →
        tokens = others) ∧
      (Encodable tokens → bytes <+: encodeTokens tokens → bytes ≠ encodeTokens tokens →
        ∃ error, Decoder.tokens.decode bytes = .error error ∧ error.message = "io error") := by
  have read {tokens : List Token} {bytes : List UInt8} :
      Decoder.tokens.decode bytes = .ok tokens ↔
        Encodable tokens ∧ encodeTokens tokens <+: bytes := by
    rw [Decoder.reads_tokens.decode_eq_ok_iff]
    constructor
    · rintro ⟨_, ⟨fits, rfl⟩, begins⟩
      exact ⟨fits, begins⟩
    · rintro ⟨fits, begins⟩
      exact ⟨_, ⟨fits, rfl⟩, begins⟩
  refine ⟨read, fun fits => read.mpr ⟨fits, List.prefix_refl _⟩, ?_, ?_, ?_⟩
  · intro decoded
    obtain ⟨trailing, split⟩ := (read.mp decoded).2
    exact ⟨trailing, split.symm⟩
  · intro fits fits' begins
    have first := read.mpr ⟨fits, begins⟩
    rw [read.mpr ⟨fits', List.prefix_refl _⟩] at first
    exact (Except.ok.inj first).symm
  · intro fits begins short
    exact ⟨_, Decoder.reads_tokens.decode_of_prefix ⟨fits, rfl⟩ begins short, rfl⟩

/-- The widest offset, and bytes that end within a character: they are truncated, not malformed. -/
theorem tokens_canonical_cut_within_character :
    let tokens := [Token.text "é" ⟨0, wordCount - 1⟩]
    let bytes := (encodeTokens tokens).take 21
    Encodable tokens ∧ bytes <+: encodeTokens tokens ∧ bytes ≠ encodeTokens tokens ∧
      Decoder.tokens.decode (encodeTokens tokens) = .ok tokens ∧
      ∃ error, Decoder.tokens.decode bytes = .error error ∧ error.message = "io error" := by
  intro tokens bytes
  have fits : Encodable tokens := by decide +kernel
  have begins : bytes <+: encodeTokens tokens := List.take_prefix _ _
  have short : bytes ≠ encodeTokens tokens := by decide +kernel
  obtain ⟨-, decoded, -, -, truncated⟩ := tokens_canonical tokens tokens bytes
  exact ⟨fits, begins, short, decoded fits, truncated fits begins short⟩

end Binary

end TemplateLexer
