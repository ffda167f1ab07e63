import TemplateLexer.Proofs.Canonical
import TemplateLexer.Proofs.MalformedText
import TemplateLexer.Proofs.TranscriptLines

namespace TemplateLexer

def newlineByte : UInt8 := 0x0A

def escapedByte (byte : UInt8) : List UInt8 := if byte = newlineByte then [0x5C, 0x6E] else [byte]

def escapeBytes (bytes : List UInt8) : List UInt8 := bytes.flatMap escapedByte

theorem escapedByte_of_ne {byte : UInt8} (other : byte ≠ newlineByte) : escapedByte byte = [byte] :=
  if_neg other

theorem escapeBytes_cons (byte : UInt8) (bytes : List UInt8) :
    escapeBytes (byte :: bytes) = escapedByte byte ++ escapeBytes bytes := List.flatMap_cons

theorem escapeBytes_append (first second : List UInt8) :
    escapeBytes (first ++ second) = escapeBytes first ++ escapeBytes second := List.flatMap_append

/-- Bytes without a newline stay as they are. -/
theorem escapeBytes_of_notMem {bytes : List UInt8} (absent : newlineByte ∉ bytes) :
    escapeBytes bytes = bytes := by
  induction bytes with
  | nil => rfl
  | cons first rest ih =>
      rw [List.mem_cons, not_or] at absent
      rw [escapeBytes_cons, escapedByte_of_ne (Ne.symm absent.1), ih absent.2]
      rfl

theorem encode_ofList (characters : List Char) :
    Utf8.encode (String.ofList characters) = characters.flatMap String.utf8EncodeChar := by
  rw [Utf8.encode, String.toByteArray_ofList, List.utf8Encode]
  simp

/-- The encoding of another character has no newline byte. -/
theorem newline_notMem_utf8EncodeChar {character : Char} (other : character ≠ '\n') :
    newlineByte ∉ String.utf8EncodeChar character := by
  have value : character.val.toNat ≠ 10 := fun same =>
    other (Char.ext (UInt32.toNat_inj.mp same))
  unfold String.utf8EncodeChar
  generalize character.val.toNat = value at *
  simp only [newlineByte]
  split_ifs <;> simp [← UInt8.toNat_inj] <;> omega

theorem encode_escapeNewlines (text : String) :
    Utf8.encode (escapeNewlines text) = escapeBytes (Utf8.encode text) := by
  have bytes : Utf8.encode text = text.toList.flatMap String.utf8EncodeChar := by
    rw [← encode_ofList, String.ofList_toList]
  rw [escapeNewlines, encode_ofList, bytes, escapeBytes, List.flatMap_assoc, List.flatMap_assoc]
  congr 1
  funext character
  split
  · next newline =>
      rw [newline]
      rfl
  · next other =>
      rw [List.flatMap_singleton]
      exact (escapeBytes_of_notMem (newline_notMem_utf8EncodeChar other)).symm

/-- A byte of no delimiter. -/
def Foreign (byte : UInt8) : Prop := ∀ delimiter : Delimiter, byte ∉ delimiter.bytes

theorem foreign_of_notMem_all {byte : UInt8}
    (absent : ∀ construct ∈ Construct.all, byte ∉ (Delimiter.opening construct).bytes ∧
      byte ∉ (Delimiter.closing construct).bytes) : Foreign byte := by
  intro delimiter
  cases delimiter with
  | opening construct => exact (absent construct construct.mem_all).1
  | closing construct => exact (absent construct construct.mem_all).2

theorem foreign_newline : Foreign newlineByte := foreign_of_notMem_all (by decide)

theorem foreign_of_mem_escapedByte {byte : UInt8} (member : byte ∈ escapedByte newlineByte) :
    Foreign byte := by
  have either : byte = 0x5C ∨ byte = 0x6E := by
    simpa [escapedByte] using member
  rcases either with rfl | rfl
  · exact foreign_of_notMem_all (by decide)
  · exact foreign_of_notMem_all (by decide)

theorem Delimiter.escapeBytes_bytes (delimiter : Delimiter) :
    escapeBytes delimiter.bytes = delimiter.bytes :=
  escapeBytes_of_notMem (foreign_newline delimiter)

namespace Mode

variable {mode : Mode}

theorem standing?_cons_of_foreign {byte : UInt8} (foreign : Foreign byte) (rest : List UInt8) :
    mode.standing? (byte :: rest) = none := by
  rw [Option.eq_none_iff_forall_ne_some]
  intro delimiter standing
  obtain ⟨rest, split⟩ := standing?_eq_some standing
  refine foreign delimiter ?_
  rw [(List.cons.inj split).1]
  exact List.mem_cons_self

theorem standing?_cons_cons_of_foreign {byte : UInt8} (foreign : Foreign byte) (first : UInt8)
    (rest : List UInt8) : mode.standing? (first :: byte :: rest) = none := by
  rw [Option.eq_none_iff_forall_ne_some]
  intro delimiter standing
  obtain ⟨rest, split⟩ := standing?_eq_some standing
  refine foreign delimiter ?_
  rw [(List.cons.inj (List.cons.inj split).2).1]
  exact List.mem_cons_of_mem _ List.mem_cons_self

/-- A delimiter stands at the beginning of escaped bytes if and only if it stands there before. -/
theorem standing?_escapeBytes (mode : Mode) (bytes : List UInt8) :
    mode.standing? (escapeBytes bytes) = mode.standing? bytes := by
  have escape : Foreign 0x5C := foreign_of_mem_escapedByte (by decide)
  match bytes with
  | [] => rfl
  | first :: rest =>
      by_cases newline : first = newlineByte
      · rw [newline, standing?_cons_of_foreign foreign_newline]
        exact standing?_cons_of_foreign escape _
      · rw [escapeBytes_cons, escapedByte_of_ne newline]
        match rest with
        | [] => rfl
        | second :: rest =>
            by_cases newline : second = newlineByte
            · rw [newline, standing?_cons_cons_of_foreign foreign_newline]
              exact standing?_cons_cons_of_foreign escape first _
            · rw [escapeBytes_cons, escapedByte_of_ne newline]
              rfl

/-- Where no delimiter stands at a byte, none stands at what the byte is escaped to. -/
theorem noneBefore_escapeBytes_cons {first : UInt8} {rest : List UInt8}
    (missing : mode.standing? (first :: rest) = none) :
    mode.NoneBefore (escapedByte first).length (escapeBytes (first :: rest)) := by
  intro index below
  by_cases newline : first = newlineByte
  · rw [newline] at below ⊢
    rw [escapeBytes_cons, List.drop_append_of_le_length (Nat.le_of_lt below),
      List.drop_eq_getElem_cons below, List.cons_append]
    exact standing?_cons_of_foreign (foreign_of_mem_escapedByte (List.getElem_mem below)) _
  · rw [escapedByte_of_ne newline, List.length_singleton, Nat.lt_one_iff] at below
    rw [below, List.drop_zero, standing?_escapeBytes]
    exact missing

theorem find?_of_standing? {bytes : List UInt8} {delimiter : Delimiter}
    (standing : mode.standing? bytes = some delimiter) : mode.find? bytes = some (0, delimiter) :=
  (find?_eq_some_iff _ _ _ _).mpr ⟨standing, nofun⟩

theorem find?_cons_of_none {first : UInt8} {rest : List UInt8}
    (missing : mode.standing? (first :: rest) = none) :
    mode.find? (first :: rest) = (mode.find? rest).map fun found => (1 + found.1, found.2) := by
  have passed : mode.NoneBefore 1 (first :: rest) := by
    intro index below
    rw [Nat.lt_one_iff.mp below]
    exact missing
  exact find?_of_noneBefore passed

/-- The first delimiter among escaped bytes is the first one before, behind the escaped text. -/
theorem find?_escapeBytes (mode : Mode) (bytes : List UInt8) :
    mode.find? (escapeBytes bytes) = (mode.find? bytes).map fun found =>
      ((escapeBytes (bytes.take found.1)).length, found.2) := by
  induction bytes with
  | nil => rfl
  | cons first rest ih =>
      cases standing : mode.standing? (first :: rest) with
      | some delimiter =>
          have same := mode.standing?_escapeBytes (first :: rest)
          rw [find?_of_standing? (same.trans standing), find?_of_standing? standing]
          rfl
      | none =>
          rw [find?_of_noneBefore (noneBefore_escapeBytes_cons standing), escapeBytes_cons,
            List.drop_left, ih, find?_cons_of_none standing, Option.map_map, Option.map_map]
          congr 1
          funext found
          rw [Function.comp_apply, Function.comp_apply, Nat.add_comm 1, List.take_succ_cons,
            escapeBytes_cons, List.length_append]

end Mode

/-- Escaped bytes are divided by the first delimiter as the bytes are. -/
theorem passFrom_escapeBytes_of_some {mode : Mode} {bytes : List UInt8} {length : Nat}
    {delimiter : Delimiter} (found : mode.find? bytes = some (length, delimiter)) (place : Nat) :
    ∃ behind, passFrom mode place (escapeBytes bytes) =
      textThen place (escapeBytes (bytes.take length))
        (.ok (.marker delimiter behind) ::
          passFrom delimiter.nextMode (behind + delimiterLength)
            (escapeBytes (bytes.drop (length + delimiterLength)))) := by
  have split := (Mode.drop_of_find? found).2
  have whole : escapeBytes bytes = escapeBytes (bytes.take length) ++
      (delimiter.bytes ++ escapeBytes (bytes.drop (length + delimiterLength))) := by
    rw [← delimiter.escapeBytes_bytes, ← escapeBytes_append, ← split, ← escapeBytes_append,
      List.take_append_drop]
  have found' := mode.find?_escapeBytes bytes
  rw [found, Option.map_some] at found'
  refine ⟨place + (escapeBytes (bytes.take length)).length, ?_⟩
  rw [passFrom_of_some found', whole, List.take_left, List.drop_length_add_append,
    List.drop_left' delimiter.length_bytes]

/-- Text that gives no error gives none with its newlines escaped, and shows the same. -/
theorem textThen_escapeBytes {start : Nat} {bytes : List UInt8} {others : List Result}
    {tokens : List Token} (same : textThen start bytes others = tokens.map .ok) :
    ∃ texts behind : List Token, tokens = texts ++ behind ∧ others = behind.map .ok ∧
      ∀ place others', ∃ escaped : List Token,
        escaped.map Token.render = texts.map Token.render ∧
          textThen place (escapeBytes bytes) others' = escaped.map .ok ++ others' := by
  rcases textThen_eq_map_ok same with
    ⟨rfl, following⟩ | ⟨contents, behind, filled, rfl, rfl, following⟩
  · exact ⟨[], tokens, rfl, following, fun _ _ => ⟨[], rfl, rfl⟩⟩
  · refine ⟨[_], behind, rfl, following, fun place others' => ?_⟩
    have filled' : escapeNewlines contents ≠ "" := mt escapeNewlines_eq_empty_iff.mp filled
    rw [← encode_escapeNewlines, textThen_encode filled']
    refine ⟨[.text (escapeNewlines contents) _], ?_, rfl⟩
    rw [List.map_singleton, List.map_singleton]
    refine congrArg (fun shown => [shown]) ((Token.render_eq_iff _ _).mpr ⟨rfl, fun _ => ?_⟩)
    exact escapeNewlines_of_notMem (newline_notMem_escapeNewlines contents)

/-- Bytes that give tokens give tokens that show the same once their newlines are escaped. -/
theorem passFrom_escapeBytes {mode : Mode} {position : Nat} {bytes : List UInt8}
    {tokens : List Token} (same : passFrom mode position bytes = tokens.map .ok) (place : Nat) :
    ∃ others : List Token, passFrom mode place (escapeBytes bytes) = others.map .ok ∧
      others.map Token.render = tokens.map Token.render := by
  fun_induction passFrom mode position bytes generalizing tokens place with
  | case1 mode position bytes length delimiter found ih =>
      obtain ⟨texts, rest, rfl, following, escaped⟩ := textThen_escapeBytes same
      obtain ⟨token, rest, rfl, first, later⟩ := List.map_eq_cons_iff.mp following.symm
      cases first
      obtain ⟨behind, split⟩ := passFrom_escapeBytes_of_some found place
      obtain ⟨others, pass, shown⟩ := ih later.symm (behind + delimiterLength)
      obtain ⟨texts', shown', text⟩ := escaped place
        (.ok (.marker delimiter behind) :: others.map .ok)
      refine ⟨texts' ++ .marker delimiter behind :: others, ?_, ?_⟩
      · rw [split, pass, text, List.map_append, List.map_cons]
      · rw [List.map_append, List.map_append, shown', List.map_cons, List.map_cons, shown]
        rfl
  | case2 mode position bytes missing =>
      obtain ⟨texts, rest, rfl, following, escaped⟩ := textThen_escapeBytes same
      obtain ⟨token, rfl, first⟩ := List.map_eq_singleton_iff.mp following.symm
      cases first
      have missing' := mode.find?_escapeBytes bytes
      rw [missing, Option.map_none] at missing'
      obtain ⟨texts', shown', text⟩ := escaped place
        [.ok (.endOfInput (place + (escapeBytes bytes).length))]
      refine ⟨texts' ++ [.endOfInput (place + (escapeBytes bytes).length)], ?_, ?_⟩
      · rw [passFrom_of_none missing', text, List.map_append, List.map_singleton]
      · rw [List.map_append, List.map_append, shown']
        rfl

theorem tokenizeString_eq_ok_iff {text : String} {tokens : List Token} :
    tokenizeString text = .ok tokens ↔
      passFrom .literal 0 (Utf8.encode text) = tokens.map .ok := by
  rw [← Reader.template_ofString,
    ← Tokenizer.results_of_steady (Reader.failures_ofString text) .standard]
  exact Tokenizer.collect_eq_ok_iff

theorem exists_tokenizeString (text : String) : ∃ tokens, tokenizeString text = .ok tokens := by
  have pass : OnePass (Utf8.encode text) .literal 0 (passFrom .literal 0 (Utf8.encode text)) :=
    (onePass_iff (Nat.zero_le _)).mpr rfl
  rcases pass.valid_or_reports (Utf8.valid_encode "") with ⟨-, tokens, same⟩ | reports
  · exact ⟨tokens, tokenizeString_eq_ok_iff.mpr same⟩
  · exact absurd (Utf8.valid_encode text) reports.not_valid

/-- The source of a text is put together from its tokens. -/
theorem reconstruct_of_tokenizeString {text : String} {tokens : List Token}
    (found : tokenizeString text = .ok tokens) : reconstruct tokens = text := by
  have tiles := Tokenizer.run_tiles (Tokenizer.lossless_ofReader (.ofString text) .standard)
    (Tokenizer.collect_eq_ok_iff.mp found)
  apply Utf8.encode_injective
  rw [Tiles.encode_reconstruct tiles, Reader.template_ofString]

namespace Transcript

theorem ofReader_ofString {text : String} {tokens : List Token}
    (found : tokenizeString text = .ok tokens) :
    ofReader (.ofString text) = .ok (ofTokens tokens) := by
  rw [ofReader_eq]
  exact congrArg (Except.map ofTokens) found

/-- Escaping the newlines of a text changes nothing of what its tokens show. -/
theorem ofReader_escapeNewlines (text : String) :
    ofReader (.ofString (escapeNewlines text)) = ofReader (.ofString text) := by
  obtain ⟨tokens, found⟩ := exists_tokenizeString text
  obtain ⟨others, pass, shown⟩ := passFrom_escapeBytes (tokenizeString_eq_ok_iff.mp found) 0
  rw [← encode_escapeNewlines, ← tokenizeString_eq_ok_iff] at pass
  rw [ofReader_ofString found, ofReader_ofString pass, (ofTokens_eq_iff others tokens).mpr shown]

example : (["\n\x7b%", "\\n\x7b%"].map fun text => (ofReader (.ofString text)).toOption) =
    List.replicate 2 (some "Text \"\\n\"\nOpenTag\nEndOfInput\n") := by decide +kernel

/-- Every text has a transcript, and two texts have the same one if and only if they are the same
once their newlines are escaped. In particular a text has the transcript of its escaped form. -/
theorem ofReader_ofString_eq_iff (first second : String) :
    (∃ lines, ofReader (.ofString first) = .ok lines) ∧
      (∃ lines, ofReader (.ofString second) = .ok lines) ∧
      (ofReader (.ofString first) = ofReader (.ofString second) ↔
        escapeNewlines first = escapeNewlines second) ∧
      ofReader (.ofString first) = ofReader (.ofString (escapeNewlines first)) := by
  obtain ⟨tokens, found⟩ := exists_tokenizeString first
  obtain ⟨others, found'⟩ := exists_tokenizeString second
  refine ⟨⟨_, ofReader_ofString found⟩, ⟨_, ofReader_ofString found'⟩, ⟨?_, ?_⟩,
    (ofReader_escapeNewlines first).symm⟩
  · intro same
    rw [ofReader_ofString found, ofReader_ofString found', Except.ok.injEq] at same
    rw [← reconstruct_of_tokenizeString found, ← reconstruct_of_tokenizeString found',
      escapeNewlines_reconstruct same]
  · intro same
    rw [← ofReader_escapeNewlines first, same, ofReader_escapeNewlines second]

end Transcript

end TemplateLexer
