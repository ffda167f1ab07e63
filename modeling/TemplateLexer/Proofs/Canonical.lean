import TemplateLexer.Proofs.Grammar
import TemplateLexer.Proofs.Lossless
import TemplateLexer.Proofs.Streaming

namespace TemplateLexer

/-- Each token stands where the one before it stops, and is as long as its source text. -/
def SpannedFrom : Nat → List Token → Prop
  | _, [] => True
  | position, token :: tokens =>
      token.span = ⟨position, position + (Utf8.encode token.sourceText).length⟩ ∧
        SpannedFrom token.span.stop tokens

/-- Each text stops where its contents do. If a marker follows, then its delimiter is the first one
in the contents and the delimiter together that ends text of the mode; if the end follows, then none
stands in the contents. -/
def TextsStop (mode : Mode) (tokens : List Token) : Prop :=
  ∀ front text next behind, tokens = front ++ text :: next :: behind → text.kind = .text →
    TextStops (Utf8.encode text.contents ++ Utf8.encode next.sourceText)
      (mode.after (front.map Token.kind)) 0 (Utf8.encode text.contents).length next.kind.delimiter?

/-- The tokens come in the order of a template, text and nothing else has contents, the spans lie
side by side from the beginning, and each text stops where its contents do. -/
structure Canonical (tokens : List Token) : Prop where
  order : tokens.map Token.kind ∈ sentence.matches'
  filled : ∀ token ∈ tokens, token.FilledIfText
  spans : SpannedFrom 0 tokens
  texts : TextsStop .literal tokens

/-- The same tokens from left to right: what may follow at a position in a mode, where a text comes
only if one may come next. -/
inductive CanonicalFrom : Mode → Bool → Nat → List Token → Prop where
  | ended {mode : Mode} {textNext : Bool} {position : Nat} :
      CanonicalFrom mode textNext position [.endOfInput position]
  | text {mode : Mode} {position : Nat} {contents : String} {next : Token} {tokens : List Token}
      (filled : contents ≠ "")
      (stops : TextStops (Utf8.encode contents ++ Utf8.encode next.sourceText) mode 0
        (Utf8.encode contents).length next.kind.delimiter?)
      (rest : CanonicalFrom mode false (position + (Utf8.encode contents).length)
        (next :: tokens)) :
      CanonicalFrom mode true position
        (.text contents ⟨position, position + (Utf8.encode contents).length⟩ :: next :: tokens)
  | marker {mode : Mode} {textNext : Bool} {position : Nat} {delimiter : Delimiter}
      {tokens : List Token} (ends : mode.EndedBy delimiter)
      (rest : CanonicalFrom delimiter.nextMode true (position + delimiterLength) tokens) :
      CanonicalFrom mode textNext position (.marker delimiter position :: tokens)

theorem Mode.after_cons (mode : Mode) (kind : Kind) (kinds : List Kind) :
    mode.after (kind :: kinds) = (mode.after [kind]).after kinds := by
  cases kind <;> rfl

theorem textsStop_cons_iff {mode : Mode} {token : Token} {tokens : List Token} :
    TextsStop mode (token :: tokens) ↔
      (∀ next behind, tokens = next :: behind → token.kind = .text →
        TextStops (Utf8.encode token.contents ++ Utf8.encode next.sourceText) mode 0
          (Utf8.encode token.contents).length next.kind.delimiter?) ∧
        TextsStop (mode.after [token.kind]) tokens := by
  constructor
  · intro texts
    constructor
    · intro next behind split isText
      exact texts [] token next behind (congrArg _ split) isText
    · intro front text next behind split isText
      rw [← Mode.after_cons, ← List.map_cons]
      exact texts (token :: front) text next behind (congrArg _ split) isText
  · intro ⟨first, later⟩ front text next behind split isText
    cases front with
    | nil =>
        obtain ⟨rfl, following⟩ := List.cons.inj split
        exact first next behind following isText
    | cons other front =>
        obtain ⟨rfl, following⟩ := List.cons.inj split
        rw [List.map_cons, Mode.after_cons]
        exact later front text next behind following isText

namespace Token

variable {token : Token} {position : Nat}

theorem FilledIfText.contents_eq (filled : token.FilledIfText) (other : token.kind ≠ .text) :
    token.contents = "" :=
  not_not.mp fun some => other (filled.mpr some)

/-- A token of another kind than text is known by its kind and its place. -/
theorem eq_bare (filled : token.FilledIfText) {kind : Kind} (isKind : token.kind = kind)
    (other : kind ≠ .text) : token = .bare kind token.span := by
  have nothing := filled.contents_eq (isKind ▸ other)
  obtain ⟨_, contents, span⟩ := token
  obtain rfl : _ = kind := isKind
  obtain rfl : contents = "" := nothing
  rfl

theorem eq_endOfInput (filled : token.FilledIfText) (isEnd : token.kind = .endOfInput)
    (place : token.span = ⟨position, position + (Utf8.encode token.sourceText).length⟩) :
    token = .endOfInput position := by
  have same := eq_bare filled isEnd Kind.noConfusion
  rw [place, sourceText, isEnd] at same
  exact same

theorem eq_marker {delimiter : Delimiter} (filled : token.FilledIfText)
    (isMarker : token.kind = .marker delimiter)
    (place : token.span = ⟨position, position + (Utf8.encode token.sourceText).length⟩) :
    token = .marker delimiter position := by
  have same := eq_bare filled isMarker Kind.noConfusion
  rw [place, sourceText, isMarker] at same
  simp only [Delimiter.encode_lexeme, Delimiter.length_bytes] at same
  exact same

theorem eq_text (isText : token.kind = .text)
    (place : token.span = ⟨position, position + (Utf8.encode token.sourceText).length⟩) :
    token = .text token.contents ⟨position, position + (Utf8.encode token.contents).length⟩ := by
  rw [sourceText, isText] at place
  obtain ⟨kind, contents, span⟩ := token
  obtain rfl : kind = .text := isText
  exact congrArg (Token.mk .text contents) place

end Token

/-- A list whose kinds come in order is canonical from left to right if each of its tokens is as
it should be. -/
theorem Sentence.canonicalFrom {mode : Mode} {textNext : Bool} {position : Nat}
    {tokens : List Token} {kinds : List Kind} (order : Sentence mode textNext kinds)
    (same : tokens.map Token.kind = kinds) (filled : ∀ token ∈ tokens, token.FilledIfText)
    (spans : SpannedFrom position tokens) (texts : TextsStop mode tokens) :
    CanonicalFrom mode textNext position tokens := by
  induction order generalizing tokens position with
  | ended =>
      obtain ⟨token, rfl, isEnd⟩ := List.map_eq_singleton_iff.mp same
      rw [Token.eq_endOfInput (filled token List.mem_cons_self) isEnd spans.1]
      exact .ended
  | @text mode kinds rest ih =>
      obtain ⟨token, tokens, rfl, isText, following⟩ := List.map_eq_cons_iff.mp same
      obtain ⟨place, later⟩ := spans
      obtain ⟨stops, others⟩ := textsStop_cons_iff.mp texts
      have nonempty : token.contents ≠ "" := (filled token List.mem_cons_self).mp isText
      rw [Token.eq_text isText place] at later ⊢
      rw [isText] at others
      have behind := ih following (fun other member => filled other (.tail _ member)) later others
      cases tokens with
      | nil => nomatch behind
      | cons next tokens => exact .text nonempty (stops next tokens rfl isText) behind
  | @marker mode textNext delimiter kinds ends rest ih =>
      obtain ⟨token, tokens, rfl, isMarker, following⟩ := List.map_eq_cons_iff.mp same
      obtain ⟨place, later⟩ := spans
      have others := (textsStop_cons_iff.mp texts).2
      rw [Token.eq_marker (filled token List.mem_cons_self) isMarker place] at later ⊢
      rw [isMarker] at others
      apply CanonicalFrom.marker ends
      exact ih following (fun other member => filled other (.tail _ member)) later others

namespace CanonicalFrom

variable {mode : Mode} {textNext : Bool} {position : Nat} {tokens : List Token}

theorem sentence (canonical : CanonicalFrom mode textNext position tokens) :
    Sentence mode textNext (tokens.map Token.kind) := by
  induction canonical with
  | ended => exact .ended
  | text filled stops rest ih => exact .text ih
  | marker ends rest ih => exact .marker ends ih

theorem filledIfText (canonical : CanonicalFrom mode textNext position tokens) :
    ∀ token ∈ tokens, token.FilledIfText := by
  induction canonical with
  | ended => exact List.forall_mem_singleton.mpr (filledIfText_bare Kind.noConfusion _)
  | text filled stops rest ih => exact List.forall_mem_cons.mpr ⟨iff_of_true rfl filled, ih⟩
  | marker ends rest ih =>
      exact List.forall_mem_cons.mpr ⟨filledIfText_bare Kind.noConfusion _, ih⟩

theorem spannedFrom (canonical : CanonicalFrom mode textNext position tokens) :
    SpannedFrom position tokens := by
  induction canonical with
  | ended => exact ⟨rfl, trivial⟩
  | text filled stops rest ih => exact ⟨rfl, ih⟩
  | marker ends rest ih =>
      refine ⟨?_, ih⟩
      rw [Token.sourceText_marker, Delimiter.encode_lexeme]
      rfl

theorem textsStop (canonical : CanonicalFrom mode textNext position tokens) :
    TextsStop mode tokens := by
  induction canonical with
  | ended =>
      apply textsStop_cons_iff.mpr
      refine ⟨nofun, ?_⟩
      intro front text next behind split
      cases front <;> cases split
  | text filled stops rest ih =>
      apply textsStop_cons_iff.mpr
      refine ⟨?_, ih⟩
      intro next behind split _
      cases split
      exact stops
  | marker ends rest ih => exact textsStop_cons_iff.mpr ⟨fun _ _ _ => nofun, ih⟩

end CanonicalFrom

/-- Both descriptions are of the same lists. -/
theorem canonical_iff_canonicalFrom {tokens : List Token} :
    Canonical tokens ↔ CanonicalFrom .literal true 0 tokens := by
  constructor
  · intro ⟨order, filled, spans, texts⟩
    exact (mem_sentence_iff.mp order).canonicalFrom rfl filled spans texts
  · intro canonical
    exact ⟨mem_sentence_iff.mpr canonical.sentence, canonical.filledIfText,
      canonical.spannedFrom, canonical.textsStop⟩

/-- A delimiter of the mode at the very beginning is a marker. -/
theorem passFrom_bytes_append {mode : Mode} {delimiter : Delimiter} (ends : mode.EndedBy delimiter)
    (position : Nat) (more : List UInt8) :
    passFrom mode position (delimiter.bytes ++ more) =
      .ok (.marker delimiter position) ::
        passFrom delimiter.nextMode (position + delimiterLength) more := by
  have found : mode.find? (delimiter.bytes ++ more) = some (0, delimiter) := by
    rw [Mode.find?_eq_some_iff, List.drop_zero, Mode.standing?_eq_some_iff]
    exact ⟨⟨ends, List.prefix_append _ _⟩, nofun⟩
  rw [passFrom_of_some found, Nat.zero_add, List.drop_left' delimiter.length_bytes]
  rfl

/-- Text up to the first delimiter is read on its own, and the pass goes on with the delimiter. -/
theorem passFrom_text_append {mode : Mode} {text : List UInt8} {delimiter : Delimiter}
    (found : mode.find? (text ++ delimiter.bytes) = some (text.length, delimiter))
    (position : Nat) (more : List UInt8) :
    passFrom mode position (text ++ (delimiter.bytes ++ more)) =
      textThen position text
        (passFrom mode (position + text.length) (delimiter.bytes ++ more)) := by
  have ends := (Mode.drop_of_find? found).1
  rw [passFrom_bytes_append ends, ← List.append_assoc,
    passFrom_of_some (Mode.find?_append_of_some found more), List.append_assoc, List.take_left,
    ← List.append_assoc, List.drop_left' (by rw [List.length_append, Delimiter.length_bytes])]

theorem textThen_encode {contents : String} (filled : contents ≠ "") (start : Nat)
    (others : List Result) :
    textThen start (Utf8.encode contents) others =
      .ok (.text contents ⟨start, start + (Utf8.encode contents).length⟩) :: others := by
  have some : ¬ (Utf8.encode contents).isEmpty = true := by
    rw [List.isEmpty_iff, ← Utf8.encode_empty]
    exact fun same => filled (Utf8.encode_injective same)
  rw [textThen, if_neg some, Utf8.decode_eq_ok_iff.mpr rfl]

/-- The source texts of canonical tokens are read as the tokens. -/
theorem CanonicalFrom.passFrom_eq {mode : Mode} {textNext : Bool} {position : Nat}
    {tokens : List Token} (canonical : CanonicalFrom mode textNext position tokens) :
    passFrom mode position (tokens.flatMap fun token => Utf8.encode token.sourceText) =
      tokens.map .ok := by
  induction canonical with
  | ended => exact passFrom_nil _ _
  | @text mode position contents next tokens filled stops rest ih =>
      have found := stops.find?_eq
      rw [List.flatMap_cons, Token.sourceText_text, List.map_cons, ← textThen_encode filled, ← ih]
      cases rest with
      | ended =>
          rw [Token.sourceText_endOfInput, Utf8.encode_empty, List.append_nil] at found
          rw [List.flatMap_singleton, Token.sourceText_endOfInput, Utf8.encode_empty,
            List.append_nil, passFrom_nil]
          exact passFrom_of_none found position
      | marker ends rest =>
          rw [Token.sourceText_marker, Delimiter.encode_lexeme] at found
          rw [List.flatMap_cons, Token.sourceText_marker, Delimiter.encode_lexeme]
          exact passFrom_text_append found position _
  | marker ends rest ih =>
      rw [List.flatMap_cons, Token.sourceText_marker, Delimiter.encode_lexeme,
        passFrom_bytes_append ends, ih, List.map_cons]

/-- If text and what comes behind it give tokens only, then the text is empty or a token. -/
theorem textThen_eq_map_ok {start : Nat} {bytes : List UInt8} {others : List Result}
    {tokens : List Token} (same : textThen start bytes others = tokens.map .ok) :
    (bytes = [] ∧ others = tokens.map .ok) ∨
      ∃ contents behind, contents ≠ "" ∧ Utf8.encode contents = bytes ∧
        tokens = .text contents ⟨start, start + bytes.length⟩ :: behind ∧
        others = behind.map .ok := by
  rw [textThen] at same
  split at same
  · next empty => exact .inl ⟨List.isEmpty_iff.mp empty, same⟩
  · next filled =>
      split at same
      · next contents read =>
          obtain ⟨token, behind, rfl, first, later⟩ := List.map_eq_cons_iff.mp same.symm
          cases first
          have encoding := Utf8.decode_eq_ok_iff.mp read
          refine .inr ⟨contents, behind, ?_, encoding, rfl, later.symm⟩
          rintro rfl
          rw [← encoding, Utf8.encode_empty] at filled
          exact filled rfl
      · obtain ⟨token, behind, -, first, -⟩ := List.map_eq_cons_iff.mp same.symm
        cases first

/-- Text in front of the first delimiter goes before its marker. -/
theorem CanonicalFrom.text_marker {mode : Mode} {position place : Nat} {contents : String}
    {delimiter : Delimiter} {tokens : List Token} (filled : contents ≠ "")
    (found : mode.find? (Utf8.encode contents ++ delimiter.bytes) =
      some ((Utf8.encode contents).length, delimiter))
    (rest : CanonicalFrom mode false (position + (Utf8.encode contents).length)
      (.marker delimiter place :: tokens)) :
    CanonicalFrom mode true position
      (.text contents ⟨position, position + (Utf8.encode contents).length⟩ ::
        .marker delimiter place :: tokens) := by
  refine .text filled ?_ rest
  rw [textStops_iff (Nat.zero_le _), List.drop_zero, Token.sourceText_marker,
    Delimiter.encode_lexeme, found]
  exact ⟨(Nat.zero_add _).symm, rfl⟩

/-- Text without a delimiter goes before the end. -/
theorem CanonicalFrom.text_endOfInput {mode : Mode} {position : Nat} {contents : String}
    (filled : contents ≠ "") (missing : mode.find? (Utf8.encode contents) = none) :
    CanonicalFrom mode true position
      [.text contents ⟨position, position + (Utf8.encode contents).length⟩,
        .endOfInput (position + (Utf8.encode contents).length)] := by
  refine .text filled ?_ .ended
  rw [textStops_iff (Nat.zero_le _), List.drop_zero, Token.sourceText_endOfInput,
    Utf8.encode_empty, List.append_nil, missing]
  exact ⟨rfl, rfl⟩

/-- Bytes that give tokens only give canonical tokens. -/
theorem canonicalFrom_of_passFrom {mode : Mode} {position : Nat} {bytes : List UInt8}
    {tokens : List Token} (same : passFrom mode position bytes = tokens.map .ok) :
    CanonicalFrom mode true position tokens := by
  fun_induction passFrom mode position bytes generalizing tokens with
  | case1 mode position bytes length delimiter found ih =>
      obtain ⟨ends, stands⟩ := Mode.drop_of_find? found
      have size : (bytes.take length).length = length :=
        List.length_take_of_le (Nat.le_of_add_right_le (Mode.find?_within found))
      rcases textThen_eq_map_ok same with
        ⟨empty, following⟩ | ⟨contents, rest, filled, encoding, rfl, following⟩
      · rw [empty] at size
        obtain rfl : 0 = length := size
        obtain ⟨token, behind, rfl, first, later⟩ := List.map_eq_cons_iff.mp following.symm
        cases first
        exact .marker ends (ih later.symm)
      · obtain ⟨token, behind, rfl, first, later⟩ := List.map_eq_cons_iff.mp following.symm
        cases first
        have alone := Mode.find?_take_of_some found
        rw [List.take_add, stands, List.take_left' delimiter.length_bytes, ← encoding] at alone
        rw [← encoding] at size ⊢
        apply CanonicalFrom.text_marker filled
        · rw [alone, size]
        · rw [size]
          exact .marker ends (ih later.symm)
  | case2 mode position bytes missing =>
      rcases textThen_eq_map_ok same with
        ⟨rfl, following⟩ | ⟨contents, rest, filled, rfl, rfl, following⟩
      · obtain ⟨token, rfl, first⟩ := List.map_eq_singleton_iff.mp following.symm
        cases first
        exact .ended
      · obtain ⟨token, rfl, first⟩ := List.map_eq_singleton_iff.mp following.symm
        cases first
        exact .text_endOfInput filled missing

/-- A list of tokens is canonical if and only if it is read again from its own source. -/
theorem canonical_iff_tokenizeString_reconstruct (tokens : List Token) :
    Canonical tokens ↔ tokenizeString (reconstruct tokens) = .ok tokens := by
  have results : tokenizeString (reconstruct tokens) = .ok tokens ↔
      passFrom .literal 0 (tokens.flatMap fun token => Utf8.encode token.sourceText) =
        tokens.map .ok := by
    rw [← encode_reconstruct, ← Reader.template_ofString,
      ← Tokenizer.results_of_steady (Reader.failures_ofString _) .standard]
    exact Tokenizer.collect_eq_ok_iff
  rw [canonical_iff_canonicalFrom, results]
  constructor
  · exact CanonicalFrom.passFrom_eq
  · exact canonicalFrom_of_passFrom

end TemplateLexer
