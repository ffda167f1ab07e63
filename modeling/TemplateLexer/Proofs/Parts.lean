import TemplateLexer.Proofs.Streaming

namespace TemplateLexer

/-- The span behind so many more bytes. -/
def Span.behind (span : Span) (count : Nat) : Span := ⟨count + span.start, count + span.stop⟩

def Token.behind (token : Token) (count : Nat) : Token :=
  { token with span := token.span.behind count }

/-- The error behind so many more bytes. The text that it is about stays the same. -/
def TokenizeError.behind (count : Nat) : TokenizeError → TokenizeError
  | readFailed offset failure => readFailed (count + offset) failure
  | malformedText start bytes fault => malformedText (count + start) bytes fault
  | capacityTooSmall size => capacityTooSmall size

def resultBehind (count : Nat) : Result → Result
  | .ok token => .ok (token.behind count)
  | .error error => .error (error.behind count)

theorem behind_text (count : Nat) (contents : String) (start length : Nat) :
    (Token.text contents ⟨start, start + length⟩).behind count =
      .text contents ⟨count + start, count + start + length⟩ := by
  rw [Nat.add_assoc]
  rfl

theorem behind_marker (count : Nat) (delimiter : Delimiter) (position : Nat) :
    (Token.marker delimiter position).behind count = .marker delimiter (count + position) := rfl

theorem behind_endOfInput (count offset : Nat) :
    (Token.endOfInput offset).behind count = .endOfInput (count + offset) := rfl

theorem textThen_add (count start : Nat) (bytes : List UInt8) (others : List Result) :
    textThen (count + start) bytes (others.map (resultBehind count)) =
      (textThen start bytes others).map (resultBehind count) := by
  simp only [textThen]
  split
  · rfl
  · split
    · rw [List.map_cons, resultBehind, behind_text]
    · rfl

/-- The pass gives the same results wherever the bytes stand, with the places moved. -/
theorem passFrom_add (mode : Mode) (count position : Nat) (bytes : List UInt8) :
    passFrom mode (count + position) bytes =
      (passFrom mode position bytes).map (resultBehind count) := by
  fun_induction passFrom mode position bytes with
  | case1 mode position bytes length delimiter found ih =>
      rw [passFrom_of_some found, ← textThen_add, List.map_cons, ← ih]
      simp only [resultBehind, behind_marker, Nat.add_assoc]
  | case2 mode position bytes missing =>
      rw [passFrom_of_none missing, ← textThen_add, List.map_singleton]
      simp only [resultBehind, behind_endOfInput, Nat.add_assoc]

/-- Bytes up to the first delimiter are read in the same way whatever follows them. -/
theorem passFrom_take_append {mode : Mode} {bytes : List UInt8} {length : Nat}
    {delimiter : Delimiter} (found : mode.find? bytes = some (length, delimiter))
    (position : Nat) (more : List UInt8) :
    passFrom mode position (bytes.take (length + delimiterLength) ++ more) =
      textThen position (bytes.take length)
        (.ok (.marker delimiter (position + length)) ::
          passFrom delimiter.nextMode (position + length + delimiterLength) more) := by
  have within := Mode.find?_within found
  have size : (bytes.take (length + delimiterLength)).length = length + delimiterLength :=
    List.length_take_of_le within
  have same := Mode.find?_append_of_some (Mode.find?_take_of_some found) more
  rw [passFrom_of_some same, List.take_append_of_le_length (by omega), List.take_take,
    Nat.min_eq_left (Nat.le_add_right _ _), List.drop_left' size]

/-- A token of another kind is among the results behind the text, and these follow the text whatever
they are. -/
theorem textThen_eq_append {start : Nat} {bytes : List UInt8} {others front behind : List Result}
    {token : Token} (split : textThen start bytes others = front ++ .ok token :: behind)
    (other : token.kind ≠ .text) :
    ∃ texts rest, front = texts ++ rest ∧ others = rest ++ .ok token :: behind ∧
      ∀ others', textThen start bytes others' = texts ++ others' := by
  rcases textThen_cases start bytes with nothing | ⟨contents, span, text⟩ | ⟨error, malformed⟩
  · rw [nothing] at split
    exact ⟨[], front, rfl, split, nothing⟩
  · rw [text] at split
    rcases List.cons_eq_append_iff.mp split with ⟨-, same⟩ | ⟨rest, rfl, same⟩
    · cases same
      contradiction
    · exact ⟨[_], rest, rfl, same, text⟩
  · rw [malformed] at split
    rcases List.cons_eq_append_iff.mp split with ⟨-, same⟩ | ⟨rest, -, same⟩
    · cases same
    · exact absurd same.symm (List.append_ne_nil_of_right_ne_nil _ (List.cons_ne_nil _ _))

/-- What stands before and in a delimiter is read in the same way whatever follows, and what follows
is read in the mode of the delimiter. -/
theorem passFrom_of_marker {mode : Mode} {position : Nat} {bytes : List UInt8}
    {front behind : List Result} {token : Token} {delimiter : Delimiter}
    (split : passFrom mode position bytes = front ++ .ok token :: behind)
    (isMarker : token.kind = .marker delimiter) :
    ∃ count, count ≤ bytes.length ∧ token.span.stop = position + count ∧
      ∀ more, passFrom mode position (bytes.take count ++ more) =
        front ++ .ok token :: passFrom delimiter.nextMode (position + count) more := by
  have notText : token.kind ≠ .text := by rw [isMarker]; exact Kind.noConfusion
  fun_induction passFrom mode position bytes generalizing front with
  | case1 mode position bytes length first found ih =>
      have within := Mode.find?_within found
      obtain ⟨texts, rest, rfl, following, text⟩ := textThen_eq_append split notText
      rcases List.cons_eq_append_iff.mp following with ⟨rfl, same⟩ | ⟨others, rfl, later⟩
      · cases same
        cases isMarker
        refine ⟨length + delimiterLength, within, Nat.add_assoc _ _ _, ?_⟩
        intro more
        rw [passFrom_take_append found, text, List.append_nil, Nat.add_assoc]
      · obtain ⟨count, inside, stop, same⟩ := ih later
        rw [List.length_drop] at inside
        refine ⟨length + delimiterLength + count, by omega, ?_, ?_⟩
        · rw [stop]
          omega
        · intro more
          rw [List.take_add, List.append_assoc, passFrom_take_append found, same, text]
          simp only [List.append_assoc, List.cons_append, Nat.add_assoc]
  | case2 mode position bytes missing =>
      obtain ⟨texts, rest, -, following, -⟩ := textThen_eq_append split notText
      rcases List.cons_eq_append_iff.mp following with ⟨-, same⟩ | ⟨rest, -, same⟩
      · cases same
        contradiction
      · exact absurd same.symm (List.append_ne_nil_of_right_ne_nil _ (List.cons_ne_nil _ _))

/-- Behind a marker the pass goes on with the bytes behind it. -/
theorem passFrom_cut {mode : Mode} {position : Nat} {bytes : List UInt8}
    {front behind : List Result} {token : Token} {delimiter : Delimiter}
    (split : passFrom mode position bytes = front ++ .ok token :: behind)
    (isMarker : token.kind = .marker delimiter) :
    ∃ count, count ≤ bytes.length ∧ token.span.stop = position + count ∧
      behind = passFrom delimiter.nextMode (position + count) (bytes.drop count) ∧
      ∀ more, passFrom mode position (bytes.take count ++ more) =
        front ++ .ok token :: passFrom delimiter.nextMode (position + count) more := by
  obtain ⟨count, inside, stop, same⟩ := passFrom_of_marker split isMarker
  refine ⟨count, inside, stop, ?_, same⟩
  have whole := same (bytes.drop count)
  rw [List.take_append_drop, split] at whole
  exact (List.cons.inj (List.append_cancel_left whole)).2

/-- The results of a tokenizer that reads the bytes. -/
def resultsOf (capacity : Capacity) (bytes : List UInt8) : List Result :=
  (Tokenizer.ofReader (.ofDeliveries [.bytes bytes]) capacity).run.map Step.result

theorem resultsOf_eq (capacity : Capacity) (bytes : List UInt8) :
    resultsOf capacity bytes = passFrom .literal 0 bytes := by
  rw [resultsOf, Tokenizer.results_of_steady (Reader.failures_ofBytes bytes),
    Reader.template_ofBytes]

/-- If there is only the end, then there are no bytes. -/
theorem eq_nil_of_passFrom {mode : Mode} {position : Nat} {bytes : List UInt8} {token : Token}
    (only : passFrom mode position bytes = [.ok token]) (isEnd : token.isEnd = true) :
    bytes = [] := by
  cases found : mode.find? bytes with
  | some pair =>
      rw [passFrom_of_some found] at only
      rcases textThen_cases position (bytes.take pair.1) with same | ⟨_, _, same⟩ | ⟨_, same⟩
      · rw [same] at only
        cases (List.cons.inj only).1
        contradiction
      · rw [same] at only
        cases (List.cons.inj only).2
      · rw [same] at only
        cases (List.cons.inj only).1
  | none =>
      rw [passFrom_of_none found] at only
      cases bytes with
      | nil => rfl
      | cons byte bytes =>
          simp only [textThen, List.isEmpty_cons, Bool.false_eq_true, if_false] at only
          split at only
          · cases (List.cons.inj only).2
          · cases (List.cons.inj only).1

/-- The template is empty, or it ends with the closing delimiter of a construct. -/
def ClosedAtEnd (capacity : Capacity) (template : List UInt8) : Prop :=
  template = [] ∨ ∃ front token construct last,
    resultsOf capacity template = front ++ [.ok token, .ok last] ∧
      token.kind = .marker (.closing construct) ∧ last.isEnd = true

/-- A template can be cut behind each closing marker. The part up to the cut has the results up to
the marker, and then the end; the part behind the cut has the results behind the marker, counted
from the cut. The other way round, a template that ends there can be continued by any other: the
results of the other, counted from where it begins, take the place of the end. -/
theorem results_cut (capacity : Capacity) :
    (∀ (template : List UInt8) (front behind : List Result) (token : Token)
        (construct : Construct),
      resultsOf capacity template = front ++ .ok token :: behind →
      token.kind = .marker (.closing construct) →
      resultsOf capacity (template.take token.span.stop) =
          front ++ [.ok token, .ok (.endOfInput token.span.stop)] ∧
        behind = (resultsOf capacity (template.drop token.span.stop)).map
          (resultBehind token.span.stop)) ∧
      ∀ first second : List UInt8, ClosedAtEnd capacity first →
        resultsOf capacity (first ++ second) =
          (resultsOf capacity first).dropLast ++
            (resultsOf capacity second).map (resultBehind first.length) := by
  simp only [ClosedAtEnd, resultsOf_eq, ← passFrom_add, Nat.add_zero]
  constructor
  · intro template front behind token construct split isMarker
    obtain ⟨count, inside, stop, rest, same⟩ := passFrom_cut split isMarker
    rw [Nat.zero_add] at stop rest same
    rw [stop]
    refine ⟨?_, rest⟩
    rw [← List.append_nil (template.take count), same, passFrom_nil]
  · intro first second closed
    rcases closed with rfl | ⟨front, token, construct, last, split, isMarker, isEnd⟩
    · rw [passFrom_nil]
      rfl
    · obtain ⟨count, inside, stop, rest, same⟩ := passFrom_cut split isMarker
      have nothing := List.drop_eq_nil_iff.mp (eq_nil_of_passFrom rest.symm isEnd)
      obtain rfl : first.length = count := Nat.le_antisymm nothing inside
      have both := same second
      rw [Nat.zero_add, List.take_length] at both
      rw [both, split, List.dropLast_append_cons, List.dropLast_cons_cons, List.append_assoc]
      rfl

/-- The third brace in a row stands behind the cut, where the text begins that is malformed. -/
theorem results_cut_before_third_brace :
    let capacity : Capacity := ⟨2, by decide⟩
    let first : List UInt8 := [0x7B, 0x7B, 0x61, 0x7D, 0x7D]
    let second : List UInt8 := [0x7D, 0xFF]
    let front : List Result :=
      [.ok (.marker (.opening .interpolation) 0), .ok (.text "a" ⟨2, 3⟩)]
    let token := Token.marker (.closing .interpolation) 3
    let behind : List Result := [.error (.malformedText 5 [0x7D, 0xFF] ⟨1, some 1⟩)]
    resultsOf capacity (first ++ second) = front ++ .ok token :: behind ∧
      (resultsOf capacity first = front ++ [.ok token, .ok (.endOfInput 5)] ∧
        behind = (resultsOf capacity second).map (resultBehind 5)) ∧
      ClosedAtEnd capacity first ∧
      resultsOf capacity (first ++ second) =
        (resultsOf capacity first).dropLast ++
          (resultsOf capacity second).map (resultBehind 5) := by
  intro capacity first second front token behind
  have split : resultsOf capacity (first ++ second) = front ++ .ok token :: behind := by
    decide +kernel
  have parts :=
    (results_cut capacity).1 (first ++ second) front behind token .interpolation split rfl
  have closed : ClosedAtEnd capacity first :=
    .inr ⟨front, token, .interpolation, _, parts.1, rfl, rfl⟩
  exact ⟨split, parts, closed, (results_cut capacity).2 first second closed⟩

end TemplateLexer
