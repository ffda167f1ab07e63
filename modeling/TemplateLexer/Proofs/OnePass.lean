/-
This file gives the results of a template by one pass over all of its bytes.
-/

import TemplateLexer.Proofs.TextStops
import TemplateLexer.Proofs.Validity
import TemplateLexer.Tokenizer

namespace TemplateLexer

theorem extract_self (template : List UInt8) (position : Nat) :
    template.extract position position = [] := by
  rw [List.extract_eq_take_drop, Nat.sub_self, List.take_zero]

theorem length_extract {template : List UInt8} {start stop : Nat} (ordered : start ≤ stop)
    (inside : stop ≤ template.length) : start + (template.extract start stop).length = stop := by
  rw [List.extract_eq_take_drop, List.length_take, List.length_drop]
  omega

theorem take_drop_eq_extract (template : List UInt8) (start length : Nat) :
    (template.drop start).take length = template.extract start (start + length) := by
  rw [List.extract_eq_take_drop, Nat.add_sub_cancel_left]

theorem extract_append_extract {template : List UInt8} {start middle stop : Nat}
    (first : start ≤ middle) (second : middle ≤ stop) :
    template.extract start middle ++ template.extract middle stop =
      template.extract start stop := by
  obtain ⟨length, rfl⟩ := Nat.exists_eq_add_of_le first
  obtain ⟨more, rfl⟩ := Nat.exists_eq_add_of_le second
  rw [← take_drop_eq_extract template (start + length) more, Nat.add_assoc start length more,
    ← take_drop_eq_extract, ← take_drop_eq_extract, List.take_add, List.drop_drop]

theorem take_append_extract {template : List UInt8} {start stop : Nat} (ordered : start ≤ stop) :
    template.take start ++ template.extract start stop = template.take stop := by
  rw [List.extract_eq_take_drop, ← List.take_add, Nat.add_sub_cancel' ordered]

theorem drop_extract (template : List UInt8) (start stop length : Nat) :
    (template.extract start stop).drop length = template.extract (start + length) stop := by
  rw [List.extract_eq_take_drop, List.extract_eq_take_drop, List.drop_take, List.drop_drop,
    Nat.sub_sub]

/-- A call returns a token or an error. -/
abbrev Result := Except TokenizeError Token

/-- Text between two positions gives one token, and none if there is nothing between them. -/
inductive TextBetween (template : List UInt8) (start stop : Nat) : List Result → Prop where
  | empty (same : start = stop) : TextBetween template start stop []
  | full {contents : String} (filled : start < stop)
      (encoding : Utf8.encode contents = template.extract start stop) :
      TextBetween template start stop [.ok (.text contents ⟨start, stop⟩)]

/-- One pass over the template, from text of a mode that begins at a position. The text stops at the
first delimiter that ends it, whose marker follows it, and the pass goes on behind the delimiter in
its mode; or the text stops at the end. Text that is not valid ends the pass with an error. -/
inductive OnePass (template : List UInt8) : Mode → Nat → List Result → Prop where
  | malformed {mode : Mode} {start stop : Nat} {next : Option Delimiter} {fault : Utf8.Fault}
      (stops : TextStops template mode start stop next)
      (first : Utf8.FirstFault (template.extract start stop) fault) :
      OnePass template mode start
        [.error (.malformedText start (template.extract start stop) fault)]
  | delimited {mode : Mode} {start stop : Nat} {delimiter : Delimiter} {texts results : List Result}
      (stops : TextStops template mode start stop (some delimiter))
      (text : TextBetween template start stop texts)
      (rest : OnePass template delimiter.nextMode (stop + delimiterLength) results) :
      OnePass template mode start (texts ++ .ok (.marker delimiter stop) :: results)
  | ended {mode : Mode} {start stop : Nat} {texts : List Result}
      (stops : TextStops template mode start stop none)
      (text : TextBetween template start stop texts) :
      OnePass template mode start (texts ++ [.ok (.endOfInput template.length)])

/-- The results of a text, with others behind it unless it is malformed. -/
def textThen (start : Nat) (bytes : List UInt8) (others : List Result) : List Result :=
  if bytes.isEmpty then others
  else
    match Utf8.decode bytes with
    | .ok contents => .ok (.text contents ⟨start, start + bytes.length⟩) :: others
    | .error fault => [.error (.malformedText start bytes fault)]

/-- The results of the bytes that stand behind a position of a template. -/
def passFrom (mode : Mode) (position : Nat) (bytes : List UInt8) : List Result :=
  match _found : mode.find? bytes with
  | some (length, delimiter) =>
      textThen position (bytes.take length)
        (.ok (.marker delimiter (position + length)) ::
          passFrom delimiter.nextMode (position + length + delimiterLength)
            (bytes.drop (length + delimiterLength)))
  | none => textThen position bytes [.ok (.endOfInput (position + bytes.length))]
  termination_by bytes.length
  decreasing_by
    have within := Mode.find?_within _found
    have positive : 0 < delimiterLength := by decide
    rw [List.length_drop]
    omega

theorem passFrom_of_some {mode : Mode} {bytes : List UInt8} {length : Nat} {delimiter : Delimiter}
    (found : mode.find? bytes = some (length, delimiter)) (position : Nat) :
    passFrom mode position bytes =
      textThen position (bytes.take length)
        (.ok (.marker delimiter (position + length)) ::
          passFrom delimiter.nextMode (position + length + delimiterLength)
            (bytes.drop (length + delimiterLength))) := by
  rw [passFrom]
  split
  · next found' =>
      rw [found] at found'
      cases found'
      rfl
  · next missing =>
      rw [found] at missing
      contradiction

theorem passFrom_of_none {mode : Mode} {bytes : List UInt8} (missing : mode.find? bytes = none)
    (position : Nat) :
    passFrom mode position bytes =
      textThen position bytes [.ok (.endOfInput (position + bytes.length))] := by
  rw [passFrom]
  split
  · next found =>
      rw [missing] at found
      contradiction
  · rfl

/-- Without bytes there is only the end. -/
theorem passFrom_nil (mode : Mode) (position : Nat) :
    passFrom mode position [] = [.ok (.endOfInput position)] := by
  rw [passFrom_of_none rfl]
  rfl

/-- Text gives nothing, or a token, or an error behind which nothing comes. -/
theorem textThen_cases (start : Nat) (bytes : List UInt8) :
    (∀ others, textThen start bytes others = others) ∨
      (∃ contents span, ∀ others,
        textThen start bytes others = .ok (.text contents span) :: others) ∨
      ∃ error, ∀ others, textThen start bytes others = [.error error] := by
  cases empty : bytes.isEmpty with
  | true => exact .inl fun _ => by rw [textThen, if_pos empty]
  | false =>
      have filled : ¬ bytes.isEmpty = true := by rw [empty]; exact Bool.false_ne_true
      cases read : Utf8.decode bytes with
      | ok contents =>
          exact .inr (.inl ⟨contents, _, fun _ => by rw [textThen, if_neg filled, read]⟩)
      | error fault => exact .inr (.inr ⟨_, fun _ => by rw [textThen, if_neg filled, read]⟩)

theorem textThen_of_textBetween {template : List UInt8} {start stop : Nat} {texts : List Result}
    (text : TextBetween template start stop texts) (inside : stop ≤ template.length)
    (others : List Result) :
    textThen start (template.extract start stop) others = texts ++ others := by
  cases text with
  | empty same =>
      rw [same, extract_self]
      rfl
  | full filled encoding =>
      have length := length_extract (Nat.le_of_lt filled) inside
      have some : (template.extract start stop).isEmpty = false := by
        rw [List.isEmpty_eq_false_iff, ← List.length_pos_iff]
        omega
      simp only [textThen, some, Utf8.decode_eq_ok_iff.mpr encoding, length]
      rfl

theorem textThen_of_firstFault {start : Nat} {bytes : List UInt8} {fault : Utf8.Fault}
    (first : Utf8.FirstFault bytes fault) (others : List Result) :
    textThen start bytes others = [.error (.malformedText start bytes fault)] := by
  have some : bytes.isEmpty = false := by
    rw [List.isEmpty_eq_false_iff, ← List.length_pos_iff]
    exact Nat.zero_lt_of_lt first.within
  simp only [textThen, some, Utf8.decode_eq_error_iff_firstFault.mpr first]
  rfl

/-- Text is empty, or a token, or malformed. -/
theorem textBetween_or_firstFault (template : List UInt8) {start stop : Nat}
    (ordered : start ≤ stop) :
    (∃ texts, TextBetween template start stop texts) ∨
      ∃ fault, Utf8.FirstFault (template.extract start stop) fault := by
  by_cases same : start = stop
  · exact .inl ⟨[], .empty same⟩
  cases read : Utf8.decode (template.extract start stop) with
  | ok contents => exact .inl ⟨_, .full (by omega) (Utf8.decode_eq_ok_iff.mp read)⟩
  | error fault => exact .inr ⟨fault, Utf8.decode_eq_error_iff_firstFault.mp read⟩

/-- The computed pass over the bytes behind text that stops before a delimiter. -/
theorem passFrom_of_before {template : List UInt8} {mode : Mode} {start stop : Nat}
    {delimiter : Delimiter} (stops : TextStops template mode start stop (some delimiter)) :
    passFrom mode start (template.drop start) =
      textThen start (template.extract start stop)
        (.ok (.marker delimiter stop) ::
          passFrom delimiter.nextMode (stop + delimiterLength)
            (template.drop (stop + delimiterLength))) := by
  have inside := Nat.le_trans stops.start_le stops.stop_le
  have place := (textStops_iff inside).mp stops
  cases found : mode.find? (template.drop start) with
  | none => simp [found] at place
  | some pair =>
      obtain ⟨length, other⟩ := pair
      rw [found] at place
      obtain ⟨rfl, same⟩ := place
      cases same
      rw [passFrom_of_some found, take_drop_eq_extract, List.drop_drop, Nat.add_assoc]

/-- The computed pass over the bytes behind text that stops at the end. -/
theorem passFrom_of_atEnd {template : List UInt8} {mode : Mode} {start stop : Nat}
    (stops : TextStops template mode start stop none) :
    passFrom mode start (template.drop start) =
      textThen start (template.extract start stop) [.ok (.endOfInput template.length)] := by
  have inside := Nat.le_trans stops.start_le stops.stop_le
  have place := (textStops_iff inside).mp stops
  cases found : mode.find? (template.drop start) with
  | some pair => simp [found] at place
  | none =>
      rw [found] at place
      obtain ⟨rfl, -⟩ := place
      rw [passFrom_of_none found, List.drop_eq_extract, length_extract inside (Nat.le_refl _)]

theorem OnePass.eq_passFrom {template : List UInt8} {mode : Mode} {start : Nat}
    {results : List Result} (pass : OnePass template mode start results) :
    results = passFrom mode start (template.drop start) := by
  induction pass with
  | @malformed mode start stop next fault stops first =>
      cases next with
      | none => rw [passFrom_of_atEnd stops, textThen_of_firstFault first]
      | some delimiter => rw [passFrom_of_before stops, textThen_of_firstFault first]
  | delimited stops text rest ih =>
      rw [passFrom_of_before stops, textThen_of_textBetween text stops.stop_le, ← ih]
  | ended stops text =>
      rw [passFrom_of_atEnd stops, textThen_of_textBetween text stops.stop_le]

/-- There is a pass from every position of a template. -/
theorem exists_onePass (template : List UInt8) (mode : Mode) {start : Nat}
    (inside : start ≤ template.length) : ∃ results, OnePass template mode start results := by
  -- The induction is on the bytes behind the position, of which each delimiter takes some.
  induction left : template.length - start using Nat.strongRecOn generalizing mode start with
  | ind left ih =>
      obtain ⟨stop, next, stops⟩ := exists_textStops mode inside
      rcases textBetween_or_firstFault template stops.start_le with
        ⟨texts, text⟩ | ⟨fault, first⟩
      · cases next with
        | none => exact ⟨_, .ended stops text⟩
        | some delimiter =>
            have below := stops.stop_add_le
            have ordered := stops.start_le
            have positive : 0 < delimiterLength := by decide
            obtain ⟨results, rest⟩ := ih (template.length - (stop + delimiterLength)) (by omega)
              delimiter.nextMode below rfl
            exact ⟨_, .delimited stops text rest⟩
      · exact ⟨_, .malformed stops first⟩

/-- The rule of the one pass and its computation agree. -/
theorem onePass_iff {template : List UInt8} {mode : Mode} {start : Nat} {results : List Result}
    (inside : start ≤ template.length) :
    OnePass template mode start results ↔ results = passFrom mode start (template.drop start) := by
  constructor
  · exact OnePass.eq_passFrom
  · rintro rfl
    obtain ⟨results, pass⟩ := exists_onePass template mode inside
    rw [← pass.eq_passFrom]
    exact pass

end TemplateLexer
