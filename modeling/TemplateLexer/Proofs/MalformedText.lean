import TemplateLexer.Proofs.Cuts
import TemplateLexer.Proofs.Session
import TemplateLexer.Proofs.Streaming

namespace TemplateLexer

/-- The text regions from text of a mode that begins at a position on: this text, and the regions
from the text behind its delimiter on. -/
inductive TextRegion (template : List UInt8) :
    Mode → Nat → Nat → Nat → Option Delimiter → Prop where
  | here {mode : Mode} {start stop : Nat} {next : Option Delimiter}
      (stops : TextStops template mode start stop next) :
      TextRegion template mode start start stop next
  | behind {mode : Mode} {position middle start stop : Nat} {delimiter : Delimiter}
      {next : Option Delimiter} (stops : TextStops template mode position middle (some delimiter))
      (rest : TextRegion template delimiter.nextMode (middle + delimiterLength) start stop next) :
      TextRegion template mode position start stop next

namespace TextRegion

variable {template : List UInt8} {mode : Mode} {position start stop : Nat}
  {next : Option Delimiter}

theorem le_start (region : TextRegion template mode position start stop next) :
    position ≤ start := by
  induction region with
  | here stops => exact Nat.le_refl _
  | behind stops rest ih => exact Nat.le_trans stops.start_le (Nat.le_of_add_right_le ih)

/-- A place in a template lies in at most one text region. -/
theorem unique {start' stop' place : Nat} {next' : Option Delimiter}
    (first : TextRegion template mode position start stop next)
    (second : TextRegion template mode position start' stop' next')
    (above : start ≤ place) (below : place < stop) (above' : start' ≤ place)
    (below' : place < stop') : start = start' ∧ stop = stop' ∧ next = next' := by
  induction first with
  | here stops =>
      cases second with
      | here stops' => exact ⟨rfl, stops.unique stops'⟩
      | behind stops' rest' =>
          obtain ⟨rfl, -⟩ := stops.unique stops'
          have later := rest'.le_start
          omega
  | behind stops rest ih =>
      cases second with
      | here stops' =>
          obtain ⟨rfl, -⟩ := stops.unique stops'
          have later := rest.le_start
          omega
      | behind stops' rest' =>
          obtain ⟨rfl, same⟩ := stops.unique stops'
          obtain rfl := Option.some.inj same
          exact ih rest' above below

end TextRegion

/-- The fault of a region is the part of the fault of the template that shows within the region. It
is counted from the region's start. It has the same length, unless the region ends within bytes that
are valid so far and a delimiter follows: then the region does not show what follows. -/
structure ShowsWithin (template : List UInt8) (start stop : Nat) (next : Option Delimiter)
    (whole fault : Utf8.Fault) : Prop where
  above : start ≤ whole.validLength
  below : whole.validLength < stop
  place : fault.validLength = whole.validLength - start
  cut : next.isSome = true → Utf8.ValidSoFar (template.extract whole.validLength stop) →
    fault.errorLength = none ∧ whole.errorLength = some (stop - whole.validLength)
  same : ¬ (next.isSome = true ∧ Utf8.ValidSoFar (template.extract whole.validLength stop)) →
    fault.errorLength = whole.errorLength

/-- The results are tokens and then one error, which is about the text region that holds the first
fault of the template. -/
def ReportsFirstFault (template : List UInt8) (mode : Mode) (position : Nat)
    (results : List Result) : Prop :=
  ∃ (tokens : List Token) (start stop : Nat) (next : Option Delimiter) (whole fault : Utf8.Fault),
    results = tokens.map .ok ++
        [.error (.malformedText start (template.extract start stop) fault)] ∧
      (TokenizeError.malformedText start (template.extract start stop) fault).offset? =
        some whole.validLength ∧
      TextRegion template mode position start stop next ∧
      Utf8.FirstFault template whole ∧
      Utf8.FirstFault (template.extract start stop) fault ∧
      ShowsWithin template start stop next whole fault

theorem Delimiter.firstByte_ascii (delimiter : Delimiter) : delimiter.firstByte < 0x80 := by
  cases delimiter with
  | opening construct => cases construct <;> decide
  | closing construct => cases construct <;> decide

theorem Delimiter.valid_bytes (delimiter : Delimiter) : Utf8.Valid delimiter.bytes := by
  rw [← Delimiter.encode_lexeme]
  exact Utf8.valid_encode delimiter.lexeme

theorem TextStops.drop_eq_append {template : List UInt8} {mode : Mode} {start stop : Nat}
    {delimiter : Delimiter} (stops : TextStops template mode start stop (some delimiter)) :
    ∃ rest, template.drop stop = delimiter.bytes ++ rest := by
  cases stops with
  | before after ends stands =>
      obtain ⟨rest, split⟩ := stands
      exact ⟨rest, split.symm⟩

/-- Text that gives no error is valid. -/
theorem TextBetween.valid {template : List UInt8} {start stop : Nat} {texts : List Result}
    (text : TextBetween template start stop texts) : Utf8.Valid (template.extract start stop) := by
  cases text with
  | empty same =>
      rw [same, extract_self]
      exact Utf8.valid_encode ""
  | full filled encoding =>
      rw [← encoding]
      exact Utf8.valid_encode _

theorem TextBetween.exists_tokens {template : List UInt8} {start stop : Nat} {texts : List Result}
    (text : TextBetween template start stop texts) :
    ∃ tokens : List Token, texts = tokens.map .ok := by
  cases text with
  | empty same => exact ⟨[], rfl⟩
  | full filled encoding => exact ⟨[_], rfl⟩

section Regions

variable {template : List UInt8} {mode : Mode} {start stop : Nat} {next : Option Delimiter}

/-- Behind valid text and its delimiter the template is valid up to there. -/
theorem valid_take_behind {delimiter : Delimiter} {texts : List Result}
    (sound : Utf8.Valid (template.take start))
    (stops : TextStops template mode start stop (some delimiter))
    (text : TextBetween template start stop texts) :
    Utf8.Valid (template.take (stop + delimiterLength)) := by
  obtain ⟨rest, split⟩ := stops.drop_eq_append
  have marker : (template.drop stop).take delimiterLength = delimiter.bytes := by
    rw [split, ← delimiter.length_bytes, List.take_left]
  rw [List.take_add, marker, ← take_append_extract stops.start_le]
  exact (sound.append text.valid).append delimiter.valid_bytes

/-- A region stands between what is before it and what is behind it. -/
theorem TextStops.template_eq (stops : TextStops template mode start stop next) :
    template = template.take start ++ (template.extract start stop ++ template.drop stop) := by
  rw [← List.append_assoc, take_append_extract stops.start_le, List.take_append_drop]

theorem TextStops.length_take (stops : TextStops template mode start stop next) :
    (template.take start).length = start := by
  rw [List.length_take]
  exact Nat.min_eq_left (Nat.le_trans stops.start_le stops.stop_le)

/-- The fault of the last region is the first fault of the template if everything before the region
is valid. -/
theorem firstFault_of_atEnd {fault : Utf8.Fault} (sound : Utf8.Valid (template.take start))
    (stops : TextStops template mode start stop none)
    (first : Utf8.FirstFault (template.extract start stop) fault) :
    Utf8.FirstFault template (fault.behind start) := by
  have located := first.append_left sound
  have ended : template.drop stop = [] := by
    rw [stops.stop_eq_length]
    exact List.drop_length
  have parts := stops.template_eq
  rw [ended, List.append_nil] at parts
  rw [stops.length_take, ← parts] at located
  exact located

/-- Before a delimiter the fault of the region is closed by the delimiter. -/
theorem firstFault_of_before {fault : Utf8.Fault} {delimiter : Delimiter}
    (sound : Utf8.Valid (template.take start))
    (stops : TextStops template mode start stop (some delimiter))
    (first : Utf8.FirstFault (template.extract start stop) fault) :
    Utf8.FirstFault template
      ((fault.closedAt (template.extract start stop).length).behind start) := by
  obtain ⟨rest, split⟩ := stops.drop_eq_append
  have closed := first.append_ascii delimiter.firstByte_ascii (delimiter.secondByte :: rest)
  have located := closed.append_left sound
  have behind : template.drop stop = delimiter.firstByte :: delimiter.secondByte :: rest := split
  rw [← behind, stops.length_take, ← stops.template_eq] at located
  exact located

/-- If everything before a region is valid, then the region's fault is the first fault of the
template, as far as it shows. -/
theorem exists_showsWithin {fault : Utf8.Fault} (sound : Utf8.Valid (template.take start))
    (stops : TextStops template mode start stop next)
    (first : Utf8.FirstFault (template.extract start stop) fault) :
    ∃ whole, Utf8.FirstFault template whole ∧ whole.validLength = start + fault.validLength ∧
      ShowsWithin template start stop next whole fault := by
  have size := length_extract stops.start_le stops.stop_le
  have within := first.within
  have below : start + fault.validLength < stop := by omega
  have going : Utf8.ValidSoFar (template.extract (start + fault.validLength) stop) ↔
      fault.errorLength = none := by
    rw [← drop_extract]
    exact first.validSoFar_iff
  cases next with
  | none =>
      exact ⟨_, firstFault_of_atEnd sound stops first, rfl,
        { above := Nat.le_add_right _ _
          below := below
          place := (Nat.add_sub_cancel_left _ _).symm
          cut := fun marked => absurd marked Bool.false_ne_true
          same := fun _ => rfl }⟩
  | some delimiter =>
      exact ⟨_, firstFault_of_before sound stops first, rfl,
        { above := Nat.le_add_right _ _
          below := below
          place := (Nat.add_sub_cancel_left _ _).symm
          cut := fun _ valid => by
            have none := going.mp valid
            apply And.intro none
            simp only [Utf8.Fault.behind, Utf8.Fault.closedAt, none, Option.getD_none]
            congr 1
            omega
          same := fun uncut => by
            cases covered : fault.errorLength with
            | none => exact absurd ⟨rfl, going.mpr covered⟩ uncut
            | some length =>
                simp only [Utf8.Fault.behind, Utf8.Fault.closedAt, covered, Option.getD_some] }⟩

/-- A pass that begins behind valid bytes returns tokens only, and then the template is valid, or it
reports the first fault of the template. -/
theorem OnePass.valid_or_reports {results : List Result}
    (pass : OnePass template mode start results) (sound : Utf8.Valid (template.take start)) :
    (Utf8.Valid template ∧ ∃ tokens : List Token, results = tokens.map .ok) ∨
      ReportsFirstFault template mode start results := by
  induction pass with
  | malformed stops first =>
      obtain ⟨whole, located, place, shows⟩ := exists_showsWithin sound stops first
      exact .inr ⟨[], _, _, _, whole, _, rfl, congrArg some place.symm, .here stops, located, first,
        shows⟩
  | @delimited mode start stop delimiter texts results stops text rest ih =>
      obtain ⟨texts, rfl⟩ := text.exists_tokens
      rcases ih (valid_take_behind sound stops text) with ⟨valid, tokens, rfl⟩ | reports
      · exact .inl ⟨valid, texts ++ .marker delimiter stop :: tokens, by simp⟩
      · obtain ⟨tokens, start', stop', next, whole, fault, rfl, place, region, others⟩ := reports
        exact .inr ⟨texts ++ .marker delimiter stop :: tokens, start', stop', next, whole, fault,
          by simp, place, .behind stops region, others⟩
  | ended stops text =>
      obtain ⟨texts, rfl⟩ := text.exists_tokens
      have valid := sound.append text.valid
      rw [take_append_extract stops.start_le, stops.stop_eq_length, List.take_length] at valid
      exact .inl ⟨valid, texts ++ [.endOfInput template.length], by simp⟩

end Regions

/-- Results that report a fault are not tokens only. -/
theorem ReportsFirstFault.ne_tokens {template : List UInt8} {mode : Mode} {position : Nat}
    {results : List Result} (reports : ReportsFirstFault template mode position results)
    (tokens : List Token) : results ≠ tokens.map .ok := by
  obtain ⟨others, start, stop, next, whole, fault, rfl, -⟩ := reports
  intro same
  have member : (.error (.malformedText start (template.extract start stop) fault) : Result) ∈
      tokens.map .ok := by
    rw [← same]
    exact List.mem_append_right _ List.mem_cons_self
  obtain ⟨token, -, other⟩ := List.mem_map.mp member
  contradiction

theorem ReportsFirstFault.not_valid {template : List UInt8} {mode : Mode} {position : Nat}
    {results : List Result} (reports : ReportsFirstFault template mode position results) :
    ¬ Utf8.Valid template := by
  obtain ⟨_, _, _, _, whole, _, _, _, _, first, _⟩ := reports
  exact first.not_valid

namespace Tokenizer

/-- The results of a run without failed reads are tokens only, or report the first fault. -/
theorem run_valid_or_reports {reader : Reader} (steady : reader.failures = [])
    (capacity : Capacity) :
    (Utf8.Valid reader.template ∧
        ∃ tokens : List Token, (ofReader reader capacity).run.map Step.result = tokens.map .ok) ∨
      ReportsFirstFault reader.template .literal 0
        ((ofReader reader capacity).run.map Step.result) := by
  rw [results_of_steady steady]
  have pass : OnePass reader.template .literal 0 (passFrom .literal 0 reader.template) :=
    (onePass_iff (Nat.zero_le _)).mpr rfl
  exact pass.valid_or_reports (Utf8.valid_encode "")

/-- If no read fails, then a run returns tokens only if and only if the template is valid, and
otherwise it reports the first fault of the template. So the tokens of a text are always found. -/
theorem run_ok_iff_valid (reader : Reader) (capacity : Capacity) (steady : reader.failures = []) :
    let results := (ofReader reader capacity).run.map Step.result
    ((∃ tokens : List Token, results = tokens.map .ok) ↔ Utf8.Valid reader.template) ∧
      (¬ Utf8.Valid reader.template → ReportsFirstFault reader.template .literal 0 results) ∧
      ∀ text, ∃ tokens, tokenizeString text = .ok tokens := by
  intro results
  have texts (text : String) : ∃ tokens, tokenizeString text = .ok tokens := by
    rcases run_valid_or_reports (Reader.failures_ofString text) .standard with
      ⟨-, tokens, same⟩ | reports
    · exact ⟨tokens, collect_eq_ok_iff.mpr same⟩
    · have invalid := reports.not_valid
      rw [Reader.template_ofString] at invalid
      exact absurd (Utf8.valid_encode text) invalid
  rcases run_valid_or_reports steady capacity with ⟨valid, tokens⟩ | reports
  · exact ⟨⟨fun _ => valid, fun _ => tokens⟩, fun invalid => absurd valid invalid, texts⟩
  · refine ⟨⟨?_, ?_⟩, fun _ => reports, texts⟩
    · rintro ⟨tokens, same⟩
      exact absurd same (reports.ne_tokens tokens)
    · intro valid
      exact absurd valid reports.not_valid

/-- A template that ends a text within a character. The text does not show what follows it, but the
template does. -/
theorem run_ok_iff_valid_cut_within_character :
    let reader := Reader.ofDeliveries
      [.bytes [0x7B, 0x7B, 0x61, 0xE2], .interruption, .bytes [0x82, 0x7D], .bytes [0x7D]]
    reader.failures = [] ∧ ¬ Utf8.Valid reader.template ∧
      ReportsFirstFault reader.template .literal 0
        [.ok (.marker (.opening .interpolation) 0),
          .error (.malformedText 2 [0x61, 0xE2, 0x82] ⟨1, none⟩)] := by
  intro reader
  have steady : reader.failures = [] := by decide
  have invalid : ¬ Utf8.Valid reader.template := by decide +kernel
  have reports := (run_ok_iff_valid reader ⟨2, by decide⟩ steady).2.1 invalid
  have results : (ofReader reader ⟨2, by decide⟩).run.map Step.result =
      [.ok (.marker (.opening .interpolation) 0),
        .error (.malformedText 2 [0x61, 0xE2, 0x82] ⟨1, none⟩)] := by decide +kernel
  rw [results] at reports
  exact ⟨steady, invalid, reports⟩

end Tokenizer

end TemplateLexer
