import TemplateLexer.Proofs.Unclosed
import TemplateLexer.Proofs.Session

namespace TemplateLexer

/-- The results of the steps without the failed reads. -/
def lasting (steps : List Step) : List Result :=
  (steps.map Step.result).filter fun result => !isReadFailure result

theorem lasting_concat_of_failed {step : Step} (failed : isReadFailure step.result = true)
    (past : List Step) : lasting (past ++ [step]) = lasting past := by
  simp [lasting, failed]

theorem lasting_concat_of_ok {step : Step} {token : Token} (returned : step.result = .ok token)
    (past : List Step) : lasting (past ++ [step]) = lasting past ++ [.ok token] := by
  simp [lasting, returned]

/-- The report of the token that a step returns. -/
def Token.event (token : Token) : Event := .token token.kind token.span

/-- The last of the reads met the end. -/
def EndMet (reads : List ReadRecord) : Prop :=
  ∃ before record, reads = before ++ [record] ∧ record.delivery = .bytes []

/-- If a source is exhausted while a scan goes on, then the last read has met the end and the unread
bytes hold no delimiter. So the scan stops at the end then, and at nothing else. -/
theorem endMet_scanFrom (mode : Mode) (region : Region) {source : Source}
    {reads : Array ReadRecord}
    (met : source.exhausted = true → mode.find? source.unread = none ∧ EndMet reads.toList) :
    let scan := scanFrom mode region source reads
    (scan.result = .ok .endOfInput → EndMet scan.reads.toList) ∧
      (scan.result ≠ .ok .endOfInput → scan.after.exhausted = false) := by
  fun_induction scanFrom mode region source reads with
  | case1 region source reads position delimiter found =>
      have unended : source.exhausted = false := by
        rw [Bool.eq_false_iff]
        intro ended
        exact Option.some_ne_none _ (found.symm.trans (met ended).1)
      refine ⟨?_, fun _ => unended⟩
      intro other
      cases other
  | case2 region source reads missing ended =>
      exact ⟨fun _ => (met ended).2, fun other => absurd rfl other⟩
  | case3 region source reads missing unfinished settled grown read failure failed =>
      have more : read.1.delivery ≠ .bytes [] := by
        rw [failed]
        exact Delivery.noConfusion
      have unended : (source.advance settled).exhausted = false := Bool.eq_false_iff.mpr unfinished
      refine ⟨?_, fun _ => Source.exhausted_refill_of_more unended more⟩
      intro other
      cases other
  | case4 region source reads missing unfinished settled grown read going ih =>
      apply ih
      intro ended
      have delivered : read.1.delivery = .bytes [] :=
        ((Source.exhausted_refill_iff _).mp ended).resolve_left unfinished
      have unread : read.2.unread = source.unread.drop settled := by
        rw [Source.unread_refill, delivered, Source.unread_advance]
        exact List.append_nil _
      constructor
      · rw [unread, Mode.find?_eq_none_iff]
        intro index
        rw [List.drop_drop]
        exact (Mode.find?_eq_none_iff _ _).mp missing _
      · exact ⟨reads.toList, read.1, Array.toList_push, delivered⟩

namespace Tokenizer

/-- Only the marker of a delimiter leads to text, which is of the delimiter's next mode. -/
theorem scanning_of_pay {source : Source} {due : Due} {mode : Mode} {region : Region}
    (phase : (pay source due).2.phase = .scanning mode region) :
    ∃ delimiter, (pay source due).1.kind = .marker delimiter ∧ delimiter.nextMode = mode := by
  cases due with
  | marker delimiter position =>
      cases phase
      exact ⟨delimiter, rfl, rfl⟩
  | endOfInput => contradiction

theorem scanning_of_flush {region : Region} {due : Due} {events : List Event} {source : Source}
    {mode : Mode} {region' : Region}
    (phase : (flush region due events source).after.phase = .scanning mode region') :
    ∃ marker delimiter, (flush region due events source).result = .ok marker ∧
      marker.kind = .marker delimiter ∧ delimiter.nextMode = mode := by
  simp only [flush] at phase ⊢
  split at phase
  · next empty =>
      obtain ⟨delimiter, isMarker, next⟩ := scanning_of_pay phase
      rw [if_pos empty]
      exact ⟨_, delimiter, rfl, isMarker, next⟩
  · split at phase <;> contradiction

/-- A tokenizer is within a text because it was before a failed read, or because the call has
returned the marker that leads to the text. -/
theorem scanning_of_next {tokenizer : Tokenizer} {mode : Mode} {region : Region}
    (after : tokenizer.next.after.phase = .scanning mode region) :
    (isReadFailure tokenizer.next.result = true ∧
        ∃ region, tokenizer.phase = .scanning mode region) ∨
      ∃ marker delimiter, tokenizer.next.result = .ok marker ∧
        marker.kind = .marker delimiter ∧ delimiter.nextMode = mode := by
  match phase : tokenizer.phase with
  | .finished =>
      simp only [next, phase, returning] at after
      contradiction
  | .owing due =>
      simp only [next, phase] at after ⊢
      obtain ⟨delimiter, isMarker, next⟩ := scanning_of_pay after
      exact .inr ⟨_, delimiter, rfl, isMarker, next⟩
  | .scanning mode' region' =>
      simp only [next, phase] at after ⊢
      split at after
      · exact .inr (scanning_of_flush after)
      · cases after
        exact .inl ⟨rfl, _, rfl⟩

/-- A flush behind which the end is due leaves nothing but the end to come. -/
theorem phase_flush_endOfInput (region : Region) (events : List Event) (source : Source) :
    (flush region .endOfInput events source).after.phase = .finished ∨
      (flush region .endOfInput events source).after.phase = .owing .endOfInput := by
  simp only [flush]
  split
  · exact .inl rfl
  · split
    · exact .inr rfl
    · exact .inl rfl

/-- As long as more than the end is to come, no read has met the end. Within the body of a construct
the last result was the opening marker of the construct. -/
structure Underway (past : List Step) (tokenizer : Tokenizer) : Prop where
  sound : tokenizer.Sound
  unended : tokenizer.phase ≠ .finished → tokenizer.phase ≠ .owing .endOfInput →
    tokenizer.source.exhausted = false
  opened : ∀ construct region, tokenizer.phase = .scanning (.inside construct) region →
    ∃ front opening, lasting past = front ++ [.ok opening] ∧
      opening.kind = .marker (.opening construct)

theorem underway_ofReader (reader : Reader) (capacity : Capacity) :
    Underway [] (ofReader reader capacity) where
  sound := sound_ofReader reader capacity
  unended := fun _ _ => rfl
  opened := by
    intro construct region phase
    cases phase

/-- Within a text no read has met the end, so that the scan meets it by a read of its own. -/
theorem Underway.endMet_scanFrom {past : List Step} {tokenizer : Tokenizer}
    (underway : Underway past tokenizer) {mode : Mode} {region : Region}
    (phase : tokenizer.phase = .scanning mode region) :
    let scan := scanFrom mode region tokenizer.source #[]
    (scan.result = .ok .endOfInput → EndMet scan.reads.toList) ∧
      (scan.result ≠ .ok .endOfInput → scan.after.exhausted = false) := by
  have unended : tokenizer.source.exhausted = false := by
    apply underway.unended
    · rw [phase]
      exact Phase.noConfusion
    · rw [phase]
      exact Phase.noConfusion
  apply TemplateLexer.endMet_scanFrom
  intro ended
  rw [unended] at ended
  contradiction

theorem Underway.unended_next {past : List Step} {tokenizer : Tokenizer}
    (underway : Underway past tokenizer) (running : tokenizer.next.after.phase ≠ .finished)
    (further : tokenizer.next.after.phase ≠ .owing .endOfInput) :
    tokenizer.next.after.source.exhausted = false := by
  match phase : tokenizer.phase with
  | .finished =>
      simp only [next, phase, returning] at running
      exact absurd rfl running
  | .owing .endOfInput =>
      simp only [next, phase, pay, returning] at running
      exact absurd rfl running
  | .owing (.marker delimiter position) =>
      rw [source_next, phase]
      apply underway.unended
      · rw [phase]
        exact Phase.noConfusion
      · rw [phase]
        intro same
        cases same
  | .scanning mode region =>
      rw [source_next, phase]
      apply (underway.endMet_scanFrom phase).2
      intro ended
      simp only [next, phase, ended] at running further
      rcases phase_flush_endOfInput _ _ _ with finished | owing
      · exact running finished
      · exact further owing

/-- A call keeps to what is known between two calls. -/
theorem underway_next {past : List Step} {tokenizer : Tokenizer}
    (running : tokenizer.isFinished = false) (underway : Underway past tokenizer) :
    Underway (past ++ [tokenizer.next]) tokenizer.next.after where
  sound := (outlook_next underway.sound running).1
  unended := underway.unended_next
  opened := by
    intro construct region after
    rcases scanning_of_next after with
      ⟨failed, region', before⟩ | ⟨marker, delimiter, returned, isMarker, next⟩
    · rw [lasting_concat_of_failed failed]
      exact underway.opened construct region' before
    · rw [lasting_concat_of_ok returned]
      refine ⟨_, marker, rfl, ?_⟩
      rw [isMarker, delimiter.nextMode_eq_inside_iff.mp next]

/-- A flush reports the token that it returns, if it returns one, and is no failed read. -/
theorem events_flush (region : Region) (due : Due) (events : List Event) (source : Source) :
    (flush region due events source).events =
        events ++ (flush region due events source).token?.toList.map Token.event ∧
      isReadFailure (flush region due events source).result = false := by
  simp only [flush]
  split
  · exact ⟨rfl, rfl⟩
  · split
    · exact ⟨rfl, rfl⟩
    · exact ⟨(List.append_nil _).symm, rfl⟩

/-- Only a scan that meets the end within the body of a construct makes the report. -/
theorem exists_scan_of_unterminated {tokenizer : Tokenizer} {construct : Construct} {offset : Nat}
    (reported : (construct, offset) ∈ tokenizer.next.unterminated) :
    ∃ region, tokenizer.phase = .scanning (.inside construct) region ∧
      let scan := scanFrom (.inside construct) region tokenizer.source #[]
      scan.result = .ok .endOfInput ∧ scan.after.offset = offset := by
  match phase : tokenizer.phase with
  | .finished =>
      simp only [next, phase, unterminated_returning] at reported
      contradiction
  | .owing due =>
      simp only [next, phase, unterminated_returning] at reported
      contradiction
  | .scanning mode region =>
      cases result : (scanFrom mode region tokenizer.source #[]).result with
      | error failure =>
          simp only [next, phase, result, Step.unterminated, unterminated?_map_read] at reported
          contradiction
      | ok due =>
          simp only [next, phase, result] at reported
          rw [(unterminated_flush _ _ _ _).1, List.filterMap_append, unterminated?_map_read,
            List.nil_append] at reported
          cases due with
          | marker delimiter position =>
              rw [Due.unterminated?_diagnosis_marker] at reported
              contradiction
          | endOfInput =>
              rw [Due.unterminated?_diagnosis_endOfInput, Option.mem_toList,
                Option.map_eq_some_iff] at reported
              obtain ⟨other, inside, same⟩ := reported
              cases same
              obtain rfl := Mode.construct?_eq_some_iff.mp inside
              exact ⟨region, rfl, result, rfl⟩

/-- The call whose scan meets the end within the body of a construct returns a result behind which
only the end comes, and makes the report between the report of its last read and that of its
token. -/
theorem next_of_scan_endOfInput {past : List Step} {tokenizer : Tokenizer}
    (underway : Underway past tokenizer) {construct : Construct} {region : Region}
    (phase : tokenizer.phase = .scanning (.inside construct) region)
    (ended : (scanFrom (.inside construct) region tokenizer.source #[]).result = .ok .endOfInput) :
    let offset := (scanFrom (.inside construct) region tokenizer.source #[]).after.offset
    LastText offset tokenizer.outlook ∧ isReadFailure tokenizer.next.result = false ∧
      ∃ (reads : List ReadRecord) (record : ReadRecord), record.delivery = .bytes [] ∧
        tokenizer.next.events = reads.map .read ++ .read record ::
          .unterminated construct offset :: tokenizer.next.token?.toList.map Token.event := by
  intro offset
  have sound := underway.sound
  simp only [Sound, phase] at sound
  obtain ⟨start, divides⟩ := scanFrom_divides sound #[]
  simp only [ended] at divides
  obtain ⟨missing, place, -, split⟩ := divides
  refine ⟨?_, ?_⟩
  · have stop : offset = region.start + (region.ahead tokenizer.source).length := by
      rw [split, Region.length_toList]
      exact place
    have outlook : tokenizer.outlook =
        passFrom (.inside construct) region.start (region.ahead tokenizer.source) := by
      rw [outlook, phase]
    rw [outlook, passFrom_of_none missing, stop]
    exact lastText_textThen _ _
  · obtain ⟨reads, record, made, met⟩ := (underway.endMet_scanFrom phase).1 ended
    simp only [next, phase, ended]
    obtain ⟨events, lasts⟩ := events_flush
      (scanFrom (.inside construct) region tokenizer.source #[]).region .endOfInput
      ((scanFrom (.inside construct) region tokenizer.source #[]).reads.toList.map .read ++
        Due.endOfInput.diagnosis (.inside construct) offset)
      (scanFrom (.inside construct) region tokenizer.source #[]).after
    refine ⟨lasts, reads, record, met, events.trans ?_⟩
    rw [made, List.map_append, List.append_assoc, List.append_assoc]
    rfl

/-- What holds of the steps made so far and of the tokenizer behind them holds wherever a run is
split, if it still holds behind one more step of a tokenizer that has not finished. -/
theorem run_split_induction {motive : List Step → Tokenizer → Prop}
    (next : ∀ past tokenizer, tokenizer.isFinished = false → motive past tokenizer →
      motive (past ++ [tokenizer.next]) tokenizer.next.after)
    {past : List Step} {tokenizer : Tokenizer} (start : motive past tokenizer)
    {before behind : List Step} {step : Step} (split : tokenizer.run = before ++ step :: behind) :
    ∃ current, motive (past ++ before) current ∧ current.isFinished = false ∧
      step = current.next ∧ current.run = step :: behind := by
  induction before generalizing past tokenizer with
  | nil =>
      cases running : tokenizer.isFinished with
      | true =>
          rw [run_of_isFinished running] at split
          contradiction
      | false =>
          refine ⟨tokenizer, ?_, running, ?_, split⟩
          · rw [List.append_nil]
            exact start
          · rw [run_of_running running] at split
            exact (List.cons.inj split).1.symm
  | cons first before ih =>
      cases running : tokenizer.isFinished with
      | true =>
          rw [run_of_isFinished running] at split
          contradiction
      | false =>
          rw [run_of_running running] at split
          obtain ⟨rfl, rest⟩ := List.cons.inj split
          obtain ⟨current, holds, others⟩ := ih (next past tokenizer running start) rest
          rw [List.append_assoc] at holds
          exact ⟨current, holds, others⟩

/-- Whatever the reader and the capacity are, a run reports a construct as not closed if and only if
its results, failed reads aside, end within the construct: in the opening marker with at most one
text before the end, or with malformed text that runs to the end. The report names the length of the
template, and there is one report at most. It is made by the call that returns the first result
behind the opening marker other than a failed read: after its last read has met the end, and before
the report of its token. -/
theorem run_unterminated (reader : Reader) (capacity : Capacity) :
    let run := (ofReader reader capacity).run
    let length := reader.template.length
    (∀ construct offset, .unterminated construct offset ∈ run.flatMap Step.events ↔
        offset = length ∧ EndsWithin construct length (lasting run)) ∧
      (run.flatMap Step.unterminated).length ≤ 1 ∧
      ∀ before step behind construct offset, run = before ++ step :: behind →
        .unterminated construct offset ∈ step.events →
          (∃ front opening, lasting before = front ++ [.ok opening] ∧
            opening.kind = .marker (.opening construct)) ∧
          isReadFailure step.result = false ∧
          LastText length (lasting (step :: behind)) ∧
          ∃ (reads : List ReadRecord) (record : ReadRecord),
            (Event.read record).report?.map Report.message = some "source exhausted" ∧
              step.events = reads.map .read ++ .read record ::
                .unterminated construct offset :: step.token?.toList.map Token.event := by
  intro run length
  have reports := unterminated_ofReader reader capacity
  have named (construct : Construct) (offset : Nat) :
      .unterminated construct offset ∈ run.flatMap Step.events ↔
        offset = length ∧ EndsWithin construct length (lasting run) := by
    have reported : .unterminated construct offset ∈ run.flatMap Step.events ↔
        (construct, offset) ∈ run.flatMap Step.unterminated := by
      simp only [List.mem_flatMap, Step.mem_unterminated_iff]
    rw [reported, reports, Option.mem_toList, unclosedFrom_eq_some_iff, Nat.zero_add,
      leavesOpen_literal, lasting, results_ofReader]
    refine and_congr_right fun same => ?_
    rw [same]
  refine ⟨named, ?_, ?_⟩
  · rw [reports]
    exact Option.length_toList_le
  · intro before step behind construct offset split reported
    obtain ⟨current, underway, running, rfl, rest⟩ :=
      run_split_induction (fun _ _ => underway_next) (underway_ofReader reader capacity) split
    obtain ⟨region, phase, ended, place⟩ :=
      exists_scan_of_unterminated (Step.mem_unterminated_iff.mpr reported)
    obtain ⟨last, lasts, reads, record, met, events⟩ :=
      next_of_scan_endOfInput underway phase ended
    rw [place] at last events
    have member : .unterminated construct offset ∈ run.flatMap Step.events := by
      rw [split]
      exact List.mem_flatMap.mpr
        ⟨current.next, List.mem_append_right _ List.mem_cons_self, reported⟩
    have same : offset = length := ((named construct offset).mp member).1
    refine ⟨underway.opened construct region phase, lasts, ?_, reads, record,
      Event.message_of_end met, events⟩
    rw [← rest, lasting, results_run underway.sound, ← same]
    exact last

/-- A read that fails within the body, and half of the closing delimiter at the end. -/
example :
    let reader := Reader.ofDeliveries
      [.bytes [0x7B, 0x7B, 0x78], .failure ⟨"Other", "later"⟩, .bytes [0x7D], .bytes []]
    (ofReader reader .standard).run.map Step.unterminated =
      [[], [], [(.interpolation, 4)], []] := by decide +kernel

end Tokenizer

end TemplateLexer
