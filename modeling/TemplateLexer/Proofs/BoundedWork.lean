import TemplateLexer.Proofs.Lossless
import TemplateLexer.Proofs.Rounds

namespace TemplateLexer

/-- The number of interruptions before the reader first reports the end. -/
def Reader.interruptions (reader : Reader) : Nat := reader.live.count .interruption

/-- Each byte before the end may take a read of its own, and each interruption and failure does. -/
theorem Reader.readsToEnd_deliveries (reader : Reader) :
    readsToEnd reader.deliveries =
      reader.template.length + reader.interruptions + reader.failures.length := by
  rw [template, interruptions, failures, live]
  generalize reader.deliveries = deliveries
  induction deliveries with
  | nil => rfl
  | cons delivery rest ih =>
      cases delivery with
      | bytes data =>
          cases data with
          | nil => rfl
          | cons byte data =>
              simp [readsToEnd, ih, Delivery.data, Delivery.failure?, List.filterMap_cons,
                -List.length_flatMap]
              omega
      | interruption =>
          simp [readsToEnd, ih, Delivery.data, Delivery.failure?, List.filterMap_cons,
            -List.length_flatMap]
          omega
      | failure failure =>
          simp [readsToEnd, ih, Delivery.data, Delivery.failure?, -List.length_flatMap]
          omega

theorem length_textThen_le (start : Nat) (bytes : List UInt8) (others : List Result) :
    (textThen start bytes others).length ≤ bytes.length + others.length := by
  rw [textThen]
  split
  · exact Nat.le_add_left _ _
  · next filled =>
      have positive : 0 < bytes.length :=
        List.length_pos_iff.mpr fun nothing => filled (List.isEmpty_iff.mpr nothing)
      split
      · rw [List.length_cons]
        omega
      · rw [List.length_singleton]
        omega

/-- A pass gives at most one result for each byte, and the end. -/
theorem length_passFrom_le (mode : Mode) (position : Nat) (bytes : List UInt8) :
    (passFrom mode position bytes).length ≤ bytes.length + 1 := by
  fun_induction passFrom mode position bytes with
  | case1 mode position bytes length delimiter found ih =>
      have within := Mode.find?_within found
      have positive : delimiterLength = 2 := rfl
      refine Nat.le_trans (length_textThen_le _ _ _) ?_
      rw [List.length_drop] at ih
      rw [List.length_take, List.length_cons]
      omega
  | case2 mode position bytes missing => exact length_textThen_le _ _ _

namespace Tokenizer

/-- A step reports a failed read, or its result is another one. -/
theorem length_eq_failures_add_others (steps : List Step) :
    steps.length = (steps.filterMap Step.failure?).length +
      ((steps.map Step.result).filter fun result => !isReadFailure result).length := by
  have reports (step : Step) : step.failure?.isSome = isReadFailure step.result := by
    rw [Step.failure?]
    cases step.result with
    | ok token => rfl
    | error error => cases error <;> rfl
  rw [List.length_filterMap_eq_countP, ← List.countP_eq_length_filter, List.countP_map]
  simp only [reports]
  rw [List.length_eq_countP_add_countP fun step : Step => isReadFailure step.result]
  simp [Function.comp_def]

/-- A run gives the results of one pass, and at most the failures of the reader. -/
theorem length_run_le (reader : Reader) (capacity : Capacity) :
    (ofReader reader capacity).run.length ≤
      reader.template.length + 1 + reader.failures.length := by
  have reported := (failures_run (sound_ofReader reader capacity)).1
  have failures : _ ≤ reader.failures.length := reported.length_le
  have others := length_passFrom_le .literal 0 reader.template
  rw [length_eq_failures_add_others, results_ofReader]
  omega

/-- Asking for the next token again and again goes through the run and comes to its end. -/
theorem session_replicate (tokenizer : Tokenizer) (count : Nat) :
    tokenizer.session (List.replicate count .next) = tokenizer.run.take count ∧
      ((tokenizer.afterCalls (List.replicate count .next)).next? = none ↔
        tokenizer.run.length ≤ count) := by
  induction count generalizing tokenizer with
  | zero =>
      refine ⟨rfl, ?_⟩
      rw [List.replicate_zero, afterCalls, next?]
      cases finished : tokenizer.isFinished with
      | true =>
          rw [run_of_isFinished finished]
          exact iff_of_true rfl (Nat.le_refl 0)
      | false =>
          rw [run_of_running finished]
          exact iff_of_false (Option.some_ne_none _) (Nat.not_succ_le_zero _)
  | succ count ih =>
      rw [List.replicate_succ]
      cases finished : tokenizer.isFinished with
      | true =>
          obtain ⟨same, ended⟩ := ih tokenizer
          have none : tokenizer.answer? .next = none := if_pos finished
          rw [run_of_isFinished finished] at same ended ⊢
          simp only [session, afterCalls, none]
          exact ⟨same.trans (List.take_nil.trans List.take_nil.symm),
            ended.trans (iff_of_true (Nat.zero_le _) (Nat.zero_le _))⟩
      | false =>
          obtain ⟨same, ended⟩ := ih tokenizer.next.after
          have answered : tokenizer.answer? .next = some tokenizer.next :=
            if_neg (Bool.eq_false_iff.mp finished)
          rw [run_of_running finished, List.take_succ_cons, List.length_cons,
            Nat.add_le_add_iff_right, ← same, ← ended]
          simp only [session, afterCalls, answered, and_self]

/-- How a tokenizer comes to the step with which it answers a call, by how many scans, and how many
rounds they take. If a scan finds no text before what is due, the tokenizer asks itself again. -/
inductive Answers : Tokenizer → Nat → Nat → Step → Prop where
  | finished {source : Source} :
      Answers ⟨source, .finished⟩ 0 0 (returning (.endOfInput source.offset) [] ⟨source, .finished⟩)
  | owing {source : Source} {due : Due} :
      Answers ⟨source, .owing due⟩ 0 0 (returning (pay source due).1 [] (pay source due).2)
  | failed {source : Source} {mode : Mode} {region : Region} {rounds : Nat} {scan : Scan}
      {failure : Failure} (scanned : Rounds mode region source #[] rounds scan)
      (stopped : scan.result = .error failure) :
      Answers ⟨source, .scanning mode region⟩ 1 rounds
        ⟨.error (.readFailed scan.after.offset failure), scan.reads.toList.map .read,
          ⟨scan.after, .scanning mode scan.region⟩⟩
  | text {source : Source} {mode : Mode} {region : Region} {rounds : Nat} {scan : Scan} {due : Due}
      (scanned : Rounds mode region source #[] rounds scan) (stopped : scan.result = .ok due)
      (filled : scan.region.isEmpty = false) :
      Answers ⟨source, .scanning mode region⟩ 1 rounds
        (flush scan.region due
          (scan.reads.toList.map .read ++ due.diagnosis mode scan.after.offset) scan.after)
  | again {source : Source} {mode : Mode} {region : Region} {rounds scans others : Nat}
      {scan : Scan} {due : Due} {step : Step}
      (scanned : Rounds mode region source #[] rounds scan) (stopped : scan.result = .ok due)
      (empty : scan.region.isEmpty = true)
      (answered : Answers ⟨scan.after, .owing due⟩ scans others step) :
      Answers ⟨source, .scanning mode region⟩ (1 + scans) (rounds + others)
        { step with
          events := scan.reads.toList.map .read ++ due.diagnosis mode scan.after.offset ++
            step.events }

/-- Every call is answered. -/
theorem exists_answers (tokenizer : Tokenizer) :
    ∃ scans rounds, Answers tokenizer scans rounds tokenizer.next := by
  obtain ⟨source, phase⟩ := tokenizer
  cases phase with
  | finished => exact ⟨0, 0, .finished⟩
  | owing due => exact ⟨0, 0, .owing⟩
  | scanning mode region =>
      obtain ⟨rounds, -, scanned⟩ := rounds_scanFrom mode region source #[]
      refine ⟨1, rounds, ?_⟩
      simp only [next]
      cases stopped : (scanFrom mode region source #[]).result with
      | error failure => exact .failed scanned stopped
      | ok due =>
          cases empty : (scanFrom mode region source #[]).region.isEmpty with
          | false => exact .text scanned stopped empty
          | true =>
              simp only [flush, if_pos empty]
              exact .again scanned stopped empty .owing

/-- A call is answered by the next step only. It scans once at most, since what is due behind a
scan is returned without another one. -/
theorem Answers.eq_next {tokenizer : Tokenizer} {scans rounds : Nat} {step : Step}
    (answers : Answers tokenizer scans rounds step) :
    scans ≤ 1 ∧ rounds ≤ tokenizer.source.ahead + 1 ∧ step = tokenizer.next := by
  cases answers with
  | finished => exact ⟨Nat.zero_le _, Nat.zero_le _, rfl⟩
  | owing => exact ⟨Nat.zero_le _, Nat.zero_le _, rfl⟩
  | failed scanned stopped =>
      obtain ⟨few, rfl⟩ := scanned.eq_scanFrom
      refine ⟨Nat.le_refl _, few, ?_⟩
      simp only [next, stopped]
  | text scanned stopped filled =>
      obtain ⟨few, rfl⟩ := scanned.eq_scanFrom
      refine ⟨Nat.le_refl _, few, ?_⟩
      simp only [next, stopped]
  | again scanned stopped empty answered =>
      obtain ⟨few, rfl⟩ := scanned.eq_scanFrom
      cases answered with
      | owing =>
          refine ⟨Nat.le_refl _, few, ?_⟩
          simp only [next, stopped, flush, if_pos empty]
          rfl

/-- What the reads of a call use up is no longer left, and nothing is added to what is ahead. -/
theorem spends_next (tokenizer : Tokenizer) :
    tokenizer.next.reads.length + tokenizer.next.after.source.readsLeft ≤
        tokenizer.source.readsLeft ∧
      tokenizer.next.after.source.ahead ≤ tokenizer.source.ahead := by
  rw [reads_next, source_next]
  split
  · next mode region phase =>
      apply scanFrom_induction (motive := fun made source =>
        made.length + source.readsLeft ≤ tokenizer.source.readsLeft ∧
          source.ahead ≤ tokenizer.source.ahead)
      · intro made source count within spent
        have released := Source.ahead_advance within
        exact ⟨spent.1, Nat.le_trans (by omega) spent.2⟩
      · intro made source unfinished _ spent
        have fewer := Source.readsLeft_refill unfinished
        have less := Source.ahead_refill_le unfinished
        rw [List.length_append, List.length_singleton]
        omega
      · exact ⟨Nat.le_of_eq (Nat.zero_add _), Nat.le_refl _⟩
  · exact ⟨Nat.le_of_eq (Nat.zero_add _), Nat.le_refl _⟩

/-- The reads of the steps are within what a source could make, and nothing was added to what was
ahead of it. -/
structure Within (start : Source) (past : List Step) (tokenizer : Tokenizer) : Prop where
  reads : (past.flatMap Step.reads).length + tokenizer.source.readsLeft ≤ start.readsLeft
  ahead : tokenizer.source.ahead ≤ start.ahead

theorem within_source (tokenizer : Tokenizer) : Within tokenizer.source [] tokenizer :=
  ⟨Nat.le_of_eq (Nat.zero_add _), Nat.le_refl _⟩

theorem Within.next {start : Source} {past : List Step} {tokenizer : Tokenizer}
    (within : Within start past tokenizer) :
    Within start (past ++ [tokenizer.next]) tokenizer.next.after := by
  obtain ⟨spent, less⟩ := tokenizer.spends_next
  obtain ⟨reads, ahead⟩ := within
  constructor
  · rw [List.flatMap_append, List.flatMap_singleton, List.length_append]
    omega
  · exact Nat.le_trans less ahead

/-- Whatever the reader, the capacity and the calls are, the work is bounded by what the reader
delivers before it first reports the end. Every round of reading ahead and every round of a scan
brings its end nearer, so that each call is answered, and with one scan at most. All calls together
read as often as there are bytes, interruptions and failures, and once more at most. Asking for the
next token again and again gives as many results as there are bytes and failures and one more at
most, and then none. -/
theorem session_boundedWork (reader : Reader) (capacity : Capacity) (calls : List Call) :
    let bytes := reader.template.length
    let failures := reader.failures.length
    let most := bytes + reader.interruptions + failures + 1
    let start := ofReader reader capacity
    let tokenizer := start.afterCalls calls
    (∀ source : Source, source.exhausted = false →
        source.refill.2.readsLeft < source.readsLeft ∧ source.refill.2.ahead ≤ source.ahead) ∧
      (∀ mode region source reads region' source' reads',
        round mode region source reads = .goesOn region' source' reads' →
          source'.ahead < source.ahead) ∧
      (∃ scans rounds, Answers tokenizer scans rounds tokenizer.next) ∧
      (∀ scans rounds step, Answers tokenizer scans rounds step →
        scans ≤ 1 ∧ rounds ≤ most ∧ step = tokenizer.next) ∧
      ((start.session calls).flatMap Step.reads).length ≤ most ∧
      ∃ items ≤ bytes + 1 + failures, ∀ count,
        (start.session (List.replicate count .next)).length = min count items ∧
          ((start.afterCalls (List.replicate count .next)).next? = none ↔ items ≤ count) := by
  intro bytes failures most start tokenizer
  have left : start.source.readsLeft = most := congrArg (· + 1) reader.readsToEnd_deliveries
  have ahead : start.source.ahead + 1 = most := by
    rw [← left]
    exact congrArg (· + 1) (Nat.zero_add _)
  obtain ⟨spent, less⟩ : Within start.source (start.session calls) tokenizer :=
    session_induction (fun _ _ => Within.next) (within_source start) calls
  refine ⟨?_, ?_, tokenizer.exists_answers, ?_, by omega, start.run.length,
    length_run_le reader capacity, ?_⟩
  · intro source unfinished
    exact ⟨Source.readsLeft_refill unfinished, Source.ahead_refill_le unfinished⟩
  · intro mode region source reads region' source' reads' goesOn
    exact ahead_round goesOn
  · intro scans rounds step answers
    obtain ⟨once, few, same⟩ := answers.eq_next
    exact ⟨once, by omega, same⟩
  · intro count
    obtain ⟨made, ended⟩ := start.session_replicate count
    rw [made, List.length_take]
    exact ⟨rfl, ended⟩

/-- One byte behind an interruption and a failure: as many reads and results as there can be. -/
example :
    let reader := Reader.ofDeliveries
      [.interruption, .failure ⟨"BrokenPipe", "gone"⟩, .bytes [0x61]]
    let run := (ofReader reader .standard).run
    (run.flatMap Step.reads).length = 4 ∧ run.length = 3 := by decide +kernel

end Tokenizer

end TemplateLexer
