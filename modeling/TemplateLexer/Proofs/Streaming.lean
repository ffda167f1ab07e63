import TemplateLexer.Proofs.Failures

namespace TemplateLexer

def Delivery.isBytes : Delivery → Bool
  | .bytes _ => true
  | _ => false

namespace Reader

/-- The reader without the failures and interruptions among its deliveries. -/
def withoutFailures (reader : Reader) : Reader :=
  { reader with deliveries := reader.deliveries.filter Delivery.isBytes }

theorem live_withoutFailures (reader : Reader) :
    reader.withoutFailures.live = reader.live.filter Delivery.isBytes := by
  rw [live, live, withoutFailures]
  induction reader.deliveries with
  | nil => rfl
  | cons delivery rest ih =>
      cases delivery with
      | bytes data =>
          cases data with
          | nil => simp [List.filter_cons, Delivery.isBytes]
          | cons byte data => simpa [List.filter_cons, Delivery.isBytes] using ih
      | interruption => simpa [List.filter_cons, Delivery.isBytes] using ih
      | failure failure => simpa [List.filter_cons, Delivery.isBytes] using ih

theorem template_withoutFailures (reader : Reader) :
    reader.withoutFailures.template = reader.template := by
  rw [template, template, live_withoutFailures]
  induction reader.live with
  | nil => rfl
  | cons delivery rest ih =>
      cases delivery with
      | bytes data => simp [List.filter_cons, Delivery.isBytes, ih]
      | interruption => simpa [List.filter_cons, Delivery.isBytes, Delivery.data] using ih
      | failure failure => simpa [List.filter_cons, Delivery.isBytes, Delivery.data] using ih

theorem failures_withoutFailures (reader : Reader) : reader.withoutFailures.failures = [] := by
  rw [failures, live_withoutFailures, List.filterMap_eq_nil_iff]
  intro delivery member
  cases delivery with
  | bytes data => rfl
  | interruption => rfl
  | failure failure => simp [Delivery.isBytes] at member

end Reader

namespace Tokenizer

/-- The results of a run, failed reads aside, are those of one pass over the template. -/
theorem results_ofReader (reader : Reader) (capacity : Capacity) :
    ((ofReader reader capacity).run.map Step.result).filter (fun result => !isReadFailure result) =
      passFrom .literal 0 reader.template := by
  rw [results_run (sound_ofReader reader capacity), outlook_ofReader]

theorem failure?_eq_none_of_filterMap {steps : List Step}
    (none : steps.filterMap Step.failure? = []) {step : Step} (member : step ∈ steps) :
    isReadFailure step.result = false := by
  have silent := List.filterMap_eq_nil_iff.mp none step member
  match result : step.result with
  | .ok token => rfl
  | .error (.readFailed offset failure) => simp [Step.failure?, result] at silent
  | .error (.malformedText start bytes fault) => rfl
  | .error (.capacityTooSmall size) => rfl

/-- Without failures in the reader there is none in the results. -/
theorem results_of_steady {reader : Reader} (steady : reader.failures = []) (capacity : Capacity) :
    (ofReader reader capacity).run.map Step.result = passFrom .literal 0 reader.template := by
  have reported := (failures_run (sound_ofReader reader capacity)).1
  have none : (ofReader reader capacity).run.filterMap Step.failure? = [] := by
    apply List.prefix_nil.mp
    rw [← steady]
    exact reported
  rw [← results_ofReader reader capacity]
  symm
  apply List.filter_eq_self.mpr
  intro result member
  obtain ⟨step, inside, rfl⟩ := List.mem_map.mp member
  rw [failure?_eq_none_of_filterMap none inside]
  rfl

/-- If no read fails, then a run returns what the rule of the single pass says and nothing else,
whatever the capacity is and however the template is delivered. -/
theorem onePass_iff_run (reader : Reader) (capacity : Capacity) (steady : reader.failures = [])
    (results : List Result) :
    OnePass reader.template .literal 0 results ↔
      results = (ofReader reader capacity).run.map Step.result := by
  rw [onePass_iff (Nat.zero_le _), List.drop_zero, results_of_steady steady]

/-- A template that is cut and interrupted within a delimiter, and more behind its end. -/
theorem onePass_iff_run_cut_within_delimiter :
    let reader := Reader.ofDeliveries
      [.bytes [0x61, 0x7B], .interruption, .bytes [0x7B, 0x78, 0x7D], .bytes [0x7D], .bytes [],
        .failure ⟨"Other", "behind the end"⟩]
    reader.failures = [] ∧
      OnePass reader.template .literal 0
        [.ok (.text "a" ⟨0, 1⟩), .ok (.marker (.opening .interpolation) 1), .ok (.text "x" ⟨3, 4⟩),
          .ok (.marker (.closing .interpolation) 4), .ok (.endOfInput 6)] :=
  ⟨by decide, (onePass_iff_run _ ⟨2, by decide⟩ (by decide) _).mpr (by decide +kernel)⟩

/-- Without the failures that it reports, a run returns what it returns when no read fails. Each
call reports the failure that its reads met, and a run meets and reports the failures of the reader
in their order, all of them unless malformed text ends it. -/
theorem run_withoutFailures (reader : Reader) (capacity : Capacity) :
    let run := (ofReader reader capacity).run
    let calm := (ofReader reader.withoutFailures capacity).run
    (run.map Step.result).filter (fun result => !isReadFailure result) = calm.map Step.result ∧
      (∀ step ∈ run, failuresOf step.reads = step.failure?.toList) ∧
      run.filterMap Step.failure? <+: reader.failures ∧
      (run.filterMap Step.failure? = reader.failures ∨ ∃ step ∈ run, step.isMalformed = true) := by
  intro run calm
  obtain ⟨begins, all⟩ := failures_run (sound_ofReader reader capacity)
  refine ⟨?_, ?_, begins, ?_⟩
  · rw [results_ofReader, results_of_steady (Reader.failures_withoutFailures reader),
      Reader.template_withoutFailures]
  · have each (tokenizer : Tokenizer) :
        ∀ step ∈ tokenizer.run, failuresOf step.reads = step.failure?.toList := by
      induction tokenizer using run_induction with
      | finished tokenizer finished =>
          rw [run_of_isFinished finished]
          exact fun step member => absurd member List.not_mem_nil
      | running tokenizer running ih =>
          rw [run_of_running running]
          intro step member
          rcases List.mem_cons.mp member with rfl | later
          · exact (failures_next tokenizer).1
          · exact ih step later
    exact each _
  · by_cases malformed : ∃ step ∈ run, step.isMalformed = true
    · exact .inr malformed
    · apply Or.inl
      apply all
      · intro step member
        rw [Bool.eq_false_iff]
        exact fun found => malformed ⟨step, member, found⟩
      · intro finished
        contradiction

end Tokenizer

end TemplateLexer
