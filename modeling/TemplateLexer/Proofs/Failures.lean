import TemplateLexer.Proofs.Outlook

namespace TemplateLexer

def Event.read? : Event → Option ReadRecord
  | .read record => some record
  | _ => none

/-- The failures that the reads met, in the order of the reads. -/
def failuresOf (reads : List ReadRecord) : List Failure :=
  reads.filterMap fun record => record.delivery.failure?

/-- A read that does not fail adds no failure. -/
theorem failuresOf_concat_of_going {reads : List ReadRecord} {record : ReadRecord}
    (silent : failuresOf reads = []) (going : ∀ failure, record.delivery ≠ .failure failure) :
    failuresOf (reads ++ [record]) = [] := by
  rw [failuresOf] at silent ⊢
  rw [List.filterMap_append, silent, List.filterMap_cons, Delivery.failure?_eq_none going]
  rfl

/-- The failure that stopped the scan. -/
def Scan.failure? (scan : Scan) : Option Failure :=
  match scan.result with
  | .ok _ => none
  | .error failure => some failure

namespace Step

/-- The reads that were made in the step. -/
def reads (step : Step) : List ReadRecord := step.events.filterMap Event.read?

/-- The failure that the step reports. -/
def failure? (step : Step) : Option Failure :=
  match step.result with
  | .error (.readFailed _ failure) => some failure
  | _ => none

end Step

theorem read?_map_read (reads : List ReadRecord) :
    (reads.map Event.read).filterMap Event.read? = reads := by
  rw [List.filterMap_map]
  exact List.filterMap_some

theorem read?_diagnosis (due : Due) (mode : Mode) (offset : Nat) :
    (due.diagnosis mode offset).filterMap Event.read? = [] := by
  cases mode <;> cases due <;> rfl

/-- What each read and each release of bytes preserves, a scan preserves. -/
theorem scanFrom_induction {motive : List ReadRecord → Source → Prop}
    (advance : ∀ reads source count, count ≤ source.unread.length → motive reads source →
      motive reads (source.advance count))
    (refill : ∀ reads source, source.exhausted = false →
      source.unread.length < source.buffer.capacity.size → motive reads source →
      motive (reads ++ [source.refill.1]) source.refill.2)
    (mode : Mode) (region : Region) {source : Source} {reads : Array ReadRecord}
    (start : motive reads.toList source) :
    motive (scanFrom mode region source reads).reads.toList
      (scanFrom mode region source reads).after := by
  have read (source : Source) (reads : Array ReadRecord) (unfinished : source.exhausted = false)
      (start : motive reads.toList source) :
      let read := (source.advance (mode.settledLength source.unread)).refill
      motive (reads.push read.1).toList read.2 := by
    intro read
    rw [Array.toList_push]
    exact refill _ _ unfinished (short_advance_settledLength mode source)
      (advance _ _ _ (mode.settledLength_le source.unread) start)
  fun_induction scanFrom mode region source reads with
  | case1 region source reads position delimiter found =>
      exact advance _ _ _ (Mode.find?_within found) start
  | case2 region source reads missing ended => exact advance _ _ _ (Nat.le_refl _) start
  | case3 region source reads missing unfinished settled grown made failure failed =>
      exact read source reads (Bool.eq_false_iff.mpr unfinished) start
  | case4 region source reads missing unfinished settled grown made going ih =>
      exact ih (read source reads (Bool.eq_false_iff.mpr unfinished) start)

/-- The read of a scan takes the failure that it meets off the failures to come. -/
theorem failuresAhead_read (mode : Mode) {source : Source} (unfinished : source.exhausted = false) :
    let read := (source.advance (mode.settledLength source.unread)).refill
    read.1.delivery.failure?.toList ++ read.2.failuresAhead = source.failuresAhead := by
  rw [← Source.failuresAhead_advance source (mode.settledLength source.unread)]
  exact Source.failuresAhead_refill unfinished (short_advance_settledLength mode source)

/-- A scan stops at the first failure that it meets, and takes it off the failures to come. -/
theorem failures_scanFrom (mode : Mode) (region : Region) (source : Source)
    (reads : Array ReadRecord) :
    let scan := scanFrom mode region source reads
    failuresOf scan.reads.toList = failuresOf reads.toList ++ scan.failure?.toList ∧
      scan.failure?.toList ++ scan.after.failuresAhead = source.failuresAhead := by
  fun_induction scanFrom mode region source reads with
  | case1 => simp [Scan.failure?]
  | case2 => simp [Scan.failure?]
  | case3 region source reads missing unfinished settled grown read failure failed =>
      have taken : read.1.delivery.failure?.toList ++ read.2.failuresAhead = source.failuresAhead :=
        failuresAhead_read mode (Bool.eq_false_iff.mpr unfinished)
      have reported : read.1.delivery.failure? = some failure := by rw [failed]; rfl
      rw [reported] at taken
      constructor
      · simp [failuresOf, Scan.failure?, reported]
      · exact taken
  | case4 region source reads missing unfinished settled grown read continues ih =>
      have taken : read.1.delivery.failure?.toList ++ read.2.failuresAhead = source.failuresAhead :=
        failuresAhead_read mode (Bool.eq_false_iff.mpr unfinished)
      have silent : read.1.delivery.failure? = none := Delivery.failure?_eq_none continues
      rw [silent] at taken
      obtain ⟨met, left⟩ := ih
      constructor
      · rw [met]
        simp [failuresOf, silent]
      · exact left.trans taken

namespace Tokenizer

theorem reads_returning (token : Token) (events : List Event) (after : Tokenizer) :
    (returning token events after).reads = events.filterMap Event.read? := by
  simp [Step.reads, returning, Event.read?]

/-- A flush makes no read and reports no failure. -/
theorem failures_flush (region : Region) (due : Due) (events : List Event) (source : Source) :
    (flush region due events source).reads = events.filterMap Event.read? ∧
      (flush region due events source).failure? = none ∧
      (flush region due events source).after.source = source := by
  simp only [flush]
  split
  · exact ⟨reads_returning _ _ _, rfl, source_pay source due⟩
  · split
    · exact ⟨reads_returning _ _ _, rfl, rfl⟩
    · exact ⟨rfl, rfl, rfl⟩

/-- A call makes the reads of its scan, and none at all if it does not scan. -/
theorem reads_next (tokenizer : Tokenizer) :
    tokenizer.next.reads = match tokenizer.phase with
      | .scanning mode region => (scanFrom mode region tokenizer.source #[]).reads.toList
      | _ => [] := by
  match phase : tokenizer.phase with
  | .finished => rw [next, phase]; rfl
  | .owing due => rw [next, phase]; rfl
  | .scanning mode region =>
      simp only [next, phase]
      split
      · rw [(failures_flush _ _ _ _).1, List.filterMap_append, read?_map_read, read?_diagnosis,
          List.append_nil]
      · exact read?_map_read _

theorem source_next (tokenizer : Tokenizer) :
    tokenizer.next.after.source = match tokenizer.phase with
      | .scanning mode region => (scanFrom mode region tokenizer.source #[]).after
      | _ => tokenizer.source := by
  match phase : tokenizer.phase with
  | .finished => rw [next, phase]; rfl
  | .owing due => rw [next, phase]; exact source_pay _ _
  | .scanning mode region =>
      simp only [next, phase]
      split
      · exact (failures_flush _ _ _ _).2.2
      · rfl

/-- A call reports exactly the failure that its reads met, and takes it off the failures to
come. -/
theorem failures_next (tokenizer : Tokenizer) :
    failuresOf tokenizer.next.reads = tokenizer.next.failure?.toList ∧
      tokenizer.next.failure?.toList ++ tokenizer.next.after.source.failuresAhead =
        tokenizer.source.failuresAhead := by
  match phase : tokenizer.phase with
  | .finished =>
      simp only [next, phase]
      exact ⟨rfl, rfl⟩
  | .owing due =>
      simp only [next, phase, returning]
      constructor
      · rfl
      · rw [source_pay]
        rfl
  | .scanning mode region =>
      obtain ⟨met, left⟩ := failures_scanFrom mode region tokenizer.source #[]
      simp only [next, phase]
      split
      · next due found =>
          obtain ⟨reads, silent, same⟩ := failures_flush
            (scanFrom mode region tokenizer.source #[]).region due
            ((scanFrom mode region tokenizer.source #[]).reads.toList.map .read ++
              due.diagnosis mode (scanFrom mode region tokenizer.source #[]).after.offset)
            (scanFrom mode region tokenizer.source #[]).after
          rw [List.filterMap_append, read?_map_read, read?_diagnosis, List.append_nil] at reads
          simp only [Scan.failure?, found] at met left
          rw [reads, silent, same, met]
          exact ⟨rfl, left⟩
      · next failure failed =>
          simp only [Scan.failure?, failed] at met left
          constructor
          · rw [Step.reads, read?_map_read, met]
            rfl
          · exact left

/-- A run reports the failures to come in their order, and all of them unless malformed text ends
it. -/
theorem failures_run {tokenizer : Tokenizer} (sound : tokenizer.Sound) :
    tokenizer.run.filterMap Step.failure? <+: tokenizer.source.failuresAhead ∧
      ((∀ step ∈ tokenizer.run, step.isMalformed = false) →
        (tokenizer.isFinished = true → tokenizer.source.exhausted = true) →
        tokenizer.run.filterMap Step.failure? = tokenizer.source.failuresAhead) := by
  induction tokenizer using run_induction with
  | finished tokenizer finished =>
      rw [run_of_isFinished finished]
      constructor
      · exact List.nil_prefix
      · intro _ ended
        rw [Source.failuresAhead, if_pos (ended finished)]
        rfl
  | running tokenizer running ih =>
      obtain ⟨begins, all⟩ := ih (outlook_next sound running).1
      have taken := (failures_next tokenizer).2
      have front : tokenizer.run.filterMap Step.failure? =
          tokenizer.next.failure?.toList ++
            tokenizer.next.after.run.filterMap Step.failure? := by
        rw [run_of_running running, List.filterMap_cons]
        cases tokenizer.next.failure? <;> rfl
      rw [front, ← taken]
      constructor
      · exact (List.prefix_append_right_inj _).mpr begins
      · intro fine _
        rw [run_of_running running] at fine
        rw [all]
        · intro step member
          exact fine step (List.mem_cons_of_mem _ member)
        · intro finishing
          have first := fine tokenizer.next List.mem_cons_self
          rcases next_of_finishing sound running finishing with malformed | ⟨-, ended, -⟩
          · rw [first] at malformed
            contradiction
          · exact ended

end Tokenizer

end TemplateLexer
