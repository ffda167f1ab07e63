import TemplateLexer.Proofs.OnePass
import TemplateLexer.Proofs.Upcoming
import TemplateLexer.Run

namespace TemplateLexer

/-- A failed read is the one error after which the tokenizer goes on. -/
def isReadFailure : Result → Bool
  | .error (.readFailed _ _) => true
  | _ => false

@[simp] theorem isReadFailure_ok (token : Token) : isReadFailure (.ok token) = false := rfl

/-- A step that meets malformed text ends the run. -/
def Step.isMalformed (step : Step) : Bool :=
  match step.result with
  | .error (.malformedText _ _ _) => true
  | _ => false

namespace Region

@[simp] theorem start_append (region : Region) (bytes : List UInt8) :
    (region.append bytes).start = region.start := rfl

@[simp] theorem toList_append (region : Region) (bytes : List UInt8) :
    (region.append bytes).bytes.toList = region.bytes.toList ++ bytes := by
  simp [append]

theorem length_toList (region : Region) : region.bytes.toList.length = region.size :=
  Array.length_toList

end Region

/-- A scan in progress: its region ends where the unread bytes begin, and no delimiter of the mode
begins in it. -/
structure Scanning (mode : Mode) (region : Region) (source : Source) : Prop where
  place : region.start + region.size = source.offset
  settled : mode.Settled region.bytes.toList source.unread

/-- A marker is due just behind its delimiter, and the end is due when nothing is to come. -/
def Due.Sound (due : Due) (source : Source) : Prop :=
  match due with
  | .marker _ position => position + delimiterLength = source.offset
  | .endOfInput => source.exhausted = true ∧ source.unread = []

/-- The results of what is due and of all that is to come. -/
def Due.outlook (due : Due) (source : Source) : List Result :=
  match due with
  | .marker delimiter position =>
      .ok (.marker delimiter position) ::
        passFrom delimiter.nextMode source.offset source.upcoming
  | .endOfInput => [.ok (.endOfInput source.offset)]

/-- The text of the region and all that is to come. -/
def Region.ahead (region : Region) (source : Source) : List UInt8 :=
  region.bytes.toList ++ source.upcoming

theorem scanning_emptyAt (mode : Mode) (source : Source) :
    Scanning mode (.emptyAt source.offset) source :=
  ⟨rfl, Mode.settled_nil mode source.unread⟩

/-- The bytes that a scan leaves in the buffer before a read do not fill it. -/
theorem short_advance_settledLength (mode : Mode) (source : Source) :
    (source.advance (mode.settledLength source.unread)).unread.length <
      (source.advance (mode.settledLength source.unread)).buffer.capacity.size := by
  have settled := mode.length_le_settledLength source.unread
  have enough : delimiterLength ≤ source.buffer.capacity.size := source.buffer.capacity.enough
  have length : delimiterLength = 2 := rfl
  change _ < source.buffer.capacity.size
  rw [Source.unread_advance, List.length_drop]
  omega

/-- A scan that settles what it can and reads goes on with the same text before it. -/
theorem Scanning.read {mode : Mode} {region : Region} {source : Source}
    (scanning : Scanning mode region source) (missing : mode.find? source.unread = none)
    (unfinished : source.exhausted = false) :
    let settled := mode.settledLength source.unread
    let grown := region.append (source.unread.take settled)
    let after := (source.advance settled).refill.2
    Scanning mode grown after ∧ grown.ahead after = region.ahead source := by
  intro settled grown after
  have within : settled ≤ source.unread.length := mode.settledLength_le source.unread
  refine ⟨⟨?_, ?_⟩, ?_⟩
  · have place := scanning.place
    simp only [grown, after, Region.start_append, Region.size_append, List.length_take,
      Nat.min_eq_left within, Source.offset_refill, Source.offset_advance within]
    omega
  · simp only [grown, after, Region.toList_append, Source.unread_refill, Source.unread_advance]
    exact (Mode.settled_behind scanning.settled missing).append_behind _
  · obtain ⟨more, upcoming⟩ := source.exists_upcoming_eq
    have same : after.upcoming = source.upcoming.drop settled := by
      rw [← Source.upcoming_advance within]
      exact Source.upcoming_refill unfinished (short_advance_settledLength mode source)
    rw [Region.ahead, Region.ahead, same, Region.toList_append, upcoming,
      List.drop_append_of_le_length within, List.append_assoc, ← List.append_assoc (List.take _ _),
      List.take_append_drop]

/-- Text is searched from its first byte that is not settled. -/
theorem Scanning.find?_ahead {mode : Mode} {region : Region} {source : Source}
    (scanning : Scanning mode region source) :
    mode.find? (region.ahead source) =
      (mode.find? source.upcoming).map fun found => (region.size + found.1, found.2) := by
  obtain ⟨more, upcoming⟩ := source.exists_upcoming_eq
  rw [Region.ahead, upcoming, scanning.settled.find?_append, Region.length_toList]

/-- A scan divides the bytes ahead of it. Before a marker they are the region, the delimiter and
what is to come, and the delimiter is the first one that ends the text; before the end they are the
region alone. A failed read leaves the scan in progress with the same bytes ahead. -/
def Scan.Divides (scan : Scan) (mode : Mode) (start : Nat) (ahead : List UInt8) : Prop :=
  scan.region.start = start ∧
    match scan.result with
    | .ok (.marker delimiter position) =>
        mode.find? ahead = some (scan.region.size, delimiter) ∧
          position = start + scan.region.size ∧
          position + delimiterLength = scan.after.offset ∧
          ahead = scan.region.bytes.toList ++ (delimiter.bytes ++ scan.after.upcoming)
    | .ok .endOfInput =>
        mode.find? ahead = none ∧
          scan.after.offset = start + scan.region.size ∧
          (scan.after.exhausted = true ∧ scan.after.unread = []) ∧
          ahead = scan.region.bytes.toList
    | .error _ =>
        Scanning mode scan.region scan.after ∧ ahead = scan.region.ahead scan.after

theorem scanFrom_divides {mode : Mode} {region : Region} {source : Source}
    (scanning : Scanning mode region source) (reads : Array ReadRecord) :
    (scanFrom mode region source reads).Divides mode region.start (region.ahead source) := by
  fun_induction scanFrom mode region source reads with
  | case1 region source reads position delimiter found =>
      have within := Mode.find?_within found
      have place := scanning.place
      obtain ⟨more, upcoming⟩ := source.exists_upcoming_eq
      have next := scanning.find?_ahead
      rw [upcoming, Mode.find?_append_of_some found, Option.map_some] at next
      have size : (region.append (source.unread.take position)).size = region.size + position := by
        rw [Region.size_append, List.length_take, Nat.min_eq_left (by omega)]
      refine ⟨rfl, ?_, ?_, ?_, ?_⟩
      · rw [next, size]
      · rw [size]
        omega
      · simp only [Source.offset_advance within, Nat.add_assoc]
      · obtain ⟨rest, split⟩ := Mode.standing?_eq_some ((Mode.find?_eq_some_iff _ _ _ _).mp found).1
        have behind : source.unread.drop (position + delimiterLength) = rest := by
          rw [← List.drop_drop, split, ← Delimiter.length_bytes delimiter, List.drop_left]
        rw [Region.ahead, Region.toList_append, Source.upcoming_advance within, upcoming,
          List.drop_append_of_le_length within, behind, List.append_assoc]
        congr 1
        rw [← List.append_assoc delimiter.bytes, ← split, ← List.append_assoc,
          List.take_append_drop]
  | case2 region source reads missing ended =>
      have place := scanning.place
      have next := scanning.find?_ahead
      rw [Source.upcoming_of_exhausted ended, missing, Option.map_none] at next
      refine ⟨rfl, next, ?_, ⟨ended, List.drop_length⟩, ?_⟩
      · rw [Source.offset_advance (Nat.le_refl _), Region.size_append]
        omega
      · rw [Region.ahead, Region.toList_append, Source.upcoming_of_exhausted ended]
  | case3 region source reads missing unfinished settled grown read failure failed =>
      obtain ⟨going, same⟩ := scanning.read missing (by simpa using unfinished)
      exact ⟨rfl, going, same.symm⟩
  | case4 region source reads missing unfinished settled grown read continues ih =>
      obtain ⟨going, same⟩ := scanning.read missing (by simpa using unfinished)
      rw [← same]
      exact ih going

/-- The bytes ahead that a scan has divided at a delimiter, cut before and behind it. -/
theorem take_drop_of_divided {region : Region} {delimiter : Delimiter} {source : Source}
    {ahead : List UInt8}
    (split : ahead = region.bytes.toList ++ (delimiter.bytes ++ source.upcoming)) :
    ahead.take region.size = region.bytes.toList ∧
      ahead.drop (region.size + delimiterLength) = source.upcoming := by
  rw [split, ← Region.length_toList]
  constructor
  · exact List.take_left
  · rw [List.drop_length_add_append, ← Delimiter.length_bytes delimiter, List.drop_left]

/-- What a scan has found is what a single pass finds: its region is the text, with what is due
behind it, and a failed read leaves the pass as it was. -/
theorem outlook_scanFrom {mode : Mode} {region : Region} {source : Source}
    (scanning : Scanning mode region source) (reads : Array ReadRecord) :
    let scan := scanFrom mode region source reads
    match scan.result with
    | .ok due => due.Sound scan.after ∧
        passFrom mode region.start (region.ahead source) =
          textThen scan.region.start scan.region.bytes.toList (due.outlook scan.after)
    | .error _ => Scanning mode scan.region scan.after ∧
        passFrom mode region.start (region.ahead source) =
          passFrom mode scan.region.start (scan.region.ahead scan.after) := by
  intro scan
  have divides : scan.Divides mode region.start (region.ahead source) :=
    scanFrom_divides scanning reads
  obtain ⟨start, divides⟩ := divides
  rw [start]
  match result : scan.result with
  | .ok (.marker delimiter position) =>
      rw [result] at divides
      obtain ⟨found, place, offset, split⟩ := divides
      obtain ⟨text, rest⟩ := take_drop_of_divided split
      apply And.intro offset
      rw [passFrom_of_some found, text, rest, ← place, offset]
      rfl
  | .ok .endOfInput =>
      rw [result] at divides
      obtain ⟨missing, offset, ended, split⟩ := divides
      apply And.intro ended
      rw [passFrom_of_none missing, split, Region.length_toList, ← offset]
      rfl
  | .error failure =>
      rw [result] at divides
      obtain ⟨going, same⟩ := divides
      exact ⟨going, congrArg (passFrom mode region.start) same⟩

namespace Tokenizer

/-- Between calls a scan is in progress, or something is due, or nothing is left to do. -/
def Sound (tokenizer : Tokenizer) : Prop :=
  match tokenizer.phase with
  | .scanning mode region => Scanning mode region tokenizer.source
  | .owing due => due.Sound tokenizer.source
  | .finished => True

/-- The results that are still to come, failed reads aside. -/
def outlook (tokenizer : Tokenizer) : List Result :=
  match tokenizer.phase with
  | .scanning mode region => passFrom mode region.start (region.ahead tokenizer.source)
  | .owing due => due.outlook tokenizer.source
  | .finished => []

theorem sound_ofReader (reader : Reader) (capacity : Capacity) :
    (ofReader reader capacity).Sound :=
  scanning_emptyAt .literal (.ofReader reader capacity)

theorem outlook_ofReader (reader : Reader) (capacity : Capacity) :
    (ofReader reader capacity).outlook = passFrom .literal 0 reader.template := rfl

theorem outlook_of_isFinished {tokenizer : Tokenizer} (finished : tokenizer.isFinished = true) :
    tokenizer.outlook = [] := by
  simp only [isFinished, beq_iff_eq] at finished
  rw [outlook, finished]

/-- The token for what is due is the first result of its outlook. -/
theorem outlook_pay {due : Due} {source : Source} (sound : due.Sound source) :
    (pay source due).2.Sound ∧
      due.outlook source = .ok (pay source due).1 :: (pay source due).2.outlook := by
  cases due with
  | marker delimiter position => exact ⟨scanning_emptyAt delimiter.nextMode source, rfl⟩
  | endOfInput => exact ⟨trivial, rfl⟩

/-- A flush returns the first result of the region and of what is due. -/
theorem outlook_flush {due : Due} {source : Source} (sound : due.Sound source) (region : Region)
    (events : List Event) :
    (flush region due events source).after.Sound ∧
      isReadFailure (flush region due events source).result = false ∧
      textThen region.start region.bytes.toList (due.outlook source) =
        (flush region due events source).result ::
          (flush region due events source).after.outlook := by
  cases empty : region.isEmpty with
  | true =>
      have nothing : region.bytes.toList.isEmpty = true := by
        simpa [Region.isEmpty] using empty
      obtain ⟨after, same⟩ := outlook_pay sound
      simp only [flush, empty, if_true, returning, textThen, nothing]
      exact ⟨after, rfl, same⟩
  | false =>
      have something : region.bytes.toList.isEmpty = false := by
        simpa [Region.isEmpty] using empty
      cases read : Utf8.decode region.bytes.toList with
      | ok contents =>
          simp only [flush, empty, read, returning, textThen, something, Region.length_toList]
          exact ⟨sound, rfl, rfl⟩
      | error fault =>
          simp only [flush, empty, read, textThen, something]
          exact ⟨trivial, rfl, rfl⟩

/-- A call takes its result off the outlook, unless a read failed: then the outlook stays. -/
theorem outlook_next {tokenizer : Tokenizer} (sound : tokenizer.Sound)
    (running : tokenizer.isFinished = false) :
    tokenizer.next.after.Sound ∧
      tokenizer.outlook =
        (if isReadFailure tokenizer.next.result then [] else [tokenizer.next.result]) ++
          tokenizer.next.after.outlook := by
  match phase : tokenizer.phase with
  | .finished => simp [isFinished, phase] at running
  | .owing due =>
      simp only [Sound, phase] at sound
      obtain ⟨after, same⟩ := outlook_pay sound
      simp only [next, phase, returning, outlook]
      exact ⟨after, same⟩
  | .scanning mode region =>
      simp only [Sound, phase] at sound
      have scanned := outlook_scanFrom sound #[]
      simp only [next, phase, outlook]
      simp only at scanned
      split
      · next due found =>
          rw [found] at scanned
          obtain ⟨after, lasting, same⟩ := outlook_flush scanned.1
            (scanFrom mode region tokenizer.source #[]).region
            ((scanFrom mode region tokenizer.source #[]).reads.toList.map .read ++
              due.diagnosis mode (scanFrom mode region tokenizer.source #[]).after.offset)
          rw [lasting]
          exact ⟨after, scanned.2.trans same⟩
      · next failure failed =>
          rw [failed] at scanned
          exact scanned

@[simp] theorem source_pay (source : Source) (due : Due) : (pay source due).2.source = source := by
  cases due <;> rfl

/-- Only the end that is due finishes a tokenizer when it is paid. -/
theorem pay_of_finishing {due : Due} {source : Source} (sound : due.Sound source)
    (finishing : (pay source due).2.isFinished = true) :
    (pay source due).1 = .endOfInput source.offset ∧ source.exhausted = true ∧
      source.unread = [] := by
  cases due with
  | marker delimiter position => simp [pay, isFinished] at finishing
  | endOfInput => exact ⟨rfl, sound⟩

theorem flush_of_finishing {due : Due} {source : Source} (sound : due.Sound source)
    {region : Region} {events : List Event}
    (finishing : (flush region due events source).after.isFinished = true) :
    (flush region due events source).isMalformed = true ∨
      (flush region due events source).result = .ok (.endOfInput source.offset) ∧
        (flush region due events source).after.source = source ∧ source.exhausted = true ∧
          source.unread = [] := by
  simp only [flush] at finishing ⊢
  split at finishing
  · next empty =>
      obtain ⟨token, ended, nothing⟩ := pay_of_finishing sound finishing
      rw [if_pos empty]
      exact .inr ⟨congrArg Except.ok token, source_pay source due, ended, nothing⟩
  · next filled =>
      rw [if_neg filled]
      split at finishing
      · simp [returning, isFinished] at finishing
      · exact .inl rfl

/-- A call that finishes a tokenizer has met malformed text, or it returns the end with nothing
left to come. -/
theorem next_of_finishing {tokenizer : Tokenizer} (sound : tokenizer.Sound)
    (running : tokenizer.isFinished = false)
    (finishing : tokenizer.next.after.isFinished = true) :
    tokenizer.next.isMalformed = true ∨
      tokenizer.next.result = .ok (.endOfInput tokenizer.next.after.source.offset) ∧
        tokenizer.next.after.source.exhausted = true ∧
          tokenizer.next.after.source.unread = [] := by
  match phase : tokenizer.phase with
  | .finished => simp [isFinished, phase] at running
  | .owing due =>
      simp only [Sound, phase] at sound
      simp only [next, phase, returning, source_pay] at finishing ⊢
      obtain ⟨token, ended, nothing⟩ := pay_of_finishing sound finishing
      exact .inr ⟨congrArg Except.ok token, ended, nothing⟩
  | .scanning mode region =>
      simp only [Sound, phase] at sound
      have scanned := outlook_scanFrom sound #[]
      simp only at scanned
      simp only [next, phase] at finishing ⊢
      split at finishing
      · next due found =>
          rw [found] at scanned
          rcases flush_of_finishing scanned.1 finishing with malformed | ⟨token, same, ended⟩
          · exact .inl malformed
          · rw [same]
            exact .inr ⟨token, ended⟩
      · simp [isFinished] at finishing

theorem next?_eq_none_iff {tokenizer : Tokenizer} :
    tokenizer.next? = none ↔ tokenizer.isFinished = true := by
  simp [next?]

theorem next?_eq_some_iff {tokenizer : Tokenizer} {step : Step} :
    tokenizer.next? = some step ↔ tokenizer.isFinished = false ∧ tokenizer.next = step := by
  simp [next?]

theorem run_of_isFinished {tokenizer : Tokenizer} (finished : tokenizer.isFinished = true) :
    tokenizer.run = [] := by
  rw [run]
  split
  · rfl
  · next step stepped =>
      rw [next?, if_pos finished] at stepped
      contradiction

theorem run_of_running {tokenizer : Tokenizer} (running : tokenizer.isFinished = false) :
    tokenizer.run = tokenizer.next :: tokenizer.next.after.run := by
  have going : ¬ tokenizer.isFinished = true := by rw [running]; exact Bool.false_ne_true
  rw [run]
  split
  · next stepped =>
      rw [next?, if_neg going] at stepped
      contradiction
  · next step stepped =>
      rw [next?, if_neg going] at stepped
      cases stepped
      rfl

/-- What holds of finished tokenizers, and of a running one if it holds after its next call, holds
of every tokenizer. -/
theorem run_induction {motive : Tokenizer → Prop} (tokenizer : Tokenizer)
    (finished : ∀ tokenizer, tokenizer.isFinished = true → motive tokenizer)
    (running : ∀ tokenizer, tokenizer.isFinished = false → motive tokenizer.next.after →
      motive tokenizer) : motive tokenizer := by
  induction left : tokenizer.resultsLeft using Nat.strongRecOn generalizing tokenizer with
  | ind left ih =>
      cases state : tokenizer.isFinished with
      | true => exact finished tokenizer state
      | false =>
          have fewer := resultsLeft_next state
          exact running tokenizer state (ih _ (by omega) _ rfl)

/-- The results of a run, failed reads aside, are its outlook. -/
theorem results_run {tokenizer : Tokenizer} (sound : tokenizer.Sound) :
    (tokenizer.run.map Step.result).filter (fun result => !isReadFailure result) =
      tokenizer.outlook := by
  induction tokenizer using run_induction with
  | finished tokenizer finished =>
      rw [run_of_isFinished finished, outlook_of_isFinished finished]
      rfl
  | running tokenizer running ih =>
      obtain ⟨after, same⟩ := outlook_next sound running
      rw [run_of_running running, List.map_cons, List.filter_cons, ih after, same]
      cases isReadFailure tokenizer.next.result <;> rfl

end Tokenizer

end TemplateLexer
