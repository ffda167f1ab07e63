/-
This file runs a tokenizer on the cells of its buffer and checks each step that could go wrong.
-/

import TemplateLexer.Proofs.Rounds
import TemplateLexer.Proofs.Session

namespace TemplateLexer

/-- A check that has failed. -/
inductive Trap where
  | differenceBelowZero
  | rangeOutsideCells
  | sumAboveLimit
  | releaseBeyondUnread
  | lookaheadWithoutLead
  | textWithoutContents
  deriving DecidableEq, Repr

theorem exists_of_bind_eq_ok {α β : Type} {first : Except Trap α} {next : α → Except Trap β}
    {value : β} (passed : first >>= next = .ok value) :
    ∃ part, first = .ok part ∧ next part = .ok value := by
  cases first with
  | error trap => cases passed
  | ok part => exact ⟨part, rfl, passed⟩

theorem bind_of_ok {α β : Type} {first : Except Trap α} {part : α} (passed : first = .ok part)
    (next : α → Except Trap β) : first >>= next = next part := by
  rw [passed]
  rfl

namespace Checked

def difference (more less : Nat) : Except Trap Nat :=
  if less ≤ more then .ok (more - less) else .error .differenceBelowZero

/-- The limit is the largest number that an offset may be. -/
def sum (limit first second : Nat) : Except Trap Nat :=
  if first + second ≤ limit then .ok (first + second) else .error .sumAboveLimit

/-- The contents of the cells between two indices. -/
def range (cells : List UInt8) (start stop : Nat) : Except Trap (List UInt8) :=
  if start ≤ stop ∧ stop ≤ cells.length then .ok (cells.extract start stop)
  else .error .rangeOutsideCells

/-- The cells after data was written from a position on. -/
def write (cells : List UInt8) (position : Nat) (data : List UInt8) : Except Trap (List UInt8) :=
  if position + data.length ≤ cells.length then .ok (overwrite cells position data)
  else .error .rangeOutsideCells

/-- A token that carries no contents, and so is no text. -/
def bare (kind : Kind) (span : Span) : Except Trap Token :=
  if kind = .text then .error .textWithoutContents else .ok (.bare kind span)

end Checked

/-- The unread bytes stand in the cells from `start` up to, and without, `stop`. The offset is the
place in the template of the first of them. -/
structure Tape where
  reader : Reader
  cells : List UInt8
  start : Nat
  stop : Nat
  offset : Nat
  exhausted : Bool

namespace Tape

def ofReader (reader : Reader) (capacity : Capacity) : Tape :=
  ⟨reader, .replicate capacity.size 0, 0, 0, 0, false⟩

/-- A tape without unread bytes starts anew. Unread bytes that reach the end of the cells are copied
to their front. -/
def makeRoom (tape : Tape) : Except Trap Tape :=
  if tape.start = tape.stop then .ok { tape with start := 0, stop := 0 }
  else if tape.stop = tape.cells.length then do
    let unread ← Checked.range tape.cells tape.start tape.stop
    let cells ← Checked.write tape.cells 0 unread
    let stop ← Checked.difference tape.stop tape.start
    return { tape with cells, start := 0, stop }
  else .ok tape

/-- One read into all cells behind the unread bytes. -/
def refill (tape : Tape) : Except Trap (ReadRecord × Tape) := do
  let room ← Checked.difference tape.cells.length tape.stop
  let read := tape.reader.read room
  let cells ← Checked.write tape.cells tape.stop read.1.data
  return (⟨tape.offset, room, read.1⟩,
    { tape with
      reader := read.2
      cells
      stop := tape.stop + read.1.data.length
      exhausted := tape.exhausted || read.1 == .bytes [] })

/-- The read that is made if fewer than `count` bytes are unread and more may follow. -/
def wantedRead (tape : Tape) (count : Nat) : Except Trap (Option (ReadRecord × Tape)) := do
  let unread ← Checked.difference tape.stop tape.start
  if tape.exhausted = false ∧ unread < count then
    let roomy ← tape.makeRoom
    let read ← roomy.refill
    return some read
  else return none

/-- The most reads that can still be made. -/
def readsLeft (tape : Tape) : Nat :=
  match tape.exhausted with
  | true => 0
  | false => readsToEnd tape.reader.deliveries + 1

theorem makeRoom_keeps {tape roomy : Tape} (made : tape.makeRoom = .ok roomy) :
    roomy.reader = tape.reader ∧ roomy.exhausted = tape.exhausted := by
  rw [makeRoom] at made
  split at made
  · cases made
    exact ⟨rfl, rfl⟩
  · split at made
    · obtain ⟨_, -, made⟩ := exists_of_bind_eq_ok made
      obtain ⟨_, -, made⟩ := exists_of_bind_eq_ok made
      obtain ⟨_, -, made⟩ := exists_of_bind_eq_ok made
      cases made
      exact ⟨rfl, rfl⟩
    · cases made
      exact ⟨rfl, rfl⟩

theorem readsLeft_refill {tape : Tape} {read : ReadRecord × Tape}
    (unfinished : tape.exhausted = false) (made : tape.refill = .ok read) :
    read.2.readsLeft < tape.readsLeft := by
  obtain ⟨room, -, made⟩ := exists_of_bind_eq_ok made
  obtain ⟨cells, -, made⟩ := exists_of_bind_eq_ok made
  cases made
  simp only [readsLeft, unfinished, Bool.false_or]
  split
  · exact Nat.succ_pos _
  · next continuing =>
      have more : (tape.reader.read room).1 ≠ .bytes [] := of_decide_eq_false continuing
      have counted := Reader.readsToEnd_read more
      have positive := Delivery.weight_pos more
      omega

/-- A read that is wanted uses up one of those that can still be made. -/
theorem readsLeft_wantedRead {tape : Tape} {count : Nat} {read : ReadRecord × Tape}
    (made : tape.wantedRead count = .ok (some read)) : read.2.readsLeft < tape.readsLeft := by
  obtain ⟨unread, -, made⟩ := exists_of_bind_eq_ok made
  split at made
  · next short =>
      obtain ⟨roomy, room, made⟩ := exists_of_bind_eq_ok made
      obtain ⟨_, made, same⟩ := exists_of_bind_eq_ok made
      cases same
      obtain ⟨reader, exhausted⟩ := makeRoom_keeps room
      have fewer := readsLeft_refill (exhausted.trans short.1) made
      rwa [show roomy.readsLeft = tape.readsLeft by rw [readsLeft, readsLeft, reader, exhausted]]
        at fewer
  · cases made

/-- What a look at a tape shows unless a read fails. -/
structure Look (α : Type) where
  result : Except Failure α
  reads : Array ReadRecord
  after : Tape

/-- The tape reads until `count` bytes are unread, its reader ends, or a read fails. -/
def ensureFrom (tape : Tape) (count : Nat) (reads : Array ReadRecord) :
    Except Trap (Look Unit) :=
  match _made : tape.wantedRead count with
  | .error trap => .error trap
  | .ok none => .ok ⟨.ok (), reads, tape⟩
  | .ok (some read) =>
      match read.1.delivery with
      | .failure failure => .ok ⟨.error failure, reads.push read.1, read.2⟩
      | _ => read.2.ensureFrom count (reads.push read.1)
  termination_by tape.readsLeft
  decreasing_by exact readsLeft_wantedRead _made

theorem ensureFrom_of_enough {tape : Tape} {count : Nat}
    (enough : tape.wantedRead count = .ok none) (reads : Array ReadRecord) :
    tape.ensureFrom count reads = .ok ⟨.ok (), reads, tape⟩ := by
  rw [ensureFrom]
  split
  · next trap trapped => cases enough.symm.trans trapped
  · rfl
  · next read wanted => cases enough.symm.trans wanted

theorem ensureFrom_of_failure {tape : Tape} {count : Nat} {read : ReadRecord × Tape}
    {failure : Failure} (wanted : tape.wantedRead count = .ok (some read))
    (failed : read.1.delivery = .failure failure) (reads : Array ReadRecord) :
    tape.ensureFrom count reads = .ok ⟨.error failure, reads.push read.1, read.2⟩ := by
  rw [ensureFrom]
  split
  · next trap trapped => cases wanted.symm.trans trapped
  · next enough => cases wanted.symm.trans enough
  · next read' wanted' =>
      cases wanted.symm.trans wanted'
      simp only [failed]

theorem ensureFrom_of_going {tape : Tape} {count : Nat} {read : ReadRecord × Tape}
    (wanted : tape.wantedRead count = .ok (some read))
    (going : ∀ failure, read.1.delivery ≠ .failure failure) (reads : Array ReadRecord) :
    tape.ensureFrom count reads = read.2.ensureFrom count (reads.push read.1) := by
  rw [ensureFrom]
  split
  · next trap trapped => cases wanted.symm.trans trapped
  · next enough => cases wanted.symm.trans enough
  · next read' wanted' =>
      cases wanted.symm.trans wanted'
      split
      · next failure failed => exact absurd failed (going failure)
      · rfl

/-- The unread bytes, once the tape has read until there are `count` of them. -/
def look (tape : Tape) (count : Nat) : Except Trap (Look (List UInt8)) := do
  let look ← tape.ensureFrom count #[]
  let unread ← Checked.range look.after.cells look.after.start look.after.stop
  return { look with result := look.result.map fun _ => unread }

/-- The first `count` unread bytes are released. -/
def advance (limit : Nat) (tape : Tape) (count : Nat) : Except Trap Tape := do
  let unread ← Checked.difference tape.stop tape.start
  if count ≤ unread then
    let offset ← Checked.sum limit tape.offset count
    return { tape with start := tape.start + count, offset }
  else .error .releaseBeyondUnread

/-- What a scan stops at, and the text before it. -/
structure Scan where
  result : Except Failure Due
  region : Region
  reads : Array ReadRecord
  after : Tape

inductive Round where
  | stops (scan : Scan)
  | goesOn (region : Region) (tape : Tape) (reads : Array ReadRecord)

/-- The end of a round whose tape has come to a lead byte. -/
def roundAtLead (limit : Nat) (mode : Mode) (region : Region) (tape : Tape)
    (reads : Array ReadRecord) : Except Trap Round := do
  let look ← tape.look delimiterLength
  match look.result with
  | .error failure => return .stops ⟨.error failure, region, reads ++ look.reads, look.after⟩
  | .ok unread =>
      if unread[0]? = some mode.lead then
        match unread[1]?.bind (mode.formed? mode.lead) with
        | some delimiter =>
            let after ← look.after.advance limit delimiterLength
            return .stops ⟨.ok (.marker delimiter tape.offset), region, reads ++ look.reads, after⟩
        | none =>
            let after ← look.after.advance limit 1
            return .goesOn (region.append [mode.lead]) after (reads ++ look.reads)
      else .error .lookaheadWithoutLead

/-- One round of a scan: the bytes before the first lead byte are text, and the lead byte is text
too unless it begins a delimiter. -/
def round (limit : Nat) (mode : Mode) (region : Region) (tape : Tape)
    (reads : Array ReadRecord) : Except Trap Round := do
  let look ← tape.look 1
  match look.result with
  | .error failure => return .stops ⟨.error failure, region, reads ++ look.reads, look.after⟩
  | .ok window =>
      if window.isEmpty then
        return .stops ⟨.ok .endOfInput, region, reads ++ look.reads, look.after⟩
      else
        match window.idxOf? mode.lead with
        | none =>
            let after ← look.after.advance limit window.length
            return .goesOn (region.append window) after (reads ++ look.reads)
        | some position =>
            let front ← Checked.range window 0 position
            let after ← look.after.advance limit position
            roundAtLead limit mode (region.append front) after (reads ++ look.reads)

/-- Between two tapes reads were used up, or else at least `count` unread bytes. -/
def Spends (count : Nat) (tape after : Tape) : Prop :=
  after.readsLeft < tape.readsLeft ∨
    after.readsLeft = tape.readsLeft ∧
      after.stop - after.start + count ≤ tape.stop - tape.start

theorem Spends.trans {first second : Nat} {tape middle after : Tape}
    (before : tape.Spends first middle) (behind : middle.Spends second after) :
    tape.Spends (first + second) after := by
  rw [Spends] at *
  omega

theorem spends_ensureFrom {tape : Tape} {count : Nat} {reads : Array ReadRecord}
    {look : Look Unit} (made : tape.ensureFrom count reads = .ok look) :
    tape.Spends 0 look.after := by
  fun_induction ensureFrom tape count reads with
  | case1 => contradiction
  | case2 =>
      cases made
      exact .inr ⟨rfl, Nat.le_refl _⟩
  | case3 tape reads read wanted failure failed =>
      cases made
      exact .inl (readsLeft_wantedRead wanted)
  | case4 tape reads read wanted going ih =>
      have first : tape.Spends 0 read.2 := .inl (readsLeft_wantedRead wanted)
      exact first.trans (ih made)

theorem spends_look {tape : Tape} {count : Nat} {look : Look (List UInt8)}
    (made : tape.look count = .ok look) : tape.Spends 0 look.after := by
  obtain ⟨ensured, read, made⟩ := exists_of_bind_eq_ok made
  obtain ⟨unread, -, made⟩ := exists_of_bind_eq_ok made
  cases made
  exact spends_ensureFrom read

theorem spends_advance {limit count : Nat} {tape after : Tape}
    (made : tape.advance limit count = .ok after) : tape.Spends count after := by
  obtain ⟨unread, checked, made⟩ := exists_of_bind_eq_ok made
  rw [Checked.difference] at checked
  split at checked
  · cases checked
    split at made
    · obtain ⟨offset, -, made⟩ := exists_of_bind_eq_ok made
      cases made
      refine .inr ⟨rfl, ?_⟩
      change tape.stop - (tape.start + count) + count ≤ tape.stop - tape.start
      omega
    · cases made
  · cases checked

theorem spends_roundAtLead {limit : Nat} {mode : Mode} {region region' : Region}
    {tape tape' : Tape} {reads reads' : Array ReadRecord}
    (made : roundAtLead limit mode region tape reads = .ok (.goesOn region' tape' reads')) :
    tape.Spends 1 tape' := by
  obtain ⟨look, looked, made⟩ := exists_of_bind_eq_ok made
  split at made
  · cases made
  · split at made
    · split at made
      · obtain ⟨_, -, made⟩ := exists_of_bind_eq_ok made
        cases made
      · obtain ⟨_, advanced, made⟩ := exists_of_bind_eq_ok made
        cases made
        exact (spends_look looked).trans (spends_advance advanced)
    · cases made

/-- A round that goes on has used up a read or a byte. -/
theorem spends_round {limit : Nat} {mode : Mode} {region region' : Region} {tape tape' : Tape}
    {reads reads' : Array ReadRecord}
    (made : round limit mode region tape reads = .ok (.goesOn region' tape' reads')) :
    ∃ count, 0 < count ∧ tape.Spends count tape' := by
  obtain ⟨look, looked, made⟩ := exists_of_bind_eq_ok made
  have first := spends_look looked
  split at made
  · cases made
  · next window shown =>
      split at made
      · cases made
      · next filled =>
          split at made
          · obtain ⟨_, advanced, made⟩ := exists_of_bind_eq_ok made
            cases made
            refine ⟨_, ?_, first.trans (spends_advance advanced)⟩
            rw [Nat.zero_add, List.length_pos_iff]
            exact fun nothing => filled (List.isEmpty_iff.mpr nothing)
          · obtain ⟨_, -, made⟩ := exists_of_bind_eq_ok made
            obtain ⟨middle, advanced, made⟩ := exists_of_bind_eq_ok made
            exact ⟨_, Nat.succ_pos _,
              first.trans ((spends_advance advanced).trans (spends_roundAtLead made))⟩

/-- Rounds follow each other until one of them stops. -/
def scanFrom (limit : Nat) (mode : Mode) (region : Region) (tape : Tape)
    (reads : Array ReadRecord) : Except Trap Scan :=
  match _made : round limit mode region tape reads with
  | .error trap => .error trap
  | .ok (.stops scan) => .ok scan
  | .ok (.goesOn region tape reads) => scanFrom limit mode region tape reads
  termination_by (tape.readsLeft, tape.stop - tape.start)
  decreasing_by
    obtain ⟨count, positive, spends⟩ := spends_round _made
    apply Prod.lex_def.mpr
    rw [Spends] at spends
    omega

theorem scanFrom_of_stops {limit : Nat} {mode : Mode} {region : Region} {tape : Tape}
    {reads : Array ReadRecord} {scan : Scan}
    (made : round limit mode region tape reads = .ok (.stops scan)) :
    scanFrom limit mode region tape reads = .ok scan := by
  rw [scanFrom]
  split
  · next trap trapped => cases made.symm.trans trapped
  · next scan' stopped =>
      cases made.symm.trans stopped
      rfl
  · next goesOn => cases made.symm.trans goesOn

theorem scanFrom_of_goesOn {limit : Nat} {mode : Mode} {region region' : Region}
    {tape tape' : Tape} {reads reads' : Array ReadRecord}
    (made : round limit mode region tape reads = .ok (.goesOn region' tape' reads')) :
    scanFrom limit mode region tape reads =
      scanFrom limit mode region' tape' reads' := by
  rw [scanFrom]
  split
  · next trap trapped => cases made.symm.trans trapped
  · next stopped => cases made.symm.trans stopped
  · next region tape reads goesOn =>
      cases made.symm.trans goesOn
      rfl

/-- A tokenizer whose source is a tape. -/
structure Tokenizer where
  tape : Tape
  phase : Phase

structure Step where
  result : Result
  events : List Event
  after : Tokenizer

def returning (token : Token) (events : List Event) (after : Tokenizer) : Step :=
  ⟨.ok token, events ++ [.token token.kind token.span], after⟩

def pay (limit : Nat) (tape : Tape) : Due → Except Trap (Token × Tokenizer)
  | .marker delimiter position => do
      let stop ← Checked.sum limit position delimiterLength
      let token ← Checked.bare (.marker delimiter) ⟨position, stop⟩
      return (token, ⟨tape, .scanning delimiter.nextMode (.emptyAt tape.offset)⟩)
  | .endOfInput => do
      let token ← Checked.bare .endOfInput (.point tape.offset)
      return (token, ⟨tape, .finished⟩)

def flush (limit : Nat) (region : Region) (due : Due) (events : List Event) (tape : Tape) :
    Except Trap Step := do
  if region.isEmpty then
    let paid ← pay limit tape due
    return returning paid.1 events paid.2
  else
    let stop ← Checked.sum limit region.start region.size
    match Utf8.decode region.bytes.toList with
    | .ok contents =>
        return returning (.text contents ⟨region.start, stop⟩) events ⟨tape, .owing due⟩
    | .error fault =>
        let _ ← Checked.sum limit region.start fault.validLength
        return ⟨.error (.malformedText region.start region.bytes.toList fault), events,
          ⟨tape, .finished⟩⟩

namespace Tokenizer

def ofReader (reader : Reader) (capacity : Capacity) : Tokenizer :=
  ⟨.ofReader reader capacity, .scanning .literal (.emptyAt 0)⟩

def next (limit : Nat) (tokenizer : Tokenizer) : Except Trap Step :=
  match tokenizer.phase with
  | .scanning mode region => do
      let scan ← scanFrom limit mode region tokenizer.tape #[]
      let reads := scan.reads.toList.map .read
      match scan.result with
      | .ok due =>
          flush limit scan.region due (reads ++ due.diagnosis mode scan.after.offset) scan.after
      | .error failure =>
          return ⟨.error (.readFailed scan.after.offset failure), reads,
            ⟨scan.after, .scanning mode scan.region⟩⟩
  | .owing due => do
      let paid ← pay limit tokenizer.tape due
      return returning paid.1 [] paid.2
  | .finished => do
      let token ← Checked.bare .endOfInput (.point tokenizer.tape.offset)
      return returning token [] tokenizer

/-- The step that answers a call, if it makes one. -/
def answer? (limit : Nat) (tokenizer : Tokenizer) : Call → Except Trap (Option Step)
  | .nextToken => return some (← tokenizer.next limit)
  | .next =>
      if tokenizer.phase == .finished then return none
      else return some (← tokenizer.next limit)

/-- The results and the events of a sequence of calls, and the tokenizer behind them. -/
def session (limit : Nat) (tokenizer : Tokenizer) :
    List Call → Except Trap (List (Result × List Event) × Tokenizer)
  | [] => return ([], tokenizer)
  | call :: calls => do
      let answer ← tokenizer.answer? limit call
      match answer with
      | some step =>
          let rest ← step.after.session limit calls
          return ((step.result, step.events) :: rest.1, rest.2)
      | none => tokenizer.session limit calls

end Tokenizer

end Tape

end TemplateLexer
