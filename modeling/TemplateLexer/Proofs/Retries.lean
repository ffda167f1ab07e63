import TemplateLexer.Proofs.ReadRoom
import TemplateLexer.Proofs.Streaming

namespace TemplateLexer

/-- The read succeeded, perhaps with a report of the end. -/
def ReadRecord.succeeded (record : ReadRecord) : Bool := record.delivery.isBytes

/-- The reads that succeeded, in their order. -/
def successes (reads : Array ReadRecord) : Array ReadRecord := reads.filter ReadRecord.succeeded

theorem successes_push_of_succeeded {record : ReadRecord} (fine : record.succeeded = true)
    (reads : Array ReadRecord) : successes (reads.push record) = (successes reads).push record := by
  simp [successes, fine]

theorem successes_push_of_silent {record : ReadRecord} (silent : record.succeeded = false)
    (reads : Array ReadRecord) : successes (reads.push record) = successes reads := by
  simp [successes, silent]

namespace Reader

/-- A read that succeeds is the same without the failures to come. -/
theorem read_withoutFailures {reader : Reader} {want : Nat}
    (fine : (reader.read want).1.isBytes = true) :
    reader.withoutFailures.read want =
      ((reader.read want).1, (reader.read want).2.withoutFailures) := by
  obtain ⟨deliveries, limit, positive⟩ := reader
  match deliveries with
  | [] => rfl
  | .interruption :: rest => simp [read, Delivery.isBytes] at fine
  | .failure failure :: rest => simp [read, Delivery.isBytes] at fine
  | .bytes data :: rest =>
      have kept (data : List UInt8) : (Delivery.bytes data :: rest).filter Delivery.isBytes =
          .bytes data :: rest.filter Delivery.isBytes := rfl
      have same :
          share ⟨(Delivery.bytes data :: rest).filter Delivery.isBytes, limit, positive⟩ want =
            share ⟨.bytes data :: rest, limit, positive⟩ want := rfl
      simp only [read, withoutFailures, kept] at same ⊢
      rw [same]
      by_cases last : (data.drop (share ⟨.bytes data :: rest, limit, positive⟩ want)).isEmpty = true
      · simp only [if_pos last]
      · simp only [if_neg last, kept]

/-- A read that does not succeed takes away nothing but a failure. -/
theorem withoutFailures_read {reader : Reader} {want : Nat}
    (silent : (reader.read want).1.isBytes = false) :
    (reader.read want).2.withoutFailures = reader.withoutFailures := by
  match deliveries : reader.deliveries with
  | [] => simp [read, deliveries, Delivery.isBytes] at silent
  | .bytes data :: rest => simp [read, deliveries, Delivery.isBytes] at silent
  | .interruption :: rest => simp [read, withoutFailures, deliveries, Delivery.isBytes]
  | .failure failure :: rest => simp [read, withoutFailures, deliveries, Delivery.isBytes]

end Reader

/-- Room that was made does not need to be made again. -/
theorem Buffer.makeRoom_makeRoom (buffer : Buffer) :
    buffer.makeRoom.makeRoom = buffer.makeRoom := by
  apply Buffer.ext
  · exact buffer.makeRoom.capacity_makeRoom
  · by_cases moved : buffer.unread = [] ∨ buffer.stop = buffer.capacity.size
    · have front : buffer.makeRoom.start = 0 := by rw [start_makeRoom, if_pos moved]
      rw [start_makeRoom, front, ite_self]
    · have stays : buffer.makeRoom.start = buffer.start := by rw [start_makeRoom, if_neg moved]
      have stop : buffer.makeRoom.stop = buffer.stop := by rw [stop_makeRoom, stays]; rfl
      rw [start_makeRoom, unread_makeRoom, stop, capacity_makeRoom, if_neg moved]
  · exact buffer.makeRoom.unread_makeRoom

attribute [ext] Source

namespace Source

/-- The source without the failures and interruptions that are still to come. -/
def withoutFailures (source : Source) : Source :=
  { source with reader := source.reader.withoutFailures }

/-- The source with the room made that its next read needs. -/
def roomy (source : Source) : Source := { source with buffer := source.buffer.makeRoom }

/-- Where the same room is made and the same is delivered, a read does the same. -/
theorem refill_eq {source other : Source} (offset : source.offset = other.offset)
    (buffer : source.buffer.makeRoom = other.buffer.makeRoom)
    (exhausted : source.exhausted = other.exhausted)
    (delivered : source.refill.1.delivery = other.refill.1.delivery) :
    source.refill = (other.refill.1, { other.refill.2 with reader := source.refill.2.reader }) := by
  have record : source.refill.1 = other.refill.1 := by
    change ReadRecord.mk source.offset source.buffer.makeRoom.room source.refill.1.delivery =
      ReadRecord.mk other.offset other.buffer.makeRoom.room other.refill.1.delivery
    rw [offset, buffer, delivered]
  have start : source.refill.2.buffer.start = other.refill.2.buffer.start := by
    rw [start_refill, start_refill, buffer]
  have unread : source.refill.2.unread = other.refill.2.unread := by
    rw [unread_refill, unread_refill, delivered]
    exact congrArg (· ++ _) ((source.buffer.unread_makeRoom.symm.trans
      (congrArg Buffer.unread buffer)).trans other.buffer.unread_makeRoom)
  have capacity : source.refill.2.buffer.capacity = other.refill.2.buffer.capacity := by
    rw [capacity_refill, capacity_refill, ← source.buffer.capacity_makeRoom, buffer,
      other.buffer.capacity_makeRoom]
  refine Prod.ext record (Source.ext rfl (Buffer.ext capacity start unread) ?_ ?_)
  · change source.refill.2.offset = other.refill.2.offset
    rw [offset_refill, offset_refill, offset]
  · change source.refill.2.exhausted = other.refill.2.exhausted
    rw [Bool.eq_iff_iff, exhausted_refill_iff, exhausted_refill_iff, exhausted, delivered]

theorem refill_roomy (source : Source) : source.roomy.refill = source.refill := by
  have buffer : source.roomy.buffer.makeRoom = source.buffer.makeRoom :=
    source.buffer.makeRoom_makeRoom
  have read : source.roomy.reader.read source.roomy.buffer.makeRoom.room =
      source.reader.read source.buffer.makeRoom.room := by
    rw [buffer]
    rfl
  have left : source.roomy.refill.2.reader = source.refill.2.reader := by
    rw [reader_refill, reader_refill, read]
  have same : source.roomy.refill =
      (source.refill.1, { source.refill.2 with reader := source.roomy.refill.2.reader }) :=
    refill_eq rfl buffer rfl (congrArg Prod.fst read)
  rw [same, left]

/-- A read that succeeds is the same without the failures to come. -/
theorem refill_withoutFailures {source : Source} (fine : source.refill.1.succeeded = true) :
    source.withoutFailures.refill = (source.refill.1, source.refill.2.withoutFailures) := by
  have read := Reader.read_withoutFailures fine
  have delivered := congrArg Prod.fst read
  have left : source.withoutFailures.refill.2.reader = source.refill.2.reader.withoutFailures := by
    rw [reader_refill, reader_refill]
    exact congrArg Prod.snd read
  have same : source.withoutFailures.refill = (source.refill.1,
      { source.refill.2 with reader := source.withoutFailures.refill.2.reader }) :=
    refill_eq rfl rfl rfl delivered
  rw [same, left]
  rfl

/-- A read that does not succeed makes room, and changes nothing else. -/
theorem withoutFailures_refill {source : Source} (silent : source.refill.1.succeeded = false) :
    source.refill.2.withoutFailures = source.withoutFailures.roomy := by
  have nothing : source.refill.1.delivery.data = [] := by
    cases delivered : source.refill.1.delivery with
    | bytes data => simp [ReadRecord.succeeded, delivered, Delivery.isBytes] at silent
    | interruption => rfl
    | failure failure => rfl
  have more : source.refill.1.delivery ≠ .bytes [] := by
    intro ended
    simp [ReadRecord.succeeded, ended, Delivery.isBytes] at silent
  refine Source.ext ?_ (Buffer.ext ?_ ?_ ?_) ?_ ?_
  · change source.refill.2.reader.withoutFailures = source.reader.withoutFailures
    rw [reader_refill]
    exact Reader.withoutFailures_read silent
  · exact (capacity_refill source).trans source.buffer.capacity_makeRoom.symm
  · exact start_refill source
  · refine (unread_refill source).trans ?_
    rw [nothing, List.append_nil]
    exact source.buffer.unread_makeRoom.symm
  · exact offset_refill source
  · rw [Bool.eq_iff_iff]
    exact (exhausted_refill_iff source).trans (or_iff_left more)

/-- Reading ahead puts behind the unread bytes what it reads, and nothing else. -/
theorem unread_ensureFrom (count : Nat) (source : Source) (reads : Array ReadRecord) :
    ∃ more, (ensureFrom count source reads).reads = reads ++ more ∧
      (ensureFrom count source reads).after.unread = source.unread ++ handedOut more.toList := by
  fun_induction ensureFrom count source reads with
  | case1 source reads short read failure failed =>
      refine ⟨#[read.1], rfl, ?_⟩
      rw [unread_refill]
      exact congrArg _ (List.append_nil _).symm
  | case2 source reads short read going ih =>
      obtain ⟨more, all, unread⟩ := ih
      refine ⟨#[read.1] ++ more, ?_, ?_⟩
      · rw [all, Array.push_eq_append, Array.append_assoc]
      · rw [unread, unread_refill, List.append_assoc, Array.toList_append, handedOut_append]
        exact congrArg _ (congrArg (· ++ _) (List.append_nil _).symm)
  | case3 source reads enough => exact ⟨#[], rfl, (List.append_nil _).symm⟩

/-- Reading ahead that fails leaves the end unreported and uses up some reads. -/
theorem ensureFrom_of_error {count : Nat} {source : Source} {reads : Array ReadRecord}
    {failure : Failure} (failed : (ensureFrom count source reads).result = .error failure) :
    source.exhausted = false ∧ (ensureFrom count source reads).after.exhausted = false ∧
      (ensureFrom count source reads).after.readsLeft < source.readsLeft := by
  fun_induction ensureFrom count source reads with
  | case1 source reads short read met delivered =>
      have more : source.refill.1.delivery ≠ .bytes [] := by
        intro ended
        exact Delivery.noConfusion (delivered.symm.trans ended)
      exact ⟨short.1, exhausted_refill_of_more short.1 more, readsLeft_refill short.1⟩
  | case2 source reads short read going ih =>
      obtain ⟨-, last, fewer⟩ := ih failed
      exact ⟨short.1, last, Nat.lt_trans fewer (readsLeft_refill short.1)⟩
  | case3 source reads enough => contradiction

/-- A window and a lookahead read ahead and show their part of the bytes that are then unread. -/
theorem serve_eq_ensure {request : Request} (needed : request.need ≠ 0) (source : Source) :
    source.serve request =
      ⟨(source.ensure request.need).result.map fun _ =>
          request.part (source.ensure request.need).after.unread,
        (source.ensure request.need).reads, (source.ensure request.need).after⟩ := by
  cases request with
  | window => rfl
  | lookahead =>
      simp only [serve, lookahead, Request.need, Request.part, ← take_delimiterLength]
      cases (source.ensure delimiterLength).result <;> rfl
  | advance count => exact absurd rfl needed

/-- A request that fails releases nothing and keeps what it has read behind what was unread. -/
theorem serve_of_error {source : Source} {request : Request} {failure : Failure}
    (failed : (source.serve request).result = .error failure) :
    (source.serve request).after.offset = source.offset ∧
      (source.serve request).after.isDrained = source.isDrained ∧
      (source.serve request).after.unread =
        source.unread ++ handedOut (source.serve request).reads.toList ∧
      (source.serve request).after.readsLeft < source.readsLeft := by
  have needed : request.need ≠ 0 := by
    cases request with
    | window => decide
    | lookahead => decide
    | advance count => contradiction
  rw [serve_eq_ensure needed] at failed ⊢
  obtain ⟨before, behind, fewer⟩ := ensureFrom_of_error (of_map_eq_error failed)
  obtain ⟨more, all, unread⟩ := unread_ensureFrom request.need source #[]
  rw [Array.empty_append] at all
  refine ⟨offset_ensure source _, ?_, ?_, fewer⟩
  · change Source.isDrained (ensureFrom request.need source #[]).after = _
    rw [isDrained, isDrained, before, behind]
    rfl
  · change (ensureFrom request.need source #[]).after.unread =
      source.unread ++ handedOut (ensureFrom request.need source #[]).reads.toList
    rw [unread, all]

theorem ensureFrom_of_failure {count : Nat} {source : Source} {failure : Failure}
    (unfinished : source.exhausted = false) (short : source.unread.length < count)
    (failed : source.refill.1.delivery = .failure failure) (reads : Array ReadRecord) :
    ensureFrom count source reads =
      ⟨.error failure, reads.push source.refill.1, source.refill.2⟩ := by
  rw [ensureFrom, dif_pos ⟨unfinished, short⟩]
  simp only [failed]

theorem ensureFrom_of_going {count : Nat} {source : Source} (unfinished : source.exhausted = false)
    (short : source.unread.length < count)
    (going : ∀ failure, source.refill.1.delivery ≠ .failure failure) (reads : Array ReadRecord) :
    ensureFrom count source reads =
      ensureFrom count source.refill.2 (reads.push source.refill.1) := by
  rw [ensureFrom, dif_pos ⟨unfinished, short⟩]
  simp only

/-- The reads that were made before make no difference. -/
theorem ensureFrom_append (count : Nat) (source : Source) (front reads : Array ReadRecord) :
    ensureFrom count source (front ++ reads) =
      ⟨(ensureFrom count source reads).result, front ++ (ensureFrom count source reads).reads,
        (ensureFrom count source reads).after⟩ := by
  fun_induction ensureFrom count source reads with
  | case1 source reads short read failure failed =>
      rw [ensureFrom_of_failure short.1 short.2 failed, ← Array.append_push]
  | case2 source reads short read going ih =>
      rw [ensureFrom_of_going short.1 short.2 going, ← Array.append_push]
      exact ih
  | case3 source reads enough => rw [ensureFrom, dif_neg enough]

/-- Room that was made makes no difference to reading ahead that reads. -/
theorem ensureFrom_roomy {count : Nat} {source : Source} (unfinished : source.exhausted = false)
    (short : source.unread.length < count) (reads : Array ReadRecord) :
    ensureFrom count source.roomy reads = ensureFrom count source reads := by
  have same : source.roomy.unread = source.unread := source.buffer.unread_makeRoom
  have short' : source.roomy.unread.length < count := by rwa [same]
  conv_lhs => rw [ensureFrom, dif_pos ⟨unfinished, short'⟩, refill_roomy]
  conv_rhs => rw [ensureFrom, dif_pos ⟨unfinished, short⟩]

/-- Without the failures to come, reading ahead goes on where it would have failed. -/
theorem ensureFrom_withoutFailures (count : Nat) (source : Source) (reads : Array ReadRecord) :
    let look := ensureFrom count source reads
    ensureFrom count source.withoutFailures (successes reads) =
      match look.result with
      | .ok () => ⟨.ok (), successes look.reads, look.after.withoutFailures⟩
      | .error _ => ensureFrom count look.after.withoutFailures (successes look.reads) := by
  -- A read that does not succeed makes room, and the next one would make the same room.
  have skipped {source : Source} (unfinished : source.exhausted = false)
      (short : source.unread.length < count) (silent : source.refill.1.succeeded = false)
      (reads : Array ReadRecord) :
      ensureFrom count source.withoutFailures (successes reads) =
        ensureFrom count source.refill.2.withoutFailures
          (successes (reads.push source.refill.1)) := by
    rw [successes_push_of_silent silent, withoutFailures_refill silent]
    exact (@ensureFrom_roomy count source.withoutFailures unfinished short _).symm
  fun_induction ensureFrom count source reads with
  | case1 source reads short read failure failed =>
      apply skipped short.1 short.2
      rw [ReadRecord.succeeded, failed]
      rfl
  | case2 source reads short read going ih =>
      cases fine : source.refill.1.succeeded with
      | false => exact (skipped short.1 short.2 fine reads).trans ih
      | true =>
          have same := refill_withoutFailures fine
          have going' (failure : Failure) :
              source.withoutFailures.refill.1.delivery ≠ .failure failure := by
            rw [same]
            exact going failure
          rw [@ensureFrom_of_going count source.withoutFailures short.1 short.2 going', same]
          rw [successes_push_of_succeeded fine] at ih
          exact ih
  | case3 source reads enough =>
      rw [ensureFrom, dif_neg]
      exact enough

theorem ensure_withoutFailures (source : Source) (count : Nat) :
    let look := source.ensure count
    source.withoutFailures.ensure count =
      match look.result with
      | .ok () => ⟨.ok (), successes look.reads, look.after.withoutFailures⟩
      | .error _ =>
          let rest := look.after.withoutFailures.ensure count
          ⟨rest.result, successes look.reads ++ rest.reads, rest.after⟩ := by
  intro look
  have ahead := ensureFrom_withoutFailures count source #[]
  change source.withoutFailures.ensure count = match look.result with
    | .ok () => _
    | .error _ => ensureFrom count look.after.withoutFailures (successes look.reads) at ahead
  rw [ahead]
  cases result : look.result with
  | ok done => rfl
  | error failure => exact ensureFrom_append count _ (successes look.reads) #[]

/-- Without the failures to come, a request succeeds where it would have succeeded, and goes on
where it would have failed. -/
theorem serve_withoutFailures (source : Source) (request : Request) :
    let look := source.serve request
    source.withoutFailures.serve request =
      match look.result with
      | .ok shown => ⟨.ok shown, successes look.reads, look.after.withoutFailures⟩
      | .error _ =>
          let rest := look.after.withoutFailures.serve request
          ⟨rest.result, successes look.reads ++ rest.reads, rest.after⟩ := by
  by_cases idle : request.need = 0
  · cases request with
    | window => contradiction
    | lookahead => contradiction
    | advance count => rfl
  · have ahead := ensure_withoutFailures source request.need
    simp only [serve_eq_ensure idle]
    cases result : (source.ensure request.need).result with
    | ok done =>
        simp only [result] at ahead
        rw [ahead]
        rfl
    | error failure =>
        simp only [result] at ahead
        rw [ahead]
        rfl

/-- What a request shows when it succeeds at last, and all reads that were made for it. -/
structure Answer where
  shown : List UInt8
  reads : List ReadRecord
  after : Source

/-- A request that is made again until it succeeds. -/
def insist (source : Source) (request : Request) : Answer :=
  match _served : (source.serve request).result with
  | .ok shown => ⟨shown, (source.serve request).reads.toList, (source.serve request).after⟩
  | .error _ =>
      let answer := (source.serve request).after.insist request
      { answer with reads := (source.serve request).reads.toList ++ answer.reads }
  termination_by source.readsLeft
  decreasing_by exact (serve_of_error _served).2.2.2

/-- Requests that are made one behind the other, each of them until it succeeds. -/
def insistOn (source : Source) : List Request → Course
  | [] => ⟨[], source⟩
  | request :: requests =>
      let answer := source.insist request
      let rest := answer.after.insistOn requests
      ⟨answer.reads ++ rest.reads, rest.after⟩

/-- A request that is made until it succeeds shows what it shows at once if no read fails, and
leaves what is left then; and the reads that succeed are the same. -/
theorem insist_withoutFailures (source : Source) (request : Request) :
    let answer := source.insist request
    let look := source.withoutFailures.serve request
    look.result = .ok answer.shown ∧
      look.reads.toList = answer.reads.filter ReadRecord.succeeded ∧
      look.after = answer.after.withoutFailures := by
  fun_induction insist source request with
  | case1 source shown served =>
      have same := serve_withoutFailures source request
      simp only [served] at same
      simp only [same, successes, Array.toList_filter, and_self]
  | case2 source failure served answer ih =>
      have same := serve_withoutFailures source request
      simp only [served] at same
      obtain ⟨shown, reads, after⟩ := ih
      simp only [same]
      refine ⟨shown, ?_, after⟩
      rw [Array.toList_append, reads, List.filter_append, successes, Array.toList_filter]

theorem insistOn_course (source : Source) (requests : List Request) :
    let patient := source.insistOn requests
    let calm := source.withoutFailures.course requests
    calm.reads = patient.reads.filter ReadRecord.succeeded ∧
      calm.after = patient.after.withoutFailures := by
  induction requests generalizing source with
  | nil => exact ⟨rfl, rfl⟩
  | cons request requests ih =>
      obtain ⟨-, reads, after⟩ := insist_withoutFailures source request
      obtain ⟨later, last⟩ := ih (source.insist request).after
      simp only [course, insistOn, after, reads, later, last, List.filter_append, and_self]

/-- Whatever is requested, a request that fails leaves the offset as it is, and keeps the unread
bytes with what it has read behind them. If each request is made again until it succeeds, then what
they show, what they leave and the reads that succeed are the same as if the reader never failed. -/
theorem insistOn_withoutFailures (reader : Reader) (capacity : Capacity)
    (requests : List Request) :
    let source := ((ofReader reader capacity).course requests).after
    let patient := (ofReader reader capacity).insistOn requests
    let calm := (ofReader reader.withoutFailures capacity).course requests
    (∀ request failure, (source.serve request).result = .error failure →
        (source.serve request).after.offset = source.offset ∧
          (source.serve request).after.isDrained = source.isDrained ∧
          (source.serve request).after.unread =
            source.unread ++ handedOut (source.serve request).reads.toList) ∧
      (∀ request,
        (calm.after.serve request).result = .ok (patient.after.insist request).shown) ∧
      calm.after = { patient.after with reader := patient.after.reader.withoutFailures } ∧
      calm.reads = patient.reads.filter ReadRecord.succeeded := by
  intro source patient calm
  obtain ⟨reads, after⟩ := insistOn_course (ofReader reader capacity) requests
  refine ⟨?_, ?_, after, reads⟩
  · intro request failure failed
    obtain ⟨offset, drained, unread, -⟩ := serve_of_error failed
    exact ⟨offset, drained, unread⟩
  · intro request
    rw [show calm.after = patient.after.withoutFailures from after]
    exact (insist_withoutFailures patient.after request).1

/-- Two reads fail while one byte is unread at the end of the buffer. -/
example :
    let reader : Reader := .ofDeliveries [.bytes [0x61, 0x62], .failure ⟨"BrokenPipe", "gone"⟩,
      .interruption, .failure ⟨"BrokenPipe", "gone"⟩, .bytes [0x63]]
    let source := ((ofReader reader ⟨2, by decide⟩).insistOn [.window, .advance 1]).after
    (source.insist .lookahead).shown = [0x62, 0x63] ∧
      (source.insist .lookahead).reads.map ReadRecord.room = [1, 1, 1, 1] ∧
      (source.insist .lookahead).after.buffer.start = 0 := by decide +kernel

end Source

end TemplateLexer
