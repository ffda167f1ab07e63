import TemplateLexer.Proofs.Queue

namespace TemplateLexer

/-- The data takes the place of as many cells from a position on. -/
def overwrite (cells : List UInt8) (position : Nat) (data : List UInt8) : List UInt8 :=
  cells.take position ++ data ++ cells.drop (position + data.length)

attribute [ext] Buffer

namespace Buffer

/-- As many cells as the capacity says hold a buffer: its unread bytes stand between its start and
its stop, and every other cell is free. -/
structure HeldBy (buffer : Buffer) (cells : List UInt8) : Prop where
  size : cells.length = buffer.capacity.size
  unread : cells.extract buffer.start buffer.stop = buffer.unread

/-- Unread bytes that reach the end of the cells are copied to their front. -/
def copyToFront (buffer : Buffer) (cells : List UInt8) : List UInt8 :=
  if buffer.stop = buffer.capacity.size then
    overwrite cells 0 (cells.extract buffer.start buffer.stop)
  else cells

/-- The unread bytes start the buffer anew if there are none or if they reach its end. -/
theorem start_makeRoom (buffer : Buffer) :
    buffer.makeRoom.start =
      if buffer.unread = [] ∨ buffer.stop = buffer.capacity.size then 0 else buffer.start := by
  have inside := buffer.stop_le_size
  have full : buffer.room = 0 ↔ buffer.stop = buffer.capacity.size := by
    simp only [room]
    omega
  simp only [makeRoom, Bool.or_eq_true, List.isEmpty_iff, beq_iff_eq, full]
  split <;> rfl

theorem stop_makeRoom (buffer : Buffer) :
    buffer.makeRoom.stop = buffer.makeRoom.start + buffer.unread.length := by
  rw [stop, unread_makeRoom]

/-- All cells are free if nothing is unread, all but the unread ones if these reach the end, and
otherwise those behind the unread ones. -/
theorem room_makeRoom (buffer : Buffer) :
    buffer.makeRoom.room =
      if buffer.unread = [] then buffer.capacity.size
      else if buffer.stop = buffer.capacity.size then
        buffer.capacity.size - buffer.unread.length
      else buffer.capacity.size - buffer.stop := by
  rw [room, capacity_makeRoom, stop_makeRoom, start_makeRoom]
  by_cases empty : buffer.unread = []
  · simp [empty]
  · by_cases full : buffer.stop = buffer.capacity.size
    · simp [empty, full]
    · rw [if_neg (not_or.mpr ⟨empty, full⟩), if_neg empty, if_neg full]
      rfl

namespace HeldBy

variable {buffer : Buffer} {cells : List UInt8}

theorem empty (capacity : Capacity) : (Buffer.empty capacity).HeldBy (.replicate capacity.size 0) :=
  ⟨List.length_replicate, extract_self _ _⟩

/-- Released bytes stay in their cells. -/
theorem release (held : buffer.HeldBy cells) (count : Nat) :
    (buffer.release count).HeldBy cells := by
  have bound : buffer.start + min count buffer.unread.length +
      (buffer.unread.drop count).length = buffer.stop := by
    rw [List.length_drop, stop]
    omega
  refine ⟨held.size, ?_⟩
  change cells.extract (buffer.start + min count buffer.unread.length)
    (buffer.start + min count buffer.unread.length + (buffer.unread.drop count).length) = _
  rw [bound, ← drop_extract, held.unread]
  rcases Nat.le_total count buffer.unread.length with within | beyond
  · rw [Nat.min_eq_left within]
    rfl
  · rw [Nat.min_eq_right beyond, List.drop_length]
    exact (List.drop_eq_nil_of_le beyond).symm

/-- Room is made without a change of the unread bytes. -/
theorem makeRoom (held : buffer.HeldBy cells) :
    buffer.makeRoom.HeldBy (buffer.copyToFront cells) := by
  obtain ⟨size, unread⟩ := held
  have inside := buffer.stop_le_size
  have length : buffer.unread.length ≤ buffer.stop := Nat.le_add_left _ _
  by_cases full : buffer.stop = buffer.capacity.size
  · rw [copyToFront, if_pos full, unread, overwrite, List.take_zero, List.nil_append, Nat.zero_add]
    constructor
    · rw [capacity_makeRoom, List.length_append, List.length_drop]
      omega
    · rw [stop_makeRoom, start_makeRoom, if_pos (.inr full), unread_makeRoom,
        ← take_drop_eq_extract, List.drop_zero, List.take_left]
  · rw [copyToFront, if_neg full]
    refine ⟨by rw [capacity_makeRoom, size], ?_⟩
    rw [stop_makeRoom, start_makeRoom, unread_makeRoom]
    by_cases empty : buffer.unread = []
    · rw [empty, List.length_nil, Nat.add_zero, extract_self]
    · rw [if_neg (not_or.mpr ⟨empty, full⟩)]
      exact unread

/-- What is received goes into the free cells behind the unread bytes. -/
theorem receive (held : buffer.HeldBy cells) {data : List UInt8}
    (inside : data.length ≤ buffer.room) :
    (buffer.receive data inside).HeldBy (overwrite cells buffer.stop data) := by
  obtain ⟨size, unread⟩ := held
  have fits := buffer.stop_le_size
  rw [room] at inside
  have front : (cells.take buffer.stop).length = buffer.stop := List.length_take_of_le (by omega)
  constructor
  · change _ = buffer.capacity.size
    simp only [overwrite, List.length_append, front, List.length_drop]
    omega
  · change (overwrite cells buffer.stop data).extract buffer.start
      (buffer.start + (buffer.unread ++ data).length) = buffer.unread ++ data
    have stop : buffer.start + (buffer.unread ++ data).length = buffer.stop + data.length := by
      rw [List.length_append, ← Nat.add_assoc]
      rfl
    have written : (overwrite cells buffer.stop data).take (buffer.stop + data.length) =
        cells.take buffer.stop ++ data := by
      rw [overwrite, List.take_left' (by rw [List.length_append, front])]
    have start : buffer.start ≤ (cells.take buffer.stop).length := by
      rw [front]
      exact Nat.le_add_right _ _
    rw [stop, List.extract_eq_take_drop, ← List.drop_take, written,
      List.drop_append_of_le_length start, List.drop_take, ← List.extract_eq_take_drop, unread]

end HeldBy

end Buffer

/-- The number of bytes that the request needs to have unread. -/
def Request.need : Request → Nat
  | window => 1
  | lookahead => delimiterLength
  | advance _ => 0

theorem Request.need_le (request : Request) : request.need ≤ minimumCapacity := by
  cases request with
  | window => decide
  | lookahead => decide
  | advance count => exact Nat.zero_le _

namespace Source

theorem room_refill (source : Source) : source.refill.1.room = source.buffer.makeRoom.room := rfl

/-- A read asks the reader for as many bytes as there is room for. -/
theorem read_refill (source : Source) :
    source.reader.read source.refill.1.room =
      (source.refill.1.delivery, source.refill.2.reader) := by
  rw [reader_refill, room_refill]
  rfl

theorem length_data_refill_le (source : Source) :
    source.refill.1.delivery.data.length ≤ source.refill.1.room := by
  cases handed : source.refill.1.delivery with
  | bytes data => exact Reader.length_read_le handed
  | interruption => exact Nat.zero_le _
  | failure failure => exact Nat.zero_le _

theorem start_refill (source : Source) :
    source.refill.2.buffer.start = source.buffer.makeRoom.start := by
  simp only [refill]
  split <;> rfl

/-- A read makes room and receives what is delivered. -/
theorem buffer_refill (source : Source) :
    source.refill.2.buffer =
      source.buffer.makeRoom.receive source.refill.1.delivery.data
        source.length_data_refill_le := by
  apply Buffer.ext
  · rw [capacity_refill]
    exact source.buffer.capacity_makeRoom.symm
  · exact source.start_refill
  · exact source.unread_refill.trans (congrArg (· ++ _) source.buffer.unread_makeRoom.symm)

/-- The cells behind a read: room is made, and what is delivered goes behind the unread bytes. -/
def refillCells (source : Source) (cells : List UInt8) : List UInt8 :=
  overwrite (source.buffer.copyToFront cells) source.buffer.makeRoom.stop
    source.refill.1.delivery.data

/-- The cells of a buffer hold it again behind a read. -/
theorem heldBy_refill {source : Source} {cells : List UInt8} (held : source.buffer.HeldBy cells) :
    source.refill.2.buffer.HeldBy (source.refillCells cells) := by
  rw [buffer_refill]
  exact held.makeRoom.receive _

/-- A read is made because too few bytes are unread and the reader has not ended. It asks for the
whole room, of at least one byte, that the unread bytes leave behind them; room is made for it in
the cells without a change of the unread bytes, and what is delivered comes behind them. The end is
reported only when the whole template was handed out. -/
structure Reading (reader : Reader) (capacity : Capacity) (need : Nat) (earlier : List ReadRecord)
    (source : Source) (cells : List UInt8) (record : ReadRecord) : Prop where
  short : source.unread.length < need
  going : ¬ HasEnded earlier
  bounds : source.buffer.start ≤ source.buffer.stop ∧ source.buffer.stop ≤ capacity.size
  room : record.room =
    if source.unread = [] then capacity.size
    else if source.buffer.stop = capacity.size then capacity.size - source.unread.length
    else capacity.size - source.buffer.stop
  positive : 1 ≤ record.room
  asked : source.reader.read record.room = (record.delivery, source.refill.2.reader)
  held : source.buffer.HeldBy cells
  roomMade : source.buffer.makeRoom.unread = source.unread ∧
    source.buffer.makeRoom.HeldBy (source.buffer.copyToFront cells)
  received : source.refill.2.unread = source.unread ++ record.delivery.data ∧
    source.refill.2.buffer.HeldBy (source.refillCells cells)
  ended : record.delivery = .bytes [] → handedOut earlier = reader.template

/-- A read for too few unread bytes is offered the room behind them. -/
theorem reading_refill {reader : Reader} {capacity : Capacity} {need : Nat}
    {earlier : List ReadRecord} {source : Source} {cells : List UInt8}
    (faithful : Faithful reader capacity earlier source) (held : source.buffer.HeldBy cells)
    (enough : need ≤ capacity.size) (unfinished : source.exhausted = false)
    (short : source.unread.length < need) :
    Reading reader capacity need earlier source cells source.refill.1 := by
  obtain ⟨rfl, inside, rest, ended, handed, left⟩ := faithful
  have small : source.unread.length < source.buffer.capacity.size :=
    Nat.lt_of_lt_of_le short enough
  have going : ¬ HasEnded earlier := by
    rw [← ended, unfinished]
    exact Bool.false_ne_true
  refine ⟨short, going, ⟨Nat.le_add_right _ _, source.buffer.stop_le_size⟩,
    source.buffer.room_makeRoom, Buffer.room_makeRoom_pos small, source.read_refill, held,
    ⟨source.buffer.unread_makeRoom, held.makeRoom⟩, ⟨source.unread_refill, heldBy_refill held⟩, ?_⟩
  intro last
  have nothing : source.reader.template = [] := by
    rw [Reader.template, live_eq_nil_of_refill small last, List.flatMap_nil]
  rw [upcoming, nothing, ite_self, List.append_nil] at rest
  rw [handed, ← rest, List.take_append_drop]

/-- The source behind so many reads. -/
def behindReads (source : Source) : Nat → Source
  | 0 => source
  | count + 1 => (source.behindReads count).refill.2

/-- The cells behind so many reads. -/
def cellsBehindReads (source : Source) (cells : List UInt8) : Nat → List UInt8
  | 0 => cells
  | count + 1 => (source.behindReads count).refillCells (source.cellsBehindReads cells count)

/-- The cells behind some requests. -/
def courseCells (source : Source) (cells : List UInt8) : List Request → List UInt8
  | [] => cells
  | request :: requests =>
      let look := source.serve request
      look.after.courseCells (source.cellsBehindReads cells look.reads.size) requests

/-- Reading ahead makes one read behind the other, and each of them is called for. -/
structure ReadsInRoom (reader : Reader) (capacity : Capacity) (need : Nat)
    (earlier : List ReadRecord) (source : Source) (cells : List UInt8)
    (reads : Array ReadRecord) (after : Source) : Prop where
  faithful : Faithful reader capacity (earlier ++ reads.toList) after
  after_eq : after = source.behindReads reads.size
  held : after.buffer.HeldBy (source.cellsBehindReads cells reads.size)
  each : ∀ before record behind, reads.toList = before ++ record :: behind →
    Reading reader capacity need (earlier ++ before) (source.behindReads before.length)
      (source.cellsBehindReads cells before.length) record

/-- Reading ahead makes only reads that are called for. -/
theorem readsInRoom_ensure {reader : Reader} {capacity : Capacity} {count : Nat}
    {earlier : List ReadRecord} {source : Source} {cells : List UInt8}
    (faithful : Faithful reader capacity earlier source) (held : source.buffer.HeldBy cells)
    (enough : count ≤ capacity.size) :
    ReadsInRoom reader capacity count earlier source cells (source.ensure count).reads
      (source.ensure count).after := by
  apply ensureFrom_induction
    (motive := ReadsInRoom reader capacity count earlier source cells)
  · rintro reads after unfinished short ⟨faithful, place, held, each⟩
    have size : reads.toList.length = reads.size := Array.length_toList
    constructor
    · rw [Array.toList_push, ← List.append_assoc]
      exact faithful.refill unfinished (Nat.lt_of_lt_of_le short enough)
    · rw [Array.size_push, place]
      rfl
    · rw [Array.size_push, cellsBehindReads, ← place]
      exact heldBy_refill held
    · rw [Array.toList_push]
      apply forall_split_concat each
      rw [size, ← place]
      exact reading_refill faithful held enough unfinished short
  · refine ⟨?_, rfl, held, forall_split_nil⟩
    rw [Array.toList_empty, List.append_nil]
    exact faithful

/-- A window and a lookahead read what they need; an advance reads nothing. -/
theorem readsInRoom_serve {reader : Reader} {capacity : Capacity} {earlier : List ReadRecord}
    {source : Source} {cells : List UInt8} (faithful : Faithful reader capacity earlier source)
    (held : source.buffer.HeldBy cells) (request : Request) :
    let look := source.serve request
    look.after.buffer.HeldBy (source.cellsBehindReads cells look.reads.size) ∧
      (request.need ≠ 0 → look.after = source.behindReads look.reads.size) ∧
      ∀ before record behind, look.reads.toList = before ++ record :: behind →
        Reading reader capacity request.need (earlier ++ before)
          (source.behindReads before.length) (source.cellsBehindReads cells before.length)
          record := by
  have enough := Nat.le_trans request.need_le capacity.enough
  cases request with
  | window =>
      obtain ⟨-, after, held, each⟩ := readsInRoom_ensure faithful held enough
      exact ⟨held, fun _ => after, each⟩
  | lookahead =>
      obtain ⟨-, after, held, each⟩ := readsInRoom_ensure faithful held enough
      exact ⟨held, fun _ => after, each⟩
  | advance count =>
      exact ⟨held.release count, fun needed => absurd rfl needed, forall_split_nil⟩

theorem heldBy_courseCells {reader : Reader} {capacity : Capacity} {earlier : List ReadRecord}
    {source : Source} {cells : List UInt8} {requests : List Request}
    (faithful : Faithful reader capacity earlier source) (held : source.buffer.HeldBy cells)
    (permitted : source.Permits requests) :
    (source.course requests).after.buffer.HeldBy (source.courseCells cells requests) := by
  induction requests generalizing source cells earlier with
  | nil => exact held
  | cons request requests ih =>
      obtain ⟨within, later⟩ := permitted
      exact ih (faithful.serve within) (readsInRoom_serve faithful held request).1 later

/-- Whatever was requested of a source, the unread bytes stand in the cells of its buffer between
its start and its stop. The next request reads nothing if what it needs is unread or if the end was
reported, and otherwise it makes one read behind the other, each of them a `Reading`. -/
theorem course_readsInRoom (reader : Reader) (capacity : Capacity) (requests : List Request)
    (permitted : (ofReader reader capacity).Permits requests) (request : Request) :
    let source := ((ofReader reader capacity).course requests).after
    let cells := (ofReader reader capacity).courseCells (.replicate capacity.size 0) requests
    let earlier := ((ofReader reader capacity).course requests).reads
    let look := source.serve request
    (source.buffer.start ≤ source.buffer.stop ∧ source.buffer.stop ≤ capacity.size ∧
        source.buffer.HeldBy cells) ∧
      (request.need ≤ source.unread.length ∨ HasEnded earlier → look.reads = #[]) ∧
      (request.need ≠ 0 → look.after = source.behindReads look.reads.size) ∧
      ∀ before record behind, look.reads.toList = before ++ record :: behind →
        Reading reader capacity request.need (earlier ++ before)
          (source.behindReads before.length) (source.cellsBehindReads cells before.length)
          record := by
  intro source cells earlier look
  have start := faithful_ofReader reader capacity
  have faithful : Faithful reader capacity earlier source := (start.course permitted).1
  have held : source.buffer.HeldBy cells :=
    heldBy_courseCells start (Buffer.HeldBy.empty capacity) permitted
  have bound : source.buffer.stop ≤ capacity.size := by
    rw [← faithful.capacity]
    exact source.buffer.stop_le_size
  obtain ⟨-, after, each⟩ := readsInRoom_serve faithful held request
  refine ⟨⟨Nat.le_add_right _ _, bound, held⟩, ?_, after, each⟩
  intro idle
  match split : look.reads.toList with
  | [] => exact Array.toList_eq_nil_iff.mp split
  | record :: behind =>
      obtain ⟨short, going, -⟩ := each [] record behind split
      rw [List.append_nil] at going
      exact absurd idle (not_or.mpr ⟨Nat.not_le_of_lt short, going⟩)

/-- One byte is unread at the end of two cells. It is copied to the front for a lookahead, and stays
there when the read is interrupted. -/
theorem course_readsInRoom_full_buffer :
    let reader : Reader := .ofDeliveries [.bytes [0x61, 0x62], .interruption, .bytes [0x63, 0x64]]
    let capacity : Capacity := ⟨2, by decide⟩
    let start := ofReader reader capacity
    let source := (start.course [.window, .advance 1]).after
    let reads := (start.course [.window, .advance 1]).reads
    start.Permits [.window, .advance 1] ∧
      source.buffer.HeldBy [0x61, 0x62] ∧
      Reading reader capacity delimiterLength reads source [0x61, 0x62] ⟨1, 1, .interruption⟩ ∧
      Reading reader capacity delimiterLength (reads ++ [⟨1, 1, .interruption⟩])
        (source.behindReads 1) [0x62, 0x62] ⟨1, 1, .bytes [0x63]⟩ := by
  intro reader capacity start source reads
  have permitted : start.Permits [.window, .advance 1] := by decide +kernel
  obtain ⟨⟨-, -, held⟩, -, -, each⟩ :=
    course_readsInRoom reader capacity [.window, .advance 1] permitted .lookahead
  have made : (source.serve .lookahead).reads.toList =
      [⟨1, 1, .interruption⟩, ⟨1, 1, .bytes [0x63]⟩] := by decide +kernel
  have first : start.courseCells [0, 0] [.window, .advance 1] = [0x61, 0x62] := by decide +kernel
  have second : source.cellsBehindReads [0x61, 0x62] 1 = [0x62, 0x62] := by decide +kernel
  rw [show List.replicate capacity.size (0 : UInt8) = [0, 0] from rfl, first] at held each
  have readings := each [] _ _ made
  have later := each [⟨1, 1, .interruption⟩] _ _ made
  rw [List.append_nil] at readings
  exact ⟨permitted, held, readings, second ▸ later⟩

end Source

end TemplateLexer
