import TemplateLexer.Buffer

namespace TemplateLexer

/-- A read was made when the next byte to be released had this offset; it offered so many bytes of
room, and got this delivery. -/
structure ReadRecord where
  offset : Nat
  room : Nat
  delivery : Delivery
  deriving DecidableEq, Repr

/-- The offset is the place in the template of the first unread byte. A source is exhausted once
its reader has reported the end. -/
structure Source where
  reader : Reader
  buffer : Buffer
  offset : Nat
  exhausted : Bool

/-- A look at a source shows something unless a read fails, and may have to read first. -/
structure Look (α : Type) where
  result : Except Failure α
  reads : Array ReadRecord
  after : Source

namespace Source

def ofReader (reader : Reader) (capacity : Capacity) : Source :=
  ⟨reader, .empty capacity, 0, false⟩

def unread (source : Source) : List UInt8 := source.buffer.unread

/-- A source is drained when nothing is unread and nothing will follow. -/
def isDrained (source : Source) : Bool := source.exhausted && source.unread.isEmpty

/-- The first `count` unread bytes are released, or all of them if there are fewer. -/
def advance (source : Source) (count : Nat) : Source :=
  { source with
    buffer := source.buffer.release count
    offset := source.offset + min count source.unread.length }

@[simp] theorem exhausted_advance (source : Source) (count : Nat) :
    (source.advance count).exhausted = source.exhausted := rfl

@[simp] theorem reader_advance (source : Source) (count : Nat) :
    (source.advance count).reader = source.reader := rfl

@[simp] theorem unread_advance (source : Source) (count : Nat) :
    (source.advance count).unread = source.unread.drop count := rfl

theorem offset_advance {source : Source} {count : Nat} (within : count ≤ source.unread.length) :
    (source.advance count).offset = source.offset + count := by
  simp only [advance, Nat.min_eq_left within]

/-- One read into the free room of the buffer. -/
def refill (source : Source) : ReadRecord × Source :=
  let buffer := source.buffer.makeRoom
  let read := source.reader.read buffer.room
  let after := { source with reader := read.2, buffer }
  (⟨source.offset, buffer.room, read.1⟩,
    match handed : read.1 with
    | .bytes [] => { after with exhausted := true }
    | .bytes (byte :: data) =>
        { after with buffer := buffer.receive (byte :: data) (Reader.length_read_le handed) }
    | _ => after)

/-- The most bytes, interruptions and failures that can still come from the reader. -/
def toCome (source : Source) : Nat :=
  match source.exhausted with
  | true => 0
  | false => readsToEnd source.reader.deliveries

/-- The most reads that the source can still make. -/
def readsLeft (source : Source) : Nat :=
  match source.exhausted with
  | true => 0
  | false => readsToEnd source.reader.deliveries + 1

/-- The unread bytes and all that can still come. -/
def ahead (source : Source) : Nat := source.unread.length + source.toCome

theorem ahead_advance {source : Source} {count : Nat} (within : count ≤ source.unread.length) :
    (source.advance count).ahead + count = source.ahead := by
  change (source.unread.drop count).length + source.toCome + count = _
  rw [List.length_drop, ahead]
  omega

/-- A read adds what it delivers behind the unread bytes. -/
theorem unread_refill (source : Source) :
    source.refill.2.unread = source.unread ++ source.refill.1.delivery.data := by
  simp only [refill, unread]
  split
  · next handed => simp [handed, Delivery.data]
  · next handed => simp [handed, Delivery.data, Buffer.receive]
  · next silent other =>
      cases handed : (source.reader.read source.buffer.makeRoom.room).1 with
      | bytes data =>
          cases data with
          | nil => exact absurd handed silent
          | cons byte data => exact absurd handed (other byte data)
      | interruption => simp [Delivery.data]
      | failure failure => simp [Delivery.data]

@[simp] theorem offset_refill (source : Source) : source.refill.2.offset = source.offset := by
  simp only [refill]
  split <;> rfl

theorem reader_refill (source : Source) :
    source.refill.2.reader = (source.reader.read source.buffer.makeRoom.room).2 := by
  simp only [refill]
  split <;> rfl

theorem exhausted_refill_iff (source : Source) :
    source.refill.2.exhausted = true ↔
      source.exhausted = true ∨ source.refill.1.delivery = .bytes [] := by
  simp only [refill]
  split
  · next handed => simp [handed]
  · next handed => simp [handed]
  · next silent _ => exact ⟨.inl, fun either => either.resolve_right silent⟩

theorem readsLeft_refill {source : Source} (unfinished : source.exhausted = false) :
    source.refill.2.readsLeft < source.readsLeft := by
  simp only [readsLeft, unfinished]
  split
  · exact Nat.succ_pos _
  · next continuing =>
      have more : source.refill.1.delivery ≠ .bytes [] := fun ended => by
        simp [(exhausted_refill_iff source).mpr (.inr ended)] at continuing
      have counted := Reader.readsToEnd_read more
      have positive := Delivery.weight_pos more
      rw [reader_refill]
      simp only [refill] at positive
      omega

/-- A read that does not report the end moves its bytes from the reader to the buffer. -/
theorem ahead_refill_of_more {source : Source} (unfinished : source.exhausted = false)
    (more : source.refill.1.delivery ≠ .bytes []) :
    source.refill.2.ahead + source.refill.1.delivery.weight =
      source.ahead + source.refill.1.delivery.data.length := by
  have continuing : source.refill.2.exhausted = false := by
    rw [Bool.eq_false_iff, Ne, exhausted_refill_iff]
    simp [unfinished, more]
  have counted : readsToEnd source.refill.2.reader.deliveries +
      source.refill.1.delivery.weight = readsToEnd source.reader.deliveries := by
    rw [reader_refill]
    exact Reader.readsToEnd_read more
  simp only [ahead, toCome, unfinished, continuing, unread_refill, List.length_append]
  omega

theorem ahead_refill_le {source : Source} (unfinished : source.exhausted = false) :
    source.refill.2.ahead ≤ source.ahead := by
  by_cases more : source.refill.1.delivery = .bytes []
  · have ended := (exhausted_refill_iff source).mpr (.inr more)
    simp only [ahead, toCome, ended, unread_refill, more, Delivery.data, List.append_nil]
    omega
  · have counted := ahead_refill_of_more unfinished more
    have light := source.refill.1.delivery.length_data_le
    omega

theorem ahead_refill_of_failure {source : Source} (unfinished : source.exhausted = false)
    {failure : Failure} (failed : source.refill.1.delivery = .failure failure) :
    source.refill.2.ahead + 1 = source.ahead := by
  have counted := ahead_refill_of_more unfinished (by simp [failed])
  simpa [failed, Delivery.weight, Delivery.data] using counted

/-- The source reads until `count` bytes are unread, its reader ends, or a read fails. Interrupted
reads are made again. -/
def ensureFrom (count : Nat) (source : Source) (reads : Array ReadRecord) : Look Unit :=
  if _short : source.exhausted = false ∧ source.unread.length < count then
    let read := source.refill
    match read.1.delivery with
    | .failure failure => ⟨.error failure, reads.push read.1, read.2⟩
    | _ => ensureFrom count read.2 (reads.push read.1)
  else ⟨.ok (), reads, source⟩
  termination_by source.readsLeft
  decreasing_by exact readsLeft_refill _short.1

def ensure (source : Source) (count : Nat) : Look Unit := ensureFrom count source #[]

/-- The unread bytes, of which there are none only at the end. -/
def window (source : Source) : Look (List UInt8) :=
  let look := source.ensure 1
  { look with result := look.result.map fun _ => look.after.unread }

/-- The next two bytes, as far as there are that many. -/
def lookahead (source : Source) : Look (Option UInt8 × Option UInt8) :=
  let look := source.ensure delimiterLength
  { look with result := look.result.map fun _ => (look.after.unread[0]?, look.after.unread[1]?) }

end Source

end TemplateLexer
