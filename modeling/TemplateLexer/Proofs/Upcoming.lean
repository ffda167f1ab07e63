import TemplateLexer.Source

namespace TemplateLexer

/-- The failure that a delivery reports. An interruption is no failure: the read is made again. -/
def Delivery.failure? : Delivery → Option Failure
  | .failure reported => some reported
  | _ => none

theorem Delivery.failure?_eq_none {delivery : Delivery}
    (other : ∀ failure, delivery ≠ .failure failure) : delivery.failure? = none := by
  cases delivery with
  | bytes data => rfl
  | interruption => rfl
  | failure failure => exact absurd rfl (other failure)

namespace Reader

/-- The deliveries before the first report of the end. -/
def live (reader : Reader) : List Delivery :=
  reader.deliveries.takeWhile fun delivery => delivery != .bytes []

/-- The bytes that the reader delivers before it first reports the end. -/
def template (reader : Reader) : List UInt8 := reader.live.flatMap Delivery.data

/-- The failures that the reader reports before it first reports the end. -/
def failures (reader : Reader) : List Failure := reader.live.filterMap Delivery.failure?

theorem template_ofBytes (bytes : List UInt8) :
    (ofDeliveries [.bytes bytes]).template = bytes := by
  rw [template, live, ofDeliveries]
  cases bytes <;> simp [Delivery.data]

theorem failures_ofBytes (bytes : List UInt8) :
    (ofDeliveries [.bytes bytes]).failures = [] := by
  rw [failures, live, ofDeliveries]
  cases bytes <;> rfl

theorem template_ofString (text : String) : (ofString text).template = Utf8.encode text :=
  template_ofBytes (Utf8.encode text)

theorem failures_ofString (text : String) : (ofString text).failures = [] :=
  failures_ofBytes (Utf8.encode text)

/-- A read into some room reports the end only if nothing is delivered before the end. -/
theorem live_eq_nil_of_end {reader : Reader} {want : Nat} (asked : 0 < want)
    (ended : (reader.read want).1 = .bytes []) : reader.live = [] := by
  have positive := reader.share_pos asked
  rw [live]
  match deliveries : reader.deliveries with
  | [] => rfl
  | .bytes [] :: rest => rfl
  | .bytes (byte :: data) :: rest =>
      simp only [read, deliveries, Delivery.bytes.injEq, List.take_eq_nil_iff, reduceCtorEq,
        or_false] at ended
      omega
  | .interruption :: rest => simp [read, deliveries] at ended
  | .failure failure :: rest => simp [read, deliveries] at ended

/-- A read that does not report the end takes its bytes off the template. -/
theorem template_read {reader : Reader} {want : Nat}
    (more : (reader.read want).1 ≠ .bytes []) :
    (reader.read want).1.data ++ (reader.read want).2.template = reader.template := by
  match deliveries : reader.deliveries with
  | [] => simp [read, deliveries] at more
  | .bytes [] :: rest => simp [read, deliveries] at more
  | .interruption :: rest => simp [read, template, live, deliveries, Delivery.data]
  | .failure failure :: rest => simp [read, template, live, deliveries, Delivery.data]
  | .bytes (byte :: data) :: rest =>
      have whole := List.take_append_drop (reader.share want) (byte :: data)
      simp only [read, template, live, deliveries, Delivery.data]
      cases left : (byte :: data).drop (reader.share want) with
      | nil =>
          rw [left, List.append_nil] at whole
          simp [whole, Delivery.data]
      | cons first others =>
          rw [left] at whole
          have extended := congrArg (fun front => front ++
            (rest.takeWhile fun delivery => delivery != .bytes []).flatMap Delivery.data) whole
          simpa [Delivery.data] using extended

/-- A read that does not report the end takes its failure off the failures to come. -/
theorem failures_read {reader : Reader} {want : Nat}
    (more : (reader.read want).1 ≠ .bytes []) :
    (reader.read want).1.failure?.toList ++ (reader.read want).2.failures = reader.failures := by
  match deliveries : reader.deliveries with
  | [] => simp [read, deliveries] at more
  | .bytes [] :: rest => simp [read, deliveries] at more
  | .interruption :: rest =>
      simp [read, failures, live, deliveries, Delivery.failure?, List.filterMap_cons]
  | .failure failure :: rest => simp [read, failures, live, deliveries, Delivery.failure?]
  | .bytes (byte :: data) :: rest =>
      simp only [read, failures, live, deliveries, Delivery.failure?]
      cases left : (byte :: data).drop (reader.share want) with
      | nil => simp [Delivery.failure?, List.filterMap_cons]
      | cons first others => simp [Delivery.failure?, List.filterMap_cons]

end Reader

namespace Source

/-- The bytes that were not released yet: the unread ones, and those that the reader still
delivers. -/
def upcoming (source : Source) : List UInt8 :=
  source.unread ++ if source.exhausted then [] else source.reader.template

/-- The failures that the reader can still report. -/
def failuresAhead (source : Source) : List Failure :=
  if source.exhausted then [] else source.reader.failures

@[simp] theorem upcoming_ofReader (reader : Reader) (capacity : Capacity) :
    (ofReader reader capacity).upcoming = reader.template := rfl

@[simp] theorem failuresAhead_ofReader (reader : Reader) (capacity : Capacity) :
    (ofReader reader capacity).failuresAhead = reader.failures := rfl

@[simp] theorem failuresAhead_advance (source : Source) (count : Nat) :
    (source.advance count).failuresAhead = source.failuresAhead := rfl

theorem upcoming_of_exhausted {source : Source} (ended : source.exhausted = true) :
    source.upcoming = source.unread := by
  rw [upcoming, if_pos ended, List.append_nil]

theorem exists_upcoming_eq (source : Source) : ∃ more, source.upcoming = source.unread ++ more :=
  ⟨_, rfl⟩

/-- Released bytes are no longer to come. -/
theorem upcoming_advance {source : Source} {count : Nat} (within : count ≤ source.unread.length) :
    (source.advance count).upcoming = source.upcoming.drop count := by
  rw [upcoming, upcoming, List.drop_append_of_le_length within]
  rfl

theorem exhausted_refill_of_more {source : Source} (unfinished : source.exhausted = false)
    (more : source.refill.1.delivery ≠ .bytes []) : source.refill.2.exhausted = false := by
  rw [Bool.eq_false_iff, Ne, exhausted_refill_iff]
  simp [unfinished, more]

theorem live_eq_nil_of_refill {source : Source}
    (short : source.unread.length < source.buffer.capacity.size)
    (ended : source.refill.1.delivery = .bytes []) : source.reader.live = [] :=
  Reader.live_eq_nil_of_end (Buffer.room_makeRoom_pos short) ended

/-- A read changes nothing of what is to come, as long as the buffer is not full. -/
theorem upcoming_refill {source : Source} (unfinished : source.exhausted = false)
    (short : source.unread.length < source.buffer.capacity.size) :
    source.refill.2.upcoming = source.upcoming := by
  by_cases ended : source.refill.1.delivery = .bytes []
  · have stopped := (exhausted_refill_iff source).mpr (.inr ended)
    have empty := live_eq_nil_of_refill short ended
    rw [upcoming, upcoming, unread_refill, stopped, ended, unfinished]
    simp [Delivery.data, Reader.template, empty]
  · have continuing := exhausted_refill_of_more unfinished ended
    have moved : source.refill.1.delivery.data ++ source.refill.2.reader.template =
        source.reader.template := by
      rw [reader_refill]
      exact Reader.template_read ended
    rw [upcoming, upcoming, unread_refill, continuing, unfinished]
    simp [moved]

/-- A read takes the failure that it meets off the failures to come. -/
theorem failuresAhead_refill {source : Source} (unfinished : source.exhausted = false)
    (short : source.unread.length < source.buffer.capacity.size) :
    source.refill.1.delivery.failure?.toList ++ source.refill.2.failuresAhead =
      source.failuresAhead := by
  by_cases ended : source.refill.1.delivery = .bytes []
  · have stopped := (exhausted_refill_iff source).mpr (.inr ended)
    have empty := live_eq_nil_of_refill short ended
    rw [failuresAhead, failuresAhead, stopped, ended, unfinished]
    simp [Delivery.failure?, Reader.failures, empty]
  · have continuing := exhausted_refill_of_more unfinished ended
    rw [failuresAhead, failuresAhead, continuing, unfinished, reader_refill]
    exact Reader.failures_read ended

end Source

end TemplateLexer
