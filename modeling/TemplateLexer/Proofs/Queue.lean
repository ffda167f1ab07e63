import Mathlib.Data.List.Infix
import TemplateLexer.Proofs.OnePass
import TemplateLexer.Proofs.Upcoming

namespace TemplateLexer

/-- All bytes that the reader still delivers, also those behind a report of the end. -/
def Reader.data (reader : Reader) : List UInt8 := reader.deliveries.flatMap Delivery.data

/-- A read takes what it delivers off the bytes of the reader. -/
theorem Reader.data_read (reader : Reader) (want : Nat) :
    (reader.read want).1.data ++ (reader.read want).2.data = reader.data := by
  match deliveries : reader.deliveries with
  | [] => simp [read, data, deliveries, Delivery.data]
  | .interruption :: rest => simp [read, data, deliveries, Delivery.data]
  | .failure failure :: rest => simp [read, data, deliveries, Delivery.data]
  | .bytes bytes :: rest =>
      have whole := List.take_append_drop (reader.share want) bytes
      simp only [read, data, deliveries, Delivery.data, List.flatMap_cons]
      split
      · next empty =>
          rw [List.isEmpty_iff.mp empty, List.append_nil] at whole
          rw [whole]
      · rw [List.flatMap_cons, Delivery.data, ← List.append_assoc, whole]

/-- The bytes that were delivered by the reads. -/
def handedOut (reads : List ReadRecord) : List UInt8 :=
  reads.flatMap fun record => record.delivery.data

/-- One of the reads was a report of the end. -/
def HasEnded (reads : List ReadRecord) : Prop := ∃ record ∈ reads, record.delivery = .bytes []

theorem handedOut_append (first second : List ReadRecord) :
    handedOut (first ++ second) = handedOut first ++ handedOut second := List.flatMap_append

theorem handedOut_append_singleton (reads : List ReadRecord) (record : ReadRecord) :
    handedOut (reads ++ [record]) = handedOut reads ++ record.delivery.data := by
  rw [handedOut_append]
  exact congrArg _ (List.append_nil _)

theorem hasEnded_append_singleton {reads : List ReadRecord} {record : ReadRecord} :
    HasEnded (reads ++ [record]) ↔ HasEnded reads ∨ record.delivery = .bytes [] := by
  simp only [HasEnded, List.mem_append, List.mem_singleton, or_and_right, exists_or,
    exists_eq_left]

theorem forall_split_nil {α : Type} {motive : List α → α → Prop} (before : List α) (item : α)
    (behind : List α) (split : [] = before ++ item :: behind) : motive before item :=
  absurd split.symm (List.append_ne_nil_of_right_ne_nil _ (List.cons_ne_nil _ _))

/-- What holds of each item behind those before it holds with one more item behind them all. -/
theorem forall_split_concat {α : Type} {motive : List α → α → Prop} {items : List α} {last : α}
    (all : ∀ before item behind, items = before ++ item :: behind → motive before item)
    (new : motive items last) (before : List α) (item : α) (behind : List α)
    (split : items ++ [last] = before ++ item :: behind) : motive before item := by
  rcases List.eq_nil_or_concat behind with rfl | ⟨others, final, rfl⟩
  · obtain ⟨rfl, same⟩ := List.append_inj' split rfl
    obtain rfl := (List.cons.inj same).1
    exact new
  · rw [List.concat_eq_append, ← List.cons_append, ← List.append_assoc] at split
    exact all before item others (List.append_inj_left' split rfl)

/-- A request looks at what comes next, or releases bytes that were seen. -/
inductive Request where
  | window
  | lookahead
  | advance (count : Nat)
  deriving DecidableEq, Repr

namespace Request

/-- The number of bytes that the request releases. -/
def count : Request → Nat
  | advance count => count
  | _ => 0

/-- What the request shows of the unread bytes. -/
def part : Request → List UInt8 → List UInt8
  | window, unread => unread
  | lookahead, unread => unread.take delimiterLength
  | advance _, _ => []

theorem part_prefix (request : Request) (unread : List UInt8) : request.part unread <+: unread := by
  cases request with
  | window => exact List.prefix_rfl
  | lookahead => exact List.take_prefix _ _
  | advance count => exact List.nil_prefix

theorem part_mono (request : Request) {fewer more : List UInt8} (longer : fewer <+: more) :
    request.part fewer <+: request.part more := by
  cases request with
  | window => exact longer
  | lookahead => exact longer.take _
  | advance count => exact List.prefix_rfl

/-- The number of bytes that all of the requests release. -/
def released : List Request → Nat
  | [] => 0
  | request :: requests => request.count + released requests

end Request

/-- All reads that were made for requests, and the source behind them. -/
structure Course where
  reads : List ReadRecord
  after : Source

namespace Source

/-- What a request shows, as a list of bytes. -/
def serve (source : Source) : Request → Look (List UInt8)
  | .window => source.window
  | .lookahead =>
      let look := source.lookahead
      { look with result := look.result.map fun pair => pair.1.toList ++ pair.2.toList }
  | .advance count => ⟨.ok [], #[], source.advance count⟩

/-- Requests that are made one behind the other, whether or not they fail. -/
def course (source : Source) : List Request → Course
  | [] => ⟨[], source⟩
  | request :: requests =>
      let look := source.serve request
      let rest := look.after.course requests
      ⟨look.reads.toList ++ rest.reads, rest.after⟩

/-- No request releases more bytes than are unread when it is made. -/
def Permits (source : Source) : List Request → Prop
  | [] => True
  | request :: requests =>
      request.count ≤ source.unread.length ∧ (source.serve request).after.Permits requests

instance decidablePermits (source : Source) :
    (requests : List Request) → Decidable (source.Permits requests)
  | [] => inferInstanceAs (Decidable True)
  | request :: requests =>
      let _ := decidablePermits (source.serve request).after requests
      inferInstanceAs (Decidable (_ ∧ _))

/-- What each read preserves, reading ahead preserves. -/
theorem ensureFrom_induction {count : Nat} {motive : Array ReadRecord → Source → Prop}
    (step : ∀ reads source, source.exhausted = false → source.unread.length < count →
      motive reads source → motive (reads.push source.refill.1) source.refill.2)
    (source : Source) (reads : Array ReadRecord) (start : motive reads source) :
    motive (ensureFrom count source reads).reads (ensureFrom count source reads).after := by
  fun_induction ensureFrom count source reads with
  | case1 source reads short read failure failed => exact step reads source short.1 short.2 start
  | case2 source reads short read going ih => exact ih (step reads source short.1 short.2 start)
  | case3 source reads enough => exact start

/-- If no read fails, then as many bytes as were asked for are unread, or nothing will follow. -/
theorem exhausted_or_le_of_ensureFrom {count : Nat} {source : Source} {reads : Array ReadRecord}
    (fine : (ensureFrom count source reads).result = .ok ()) :
    (ensureFrom count source reads).after.exhausted = true ∨
      count ≤ (ensureFrom count source reads).after.unread.length := by
  fun_induction ensureFrom count source reads with
  | case1 source reads short read failure failed => contradiction
  | case2 source reads short read going ih => exact ih fine
  | case3 source reads enough =>
      cases ended : source.exhausted with
      | true => exact .inl rfl
      | false => exact .inr (Nat.le_of_not_lt fun short => enough ⟨ended, short⟩)

theorem exhausted_or_le_of_ensure {source : Source} {count : Nat}
    (fine : (source.ensure count).result = .ok ()) :
    (source.ensure count).after.exhausted = true ∨
      count ≤ (source.ensure count).after.unread.length := exhausted_or_le_of_ensureFrom fine

/-- Reading ahead fails only with the failure that a read has met. -/
theorem exists_failure_of_ensureFrom {count : Nat} {source : Source} {reads : Array ReadRecord}
    {failure : Failure} (failed : (ensureFrom count source reads).result = .error failure) :
    ∃ record ∈ (ensureFrom count source reads).reads, record.delivery = .failure failure := by
  fun_induction ensureFrom count source reads with
  | case1 source reads short read met delivered =>
      cases failed
      exact ⟨_, Array.mem_push_self, delivered⟩
  | case2 source reads short read going ih => exact ih failed
  | case3 source reads enough => contradiction

/-- Reading ahead releases nothing, and puts what it reads behind the unread bytes. -/
theorem offset_ensure (source : Source) (count : Nat) :
    (source.ensure count).after.offset = source.offset := by
  apply ensureFrom_induction (motive := fun _ after => after.offset = source.offset)
  · intro reads after _ _ same
    rw [offset_refill, same]
  · rfl

theorem unread_prefix_ensure (source : Source) (count : Nat) :
    source.unread <+: (source.ensure count).after.unread := by
  apply ensureFrom_induction (motive := fun _ after => source.unread <+: after.unread)
  · intro reads after _ _ longer
    rw [unread_refill]
    exact longer.trans (List.prefix_append _ _)
  · exact List.prefix_rfl

theorem exists_of_map_eq_ok {α β : Type} {result : Except Failure α} {f : α → β} {shown : β}
    (fine : result.map f = .ok shown) : ∃ value, result = .ok value ∧ shown = f value := by
  cases result with
  | error failure => cases fine
  | ok value => exact ⟨value, rfl, (Except.ok.inj fine).symm⟩

theorem of_map_eq_error {α β : Type} {result : Except Failure α} {f : α → β} {failure : Failure}
    (failed : result.map f = .error failure) : result = .error failure := by
  cases result with
  | error failure => exact congrArg _ (Except.error.inj failed)
  | ok value => cases failed

theorem take_delimiterLength (bytes : List UInt8) :
    bytes[0]?.toList ++ bytes[1]?.toList = bytes.take delimiterLength := by
  match bytes with
  | [] => rfl
  | [byte] => rfl
  | first :: second :: rest => rfl

/-- A request that does not fail shows its part of the bytes that are then unread. -/
theorem eq_part_of_serve {source : Source} {request : Request} {shown : List UInt8}
    (fine : (source.serve request).result = .ok shown) :
    shown = request.part (source.serve request).after.unread := by
  cases request with
  | window =>
      obtain ⟨_, -, same⟩ := exists_of_map_eq_ok fine
      exact same
  | lookahead =>
      obtain ⟨pair, looked, rfl⟩ := exists_of_map_eq_ok fine
      obtain ⟨_, -, rfl⟩ := exists_of_map_eq_ok looked
      exact take_delimiterLength _
  | advance count =>
      cases fine
      rfl

/-- A request fails only with the failure that a read has met. -/
theorem exists_failure_of_serve {source : Source} {request : Request} {failure : Failure}
    (failed : (source.serve request).result = .error failure) :
    ∃ record ∈ (source.serve request).reads, record.delivery = .failure failure := by
  cases request with
  | window => exact exists_failure_of_ensureFrom (of_map_eq_error failed)
  | lookahead => exact exists_failure_of_ensureFrom (of_map_eq_error (of_map_eq_error failed))
  | advance count => cases failed

theorem offset_serve {source : Source} {request : Request}
    (within : request.count ≤ source.unread.length) :
    (source.serve request).after.offset = source.offset + request.count := by
  cases request with
  | window => exact offset_ensure source 1
  | lookahead => exact offset_ensure source delimiterLength
  | advance count => exact offset_advance within

/-- The reads made so far have handed out the bytes up to the unread ones and with them, the rest is
to come, and the end was reported if and only if the source is exhausted. -/
structure Faithful (reader : Reader) (capacity : Capacity) (reads : List ReadRecord)
    (source : Source) : Prop where
  capacity : source.buffer.capacity = capacity
  inside : source.offset ≤ reader.template.length
  rest : reader.template.drop source.offset = source.upcoming
  ended : source.exhausted = true ↔ HasEnded reads
  handed : handedOut reads = reader.template.take source.offset ++ source.unread
  left : handedOut reads ++ source.reader.data = reader.data

theorem faithful_ofReader (reader : Reader) (capacity : Capacity) :
    Faithful reader capacity [] (ofReader reader capacity) :=
  ⟨rfl, Nat.zero_le _, rfl, iff_of_false Bool.false_ne_true nofun, rfl, rfl⟩

theorem capacity_refill (source : Source) :
    source.refill.2.buffer.capacity = source.buffer.capacity := by
  simp only [refill]
  split <;> simp [Buffer.receive]

namespace Faithful

variable {reader : Reader} {capacity : Capacity} {reads : List ReadRecord} {source : Source}

/-- A read moves bytes from the reader to the unread ones, or it reports the end. -/
theorem refill (faithful : Faithful reader capacity reads source)
    (unfinished : source.exhausted = false) (short : source.unread.length < capacity.size) :
    Faithful reader capacity (reads ++ [source.refill.1]) source.refill.2 := by
  obtain ⟨rfl, inside, rest, ended, handed, left⟩ := faithful
  have delivered := handedOut_append_singleton reads source.refill.1
  refine ⟨capacity_refill source, ?_, ?_, ?_, ?_, ?_⟩
  · rw [offset_refill]
    exact inside
  · rw [offset_refill, upcoming_refill unfinished short, rest]
  · rw [exhausted_refill_iff, ended, hasEnded_append_singleton]
  · rw [delivered, handed, offset_refill, unread_refill, List.append_assoc]
  · rw [delivered, List.append_assoc, reader_refill, ← left]
    exact congrArg _ (source.reader.data_read _)

/-- Released bytes are the first of the unread ones. -/
theorem advance (faithful : Faithful reader capacity reads source) {count : Nat}
    (within : count ≤ source.unread.length) :
    Faithful reader capacity reads (source.advance count) := by
  obtain ⟨same, inside, rest, ended, handed, left⟩ := faithful
  have front : (reader.template.drop source.offset).take count = source.unread.take count := by
    rw [rest, upcoming, List.take_append_of_le_length within]
  refine ⟨same, ?_, ?_, ended, ?_, left⟩
  · have lengths := congrArg List.length rest
    rw [List.length_drop, upcoming, List.length_append] at lengths
    rw [offset_advance within]
    omega
  · rw [offset_advance within, upcoming_advance within, ← List.drop_drop, rest]
  · rw [offset_advance within, unread_advance, List.take_add, front, List.append_assoc,
      List.take_append_drop, handed]

theorem ensure (faithful : Faithful reader capacity reads source) {count : Nat}
    (enough : count ≤ capacity.size) :
    Faithful reader capacity (reads ++ (source.ensure count).reads.toList)
      (source.ensure count).after := by
  apply ensureFrom_induction
    (motive := fun more after => Faithful reader capacity (reads ++ more.toList) after)
  · intro more after unfinished short faithful
    rw [Array.toList_push, ← List.append_assoc]
    exact faithful.refill unfinished (Nat.lt_of_lt_of_le short enough)
  · rw [Array.toList_empty, List.append_nil]
    exact faithful

theorem serve (faithful : Faithful reader capacity reads source) {request : Request}
    (within : request.count ≤ source.unread.length) :
    Faithful reader capacity (reads ++ (source.serve request).reads.toList)
      (source.serve request).after := by
  cases request with
  | window => exact faithful.ensure (Nat.le_trans (by decide) capacity.enough)
  | lookahead => exact faithful.ensure capacity.enough
  | advance count =>
      simp only [Source.serve, List.append_nil]
      exact faithful.advance within

/-- Whatever is requested, what holds at every moment still holds behind it. -/
theorem course (faithful : Faithful reader capacity reads source) {requests : List Request}
    (permitted : source.Permits requests) :
    Faithful reader capacity (reads ++ (source.course requests).reads)
        (source.course requests).after ∧
      (source.course requests).after.offset = source.offset + Request.released requests := by
  induction requests generalizing source reads with
  | nil =>
      rw [Source.course, List.append_nil]
      exact ⟨faithful, rfl⟩
  | cons request requests ih =>
      obtain ⟨within, later⟩ := permitted
      obtain ⟨behind, offset⟩ := ih (faithful.serve within) later
      rw [List.append_assoc] at behind
      refine ⟨behind, offset.trans ?_⟩
      rw [offset_serve within, Nat.add_assoc]
      rfl

/-- The unread bytes are the first of those that were not released, all of them at the end. -/
theorem exists_drop_eq (faithful : Faithful reader capacity reads source) :
    ∃ more, reader.template.drop source.offset = source.unread ++ more ∧
      (source.exhausted = true → more = []) := by
  refine ⟨_, faithful.rest, fun ended => ?_⟩
  rw [if_pos ended]

/-- Only what the reader delivers before it reports the end is handed out. -/
theorem isPrefix_template (faithful : Faithful reader capacity reads source) :
    handedOut reads <+: reader.template := by
  obtain ⟨more, rest, -⟩ := faithful.exists_drop_eq
  refine ⟨more, ?_⟩
  rw [faithful.handed, List.append_assoc, ← rest, List.take_append_drop]

/-- The source is drained when the end was reported and everything before it was released. -/
theorem isDrained_iff (faithful : Faithful reader capacity reads source) :
    source.isDrained = true ↔
      HasEnded reads ∧ source.offset = reader.template.length := by
  obtain ⟨more, rest, last⟩ := faithful.exists_drop_eq
  rw [isDrained, Bool.and_eq_true, List.isEmpty_iff, ← faithful.ended]
  apply and_congr_right
  intro ended
  rw [last ended, List.append_nil] at rest
  rw [← rest, List.drop_eq_nil_iff]
  exact ⟨Nat.le_antisymm faithful.inside, Nat.le_of_eq ∘ Eq.symm⟩

/-- The unread bytes stand behind the released ones. -/
theorem unread_eq (faithful : Faithful reader capacity reads source) :
    source.offset + source.unread.length ≤ reader.template.length ∧
      source.unread =
        reader.template.extract source.offset (source.offset + source.unread.length) := by
  obtain ⟨more, rest, -⟩ := faithful.exists_drop_eq
  have inside := faithful.inside
  have lengths := congrArg List.length rest
  rw [List.length_drop, List.length_append] at lengths
  constructor
  · omega
  · rw [← take_drop_eq_extract, rest, List.take_left]

theorem length_unread_le (faithful : Faithful reader capacity reads source) :
    source.unread.length ≤ capacity.size := by
  rw [← faithful.capacity]
  exact Nat.le_of_add_left_le source.buffer.fits

/-- A window shows the bytes behind the released ones, as many as the buffer holds at most. It is
empty only at the end. -/
theorem window (faithful : Faithful reader capacity reads source) {bytes : List UInt8}
    (fine : source.window.result = .ok bytes) :
    (∃ length ≤ capacity.size, source.offset + length ≤ reader.template.length ∧
        bytes = reader.template.extract source.offset (source.offset + length)) ∧
      (bytes = [] → HasEnded (reads ++ source.window.reads.toList) ∧
        source.offset = reader.template.length) := by
  have enough : 1 ≤ capacity.size := Nat.le_trans (by decide) capacity.enough
  have after := faithful.ensure enough
  obtain ⟨_, ensured, rfl⟩ := exists_of_map_eq_ok fine
  rw [← offset_ensure source 1]
  constructor
  · exact ⟨_, after.length_unread_le, after.unread_eq⟩
  · intro empty
    have ended : (source.ensure 1).after.exhausted = true := by
      refine (exhausted_or_le_of_ensure ensured).resolve_right ?_
      rw [empty]
      decide
    have drained : (source.ensure 1).after.isDrained = true := by
      rw [isDrained, ended, empty]
      rfl
    exact after.isDrained_iff.mp drained

/-- A lookahead shows the two bytes behind the released ones, as far as there are that many. -/
theorem lookahead (faithful : Faithful reader capacity reads source)
    {pair : Option UInt8 × Option UInt8} (fine : source.lookahead.result = .ok pair) :
    pair = (reader.template[source.offset]?, reader.template[source.offset + 1]?) := by
  have enough : delimiterLength ≤ capacity.size := capacity.enough
  have after := faithful.ensure enough
  obtain ⟨_, ensured, rfl⟩ := exists_of_map_eq_ok fine
  obtain ⟨more, rest, last⟩ := after.exists_drop_eq
  rw [offset_ensure] at rest
  have same : ∀ index < delimiterLength, (source.ensure delimiterLength).after.unread[index]? =
      reader.template[source.offset + index]? := by
    intro index below
    rw [← List.getElem?_drop, rest]
    rcases exhausted_or_le_of_ensure ensured with ended | enough
    · rw [last ended, List.append_nil]
    · exact (List.getElem?_append_left (Nat.lt_of_lt_of_le below enough)).symm
  rw [same 0 (by decide), same 1 (by decide), Nat.add_zero]

end Faithful

theorem unread_prefix_serve {source : Source} {request : Request} (look : request.count = 0) :
    source.unread <+: (source.serve request).after.unread := by
  cases request with
  | window => exact unread_prefix_ensure source 1
  | lookahead => exact unread_prefix_ensure source delimiterLength
  | advance count =>
      obtain rfl : count = 0 := look
      exact List.prefix_rfl

theorem unread_prefix_course {source : Source} {requests : List Request}
    (looks : ∀ request ∈ requests, request.count = 0) :
    source.unread <+: (source.course requests).after.unread := by
  induction requests generalizing source with
  | nil => exact List.prefix_rfl
  | cons request requests ih =>
      obtain ⟨look, looks⟩ := List.forall_mem_cons.mp looks
      exact (unread_prefix_serve look).trans (ih looks)

/-- The bytes that a request shows begin with what was seen before, as far as the request shows it,
unless bytes were released in between. -/
theorem part_prefix_of_serve {source : Source} {first last : Request} {between : List Request}
    {seen shown : List UInt8} (looks : ∀ request ∈ between, request.count = 0)
    (fine : (source.serve first).result = .ok seen)
    (fine' : (((source.serve first).after.course between).after.serve last).result = .ok shown) :
    last.part seen <+: shown := by
  have kept : seen <+: ((source.serve first).after.course between).after.unread := by
    rw [eq_part_of_serve fine]
    exact (first.part_prefix _).trans (unread_prefix_course looks)
  rw [eq_part_of_serve fine']
  cases last with
  | window => exact Request.window.part_mono (kept.trans (unread_prefix_serve rfl))
  | lookahead => exact Request.lookahead.part_mono (kept.trans (unread_prefix_serve rfl))
  | advance count => exact List.nil_prefix

/-- At the end there is nothing to read ahead. -/
theorem ensure_of_exhausted {source : Source} (ended : source.exhausted = true) (count : Nat) :
    (source.ensure count).after = source := by
  rw [Source.ensure, ensureFrom, dif_neg]
  rw [ended]
  exact nofun

theorem isDrained_serve {source : Source} (drained : source.isDrained = true) (request : Request) :
    (source.serve request).after.isDrained = true := by
  obtain ⟨ended, empty⟩ := Bool.and_eq_true_iff.mp drained
  cases request with
  | window =>
      rw [Source.serve, Source.window, ensure_of_exhausted ended]
      exact drained
  | lookahead =>
      rw [Source.serve, Source.lookahead, ensure_of_exhausted ended]
      exact drained
  | advance count =>
      rw [Source.serve, isDrained, exhausted_advance, unread_advance, ended,
        List.isEmpty_iff.mp empty, List.drop_nil]
      rfl

theorem isDrained_course {source : Source} (drained : source.isDrained = true)
    (requests : List Request) : (source.course requests).after.isDrained = true := by
  induction requests generalizing source with
  | nil => exact drained
  | cons request requests ih => exact ih (isDrained_serve drained request)

/-- The source serves a queue of the bytes that the reader delivers before it first reports the end,
of which so many were released. A window shows the bytes behind these, and is empty only at the end;
a lookahead shows two of them, and nothing in place of those that are missing; and both fail only if
a read fails. The source is drained exactly when the end was reported and all bytes were released.
The reads have handed out the released bytes and the unread ones, and everything else is left in the
reader. -/
structure ServesQueue (reader : Reader) (capacity : Capacity) (released : Nat)
    (reads : List ReadRecord) (source : Source) : Prop where
  offset : source.offset = released
  window : ∀ bytes, source.window.result = .ok bytes →
    (∃ length ≤ capacity.size, released + length ≤ reader.template.length ∧
        bytes = reader.template.extract released (released + length)) ∧
      (bytes = [] → HasEnded (reads ++ source.window.reads.toList) ∧
        released = reader.template.length)
  lookahead : ∀ pair, source.lookahead.result = .ok pair →
    pair = (reader.template[released]?, reader.template[released + 1]?)
  failed : ∀ request failure, (source.serve request).result = .error failure →
    ∃ record ∈ (source.serve request).reads, record.delivery = .failure failure
  drained : source.isDrained = true ↔ HasEnded reads ∧ released = reader.template.length
  handed : handedOut reads = reader.template.take released ++ source.unread
  left : handedOut reads ++ source.reader.data = reader.data

/-- Whatever is requested of a source, it serves a queue. What was seen is seen again as long as no
byte is released, and more bytes may follow it; and a drained source stays drained. -/
theorem course_servesQueue (reader : Reader) (capacity : Capacity) (requests : List Request)
    (permitted : (ofReader reader capacity).Permits requests) :
    let course := (ofReader reader capacity).course requests
    ServesQueue reader capacity (Request.released requests) course.reads course.after ∧
      (∀ first between last seen shown, (∀ request ∈ between, Request.count request = 0) →
        (course.after.serve first).result = .ok seen →
        (((course.after.serve first).after.course between).after.serve last).result = .ok shown →
        last.part seen <+: shown) ∧
      (course.after.isDrained = true →
        ∀ more, (course.after.course more).after.isDrained = true) := by
  intro course
  obtain ⟨faithful, offset⟩ := (faithful_ofReader reader capacity).course permitted
  rw [List.nil_append] at faithful
  rw [show (ofReader reader capacity).offset = 0 from rfl, Nat.zero_add] at offset
  refine ⟨?_, ?_, isDrained_course⟩
  · rw [← offset]
    exact ⟨rfl, fun _ => faithful.window, fun _ => faithful.lookahead,
      fun _ _ => exists_failure_of_serve, faithful.isDrained_iff, faithful.handed, faithful.left⟩
  · intro first between last seen shown looks fine fine'
    exact part_prefix_of_serve looks fine fine'

/-- The buffer is filled to its end, a read fails while it holds one byte, and the reader has more
bytes behind a report of the end. -/
theorem course_servesQueue_with_failed_read :
    let reader : Reader := .ofDeliveries [.bytes [0x61, 0x62], .failure ⟨"BrokenPipe", "gone"⟩,
      .bytes [0x63], .bytes [], .bytes [0x64]]
    let capacity : Capacity := ⟨2, by decide⟩
    let early := (ofReader reader capacity).course [.window, .advance 1]
    let late := (ofReader reader capacity).course
      [.window, .advance 1, .lookahead, .lookahead, .advance 2, .window]
    ServesQueue reader capacity 1 early.reads early.after ∧
      ((early.after.serve .window).result = .ok [0x62] ∧
        (((early.after.serve .window).after.course [.lookahead]).after.serve .lookahead).result =
          .ok [0x62, 0x63] ∧
        Request.lookahead.part [0x62] <+: [0x62, 0x63]) ∧
      ServesQueue reader capacity 3 late.reads late.after ∧
      late.after.isDrained = true ∧ ∀ more, (late.after.course more).after.isDrained = true := by
  intro reader capacity early late
  have begun := course_servesQueue reader capacity [.window, .advance 1] (by decide +kernel)
  have ended := course_servesQueue reader capacity
    [.window, .advance 1, .lookahead, .lookahead, .advance 2, .window] (by decide +kernel)
  have seen : (early.after.serve .window).result = .ok [0x62] := by decide +kernel
  have shown : (((early.after.serve .window).after.course [.lookahead]).after.serve
      .lookahead).result = .ok [0x62, 0x63] := by decide +kernel
  have drained : late.after.isDrained = true := by decide +kernel
  exact ⟨begun.1, ⟨seen, shown, begun.2.1 _ _ _ _ _ (by decide) seen shown⟩, ended.1, drained,
    ended.2.2 drained⟩

end Source

end TemplateLexer
