import TemplateLexer.Utf8

namespace TemplateLexer

/-- A failed read names the kind of failure and describes it. -/
structure Failure where
  kind : String
  message : String
  deriving DecidableEq, Repr

/-- One delivery of a reader. No bytes at all means that the reader is at its end. -/
inductive Delivery where
  | bytes (data : List UInt8)
  | interruption
  | failure (failure : Failure)
  deriving DecidableEq, Repr

/-- Every byte delivered counts, and so does every delivery without bytes. -/
def Delivery.weight : Delivery → Nat
  | bytes data => data.length
  | _ => 1

/-- The bytes that a delivery brings. -/
def Delivery.data : Delivery → List UInt8
  | bytes data => data
  | _ => []

theorem Delivery.weight_pos {delivery : Delivery} (more : delivery ≠ .bytes []) :
    0 < delivery.weight := by
  match delivery with
  | .bytes [] => contradiction
  | .bytes (_ :: _) => exact Nat.succ_pos _
  | .interruption => exact Nat.one_pos
  | .failure _ => exact Nat.one_pos

theorem Delivery.length_data_le (delivery : Delivery) : delivery.data.length ≤ delivery.weight := by
  cases delivery <;> simp [data, weight]

/-- A reader holds the deliveries to come, and may limit how many bytes one read hands out. Whatever
hands out no more than it is asked for behaves in a run as the list of what its reads deliver. -/
structure Reader where
  deliveries : List Delivery
  limit : Option Nat
  positive : limit ≠ some 0

namespace Reader

/-- A reader that hands out as many bytes as it is asked for, up to the end of a delivery. -/
def ofDeliveries (deliveries : List Delivery) : Reader := ⟨deliveries, none, nofun⟩

/-- A reader that hands out the bytes of a text. -/
def ofString (text : String) : Reader := ofDeliveries [.bytes (Utf8.encode text)]

def limitedTo (reader : Reader) (limit : Nat) (positive : 0 < limit) : Reader :=
  { reader with
    limit := some limit
    positive := fun same => Nat.ne_of_gt positive (Option.some.inj same) }

/-- The most bytes that one read hands out when `want` bytes are asked for. -/
def share (reader : Reader) (want : Nat) : Nat :=
  match reader.limit with
  | none => want
  | some limit => min want limit

/-- A read hands out the beginning of the first delivery, and what it leaves is delivered next.
Without deliveries every read reports the end. -/
def read (reader : Reader) (want : Nat) : Delivery × Reader :=
  match reader.deliveries with
  | [] => (.bytes [], reader)
  | .bytes data :: rest =>
      let left := data.drop (reader.share want)
      (.bytes (data.take (reader.share want)),
        { reader with deliveries := if left.isEmpty then rest else .bytes left :: rest })
  | delivery :: rest => (delivery, { reader with deliveries := rest })

/-- The number of bytes that the reader has not handed out. -/
def remaining (reader : Reader) : Nat :=
  reader.deliveries.foldl (fun total delivery =>
    match delivery with
    | .bytes data => total + data.length
    | _ => total) 0

end Reader

/-- The most reads that come before the first one that reports the end. -/
def readsToEnd : List Delivery → Nat
  | [] => 0
  | .bytes [] :: _ => 0
  | .bytes (byte :: data) :: rest => (byte :: data).length + readsToEnd rest
  | _ :: rest => 1 + readsToEnd rest

namespace Reader

theorem share_le (reader : Reader) (want : Nat) : reader.share want ≤ want := by
  simp only [share]
  split <;> omega

theorem share_pos (reader : Reader) {want : Nat} (asked : 0 < want) : 0 < reader.share want := by
  have positive := reader.positive
  simp only [share]
  split
  · exact asked
  · next limit limited =>
      cases limit with
      | zero => exact absurd limited positive
      | succ limit => omega

/-- A read hands out no more than was asked for. -/
theorem length_read_le {reader : Reader} {want : Nat} {data : List UInt8}
    (handed : (reader.read want).1 = .bytes data) : data.length ≤ want := by
  simp only [read] at handed
  split at handed
  · cases handed
    exact Nat.zero_le want
  · cases handed
    have bound := reader.share_le want
    rw [List.length_take]
    omega
  · next delivery rest other _ =>
      exact absurd handed (other data)

/-- A read that does not report the end takes what it delivers off the reads to come. -/
theorem readsToEnd_read {reader : Reader} {want : Nat}
    (more : (reader.read want).1 ≠ .bytes []) :
    readsToEnd (reader.read want).2.deliveries + (reader.read want).1.weight =
      readsToEnd reader.deliveries := by
  match deliveries : reader.deliveries with
  | [] => simp [read, deliveries] at more
  | .interruption :: rest => simp [read, deliveries, readsToEnd, Delivery.weight, Nat.add_comm]
  | .failure failure :: rest => simp [read, deliveries, readsToEnd, Delivery.weight, Nat.add_comm]
  | .bytes [] :: rest => simp [read, deliveries] at more
  | .bytes (byte :: data) :: rest =>
      simp only [read, deliveries, Delivery.weight]
      cases left : (byte :: data).drop (reader.share want) with
      | nil =>
          have covered := List.drop_eq_nil_iff.mp left
          simp [readsToEnd, List.take_of_length_le covered, Nat.add_comm]
      | cons first others =>
          have lengths := congrArg List.length left
          simp only [List.length_drop, List.length_cons] at lengths
          simp only [List.isEmpty_cons, Bool.false_eq_true, if_false, readsToEnd,
            List.length_take, List.length_cons]
          omega

end Reader

end TemplateLexer
