import TemplateLexer.Error

namespace TemplateLexer

/-- A capacity is a number of bytes that can hold a delimiter. -/
structure Capacity where
  size : Nat
  enough : minimumCapacity ≤ size
  deriving DecidableEq, Repr

namespace Capacity

def check (size : Nat) : Except TokenizeError Capacity :=
  if enough : minimumCapacity ≤ size then .ok ⟨size, enough⟩ else .error (.capacityTooSmall size)

/-- A buffer holds 8 KiB unless another capacity is asked for. -/
def standard : Capacity := ⟨8192, by decide⟩

theorem check_eq_error_iff (size : Nat) (error : TokenizeError) :
    check size = .error error ↔ size < minimumCapacity ∧ error = .capacityTooSmall size := by
  simp only [check]
  split
  · next enough => simp only [reduceCtorEq, false_iff, not_and]; omega
  · next small =>
      simp only [Except.error.injEq]
      exact ⟨fun same => ⟨by omega, same.symm⟩, fun cause => cause.2.symm⟩

end Capacity

/-- The unread bytes stand behind `start` released bytes, and free room is behind them. -/
structure Buffer where
  capacity : Capacity
  start : Nat
  unread : List UInt8
  fits : start + unread.length ≤ capacity.size

namespace Buffer

def empty (capacity : Capacity) : Buffer := ⟨capacity, 0, [], Nat.zero_le capacity.size⟩

/-- The index just behind the unread bytes. -/
def stop (buffer : Buffer) : Nat := buffer.start + buffer.unread.length

/-- The number of bytes that can be received behind the unread ones. -/
def room (buffer : Buffer) : Nat := buffer.capacity.size - buffer.stop

/-- The unread bytes start the buffer anew if there are none or if they reach its end. -/
def makeRoom (buffer : Buffer) : Buffer :=
  if buffer.unread.isEmpty || buffer.room == 0 then
    { buffer with start := 0, fits := by have := buffer.fits; omega }
  else buffer

def receive (buffer : Buffer) (data : List UInt8) (inside : data.length ≤ buffer.room) : Buffer :=
  { buffer with
    unread := buffer.unread ++ data
    fits := by
      have := buffer.fits
      simp only [room, stop] at inside
      rw [List.length_append]
      omega }

/-- The first `count` unread bytes are released, or all of them if there are fewer. -/
def release (buffer : Buffer) (count : Nat) : Buffer :=
  { buffer with
    start := buffer.start + min count buffer.unread.length
    unread := buffer.unread.drop count
    fits := by
      have := buffer.fits
      rw [List.length_drop]
      omega }

theorem stop_le_size (buffer : Buffer) : buffer.stop ≤ buffer.capacity.size := buffer.fits

@[simp] theorem unread_makeRoom (buffer : Buffer) : buffer.makeRoom.unread = buffer.unread := by
  simp only [makeRoom]
  split <;> rfl

@[simp] theorem capacity_makeRoom (buffer : Buffer) :
    buffer.makeRoom.capacity = buffer.capacity := by
  simp only [makeRoom]
  split <;> rfl

/-- There is room to read into unless the unread bytes fill the buffer. -/
theorem room_makeRoom_pos {buffer : Buffer}
    (short : buffer.unread.length < buffer.capacity.size) : 0 < buffer.makeRoom.room := by
  have inside := buffer.fits
  simp only [makeRoom]
  split
  · simp only [room, stop]
    omega
  · next spare =>
      simp only [Bool.or_eq_true, beq_iff_eq, not_or] at spare
      exact Nat.pos_of_ne_zero spare.2

end Buffer

end TemplateLexer
