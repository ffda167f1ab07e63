import TemplateLexer.Proofs.Validity

namespace TemplateLexer.Utf8

/-- The fault with other bytes in front. -/
def Fault.behind (fault : Fault) (count : Nat) : Fault :=
  { fault with validLength := count + fault.validLength }

/-- The fault of bytes of the given length once a byte follows that continues none of their
characters. -/
def Fault.closedAt (fault : Fault) (length : Nat) : Fault :=
  { fault with errorLength := some (fault.errorLength.getD (length - fault.validLength)) }

/-- The checker counts from where it starts. -/
theorem faultFrom_add (count start taken : Nat) (expected : List ByteRange) (bytes : List UInt8) :
    faultFrom (count + start) taken expected bytes =
      (faultFrom start taken expected bytes).map fun fault => fault.behind count := by
  fun_induction faultFrom start taken expected bytes with
  | case1 => rfl
  | case2 => rfl
  | case3 start taken byte rest unknown =>
      rw [faultFrom, unknown]
      simp only [Option.map_some, Fault.behind, Nat.add_assoc]
  | case4 start taken byte rest expected chosen ih =>
      rw [faultFrom_cons chosen, Nat.add_assoc, ih]
  | case5 start taken range expected byte rest inside ih =>
      rw [faultFrom, if_pos inside, ih]
  | case6 start taken range expected byte rest outside =>
      rw [faultFrom, if_neg outside]
      rfl

/-- Behind valid bytes the checker finds what it finds in the rest alone. -/
theorem fault?_append {front : List UInt8} (sound : Valid front) (bytes : List UInt8) :
    fault? (front ++ bytes) = (fault? bytes).map fun fault => fault.behind front.length := by
  have first : faultFrom 0 0 [] front = none := fault?_eq_none_iff.mpr sound
  rw [fault?, faultFrom_append_of_none first, fault?, ← faultFrom_add]
  congr 1
  omega

theorem FirstFault.append_left {bytes : List UInt8} {fault : Fault}
    (first : FirstFault bytes fault) {front : List UInt8} (sound : Valid front) :
    FirstFault (front ++ bytes) (fault.behind front.length) := by
  apply fault?_eq_some_iff.mp
  rw [fault?_append sound, fault?_eq_some_iff.mpr first]
  rfl

/-- An ASCII byte continues no character. -/
theorem ByteRange.Continues.contains_ascii {range : ByteRange} (continues : range.Continues)
    {byte : UInt8} (ascii : byte < 0x80) : range.contains byte = false := by
  have above := UInt8.le_iff_toNat_le.mp continues.above
  have below := UInt8.lt_iff_toNat_lt.mp ascii
  have outside : ¬ range.low ≤ byte := by
    rw [UInt8.le_iff_toNat_le]
    omega
  simp [contains, outside]

theorem FirstFault.append_ascii {bytes : List UInt8} {fault : Fault}
    (first : FirstFault bytes fault) {byte : UInt8} (ascii : byte < 0x80) (rest : List UInt8) :
    FirstFault (bytes ++ byte :: rest) (fault.closedAt bytes.length) := by
  have found : faultFrom 0 0 [] bytes = some fault := fault?_eq_some_iff.mpr first
  apply fault?_eq_some_iff.mp
  obtain ⟨validLength, errorLength⟩ := fault
  cases errorLength with
  | some length => exact faultFrom_append_of_broken found (byte :: rest)
  | none =>
      obtain ⟨range, others, reached, continues, place, step⟩ :=
        faultFrom_append_of_incomplete (by simp) found
      have outside := (continues range List.mem_cons_self).contains_ascii ascii
      have covered : reached = bytes.length - validLength := by omega
      rw [fault?, step, faultFrom, outside, covered]
      rfl

/-- The bytes behind the valid ones are valid so far if and only if the fault has no length. -/
theorem FirstFault.validSoFar_iff {bytes : List UInt8} {fault : Fault}
    (first : FirstFault bytes fault) :
    ValidSoFar (bytes.drop fault.validLength) ↔ fault.errorLength = none := by
  constructor
  · intro sound
    cases covered : fault.errorLength with
    | none => rfl
    | some length => exact absurd (sound.take _) (first.broken length covered).2.1
  · exact first.incomplete

end TemplateLexer.Utf8
