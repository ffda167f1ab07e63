import TemplateLexer.Construct

namespace TemplateLexer

/-- A mode says where in a template text is being read. -/
inductive Mode where
  | literal
  | inside (construct : Construct)
  deriving DecidableEq, Repr

/-- The mode of the text that follows a delimiter. -/
def Delimiter.nextMode : Delimiter → Mode
  | opening construct => .inside construct
  | closing _ => .literal

namespace Mode

/-- The first byte of every delimiter that ends text of the mode. -/
def lead : Mode → UInt8
  | literal => openBrace
  | inside construct => construct.closeMark

/-- The delimiter of the mode that two adjacent bytes form. -/
def formed? : Mode → UInt8 → UInt8 → Option Delimiter
  | literal, first, second =>
      if first = openBrace then (Construct.ofOpenMark? second).map .opening else none
  | inside construct, first, second =>
      if first = construct.closeMark ∧ second = closeBrace then some (.closing construct) else none

/-- The delimiter of the mode that the bytes begin with. -/
def standing? (mode : Mode) : List UInt8 → Option Delimiter
  | first :: second :: _ => mode.formed? first second
  | _ => none

/-- The leftmost delimiter of the mode, with its position counted from a given one. -/
def findFrom (mode : Mode) (position : Nat) : List UInt8 → Option (Nat × Delimiter)
  | first :: second :: rest =>
      match mode.formed? first second with
      | some delimiter => some (position, delimiter)
      | none => findFrom mode (position + 1) (second :: rest)
  | _ => none

/-- The leftmost delimiter of the mode in the bytes, with its position. -/
def find? (mode : Mode) (bytes : List UInt8) : Option (Nat × Delimiter) :=
  mode.findFrom 0 bytes

/-- The number of bytes that are text whatever follows, once no delimiter of the mode is found:
only a lead byte at the very end may still become the start of one. -/
def settledLength (mode : Mode) (bytes : List UInt8) : Nat :=
  if bytes.getLast? = some mode.lead then bytes.length - 1 else bytes.length

theorem firstByte_of_formed? {mode : Mode} {first second : UInt8} {delimiter : Delimiter}
    (formed : mode.formed? first second = some delimiter) : delimiter.firstByte = first := by
  cases mode with
  | literal =>
      simp only [formed?] at formed
      split at formed
      · obtain ⟨construct, _, rfl⟩ := Option.map_eq_some_iff.mp formed
        simp_all [Delimiter.firstByte]
      · contradiction
  | inside construct =>
      simp only [formed?] at formed
      split at formed
      · cases formed
        simp_all [Delimiter.firstByte]
      · contradiction

theorem secondByte_of_formed? {mode : Mode} {first second : UInt8} {delimiter : Delimiter}
    (formed : mode.formed? first second = some delimiter) : delimiter.secondByte = second := by
  cases mode with
  | literal =>
      simp only [formed?] at formed
      split at formed
      · obtain ⟨construct, found, rfl⟩ := Option.map_eq_some_iff.mp formed
        exact Construct.openMark_of_ofOpenMark? found
      · contradiction
  | inside construct =>
      simp only [formed?] at formed
      split at formed
      · cases formed
        simp_all [Delimiter.secondByte]
      · contradiction

/-- A byte other than the lead starts no delimiter of the mode. -/
theorem formed?_of_ne_lead {mode : Mode} {first : UInt8} (other : first ≠ mode.lead)
    (second : UInt8) : mode.formed? first second = none := by
  cases mode <;> simp_all [formed?, lead]

theorem standing?_eq_some {mode : Mode} {bytes : List UInt8} {delimiter : Delimiter}
    (standing : mode.standing? bytes = some delimiter) :
    ∃ rest, bytes = delimiter.bytes ++ rest := by
  match bytes, standing with
  | first :: second :: rest, standing =>
      have formed : mode.formed? first second = some delimiter := standing
      refine ⟨rest, ?_⟩
      simp [Delimiter.bytes, firstByte_of_formed? formed, secondByte_of_formed? formed]

theorem findFrom_eq_none {mode : Mode} {bytes : List UInt8} {position : Nat}
    (missing : mode.findFrom position bytes = none) (index : Nat) :
    mode.standing? (bytes.drop index) = none := by
  induction bytes generalizing position index with
  | nil => simp [standing?]
  | cons first rest ih =>
      cases rest with
      | nil => cases index <;> simp [standing?]
      | cons second rest =>
          simp only [findFrom] at missing
          split at missing
          · contradiction
          · next unformed =>
              cases index with
              | zero => simpa [standing?] using unformed
              | succ index => simpa using ih missing index

theorem findFrom_eq_some {mode : Mode} {bytes : List UInt8} {position found : Nat}
    {delimiter : Delimiter} (result : mode.findFrom position bytes = some (found, delimiter)) :
    ∃ index, found = position + index ∧ mode.standing? (bytes.drop index) = some delimiter ∧
      ∀ earlier, earlier < index → mode.standing? (bytes.drop earlier) = none := by
  induction bytes generalizing position with
  | nil => simp [findFrom] at result
  | cons first rest ih =>
      cases rest with
      | nil => simp [findFrom] at result
      | cons second rest =>
          simp only [findFrom] at result
          split at result
          · next formed =>
              cases result
              exact ⟨0, by simp, by simpa [standing?] using formed, by omega⟩
          · next unformed =>
              obtain ⟨index, place, standing, first⟩ := ih result
              refine ⟨index + 1, by omega, by simpa using standing, ?_⟩
              intro earlier before
              cases earlier with
              | zero => simpa [standing?] using unformed
              | succ earlier => simpa using first earlier (by omega)

theorem find?_eq_none_iff (mode : Mode) (bytes : List UInt8) :
    mode.find? bytes = none ↔ ∀ index, mode.standing? (bytes.drop index) = none := by
  constructor
  · intro missing index
    exact findFrom_eq_none missing index
  · intro absent
    cases result : mode.find? bytes with
    | none => rfl
    | some found =>
        obtain ⟨index, _, standing, _⟩ := findFrom_eq_some (show mode.findFrom 0 bytes =
          some (found.1, found.2) from result)
        simp [absent index] at standing

theorem find?_eq_some_iff (mode : Mode) (bytes : List UInt8) (position : Nat)
    (delimiter : Delimiter) :
    mode.find? bytes = some (position, delimiter) ↔
      mode.standing? (bytes.drop position) = some delimiter ∧
        ∀ earlier, earlier < position → mode.standing? (bytes.drop earlier) = none := by
  constructor
  · intro result
    obtain ⟨index, place, standing, first⟩ := findFrom_eq_some result
    have same : position = index := by omega
    subst same
    exact ⟨standing, first⟩
  · intro ⟨standing, first⟩
    cases result : mode.find? bytes with
    | none => simp [(find?_eq_none_iff mode bytes).mp result position] at standing
    | some found =>
        obtain ⟨index, place, other, least⟩ := findFrom_eq_some (show mode.findFrom 0 bytes =
          some (found.1, found.2) from result)
        have same : index = position := by
          rcases Nat.lt_trichotomy index position with before | equal | after
          · simp [first index before] at other
          · exact equal
          · simp [least position after] at standing
        subst same
        rw [standing] at other
        cases other
        simp [Prod.ext_iff, place]

/-- A delimiter that was found lies within the bytes. -/
theorem find?_within {mode : Mode} {bytes : List UInt8} {position : Nat} {delimiter : Delimiter}
    (found : mode.find? bytes = some (position, delimiter)) :
    position + delimiterLength ≤ bytes.length := by
  obtain ⟨rest, split⟩ := standing?_eq_some ((find?_eq_some_iff _ _ _ _).mp found).1
  have lengths := congrArg List.length split
  simp only [List.length_drop, List.length_append, Delimiter.length_bytes] at lengths
  have positive : 0 < delimiterLength := by decide
  omega

theorem settledLength_le (mode : Mode) (bytes : List UInt8) :
    mode.settledLength bytes ≤ bytes.length := by
  simp only [settledLength]
  split <;> omega

/-- At most one byte is left unsettled. -/
theorem length_le_settledLength (mode : Mode) (bytes : List UInt8) :
    bytes.length ≤ mode.settledLength bytes + 1 := by
  simp only [settledLength]
  split <;> omega

end Mode

end TemplateLexer
