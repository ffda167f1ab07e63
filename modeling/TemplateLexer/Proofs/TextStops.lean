import TemplateLexer.Mode

namespace TemplateLexer

/-- Text outside constructs is ended by any opening delimiter, text inside a construct by the
closing delimiter of that construct alone. -/
def Mode.EndedBy : Mode → Delimiter → Prop
  | .literal, .opening _ => True
  | .inside construct, .closing other => construct = other
  | _, _ => False

/-- Both bytes of the delimiter stand in the template at the position. -/
def Delimiter.StandsAt (delimiter : Delimiter) (template : List UInt8) (position : Nat) : Prop :=
  delimiter.bytes <+: template.drop position

/-- Text of the mode that begins at `start` stops at the given place. It stops before a delimiter
there, or because the template ends. -/
inductive TextStops (template : List UInt8) (mode : Mode) (start : Nat) :
    Nat → Option Delimiter → Prop where
  | before {stop : Nat} {delimiter : Delimiter} (after : start ≤ stop)
      (ends : mode.EndedBy delimiter) (stands : delimiter.StandsAt template stop)
      (least : ∀ earlier other, start ≤ earlier → earlier < stop → mode.EndedBy other →
        ¬ other.StandsAt template earlier) :
      TextStops template mode start stop (some delimiter)
  | atEnd (inside : start ≤ template.length)
      (absent : ∀ position other, start ≤ position → mode.EndedBy other →
        ¬ other.StandsAt template position) :
      TextStops template mode start template.length none

namespace Mode

theorem formed?_eq_some_iff {mode : Mode} {first second : UInt8} {delimiter : Delimiter} :
    mode.formed? first second = some delimiter ↔
      mode.EndedBy delimiter ∧ delimiter.firstByte = first ∧ delimiter.secondByte = second := by
  constructor
  · intro formed
    have ends : mode.EndedBy delimiter := by
      cases mode with
      | literal =>
          simp only [formed?] at formed
          split at formed
          · obtain ⟨construct, -, rfl⟩ := Option.map_eq_some_iff.mp formed
            trivial
          · contradiction
      | inside construct =>
          simp only [formed?] at formed
          split at formed
          · cases formed
            rfl
          · contradiction
    exact ⟨ends, firstByte_of_formed? formed, secondByte_of_formed? formed⟩
  · rintro ⟨ends, rfl, rfl⟩
    cases mode with
    | literal =>
        cases delimiter with
        | opening construct =>
            simp [formed?, Delimiter.firstByte, Delimiter.secondByte,
              Construct.ofOpenMark?_openMark]
        | closing construct => contradiction
    | inside construct =>
        cases delimiter with
        | opening other => contradiction
        | closing other =>
            obtain rfl : construct = other := ends
            simp [formed?, Delimiter.firstByte, Delimiter.secondByte]

theorem standing?_eq_some_iff {mode : Mode} {bytes : List UInt8} {delimiter : Delimiter} :
    mode.standing? bytes = some delimiter ↔
      mode.EndedBy delimiter ∧ delimiter.bytes <+: bytes := by
  constructor
  · intro standing
    obtain ⟨rest, rfl⟩ := standing?_eq_some standing
    exact ⟨(formed?_eq_some_iff.mp standing).1, List.prefix_append _ _⟩
  · rintro ⟨ends, rest, rfl⟩
    exact formed?_eq_some_iff.mpr ⟨ends, rfl, rfl⟩

theorem standing?_drop_eq_none_iff {mode : Mode} {template : List UInt8} {position : Nat} :
    mode.standing? (template.drop position) = none ↔
      ∀ other, mode.EndedBy other → ¬ other.StandsAt template position := by
  rw [Option.eq_none_iff_forall_ne_some]
  constructor
  · intro missing other ends stands
    exact missing other (standing?_eq_some_iff.mpr ⟨ends, stands⟩)
  · intro absent other standing
    obtain ⟨ends, stands⟩ := standing?_eq_some_iff.mp standing
    exact absent other ends stands

end Mode

/-- The search from the beginning of the text on finds the place where it stops. -/
theorem textStops_iff {template : List UInt8} {mode : Mode} {start stop : Nat}
    {next : Option Delimiter} (inside : start ≤ template.length) :
    TextStops template mode start stop next ↔
      match mode.find? (template.drop start) with
      | some (length, delimiter) => stop = start + length ∧ next = some delimiter
      | none => stop = template.length ∧ next = none := by
  constructor
  · intro stops
    cases stops with
    | @before _ delimiter after ends stands least =>
        have found : mode.find? (template.drop start) = some (stop - start, delimiter) := by
          rw [Mode.find?_eq_some_iff, List.drop_drop, Nat.add_sub_cancel' after]
          constructor
          · exact Mode.standing?_eq_some_iff.mpr ⟨ends, stands⟩
          · intro earlier below
            rw [List.drop_drop, Mode.standing?_drop_eq_none_iff]
            exact fun other => least (start + earlier) other (by omega) (by omega)
        rw [found]
        exact ⟨by omega, rfl⟩
    | atEnd _ absent =>
        have missing : mode.find? (template.drop start) = none := by
          rw [Mode.find?_eq_none_iff]
          intro index
          rw [List.drop_drop, Mode.standing?_drop_eq_none_iff]
          exact fun other => absent (start + index) other (by omega)
        rw [missing]
        exact ⟨rfl, rfl⟩
  · intro place
    cases found : mode.find? (template.drop start) with
    | none =>
        rw [found] at place
        obtain ⟨rfl, rfl⟩ := place
        apply TextStops.atEnd inside
        intro position other after
        have missing := (Mode.find?_eq_none_iff mode _).mp found (position - start)
        rw [List.drop_drop, Nat.add_sub_cancel' after, Mode.standing?_drop_eq_none_iff] at missing
        exact missing other
    | some pair =>
        obtain ⟨length, delimiter⟩ := pair
        rw [found] at place
        obtain ⟨rfl, rfl⟩ := place
        obtain ⟨standing, first⟩ := (Mode.find?_eq_some_iff _ _ _ _).mp found
        rw [List.drop_drop, Mode.standing?_eq_some_iff] at standing
        apply TextStops.before (Nat.le_add_right start length) standing.1 standing.2
        intro earlier other after below
        have missing := first (earlier - start) (by omega)
        rw [List.drop_drop, Nat.add_sub_cancel' after, Mode.standing?_drop_eq_none_iff] at missing
        exact missing other

namespace TextStops

variable {template : List UInt8} {mode : Mode} {start stop : Nat} {next : Option Delimiter}

theorem start_le (stops : TextStops template mode start stop next) : start ≤ stop := by
  cases stops with
  | before after => exact after
  | atEnd inside => exact inside

/-- A delimiter that text stops before lies within the template. -/
theorem stop_add_le {delimiter : Delimiter}
    (stops : TextStops template mode start stop (some delimiter)) :
    stop + delimiterLength ≤ template.length := by
  cases stops with
  | before after ends stands =>
      have length := stands.length_le
      rw [List.length_drop, Delimiter.length_bytes] at length
      have positive : 0 < delimiterLength := by decide
      omega

/-- Text before which no delimiter stops it goes on to the end. -/
theorem stop_eq_length (stops : TextStops template mode start stop none) :
    stop = template.length := by
  cases stops
  rfl

theorem stop_le (stops : TextStops template mode start stop next) : stop ≤ template.length := by
  cases next with
  | none => exact Nat.le_of_eq stops.stop_eq_length
  | some delimiter => exact Nat.le_of_add_right_le stops.stop_add_le

/-- The search finds the delimiter that text stops before. -/
theorem find?_eq (stops : TextStops template mode start stop next) :
    mode.find? (template.drop start) = next.map fun delimiter => (stop - start, delimiter) := by
  have place := (textStops_iff (Nat.le_trans stops.start_le stops.stop_le)).mp stops
  cases found : mode.find? (template.drop start) with
  | none =>
      rw [found] at place
      rw [place.2, Option.map_none]
  | some pair =>
      rw [found] at place
      rw [place.1, place.2, Option.map_some, Nat.add_sub_cancel_left]

/-- Text stops at one place only. -/
theorem unique {stop' : Nat} {next' : Option Delimiter}
    (first : TextStops template mode start stop next)
    (second : TextStops template mode start stop' next') : stop = stop' ∧ next = next' := by
  have inside := Nat.le_trans first.start_le first.stop_le
  have left := (textStops_iff inside).mp first
  have right := (textStops_iff inside).mp second
  cases found : mode.find? (template.drop start) with
  | none =>
      rw [found] at left right
      exact ⟨left.1.trans right.1.symm, left.2.trans right.2.symm⟩
  | some pair =>
      rw [found] at left right
      exact ⟨left.1.trans right.1.symm, left.2.trans right.2.symm⟩

end TextStops

/-- All text stops somewhere. -/
theorem exists_textStops {template : List UInt8} (mode : Mode) {start : Nat}
    (inside : start ≤ template.length) : ∃ stop next, TextStops template mode start stop next := by
  cases found : mode.find? (template.drop start) with
  | none =>
      have stops : TextStops template mode start template.length none := by
        rw [textStops_iff inside, found]
        exact ⟨rfl, rfl⟩
      exact ⟨_, _, stops⟩
  | some pair =>
      have stops : TextStops template mode start (start + pair.1) (some pair.2) := by
        rw [textStops_iff inside, found]
        exact ⟨rfl, rfl⟩
      exact ⟨_, _, stops⟩

namespace Mode

/-- What was found is found also when more bytes follow. -/
theorem find?_append_of_some {mode : Mode} {bytes : List UInt8} {position : Nat}
    {delimiter : Delimiter} (found : mode.find? bytes = some (position, delimiter))
    (more : List UInt8) : mode.find? (bytes ++ more) = some (position, delimiter) := by
  have within := find?_within found
  obtain ⟨standing, first⟩ := (find?_eq_some_iff _ _ _ _).mp found
  have positive : delimiterLength = 2 := rfl
  rw [find?_eq_some_iff]
  constructor
  · rw [List.drop_append_of_le_length (by omega)]
    rw [standing?_eq_some_iff] at standing ⊢
    exact ⟨standing.1, standing.2.trans (List.prefix_append _ _)⟩
  · intro earlier below
    have missing := first earlier below
    rw [List.drop_append_of_le_length (by omega)]
    match split : bytes.drop earlier with
    | [] | [_] =>
        have length := congrArg List.length split
        simp only [List.length_drop, List.length_cons, List.length_nil] at length
        omega
    | first :: second :: rest =>
        rw [split] at missing
        exact missing

/-- The two bytes at hand decide which delimiter the bytes begin with. -/
theorem standing?_take (mode : Mode) (bytes : List UInt8) {count : Nat}
    (enough : delimiterLength ≤ count) : mode.standing? (bytes.take count) = mode.standing? bytes := by
  obtain ⟨more, rfl⟩ := Nat.exists_eq_add_of_le' enough
  match bytes with
  | [] => rw [List.take_nil]
  | [byte] => rfl
  | first :: second :: rest => rfl

/-- A delimiter that was found ends text of the mode, and it stands where it was found. -/
theorem drop_of_find? {mode : Mode} {bytes : List UInt8} {position : Nat} {delimiter : Delimiter}
    (found : mode.find? bytes = some (position, delimiter)) :
    mode.EndedBy delimiter ∧
      bytes.drop position = delimiter.bytes ++ bytes.drop (position + delimiterLength) := by
  obtain ⟨ends, rest, split⟩ :=
    standing?_eq_some_iff.mp ((find?_eq_some_iff _ _ _ _).mp found).1
  apply And.intro ends
  rw [← List.drop_drop, ← split, List.drop_left' delimiter.length_bytes]

/-- What was found is found in the bytes up to it. -/
theorem find?_take_of_some {mode : Mode} {bytes : List UInt8} {position : Nat}
    {delimiter : Delimiter} (found : mode.find? bytes = some (position, delimiter)) :
    mode.find? (bytes.take (position + delimiterLength)) = some (position, delimiter) := by
  obtain ⟨standing, first⟩ := (find?_eq_some_iff _ _ _ _).mp found
  rw [find?_eq_some_iff]
  constructor
  · rw [List.drop_take, Nat.add_sub_cancel_left, standing?_take mode _ (Nat.le_refl _)]
    exact standing
  · intro earlier below
    rw [List.drop_take, standing?_take mode _ (by omega)]
    exact first earlier below

/-- No delimiter of the mode stands in the bytes before the given index. -/
def NoneBefore (mode : Mode) (length : Nat) (bytes : List UInt8) : Prop :=
  ∀ index, index < length → mode.standing? (bytes.drop index) = none

/-- Bytes that hold no delimiter's beginning are passed over by the search. -/
theorem find?_of_noneBefore {mode : Mode} {length : Nat} {bytes : List UInt8}
    (passed : mode.NoneBefore length bytes) :
    mode.find? bytes = (mode.find? (bytes.drop length)).map fun found =>
      (length + found.1, found.2) := by
  cases found : mode.find? (bytes.drop length) with
  | none =>
      rw [find?_eq_none_iff] at found
      rw [Option.map_none, find?_eq_none_iff]
      intro index
      by_cases below : index < length
      · exact passed index below
      · have missing := found (index - length)
        rwa [List.drop_drop, Nat.add_sub_cancel' (by omega)] at missing
  | some pair =>
      obtain ⟨position, delimiter⟩ := pair
      obtain ⟨standing, first⟩ := (find?_eq_some_iff _ _ _ _).mp found
      rw [Option.map_some, find?_eq_some_iff, ← List.drop_drop]
      apply And.intro standing
      intro earlier before
      by_cases below : earlier < length
      · exact passed earlier below
      · have missing := first (earlier - length) (by omega)
        rwa [List.drop_drop, Nat.add_sub_cancel' (by omega)] at missing

/-- No delimiter of the mode begins in the text, whatever follows the bytes behind it. -/
def Settled (mode : Mode) (text behind : List UInt8) : Prop :=
  ∀ more, mode.NoneBefore text.length (text ++ (behind ++ more))

theorem settled_nil (mode : Mode) (behind : List UInt8) : mode.Settled [] behind :=
  fun _ _ below => absurd below (Nat.not_lt_zero _)

/-- More bytes behind settled text leave it settled. -/
theorem Settled.append_behind {mode : Mode} {text behind : List UInt8}
    (settled : mode.Settled text behind) (data : List UInt8) :
    mode.Settled text (behind ++ data) := by
  intro more
  rw [List.append_assoc]
  exact settled (data ++ more)

/-- The search passes over settled text. -/
theorem Settled.find?_append {mode : Mode} {text behind : List UInt8}
    (settled : mode.Settled text behind) (more : List UInt8) :
    mode.find? (text ++ (behind ++ more)) =
      (mode.find? (behind ++ more)).map fun found => (text.length + found.1, found.2) := by
  rw [find?_of_noneBefore (settled more), List.drop_left]

/-- If no delimiter stands in the bytes behind settled text, then as many of them as
`settledLength` says are settled too. -/
theorem settled_behind {mode : Mode} {text behind : List UInt8}
    (settled : mode.Settled text behind) (missing : mode.find? behind = none) :
    mode.Settled (text ++ behind.take (mode.settledLength behind))
      (behind.drop (mode.settledLength behind)) := by
  have bound := mode.settledLength_le behind
  intro more index below
  rw [List.append_assoc, ← List.append_assoc (behind.take _), List.take_append_drop]
  rw [List.length_append, List.length_take, Nat.min_eq_left bound] at below
  by_cases front : index < text.length
  · exact settled more index front
  have unformed := (find?_eq_none_iff _ _).mp missing (index - text.length)
  rw [List.drop_append, List.drop_eq_nil_of_le (by omega), List.nil_append,
    List.drop_append_of_le_length (by omega)]
  match split : behind.drop (index - text.length) with
  | [] =>
      have length := congrArg List.length split
      simp only [List.length_drop, List.length_nil] at length
      omega
  | [byte] =>
      -- The last byte behind the text is settled only if it cannot start a delimiter.
      have length := congrArg List.length split
      simp only [List.length_drop, List.length_cons, List.length_nil] at length
      have last : behind.getLast? = some byte := by
        rw [List.getLast?_eq_getElem?, show behind.length - 1 = index - text.length by omega,
          ← List.head?_drop, split, List.head?_cons]
      have other : byte ≠ mode.lead := by
        intro lead
        rw [settledLength, if_pos (by rw [last, lead])] at below
        omega
      cases more with
      | nil => rfl
      | cons second more => exact formed?_of_ne_lead other second
  | first :: second :: rest =>
      rw [split] at unformed
      exact unformed

end Mode

end TemplateLexer
