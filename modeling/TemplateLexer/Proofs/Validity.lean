import Mathlib.Data.List.Forall2
import Mathlib.Tactic.SplitIfs
import TemplateLexer.Utf8

namespace TemplateLexer.Utf8

/-- Bytes are valid if they encode a text. -/
def Valid (bytes : List UInt8) : Prop := bytes.toByteArray.IsValidUTF8

/-- Bytes are valid so far if other bytes can follow them so that the whole is valid. -/
def ValidSoFar (bytes : List UInt8) : Prop := ∃ more, Valid (bytes ++ more)

/-- The fault stands behind the longest valid prefix. It has no length if all bytes behind that
prefix are valid so far; otherwise it covers the longest part of them that is, and at least one
byte. -/
structure FirstFault (bytes : List UInt8) (fault : Fault) : Prop where
  within : fault.validLength < bytes.length
  valid : Valid (bytes.take fault.validLength)
  longest : ∀ length, length ≤ bytes.length → Valid (bytes.take length) →
    length ≤ fault.validLength
  incomplete : fault.errorLength = none → ValidSoFar (bytes.drop fault.validLength)
  broken : ∀ length, fault.errorLength = some length →
    0 < length ∧ ¬ ValidSoFar ((bytes.drop fault.validLength).take (length + 1)) ∧
      (1 < length → ValidSoFar ((bytes.drop fault.validLength).take length))

instance (bytes : List UInt8) : Decidable (Valid bytes) :=
  inferInstanceAs (Decidable (ByteArray.IsValidUTF8 _))

theorem valid_encode (text : String) : Valid (encode text) := by
  have same : (encode text).toByteArray = text.toByteArray := by
    apply ByteArray.ext
    simp [encode]
  rw [Valid, same]
  exact text.isValidUTF8

theorem valid_iff_exists_encode {bytes : List UInt8} :
    Valid bytes ↔ ∃ text, encode text = bytes := by
  constructor
  · intro valid
    exact ⟨String.fromUTF8 bytes.toByteArray valid, by simp [encode, String.fromUTF8]⟩
  · rintro ⟨text, rfl⟩
    exact valid_encode text

theorem Valid.append {first second : List UInt8} (left : Valid first) (right : Valid second) :
    Valid (first ++ second) := by
  rw [Valid, List.toByteArray_append]
  exact ByteArray.IsValidUTF8.append left right

theorem ValidSoFar.of_append {bytes more : List UInt8} (sound : ValidSoFar (bytes ++ more)) :
    ValidSoFar bytes := by
  obtain ⟨others, valid⟩ := sound
  exact ⟨more ++ others, by rwa [← List.append_assoc]⟩

theorem ValidSoFar.take {bytes : List UInt8} (sound : ValidSoFar bytes) (length : Nat) :
    ValidSoFar (bytes.take length) := by
  rw [← List.take_append_drop length bytes] at sound
  exact sound.of_append

theorem ValidSoFar.take_of_le {bytes : List UInt8} {shorter longer : Nat}
    (sound : ValidSoFar (bytes.take longer)) (le : shorter ≤ longer) :
    ValidSoFar (bytes.take shorter) := by
  have prefixed := sound.take shorter
  rwa [List.take_take, Nat.min_eq_left le] at prefixed

/-- Bytes have at most one first fault. -/
theorem FirstFault.unique {bytes : List UInt8} {first second : Fault}
    (left : FirstFault bytes first) (right : FirstFault bytes second) : first = second := by
  have length : first.validLength = second.validLength := by
    apply Nat.le_antisymm
    · exact right.longest _ (Nat.le_of_lt left.within) left.valid
    · exact left.longest _ (Nat.le_of_lt right.within) right.valid
  obtain ⟨validLength, errorLength⟩ := first
  obtain ⟨validLength', errorLength'⟩ := second
  subst length
  congr
  match errorLength, errorLength' with
  | none, none => rfl
  | none, some length =>
      exact absurd ((left.incomplete rfl).take _) (right.broken length rfl).2.1
  | some length, none =>
      exact absurd ((right.incomplete rfl).take _) (left.broken length rfl).2.1
  | some length, some length' =>
      obtain ⟨positive, stuck, going⟩ := left.broken length rfl
      obtain ⟨positive', stuck', going'⟩ := right.broken length' rfl
      congr
      rcases Nat.lt_trichotomy length length' with below | same | above
      · exact absurd ((going' (by omega)).take_of_le below) stuck
      · exact same
      · exact absurd ((going (by omega)).take_of_le above) stuck'

/-- A byte range holds bytes that can continue a character, and at least one. -/
structure ByteRange.Continues (range : ByteRange) : Prop where
  above : 0x80 ≤ range.low
  filled : range.low ≤ range.high

instance (range : ByteRange) : Decidable range.Continues :=
  decidable_of_iff (0x80 ≤ range.low ∧ range.low ≤ range.high)
    ⟨fun both => ⟨both.1, both.2⟩, fun range => ⟨range.above, range.filled⟩⟩

theorem continues_of_following? {byte : UInt8} {expected : List ByteRange}
    (chosen : following? byte = some expected) : ∀ range ∈ expected, range.Continues := by
  unfold following? at chosen
  split_ifs at chosen <;> cases chosen <;> decide

theorem following?_ascii {byte : UInt8} (ascii : byte < 0x80) : following? byte = some [] := by
  rw [following?, if_pos ascii]

/-- The bytes lie in the ranges, one in each. -/
def Fills (ranges : List ByteRange) (bytes : List UInt8) : Prop :=
  List.Forall₂ (fun range byte => range.contains byte = true) ranges bytes

theorem ByteRange.contains_of_bounds {range : ByteRange} {byte : UInt8}
    (low : range.low.toNat ≤ byte.toNat) (high : byte.toNat ≤ range.high.toNat) :
    range.contains byte = true := by
  simp [ByteRange.contains, UInt8.le_iff_toNat_le, low, high]

theorem toNat_ofNat_of_lt {value : Nat} (small : value < 256) :
    (UInt8.ofNat value).toNat = value := by
  rw [UInt8.toNat_ofNat']
  exact Nat.mod_eq_of_lt small

/-- A byte of a value between the ends of a range goes before bytes that fill the others. -/
theorem Fills.cons_ofNat {range : ByteRange} {value : Nat} (small : value < 256)
    (low : range.low.toNat ≤ value) (high : value ≤ range.high.toNat)
    {ranges : List ByteRange} {bytes : List UInt8} (others : Fills ranges bytes) :
    Fills (range :: ranges) (UInt8.ofNat value :: bytes) := by
  have same := toNat_ofNat_of_lt small
  apply List.Forall₂.cons
  · apply ByteRange.contains_of_bounds
    · rw [same]
      exact low
    · rw [same]
      exact high
  · exact others

theorem Fills.cons_continuation {value : Nat} (low : 0x80 ≤ value) (high : value ≤ 0xBF)
    {ranges : List ByteRange} {bytes : List UInt8} (others : Fills ranges bytes) :
    Fills (continuation :: ranges) (UInt8.ofNat value :: bytes) :=
  others.cons_ofNat (by omega) low high

/-- The first byte of a character of two bytes expects one byte more. -/
theorem following?_two {byte : UInt8} (low : 0xC2 ≤ byte.toNat) (high : byte.toNat < 0xE0) :
    following? byte = some [continuation] := by
  unfold following?
  simp only [UInt8.lt_iff_toNat_lt, UInt8.reduceToNat]
  rw [if_neg (by omega), if_neg (by omega), if_pos high]

/-- The first byte of a character of three bytes narrows the second one at both ends. -/
theorem following?_three (byte : UInt8) (low : 0xE0 ≤ byte.toNat) (high : byte.toNat < 0xF0) :
    ∃ second, following? byte = some [second, continuation] ∧
      second.low.toNat = (if byte.toNat = 0xE0 then 0xA0 else 0x80) ∧
      second.high.toNat = (if byte.toNat = 0xED then 0x9F else 0xBF) := by
  unfold following?
  simp only [UInt8.lt_iff_toNat_lt, ← UInt8.toNat_inj, UInt8.reduceToNat]
  rw [if_neg (by omega), if_neg (by omega), if_neg (by omega)]
  by_cases first : byte.toNat = 0xE0
  · exact ⟨⟨0xA0, 0xBF⟩, by simp [first]⟩
  by_cases surrogate : byte.toNat = 0xED
  · exact ⟨⟨0x80, 0x9F⟩, by simp [surrogate]⟩
  · exact ⟨continuation, by simp [first, surrogate, high, continuation]⟩

/-- The first byte of a character of four bytes narrows the second one at both ends. -/
theorem following?_four (byte : UInt8) (low : 0xF0 ≤ byte.toNat) (high : byte.toNat ≤ 0xF4) :
    ∃ second, following? byte = some [second, continuation, continuation] ∧
      second.low.toNat = (if byte.toNat = 0xF0 then 0x90 else 0x80) ∧
      second.high.toNat = (if byte.toNat = 0xF4 then 0x8F else 0xBF) := by
  unfold following?
  simp only [UInt8.lt_iff_toNat_lt, ← UInt8.toNat_inj, UInt8.reduceToNat]
  rw [if_neg (by omega), if_neg (by omega), if_neg (by omega), if_neg (by omega),
    if_neg (by omega), if_neg (by omega)]
  by_cases first : byte.toNat = 0xF0
  · exact ⟨⟨0x90, 0xBF⟩, by simp [first]⟩
  by_cases last : byte.toNat = 0xF4
  · exact ⟨⟨0x80, 0x8F⟩, by simp [last]⟩
  · exact ⟨continuation, by simp [first, last, continuation]; omega⟩

/-- The encoding of a character is a byte that starts it and the bytes which that byte expects. -/
theorem exists_fills_of_character (character : Char) :
    ∃ first rest expected, String.utf8EncodeChar character = first :: rest ∧
      following? first = some expected ∧ Fills expected rest := by
  have scalar : character.val.toNat.isValidChar := character.valid
  unfold String.utf8EncodeChar
  generalize character.val.toNat = value at scalar
  simp only [Nat.isValidChar] at scalar
  simp only []
  split_ifs with one two three
  · have first := toNat_ofNat_of_lt (show value < 256 by omega)
    have ascii : UInt8.ofNat value < 0x80 := by
      rw [UInt8.lt_iff_toNat_lt, first]
      exact Nat.lt_succ_of_le one
    exact ⟨_, _, [], rfl, following?_ascii ascii, .nil⟩
  · have first := toNat_ofNat_of_lt (show value / 64 % 32 + 192 < 256 by omega)
    have last : Fills [continuation] [UInt8.ofNat (value % 64 + 128)] :=
      .cons_continuation (by omega) (by omega) .nil
    exact ⟨_, _, _, rfl, following?_two (by omega) (by omega), last⟩
  · have first := toNat_ofNat_of_lt (show value / 4096 % 16 + 224 < 256 by omega)
    have last : Fills [continuation] [UInt8.ofNat (value % 64 + 128)] :=
      .cons_continuation (by omega) (by omega) .nil
    obtain ⟨range, chosen, low, high⟩ := following?_three
      (UInt8.ofNat (value / 4096 % 16 + 224)) (by omega) (by omega)
    have above : range.low.toNat ≤ value / 64 % 64 + 128 := by
      rw [low]
      split_ifs <;> omega
    have below : value / 64 % 64 + 128 ≤ range.high.toNat := by
      rw [high]
      split_ifs <;> omega
    exact ⟨_, _, _, rfl, chosen, last.cons_ofNat (by omega) above below⟩
  · have first := toNat_ofNat_of_lt (show value / 262144 % 8 + 240 < 256 by omega)
    have last : Fills [continuation, continuation]
        [UInt8.ofNat (value / 64 % 64 + 128), UInt8.ofNat (value % 64 + 128)] :=
      .cons_continuation (by omega) (by omega) (.cons_continuation (by omega) (by omega) .nil)
    obtain ⟨range, chosen, low, high⟩ := following?_four
      (UInt8.ofNat (value / 262144 % 8 + 240)) (by omega) (by omega)
    have above : range.low.toNat ≤ value / 4096 % 64 + 128 := by
      rw [low]
      split_ifs <;> omega
    have below : value / 4096 % 64 + 128 ≤ range.high.toNat := by
      rw [high]
      split_ifs <;> omega
    exact ⟨_, _, _, rfl, chosen, last.cons_ofNat (by omega) above below⟩

theorem faultFrom_of_fills {start taken : Nat} {expected : List ByteRange} {bytes : List UInt8}
    (fills : Fills expected bytes) (rest : List UInt8) :
    faultFrom start taken expected (bytes ++ rest) =
      faultFrom start (taken + bytes.length) [] rest := by
  induction fills generalizing taken with
  | nil => simp
  | cons inside others ih =>
      rw [List.cons_append, faultFrom, if_pos inside, ih, List.length_cons, Nat.add_right_comm,
        Nat.add_assoc]

theorem faultFrom_cons {start taken : Nat} {byte : UInt8} {expected : List ByteRange}
    (chosen : following? byte = some expected) (rest : List UInt8) :
    faultFrom start taken [] (byte :: rest) = faultFrom (start + taken) 1 expected rest := by
  simp only [faultFrom, chosen]

theorem faultFrom_encoding (start taken : Nat) (characters : List Char) :
    faultFrom start taken [] (characters.flatMap String.utf8EncodeChar) = none := by
  induction characters generalizing start taken with
  | nil => rfl
  | cons character characters ih =>
      obtain ⟨first, rest, expected, encoding, chosen, fills⟩ := exists_fills_of_character character
      rw [List.flatMap_cons, encoding, List.cons_append, faultFrom_cons chosen,
        faultFrom_of_fills fills, ih]

/-- The checker finds no fault in exactly the valid bytes, wherever it starts. -/
theorem faultFrom_eq_none_iff (start taken : Nat) {bytes : List UInt8} :
    faultFrom start taken [] bytes = none ↔ Valid bytes := by
  constructor
  · exact isValidUTF8_of_faultFrom
  · intro valid
    obtain ⟨characters, same⟩ := valid
    have equal : bytes = characters.flatMap String.utf8EncodeChar := by
      have data := congrArg (fun array => array.data.toList) same
      simpa [List.utf8Encode] using data
    rw [equal]
    exact faultFrom_encoding start taken characters

/-- Bytes have no fault if and only if they are valid. -/
theorem fault?_eq_none_iff {bytes : List UInt8} : fault? bytes = none ↔ Valid bytes :=
  faultFrom_eq_none_iff 0 0

/-- A fault does not stand before the character that the checker is in. -/
theorem le_validLength_of_faultFrom {start taken : Nat} {expected : List ByteRange}
    {bytes : List UInt8} {fault : Fault}
    (found : faultFrom start taken expected bytes = some fault) :
    start ≤ fault.validLength ∧ (expected = [] → start + taken ≤ fault.validLength) := by
  fun_induction faultFrom start taken expected bytes with
  | case1 => contradiction
  | case2 => cases found; simp
  | case3 => cases found; simp
  | case4 start taken byte rest expected chosen ih =>
      have below := (ih found).1
      exact ⟨by omega, fun _ => below⟩
  | case5 start taken range expected byte rest inside ih => exact ⟨(ih found).1, nofun⟩
  | case6 => cases found; simp

/-- No fault stands before a character that is complete. -/
theorem faultFrom_ne_some {start taken : Nat} {bytes : List UInt8} {errorLength : Option Nat}
    (positive : 0 < taken) : faultFrom start taken [] bytes ≠ some ⟨start, errorLength⟩ := by
  intro found
  have late : start + taken ≤ start := (le_validLength_of_faultFrom found).2 rfl
  omega

/-- Behind valid bytes the checker starts anew. -/
theorem faultFrom_append_of_none {start taken : Nat} {expected : List ByteRange}
    {bytes : List UInt8} (sound : faultFrom start taken expected bytes = none)
    (more : List UInt8) :
    faultFrom start taken expected (bytes ++ more) =
      faultFrom (start + taken + bytes.length) 0 [] more := by
  fun_induction faultFrom start taken expected bytes with
  | case1 start taken => cases more <;> simp [faultFrom]
  | case2 => contradiction
  | case3 => contradiction
  | case4 start taken byte rest expected chosen ih =>
      rw [List.cons_append, faultFrom_cons chosen, ih sound, List.length_cons]
      congr 1
      omega
  | case5 start taken range expected byte rest inside ih =>
      rw [List.cons_append, faultFrom, if_pos inside, ih sound, List.length_cons]
      congr 1
      omega
  | case6 => contradiction

/-- A fault that has a length stays where it is, whatever follows. -/
theorem faultFrom_append_of_broken {start taken : Nat} {expected : List ByteRange}
    {bytes : List UInt8} {validLength length : Nat}
    (found : faultFrom start taken expected bytes = some ⟨validLength, some length⟩)
    (more : List UInt8) :
    faultFrom start taken expected (bytes ++ more) = some ⟨validLength, some length⟩ := by
  fun_induction faultFrom start taken expected bytes with
  | case1 => contradiction
  | case2 => simp at found
  | case3 start taken byte rest unknown => simpa [faultFrom, unknown] using found
  | case4 start taken byte rest expected chosen ih =>
      rw [List.cons_append, faultFrom_cons chosen, ih found]
  | case5 start taken range expected byte rest inside ih =>
      rw [List.cons_append, faultFrom, if_pos inside, ih found]
  | case6 start taken range expected byte rest outside => simpa [faultFrom, outside] using found

/-- Bytes that end within a character leave the checker in it: it still expects something, and it
has taken all bytes behind the valid ones. -/
theorem faultFrom_append_of_incomplete {start taken : Nat} {expected : List ByteRange}
    {bytes : List UInt8} {validLength : Nat}
    (continues : ∀ range ∈ expected, range.Continues)
    (found : faultFrom start taken expected bytes = some ⟨validLength, none⟩) :
    ∃ range others reached, (∀ each ∈ range :: others, each.Continues) ∧
      validLength + reached = start + taken + bytes.length ∧
      ∀ more, faultFrom start taken expected (bytes ++ more) =
        faultFrom validLength reached (range :: others) more := by
  fun_induction faultFrom start taken expected bytes with
  | case1 => contradiction
  | case2 start taken range others =>
      cases found
      exact ⟨range, others, taken, continues, rfl, fun more => rfl⟩
  | case3 => simp at found
  | case4 start taken byte rest expected chosen ih =>
      obtain ⟨range, others, reached, all, place, step⟩ := ih (continues_of_following? chosen) found
      refine ⟨range, others, reached, all, ?_, ?_⟩
      · rw [place, List.length_cons]
        omega
      · intro more
        rw [List.cons_append, faultFrom_cons chosen, step]
  | case5 start taken range expected byte rest inside ih =>
      obtain ⟨next, others, reached, all, place, step⟩ :=
        ih (fun each member => continues each (List.mem_cons_of_mem _ member)) found
      refine ⟨next, others, reached, all, ?_, ?_⟩
      · rw [place, List.length_cons]
        omega
      · intro more
        rw [List.cons_append, faultFrom, if_pos inside, step]
  | case6 => simp at found

/-- The bytes before a fault have none, unless the fault is in the character that the checker
started in. -/
theorem exists_valid_prefix {start taken : Nat} {expected : List ByteRange} {bytes : List UInt8}
    {fault : Fault} (found : faultFrom start taken expected bytes = some fault) :
    fault.validLength = start ∨
      ∃ sound rest, bytes = sound ++ rest ∧
        fault.validLength = start + taken + sound.length ∧
        faultFrom start taken expected sound = none ∧
        faultFrom fault.validLength 0 [] rest = some fault := by
  fun_induction faultFrom start taken expected bytes with
  | case1 => contradiction
  | case2 => cases found; exact .inl rfl
  | case3 start taken byte rest unknown =>
      cases found
      exact .inr ⟨[], byte :: rest, rfl, rfl, rfl, by simp [faultFrom, unknown]⟩
  | case4 start taken byte rest expected chosen ih =>
      apply Or.inr
      rcases ih found with here | ⟨sound, others, split, place, valid, later⟩
      · have again : faultFrom fault.validLength 0 [] (byte :: rest) = some fault := by
          rw [faultFrom_cons chosen, here]
          exact found
        exact ⟨[], byte :: rest, rfl, here, rfl, again⟩
      · have counted : fault.validLength = start + taken + (byte :: sound).length := by
          rw [place, List.length_cons]
          omega
        have extended : faultFrom start taken [] (byte :: sound) = none := by
          rw [faultFrom_cons chosen, valid]
        exact ⟨byte :: sound, others, by rw [split, List.cons_append], counted, extended, later⟩
  | case5 start taken range expected byte rest inside ih =>
      rcases ih found with here | ⟨sound, others, split, place, valid, later⟩
      · exact .inl here
      · have counted : fault.validLength = start + taken + (byte :: sound).length := by
          rw [place, List.length_cons]
          omega
        have extended : faultFrom start taken (range :: expected) (byte :: sound) = none := by
          rw [faultFrom, if_pos inside, valid]
        exact .inr
          ⟨byte :: sound, others, by rw [split, List.cons_append], counted, extended, later⟩
  | case6 => cases found; exact .inl rfl

/-- Bytes with a fault are valid bytes and others that have the fault at their beginning. -/
theorem exists_append_of_fault? {bytes : List UInt8} {fault : Fault}
    (found : fault? bytes = some fault) :
    ∃ sound rest, bytes = sound ++ rest ∧ sound.length = fault.validLength ∧ Valid sound ∧
      faultFrom fault.validLength 0 [] rest = some fault := by
  rcases exists_valid_prefix found with start | ⟨sound, rest, split, place, valid, later⟩
  · have again : faultFrom fault.validLength 0 [] bytes = some fault := by
      rw [start]
      exact found
    exact ⟨[], bytes, rfl, start.symm, (faultFrom_eq_none_iff 0 0).mp rfl, again⟩
  · exact ⟨sound, rest, split, by omega, (faultFrom_eq_none_iff _ _).mp valid, later⟩

/-- The low ends of the ranges that the checker expects complete the character. -/
theorem faultFrom_completion {start taken : Nat} {expected : List ByteRange}
    (continues : ∀ range ∈ expected, range.Continues) :
    faultFrom start taken expected (expected.map ByteRange.low) = none := by
  induction expected generalizing taken with
  | nil => rfl
  | cons range expected ih =>
      have inside : range.contains range.low = true := by
        have filled := (continues range List.mem_cons_self).filled
        simp [ByteRange.contains, filled]
      rw [List.map_cons, faultFrom, if_pos inside]
      exact ih fun each member => continues each (List.mem_cons_of_mem _ member)

theorem validSoFar_of_incomplete (start validLength : Nat) {bytes : List UInt8}
    (found : faultFrom start 0 [] bytes = some ⟨validLength, none⟩) : ValidSoFar bytes := by
  obtain ⟨range, others, reached, continues, -, step⟩ :=
    faultFrom_append_of_incomplete (by simp) found
  apply Exists.intro ((range :: others).map ByteRange.low)
  apply (faultFrom_eq_none_iff start 0).mp
  rw [step]
  exact faultFrom_completion continues

theorem not_validSoFar_of_broken (start validLength length : Nat) {bytes : List UInt8}
    (found : faultFrom start 0 [] bytes = some ⟨validLength, some length⟩) :
    ¬ ValidSoFar bytes := by
  rintro ⟨more, valid⟩
  have sound := (faultFrom_eq_none_iff start 0).mpr valid
  rw [faultFrom_append_of_broken found more] at sound
  contradiction

/-- A fault within a character shows at the byte behind the ones it covers, and not before. -/
theorem faultFrom_take_of_broken {start taken length : Nat} {range : ByteRange}
    {expected : List ByteRange} {bytes : List UInt8}
    (found : faultFrom start taken (range :: expected) bytes = some ⟨start, some length⟩)
    (positive : 0 < taken) :
    taken ≤ length ∧
      faultFrom start taken (range :: expected) (bytes.take (length + 1 - taken)) =
        some ⟨start, some length⟩ ∧
      faultFrom start taken (range :: expected) (bytes.take (length - taken)) =
        some ⟨start, none⟩ := by
  induction bytes generalizing taken range expected with
  | nil => simp [faultFrom] at found
  | cons byte rest ih =>
      rw [faultFrom] at found
      split at found
      · next inside =>
          cases expected with
          | nil =>
              exact absurd found (faultFrom_ne_some (Nat.succ_pos taken))
          | cons next expected =>
              obtain ⟨bound, stuck, going⟩ := ih found (Nat.succ_pos taken)
              refine ⟨by omega, ?_, ?_⟩
              · rw [show length + 1 - taken = (length + 1 - (taken + 1)) + 1 by omega,
                  List.take_succ_cons, faultFrom, if_pos inside, stuck]
              · rw [show length - taken = (length - (taken + 1)) + 1 by omega,
                  List.take_succ_cons, faultFrom, if_pos inside, going]
      · next outside =>
          cases found
          refine ⟨Nat.le_refl length, ?_, ?_⟩
          · rw [Nat.add_sub_cancel_left, List.take_succ_cons, faultFrom, if_neg outside]
          · rw [Nat.sub_self, List.take_zero, faultFrom]

/-- A fault at the very beginning covers as many bytes as are valid so far, and at least one. -/
theorem broken_of_faultFrom {start length : Nat} {bytes : List UInt8}
    (found : faultFrom start 0 [] bytes = some ⟨start, some length⟩) :
    0 < length ∧ ¬ ValidSoFar (bytes.take (length + 1)) ∧
      (1 < length → ValidSoFar (bytes.take length)) := by
  cases bytes with
  | nil => simp [faultFrom] at found
  | cons byte rest =>
      cases chosen : following? byte with
      | none =>
          simp only [faultFrom, chosen, Option.some.injEq, Fault.mk.injEq] at found
          obtain ⟨-, rfl⟩ := found
          have stuck : ¬ ValidSoFar (byte :: rest.take 1) := by
            apply not_validSoFar_of_broken start start 1
            simp [faultFrom, chosen]
          exact ⟨by decide, stuck, by omega⟩
      | some expected =>
          rw [faultFrom_cons chosen, Nat.add_zero] at found
          cases expected with
          | nil =>
              exact absurd found (faultFrom_ne_some Nat.one_pos)
          | cons range expected =>
              obtain ⟨bound, stuck, going⟩ := faultFrom_take_of_broken found Nat.one_pos
              refine ⟨bound, ?_, ?_⟩
              · apply not_validSoFar_of_broken start start length
                rw [List.take_succ_cons, faultFrom_cons chosen]
                exact stuck
              · intro _
                apply validSoFar_of_incomplete start start
                rw [show length = (length - 1) + 1 by omega, List.take_succ_cons,
                  faultFrom_cons chosen]
                exact going

theorem firstFault_of_fault? {bytes : List UInt8} {fault : Fault}
    (found : fault? bytes = some fault) : FirstFault bytes fault := by
  obtain ⟨sound, rest, rfl, length, valid, later⟩ := exists_append_of_fault? found
  have front : (sound ++ rest).take fault.validLength = sound := by rw [← length, List.take_left]
  have back : (sound ++ rest).drop fault.validLength = rest := by rw [← length, List.drop_left]
  refine ⟨?_, by rwa [front], ?_, ?_, ?_⟩
  · rw [List.length_append, length]
    cases rest with
    | nil => simp [faultFrom] at later
    | cons byte rest => simp
  · intro longer within prefixed
    have continued := faultFrom_append_of_none
      ((faultFrom_eq_none_iff 0 0).mpr prefixed)
      ((sound ++ rest).drop longer)
    rw [List.take_append_drop, List.length_take, Nat.min_eq_left within] at continued
    have bound := (le_validLength_of_faultFrom (continued.symm.trans found)).1
    omega
  · intro open_
    rw [back]
    rw [show fault = ⟨fault.validLength, none⟩ by rw [← open_]] at later
    exact validSoFar_of_incomplete _ _ later
  · intro covered closed
    rw [back]
    rw [show fault = ⟨fault.validLength, some covered⟩ by rw [← closed]] at later
    exact broken_of_faultFrom later

/-- The checker finds the first fault. -/
theorem fault?_eq_some_iff {bytes : List UInt8} {fault : Fault} :
    fault? bytes = some fault ↔ FirstFault bytes fault := by
  constructor
  · exact firstFault_of_fault?
  · intro first
    cases found : fault? bytes with
    | none =>
        have valid := fault?_eq_none_iff.mp found
        have whole := first.longest bytes.length (Nat.le_refl _) (by rwa [List.take_length])
        have within := first.within
        omega
    | some other => rw [(firstFault_of_fault? found).unique first]

theorem FirstFault.not_valid {bytes : List UInt8} {fault : Fault}
    (first : FirstFault bytes fault) : ¬ Valid bytes := by
  intro valid
  rw [← fault?_eq_none_iff, fault?_eq_some_iff.mpr first] at valid
  contradiction

theorem decode_eq_ok_iff {bytes : List UInt8} {text : String} :
    decode bytes = .ok text ↔ encode text = bytes := by
  constructor
  · exact encode_of_decode
  · rintro rfl
    cases result : decode (encode text) with
    | ok other => rw [encode_injective (encode_of_decode result)]
    | error fault =>
        have faulty := fault?_eq_some_iff.mp (decode_eq_error_iff.mp result)
        exact absurd (valid_encode text) faulty.not_valid

theorem decode_eq_error_iff_firstFault {bytes : List UInt8} {fault : Fault} :
    decode bytes = .error fault ↔ FirstFault bytes fault :=
  decode_eq_error_iff.trans fault?_eq_some_iff

end TemplateLexer.Utf8
