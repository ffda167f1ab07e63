namespace TemplateLexer.Utf8

/-- A range holds the bytes from its low end to its high end, both included. -/
structure ByteRange where
  low : UInt8
  high : UInt8
  deriving DecidableEq, Repr

def ByteRange.contains (range : ByteRange) (byte : UInt8) : Bool :=
  range.low ≤ byte && byte ≤ range.high

/-- The bytes that can continue a character. -/
def continuation : ByteRange := ⟨0x80, 0xBF⟩

/-- What must follow a byte that starts a character. The narrower second ranges leave out overlong
forms, surrogates and values above the last character. -/
def following? (byte : UInt8) : Option (List ByteRange) :=
  if byte < 0x80 then some []
  else if byte < 0xC2 then none
  else if byte < 0xE0 then some [continuation]
  else if byte = 0xE0 then some [⟨0xA0, 0xBF⟩, continuation]
  else if byte = 0xED then some [⟨0x80, 0x9F⟩, continuation]
  else if byte < 0xF0 then some [continuation, continuation]
  else if byte = 0xF0 then some [⟨0x90, 0xBF⟩, continuation, continuation]
  else if byte < 0xF4 then some [continuation, continuation, continuation]
  else if byte = 0xF4 then some [⟨0x80, 0x8F⟩, continuation, continuation]
  else none

/-- A fault says how many bytes before it are valid, and how many bytes are at fault. No length is
given when the bytes end within a character. -/
structure Fault where
  validLength : Nat
  errorLength : Option Nat
  deriving DecidableEq, Repr

def Fault.message (fault : Fault) : String :=
  match fault.errorLength with
  | none => "incomplete utf-8 byte sequence from index " ++ toString fault.validLength
  | some length =>
      "invalid utf-8 sequence of " ++ toString length ++ " bytes from index " ++
        toString fault.validLength

/-- The first fault after `start` valid bytes and `taken` bytes of a character that still expects
the given ranges. A character that expects nothing more is valid. -/
def faultFrom (start taken : Nat) : List ByteRange → List UInt8 → Option Fault
  | [], [] => none
  | _ :: _, [] => some ⟨start, none⟩
  | [], byte :: rest =>
      match following? byte with
      | none => some ⟨start + taken, some 1⟩
      | some expected => faultFrom (start + taken) 1 expected rest
  | range :: expected, byte :: rest =>
      if range.contains byte then faultFrom start (taken + 1) expected rest
      else some ⟨start, some taken⟩

/-- The first fault of the bytes, if they have one. -/
def fault? (bytes : List UInt8) : Option Fault := faultFrom 0 0 [] bytes

theorem of_faultFrom_cons {start taken : Nat} {range : ByteRange} {expected : List ByteRange}
    {bytes : List UInt8} (sound : faultFrom start taken (range :: expected) bytes = none) :
    ∃ byte rest, bytes = byte :: rest ∧ range.contains byte = true ∧
      faultFrom start (taken + 1) expected rest = none := by
  cases bytes with
  | nil => simp [faultFrom] at sound
  | cons byte rest =>
      simp only [faultFrom] at sound
      split at sound
      · next inside => exact ⟨byte, rest, rfl, inside, sound⟩
      · contradiction

theorem exists_encoding_of_value (value : Nat) (valid : value.isValidChar) :
    ∃ character : Char, character.val.toNat = value := by
  have small : value < 2 ^ 32 := by
    rcases valid with below | ⟨_, below⟩ <;> omega
  exact ⟨⟨UInt32.ofNatLT value small, by simpa [UInt32.isValidChar] using valid⟩, by simp⟩

theorem exists_encoding_one {first : UInt8} (ascii : first < 0x80) :
    ∃ character : Char, String.utf8EncodeChar character = [first] := by
  have bound : first.toNat < 128 := UInt8.lt_iff_toNat_lt.mp ascii
  obtain ⟨character, value⟩ := exists_encoding_of_value first.toNat (.inl (by omega))
  refine ⟨character, ?_⟩
  simp [String.utf8EncodeChar, value, show first.toNat ≤ 127 by omega]

theorem exists_encoding_two {first second : UInt8} (low : 0xC2 ≤ first.toNat)
    (high : first.toNat < 0xE0) (tail : 0x80 ≤ second.toNat ∧ second.toNat ≤ 0xBF) :
    ∃ character : Char, String.utf8EncodeChar character = [first, second] := by
  obtain ⟨character, value⟩ := exists_encoding_of_value
    ((first.toNat - 0xC0) * 64 + (second.toNat - 0x80)) (.inl (by omega))
  refine ⟨character, ?_⟩
  have above : ¬ (first.toNat - 0xC0) * 64 + (second.toNat - 0x80) ≤ 127 := by omega
  have below : (first.toNat - 0xC0) * 64 + (second.toNat - 0x80) ≤ 2047 := by omega
  simp only [String.utf8EncodeChar, value, above, below, if_true, if_false, List.cons.injEq,
    and_true, ← UInt8.toNat_inj, UInt8.toNat_ofNat']
  omega

theorem exists_encoding_three (first second third : UInt8) (low : 0xE0 ≤ first.toNat)
    (high : first.toNat < 0xF0) (notOverlong : first.toNat = 0xE0 → 0xA0 ≤ second.toNat)
    (notSurrogate : first.toNat = 0xED → second.toNat ≤ 0x9F)
    (tail : 0x80 ≤ second.toNat ∧ second.toNat ≤ 0xBF)
    (last : 0x80 ≤ third.toNat ∧ third.toNat ≤ 0xBF) :
    ∃ character : Char, String.utf8EncodeChar character = [first, second, third] := by
  obtain ⟨value, equal⟩ : ∃ value, value =
      (first.toNat - 0xE0) * 4096 + (second.toNat - 0x80) * 64 + (third.toNat - 0x80) := ⟨_, rfl⟩
  obtain ⟨character, code⟩ := exists_encoding_of_value value (by
    simp only [Nat.isValidChar]
    omega)
  refine ⟨character, ?_⟩
  have above : ¬ value ≤ 2047 := by omega
  have beyond : ¬ value ≤ 127 := by omega
  have below : value ≤ 65535 := by omega
  simp only [String.utf8EncodeChar, code, above, beyond, below, if_true, if_false,
    List.cons.injEq, and_true, ← UInt8.toNat_inj, UInt8.toNat_ofNat']
  omega

theorem exists_encoding_four (first second third fourth : UInt8) (low : 0xF0 ≤ first.toNat)
    (high : first.toNat ≤ 0xF4) (notOverlong : first.toNat = 0xF0 → 0x90 ≤ second.toNat)
    (notBeyond : first.toNat = 0xF4 → second.toNat ≤ 0x8F)
    (tail : 0x80 ≤ second.toNat ∧ second.toNat ≤ 0xBF)
    (next : 0x80 ≤ third.toNat ∧ third.toNat ≤ 0xBF)
    (last : 0x80 ≤ fourth.toNat ∧ fourth.toNat ≤ 0xBF) :
    ∃ character : Char, String.utf8EncodeChar character = [first, second, third, fourth] := by
  obtain ⟨value, equal⟩ : ∃ value, value =
      (first.toNat - 0xF0) * 262144 + (second.toNat - 0x80) * 4096 +
        (third.toNat - 0x80) * 64 + (fourth.toNat - 0x80) := ⟨_, rfl⟩
  obtain ⟨character, code⟩ := exists_encoding_of_value value (by
    simp only [Nat.isValidChar]
    omega)
  refine ⟨character, ?_⟩
  have beyond : ¬ value ≤ 127 := by omega
  have above : ¬ value ≤ 2047 := by omega
  have wide : ¬ value ≤ 65535 := by omega
  simp only [String.utf8EncodeChar, code, above, beyond, wide, if_false,
    List.cons.injEq, and_true, ← UInt8.toNat_inj, UInt8.toNat_ofNat']
  omega

theorem bounds_of_contains {range : ByteRange} {byte : UInt8}
    (inside : range.contains byte = true) :
    range.low.toNat ≤ byte.toNat ∧ byte.toNat ≤ range.high.toNat := by
  simpa [ByteRange.contains, UInt8.le_iff_toNat_le] using inside

/-- A byte that starts a character expects at most three more; the first of them is narrowed. -/
theorem following?_eq_some {byte : UInt8} {expected : List ByteRange}
    (chosen : following? byte = some expected) :
    (expected = [] ∧ byte < 0x80) ∨
    (expected = [continuation] ∧ 0xC2 ≤ byte.toNat ∧ byte.toNat < 0xE0) ∨
    (∃ second, expected = [second, continuation] ∧ 0xE0 ≤ byte.toNat ∧ byte.toNat < 0xF0 ∧
      0x80 ≤ second.low.toNat ∧ second.high.toNat ≤ 0xBF ∧
      (byte.toNat = 0xE0 → 0xA0 ≤ second.low.toNat) ∧
      (byte.toNat = 0xED → second.high.toNat ≤ 0x9F)) ∨
    (∃ second, expected = [second, continuation, continuation] ∧
      0xF0 ≤ byte.toNat ∧ byte.toNat ≤ 0xF4 ∧
      0x80 ≤ second.low.toNat ∧ second.high.toNat ≤ 0xBF ∧
      (byte.toNat = 0xF0 → 0x90 ≤ second.low.toNat) ∧
      (byte.toNat = 0xF4 → second.high.toNat ≤ 0x8F)) := by
  unfold following? at chosen
  split at chosen
  · next ascii => exact .inl ⟨(Option.some.inj chosen).symm, ascii⟩
  refine .inr ?_
  simp only [UInt8.lt_iff_toNat_lt, ← UInt8.toNat_inj, UInt8.reduceToNat] at *
  split at chosen
  · contradiction
  split at chosen
  · exact .inl ⟨(Option.some.inj chosen).symm, by omega, by omega⟩
  refine .inr ?_
  split at chosen
  · exact .inl ⟨_, (Option.some.inj chosen).symm, by omega, by omega, by decide, by decide,
      fun _ => by decide, by omega⟩
  split at chosen
  · exact .inl ⟨_, (Option.some.inj chosen).symm, by omega, by omega, by decide, by decide,
      by omega, fun _ => by decide⟩
  split at chosen
  · exact .inl ⟨_, (Option.some.inj chosen).symm, by omega, by omega, by decide, by decide,
      by omega, by omega⟩
  split at chosen
  · exact .inr ⟨_, (Option.some.inj chosen).symm, by omega, by omega, by decide, by decide,
      fun _ => by decide, by omega⟩
  split at chosen
  · exact .inr ⟨_, (Option.some.inj chosen).symm, by omega, by omega, by decide, by decide,
      by omega, by omega⟩
  split at chosen
  · exact .inr ⟨_, (Option.some.inj chosen).symm, by omega, by omega, by decide, by decide,
      by omega, fun _ => by decide⟩
  contradiction

/-- Bytes without a fault start with the encoding of a character, and the rest has no fault
either. -/
theorem exists_encoding_append {start taken : Nat} {first : UInt8} {bytes : List UInt8}
    (sound : faultFrom start taken [] (first :: bytes) = none) :
    ∃ character start' taken' rest,
      first :: bytes = String.utf8EncodeChar character ++ rest ∧
        faultFrom start' taken' [] rest = none := by
  simp only [faultFrom] at sound
  split at sound
  · contradiction
  next expected chosen =>
    rcases following?_eq_some chosen with ⟨rfl, ascii⟩ | ⟨rfl, low, high⟩ |
      ⟨range, rfl, low, high, above, below, notOverlong, notSurrogate⟩ |
      ⟨range, rfl, low, high, above, below, notOverlong, notBeyond⟩
    · obtain ⟨character, encoding⟩ := exists_encoding_one ascii
      exact ⟨character, _, _, bytes, by simp [encoding], sound⟩
    · obtain ⟨second, rest, rfl, inside, sound⟩ := of_faultFrom_cons sound
      obtain ⟨character, encoding⟩ := exists_encoding_two low high (bounds_of_contains inside)
      exact ⟨character, _, _, rest, by simp [encoding], sound⟩
    · obtain ⟨second, rest, rfl, inside, sound⟩ := of_faultFrom_cons sound
      obtain ⟨third, rest, rfl, last, sound⟩ := of_faultFrom_cons sound
      have bounds := bounds_of_contains inside
      obtain ⟨character, encoding⟩ := exists_encoding_three first second third low high
        (by omega) (by omega) (by omega) (bounds_of_contains last)
      exact ⟨character, _, _, rest, by simp [encoding], sound⟩
    · obtain ⟨second, rest, rfl, inside, sound⟩ := of_faultFrom_cons sound
      obtain ⟨third, rest, rfl, next, sound⟩ := of_faultFrom_cons sound
      obtain ⟨fourth, rest, rfl, last, sound⟩ := of_faultFrom_cons sound
      have bounds := bounds_of_contains inside
      obtain ⟨character, encoding⟩ := exists_encoding_four first second third fourth low high
        (by omega) (by omega) (by omega) (bounds_of_contains next) (bounds_of_contains last)
      exact ⟨character, _, _, rest, by simp [encoding], sound⟩

theorem isValidUTF8_of_faultFrom {start taken : Nat} {bytes : List UInt8}
    (sound : faultFrom start taken [] bytes = none) : bytes.toByteArray.IsValidUTF8 := by
  induction counted : bytes.length using Nat.strongRecOn generalizing start taken bytes with
  | ind length ih =>
      cases bytes with
      | nil => exact ByteArray.isValidUTF8_empty
      | cons first bytes =>
          obtain ⟨character, start', taken', rest, split, sound⟩ := exists_encoding_append sound
          have shorter : rest.length < length := by
            have positive := character.utf8Size_pos
            rw [← counted, split, List.length_append, String.length_utf8EncodeChar]
            omega
          rw [split, List.toByteArray_append]
          exact Char.isValidUTF8_toByteArray_utf8EncodeChar.append (ih rest.length shorter sound rfl)

theorem isValidUTF8_of_fault?_eq_none {bytes : List UInt8} (sound : fault? bytes = none) :
    bytes.toByteArray.IsValidUTF8 :=
  isValidUTF8_of_faultFrom sound

/-- The bytes of a text. -/
def encode (text : String) : List UInt8 := text.toByteArray.data.toList

/-- Bytes are read as text unless they have a fault. -/
def decode (bytes : List UInt8) : Except Fault String :=
  match found : fault? bytes with
  | some fault => .error fault
  | none => .ok (String.fromUTF8 bytes.toByteArray (isValidUTF8_of_fault?_eq_none found))

@[simp] theorem encode_empty : encode "" = [] := rfl

@[simp] theorem encode_append (first second : String) :
    encode (first ++ second) = encode first ++ encode second := by
  simp [encode]

theorem encode_injective {first second : String} (same : encode first = encode second) :
    first = second :=
  String.toByteArray_inj.mp (ByteArray.ext (Array.toList_inj.mp same))

/-- Text that was read has the bytes that it was read from. -/
theorem encode_of_decode {bytes : List UInt8} {text : String} (read : decode bytes = .ok text) :
    encode text = bytes := by
  unfold decode at read
  split at read
  · contradiction
  · cases read
    simp [encode, String.fromUTF8]

theorem decode_eq_error_iff {bytes : List UInt8} {fault : Fault} :
    decode bytes = .error fault ↔ fault? bytes = some fault := by
  unfold decode
  split <;> simp_all

end TemplateLexer.Utf8
