set_option autoImplicit false

namespace HubDevice

abbrev Bytes := List UInt8

def utf8 (s : String) : Bytes := s.toList.flatMap String.utf8EncodeChar

def text? (b : Bytes) : Option String := String.fromUTF8? b.toByteArray

/-- The text of `b`, or the empty text where `b` is not valid UTF-8. -/
def textOrEmpty (b : Bytes) : String := (text? b).getD ""

def isDigit (b : UInt8) : Bool := '0'.toUInt8 ≤ b && b ≤ '9'.toUInt8

def isHexDigit (b : UInt8) : Bool :=
  isDigit b || ('a'.toUInt8 ≤ b && b ≤ 'f'.toUInt8) || ('A'.toUInt8 ≤ b && b ≤ 'F'.toUInt8)

/-- The value of a hexadecimal digit; other bytes count as zero. -/
def hexValue (b : UInt8) : Nat :=
  if isDigit b then b.toNat - 48
  else if 'a'.toUInt8 ≤ b && b ≤ 'f'.toUInt8 then b.toNat - 87
  else if 'A'.toUInt8 ≤ b && b ≤ 'F'.toUInt8 then b.toNat - 55
  else 0

def hexDigitLower (n : Nat) : UInt8 :=
  if n < 10 then (48 + n).toUInt8 else (87 + n).toUInt8

def hexDigitUpper (n : Nat) : UInt8 :=
  if n < 10 then (48 + n).toUInt8 else (55 + n).toUInt8

def bigEndian (w : UInt16) : Bytes := [(w >>> 8).toUInt8, w.toUInt8]

def ofBigEndian (high low : UInt8) : UInt16 := (high.toUInt16 <<< 8) ||| low.toUInt16

theorem utf8_append (s t : String) : utf8 (s ++ t) = utf8 s ++ utf8 t := by
  simp [utf8]

theorem utf8_toByteArray (s : String) : (utf8 s).toByteArray = s.toByteArray := by
  have h := s.utf8Encode_toList
  simpa [utf8, List.utf8Encode] using h

theorem text?_utf8 (s : String) : text? (utf8 s) = some s := by
  simp [text?, utf8_toByteArray, String.fromUTF8?, String.fromUTF8, s.isValidUTF8]

theorem text?_eq_some_iff {b : Bytes} {t : String} : text? b = some t ↔ utf8 t = b := by
  constructor
  · intro h
    unfold text? String.fromUTF8? at h
    split at h
    · injection h with h
      have hbytes : (utf8 t).toByteArray = b.toByteArray := by
        rw [utf8_toByteArray, ← h, String.fromUTF8]
      rw [← List.toList_data_toByteArray (l := utf8 t), hbytes, List.toList_data_toByteArray]
    · cases h
  · rintro rfl
    exact text?_utf8 t

theorem utf8_injective {s t : String} (h : utf8 s = utf8 t) : s = t := by
  have hs := text?_utf8 s
  rw [h, text?_utf8] at hs
  exact (Option.some.inj hs).symm

theorem toNat_ofBigEndian (high low : UInt8) :
    (ofBigEndian high low).toNat = high.toNat * 256 + low.toNat := by
  have hhigh := high.toNat_lt
  have hlow := low.toNat_lt
  have hshift : (8 : UInt16).toNat % 16 = 8 := rfl
  rw [ofBigEndian, UInt16.toNat_or, UInt16.toNat_shiftLeft, UInt8.toNat_toUInt16,
    UInt8.toNat_toUInt16, hshift, Nat.shiftLeft_eq, Nat.mod_eq_of_lt (by omega),
    ← Nat.shiftLeft_eq, ← Nat.shiftLeft_add_eq_or_of_lt (by omega), Nat.shiftLeft_eq]

theorem toNat_high (w : UInt16) : (w >>> 8).toUInt8.toNat = w.toNat / 256 := by
  have hw := w.toNat_lt
  have hshift : (8 : UInt16).toNat % 16 = 8 := rfl
  rw [UInt16.toNat_toUInt8, UInt16.toNat_shiftRight, hshift, Nat.shiftRight_eq_div_pow]
  omega

theorem ofBigEndian_bigEndian (w : UInt16) : ofBigEndian (w >>> 8).toUInt8 w.toUInt8 = w := by
  apply UInt16.toNat_inj.1
  rw [toNat_ofBigEndian, toNat_high, UInt16.toNat_toUInt8]
  omega

theorem bigEndian_ofBigEndian (high low : UInt8) :
    bigEndian (ofBigEndian high low) = [high, low] := by
  have hlow := low.toNat_lt
  have hw := toNat_ofBigEndian high low
  have hfirst : (ofBigEndian high low >>> 8).toUInt8 = high := by
    apply UInt8.toNat_inj.1
    rw [toNat_high, hw]
    omega
  have hsecond : (ofBigEndian high low).toUInt8 = low := by
    apply UInt8.toNat_inj.1
    rw [UInt16.toNat_toUInt8, hw]
    omega
  rw [bigEndian, hfirst, hsecond]

end HubDevice
