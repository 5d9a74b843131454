import HubDevice.Bytes

set_option autoImplicit false

namespace HubDevice.Percent

def isUnreserved (b : UInt8) : Bool :=
  isDigit b || ('a'.toUInt8 ≤ b && b ≤ 'z'.toUInt8) || ('A'.toUInt8 ≤ b && b ≤ 'Z'.toUInt8) ||
    b == '-'.toUInt8 || b == '_'.toUInt8 || b == '.'.toUInt8 || b == '~'.toUInt8

def encodeByte (b : UInt8) : Bytes :=
  if isUnreserved b then [b]
  else ['%'.toUInt8, hexDigitUpper (b.toNat / 16), hexDigitUpper (b.toNat % 16)]

def chunks (b : Bytes) : List Bytes := b.map encodeByte

def encode (b : Bytes) : Bytes := b.flatMap encodeByte

/-- Reads `%XX` triples back; a `%` that starts no triple is refused. -/
def decode? : Bytes → Option Bytes
  | [] => some []
  | b :: rest =>
    if b = '%'.toUInt8 then
      match rest with
      | high :: low :: more =>
        if isHexDigit high && isHexDigit low then
          (decode? more).map ((16 * hexValue high + hexValue low).toUInt8 :: ·)
        else none
      | _ => none
    else (decode? rest).map (b :: ·)

theorem flatten_chunks (b : Bytes) : (chunks b).flatten = encode b := by
  simp [chunks, encode, List.flatMap_def]

end HubDevice.Percent
