import HubDevice.Bytes
import HubDevice.Error

set_option autoImplicit false

namespace HubDevice.Base64

def symbol (n : Nat) : UInt8 :=
  if n < 26 then (65 + n).toUInt8
  else if n < 52 then (71 + n).toUInt8
  else if n < 62 then (n - 4).toUInt8
  else if n = 62 then '+'.toUInt8
  else '/'.toUInt8

def value? (b : UInt8) : Option Nat :=
  let n := b.toNat
  if 65 ≤ n && n ≤ 90 then some (n - 65)
  else if 97 ≤ n && n ≤ 122 then some (n - 71)
  else if 48 ≤ n && n ≤ 57 then some (n + 4)
  else if b = '+'.toUInt8 then some 62
  else if b = '/'.toUInt8 then some 63
  else none

def pad : UInt8 := '='.toUInt8

def encode : Bytes → Bytes
  | [] => []
  | [a] => [symbol (a.toNat / 4), symbol (a.toNat % 4 * 16), pad, pad]
  | [a, b] =>
    [symbol (a.toNat / 4), symbol (a.toNat % 4 * 16 + b.toNat / 16), symbol (b.toNat % 16 * 4), pad]
  | a :: b :: c :: rest =>
    symbol (a.toNat / 4) :: symbol (a.toNat % 4 * 16 + b.toNat / 16) ::
      symbol (b.toNat % 16 * 4 + c.toNat / 64) :: symbol (c.toNat % 64) :: encode rest

def whole? (a b c d : UInt8) : Option Bytes := do
  let w ← value? a
  let x ← value? b
  let y ← value? c
  let z ← value? d
  return [(w * 4 + x / 16).toUInt8, (x % 16 * 16 + y / 4).toUInt8, (y % 4 * 64 + z).toUInt8]

def last? (a b c d : UInt8) : Option Bytes :=
  if d ≠ pad then whole? a b c d
  else if c ≠ pad then do
    let w ← value? a
    let x ← value? b
    let y ← value? c
    if y % 4 = 0 then some [(w * 4 + x / 16).toUInt8, (x % 16 * 16 + y / 4).toUInt8] else none
  else do
    let w ← value? a
    let x ← value? b
    if x % 16 = 0 then some [(w * 4 + x / 16).toUInt8] else none

def decode? : Bytes → Option Bytes
  | [] => some []
  | [a, b, c, d] => last? a b c d
  | a :: b :: c :: d :: rest => do
    let first ← whole? a b c d
    let more ← decode? rest
    return first ++ more
  | _ => none

def padding (text : Bytes) : Nat := (text.drop (text.length - 2)).count pad

/-- The length that the text promises, before its bytes are looked at. -/
def promised (text : Bytes) : Nat := (text.length - padding text) * 3 / 4

def encodeInto (capacity : Nat) (b : Bytes) : Except Error Bytes :=
  let text := encode b
  if text.length ≤ capacity then .ok text else .error .bufferTooSmall

/-- Decodes into a buffer of the given capacity. Want of room is noticed before a bad byte, but
after a bad length. -/
def decodeInto (capacity : Nat) (text : Bytes) : Except Error Bytes :=
  if text.length % 4 ≠ 0 then .error .invalidArgument
  else if capacity < promised text then .error .bufferTooSmall
  else
    match decode? text with
    | some b => .ok b
    | none => .error .invalidArgument

end HubDevice.Base64
