import HubDevice.Bytes
import HubDevice.Error

set_option autoImplicit false

/-!
# Bodies of JSON strings

A body is what stands between the quotes. `bodyLength` finds the closing quote and refuses illegal
escapes and raw control bytes; it accepts unpaired surrogate escapes, which `unescape` then refuses.
`quoted` writes text as a string, byte for byte.
-/
namespace HubDevice.StringBody

def quote : UInt8 := '"'.toUInt8

def backslash : UInt8 := '\\'.toUInt8

def shortEscape? (b : UInt8) : Option UInt8 :=
  if b = quote || b = backslash || b = '/'.toUInt8 then some b
  else if b = 'b'.toUInt8 then some 8
  else if b = 'f'.toUInt8 then some 12
  else if b = 'n'.toUInt8 then some 10
  else if b = 'r'.toUInt8 then some 13
  else if b = 't'.toUInt8 then some 9
  else none

def escapeLength : Bytes → Except JsonError Nat
  | [] => .error .unexpectedEnd
  | b :: s =>
    if b = 'u'.toUInt8 then
      if s.length < 4 then .error .unexpectedEnd
      else if (s.take 4).all isHexDigit then .ok 5
      else .error .invalidEscape
    else if (shortEscape? b).isSome then .ok 1
    else .error .invalidEscape

def bodyLength (s : Bytes) : Except JsonError Nat :=
  match s with
  | [] => .error .unexpectedEnd
  | b :: rest =>
    if b = quote then .ok 0
    else if b = backslash then
      match escapeLength rest with
      | .error e => .error e
      | .ok n => (bodyLength (rest.drop n)).map (· + (n + 1))
    else if b < 0x20 then .error .unexpectedChar
    else (bodyLength rest).map (· + 1)
termination_by s.length

/-- Takes a string off, `s` being what follows the opening quote. -/
def scan (s : Bytes) : Except JsonError (Bytes × Bytes) :=
  match bodyLength s with
  | .error e => .error e
  | .ok n =>
    if (text? (s.take n)).isSome then .ok (s.take n, s.drop (n + 1)) else .error .invalidUtf8

def codeUnit? : Bytes → Option Nat
  | a :: b :: c :: d :: _ =>
    if [a, b, c, d].all isHexDigit then
      some (((hexValue a * 16 + hexValue b) * 16 + hexValue c) * 16 + hexValue d)
    else none
  | _ => none

def isHighSurrogate (u : Nat) : Bool := 0xD800 ≤ u && u < 0xDC00

def isLowSurrogate (u : Nat) : Bool := 0xDC00 ≤ u && u < 0xE000

def unitEscape? : Bytes → Option Nat
  | b :: u :: s => if b = backslash && u = 'u'.toUInt8 then codeUnit? s else none
  | _ => none

def escape? : Bytes → Option (Bytes × Nat)
  | [] => none
  | b :: s =>
    if b = 'u'.toUInt8 then
      match codeUnit? s with
      | none => none
      | some high =>
        if isHighSurrogate high then
          match unitEscape? (s.drop 4) with
          | none => none
          | some low =>
            if isLowSurrogate low then
              some (String.utf8EncodeChar
                (Char.ofNat (0x10000 + (high - 0xD800) * 0x400 + (low - 0xDC00))), 11)
            else none
        else if isLowSurrogate high then none
        else some (String.utf8EncodeChar (Char.ofNat high), 5)
    else (shortEscape? b).map fun c => ([c], 1)

/-- The bytes a body stands for, up to the first escape that stands for nothing; the flag tells
whether there is none. -/
def unescape (s : Bytes) : Bytes × Bool :=
  match s with
  | [] => ([], true)
  | b :: rest =>
    if b = backslash then
      match escape? rest with
      | none => ([], false)
      | some (out, n) =>
        let more := unescape (rest.drop n)
        (out ++ more.1, more.2)
    else
      let more := unescape rest
      (b :: more.1, more.2)
termination_by s.length

/-- The written form of one byte of a string; `digit` chooses the case of a control code. -/
def quoteByte (digit : Nat → UInt8) (b : UInt8) : Bytes :=
  if b = quote then [backslash, quote]
  else if b = backslash then [backslash, backslash]
  else if b = 10 then [backslash, 'n'.toUInt8]
  else if b = 13 then [backslash, 'r'.toUInt8]
  else if b = 9 then [backslash, 't'.toUInt8]
  else if b = 8 then [backslash, 'b'.toUInt8]
  else if b = 12 then [backslash, 'f'.toUInt8]
  else if b < 0x20 then
    [backslash, 'u'.toUInt8, '0'.toUInt8, '0'.toUInt8, digit (b.toNat / 16),
      digit (b.toNat % 16)]
  else [b]

def quoted (s : String) : List Bytes := [quote] :: (utf8 s).map (quoteByte hexDigitLower) ++ [[quote]]

theorem length_scan {s body rest : Bytes} (h : scan s = .ok (body, rest)) :
    rest.length ≤ s.length := by
  unfold scan at h
  split at h
  · cases h
  · split at h <;> simp only [Except.ok.injEq, Prod.mk.injEq, reduceCtorEq] at h
    simp [← h.2]

end HubDevice.StringBody
