import HubDevice.Json.Cursor

set_option autoImplicit false

namespace HubDevice

structure Word where
  lowest : Int
  highest : Int
  deriving DecidableEq, Repr

namespace Word

def signed32 : Word := ⟨Int32.minValue.toInt, Int32.maxValue.toInt⟩

def unsigned32 : Word := ⟨0, UInt32.size - 1⟩

def Holds (w : Word) (v : Int) : Prop := w.lowest ≤ v ∧ v ≤ w.highest

instance (w : Word) (v : Int) : Decidable (w.Holds v) :=
  inferInstanceAs (Decidable (w.lowest ≤ v ∧ v ≤ w.highest))

/-- What a machine finds when it computes `v`: nothing if the word overflows. -/
def checked (w : Word) (v : Int) : Option Int := if w.Holds v then some v else none

/-- Takes one more digit in, away from zero. -/
def push (w : Word) (negative : Bool) (v : Int) (b : UInt8) : Option Int :=
  if isDigit b then do
    let tenfold ← w.checked (10 * v)
    let digit := b.toNat - '0'.toNat
    w.checked (if negative then tenfold - digit else tenfold + digit)
  else none

def digits (w : Word) (negative : Bool) (s : Bytes) : Option Int :=
  if s = [] then none else s.foldlM (w.push negative) 0

def read (w : Word) : Bytes → Option Int
  | [] => none
  | b :: s =>
    if b = '+'.toUInt8 then w.digits false s
    else if b = '-'.toUInt8 && w.lowest < 0 then w.digits true s
    else w.digits false (b :: s)

end Word

namespace Cursor

def integer (c : Cursor) (w : Word) : Except Error Int :=
  if c.kind ≠ .number then .error (.json .unexpectedToken)
  else
    match text? c.slice with
    | none => .error (.json .invalidUtf8)
    | some _ =>
      match w.read c.slice with
      | some v => .ok v
      | none => .error (.json .invalidNumber)

def int32 (c : Cursor) : Except Error Int32 := (c.integer .signed32).map Int32.ofInt

def uint32 (c : Cursor) : Except Error UInt32 :=
  (c.integer .unsigned32).map fun v => v.toNat.toUInt32

end Cursor

end HubDevice
