import HubDevice.Number.Binary

set_option autoImplicit false

/-!
# Shortest decimal

Of the decimals that round to a given binary number, the one on the coarsest decimal grid is taken,
and on that grid the nearest; a tie goes to the even digit. The ends of the rounding interval count
when the significand is even.
-/
namespace HubDevice

structure DecimalPoint where
  coefficient : Nat
  exponent : Int
  deriving Repr, DecidableEq

namespace Shortest

/-- The rounding interval in quarters of the last place, scaled to `low / scale`, `high / scale`. -/
structure Interval where
  low : Nat
  middle : Nat
  high : Nat
  scale : Nat
  closed : Bool

def interval (b : Binary) : Interval :=
  let quarter := Nat.pow 2 (b.exponent - 2).toNat
  { low := (4 * b.significand - if b.atStep then 1 else 2) * quarter
    middle := 4 * b.significand * quarter
    high := (4 * b.significand + 2) * quarter
    scale := Nat.pow 2 (2 - b.exponent).toNat
    closed := b.significand % 2 == 0 }

def Interval.contains (i : Interval) (n d : Nat) : Bool :=
  if i.closed then i.low * d ≤ n * i.scale && n * i.scale ≤ i.high * d
  else i.low * d < n * i.scale && n * i.scale < i.high * d

/-- The point of the grid `10 ^ k` in the interval that is nearest to its middle. -/
def onGrid? (i : Interval) (k : Int) : Option Nat :=
  let up := Nat.pow 10 k.toNat
  let down := Nat.pow 10 (-k).toNat
  let below := i.middle * down / (i.scale * up)
  let above := below + 1
  match i.contains (below * up) down, i.contains (above * up) down with
  | true, true =>
    let twice := 2 * (i.middle * down)
    let half := (2 * below + 1) * (i.scale * up)
    if twice < half then some below
    else if half < twice then some above
    else some (below + below % 2)
  | true, false => some below
  | false, true => some above
  | false, false => none

def search (i : Interval) (fallback : DecimalPoint) : Nat → Int → DecimalPoint
  | 0, _ => fallback
  | steps + 1, k =>
    match onGrid? i k with
    | some n => ⟨n, k⟩
    | none => search i fallback steps (k - 1)

def exact (b : Binary) : DecimalPoint :=
  if b.exponent < 0 then ⟨b.significand * Nat.pow 5 (-b.exponent).toNat, b.exponent⟩
  else ⟨b.numerator, 0⟩

def decimal (b : Binary) : DecimalPoint :=
  if b.significand = 0 then ⟨0, 0⟩
  else
    let top : Nat := (Nat.toDigits 10 (b.numerator / b.denominator)).length
    search (interval b) (exact b) (top + (-b.exponent).toNat + 1) top

end Shortest

end HubDevice
