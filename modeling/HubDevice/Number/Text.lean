import HubDevice.Number.Shortest
import HubDevice.Text.Decimal

set_option autoImplicit false

namespace HubDevice.NumberText

def sign (negative : Bool) : Bytes := if negative then ['-'.toUInt8] else []

def zeros (n : Nat) : Bytes := List.replicate n '0'.toUInt8

def fixed (b : Binary) (places : Nat) : Bytes :=
  let scaled := roundHalfEven (b.numerator * Nat.pow 10 places) b.denominator
  let whole := Decimal.digits (scaled / Nat.pow 10 places)
  let fraction := Decimal.padded places (scaled % Nat.pow 10 places)
  sign b.negative ++ whole ++ if places = 0 then [] else '.'.toUInt8 :: fraction

def integer (n : Int) : Bytes := sign (n < 0) ++ Decimal.digits n.natAbs

def withExponent (d : DecimalPoint) : Bytes :=
  let ds := Decimal.digits d.coefficient
  let exponent := d.exponent + (ds.length - 1 : Nat)
  let mantissa :=
    match ds with
    | first :: second :: rest => first :: '.'.toUInt8 :: second :: rest
    | short => short
  mantissa ++ 'e'.toUInt8 :: integer exponent

def scientific (b : Binary) : Bytes := sign b.negative ++ withExponent (Shortest.decimal b)

/-- The two ways to lay out a number: with a count of decimal places, and with an exponent. -/
structure Layout where
  fixed : Binary → Nat → Bytes
  scientific : Binary → Bytes

namespace Layout

def rounded : Layout := ⟨NumberText.fixed, NumberText.scientific⟩

end Layout

/-- The places of the decimal point for which a number is written without an exponent. -/
structure Positional where
  highest : Int
  lowest : Int

namespace Positional

def double : Positional := ⟨16, -5⟩

def single : Positional := ⟨13, -6⟩

end Positional

/-- Whole numbers keep one zero behind the point. -/
def shortest (p : Positional) (b : Binary) : Bytes :=
  sign b.negative ++
    if b.significand = 0 then utf8 "0.0"
    else
      let d := Shortest.decimal b
      let ds := Decimal.digits d.coefficient
      let point := d.exponent + ds.length
      if 0 ≤ d.exponent && point ≤ p.highest then
        ds ++ zeros d.exponent.toNat ++ utf8 ".0"
      else if 0 < point && point ≤ p.highest then
        ds.take point.toNat ++ '.'.toUInt8 :: ds.drop point.toNat
      else if p.lowest < point && point ≤ 0 then
        utf8 "0." ++ zeros (-point).toNat ++ ds
      else withExponent d

end HubDevice.NumberText
