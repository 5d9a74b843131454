set_option autoImplicit false

namespace HubDevice

structure BinaryFormat where
  exponentBits : Nat
  fractionBits : Nat

namespace BinaryFormat

def single : BinaryFormat := ⟨8, 23⟩

def double : BinaryFormat := ⟨11, 52⟩

/-- The weight of the last place of the smallest numbers, as a power of two. -/
def lastPlace (f : BinaryFormat) : Int := 2 - Nat.pow 2 (f.exponentBits - 1) - f.fractionBits

end BinaryFormat

structure Binary where
  negative : Bool
  significand : Nat
  exponent : Int
  /-- The next number below is nearer than the next one above. -/
  atStep : Bool
  deriving Repr, DecidableEq

namespace Binary

/-- Reads the bits of a format; infinities and undefined values have no reading. -/
def ofBits? (f : BinaryFormat) (bits : Nat) : Option Binary :=
  let fraction := bits % Nat.pow 2 f.fractionBits
  let biased := bits / Nat.pow 2 f.fractionBits % Nat.pow 2 f.exponentBits
  let negative := bits / Nat.pow 2 (f.fractionBits + f.exponentBits) % 2 == 1
  if biased = Nat.pow 2 f.exponentBits - 1 then none
  else if biased = 0 then some ⟨negative, fraction, f.lastPlace, false⟩
  else
    some ⟨negative, Nat.pow 2 f.fractionBits + fraction, f.lastPlace + (biased - 1 : Nat),
      fraction == 0 && biased != 1⟩

def ofFloat? (x : Float) : Option Binary := ofBits? .double x.toBits.toNat

def ofFloat32? (x : Float32) : Option Binary := ofBits? .single x.toBits.toNat

def numerator (b : Binary) : Nat := b.significand * Nat.pow 2 b.exponent.toNat

def denominator (b : Binary) : Nat := Nat.pow 2 (-b.exponent).toNat

end Binary

def roundHalfEven (numerator denominator : Nat) : Nat :=
  let quotient := numerator / denominator
  let twice := 2 * (numerator % denominator)
  if twice < denominator then quotient
  else if denominator < twice then quotient + 1
  else quotient + quotient % 2

end HubDevice
