import HubDevice.Error
import HubDevice.Text.Decimal

set_option autoImplicit false

namespace HubDevice

structure Exponent where
  upper : Bool
  /-- The written sign, `true` for minus. -/
  sign : Option Bool
  digits : Bytes
  deriving DecidableEq, Repr

structure Numeral where
  negative : Bool
  whole : Bytes
  fraction : Option Bytes
  exponent : Option Exponent
  deriving DecidableEq, Repr

namespace Exponent

def text (e : Exponent) : Bytes :=
  (if e.upper then 'E' else 'e').toUInt8 ::
    ((match e.sign with
      | none => []
      | some true => ['-'.toUInt8]
      | some false => ['+'.toUInt8]) ++ e.digits)

def value (e : Exponent) : Int :=
  if e.sign = some true then -(Decimal.value e.digits : Int) else Decimal.value e.digits

end Exponent

namespace Numeral

def text (n : Numeral) : Bytes :=
  (if n.negative then ['-'.toUInt8] else []) ++ n.whole ++
    (match n.fraction with
      | none => []
      | some ds => '.'.toUInt8 :: ds) ++
    (match n.exponent with
      | none => []
      | some e => e.text)

def someDigits : Bytes → Except JsonError (Bytes × Bytes)
  | [] => .error .unexpectedEnd
  | b :: s =>
    if isDigit b then .ok (b :: s.takeWhile isDigit, s.dropWhile isDigit)
    else .error .unexpectedChar

/-- A zero stands alone. -/
def scanWhole : Bytes → Except JsonError (Bytes × Bytes)
  | [] => .error .unexpectedEnd
  | b :: s => if b = '0'.toUInt8 then .ok ([b], s) else someDigits (b :: s)

def scanFraction : Bytes → Except JsonError (Option Bytes × Bytes)
  | [] => .ok (none, [])
  | b :: s =>
    if b = '.'.toUInt8 then (someDigits s).map fun (ds, rest) => (some ds, rest)
    else .ok (none, b :: s)

def scanSign : Bytes → Option Bool × Bytes
  | [] => (none, [])
  | b :: s =>
    if b = '-'.toUInt8 then (some true, s)
    else if b = '+'.toUInt8 then (some false, s)
    else (none, b :: s)

def scanExponent : Bytes → Except JsonError (Option Exponent × Bytes)
  | [] => .ok (none, [])
  | b :: s =>
    if b = 'e'.toUInt8 || b = 'E'.toUInt8 then
      (someDigits (scanSign s).2).map fun (ds, rest) =>
        (some ⟨b = 'E'.toUInt8, (scanSign s).1, ds⟩, rest)
    else .ok (none, b :: s)

def scanMinus : Bytes → Bool × Bytes
  | [] => (false, [])
  | b :: s => if b = '-'.toUInt8 then (true, s) else (false, b :: s)

def scan (s : Bytes) : Except JsonError (Numeral × Bytes) := do
  let (negative, s) := scanMinus s
  let (whole, s) ← scanWhole s
  let (fraction, s) ← scanFraction s
  let (exponent, s) ← scanExponent s
  return (⟨negative, whole, fraction, exponent⟩, s)

def integer? (n : Numeral) : Option Int :=
  if n.fraction.isSome || n.exponent.isSome then none
  else
    let magnitude : Int := Decimal.value n.whole
    some (if n.negative then -magnitude else magnitude)

def int32? (n : Numeral) : Option Int32 :=
  match n.integer? with
  | some v =>
    if Int32.minValue.toInt ≤ v && v ≤ Int32.maxValue.toInt then some (Int32.ofInt v) else none
  | none => none

/-- A minus is refused even before zero. -/
def uint32? (n : Numeral) : Option UInt32 :=
  match n.integer? with
  | some v => if !n.negative && v < UInt32.size then some v.toNat.toUInt32 else none
  | none => none

def significand (n : Numeral) : Nat := Decimal.value (n.whole ++ n.fraction.getD [])

def scale (n : Numeral) : Int :=
  (n.exponent.elim 0 Exponent.value) - (n.fraction.getD []).length

/-- The nearest double. Beyond the range of doubles the magnitude is infinite or zero. -/
def float (n : Numeral) : Float :=
  let m := n.significand
  let leading := (Nat.toDigits 10 m).length + n.scale
  let magnitude :=
    if m = 0 || leading < -330 then 0.0
    else if 310 < leading then 1.0 / 0.0
    else Float.ofScientific m (n.scale < 0) n.scale.natAbs
  if n.negative then -magnitude else magnitude

theorem length_someDigits {s ds rest : Bytes} (h : someDigits s = .ok (ds, rest)) :
    rest.length < s.length := by
  match s, h with
  | b :: s, h =>
    simp only [someDigits] at h
    split at h <;> simp only [Except.ok.injEq, Prod.mk.injEq, reduceCtorEq] at h
    have := (List.dropWhile_suffix isDigit (l := s)).length_le
    simp only [← h.2, List.length_cons]
    omega

theorem length_scanWhole {s ds rest : Bytes} (h : scanWhole s = .ok (ds, rest)) :
    rest.length < s.length := by
  match s, h with
  | b :: s, h =>
    simp only [scanWhole] at h
    split at h
    · simp only [Except.ok.injEq, Prod.mk.injEq] at h
      simp [← h.2]
    · exact length_someDigits h

theorem length_scanFraction {s rest : Bytes} {f : Option Bytes}
    (h : scanFraction s = .ok (f, rest)) : rest.length ≤ s.length := by
  match s, h with
  | [], h =>
    simp only [scanFraction, Except.ok.injEq, Prod.mk.injEq] at h
    simp [← h.2]
  | b :: s, h =>
    simp only [scanFraction] at h
    split at h
    · cases hd : someDigits s with
      | error e => simp [hd, Except.map] at h
      | ok r =>
        obtain ⟨ds, behind⟩ := r
        have := length_someDigits hd
        simp only [hd, Except.map, Except.ok.injEq, Prod.mk.injEq] at h
        simp only [← h.2, List.length_cons]
        omega
    · simp only [Except.ok.injEq, Prod.mk.injEq] at h
      simp [← h.2]

theorem length_scanSign (s : Bytes) : (scanSign s).2.length ≤ s.length := by
  unfold scanSign
  split
  · simp
  · split
    · simp
    · split <;> simp

theorem length_scanExponent {s rest : Bytes} {e : Option Exponent}
    (h : scanExponent s = .ok (e, rest)) : rest.length ≤ s.length := by
  match s, h with
  | [], h =>
    simp only [scanExponent, Except.ok.injEq, Prod.mk.injEq] at h
    simp [← h.2]
  | b :: s, h =>
    simp only [scanExponent] at h
    split at h
    · cases hd : someDigits (scanSign s).2 with
      | error e => simp [hd, Except.map] at h
      | ok r =>
        obtain ⟨ds, behind⟩ := r
        have := length_someDigits hd
        have := length_scanSign s
        simp only [hd, Except.map, Except.ok.injEq, Prod.mk.injEq] at h
        simp only [← h.2, List.length_cons]
        omega
    · simp only [Except.ok.injEq, Prod.mk.injEq] at h
      simp [← h.2]

theorem length_scanMinus (s : Bytes) : (scanMinus s).2.length ≤ s.length := by
  unfold scanMinus
  split
  · simp
  · split <;> simp

theorem length_scan {s rest : Bytes} {n : Numeral} (h : scan s = .ok (n, rest)) :
    rest.length < s.length := by
  have hminus := length_scanMinus s
  simp only [scan, bind, Except.bind] at h
  split at h
  · cases h
  · next whole hwhole =>
    have := length_scanWhole hwhole
    split at h
    · cases h
    · next fraction hfraction =>
      have := length_scanFraction hfraction
      split at h
      · cases h
      · next exponent hexponent =>
        have := length_scanExponent hexponent
        simp only [pure, Except.pure, Except.ok.injEq, Prod.mk.injEq] at h
        rw [← h.2]
        omega

end Numeral

end HubDevice
