import Mathlib.Data.Int.Order.Basic
import Mathlib.Data.Prod.Lex

set_option autoImplicit false

namespace HubDevice.Double
open Float.Model (UnpackedFloat)

/-- The place of a number in the line. Among numbers of one sign the exponent decides before the
significand. -/
def place? : UnpackedFloat → Option (Int ×ₗ Int ×ₗ Int)
  | .infinity .negative => some (toLex (-2, toLex (0, 0)))
  | .finite .negative m e _ => some (toLex (-1, toLex (-e, -m)))
  | .zero _ => some (toLex (0, toLex (0, 0)))
  | .finite .positive m e _ => some (toLex (1, toLex (e, m)))
  | .infinity .positive => some (toLex (2, toLex (0, 0)))
  | .notANumber => none

theorem compare_natCast (m n : Nat) : compare (m : Int) (n : Int) = compare m n := by
  rcases Nat.lt_trichotomy m n with h | rfl | h
  · rw [compare_lt_iff_lt.2 h, compare_lt_iff_lt.2 (Int.ofNat_lt.2 h)]
  · rw [compare_eq_iff_eq.2 rfl, compare_eq_iff_eq.2 rfl]
  · rw [compare_gt_iff_gt.2 h, compare_gt_iff_gt.2 (Int.ofNat_lt.2 h)]

theorem compare_neg (i j : Int) : compare (-i) (-j) = (compare i j).swap := by
  rcases Int.lt_trichotomy i j with h | rfl | h
  · rw [compare_lt_iff_lt.2 h, compare_gt_iff_gt.2 (Int.neg_lt_neg h)]
    rfl
  · rw [compare_eq_iff_eq.2 rfl, compare_eq_iff_eq.2 rfl]
    rfl
  · rw [compare_gt_iff_gt.2 h, compare_lt_iff_lt.2 (Int.neg_lt_neg h)]
    rfl

def comparePlaces (p q : Option (Int ×ₗ Int ×ₗ Int)) : Option Ordering := do
  return compare (← p) (← q)

theorem compare_below {m n : Nat} {e f : Int} (hm : 0 < m) (hn : 0 < n) :
    (UnpackedFloat.finite .negative m e hm).compare (.finite .negative n f hn) =
      comparePlaces (place? (.finite .negative m e hm)) (place? (.finite .negative n f hn)) := by
  change some ((compare e f).then (compare m n)).swap =
    some ((compare (-e) (-f)).then (compare (-(m : Int)) (-(n : Int))))
  rw [compare_neg, compare_neg, compare_natCast, Ordering.swap_then]

theorem compare_above {m n : Nat} {e f : Int} (hm : 0 < m) (hn : 0 < n) :
    (UnpackedFloat.finite .positive m e hm).compare (.finite .positive n f hn) =
      comparePlaces (place? (.finite .positive m e hm)) (place? (.finite .positive n f hn)) := by
  change some ((compare e f).then (compare m n)) =
    some ((compare e f).then (compare (m : Int) (n : Int)))
  rw [compare_natCast]

/-- Doubles are compared by their places. -/
theorem compare_eq (a b : UnpackedFloat) : a.compare b = comparePlaces (place? a) (place? b) := by
  cases a with
  | notANumber => rfl
  | infinity s => cases s <;> rcases b with (_ | _) | _ | _ | ⟨_ | _, _, _, _⟩ <;> rfl
  | zero s => rcases b with (_ | _) | _ | _ | ⟨_ | _, _, _, _⟩ <;> rfl
  | finite s m e hm =>
    cases s with
    | negative =>
      cases b with
      | notANumber => rfl
      | infinity s => cases s <;> rfl
      | zero s => rfl
      | finite s n f hn =>
        cases s with
        | negative => exact compare_below hm hn
        | positive => rfl
    | positive =>
      cases b with
      | notANumber => rfl
      | infinity s => cases s <;> rfl
      | zero s => rfl
      | finite s n f hn =>
        cases s with
        | negative => rfl
        | positive => exact compare_above hm hn

def placeOf? (x : Float) : Option (Int ×ₗ Int ×ₗ Int) := place? x.toModel.unpack

variable {x y z : Float}

theorem exists_place (h : x.isNaN = false) : ∃ p, placeOf? x = some p := by
  unfold placeOf?
  change x.toModel.unpack.isNaN = false at h
  cases hx : x.toModel.unpack with
  | infinity s => cases s <;> exact ⟨_, rfl⟩
  | notANumber =>
    rw [hx] at h
    cases h
  | zero s => exact ⟨_, rfl⟩
  | finite s m e hm => cases s <;> exact ⟨_, rfl⟩

theorem lt_iff : x < y ↔ ∃ p q, placeOf? x = some p ∧ placeOf? y = some q ∧ p < q := by
  have hlt : x < y ↔ (x.toModel.unpack.compare y.toModel.unpack == some .lt) = true :=
    decide_eq_true_iff
  rw [hlt, beq_iff_eq, compare_eq]
  change comparePlaces (placeOf? x) (placeOf? y) = _ ↔ _
  cases placeOf? x with
  | none => simp [comparePlaces]
  | some p =>
    cases placeOf? y with
    | none => simp [comparePlaces]
    | some q => simp [comparePlaces, compare_lt_iff_lt]

theorem le_iff : x ≤ y ↔ ∃ p q, placeOf? x = some p ∧ placeOf? y = some q ∧ p ≤ q := by
  have hle : x ≤ y ↔ (x.toModel.unpack.compare y.toModel.unpack).any (·.isLE) = true :=
    decide_eq_true_iff
  rw [hle, compare_eq]
  change (comparePlaces (placeOf? x) (placeOf? y)).any _ = _ ↔ _
  cases placeOf? x with
  | none => simp [comparePlaces]
  | some p =>
    cases placeOf? y with
    | none => simp [comparePlaces]
    | some q => simp [comparePlaces, Ordering.isLE_iff_ne_gt, compare_le_iff_le]

theorem lt_irrefl (x : Float) : ¬ x < x := by
  intro h
  obtain ⟨p, q, hp, hq, hlt⟩ := lt_iff.1 h
  obtain rfl : p = q := Option.some.inj (hp.symm.trans hq)
  exact hlt.false

theorem lt_trans (h : x < y) (h' : y < z) : x < z := by
  obtain ⟨p, q, hp, hq, hlt⟩ := lt_iff.1 h
  obtain ⟨q', r, hq', hr, hlt'⟩ := lt_iff.1 h'
  obtain rfl : q = q' := Option.some.inj (hq.symm.trans hq')
  exact lt_iff.2 ⟨p, r, hp, hr, hlt.trans hlt'⟩

theorem le_of_not_lt (hx : x.isNaN = false) (hy : y.isNaN = false) (h : ¬ y < x) : x ≤ y := by
  obtain ⟨p, hp⟩ := exists_place hx
  obtain ⟨q, hq⟩ := exists_place hy
  refine le_iff.2 ⟨p, q, hp, hq, not_lt.1 fun hlt => ?_⟩
  exact h (lt_iff.2 ⟨q, p, hq, hp, hlt⟩)

end HubDevice.Double
