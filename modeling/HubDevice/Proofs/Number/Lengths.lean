import HubDevice.Json.Writer
import HubDevice.Proofs.Number.Magnitude

set_option autoImplicit false

/-!
# The length of numbers

The shortest decimal of a large double has at most eighteen digits, since a grid with seventeen
digits is finer than the rounding interval. So a double takes at most 24 bytes.
-/
namespace HubDevice

theorem Decimal.length_digits_le {n k : Nat} (hk : 0 < k) (h : n < 10 ^ k) :
    (digits n).length ≤ k := by
  rw [digits, List.length_map]
  exact (Nat.length_toDigits_le_iff (by decide) hk).2 h

theorem Decimal.length_padded {width n : Nat} (hwidth : 0 < width) (h : n < 10 ^ width) :
    (padded width n).length = width := by
  have hdigits := length_digits_le hwidth h
  rw [padded, List.length_append, List.length_replicate]
  omega

theorem Binary.denominator_pos (b : Binary) : 0 < b.denominator := by
  rw [denominator, Nat.pow_eq]
  exact Nat.pow_pos (by decide)

/-- Rounding moves a quotient by less than one. -/
theorem roundHalfEven_le (n d : Nat) : roundHalfEven n d ≤ n / d + 1 := by
  have hodd : n / d % 2 < 2 := Nat.mod_lt _ (by decide)
  unfold roundHalfEven
  dsimp only
  split
  · omega
  split
  · omega
  · omega

namespace Shortest

variable {i : Interval}

theorem contains_of_lt {n d : Nat} (low : i.low * d < n * i.scale)
    (high : n * i.scale < i.high * d) : i.contains n d = true := by
  unfold Interval.contains
  split
  · simp [Nat.le_of_lt low, Nat.le_of_lt high]
  · simp [low, high]

theorem onGrid?_ne_none {k : Int} (below : Nat)
    (hbelow : below = i.middle * 10 ^ (-k).toNat / (i.scale * 10 ^ k.toNat))
    (h : i.contains (below * 10 ^ k.toNat) (10 ^ (-k).toNat) = true ∨
      i.contains ((below + 1) * 10 ^ k.toNat) (10 ^ (-k).toNat) = true) :
    onGrid? i k ≠ none := by
  unfold onGrid?
  simp only [Nat.pow_eq]
  rw [← hbelow]
  split
  · split
    · exact Option.some_ne_none _
    split <;> exact Option.some_ne_none _
  · exact Option.some_ne_none _
  · exact Option.some_ne_none _
  · next hlow hhigh =>
    rw [hlow, hhigh] at h
    simp at h

/-- A grid that is finer than the interval has a point in it. -/
theorem onGrid?_of_finer {k : Nat} (scale : i.scale = 1) (low : i.low < i.middle)
    (high : i.middle < i.high) (finer : i.low + 10 ^ k < i.high) : onGrid? i k ≠ none := by
  have hup : (k : Int).toNat = k := rfl
  have hdown : (-(k : Int)).toNat = 0 := by omega
  have hbelow : i.middle / 10 ^ k * 10 ^ k ≤ i.middle := Nat.div_mul_le_self _ _
  have habove : i.middle < (i.middle / 10 ^ k + 1) * 10 ^ k :=
    Nat.lt_mul_of_div_lt (Nat.lt_succ_self _) (Nat.pow_pos (by decide))
  have hnext : (i.middle / 10 ^ k + 1) * 10 ^ k = i.middle / 10 ^ k * 10 ^ k + 10 ^ k :=
    Nat.succ_mul _ _
  refine onGrid?_ne_none (i.middle / 10 ^ k) ?_ ?_ <;> rw [hup, hdown, Nat.pow_zero]
  · rw [scale, Nat.mul_one, Nat.one_mul]
  · by_cases hlow : i.low < i.middle / 10 ^ k * 10 ^ k
    · exact .inl (contains_of_lt (by rw [scale]; omega) (by rw [scale]; omega))
    · exact .inr (contains_of_lt (by rw [scale]; omega) (by rw [scale]; omega))

theorem le_of_onGrid? {k : Int} {n : Nat} (h : onGrid? i k = some n) :
    n ≤ i.middle * 10 ^ (-k).toNat / (i.scale * 10 ^ k.toNat) + 1 := by
  unfold onGrid? at h
  simp only [Nat.pow_eq] at h
  generalize i.middle * 10 ^ (-k).toNat / (i.scale * 10 ^ k.toNat) = below at *
  have hodd : below % 2 < 2 := Nat.mod_lt _ (by decide)
  split at h
  · split at h
    · cases h
      omega
    split at h
    · cases h
      omega
    · cases h
      omega
  · cases h
    omega
  · cases h
    omega
  · cases h

/-- The search ends on the first grid that has a point in the interval. -/
theorem search_of_onGrid? (fallback : DecimalPoint) (steps : Nat) {j k : Int}
    (hj : onGrid? i j ≠ none) (hle : j ≤ k) (hsteps : k < j + steps) :
    ∃ n k', search i fallback steps k = ⟨n, k'⟩ ∧ j ≤ k' ∧ k' ≤ k ∧ onGrid? i k' = some n := by
  induction steps generalizing k with
  | zero => omega
  | succ steps ih =>
    rw [search]
    cases hgrid : onGrid? i k with
    | some n => exact ⟨n, k, rfl, hle, Int.le_refl k, hgrid⟩
    | none =>
      have hne : j ≠ k := by
        rintro rfl
        exact hj hgrid
      obtain ⟨n, k', hsearch, hlow, hhigh, hpoint⟩ := ih (k := k - 1) (by omega) (by omega)
      exact ⟨n, k', hsearch, hlow, by omega, hpoint⟩

section Large

variable {b : Binary}

/-- In quarters of the last place the interval is four wide, or three at a step. -/
theorem interval_large (hb : b.IsDouble) (he : 4 ≤ b.exponent) :
    ∃ quarter below, 0 < quarter ∧ b.numerator = 4 * b.significand * quarter ∧
      (interval b).middle = b.numerator ∧ (interval b).low + below * quarter = b.numerator ∧
      (interval b).high = b.numerator + 2 * quarter ∧ (interval b).scale = 1 ∧
      (below = 2 ∨ below = 1 ∧ b.significand = 2 ^ 52) := by
  have hm := hb.normal (by omega)
  have hnumerator : b.numerator = 4 * b.significand * 2 ^ (b.exponent - 2).toNat := by
    have hexponent : b.exponent.toNat = 2 + (b.exponent - 2).toNat := by omega
    rw [Binary.numerator, Nat.pow_eq, hexponent, Nat.pow_add, ← Nat.mul_assoc, Nat.mul_comm 4]
  have hscale : Nat.pow 2 (2 - b.exponent).toNat = 1 := by
    rw [Int.toNat_of_nonpos (by omega), Nat.pow_eq, Nat.pow_zero]
  refine ⟨2 ^ (b.exponent - 2).toNat, if b.atStep then 1 else 2, Nat.pow_pos (by decide),
    hnumerator, hnumerator.symm, ?_, ?_, hscale, ?_⟩
  · rw [interval, Nat.pow_eq, ← Nat.add_mul, hnumerator, Nat.sub_add_cancel]
    split <;> omega
  · rw [interval, Nat.pow_eq, hnumerator, Nat.add_mul]
  · split
    · next hstep => exact .inr ⟨rfl, hb.step hstep⟩
    · exact .inl rfl

/-- A grid that leaves seventeen digits is finer than the interval. -/
theorem onGrid?_large (hb : b.IsDouble) (he : 4 ≤ b.exponent) {k : Nat}
    (hk : 10 ^ 16 * 10 ^ k ≤ b.numerator) : onGrid? (interval b) k ≠ none := by
  obtain ⟨quarter, below, pos, numerator, middle, low, high, scale, hbelow⟩ := interval_large hb he
  have hm := hb.significand
  have hsmall : 10 ^ 16 * 10 ^ k ≤ 4 * b.significand * quarter := numerator ▸ hk
  refine onGrid?_of_finer scale ?_ (by omega) ?_
  · rcases hbelow with rfl | ⟨rfl, -⟩ <;> omega
  · rcases hbelow with rfl | ⟨rfl, hstep⟩
    · have hwidth : 4 * b.significand * quarter ≤ 4 * 2 ^ 53 * quarter :=
        Nat.mul_le_mul_right _ (by omega)
      omega
    · rw [hstep] at hsmall
      omega

/-- Seventeen digits are enough for the shortest decimal, unless it ends in a carry. -/
theorem decimal_large (hb : b.IsDouble) (he : 4 ≤ b.exponent) :
    ∃ n k : Nat, decimal b = ⟨n, k⟩ ∧ n ≤ 10 ^ 17 ∧ k ≤ 309 := by
  have hm := hb.normal (by omega)
  have hnonzero : b.significand ≠ 0 := by omega
  have hdenominator : b.denominator = 1 := by
    rw [Binary.denominator, Int.toNat_of_nonpos (by omega), Nat.pow_eq, Nat.pow_zero]
  have hfinest : (-b.exponent).toNat = 0 := by omega
  obtain ⟨quarter, below, -, -, middle, -, -, scale, -⟩ := interval_large hb he
  -- The number of digits before the point fixes the first and the last grid of the search.
  have hdigits (k : Nat) (hk : 0 < k) :
      (Nat.toDigits 10 b.numerator).length ≤ k ↔ b.numerator < 10 ^ k :=
    Nat.length_toDigits_le_iff (by decide) hk
  have hupper : b.numerator < 10 ^ 309 :=
    Nat.lt_of_lt_of_le (hb.numerator_lt hb.highest) (by decide +kernel)
  have hlower : 10 ^ 16 ≤ b.numerator := by
    have hpower : 2 ^ 4 ≤ 2 ^ b.exponent.toNat := Nat.pow_le_pow_right (by decide) (by omega)
    have hproduct : 2 ^ 52 * 2 ^ 4 ≤ b.numerator := Nat.mul_le_mul hm hpower
    omega
  generalize hD : (Nat.toDigits 10 b.numerator).length = D at hdigits
  have hmost : D ≤ 309 := (hdigits 309 (by decide)).2 hupper
  have hleast : 17 ≤ D := by
    have hnot := mt (hdigits 16 (by decide)).1 (by omega)
    omega
  have hgrid : onGrid? (interval b) (D - 17 : Nat) ≠ none := by
    refine onGrid?_large hb he ?_
    have hnot := mt (hdigits (D - 1) (by omega)).2 (by omega)
    rw [← Nat.pow_add]
    have hsum : 16 + (D - 17) = D - 1 := by omega
    rw [hsum]
    omega
  obtain ⟨n, k, hsearch, hlow, hhigh, hpoint⟩ :=
    search_of_onGrid? (exact b) (D + 0 + 1) (k := D) hgrid (by omega) (by omega)
  refine ⟨n, k.toNat, ?_, ?_, by omega⟩
  · rw [decimal, if_neg hnonzero, hdenominator, Nat.div_one, hD, hfinest]
    dsimp only
    rw [hsearch, Int.toNat_of_nonneg (by omega)]
  · have hn := le_of_onGrid? hpoint
    have hk : (-k).toNat = 0 := by omega
    rw [middle, scale, hk, Nat.pow_zero, Nat.mul_one, Nat.one_mul] at hn
    have hquotient : b.numerator / 10 ^ k.toNat < 10 ^ 17 := by
      rw [Nat.div_lt_iff_lt_mul (Nat.pow_pos (by decide)), ← Nat.pow_add]
      have hD' := (hdigits D (by omega)).1 (Nat.le_refl _)
      exact Nat.lt_of_lt_of_le hD' (Nat.pow_le_pow_right (by decide) (by omega))
    omega

end Large

end Shortest

namespace NumberText

theorem length_sign (negative : Bool) : (sign negative).length ≤ 1 := by
  cases negative <;> decide

theorem length_withExponent {n k : Nat} (hn : n ≤ 10 ^ 17) (hk : k ≤ 309) :
    (withExponent ⟨n, k⟩).length ≤ 23 := by
  have hdigits : (Decimal.digits n).length ≤ 18 := Decimal.length_digits_le (by decide) (by omega)
  have hexponent : (integer (k + ((Decimal.digits n).length - 1 : Nat))).length ≤ 3 := by
    have hpositive : ¬ ((k : Int) + ((Decimal.digits n).length - 1 : Nat) < 0) := by omega
    rw [integer, decide_eq_false hpositive, sign, if_neg Bool.false_ne_true, List.nil_append]
    exact Decimal.length_digits_le (by decide) (by omega)
  unfold withExponent
  dsimp only
  generalize Decimal.digits n = ds at *
  rw [List.length_append, List.length_cons]
  -- A point is put in if there is more than one digit.
  match ds with
  | [] | [_] | _ :: _ :: _ =>
    simp only [List.length_cons, List.length_nil] at *
    omega

/-- The text shows the number with this many decimal places: a sign or none, the whole part without
superfluous zeros, and the places behind a point if there are any. Rounding may add one to the whole
part. -/
def HasPlaces (b : Binary) (places : Nat) (text : Bytes) : Prop :=
  ∃ (negative : Bool) (whole : Nat) (ds : Bytes), whole ≤ b.numerator / b.denominator + 1 ∧
    ds.length = places ∧ (∀ d ∈ ds, isDigit d = true) ∧
    text = sign negative ++ Decimal.digits whole ++ if places = 0 then [] else '.'.toUInt8 :: ds

theorem isDigit_padded {width n : Nat} {b : UInt8} (h : b ∈ Decimal.padded width n) :
    isDigit b = true := by
  unfold Decimal.padded at h
  rcases List.mem_append.1 h with hzero | hdigit
  · rw [List.eq_of_mem_replicate hzero]
    decide
  · exact Decimal.isDigit_of_mem_digits hdigit

theorem hasPlaces_fixed (b : Binary) (places : Nat) : HasPlaces b places (fixed b places) := by
  have hpower : 0 < 10 ^ places := Nat.pow_pos (by decide)
  have hrounded := roundHalfEven_le (b.numerator * 10 ^ places) b.denominator
  unfold fixed
  simp only [Nat.pow_eq]
  generalize roundHalfEven (b.numerator * 10 ^ places) b.denominator = scaled at hrounded ⊢
  have hwhole : scaled / 10 ^ places ≤ b.numerator / b.denominator + 1 := by
    have hnext : b.numerator * 10 ^ places / b.denominator + 1 ≤
        (b.numerator / b.denominator + 1) * 10 ^ places := by
      rw [Nat.succ_le_iff, Nat.div_lt_iff_lt_mul b.denominator_pos, Nat.mul_right_comm]
      exact Nat.mul_lt_mul_of_pos_right
        (Nat.lt_mul_of_div_lt (Nat.lt_succ_self _) b.denominator_pos) hpower
    exact Nat.div_le_of_le_mul (by rw [Nat.mul_comm]; exact Nat.le_trans hrounded hnext)
  by_cases hplaces : places = 0
  · exact ⟨b.negative, _, [], hwhole, hplaces.symm, nofun, by rw [if_pos hplaces, if_pos hplaces]⟩
  · refine ⟨b.negative, _, Decimal.padded places (scaled % 10 ^ places), hwhole, ?_,
      fun _ h => isDigit_padded h, by rw [if_neg hplaces]⟩
    exact Decimal.length_padded (by omega) (Nat.mod_lt _ hpower)

theorem HasPlaces.length_le {b : Binary} {places : Nat} {text : Bytes}
    (h : HasPlaces b places text) (hb : b.IsDouble) (he : b.exponent ≤ 4) :
    text.length ≤ places + 20 := by
  obtain ⟨negative, whole, ds, hwhole, hlength, -, rfl⟩ := h
  have hnumerator : b.numerator < 2 ^ 53 * 2 ^ 4 := hb.numerator_lt he
  have hquotient := Nat.div_le_self b.numerator b.denominator
  have hdigits : (Decimal.digits whole).length ≤ 18 :=
    Decimal.length_digits_le (by decide) (by omega)
  have hsign := length_sign negative
  simp only [List.length_append]
  split
  · rw [List.length_nil]
    omega
  · rw [List.length_cons]
    omega

theorem length_scientific {x : Float} {b : Binary} (h : Binary.ofFloat? x = some b)
    (hlarge : x.abs ≥ 1e17) : (scientific b).length ≤ 24 := by
  obtain ⟨n, k, hdecimal, hn, hk⟩ :=
    Shortest.decimal_large (Binary.isDouble_of_ofFloat? h) (Binary.four_le_exponent h hlarge)
  have hsign := length_sign b.negative
  have hexponent := length_withExponent hn hk
  rw [scientific, hdecimal, List.length_append]
  omega

end NumberText

namespace Writer

theorem length_trimFraction (b : Bytes) : (trimFraction b).length ≤ b.length := by
  have hkept : ((b.reverse.dropWhile (· == '0'.toUInt8)).reverse).length ≤ b.length := by
    have hsuffix := (b.reverse.dropWhile_suffix (· == '0'.toUInt8)).length_le
    rwa [List.length_reverse] at hsuffix ⊢
  unfold trimFraction
  dsimp only
  split
  · rw [List.length_dropLast]
    omega
  · exact hkept

theorem length_tidy (text : Bytes) : (tidy text).length ≤ text.length := by
  have htrim := length_trimFraction text
  have htrimmed : (if '.'.toUInt8 ∈ text ∧ 'e'.toUInt8 ∉ text then trimFraction text
      else text).length ≤ text.length := by
    split
    · exact htrim
    · exact Nat.le_refl _
  unfold tidy
  dsimp only
  generalize (if '.'.toUInt8 ∈ text ∧ 'e'.toUInt8 ∉ text then trimFraction text else text) =
    trimmed at *
  split
  · next hzero =>
    have hsign : (utf8 "0").length ≤ (utf8 "-0").length := by decide
    rw [← hzero] at hsign
    exact Nat.le_trans hsign htrimmed
  · exact htrimmed

/-- A double with few decimal places takes at most 24 bytes. -/
theorem length_numberText {x : Float} {b : Binary} (h : Binary.ofFloat? x = some b) {places : Nat}
    (hplaces : places ≤ 4) : (numberText x b places).length ≤ 24 := by
  refine Nat.le_trans (length_tidy _) ?_
  unfold laidOut
  split
  · next hlarge => exact NumberText.length_scientific h hlarge
  · next hsmall =>
    have hmost : min places maxPlaces ≤ 4 := Nat.le_trans (Nat.min_le_left _ _) hplaces
    exact Nat.le_trans ((NumberText.hasPlaces_fixed b _).length_le (Binary.isDouble_of_ofFloat? h)
      (Binary.exponent_le_four h hsmall)) (Nat.add_le_add_right hmost 20)

end Writer

end HubDevice
