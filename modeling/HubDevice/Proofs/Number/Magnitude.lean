import Mathlib.Algebra.Group.Nat.Defs
import HubDevice.Number.Binary

set_option autoImplicit false

namespace HubDevice.Binary
open Float.Model (Format UnpackedFloat)
open Float.Model.UnpackedFloat (unpackMantissa unpackExponent unpackSign packComponents Sign
  unpackMantissa_packComponents unpackExponent_packComponents)

structure IsDouble (b : Binary) : Prop where
  significand : b.significand < 2 ^ 53
  lowest : -1074 ≤ b.exponent
  highest : b.exponent ≤ 971
  /-- Only numbers with the smallest exponent may have a shorter significand. -/
  normal : -1074 < b.exponent → 2 ^ 52 ≤ b.significand
  step : b.atStep = true → b.significand = 2 ^ 52

def ofFields? (negative : Bool) (fraction biased : Nat) : Option Binary :=
  if biased = 2047 then none
  else if biased = 0 then some ⟨negative, fraction, -1074, false⟩
  else some ⟨negative, 2 ^ 52 + fraction, -1074 + (biased - 1 : Nat), fraction == 0 && biased != 1⟩

theorem ofBits?_double (bits : Nat) :
    ofBits? .double bits =
      ofFields? (bits / 2 ^ 63 % 2 == 1) (bits % 2 ^ 52) (bits / 2 ^ 52 % 2 ^ 11) := rfl

theorem isDouble_of_ofBits? {bits : Nat} {b : Binary} (h : ofBits? .double bits = some b) :
    b.IsDouble := by
  have hfraction : bits % 2 ^ 52 < 2 ^ 52 := Nat.mod_lt _ (by decide)
  have hbiased : bits / 2 ^ 52 % 2 ^ 11 < 2 ^ 11 := Nat.mod_lt _ (by decide)
  rw [ofBits?_double] at h
  generalize bits % 2 ^ 52 = fraction, bits / 2 ^ 52 % 2 ^ 11 = biased at *
  unfold ofFields? at h
  split at h
  · cases h
  split at h
  · cases h
    refine ⟨?_, ?_, ?_, nofun, nofun⟩ <;> dsimp only <;> omega
  · next hinfinite hzero =>
    cases h
    refine ⟨?_, ?_, ?_, fun _ => ?_, fun hstep => ?_⟩ <;> dsimp only at *
    · omega
    · omega
    · omega
    · omega
    · simp only [Bool.and_eq_true, beq_iff_eq] at hstep
      omega

theorem IsDouble.numerator_lt {b : Binary} (hb : b.IsDouble) {k : Nat} (he : b.exponent ≤ k) :
    b.numerator < 2 ^ 53 * 2 ^ k := by
  have hpower : 2 ^ b.exponent.toNat ≤ 2 ^ k := Nat.pow_le_pow_right (by decide) (by omega)
  exact Nat.mul_lt_mul_of_lt_of_le hb.significand hpower (Nat.pow_pos (by decide))

theorem toNat_unpackMantissa (bits : BitVec 64) :
    (@unpackMantissa .binary64 bits).toNat = bits.toNat % 2 ^ 52 := by
  simp [unpackMantissa]

theorem toNat_unpackExponent (bits : BitVec 64) :
    (@unpackExponent .binary64 bits).toNat = bits.toNat / 2 ^ 52 % 2 ^ 11 := by
  simp [unpackExponent, Nat.shiftRight_eq_div_pow]

theorem unpackSign_packComponents {sign : Sign} {exponent : BitVec 11} {mantissa : BitVec 52} :
    @unpackSign .binary64 (packComponents .binary64 sign exponent mantissa) =
      sign.toBitVec := by
  ext i hi
  obtain rfl : i = 0 := by omega
  change (BitVec.extractLsb 63 63 (sign.toBitVec ++ exponent ++ mantissa))[0] = _
  rw [BitVec.getElem_extract, BitVec.getLsbD_append, BitVec.getLsbD_append]
  rfl

def HasFields (significand : Nat) (exponent : Int) : UnpackedFloat → Prop
  | .zero _ => significand = 0 ∧ exponent = -1074
  | .finite _ m e _ => significand = m ∧ exponent = e
  | .infinity _ => False
  | .notANumber => False

theorem HasFields.zero_or_finite {m : Nat} {e : Int} {u : UnpackedFloat} (h : HasFields m e u) :
    m = 0 ∧ e = -1074 ∧ (∃ s, u = .zero s) ∨ ∃ s pos, u = .finite s m e pos := by
  cases u with
  | zero s => exact .inl ⟨h.1, h.2, s, rfl⟩
  | finite s m' e' pos =>
    obtain ⟨rfl, rfl⟩ := h
    exact .inr ⟨s, pos, rfl⟩
  | infinity _ => exact h.elim
  | notANumber => exact h.elim

theorem exponent_eq_iff (bits : BitVec 64) (v : BitVec 11) :
    @unpackExponent .binary64 bits = v ↔ bits.toNat / 2 ^ 52 % 2 ^ 11 = v.toNat := by
  rw [← BitVec.toNat_inj, toNat_unpackExponent]

theorem mantissa_eq_iff (bits : BitVec 64) (v : BitVec 52) :
    @unpackMantissa .binary64 bits = v ↔ bits.toNat % 2 ^ 52 = v.toNat := by
  rw [← BitVec.toNat_inj, toNat_unpackMantissa]

theorem toNat_implicit (v : BitVec 52) : (1#1 ++ v).toNat = 2 ^ 52 + v.toNat := by
  rw [BitVec.toNat_append, ← Nat.shiftLeft_add_eq_or_of_lt v.isLt]
  rfl

/-- Numbers that can be read have their fields in the model, and no others are finite there. -/
theorem unpack_ofBits? (bits : BitVec 64) :
    match ofBits? .double bits.toNat with
    | some b => HasFields b.significand b.exponent (.unpack .binary64 bits)
    | none => (UnpackedFloat.unpack .binary64 bits).isFinite = false := by
  rw [ofBits?_double]
  have hinfinite := exponent_eq_iff bits (-1#11)
  have hzero := exponent_eq_iff bits 0#11
  have hnone := mantissa_eq_iff bits 0#52
  have hm := toNat_unpackMantissa bits
  have he := toNat_unpackExponent bits
  have hbias : (Format.binary64.exponentBias : Int) + (52 : Nat) = 1075 := by decide
  unfold UnpackedFloat.unpack ofFields?
  dsimp only at *
  rw [hbias, he]
  by_cases hi : bits.toNat / 2 ^ 52 % 2 ^ 11 = 2047
  · rw [if_pos hi, if_pos (hinfinite.2 hi)]
    dsimp only
    split <;> rfl
  rw [if_neg hi, if_neg (mt hinfinite.1 hi)]
  by_cases hz : bits.toNat / 2 ^ 52 % 2 ^ 11 = 0
  · rw [if_pos hz, if_pos (hzero.2 hz)]
    by_cases hn : bits.toNat % 2 ^ 52 = 0
    · rw [dif_pos (hnone.2 hn)]
      exact ⟨hn, rfl⟩
    · rw [dif_neg (mt hnone.1 hn)]
      refine ⟨hm.symm, ?_⟩
      dsimp only
      omega
  · rw [if_neg hz, if_neg (mt hzero.1 hz)]
    refine ⟨?_, ?_⟩
    · rw [toNat_implicit, hm]
    · dsimp only
      omega

theorem log2_eq_iff {m : Nat} (h : m < 2 ^ 53) (h' : 0 < m) : m.log2 + 1 = 53 ↔ 2 ^ 52 ≤ m := by
  have hle := Nat.le_log2 (n := m) (k := 52) (by omega)
  have hlt := Nat.log2_lt (n := m) (k := 53) (by omega)
  omega

theorem finite_congr {s : Sign} {m m' : Nat} {e e' : Int} {pos : 0 < m} {pos' : 0 < m'}
    (hm : m = m') (he : e = e') :
    UnpackedFloat.finite s m e pos = UnpackedFloat.finite s m' e' pos' := by
  subst hm he
  rfl

theorem unpack_packComponents (s : Sign) (exponent : BitVec 11) (mantissa : BitVec 52) :
    UnpackedFloat.unpack .binary64 (packComponents .binary64 s exponent mantissa) =
      if exponent = -1#11 then if mantissa = 0#52 then .infinity s else .notANumber
      else if exponent = 0#11 then
        if h : mantissa = 0#52 then .zero s
        else
          .finite s mantissa.toNat (exponent.toNat - 1074)
            (Nat.pos_of_ne_zero fun hzero => h (BitVec.eq_of_toNat_eq hzero))
      else
        .finite s (2 ^ 52 + mantissa.toNat) (exponent.toNat - 1075) (Nat.add_pos_left (by decide) _)
    := by
  have hbias : (Format.binary64.exponentBias : Int) + (52 : Nat) = 1075 := by decide
  let bits := packComponents .binary64 s exponent mantissa
  have hm : @unpackMantissa .binary64 bits = mantissa := unpackMantissa_packComponents
  have he : @unpackExponent .binary64 bits = exponent := unpackExponent_packComponents
  have hs : Sign.ofBitVec (@unpackSign .binary64 bits) = s := by
    rw [unpackSign_packComponents]
    cases s <;> rfl
  unfold UnpackedFloat.unpack
  dsimp only
  by_cases hfull : exponent = -1#11
  · rw [if_pos (he.trans hfull), if_pos hfull, hs]
    by_cases hzero : mantissa = 0#52
    · rw [if_pos (hm.trans hzero), if_pos hzero]
    · rw [if_neg fun h => hzero (hm.symm.trans h), if_neg hzero]
  rw [if_neg fun h => hfull (he.symm.trans h), if_neg hfull]
  by_cases hleast : exponent = 0#11
  · rw [if_pos (he.trans hleast), if_pos hleast, hs]
    by_cases hzero : mantissa = 0#52
    · rw [dif_pos (hm.trans hzero), dif_pos hzero]
    · rw [dif_neg fun h => hzero (hm.symm.trans h), dif_neg hzero]
      refine finite_congr (congrArg BitVec.toNat hm) ?_
      rw [hbias, he]
      omega
  · rw [if_neg fun h => hleast (he.symm.trans h), if_neg hleast, hs]
    refine finite_congr ?_ ?_
    · rw [hm]
      exact toNat_implicit mantissa
    · rw [hbias, he]

/-- A number in the range of doubles is packed without loss. -/
theorem unpack_pack_finite {s : Sign} {m : Nat} {e : Int} (pos : 0 < m) (hm : m < 2 ^ 53)
    (he : -1074 ≤ e) (he' : e ≤ 971) (normal : -1074 < e → 2 ^ 52 ≤ m) :
    UnpackedFloat.unpack .binary64 (UnpackedFloat.pack .binary64 (.finite s m e pos)) =
      .finite s m e pos := by
  have hbiased : (e + Format.binary64.exponentBias + (52 : Nat)).toNat = (e + 1075).toNat := by
    have hbias : (Format.binary64.exponentBias : Int) = 1023 := by decide
    rw [hbias]
    omega
  have hpack : UnpackedFloat.pack .binary64 (.finite s m e pos) =
      if 2 ^ 11 ≤ (e + Format.binary64.exponentBias + (52 : Nat)).toNat + 1 then
        UnpackedFloat.packedInfinity .binary64 s
      else if m.log2 + 1 = 53 then
        packComponents .binary64 s
          (BitVec.ofNat 11 (e + Format.binary64.exponentBias + (52 : Nat)).toNat) (BitVec.ofNat 52 m)
      else packComponents .binary64 s (BitVec.ofNat 11 0) (BitVec.ofNat 52 m) := rfl
  rw [hpack, hbiased, if_neg (by omega)]
  by_cases hlarge : 2 ^ 52 ≤ m
  · have hexponent : (BitVec.ofNat 11 (e + 1075).toNat).toNat = (e + 1075).toNat :=
      Nat.mod_eq_of_lt (by omega : (e + 1075).toNat < 2 ^ 11)
    have hmantissa : (BitVec.ofNat 52 m).toNat = m - 2 ^ 52 := by
      rw [BitVec.toNat_ofNat]
      omega
    have hne (v : BitVec 11) (hv : v.toNat ≠ (e + 1075).toNat) :
        BitVec.ofNat 11 (e + 1075).toNat ≠ v := by
      rintro rfl
      exact hv hexponent
    have hfinite : (-1#11).toNat = 2047 := by decide
    have hnormal : (0#11).toNat = 0 := rfl
    rw [if_pos ((log2_eq_iff hm pos).2 hlarge), unpack_packComponents,
      if_neg (hne _ (by omega)), if_neg (hne _ (by omega))]
    exact finite_congr (by omega) (by omega)
  · have hmantissa : (BitVec.ofNat 52 m).toNat = m := Nat.mod_eq_of_lt (by omega)
    rw [if_neg (mt (log2_eq_iff hm pos).1 hlarge), unpack_packComponents]
    have hexponent : ((0#11).toNat : Int) - 1074 = e := by
      change (0 : Int) - 1074 = e
      omega
    have hne : BitVec.ofNat 52 m ≠ 0#52 := by
      intro hzero
      rw [hzero] at hmantissa
      exact absurd hmantissa (Nat.ne_of_lt pos)
    rw [if_neg (by decide), if_pos rfl, dif_neg hne]
    exact finite_congr hmantissa hexponent

variable {x : Float} {b : Binary}

theorem isDouble_of_ofFloat? (h : ofFloat? x = some b) : b.IsDouble := isDouble_of_ofBits? h

theorem zero_or_finite (h : ofFloat? x = some b) :
    b.significand = 0 ∧ b.exponent = -1074 ∧ (∃ s, x.toModel.unpack = .zero s) ∨
      ∃ s pos, x.toModel.unpack = .finite s b.significand b.exponent pos := by
  have hfields := unpack_ofBits? x.toBits.toBitVec
  have hread : ofBits? .double x.toBits.toBitVec.toNat = some b := h
  rw [hread] at hfields
  exact HasFields.zero_or_finite hfields

theorem isFinite_iff (x : Float) : x.isFinite = true ↔ ∃ b, ofFloat? x = some b := by
  have hfinite : x.isFinite = x.toModel.unpack.isFinite := rfl
  rw [hfinite]
  cases hread : ofFloat? x with
  | none =>
    have hfields := unpack_ofBits? x.toBits.toBitVec
    have hbits : ofBits? .double x.toBits.toBitVec.toNat = none := hread
    rw [hbits] at hfields
    exact iff_of_false (Bool.eq_false_iff.1 hfields) nofun
  | some b =>
    refine iff_of_true ?_ ⟨b, rfl⟩
    rcases zero_or_finite hread with ⟨-, -, s, hzero⟩ | ⟨s, pos, hnumber⟩
    · rw [hzero]
      rfl
    · rw [hnumber]
      rfl

theorem unpack_abs (h : ofFloat? x = some b) :
    x.abs.toModel.unpack = x.toModel.unpack.abs := by
  have hdouble := isDouble_of_ofFloat? h
  change UnpackedFloat.unpack .binary64 (UnpackedFloat.pack .binary64 x.toModel.unpack.abs) = _
  rcases zero_or_finite h with ⟨-, -, s, hzero⟩ | ⟨s, pos, hnumber⟩
  · have hpacked := unpack_packComponents .positive 0#11 0#52
    rw [if_neg (by decide), if_pos rfl, dif_pos rfl] at hpacked
    rw [hzero]
    exact hpacked
  · rw [hnumber]
    exact unpack_pack_finite pos hdouble.significand hdouble.lowest hdouble.highest hdouble.normal

theorem unpack_limit :
    (1e17 : Float).toModel.unpack = .finite .positive 6250000000000000 4 (by decide) := rfl

theorem ge_limit_iff (h : ofFloat? x = some b) :
    x.abs ≥ 1e17 ↔ 4 < b.exponent ∨ b.exponent = 4 ∧ 6250000000000000 ≤ b.significand := by
  have hle : x.abs ≥ 1e17 ↔ (1e17 : Float).toModel.unpack.le x.abs.toModel.unpack = true :=
    decide_eq_true_iff
  rw [hle, unpack_abs h, unpack_limit]
  rcases zero_or_finite h with ⟨hm, he, s, hzero⟩ | ⟨s, pos, hnumber⟩
  · rw [hzero, hm, he]
    exact iff_of_false Bool.false_ne_true (by decide)
  · rw [hnumber]
    change ((compare (4 : Int) b.exponent).then
      (compare (6250000000000000 : Nat) b.significand)).isLE = true ↔ _
    rw [Ordering.isLE_then_iff_or, Int.compare_eq_lt, Int.compare_eq_eq, Nat.isLE_compare]
    omega

theorem four_le_exponent (h : ofFloat? x = some b) (hx : x.abs ≥ 1e17) : 4 ≤ b.exponent := by
  rcases (ge_limit_iff h).1 hx with he | ⟨he, -⟩ <;> omega

theorem exponent_le_four (h : ofFloat? x = some b) (hx : ¬ x.abs ≥ 1e17) : b.exponent ≤ 4 := by
  have hnot := mt (ge_limit_iff h).2 hx
  omega

end HubDevice.Binary
