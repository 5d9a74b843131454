import HubDevice.Proofs.Json.Grammar

set_option autoImplicit false

namespace HubDevice.Numeral
open Grammar

/-- A numeral cannot go on here. -/
def Ends (s : Bytes) : Prop :=
  ∀ b ∈ s.head?, isDigit b = false ∧ b ≠ '.'.toUInt8 ∧ b ≠ 'e'.toUInt8 ∧ b ≠ 'E'.toUInt8

def minusText (negative : Bool) : Bytes := if negative then ['-'.toUInt8] else []

def fractionText : Option Bytes → Bytes
  | none => []
  | some ds => '.'.toUInt8 :: ds

def exponentText : Option Exponent → Bytes
  | none => []
  | some e => e.text

theorem text_eq (n : Numeral) : n.text =
    minusText n.negative ++ (n.whole ++ (fractionText n.fraction ++ exponentText n.exponent)) := by
  obtain ⟨negative, whole, fraction, exponent⟩ := n
  cases fraction <;> cases exponent <;> simp [text, minusText, fractionText, exponentText]

theorem someDigits_sound {s ds rest : Bytes} (h : someDigits s = .ok (ds, rest)) :
    Digits ds ∧ s = ds ++ rest := by
  match s, h with
  | b :: s, h =>
    simp only [someDigits] at h
    split at h
    · next hb =>
      simp only [Except.ok.injEq, Prod.mk.injEq] at h
      obtain ⟨rfl, rfl⟩ := h
      refine ⟨⟨List.cons_ne_nil _ _, ?_⟩, ?_⟩
      · intro d hd
        rcases List.mem_cons.1 hd with rfl | hd
        · exact hb
        · exact List.all_eq_true.1 List.all_takeWhile d hd
      · rw [List.cons_append, List.takeWhile_append_dropWhile]
    · cases h

theorem someDigits_append {ds rest : Bytes} (hds : Digits ds)
    (hrest : ∀ b ∈ rest.head?, isDigit b = false) :
    someDigits (ds ++ rest) = .ok (ds, rest) := by
  obtain ⟨hne, hall⟩ := hds
  cases ds with
  | nil => exact absurd rfl hne
  | cons d ds =>
    have hd := hall d List.mem_cons_self
    have htail : ∀ b ∈ ds, isDigit b = true := fun b hb => hall b (List.mem_cons_of_mem _ hb)
    have hstop : rest.takeWhile isDigit = [] ∧ rest.dropWhile isDigit = rest := by
      cases rest with
      | nil => exact ⟨rfl, rfl⟩
      | cons b rest =>
        have hb := hrest b rfl
        simp [hb]
    rw [List.cons_append, someDigits, if_pos hd, List.takeWhile_append_of_pos htail,
      List.dropWhile_append_of_pos htail, hstop.1, hstop.2, List.append_nil]

theorem scanMinus_sound (s : Bytes) : s = minusText (scanMinus s).1 ++ (scanMinus s).2 := by
  unfold scanMinus
  split
  · rfl
  · next b s =>
    split
    · next hb => simp [minusText, hb]
    · rfl

theorem scanMinus_append (negative : Bool) {s : Bytes} (hs : s.head? ≠ some '-'.toUInt8) :
    scanMinus (minusText negative ++ s) = (negative, s) := by
  cases negative with
  | true => simp [scanMinus, minusText]
  | false =>
    cases s with
    | nil => rfl
    | cons b s =>
      have hb : b ≠ '-'.toUInt8 := fun hb => hs (by rw [hb]; rfl)
      simp only [minusText, scanMinus, Bool.false_eq_true, if_false, List.nil_append, if_neg hb]

theorem scanWhole_sound {s ds rest : Bytes} (h : scanWhole s = .ok (ds, rest)) :
    (ds = ['0'.toUInt8] ∨ Digits ds ∧ ds.head? ≠ some '0'.toUInt8) ∧ s = ds ++ rest := by
  match s, h with
  | b :: s, h =>
    simp only [scanWhole] at h
    split at h
    · next hb =>
      simp only [Except.ok.injEq, Prod.mk.injEq] at h
      obtain ⟨rfl, rfl⟩ := h
      exact ⟨.inl (by rw [hb]), rfl⟩
    · next hb =>
      obtain ⟨hds, heq⟩ := someDigits_sound h
      refine ⟨.inr ⟨hds, ?_⟩, heq⟩
      cases ds with
      | nil => exact absurd rfl hds.1
      | cons d ds =>
        rw [List.cons_append] at heq
        injection heq with hbd
        intro hd
        injection hd with hd
        exact hb (hbd.trans hd)

theorem scanWhole_append {ds rest : Bytes}
    (hds : ds = ['0'.toUInt8] ∨ Digits ds ∧ ds.head? ≠ some '0'.toUInt8)
    (hrest : ∀ b ∈ rest.head?, isDigit b = false) : scanWhole (ds ++ rest) = .ok (ds, rest) := by
  rcases hds with rfl | ⟨hds, hzero⟩
  · simp [scanWhole]
  · cases ds with
    | nil => exact absurd rfl hds.1
    | cons d ds =>
      have hd : d ≠ '0'.toUInt8 := fun hd => hzero (by rw [hd]; rfl)
      rw [List.cons_append, scanWhole, if_neg hd, ← List.cons_append]
      exact someDigits_append hds hrest

theorem scanFraction_sound {s rest : Bytes} {f : Option Bytes}
    (h : scanFraction s = .ok (f, rest)) :
    (∀ ds ∈ f, Digits ds) ∧ s = fractionText f ++ rest := by
  match s, h with
  | [], h =>
    simp only [scanFraction, Except.ok.injEq, Prod.mk.injEq] at h
    obtain ⟨rfl, rfl⟩ := h
    exact ⟨by simp, rfl⟩
  | b :: s, h =>
    simp only [scanFraction] at h
    split at h
    · next hb =>
      cases hd : someDigits s with
      | error e => simp [hd, Except.map] at h
      | ok r =>
        obtain ⟨hds, heq⟩ := someDigits_sound hd
        simp only [hd, Except.map, Except.ok.injEq, Prod.mk.injEq] at h
        obtain ⟨rfl, rfl⟩ := h
        exact ⟨by simpa using hds, by rw [fractionText, hb, List.cons_append, ← heq]⟩
    · simp only [Except.ok.injEq, Prod.mk.injEq] at h
      obtain ⟨rfl, rfl⟩ := h
      exact ⟨by simp, rfl⟩

theorem scanFraction_append {f : Option Bytes} {rest : Bytes} (hf : ∀ ds ∈ f, Digits ds)
    (hdigit : ∀ b ∈ rest.head?, isDigit b = false) (hpoint : rest.head? ≠ some '.'.toUInt8) :
    scanFraction (fractionText f ++ rest) = .ok (f, rest) := by
  cases f with
  | none =>
    cases rest with
    | nil => rfl
    | cons b rest =>
      have hb : b ≠ '.'.toUInt8 := fun hb => hpoint (by rw [hb]; rfl)
      simp only [fractionText, scanFraction, List.nil_append, if_neg hb]
  | some ds =>
    rw [fractionText, List.cons_append, scanFraction, if_pos rfl,
      someDigits_append (hf ds rfl) hdigit]
    rfl

def signText : Option Bool → Bytes
  | none => []
  | some true => ['-'.toUInt8]
  | some false => ['+'.toUInt8]

theorem exponent_text_eq (e : Exponent) : e.text =
    (if e.upper then 'E' else 'e').toUInt8 :: (signText e.sign ++ e.digits) := by
  obtain ⟨upper, sign, digits⟩ := e
  rcases sign with - | - | - <;> rfl

theorem scanSign_sound (s : Bytes) : s = signText (scanSign s).1 ++ (scanSign s).2 := by
  unfold scanSign
  split
  · rfl
  · split
    · next hb => simp [signText, hb]
    · split
      · next hb => simp [signText, hb]
      · rfl

theorem scanSign_append (sign : Option Bool) {ds : Bytes} (hds : Digits ds) (rest : Bytes) :
    scanSign (signText sign ++ (ds ++ rest)) = (sign, ds ++ rest) := by
  rcases sign with - | - | -
  · cases ds with
    | nil => exact absurd rfl hds.1
    | cons d ds =>
      have hd := hds.2 d List.mem_cons_self
      have hminus : d ≠ '-'.toUInt8 := by
        rintro rfl
        exact absurd hd (by decide)
      have hplus : d ≠ '+'.toUInt8 := by
        rintro rfl
        exact absurd hd (by decide)
      simp only [signText, scanSign, List.nil_append, List.cons_append, if_neg hminus,
        if_neg hplus]
  · rfl
  · rfl

theorem scanExponent_sound {s rest : Bytes} {e : Option Exponent}
    (h : scanExponent s = .ok (e, rest)) :
    (∀ x ∈ e, Digits x.digits) ∧ s = exponentText e ++ rest := by
  match s, h with
  | [], h =>
    simp only [scanExponent, Except.ok.injEq, Prod.mk.injEq] at h
    obtain ⟨rfl, rfl⟩ := h
    exact ⟨by simp, rfl⟩
  | b :: s, h =>
    simp only [scanExponent] at h
    split at h
    · next hb =>
      cases hd : someDigits (scanSign s).2 with
      | error e => simp [hd, Except.map] at h
      | ok r =>
        obtain ⟨hds, heq⟩ := someDigits_sound hd
        simp only [hd, Except.map, Except.ok.injEq, Prod.mk.injEq] at h
        obtain ⟨rfl, rfl⟩ := h
        refine ⟨by simpa using hds, ?_⟩
        have hletter : (if b = 'E'.toUInt8 then 'E' else 'e').toUInt8 = b := by
          simp only [Bool.or_eq_true, decide_eq_true_eq] at hb
          rcases hb with rfl | rfl <;> rfl
        rw [exponentText, exponent_text_eq]
        simp only [decide_eq_true_eq, hletter, List.cons_append, List.append_assoc]
        rw [← heq, ← scanSign_sound]
    · simp only [Except.ok.injEq, Prod.mk.injEq] at h
      obtain ⟨rfl, rfl⟩ := h
      exact ⟨by simp, rfl⟩

theorem scanExponent_append {e : Option Exponent} {rest : Bytes}
    (he : ∀ x ∈ e, Digits x.digits) (hrest : Ends rest) :
    scanExponent (exponentText e ++ rest) = .ok (e, rest) := by
  cases e with
  | none =>
    cases rest with
    | nil => rfl
    | cons b rest =>
      obtain ⟨-, -, hlower, hupper⟩ := hrest b rfl
      simp only [exponentText, scanExponent, List.nil_append, hlower, hupper, decide_false,
        Bool.or_self, Bool.false_eq_true, if_false]
  | some e =>
    have hds := he e rfl
    obtain ⟨upper, sign, digits⟩ := e
    have hsign := scanSign_append sign hds rest
    have hdigits := someDigits_append hds fun b hb => (hrest b hb).1
    rw [exponentText, exponent_text_eq]
    have hletter : 'e'.toUInt8 ≠ 'E'.toUInt8 := by decide
    cases upper <;> simp [scanExponent, List.append_assoc, hsign, hdigits, Except.map, hletter]

theorem scan_sound {s rest : Bytes} {n : Numeral} (h : scan s = .ok (n, rest)) :
    LegalNumeral n ∧ s = n.text ++ rest := by
  have hminus := scanMinus_sound s
  simp only [scan, bind, Except.bind] at h
  split at h
  · cases h
  · next whole hwhole =>
    obtain ⟨hlegal, hs⟩ := scanWhole_sound hwhole
    split at h
    · cases h
    · next fraction hfraction =>
      obtain ⟨hf, hs'⟩ := scanFraction_sound hfraction
      split at h
      · cases h
      · next exponent hexponent =>
        obtain ⟨he, hs''⟩ := scanExponent_sound hexponent
        simp only [pure, Except.pure, Except.ok.injEq, Prod.mk.injEq] at h
        obtain ⟨rfl, rfl⟩ := h
        refine ⟨⟨hlegal, hf, he⟩, ?_⟩
        rw [text_eq]
        simp only [List.append_assoc]
        rw [← hs'', ← hs', ← hs, ← hminus]

theorem head?_exponentText_append {e : Option Exponent} {rest : Bytes} (hrest : Ends rest) :
    ∀ b ∈ (exponentText e ++ rest).head?, isDigit b = false ∧ b ≠ '.'.toUInt8 := by
  intro b hb
  cases e with
  | none =>
    have h := hrest b hb
    exact ⟨h.1, h.2.1⟩
  | some e =>
    rw [exponentText, exponent_text_eq] at hb
    injection hb with hb
    subst hb
    cases e.upper <;> decide

theorem head?_fractionText_append {f : Option Bytes} {rest : Bytes}
    (hrest : ∀ b ∈ rest.head?, isDigit b = false) :
    ∀ b ∈ (fractionText f ++ rest).head?, isDigit b = false := by
  intro b hb
  cases f with
  | none => exact hrest b hb
  | some ds =>
    injection hb with hb
    subst hb
    decide

theorem head?_whole {n : Numeral} (legal : LegalNumeral n) :
    ∃ d ds, n.whole = d :: ds ∧ isDigit d = true := by
  rcases legal.whole with h | ⟨⟨hne, hall⟩, -⟩
  · exact ⟨_, _, h, by decide⟩
  · cases hw : n.whole with
    | nil => exact absurd hw hne
    | cons d ds => exact ⟨d, ds, rfl, hall d (by rw [hw]; exact List.mem_cons_self)⟩

/-- A legal numeral is taken off whole where it cannot go on. -/
theorem scan_text {n : Numeral} {rest : Bytes} (legal : LegalNumeral n) (hrest : Ends rest) :
    scan (n.text ++ rest) = .ok (n, rest) := by
  have hexponent := head?_exponentText_append (e := n.exponent) hrest
  have hfraction := head?_fractionText_append (f := n.fraction) fun b hb => (hexponent b hb).1
  obtain ⟨d, ds, hwhole, hd⟩ := head?_whole legal
  have hminus : (n.whole ++
      (fractionText n.fraction ++ (exponentText n.exponent ++ rest))).head? ≠
        some '-'.toUInt8 := by
    rw [hwhole]
    intro h
    injection h with h
    subst h
    exact absurd hd (by decide)
  rw [text_eq]
  simp only [List.append_assoc, scan, scanMinus_append _ hminus, bind, Except.bind,
    scanWhole_append legal.whole hfraction,
    scanFraction_append legal.fraction (fun b hb => (hexponent b hb).1)
      (fun h => (hexponent _ h).2 rfl),
    scanExponent_append legal.exponent hrest]
  rfl

def ofDigits (negative : Bool) (n : Nat) : Numeral := ⟨negative, Decimal.digits n, none, none⟩

theorem digits_digits (n : Nat) : Digits (Decimal.digits n) :=
  ⟨Decimal.digits_ne_nil n, fun _ hb => Decimal.isDigit_of_mem_digits hb⟩

theorem legal_ofDigits (negative : Bool) (n : Nat) : LegalNumeral (ofDigits negative n) := by
  refine ⟨?_, by simp [ofDigits], by simp [ofDigits]⟩
  by_cases h : n = 0
  · subst h
    exact .inl (by rfl)
  · exact .inr ⟨digits_digits n, Decimal.head?_digits h⟩

theorem text_ofDigits (negative : Bool) (n : Nat) :
    (ofDigits negative n).text = minusText negative ++ Decimal.digits n := by
  simp [text_eq, ofDigits, fractionText, exponentText]

/-- A legal numeral is given by its text. -/
theorem eq_of_text {n m : Numeral} (hn : LegalNumeral n) (hm : LegalNumeral m)
    (h : n.text = m.text) : n = m := by
  have ends : Ends [] := by simp [Ends]
  have hscan := scan_text hn ends
  rw [h, scan_text hm ends] at hscan
  simp only [Except.ok.injEq, Prod.mk.injEq, and_true] at hscan
  exact hscan.symm

theorem uint32?_ofDigits (n : UInt32) : (ofDigits false n.toNat).uint32? = some n := by
  have hlt : (n.toNat : Int) < 4294967296 := by
    have := n.toNat_lt
    omega
  simp [uint32?, integer?, ofDigits, Decimal.value_digits, hlt]

theorem int32?_ofDigits (n : Int32) : (ofDigits (n < 0) n.toInt.natAbs).int32? = some n := by
  have hlow := n.le_toInt
  have hhigh := n.toInt_lt
  have hvalue : (ofDigits (n < 0) n.toInt.natAbs).integer? = some n.toInt := by
    have hneg : n < 0 ↔ n.toInt < 0 := Int32.lt_iff_toInt_lt
    simp only [integer?, ofDigits, Decimal.value_digits, Option.isSome_none, Bool.or_self,
      Bool.false_eq_true, if_false, decide_eq_true_eq, hneg, Option.some.injEq]
    split <;> omega
  have hmin : Int32.minValue.toInt = -2147483648 := by decide
  have hmax : Int32.maxValue.toInt = 2147483647 := by decide
  have hrange : (decide (Int32.minValue.toInt ≤ n.toInt) &&
      decide (n.toInt ≤ Int32.maxValue.toInt)) = true := by
    simp only [Bool.and_eq_true, decide_eq_true_eq]
    omega
  simp only [int32?, hvalue, hrange, if_true, Int32.ofInt_toInt]

end HubDevice.Numeral

namespace HubDevice.Token

theorem uint32_number {n : Numeral} {v : UInt32} (h : n.uint32? = some v) :
    (number n).uint32 = .ok v := by
  simp only [uint32, numeral]
  rw [h]

theorem int32_number {n : Numeral} {v : Int32} (h : n.int32? = some v) :
    (number n).int32 = .ok v := by
  simp only [int32, numeral]
  rw [h]

end HubDevice.Token
