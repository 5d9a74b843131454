import HubDevice.Json.Writer
import HubDevice.Proofs.Json.Numerals
import HubDevice.Proofs.Number.Lengths

set_option autoImplicit false

namespace HubDevice
open Grammar

namespace Numeral

def dropZeros (ds : Bytes) : Bytes := (ds.reverse.dropWhile (· == '0'.toUInt8)).reverse

def trimmedFraction (ds : Bytes) : Option Bytes :=
  if dropZeros ds = [] then none else some (dropZeros ds)

def trimmed (n : Numeral) : Numeral :=
  if n.exponent = none then { n with fraction := n.fraction.bind trimmedFraction } else n

def tidied (n : Numeral) : Numeral :=
  if n.trimmed.text = utf8 "-0" then ofDigits false 0 else n.trimmed

variable {n : Numeral} {ds : Bytes}

theorem dropZeros_begins (ds : Bytes) : dropZeros ds <+: ds := by
  have hsuffix := ds.reverse.dropWhile_suffix (· == '0'.toUInt8)
  rwa [← List.reverse_prefix, List.reverse_reverse] at hsuffix

theorem trimmedFraction_eq_some {kept : Bytes} (h : trimmedFraction ds = some kept) :
    kept = dropZeros ds ∧ kept ≠ [] := by
  unfold trimmedFraction at h
  split at h
  · cases h
  · next hkept =>
    cases h
    exact ⟨rfl, hkept⟩

theorem digits_trimmedFraction (hds : ∀ d ∈ ds, isDigit d = true) :
    ∀ kept ∈ trimmedFraction ds, Digits kept := by
  intro kept hkept
  obtain ⟨rfl, hne⟩ := trimmedFraction_eq_some hkept
  exact ⟨hne, fun d hd => hds d ((dropZeros_begins ds).subset hd)⟩

/-- Of a point and digits the writer leaves what the trimmed fraction is written as. -/
theorem trimFraction_eq (head : Bytes) (hds : ∀ d ∈ ds, isDigit d = true) :
    Writer.trimFraction (head ++ '.'.toUInt8 :: ds) =
      head ++ fractionText (trimmedFraction ds) := by
  have hpoint : ('.'.toUInt8 :: head.reverse).dropWhile (· == '0'.toUInt8) =
      '.'.toUInt8 :: head.reverse := List.dropWhile_cons_of_neg (by decide)
  have hdrop : ((head ++ '.'.toUInt8 :: ds).reverse.dropWhile (· == '0'.toUInt8)).reverse =
      head ++ '.'.toUInt8 :: dropZeros ds := by
    rw [dropZeros, List.reverse_append, List.reverse_cons, List.append_assoc,
      List.dropWhile_append, List.singleton_append, hpoint]
    split
    · next hempty =>
      rw [List.isEmpty_iff.1 hempty]
      simp
    · simp
  have hdigits := digits_trimmedFraction hds
  unfold Writer.trimFraction trimmedFraction at *
  rw [hdrop]
  generalize dropZeros ds = kept at hdigits ⊢
  rcases kept.eq_nil_or_concat with rfl | ⟨front, last, hconcat⟩
  · simp [fractionText]
  · rw [List.concat_eq_append] at hconcat
    subst hconcat
    have hne : front ++ [last] ≠ [] := by simp
    have hlast : last ≠ '.'.toUInt8 := by
      rintro rfl
      rw [if_neg hne] at hdigits
      have hpoint := (hdigits _ rfl).2 '.'.toUInt8 (List.mem_append_right _ List.mem_cons_self)
      revert hpoint
      decide
    have hend : (head ++ '.'.toUInt8 :: (front ++ [last])).getLast? = some last := by
      rw [← List.cons_append, ← List.append_assoc, List.getLast?_concat]
    dsimp only
    rw [hend, if_neg (by simpa using hlast), if_neg hne]
    rfl

theorem digit_of_mem_whole (legal : LegalNumeral n) : ∀ d ∈ n.whole, isDigit d = true := by
  rcases legal.whole with hzero | ⟨hdigits, -⟩
  · rw [hzero, List.forall_mem_singleton]
    decide
  · exact hdigits.2

theorem not_mem_front (legal : LegalNumeral n) {b : UInt8} (digit : isDigit b = false)
    (minus : b ≠ '-'.toUInt8) : b ∉ minusText n.negative ++ n.whole := by
  intro h
  rcases List.mem_append.1 h with hsign | hwhole
  · cases hnegative : n.negative with
    | true =>
      rw [hnegative] at hsign
      exact minus (List.mem_singleton.1 hsign)
    | false =>
      rw [hnegative] at hsign
      cases hsign
  · rw [digit_of_mem_whole legal b hwhole] at digit
    cases digit

theorem text_trimmed (legal : LegalNumeral n) (small : ∀ e ∈ n.exponent, e.upper = false) :
    n.trimmed.text =
      if '.'.toUInt8 ∈ n.text ∧ 'e'.toUInt8 ∉ n.text then Writer.trimFraction n.text
      else n.text := by
  unfold trimmed
  cases hexponent : n.exponent with
  | some e =>
    have hletter : 'e'.toUInt8 ∈ n.text := by
      rw [text_eq, hexponent, exponentText, exponent_text_eq, small e hexponent]
      simp
    rw [if_neg (by simp), if_neg fun h => h.2 hletter]
  | none =>
    have hpoint := not_mem_front legal (b := '.'.toUInt8) (by decide) (by decide)
    have hletter := not_mem_front legal (b := 'e'.toUInt8) (by decide) (by decide)
    rw [if_pos rfl, text_eq, text_eq n, hexponent]
    cases hfraction : n.fraction with
    | none =>
      simp only [Option.bind_none, fractionText, exponentText, List.append_nil]
      rw [if_neg fun h => hpoint h.1]
    | some ds =>
      have hds := legal.fraction ds hfraction
      have hletter' : 'e'.toUInt8 ∉ '.'.toUInt8 :: ds := by
        intro h
        rcases List.mem_cons.1 h with h | h
        · revert h
          decide
        · have hdigit := hds.2 _ h
          revert hdigit
          decide
      simp only [Option.bind_some, fractionText, exponentText, List.append_nil]
      rw [← List.append_assoc, ← List.append_assoc, if_pos ⟨List.mem_append_right _
        List.mem_cons_self, fun h => (List.mem_append.1 h).elim hletter hletter'⟩]
      exact (trimFraction_eq _ hds.2).symm

theorem legal_trimmed (legal : LegalNumeral n) : LegalNumeral n.trimmed := by
  unfold trimmed
  split
  · refine ⟨legal.whole, fun kept hkept => ?_, legal.exponent⟩
    obtain ⟨ds, hds, hkept⟩ := Option.bind_eq_some_iff.1 hkept
    exact digits_trimmedFraction (legal.fraction ds hds).2 kept hkept
  · exact legal

/-- A numeral is tidied by tidying its text. -/
theorem text_tidied (legal : LegalNumeral n) (small : ∀ e ∈ n.exponent, e.upper = false) :
    n.tidied.text = Writer.tidy n.text := by
  have hzero : (ofDigits false 0).text = utf8 "0" := by decide
  unfold tidied Writer.tidy
  dsimp only
  rw [apply_ite text, hzero, text_trimmed legal small]

theorem legal_tidied (legal : LegalNumeral n) : LegalNumeral n.tidied := by
  unfold tidied
  split
  · exact legal_ofDigits false 0
  · exact legal_trimmed legal

end Numeral

namespace NumberText
open Numeral (fractionText exponentText)

/-- All that is asked of a layout. Its exponents, which stand in large numbers only, have a small
letter. -/
structure Layout.Plain (l : Layout) : Prop where
  fixed : ∀ b places, HasPlaces b places (l.fixed b places)
  scientific : ∀ x b, Binary.ofFloat? x = some b → x.abs ≥ 1e17 → ∃ n : Numeral,
    LegalNumeral n ∧ n.text = l.scientific b ∧ n.text.length ≤ 30 ∧
      ∀ e ∈ n.exponent, e.upper = false

theorem legal_whole (n : Nat) :
    Decimal.digits n = ['0'.toUInt8] ∨
      Digits (Decimal.digits n) ∧ (Decimal.digits n).head? ≠ some '0'.toUInt8 :=
  (Numeral.legal_ofDigits false n).whole

theorem HasPlaces.exists_numeral {b : Binary} {places : Nat} {text : Bytes}
    (h : HasPlaces b places text) : ∃ n : Numeral, LegalNumeral n ∧ n.text = text ∧
      n.exponent = none ∧ ∀ ds ∈ n.fraction, ds.length = places := by
  obtain ⟨negative, whole, ds, -, hlength, hdigits, rfl⟩ := h
  by_cases hplaces : places = 0
  · rw [if_pos hplaces, List.append_nil]
    exact ⟨.ofDigits negative whole, Numeral.legal_ofDigits negative whole,
      Numeral.text_ofDigits negative whole, rfl, nofun⟩
  · rw [if_neg hplaces]
    have hds : Digits ds := by
      refine ⟨?_, hdigits⟩
      rintro rfl
      exact hplaces hlength.symm
    refine ⟨⟨negative, Decimal.digits whole, some ds, none⟩, ⟨legal_whole whole, ?_, nofun⟩, ?_,
      rfl, ?_⟩
    · rintro _ ⟨⟩
      exact hds
    · rw [Numeral.text_eq, List.append_assoc]
      simp only [fractionText, exponentText, List.append_nil]
      rfl
    · rintro _ ⟨⟩
      exact hlength

theorem exists_numeral_scientific (b : Binary) : ∃ n : Numeral, LegalNumeral n ∧
    n.text = scientific b ∧ ∀ e ∈ n.exponent, e.upper = false := by
  unfold scientific withExponent
  generalize Shortest.decimal b = d
  dsimp only
  generalize hn : d.exponent + ((Decimal.digits d.coefficient).length - 1 : Nat) = n
  let e : Exponent := ⟨false, if n < 0 then some true else none, Decimal.digits n.natAbs⟩
  have he : 'e'.toUInt8 :: integer n = e.text := by
    rw [Numeral.exponent_text_eq]
    unfold integer sign
    by_cases h : n < 0 <;> simp [e, h, Numeral.signText]
  have hexponent : ∀ x ∈ some e, Digits x.digits := by
    rintro _ ⟨⟩
    exact Numeral.digits_digits n.natAbs
  have hsmall : ∀ x ∈ some e, x.upper = false := by
    rintro _ ⟨⟩
    rfl
  have hall : ∀ b ∈ Decimal.digits d.coefficient, isDigit b = true :=
    fun _ hb => Decimal.isDigit_of_mem_digits hb
  have hhead : ∀ first rest, Decimal.digits d.coefficient = first :: rest →
      [first] = ['0'.toUInt8] ∨ Digits [first] ∧ [first].head? ≠ some '0'.toUInt8 := by
    intro first rest hdigits
    by_cases hzero : first = '0'.toUInt8
    · exact .inl (by rw [hzero])
    · refine .inr ⟨⟨List.cons_ne_nil _ _, fun b hb => ?_⟩, by simpa using hzero⟩
      rw [List.mem_singleton.1 hb]
      exact hall first (by rw [hdigits]; exact List.mem_cons_self)
  rw [he]
  rcases hdigits : Decimal.digits d.coefficient with _ | ⟨first, _ | ⟨second, rest⟩⟩
  · exact absurd hdigits (Decimal.digits_ne_nil _)
  · refine ⟨⟨b.negative, [first], none, some e⟩, ⟨hhead _ _ hdigits, ?_, hexponent⟩, ?_, hsmall⟩
    · rintro _ ⟨⟩
    · rw [Numeral.text_eq]
      rfl
  · have hfraction : Digits (second :: rest) := by
      refine ⟨List.cons_ne_nil _ _, fun b hb => hall b ?_⟩
      rw [hdigits]
      exact List.mem_cons_of_mem first hb
    refine ⟨⟨b.negative, [first], some (second :: rest), some e⟩,
      ⟨hhead _ _ hdigits, ?_, hexponent⟩, ?_, hsmall⟩
    · rintro _ ⟨⟩
      exact hfraction
    · rw [Numeral.text_eq]
      rfl

theorem plain_rounded : Layout.rounded.Plain where
  fixed := hasPlaces_fixed
  scientific x b h hlarge := by
    obtain ⟨n, legal, htext, hsmall⟩ := exists_numeral_scientific b
    have hlength := length_scientific h hlarge
    exact ⟨n, legal, htext, by rw [htext]; omega, hsmall⟩

end NumberText

namespace Writer
open NumberText (Layout)

/-- A plain layout gives a numeral that has room before it is tidied. -/
theorem exists_laidOut {l : Layout} (plain : l.Plain) {x : Float} {b : Binary}
    (h : Binary.ofFloat? x = some b) (places : Nat) :
    ∃ n : Numeral, LegalNumeral n ∧ n.text = laidOut l x b places ∧
      n.text.length ≤ scratchSize ∧ (∀ e ∈ n.exponent, e.upper = false) ∧
      (¬ x.abs ≥ 1e17 →
        n.exponent = none ∧ ∀ ds ∈ n.fraction, ds.length ≤ min places maxPlaces) := by
  unfold laidOut
  split
  · next hlarge =>
    obtain ⟨n, legal, htext, hlength, hsmall⟩ := plain.scientific x b h hlarge
    exact ⟨n, legal, htext, Nat.le_trans hlength (by decide), hsmall,
      fun hnot => absurd hlarge hnot⟩
  · next hsmall =>
    have hplaces := plain.fixed b (min places maxPlaces)
    have hlength := hplaces.length_le (Binary.isDouble_of_ofFloat? h)
      (Binary.exponent_le_four h hsmall)
    have hmost : min places maxPlaces ≤ 15 := Nat.min_le_right _ _
    obtain ⟨n, legal, htext, hexponent, hfraction⟩ := hplaces.exists_numeral
    refine ⟨n, legal, htext, ?_, ?_, fun _ => ⟨hexponent, fun ds hds => ?_⟩⟩
    · rw [htext, scratchSize]
      omega
    · rw [hexponent]
      exact nofun
    · exact Nat.le_of_eq (hfraction ds hds)

/-- The room in which numbers are laid out is always enough. -/
theorem floatBy_eq {l : Layout} (plain : l.Plain) {x : Float} {b : Binary}
    (h : Binary.ofFloat? x = some b) (places : Nat) :
    floatBy l x places = item [tidy (laidOut l x b places)] .value := by
  obtain ⟨n, -, htext, hlength, -⟩ := exists_laidOut plain h places
  rw [htext] at hlength
  funext w
  rw [floatBy, h]
  exact if_neg (Nat.not_lt.2 hlength)

theorem float_eq {x : Float} {b : Binary} (h : Binary.ofFloat? x = some b) (places : Nat) :
    Writer.float x places = item [numberText x b places] .value :=
  floatBy_eq NumberText.plain_rounded h places

theorem float_eq_error {x : Float} (h : Binary.ofFloat? x = none) (places : Nat) (w : Writer) :
    Writer.float x places w = .error .invalidArgument w := by
  rw [Writer.float, floatBy, h]

theorem exists_numberText {x : Float} {b : Binary} (h : Binary.ofFloat? x = some b)
    (places : Nat) : ∃ n : Numeral, LegalNumeral n ∧ n.text = numberText x b places := by
  obtain ⟨n, legal, htext, -, hsmall, -⟩ := exists_laidOut NumberText.plain_rounded h places
  exact ⟨n.tidied, Numeral.legal_tidied legal, by rw [Numeral.text_tidied legal hsmall, htext]; rfl⟩

end Writer

end HubDevice
