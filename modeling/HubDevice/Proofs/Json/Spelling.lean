import HubDevice.Proofs.Json.Strings

set_option autoImplicit false

namespace HubDevice

namespace Grammar
open StringBody (quote backslash)

def codeUnit (h : Bytes) : Nat := h.foldl (fun u b => u * 16 + hexValue b) 0

/-- Raw bytes stand for themselves and an escape for one character. A high surrogate stands for
nothing unless a low one follows it. -/
inductive Spells : Bytes → Bytes → Prop
  | nil : Spells [] []
  | raw {b : UInt8} {s t : Bytes} (plain : b ≠ backslash) (rest : Spells s t) :
    Spells (b :: s) (b :: t)
  | short {e c : UInt8} {s t : Bytes} (letter : (e, c) ∈ shortEscapes) (rest : Spells s t) :
    Spells (backslash :: e :: s) (c :: t)
  | unit {h s t : Bytes} {c : Char} (hex : FourHex h) (value : codeUnit h = c.toNat)
    (rest : Spells s t) :
    Spells (backslash :: 'u'.toUInt8 :: (h ++ s)) (String.utf8EncodeChar c ++ t)
  | pair {h l s t : Bytes} {c : Char} (hex : FourHex h) (hex' : FourHex l)
    (high : 0xD800 ≤ codeUnit h ∧ codeUnit h < 0xDC00)
    (low : 0xDC00 ≤ codeUnit l ∧ codeUnit l < 0xE000)
    (value : c.toNat = 0x10000 + (codeUnit h - 0xD800) * 0x400 + (codeUnit l - 0xDC00))
    (rest : Spells s t) :
    Spells (backslash :: 'u'.toUInt8 :: (h ++ backslash :: 'u'.toUInt8 :: (l ++ s)))
      (String.utf8EncodeChar c ++ t)

end Grammar

namespace StringBody
open Grammar

theorem toNat_ofNat {n : Nat} (h : n.isValidChar) : (Char.ofNat n).toNat = n := by
  rw [Char.ofNat, dif_pos h]
  rfl

theorem hexValue_lt (b : UInt8) : hexValue b < 16 := by
  unfold hexValue
  split
  · next h =>
    simp only [isDigit, Bool.and_eq_true, decide_eq_true_eq, UInt8.le_iff_toNat_le] at h
    have nine : '9'.toUInt8.toNat = 57 := rfl
    omega
  · split
    · next h =>
      simp only [Bool.and_eq_true, decide_eq_true_eq, UInt8.le_iff_toNat_le] at h
      have f : 'f'.toUInt8.toNat = 102 := rfl
      omega
    · split
      · next h =>
        simp only [Bool.and_eq_true, decide_eq_true_eq, UInt8.le_iff_toNat_le] at h
        have f : 'F'.toUInt8.toNat = 70 := rfl
        omega
      · omega

theorem fourHex_cases {h : Bytes} (hex : FourHex h) :
    ∃ a b c d, h = [a, b, c, d] ∧ [a, b, c, d].all isHexDigit = true ∧
      codeUnit h = ((hexValue a * 16 + hexValue b) * 16 + hexValue c) * 16 + hexValue d := by
  obtain ⟨four, hall⟩ := hex
  match h, four with
  | [a, b, c, d], _ =>
    refine ⟨a, b, c, d, rfl, List.all_eq_true.2 hall, ?_⟩
    simp [codeUnit]

theorem codeUnit_lt {h : Bytes} (hex : FourHex h) : codeUnit h < 0x10000 := by
  obtain ⟨a, b, c, d, -, -, hvalue⟩ := fourHex_cases hex
  have ha := hexValue_lt a
  have hb := hexValue_lt b
  have hc := hexValue_lt c
  have hd := hexValue_lt d
  omega

theorem codeUnit?_append {h : Bytes} (hex : FourHex h) (s : Bytes) :
    codeUnit? (h ++ s) = some (codeUnit h) := by
  obtain ⟨a, b, c, d, rfl, hall, hvalue⟩ := fourHex_cases hex
  rw [hvalue]
  exact if_pos hall

theorem codeUnit?_sound {s : Bytes} {u : Nat} (h : codeUnit? s = some u) :
    ∃ hex rest, s = hex ++ rest ∧ FourHex hex ∧ u = codeUnit hex := by
  unfold codeUnit? at h
  split at h
  · next a b c d rest =>
    split at h
    · next hall =>
      have hex : FourHex [a, b, c, d] := ⟨rfl, List.all_eq_true.1 hall⟩
      obtain ⟨_, _, _, _, heq, -, hvalue⟩ := fourHex_cases hex
      cases heq
      injection h with h
      exact ⟨[a, b, c, d], rest, rfl, hex, by rw [hvalue, h]⟩
    · cases h
  · cases h

theorem drop_fourHex {h : Bytes} (hex : FourHex h) (s : Bytes) : (h ++ s).drop 4 = s := by
  rw [← hex.1, List.drop_left]

theorem escape?_short {e c : UInt8} (letter : (e, c) ∈ shortEscapes) (s : Bytes) :
    escape? (e :: s) = some ([c], 1) := by
  rw [escape?, if_neg (shortEscape_ne_unit letter), shortEscape?_eq_some_iff.2 letter]
  rfl

theorem escape?_unit {h : Bytes} {c : Char} (hex : FourHex h) (value : codeUnit h = c.toNat)
    (s : Bytes) : escape? ('u'.toUInt8 :: (h ++ s)) = some (String.utf8EncodeChar c, 5) := by
  have hvalid : c.toNat < 0xD800 ∨ 0xDFFF < c.toNat ∧ c.toNat < 0x110000 := c.valid
  have hhigh : isHighSurrogate c.toNat = false := by
    simp only [isHighSurrogate, Bool.and_eq_false_iff, decide_eq_false_iff_not]
    omega
  have hlow : isLowSurrogate c.toNat = false := by
    simp only [isLowSurrogate, Bool.and_eq_false_iff, decide_eq_false_iff_not]
    omega
  simp only [escape?, if_true, codeUnit?_append hex, value, hhigh, hlow, Bool.false_eq_true,
    if_false, Char.ofNat_toNat]

theorem escape?_pair {h l : Bytes} {c : Char} (hex : FourHex h) (hex' : FourHex l)
    (high : 0xD800 ≤ codeUnit h ∧ codeUnit h < 0xDC00)
    (low : 0xDC00 ≤ codeUnit l ∧ codeUnit l < 0xE000)
    (value : c.toNat = 0x10000 + (codeUnit h - 0xD800) * 0x400 + (codeUnit l - 0xDC00))
    (s : Bytes) :
    escape? ('u'.toUInt8 :: (h ++ backslash :: 'u'.toUInt8 :: (l ++ s))) =
      some (String.utf8EncodeChar c, 11) := by
  have hhigh : isHighSurrogate (codeUnit h) = true := by
    simp only [isHighSurrogate, Bool.and_eq_true, decide_eq_true_eq]
    exact high
  have hlow : isLowSurrogate (codeUnit l) = true := by
    simp only [isLowSurrogate, Bool.and_eq_true, decide_eq_true_eq]
    exact low
  have hunit : unitEscape? (backslash :: 'u'.toUInt8 :: (l ++ s)) = some (codeUnit l) := by
    rw [unitEscape?, if_pos (by decide)]
    exact codeUnit?_append hex' s
  simp only [escape?, if_true, codeUnit?_append hex, hhigh, drop_fourHex hex, hunit, hlow,
    ← value, Char.ofNat_toNat]

theorem unescape_of_spells {s t : Bytes} (h : Spells s t) : unescape s = (t, true) := by
  induction h with
  | nil => rw [unescape]
  | raw plain _ ih => rw [unescape, if_neg plain, ih]
  | short letter _ ih =>
    rw [unescape, if_pos rfl, escape?_short letter]
    simp only [List.drop_succ_cons, List.drop_zero, ih, List.cons_append, List.nil_append]
  | unit hex value _ ih =>
    rw [unescape, if_pos rfl, escape?_unit hex value]
    simp only [List.drop_succ_cons, drop_fourHex hex, ih]
  | @pair h l s t c hex hex' high low value _ ih =>
    have hdrop : ('u'.toUInt8 :: (h ++ backslash :: 'u'.toUInt8 :: (l ++ s))).drop 11 = s := by
      rw [List.drop_succ_cons, show (10 : Nat) = 4 + (4 + 2) from rfl, ← List.drop_drop,
        drop_fourHex hex, Nat.add_comm 4 2, ← List.drop_drop]
      exact drop_fourHex hex' s
    rw [unescape, if_pos rfl, escape?_pair hex hex' high low value]
    simp only [hdrop, ih]

theorem spells_of_escape? {s out t : Bytes} {n : Nat} (h : escape? s = some (out, n))
    (rest : Spells (s.drop n) t) : Spells (backslash :: s) (out ++ t) := by
  match s, h with
  | e :: s, h =>
    simp only [escape?] at h
    split at h
    · next he =>
      subst he
      cases hu : codeUnit? s with
      | none => simp [hu] at h
      | some u =>
        obtain ⟨hex, tail, rfl, four, rfl⟩ := codeUnit?_sound hu
        have hlt := codeUnit_lt four
        simp only [hu, isHighSurrogate, isLowSurrogate, Bool.and_eq_true, decide_eq_true_eq,
          drop_fourHex four] at h
        split at h
        · next high =>
          split at h
          · cases h
          · next low hlow =>
            split at h
            · next hrange =>
              simp only [Option.some.injEq, Prod.mk.injEq] at h
              obtain ⟨rfl, rfl⟩ := h
              unfold unitEscape? at hlow
              split at hlow
              · next b u tail =>
                split at hlow
                · next hbu =>
                  simp only [Bool.and_eq_true, decide_eq_true_eq] at hbu
                  obtain ⟨rfl, rfl⟩ := hbu
                  obtain ⟨hex', tail', rfl, four', rfl⟩ := codeUnit?_sound hlow
                  refine .pair four four' high hrange (toNat_ofNat (.inr ?_)) ?_
                  · omega
                  · rw [List.drop_succ_cons, show (10 : Nat) = 4 + (4 + 2) from rfl,
                      ← List.drop_drop, drop_fourHex four, Nat.add_comm 4 2, ← List.drop_drop]
                      at rest
                    rwa [← drop_fourHex four' tail']
                · cases hlow
              · cases hlow
            · cases h
        · next high =>
          split at h
          · cases h
          · next low =>
            simp only [Option.some.injEq, Prod.mk.injEq] at h
            obtain ⟨rfl, rfl⟩ := h
            rw [List.drop_succ_cons, drop_fourHex four] at rest
            refine .unit four (toNat_ofNat ?_).symm rest
            simp only [Nat.isValidChar]
            omega
    · cases hc : shortEscape? e with
      | none => simp [hc] at h
      | some c =>
        simp only [hc, Option.map_some, Option.some.injEq, Prod.mk.injEq] at h
        obtain ⟨rfl, rfl⟩ := h
        exact .short (shortEscape?_eq_some_iff.1 hc) rest

theorem spells_of_unescape {s t : Bytes} (h : unescape s = (t, true)) : Spells s t := by
  induction s using unescape.induct generalizing t with
  | case1 =>
    rw [unescape] at h
    cases h
    exact .nil
  | case2 s he =>
    rw [unescape, if_pos rfl, he] at h
    cases h
  | case3 s out n he ih =>
    rw [unescape, if_pos rfl, he] at h
    simp only [Prod.mk.injEq] at h
    obtain ⟨rfl, hwhole⟩ := h
    exact spells_of_escape? he (ih (Prod.ext rfl hwhole))
  | case4 b s hb ih =>
    rw [unescape, if_neg hb] at h
    simp only [Prod.mk.injEq] at h
    obtain ⟨rfl, hwhole⟩ := h
    exact .raw hb (ih (Prod.ext rfl hwhole))

/-- A body stands for the bytes it is unescaped to. -/
theorem unescape_iff {s t : Bytes} : unescape s = (t, true) ↔ Spells s t :=
  ⟨spells_of_unescape, unescape_of_spells⟩

end StringBody

end HubDevice
