import HubDevice.Json.Integers
import HubDevice.Proofs.Json.Layouts
import HubDevice.Proofs.Json.Legality
import HubDevice.Proofs.Json.Texts

set_option autoImplicit false

namespace HubDevice

namespace Word

def signed (negative : Bool) (m : Nat) : Int := if negative then -m else m

variable {w : Word} {negative : Bool}

theorem checked_of_holds {v : Int} (h : w.Holds v) : w.checked v = some v := if_pos h

theorem checked_of_not_holds {v : Int} (h : ¬ w.Holds v) : w.checked v = none := if_neg h

theorem Holds.smaller {k m : Nat} (h : w.Holds (signed negative m)) (zero : w.Holds 0)
    (hle : k ≤ m) : w.Holds (signed negative k) := by
  unfold Holds at *
  cases negative with
  | false =>
    simp only [signed, Bool.false_eq_true, if_false] at h ⊢
    omega
  | true =>
    simp only [signed, if_true] at h ⊢
    omega

/-- A digit makes the magnitude ten times as large and adds to it. -/
theorem push_digit (zero : w.Holds 0) (m : Nat) {b : UInt8} (hb : isDigit b = true) :
    w.push negative (signed negative m) b =
      w.checked (signed negative (10 * m + (b.toNat - '0'.toNat))) := by
  have htenfold : 10 * signed negative m = signed negative (10 * m) := by
    cases negative <;> simp only [signed, Bool.false_eq_true, if_false, if_true] <;> omega
  have hsum : (if negative then signed negative (10 * m) - (b.toNat - '0'.toNat : Nat)
      else signed negative (10 * m) + (b.toNat - '0'.toNat : Nat)) =
        signed negative (10 * m + (b.toNat - '0'.toNat)) := by
    cases negative <;> simp only [signed, Bool.false_eq_true, if_false, if_true] <;> omega
  rw [push, if_pos hb, htenfold]
  by_cases hfits : w.Holds (signed negative (10 * m))
  · rw [checked_of_holds hfits, Option.bind_eq_bind, Option.bind_some]
    dsimp only
    rw [hsum]
  · have hover : ¬ w.Holds (signed negative (10 * m + (b.toNat - '0'.toNat))) := fun h =>
      hfits (h.smaller zero (Nat.le_add_right _ _))
    rw [checked_of_not_holds hfits, checked_of_not_holds hover]
    rfl

theorem le_ofDigitChars (cs : List Char) (m : Nat) : m ≤ Nat.ofDigitChars 10 cs m := by
  rw [Nat.ofDigitChars_eq_ofDigitChars_zero]
  have hscaled : m ≤ 10 ^ cs.length * m := Nat.le_mul_of_pos_left m (Nat.pow_pos (by decide))
  omega

/-- Digits are taken in up to a number that the word holds, or not at all. -/
theorem foldlM_push {ds : Bytes} (zero : w.Holds 0) (hds : ∀ b ∈ ds, isDigit b = true) {m : Nat}
    (h : w.Holds (signed negative m)) :
    ds.foldlM (w.push negative) (signed negative m) =
      w.checked (signed negative (Nat.ofDigitChars 10 (ds.map Char.ofUInt8) m)) := by
  induction ds generalizing m with
  | nil => exact (checked_of_holds h).symm
  | cons b ds ih =>
    obtain ⟨hb, hrest⟩ := List.forall_mem_cons.1 hds
    rw [List.foldlM_cons, push_digit zero m hb, List.map_cons, Nat.ofDigitChars_cons]
    change w.checked (signed negative (10 * m + (b.toNat - '0'.toNat))) >>= _ =
      w.checked (signed negative
        (Nat.ofDigitChars 10 (ds.map Char.ofUInt8) (10 * m + (b.toNat - '0'.toNat))))
    by_cases hnext : w.Holds (signed negative (10 * m + (b.toNat - '0'.toNat)))
    · rw [checked_of_holds hnext]
      exact ih hrest hnext
    · have hover : ¬ w.Holds (signed negative
          (Nat.ofDigitChars 10 (ds.map Char.ofUInt8) (10 * m + (b.toNat - '0'.toNat)))) := fun h =>
        hnext (h.smaller zero (le_ofDigitChars _ _))
      rw [checked_of_not_holds hnext, checked_of_not_holds hover]
      rfl

theorem foldlM_push_of_not_digit {s : Bytes} (h : ∃ b ∈ s, isDigit b = false) (v : Int) :
    s.foldlM (w.push negative) v = none := by
  induction s generalizing v with
  | nil =>
    obtain ⟨b, hb, -⟩ := h
    cases hb
  | cons c s ih =>
    rw [List.foldlM_cons]
    by_cases hc : isDigit c = true
    · have hs : ∃ b ∈ s, isDigit b = false := by
        obtain ⟨b, hb, hdigit⟩ := h
        rcases List.mem_cons.1 hb with rfl | hb
        · rw [hdigit] at hc
          cases hc
        · exact ⟨b, hb, hdigit⟩
      cases hpush : w.push negative v c with
      | none => rfl
      | some u => exact ih hs u
    · rw [push, if_neg hc]
      rfl

theorem digits_of_digits {ds : Bytes} (zero : w.Holds 0) (hds : Grammar.Digits ds) :
    w.digits negative ds = w.checked (signed negative (Decimal.value ds)) := by
  have hzero : signed negative 0 = 0 := by cases negative <;> rfl
  have hfold : ds.foldlM (w.push negative) (signed negative 0) = _ :=
    foldlM_push zero hds.2 (by rwa [hzero])
  rw [hzero] at hfold
  rw [digits, if_neg hds.1, hfold]
  rfl

theorem digits_of_not_digit {s : Bytes} (h : ∃ b ∈ s, isDigit b = false) :
    w.digits negative s = none := by
  unfold digits
  split
  · rfl
  · exact foldlM_push_of_not_digit h 0

end Word

namespace Numeral

open Grammar
open Word (signed)

variable {n : Numeral}

def Plain (n : Numeral) : Prop := n.fraction = none ∧ n.exponent = none

instance (n : Numeral) : Decidable n.Plain :=
  inferInstanceAs (Decidable (n.fraction = none ∧ n.exponent = none))

theorem digits_whole (legal : LegalNumeral n) : Digits n.whole := by
  rcases legal.whole with h | ⟨h, -⟩
  · rw [h]
    exact ⟨List.cons_ne_nil _ _, List.forall_mem_singleton.2 (by decide)⟩
  · exact h

theorem text_plain (plain : n.Plain) : n.text = minusText n.negative ++ n.whole := by
  rw [text_eq, plain.1, plain.2, fractionText, exponentText, List.append_nil, List.append_nil]

theorem exists_not_digit (h : ¬ n.Plain) :
    ∃ b ∈ n.whole ++ (fractionText n.fraction ++ exponentText n.exponent), isDigit b = false := by
  cases hfraction : n.fraction with
  | some ds => exact ⟨'.'.toUInt8, by simp [fractionText], by decide⟩
  | none =>
    cases hexponent : n.exponent with
    | none => exact absurd ⟨hfraction, hexponent⟩ h
    | some e =>
      refine ⟨(if e.upper then 'E' else 'e').toUInt8, ?_, ?_⟩
      · simp [exponentText, exponent_text_eq]
      · cases e.upper <;> decide

/-- A minus, a fraction or an exponent is what stands in a number besides digits. -/
theorem digits_only_iff (legal : LegalNumeral n) :
    (∀ b ∈ n.text, isDigit b = true) ↔ n.negative = false ∧ n.Plain := by
  constructor
  · intro h
    have plain : n.Plain := by
      by_contra hplain
      obtain ⟨b, hb, hdigit⟩ := exists_not_digit hplain
      rw [text_eq] at h
      rw [h b (List.mem_append_right _ hb)] at hdigit
      cases hdigit
    refine ⟨?_, plain⟩
    cases hnegative : n.negative with
    | false => rfl
    | true =>
      rw [text_plain plain, hnegative] at h
      exact absurd (h '-'.toUInt8 (by simp [minusText])) (by decide)
  · rintro ⟨hnegative, plain⟩
    rw [text_plain plain, hnegative]
    exact (digits_whole legal).2

theorem value_plain (plain : n.Plain) :
    n.value = (signed n.negative (Decimal.value n.whole) : ℚ) := by
  have hscale : n.scale = 0 := by rw [scale, plain.1, plain.2]; rfl
  have hsignificand : n.significand = Decimal.value n.whole := by
    rw [significand, plain.1, Option.getD_none, List.append_nil]
  rw [value, hscale, hsignificand, zpow_zero, mul_one, signed]
  cases n.negative <;> simp

theorem integer?_of_plain (plain : n.Plain) :
    n.integer? = some (signed n.negative (Decimal.value n.whole)) := by
  rw [integer?, plain.1, plain.2]
  rfl

theorem integer?_of_not_plain (h : ¬ n.Plain) : n.integer? = none := by
  unfold integer?
  rw [if_pos]
  cases hfraction : n.fraction with
  | some ds => rfl
  | none =>
    cases hexponent : n.exponent with
    | none => exact absurd ⟨hfraction, hexponent⟩ h
    | some e => rfl

/-- A word reads an integer of the sign that it has, if it holds it, and no other number. -/
theorem read_text {w : Word} (zero : w.Holds 0) (legal : LegalNumeral n) :
    w.read n.text =
      if n.Plain ∧ (n.negative = true → w.lowest < 0) then
        w.checked (signed n.negative (Decimal.value n.whole))
      else none := by
  obtain ⟨d, ds, hwhole, hd⟩ := head?_whole legal
  have hdigits (negative : Bool) :
      w.digits negative (n.whole ++ (fractionText n.fraction ++ exponentText n.exponent)) =
        if n.Plain then w.checked (signed negative (Decimal.value n.whole)) else none := by
    split
    · next plain =>
      rw [plain.1, plain.2, fractionText, exponentText, List.append_nil, List.append_nil]
      exact Word.digits_of_digits zero (digits_whole legal)
    · next h => exact Word.digits_of_not_digit (exists_not_digit h)
  rw [text_eq]
  cases hnegative : n.negative with
  | true =>
    have hminus : minusText true ++
        (n.whole ++ (fractionText n.fraction ++ exponentText n.exponent)) =
          '-'.toUInt8 :: (n.whole ++ (fractionText n.fraction ++ exponentText n.exponent)) := rfl
    have hplus : '-'.toUInt8 ≠ '+'.toUInt8 := by decide
    rw [hminus, Word.read, if_neg hplus]
    by_cases hlowest : w.lowest < 0
    · rw [if_pos (by simp [hlowest]), hdigits]
      simp [hlowest]
    · rw [if_neg (by simp [hlowest]),
        Word.digits_of_not_digit ⟨'-'.toUInt8, List.mem_cons_self, by decide⟩]
      simp [hlowest]
  | false =>
    have hplus : d ≠ '+'.toUInt8 := by
      rintro rfl
      exact absurd hd (by decide)
    have hminus : d ≠ '-'.toUInt8 := by
      rintro rfl
      exact absurd hd (by decide)
    have hnone : minusText false ++
        (n.whole ++ (fractionText n.fraction ++ exponentText n.exponent)) =
          d :: (ds ++ (fractionText n.fraction ++ exponentText n.exponent)) := by
      rw [hwhole]
      rfl
    rw [hnone, Word.read, if_neg hplus, if_neg (by simp [hminus]), ← List.cons_append, ← hwhole,
      hdigits]
    simp

theorem int32?_eq (legal : LegalNumeral n) :
    n.int32? = (Word.signed32.read n.text).map Int32.ofInt := by
  rw [read_text (by decide) legal, int32?]
  by_cases plain : n.Plain
  · have hlowest : Word.signed32.lowest < 0 := by decide
    rw [integer?_of_plain plain, if_pos ⟨plain, fun _ => hlowest⟩]
    dsimp only
    by_cases holds : Word.signed32.Holds (signed n.negative (Decimal.value n.whole))
    · rw [Word.checked_of_holds holds]
      refine if_pos ?_
      rw [Bool.and_eq_true, decide_eq_true_iff, decide_eq_true_iff]
      exact holds
    · rw [Word.checked_of_not_holds holds]
      refine if_neg fun h => holds ?_
      rwa [Bool.and_eq_true, decide_eq_true_iff, decide_eq_true_iff] at h
  · rw [integer?_of_not_plain plain, if_neg fun h => plain h.1]
    rfl

theorem uint32?_eq (legal : LegalNumeral n) :
    n.uint32? = (Word.unsigned32.read n.text).map fun v => v.toNat.toUInt32 := by
  rw [read_text (by decide) legal, uint32?]
  by_cases plain : n.Plain
  · rw [integer?_of_plain plain]
    dsimp only
    cases hnegative : n.negative with
    | true => simp [Word.unsigned32]
    | false =>
      have hread : n.Plain ∧ (false = true → Word.unsigned32.lowest < 0) :=
        ⟨plain, fun h => absurd h Bool.false_ne_true⟩
      rw [if_pos hread]
      by_cases holds : Word.unsigned32.Holds (signed false (Decimal.value n.whole))
      · rw [Word.checked_of_holds holds]
        refine if_pos ?_
        obtain ⟨-, hle⟩ := holds
        change _ ≤ (UInt32.size : Int) - 1 at hle
        have hlt : signed false (Decimal.value n.whole) < UInt32.size := by omega
        rw [decide_eq_true hlt]
        rfl
      · rw [Word.checked_of_not_holds holds]
        refine if_neg fun h => holds ⟨Int.natCast_nonneg _, Int.le_sub_one_of_lt ?_⟩
        rw [Bool.and_eq_true, decide_eq_true_iff] at h
        exact h.2
  · rw [integer?_of_not_plain plain, if_neg fun h => plain h.1]
    rfl

end Numeral

namespace Cursor

open Grammar
open Word (signed checked_of_holds checked_of_not_holds)

/-- A number is read as the integer that is wanted of it, or else refused. -/
structure Settles {α : Type} (result : Except Error α) (toInt : α → Int) (Wanted : Int → Prop) :
    Prop where
  ok : ∀ v, result.map toInt = .ok v ↔ Wanted v
  refused : (¬ ∃ v, Wanted v) → result = .error (.json .invalidNumber)

variable {c : Cursor} {r : Reader} {n : Numeral} {w : Word}

def IsIn (n : Numeral) (w : Word) (v : Int) : Prop :=
  n.Plain ∧ (n.negative = true → w.lowest < 0) ∧ n.value = v ∧ w.Holds v

theorem read_eq_some_iff (zero : w.Holds 0) (legal : LegalNumeral n) {v : Int} :
    w.read n.text = some v ↔ IsIn n w v := by
  rw [Numeral.read_text zero legal]
  unfold IsIn
  constructor
  · intro h
    split at h
    · next hplain =>
      by_cases holds : w.Holds (signed n.negative (Decimal.value n.whole))
      · rw [checked_of_holds holds] at h
        obtain rfl := Option.some.inj h
        exact ⟨hplain.1, hplain.2, Numeral.value_plain hplain.1, holds⟩
      · rw [checked_of_not_holds holds] at h
        cases h
    · cases h
  · rintro ⟨plain, sign, hvalue, holds⟩
    rw [Numeral.value_plain plain, Rat.intCast_inj] at hvalue
    rw [if_pos ⟨plain, sign⟩, hvalue]
    exact checked_of_holds holds

theorem integer_eq (hkind : c.kind = .number) (hslice : c.slice = n.text)
    (legal : LegalNumeral n) (w : Word) :
    c.integer w =
      match w.read n.text with
      | some v => .ok v
      | none => .error (.json .invalidNumber) := by
  obtain ⟨t, ht⟩ := (Numeral.ascii_text legal).isText
  have htext : text? n.text = some t := text?_eq_some_iff.2 ht
  unfold integer
  rw [if_neg (not_not.2 hkind), hslice]
  cases w.read n.text <;> rw [htext]

/-- Whatever holds the integers of the word, a number is settled in it. -/
theorem integer_settles (hkind : c.kind = .number) (hslice : c.slice = n.text)
    (legal : LegalNumeral n) (zero : w.Holds 0) {α : Type} (ofInt : Int → α) (toInt : α → Int)
    (faithful : ∀ v, w.Holds v → toInt (ofInt v) = v) :
    Settles ((c.integer w).map ofInt) toInt (IsIn n w) := by
  rw [integer_eq hkind hslice legal]
  cases hread : w.read n.text with
  | some u =>
    have hwanted := (read_eq_some_iff zero legal).1 hread
    refine ⟨fun v => ?_, fun h => absurd ⟨u, hwanted⟩ h⟩
    change Except.ok (toInt (ofInt u)) = Except.ok v ↔ _
    rw [faithful u hwanted.2.2.2, ← read_eq_some_iff zero legal, hread]
    simp
  | none =>
    have hnone (v : Int) : ¬ IsIn n w v := by
      rw [← read_eq_some_iff zero legal, hread]
      nofun
    exact ⟨fun v => iff_of_false nofun (hnone v), fun _ => rfl⟩

theorem isIn_signed32 {v : Int} : IsIn n .signed32 v ↔
    n.fraction = none ∧ n.exponent = none ∧ n.value = v ∧ -2 ^ 31 ≤ v ∧ v ≤ 2 ^ 31 - 1 := by
  have hlowest : Word.signed32.lowest = -2 ^ 31 := by decide
  have hhighest : Word.signed32.highest = 2 ^ 31 - 1 := by decide
  unfold IsIn Numeral.Plain Word.Holds
  rw [hlowest, hhighest, and_assoc]
  simp

theorem isIn_unsigned32 (legal : LegalNumeral n) {v : Int} : IsIn n .unsigned32 v ↔
    (∀ b ∈ n.text, isDigit b = true) ∧ n.value = v ∧ v ≤ 2 ^ 32 - 1 := by
  have hlowest : Word.unsigned32.lowest = 0 := rfl
  have hhighest : Word.unsigned32.highest = 2 ^ 32 - 1 := by decide
  unfold IsIn Word.Holds
  rw [Numeral.digits_only_iff legal, hlowest, hhighest]
  constructor
  · rintro ⟨plain, sign, hvalue, -, hle⟩
    exact ⟨⟨by simpa using sign, plain⟩, hvalue, hle⟩
  · rintro ⟨⟨hnegative, plain⟩, hvalue, hle⟩
    refine ⟨plain, by simp [hnegative], hvalue, ?_, hle⟩
    rw [Numeral.value_plain plain, hnegative, Rat.intCast_inj] at hvalue
    rw [← hvalue]
    exact Int.natCast_nonneg _

theorem int32_settles (hkind : c.kind = .number) (hslice : c.slice = n.text)
    (legal : LegalNumeral n) : Settles c.int32 Int32.toInt fun v =>
      n.fraction = none ∧ n.exponent = none ∧ n.value = v ∧ -2 ^ 31 ≤ v ∧ v ≤ 2 ^ 31 - 1 := by
  have faithful (v : Int) (holds : Word.signed32.Holds v) : (Int32.ofInt v).toInt = v :=
    Int32.toInt_ofInt_of_le holds.1 (Int.lt_of_le_sub_one holds.2)
  have hsettles := integer_settles hkind hslice legal (by decide) _ _ faithful
  have hwanted : IsIn n .signed32 = fun v : Int =>
      n.fraction = none ∧ n.exponent = none ∧ n.value = v ∧ -2 ^ 31 ≤ v ∧ v ≤ 2 ^ 31 - 1 :=
    funext fun v => propext isIn_signed32
  rw [hwanted] at hsettles
  exact hsettles

theorem uint32_settles (hkind : c.kind = .number) (hslice : c.slice = n.text)
    (legal : LegalNumeral n) : Settles c.uint32 (fun u => u.toNat) fun v =>
      (∀ b ∈ n.text, isDigit b = true) ∧ n.value = v ∧ v ≤ 2 ^ 32 - 1 := by
  have faithful (v : Int) (holds : Word.unsigned32.Holds v) :
      (v.toNat.toUInt32.toNat : Int) = v := by
    obtain ⟨hnonneg, hle⟩ := holds
    change (0 : Int) ≤ v at hnonneg
    change v ≤ (UInt32.size : Int) - 1 at hle
    have hsize : v.toNat < UInt32.size := by omega
    rw [Nat.toUInt32, UInt32.toNat_ofNat_of_lt' hsize, Int.toNat_of_nonneg hnonneg]
  have hsettles := integer_settles hkind hslice legal (by decide) (fun v => v.toNat.toUInt32)
    (fun u => (u.toNat : Int)) faithful
  have hwanted : IsIn n .unsigned32 = fun v : Int =>
      (∀ b ∈ n.text, isDigit b = true) ∧ n.value = v ∧ v ≤ 2 ^ 32 - 1 :=
    funext fun v => propext (isIn_unsigned32 legal)
  rw [hwanted] at hsettles
  exact hsettles

theorem int32_eq (hkind : c.kind = .number) (hslice : c.slice = n.text) (legal : LegalNumeral n) :
    c.int32 = (Token.number n).int32 := by
  rw [int32, integer_eq hkind hslice legal, Token.int32, Token.numeral]
  dsimp only
  rw [Numeral.int32?_eq legal]
  cases Word.signed32.read n.text <;> rfl

theorem uint32_eq (hkind : c.kind = .number) (hslice : c.slice = n.text)
    (legal : LegalNumeral n) : c.uint32 = (Token.number n).uint32 := by
  rw [uint32, integer_eq hkind hslice legal, Token.uint32, Token.numeral]
  dsimp only
  rw [Numeral.uint32?_eq legal]
  cases Word.unsigned32.read n.text <;> rfl

end Cursor

namespace Tour

/-- Whatever calls were made on a document, a number is read as the integer that it denotes if it
has neither fraction nor exponent and lies in the range, for the unsigned range if it consists of
digits, and refused otherwise. The cursor reads its text into a word and the token agrees. -/
theorem integers_read (document : Bytes) (moves : List Move) (n : Numeral)
    (hn : (run Reader.answer moves ⟨.ofBytes document, []⟩).2.current.token = .number n) :
    let r := (run Reader.answer moves ⟨.ofBytes document, []⟩).2.current
    let c := (run Cursor.answer moves ⟨.ofBytes document, []⟩).2.current
    Grammar.LegalNumeral n ∧ c.slice = n.text ∧
      r.token.int32 = c.int32 ∧ r.token.uint32 = c.uint32 ∧
      (Cursor.Settles c.int32 Int32.toInt fun v =>
        n.fraction = none ∧ n.exponent = none ∧ n.value = v ∧ -2 ^ 31 ≤ v ∧ v ≤ 2 ^ 31 - 1) ∧
      Cursor.Settles c.uint32 (fun u => u.toNat) fun v =>
        (∀ b ∈ c.slice, isDigit b = true) ∧ n.value = v ∧ v ≤ 2 ^ 32 - 1 := by
  intro r c
  have packs : Cursor.Packs c r := (run_abreast (abreast_start document) moves).2.1.current.packs
  have legal : Grammar.LegalNumeral n := by
    have hlegal := (run_legal document moves).1
    rwa [hn] at hlegal
  have hkind : c.kind = .number := by rw [packs.kind, hn]; rfl
  have hslice : c.slice = n.text := by rw [packs.slice, hn]; rfl
  refine ⟨legal, hslice, ?_, ?_, Cursor.int32_settles hkind hslice legal, ?_⟩
  · rw [hn, Cursor.int32_eq hkind hslice legal]
  · rw [hn, Cursor.uint32_eq hkind hslice legal]
  · rw [hslice]
    exact Cursor.uint32_settles hkind hslice legal

def leastInteger : Bytes := utf8 "[1.0,-2147483648]"

theorem least_integer_read :
    let moves : List Move := List.replicate 3 (.call .next)
    let n : Numeral := ⟨true, utf8 "2147483648", none, none⟩
    let c := (run Cursor.answer moves ⟨.ofBytes leastInteger, []⟩).2.current
    (run Reader.answer moves ⟨.ofBytes leastInteger, []⟩).2.current.token = .number n ∧
      c.int32.map Int32.toInt = .ok (-2147483648) ∧
      c.uint32 = .error (.json .invalidNumber) := by
  intro moves n c
  have hn : (run Reader.answer moves ⟨.ofBytes leastInteger, []⟩).2.current.token = .number n := by
    decide +kernel
  obtain ⟨-, hslice, -, -, hsigned, hunsigned⟩ := integers_read leastInteger moves n hn
  have hvalue : n.value = ((-2147483648 : Int) : ℚ) := by
    rw [Numeral.value_plain ⟨rfl, rfl⟩]
    exact congrArg Int.cast (by decide)
  refine ⟨hn, (hsigned.ok _).2 ⟨rfl, rfl, hvalue, by decide, by decide⟩, hunsigned.refused ?_⟩
  rintro ⟨v, hdigits, -⟩
  rw [hslice] at hdigits
  exact absurd (hdigits '-'.toUInt8 (by decide)) (by decide)

end Tour

end HubDevice
