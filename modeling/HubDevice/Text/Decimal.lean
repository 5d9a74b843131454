import HubDevice.Bytes

set_option autoImplicit false

namespace HubDevice.Decimal

def digits (n : Nat) : Bytes := (Nat.toDigits 10 n).map Char.toUInt8

def text (n : Nat) : String := String.ofList (Nat.toDigits 10 n)

def value (ds : Bytes) : Nat := Nat.ofDigitChars 10 (ds.map Char.ofUInt8) 0

def read? (bound : Nat) (s : List Char) : Option Nat :=
  if s.isEmpty || !s.all Char.isDigit then none
  else
    let n := Nat.ofDigitChars 10 s 0
    if n < bound then some n else none

def padded (width n : Nat) : Bytes :=
  let ds := digits n
  List.replicate (width - ds.length) '0'.toUInt8 ++ ds

theorem read?_toDigits {bound n : Nat} (h : n < bound) :
    read? bound (Nat.toDigits 10 n) = some n := by
  have hd : (Nat.toDigits 10 n).all Char.isDigit = true :=
    List.all_eq_true.2 fun c hc => Nat.isDigit_of_mem_toDigits (by decide) (by decide) hc
  have hne : (Nat.toDigits 10 n).isEmpty = false := by
    rw [Nat.toDigits_eq_if (by decide)]
    split <;> simp
  simp [read?, hd, hne, Nat.ofDigitChars_toDigits, h]

theorem toNat_toUInt8 {c : Char} (h : c.isDigit = true) : c.toUInt8.toNat = c.toNat := by
  simp only [Char.isDigit, Bool.and_eq_true, decide_eq_true_eq, ge_iff_le,
    UInt32.le_iff_toNat_le] at h
  have nine : ('9' : Char).val.toNat = 57 := rfl
  have hsize : c.val.toNat < 2 ^ 8 := by omega
  exact Nat.mod_eq_of_lt hsize

theorem ofUInt8_toUInt8 {c : Char} (h : c.isDigit = true) : Char.ofUInt8 c.toUInt8 = c := by
  apply Char.ext
  apply UInt32.toNat_inj.1
  exact toNat_toUInt8 h

theorem isDigit_toUInt8 {c : Char} (h : c.isDigit = true) : isDigit c.toUInt8 = true := by
  have hc := toNat_toUInt8 h
  simp only [Char.isDigit, Bool.and_eq_true, decide_eq_true_eq, ge_iff_le,
    UInt32.le_iff_toNat_le] at h
  simp only [isDigit, Bool.and_eq_true, decide_eq_true_eq, UInt8.le_iff_toNat_le, hc]
  exact h

theorem isDigit_of_mem_digits {n : Nat} {b : UInt8} (h : b ∈ digits n) : isDigit b = true := by
  obtain ⟨c, hc, rfl⟩ := List.mem_map.1 h
  exact isDigit_toUInt8 (Nat.isDigit_of_mem_toDigits (by decide) (by decide) hc)

theorem digits_ne_nil (n : Nat) : digits n ≠ [] := by
  rw [digits, Nat.toDigits_eq_if (by decide)]
  split <;> simp

/-- Only zero is written with a zero in front. -/
theorem head?_digits {n : Nat} (h : n ≠ 0) : (digits n).head? ≠ some '0'.toUInt8 := by
  induction n using Nat.strongRecOn with
  | ind n ih =>
    rw [digits, Nat.toDigits_eq_if (by decide)]
    split
    · next hn =>
      have hall : ∀ k < 10, k ≠ 0 → k.digitChar.toUInt8 ≠ '0'.toUInt8 := by decide
      simpa using hall n hn h
    · next hn =>
      have hdiv := ih (n / 10) (by omega) (by omega)
      have hne := digits_ne_nil (n / 10)
      rw [digits] at hdiv hne
      rw [List.map_append]
      cases hd : (Nat.toDigits 10 (n / 10)).map Char.toUInt8 with
      | nil => exact absurd hd hne
      | cons d ds =>
        rw [hd] at hdiv
        exact hdiv

theorem value_digits (n : Nat) : value (digits n) = n := by
  have h : (Nat.toDigits 10 n).map (Char.ofUInt8 ∘ Char.toUInt8) = Nat.toDigits 10 n := by
    rw [List.map_congr_left (g := id), List.map_id]
    intro c hc
    exact ofUInt8_toUInt8 (Nat.isDigit_of_mem_toDigits (by decide) (by decide) hc)
  rw [value, digits, List.map_map, h, Nat.ofDigitChars_toDigits (by decide) (by decide)]

end HubDevice.Decimal
