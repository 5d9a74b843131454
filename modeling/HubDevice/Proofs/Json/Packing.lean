import Mathlib.Algebra.Group.Nat.Defs
import HubDevice.Json.Cursor

set_option autoImplicit false

namespace HubDevice.Cursor

/-- The bits of the word tell the kinds of these containers, the outermost first. -/
def Notes (word : UInt64) (containers : List Container) : Prop :=
  ∀ level k, containers[level]? = some k → (word.toNat.testBit level = true ↔ k = .object)

theorem notes_nil (word : UInt64) : Notes word [] := by
  intro level k h
  cases h

theorem mask?_of_lt {level : Nat} (h : level < 64) :
    ∃ mask, mask? level = some mask ∧ mask.toNat = 2 ^ level := by
  refine ⟨_, if_pos h, ?_⟩
  have hlevel : (UInt64.ofNat level).toNat = level :=
    UInt64.toNat_ofNat_of_lt' (Nat.lt_trans h (by decide))
  have hpow : 2 ^ level < 2 ^ 64 := Nat.pow_lt_pow_right (by decide) h
  rw [UInt64.toNat_shiftLeft, hlevel, Nat.mod_eq_of_lt h, Nat.shiftLeft_eq]
  exact (congrArg (· % 2 ^ 64) (Nat.one_mul _)).trans (Nat.mod_eq_of_lt hpow)

theorem testBit_not {word : UInt64} {i : Nat} (h : i < 64) :
    (~~~word).toNat.testBit i = !word.toNat.testBit i := by
  have hword : word.toNat < 2 ^ 64 := word.toNat_lt
  have hnot : (~~~word).toNat = 2 ^ 64 - 1 - word.toNat := UInt64.toNat_not word
  rw [hnot, Nat.sub_sub, Nat.add_comm 1, Nat.testBit_two_pow_sub_succ hword, decide_eq_true h,
    Bool.true_and]

theorem testBit_note {word mask : UInt64} {level i : Nat} (k : Container)
    (hmask : mask.toNat = 2 ^ level) (h : i < 64) :
    (note word mask k).toNat.testBit i =
      if i = level then decide (k = .object) else word.toNat.testBit i := by
  cases k with
  | object =>
    rw [note, UInt64.toNat_or, Nat.testBit_or, hmask, Nat.testBit_two_pow]
    by_cases hi : i = level
    · rw [if_pos hi, hi, decide_eq_true rfl, Bool.or_true]
      rfl
    · rw [if_neg hi, decide_eq_false (Ne.symm hi), Bool.or_false]
  | array =>
    rw [note, UInt64.toNat_and, Nat.testBit_and, testBit_not h, hmask, Nat.testBit_two_pow]
    by_cases hi : i = level
    · rw [if_pos hi, hi, decide_eq_true rfl, Bool.not_true, Bool.and_false]
      rfl
    · rw [if_neg hi, decide_eq_false (Ne.symm hi), Bool.not_false, Bool.and_true]

theorem Notes.opened {word mask : UInt64} {containers : List Container} (k : Container)
    (h : Notes word containers) (hmask : mask.toNat = 2 ^ containers.length)
    (hroom : containers.length < 64) : Notes (note word mask k) (containers ++ [k]) := by
  intro level k' hlevel
  have hbound : level < (containers ++ [k]).length := (List.getElem?_eq_some_iff.1 hlevel).1
  rw [List.length_append, List.length_singleton] at hbound
  rw [testBit_note k hmask (by omega)]
  by_cases htop : level = containers.length
  · rw [htop, List.getElem?_concat_length] at hlevel
    cases hlevel
    rw [if_pos htop, decide_eq_true_iff]
  · rw [List.getElem?_append_left (by omega)] at hlevel
    rw [if_neg htop]
    exact h level k' hlevel

/-- The bits of the containers that stay open are the same. -/
theorem Notes.of_append {word : UInt64} {containers more : List Container}
    (h : Notes word (containers ++ more)) : Notes word containers := by
  intro level k hlevel
  have hbound : level < containers.length := (List.getElem?_eq_some_iff.1 hlevel).1
  exact h level k (by rwa [List.getElem?_append_left hbound])

theorem and_mask_ne_zero {word mask : UInt64} {level : Nat} (hmask : mask.toNat = 2 ^ level) :
    word &&& mask ≠ 0 ↔ word.toNat.testBit level = true := by
  have hbits : ∀ i, (word &&& mask).toNat.testBit i =
      (word.toNat.testBit i && decide (level = i)) := by
    intro i
    rw [UInt64.toNat_and, Nat.testBit_and, hmask, Nat.testBit_two_pow]
  constructor
  · intro hne
    cases hbit : word.toNat.testBit level with
    | true => rfl
    | false =>
    apply absurd _ hne
    rw [← UInt64.toNat_inj]
    apply Nat.eq_of_testBit_eq
    intro i
    rw [hbits i]
    by_cases hi : level = i
    · rw [← hi, hbit]
      exact (Nat.zero_testBit level).symm
    · rw [decide_eq_false hi, Bool.and_false]
      exact (Nat.zero_testBit i).symm
  · intro hbit hzero
    have hone := hbits level
    rw [hzero, hbit, decide_eq_true rfl] at hone
    exact absurd ((Nat.zero_testBit level).symm.trans hone) Bool.false_ne_true

/-- The innermost container is read off the word. -/
theorem innermost?_of_notes {c : Cursor} {containers : List Container} {k : Container}
    (h : Notes c.containers (containers ++ [k])) (hroom : containers.length < 64) :
    c.innermost? containers.length = some k := by
  obtain ⟨mask, hmask, hvalue⟩ := mask?_of_lt hroom
  have hbit := h containers.length k List.getElem?_concat_length
  rw [innermost?, hmask, Option.map_some]
  congr 1
  cases k with
  | object => exact if_pos ((and_mask_ne_zero hvalue).2 (hbit.2 rfl))
  | array =>
    apply if_neg
    intro hne
    cases hbit.1 ((and_mask_ne_zero hvalue).1 hne)

end HubDevice.Cursor
