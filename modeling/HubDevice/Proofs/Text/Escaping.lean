import Mathlib.Data.List.Basic
import HubDevice.Proofs.Json.Quoting
import HubDevice.Proofs.Text.Cutting
import HubDevice.Text.Decimal
import HubDevice.Text.Percent

set_option autoImplicit false

namespace HubDevice

namespace Percent

inductive Encoded : Bytes → Prop
  | nil : Encoded []
  | plain {b : UInt8} {s : Bytes} (unreserved : isUnreserved b = true) (rest : Encoded s) :
    Encoded (b :: s)
  | triple {high low : UInt8} {s : Bytes} (hhigh : isHexDigit high = true)
    (hlow : isHexDigit low = true) (rest : Encoded s) :
    Encoded ('%'.toUInt8 :: high :: low :: s)

theorem hexDigitUpper_spec : ∀ n < 16, isHexDigit (hexDigitUpper n) = true ∧
    isUnreserved (hexDigitUpper n) = true ∧ hexValue (hexDigitUpper n) = n := by
  decide

theorem high_lt (b : UInt8) : b.toNat / 16 < 16 := by
  have hb := b.toNat_lt
  omega

theorem low_lt (b : UInt8) : b.toNat % 16 < 16 := Nat.mod_lt _ (by decide)

theorem ne_percent {b : UInt8} (h : isUnreserved b = true) : b ≠ '%'.toUInt8 := by
  rintro rfl
  exact absurd h (by decide)

theorem encoded_encode (s : Bytes) : Encoded (encode s) := by
  induction s with
  | nil => exact .nil
  | cons b s ih =>
    rw [encode, List.flatMap_cons, encodeByte]
    split
    · next h => exact .plain h ih
    · exact .triple (hexDigitUpper_spec _ (high_lt b)).1 (hexDigitUpper_spec _ (low_lt b)).1 ih

theorem decode?_encode (s : Bytes) : decode? (encode s) = some s := by
  induction s with
  | nil => rfl
  | cons b s ih =>
    rw [encode, List.flatMap_cons, encodeByte]
    split
    · next h =>
      rw [List.singleton_append]
      unfold decode?
      rw [if_neg (ne_percent h)]
      exact congrArg (Option.map (b :: ·)) ih
    · obtain ⟨hhigh, -, hhighValue⟩ := hexDigitUpper_spec _ (high_lt b)
      obtain ⟨hlow, -, hlowValue⟩ := hexDigitUpper_spec _ (low_lt b)
      have hvalue : 16 * (b.toNat / 16) + b.toNat % 16 = b.toNat := Nat.div_add_mod _ _
      rw [List.cons_append, List.cons_append, List.cons_append, List.nil_append, decode?,
        if_pos rfl, hhigh, hlow, hhighValue, hlowValue, hvalue, Nat.toUInt8, UInt8.ofNat_toNat]
      exact congrArg (Option.map (b :: ·)) ih

theorem encode_injective {s t : Bytes} (h : encode s = encode t) : s = t := by
  have hs := decode?_encode s
  rw [h, decode?_encode] at hs
  exact (Option.some.inj hs).symm

/-- A byte that is reserved, other than the percent sign, does not stand in encoded text. -/
theorem not_mem_encode {c : UInt8} (reserved : isUnreserved c = false) (hc : c ≠ '%'.toUInt8)
    (s : Bytes) : c ∉ encode s := by
  intro hmem
  obtain ⟨b, -, hb⟩ := List.mem_flatMap.1 hmem
  have hdigit : ∀ n < 16, c ≠ hexDigitUpper n := by
    rintro n hn rfl
    rw [(hexDigitUpper_spec n hn).2.1] at reserved
    cases reserved
  unfold encodeByte at hb
  split at hb
  · next h =>
    rw [← List.mem_singleton.1 hb, reserved] at h
    cases h
  · simp only [List.mem_cons, List.not_mem_nil, or_false] at hb
    rcases hb with h | h | h
    · exact hc h
    · exact hdigit _ (high_lt b) h
    · exact hdigit _ (low_lt b) h

end Percent

theorem not_mem_digits {c : UInt8} (h : isDigit c = false) (n : Nat) : c ∉ Decimal.digits n := by
  intro hmem
  rw [Decimal.isDigit_of_mem_digits hmem] at h
  cases h

/-- An ASCII character is among the bytes of a text only where it stands in the text. -/
theorem mem_of_mem_utf8 {c : Char} (hc : c.toNat ≤ 0x7F) {s : String} (h : c.toUInt8 ∈ utf8 s) :
    c ∈ s.toList := by
  obtain ⟨d, hd, hbyte⟩ := List.mem_flatMap.1 h
  have hvalue : c.toUInt8.toNat = c.toNat := Nat.mod_eq_of_lt (Nat.lt_of_le_of_lt hc (by decide))
  by_cases hascii : d.toNat ≤ 0x7F
  · rw [StringBody.encode_ascii hascii, List.mem_singleton] at hbyte
    have hsame : c.toNat = d.toNat := by
      rw [← hvalue, hbyte, StringBody.toNat_toUInt8 (by omega)]
    rwa [Char.toNat_inj.1 hsame]
  · have hhigh := StringBody.le_of_mem_encode hascii hbyte
    omega

theorem Decimal.utf8_text (n : Nat) : utf8 (Decimal.text n) = Decimal.digits n := by
  unfold utf8 text digits
  rw [String.toList_ofList, List.map_eq_flatMap]
  refine List.flatMap_congr fun d hd => ?_
  have hdigit : d.isDigit = true := Nat.isDigit_of_mem_toDigits (by decide) (by decide) hd
  simp only [Char.isDigit, Bool.and_eq_true, decide_eq_true_eq, UInt32.le_iff_toNat_le] at hdigit
  have nine : ('9' : Char).val.toNat = 57 := rfl
  have hascii : d.toNat ≤ 0x7F := by
    change d.val.toNat ≤ _
    omega
  rw [StringBody.encode_ascii hascii]
  rfl

namespace Split

def afterLast? {α : Type} [DecidableEq α] (sep s : List α) : Option (List α) :=
  (cut? sep.reverse s.reverse).map fun parts => parts.1.reverse

theorem afterLast?_append {α : Type} [DecidableEq α] {sep behind : List α} (before : List α)
    (hsep : sep ≠ []) (free : Unbordered sep.reverse) (absent : ¬ sep <:+: behind) :
    afterLast? sep (before ++ (sep ++ behind)) = some behind := by
  have hcut : cut? sep.reverse (before ++ (sep ++ behind)).reverse =
      some (behind.reverse, before.reverse) := by
    rw [cut?_eq_some_iff (List.reverse_ne_nil_iff.2 hsep) free]
    refine ⟨?_, mt List.reverse_infix.1 absent⟩
    rw [List.reverse_append, List.reverse_append, List.append_assoc]
  rw [afterLast?, hcut]
  exact congrArg some (List.reverse_reverse behind)

def query {α : Type} (mark joint : α) (pairs : List (List α × List α)) : List α :=
  join joint (pairs.map fun pair => pair.1 ++ mark :: pair.2)

/-- Split at the joints and then at the first marks, a query falls into its pairs. -/
theorem pairs_of_query {α : Type} [DecidableEq α] {mark joint : α} (hmark : joint ≠ mark)
    {pairs : List (List α × List α)} (hne : pairs ≠ [])
    (hkey : ∀ pair ∈ pairs, mark ∉ pair.1 ∧ joint ∉ pair.1)
    (hvalue : ∀ pair ∈ pairs, joint ∉ pair.2) :
    (segments joint (query mark joint pairs)).map (cut? [mark]) = pairs.map some := by
  have hparts : ∀ part ∈ pairs.map fun pair => pair.1 ++ mark :: pair.2, joint ∉ part := by
    intro part hpart
    obtain ⟨pair, hpair, rfl⟩ := List.mem_map.1 hpart
    simp [(hkey pair hpair).2, hvalue pair hpair, hmark]
  rw [query, segments_join (by simpa using hne) hparts, List.map_map]
  refine List.map_congr_left fun pair hpair => ?_
  exact cut?_singleton_eq_some_iff.2 ⟨rfl, (hkey pair hpair).1⟩

end Split

end HubDevice
