import HubDevice.Proofs.Json.Quoting

set_option autoImplicit false

namespace HubDevice

namespace Grammar
open StringBody (quote backslash)

/-- The code units that the escapes of a body write, in order. A raw byte and an escape by a letter
write none, but keep units apart. -/
def units : Bytes → List (Option Nat)
  | 0x5C :: 0x75 :: a :: b :: c :: d :: s => some (codeUnit [a, b, c, d]) :: units s
  | 0x5C :: _ :: s => none :: units s
  | _ :: s => none :: units s
  | [] => []

def HighAt (us : List (Option Nat)) (i : Nat) : Prop :=
  ∃ u, us[i]? = some (some u) ∧ 0xD800 ≤ u ∧ u < 0xDC00

def LowAt (us : List (Option Nat)) (i : Nat) : Prop :=
  ∃ u, us[i]? = some (some u) ∧ 0xDC00 ≤ u ∧ u < 0xE000

/-- A high surrogate without a low one right behind it, or a low one without a high one right before
it. -/
def Unpaired (us : List (Option Nat)) : Prop :=
  ∃ i, (HighAt us i ∧ ¬ LowAt us (i + 1)) ∨ (LowAt us i ∧ ∀ j, i = j + 1 → ¬ HighAt us j)

theorem units_raw {b : UInt8} (plain : b ≠ backslash) (s : Bytes) :
    units (b :: s) = none :: units s := by
  have hplain : b ≠ 0x5C := plain
  rw [units] <;> simp_all

theorem units_short {e c : UInt8} (letter : (e, c) ∈ shortEscapes) (s : Bytes) :
    units (backslash :: e :: s) = none :: units s := by
  have hletter : e ≠ 0x75 := StringBody.shortEscape_ne_unit letter
  change units (0x5C :: e :: s) = _
  rw [units]
  simp_all

theorem units_unit {h : Bytes} (hex : FourHex h) (s : Bytes) :
    units (backslash :: 'u'.toUInt8 :: (h ++ s)) = some (codeUnit h) :: units s := by
  obtain ⟨a, b, c, d, rfl, -, -⟩ := StringBody.fourHex_cases hex
  rfl

theorem not_unpaired_nil : ¬ Unpaired [] := by
  rintro ⟨i, ⟨⟨u, hu, -⟩, -⟩ | ⟨⟨u, hu, -⟩, -⟩⟩ <;> cases hu

theorem not_highAt_zero {u : Option Nat} {us : List (Option Nat)}
    (h : ∀ n ∈ u, ¬ (0xD800 ≤ n ∧ n < 0xE000)) : ¬ HighAt (u :: us) 0 := by
  rintro ⟨n, hn, high⟩
  exact h n (Option.some.inj hn) ⟨high.1, by omega⟩

theorem not_lowAt_zero {u : Option Nat} {us : List (Option Nat)}
    (h : ∀ n ∈ u, ¬ (0xD800 ≤ n ∧ n < 0xE000)) : ¬ LowAt (u :: us) 0 := by
  rintro ⟨n, hn, low⟩
  exact h n (Option.some.inj hn) ⟨by omega, low.2⟩

/-- What is no half of a pair may be left out in front. -/
theorem unpaired_cons {u : Option Nat} {us : List (Option Nat)}
    (h : ∀ n ∈ u, ¬ (0xD800 ≤ n ∧ n < 0xE000)) : Unpaired (u :: us) ↔ Unpaired us := by
  constructor
  · rintro ⟨i, hi⟩
    cases i with
    | zero =>
      rcases hi with ⟨high, -⟩ | ⟨low, -⟩
      · exact absurd high (not_highAt_zero h)
      · exact absurd low (not_lowAt_zero h)
    | succ i =>
      rcases hi with ⟨high, low⟩ | ⟨low, high⟩
      · exact ⟨i, .inl ⟨high, low⟩⟩
      · exact ⟨i, .inr ⟨low, fun j hj => high (j + 1) (congrArg (· + 1) hj)⟩⟩
  · rintro ⟨i, ⟨high, low⟩ | ⟨low, high⟩⟩
    · exact ⟨i + 1, .inl ⟨high, low⟩⟩
    · refine ⟨i + 1, .inr ⟨low, fun j hj => ?_⟩⟩
      cases j with
      | zero => exact not_highAt_zero h
      | succ j => exact high j (Nat.succ.inj hj)

theorem unpaired_none {us : List (Option Nat)} : Unpaired (none :: us) ↔ Unpaired us :=
  unpaired_cons fun _ hn => by cases hn

theorem unpaired_pair {u v : Nat} {us : List (Option Nat)} (high : 0xD800 ≤ u ∧ u < 0xDC00)
    (low : 0xDC00 ≤ v ∧ v < 0xE000) : Unpaired (some u :: some v :: us) ↔ Unpaired us := by
  have hhigh : HighAt (some u :: some v :: us) 0 := ⟨u, rfl, high⟩
  have hlow : LowAt (some u :: some v :: us) 1 := ⟨v, rfl, low⟩
  constructor
  · rintro ⟨i, hi⟩
    match i with
    | 0 =>
      rcases hi with ⟨-, hnot⟩ | ⟨⟨n, hn, hrange⟩, -⟩
      · exact absurd hlow hnot
      · cases hn
        omega
    | 1 =>
      rcases hi with ⟨⟨n, hn, hrange⟩, -⟩ | ⟨-, hnot⟩
      · cases hn
        omega
      · exact absurd hhigh (hnot 0 rfl)
    | i + 2 =>
      rcases hi with ⟨hhere, hnot⟩ | ⟨hhere, hnot⟩
      · exact ⟨i, .inl ⟨hhere, hnot⟩⟩
      · exact ⟨i, .inr ⟨hhere, fun j hj => hnot (j + 2) (congrArg (· + 2) hj)⟩⟩
  · rintro ⟨i, ⟨hhere, hnot⟩ | ⟨hhere, hnot⟩⟩
    · exact ⟨i + 2, .inl ⟨hhere, hnot⟩⟩
    · refine ⟨i + 2, .inr ⟨hhere, fun j hj => ?_⟩⟩
      match j with
      | 0 => omega
      | 1 =>
        rintro ⟨n, hn, hrange⟩
        cases hn
        omega
      | j + 2 => exact hnot j (by omega)

theorem not_unpaired_of_spells {s t : Bytes} (h : Spells s t) : ¬ Unpaired (units s) := by
  induction h with
  | nil => exact not_unpaired_nil
  | raw plain _ ih => rwa [units_raw plain, unpaired_none]
  | short letter _ ih => rwa [units_short letter, unpaired_none]
  | @unit h s t c hex value _ ih =>
    rw [units_unit hex, unpaired_cons]
    · exact ih
    · rintro n ⟨⟩
      have hvalid : c.toNat < 0xD800 ∨ 0xDFFF < c.toNat ∧ c.toNat < 0x110000 := c.valid
      omega
  | pair hex hex' high low _ _ ih =>
    rwa [units_unit hex, units_unit hex', unpaired_pair high low]

theorem unit_of_lowAt {s : Bytes} (h : Escaped s) (low : LowAt (units s) 0) :
    ∃ l rest, s = backslash :: 'u'.toUInt8 :: (l ++ rest) ∧ FourHex l ∧ Escaped rest ∧
      0xDC00 ≤ codeUnit l ∧ codeUnit l < 0xE000 := by
  obtain ⟨u, hu, hrange⟩ := low
  cases h with
  | nil => cases hu
  | raw _ _ plain _ =>
    rw [units_raw plain] at hu
    cases hu
  | short letter _ =>
    rw [units_short letter] at hu
    cases hu
  | unit hex rest =>
    rw [units_unit hex] at hu
    cases hu
    exact ⟨_, _, rfl, hex, rest, hrange⟩

theorem exists_spells {s : Bytes} (h : Escaped s) (paired : ¬ Unpaired (units s)) :
    ∃ t, Spells s t := by
  induction hlength : s.length using Nat.strongRecOn generalizing s with
  | ind length ih =>
  subst hlength
  cases h with
  | nil => exact ⟨[], .nil⟩
  | raw _ _ plain rest =>
    rw [units_raw plain, unpaired_none] at paired
    obtain ⟨t, ht⟩ := ih _ (Nat.lt_succ_self _) rest paired rfl
    exact ⟨_, .raw plain ht⟩
  | @short e c s letter rest =>
    rw [units_short letter, unpaired_none] at paired
    have hshorter : s.length < (backslash :: e :: s).length := by
      simp only [List.length_cons]
      omega
    obtain ⟨t, ht⟩ := ih _ hshorter rest paired rfl
    exact ⟨_, .short letter ht⟩
  | @unit h s hex rest =>
    have hlt := StringBody.codeUnit_lt hex
    rw [units_unit hex] at paired
    by_cases hhigh : 0xD800 ≤ codeUnit h ∧ codeUnit h < 0xDC00
    · -- The high half takes the unit behind it along, so the induction goes on behind both.
      have hlow : LowAt (units s) 0 := Classical.byContradiction fun hnot =>
        paired ⟨0, .inl ⟨⟨_, rfl, hhigh⟩, hnot⟩⟩
      obtain ⟨l, s', rfl, hex', rest', hrange⟩ := unit_of_lowAt rest hlow
      rw [units_unit hex', unpaired_pair hhigh hrange] at paired
      have hshorter : s'.length < (backslash :: 'u'.toUInt8 ::
          (h ++ backslash :: 'u'.toUInt8 :: (l ++ s'))).length := by
        simp only [List.length_cons, List.length_append]
        omega
      obtain ⟨t, ht⟩ := ih _ hshorter rest' paired rfl
      refine ⟨_, .pair hex hex' hhigh hrange (StringBody.toNat_ofNat (.inr ?_)) ht⟩
      omega
    · have hhalf : ¬ (0xD800 ≤ codeUnit h ∧ codeUnit h < 0xE000) := fun hrange => by
        refine paired ⟨0, .inr ⟨⟨_, rfl, by omega⟩, fun j hj => ?_⟩⟩
        cases hj
      have hvalid : (codeUnit h).isValidChar := by
        unfold Nat.isValidChar
        omega
      rw [unpaired_cons (by rintro n ⟨⟩; exact hhalf)] at paired
      have hshorter : s.length < (backslash :: 'u'.toUInt8 :: (h ++ s)).length := by
        simp only [List.length_cons, List.length_append]
        omega
      obtain ⟨t, ht⟩ := ih _ hshorter rest paired rfl
      exact ⟨_, .unit hex (StringBody.toNat_ofNat hvalid).symm ht⟩

/-- Bytes that stand for themselves are taken over from the front. -/
theorem Spells.of_append {b s t : Bytes} (plain : ∀ x ∈ b, x ≠ backslash)
    (h : Spells (b ++ s) t) : ∃ t', t = b ++ t' ∧ Spells s t' := by
  induction b generalizing t with
  | nil => exact ⟨t, rfl, h⟩
  | cons x b ih =>
    have hx := plain x List.mem_cons_self
    have hb := fun y hy => plain y (List.mem_cons_of_mem x hy)
    rw [List.cons_append] at h
    generalize hall : b ++ s = all at h
    cases h with
    | raw _ rest =>
      subst hall
      obtain ⟨t', rfl, ht'⟩ := ih hb rest
      exact ⟨t', rfl, ht'⟩
    | short _ _ => exact absurd rfl hx
    | unit _ _ _ => exact absurd rfl hx
    | pair _ _ _ _ _ _ => exact absurd rfl hx

def encoded (cs : List Char) : Bytes := cs.flatMap String.utf8EncodeChar

theorem encode_eq_cons (c : Char) : ∃ x b, String.utf8EncodeChar c = x :: b := by
  have hlength := String.length_utf8EncodeChar c
  have hpos := c.utf8Size_pos
  cases hcode : String.utf8EncodeChar c with
  | nil =>
    rw [hcode, List.length_nil] at hlength
    omega
  | cons x b => exact ⟨x, b, rfl⟩

/-- Behind ASCII bytes at the front of characters there are characters again. -/
theorem encoded_behind_ascii {b s : Bytes} {cs : List Char} (ascii : ∀ x ∈ b, x.toNat < 0x80)
    (h : encoded cs = b ++ s) :
    ∃ cs', s = encoded cs' ∧ cs'.length ≤ cs.length := by
  induction b generalizing cs with
  | nil => exact ⟨cs, h.symm, Nat.le_refl _⟩
  | cons x b ih =>
    have hx := ascii x List.mem_cons_self
    have hb := fun y hy => ascii y (List.mem_cons_of_mem x hy)
    cases cs with
    | nil => cases h
    | cons c cs =>
      rw [encoded, List.flatMap_cons] at h
      by_cases hc : c.toNat ≤ 0x7F
      · rw [StringBody.encode_ascii hc] at h
        obtain ⟨cs', hs, hlength⟩ := ih hb (List.cons.inj h).2
        exact ⟨cs', hs, Nat.le_succ_of_le hlength⟩
      · obtain ⟨y, more, hcode⟩ := encode_eq_cons c
        have hbyte := StringBody.le_of_mem_encode hc (hcode ▸ List.mem_cons_self)
        rw [hcode] at h
        obtain ⟨rfl, -⟩ := List.cons.inj h
        omega

theorem ascii_of_isHexDigit {b : UInt8} (h : isHexDigit b = true) : b.toNat < 0x80 := by
  have nine : '9'.toUInt8.toNat = 57 := rfl
  have f : 'f'.toUInt8.toNat = 102 := rfl
  have capital : 'F'.toUInt8.toNat = 70 := rfl
  simp only [isHexDigit, isDigit, Bool.or_eq_true, Bool.and_eq_true, decide_eq_true_eq,
    UInt8.le_iff_toNat_le] at h
  omega

theorem FourHex.ascii {h : Bytes} (hex : FourHex h) : ∀ x ∈ 'u'.toUInt8 :: h, x.toNat < 0x80 :=
  List.forall_mem_cons.2 ⟨by decide, fun x hx => ascii_of_isHexDigit (hex.2 x hx)⟩

theorem shortEscapes_ascii {e c : UInt8} (letter : (e, c) ∈ shortEscapes) :
    e.toNat < 0x80 ∧ c.toNat < 0x80 := by
  have hall : shortEscapes.all (fun p => p.1.toNat < 0x80 && p.2.toNat < 0x80) = true := by decide
  have hboth := List.all_eq_true.1 hall (e, c) letter
  simpa only [Bool.and_eq_true, decide_eq_true_eq] using hboth

theorem encoded_cons (c : Char) (cs : List Char) :
    encoded (c :: cs) = String.utf8EncodeChar c ++ encoded cs := List.flatMap_cons

theorem plain_of_ne {c : Char} (h : c ≠ '\\') : ∀ x ∈ String.utf8EncodeChar c, x ≠ backslash := by
  rintro x hx rfl
  by_cases hc : c.toNat ≤ 0x7F
  · rw [StringBody.encode_ascii hc, List.mem_singleton] at hx
    have htoNat := congrArg UInt8.toNat hx
    rw [StringBody.toNat_toUInt8 (by omega)] at htoNat
    exact h (Char.ext (UInt32.toNat_inj.1 htoNat.symm))
  · have := StringBody.le_of_mem_encode hc hx
    exact absurd this (by decide)

/-- Raw bytes are cut at escapes only, and escapes are ASCII, so characters stay whole. -/
theorem Spells.encoded {cs : List Char} {t : Bytes} (h : Spells (encoded cs) t) :
    ∃ ds, t = Grammar.encoded ds := by
  induction hlength : cs.length using Nat.strongRecOn generalizing cs t with
  | ind length ih =>
  subst hlength
  cases cs with
  | nil =>
    cases h
    exact ⟨[], rfl⟩
  | cons c cs =>
    have hbehind : ∀ cs' : List Char, cs'.length ≤ cs.length → ∀ u : Bytes,
        Spells (Grammar.encoded cs') u → ∃ ds, u = Grammar.encoded ds :=
      fun cs' hle u hu => ih cs'.length (Nat.lt_succ_of_le hle) hu rfl
    rw [encoded_cons] at h
    by_cases hslash : c = '\\'
    · subst hslash
      change Spells (backslash :: Grammar.encoded cs) t at h
      generalize hs : Grammar.encoded cs = s at h
      cases h with
      | raw plain _ => exact absurd rfl plain
      | @short e c s t letter rest =>
        obtain ⟨he, hc⟩ := shortEscapes_ascii letter
        obtain ⟨cs', rfl, hle⟩ := encoded_behind_ascii (b := [e]) (by simpa using he) hs
        obtain ⟨ds, rfl⟩ := hbehind cs' hle _ rest
        exact ⟨Char.ofNat c.toNat :: ds, by rw [encoded_cons, StringBody.encode_ofNat hc]; rfl⟩
      | @unit h s t c hex _ rest =>
        obtain ⟨cs', rfl, hle⟩ := encoded_behind_ascii hex.ascii hs
        obtain ⟨ds, rfl⟩ := hbehind cs' hle _ rest
        exact ⟨c :: ds, (encoded_cons c ds).symm⟩
      | @pair h l s t c hex hex' _ _ _ rest =>
        obtain ⟨cs', hs', hle⟩ := encoded_behind_ascii hex.ascii hs
        have hsecond : ∀ x ∈ backslash :: 'u'.toUInt8 :: l, x.toNat < 0x80 :=
          List.forall_mem_cons.2 ⟨by decide, hex'.ascii⟩
        obtain ⟨cs'', rfl, hle'⟩ := encoded_behind_ascii hsecond hs'.symm
        obtain ⟨ds, rfl⟩ := hbehind cs'' (Nat.le_trans hle' hle) _ rest
        exact ⟨c :: ds, (encoded_cons c ds).symm⟩
    · obtain ⟨t', rfl, rest⟩ := Spells.of_append (plain_of_ne hslash) h
      obtain ⟨ds, rfl⟩ := hbehind cs (Nat.le_refl _) _ rest
      exact ⟨c :: ds, (encoded_cons c ds).symm⟩

/-- What the body of a text stands for is a text. -/
theorem Body.exists_text {body : Body} {t : Bytes} (h : Spells body.bytes t) :
    ∃ text : String, utf8 text = t := by
  obtain ⟨s, hs⟩ := body.text
  rw [← hs] at h
  obtain ⟨ds, rfl⟩ := Spells.encoded h
  exact ⟨String.ofList ds, by rw [utf8, String.toList_ofList]; rfl⟩

end Grammar

namespace StringBody

theorem length_encode (c : Char) : (String.utf8EncodeChar c).length ≤ 4 := by
  rw [String.length_utf8EncodeChar]
  exact c.utf8Size_le_four

theorem length_of_codeUnit? {s : Bytes} {u : Nat} (h : codeUnit? s = some u) : 4 ≤ s.length := by
  obtain ⟨hex, rest, rfl, four, -⟩ := codeUnit?_sound h
  rw [List.length_append, four.1]
  exact Nat.le_add_right 4 _

theorem length_of_unitEscape? {s : Bytes} {u : Nat} (h : unitEscape? s = some u) :
    6 ≤ s.length := by
  unfold unitEscape? at h
  split at h
  · split at h
    · exact Nat.add_le_add_right (length_of_codeUnit? h) 2
    · cases h
  · cases h

theorem length_escape? {s out : Bytes} {n : Nat} (h : escape? s = some (out, n)) :
    out.length ≤ n + 1 ∧ n ≤ s.length := by
  unfold escape? at h
  split at h
  · cases h
  split at h
  · split at h
    · cases h
    next high hhigh =>
    have hfour := length_of_codeUnit? hhigh
    split at h
    · split at h
      · cases h
      next low hlow =>
      have hsix := length_of_unitEscape? hlow
      rw [List.length_drop] at hsix
      split at h
      · obtain ⟨rfl, rfl⟩ := Prod.mk.inj (Option.some.inj h)
        refine ⟨Nat.le_trans (length_encode _) (by decide), ?_⟩
        rw [List.length_cons]
        omega
      · cases h
    · split at h
      · cases h
      · cases h
        exact ⟨Nat.le_trans (length_encode _) (by decide), Nat.succ_le_succ hfour⟩
  · obtain ⟨c, -, hc⟩ := Option.map_eq_some_iff.1 h
    cases hc
    exact ⟨Nat.le_succ 1, Nat.succ_le_succ (Nat.zero_le _)⟩

theorem length_unescape (s : Bytes) : (unescape s).1.length ≤ s.length := by
  fun_induction unescape s with
  | case1 => exact Nat.le_refl _
  | case2 rest he => exact Nat.zero_le _
  | case3 rest out n he more ih =>
    obtain ⟨hout, hn⟩ := length_escape? he
    change more.1.length ≤ _ at ih
    rw [List.length_drop] at ih
    rw [List.length_append, List.length_cons]
    omega
  | case4 b rest hb more ih => exact Nat.succ_le_succ ih

end StringBody

end HubDevice
