import HubDevice.Proofs.Json.Spelling

set_option autoImplicit false

namespace HubDevice.StringBody
open Grammar

theorem encode_ascii {c : Char} (h : c.toNat ≤ 0x7F) :
    String.utf8EncodeChar c = [c.toNat.toUInt8] := by
  rw [String.utf8EncodeChar]
  exact if_pos h

theorem toNat_toUInt8 {n : Nat} (h : n < 0x100) : n.toUInt8.toNat = n :=
  Nat.mod_eq_of_lt h

/-- The bytes of a character beyond ASCII are no ASCII bytes. -/
theorem le_of_mem_encode {c : Char} (h : ¬ c.toNat ≤ 0x7F) {b : UInt8}
    (hb : b ∈ String.utf8EncodeChar c) : 0x80 ≤ b.toNat := by
  have hhigh : ∀ n : Nat, 0x80 ≤ n → n < 0x100 → 0x80 ≤ n.toUInt8.toNat := by
    intro n hlow hlt
    rw [toNat_toUInt8 hlt]
    exact hlow
  rw [String.utf8EncodeChar] at hb
  simp only [Char.toNat] at h
  simp only [if_neg h] at hb
  split at hb
  · rcases List.mem_cons.1 hb with rfl | hb
    · exact hhigh _ (by omega) (by omega)
    · rw [List.mem_singleton.1 hb]
      exact hhigh _ (by omega) (by omega)
  · split at hb
    · simp only [List.mem_cons, List.not_mem_nil, or_false] at hb
      rcases hb with rfl | rfl | rfl <;> exact hhigh _ (by omega) (by omega)
    · simp only [List.mem_cons, List.not_mem_nil, or_false] at hb
      rcases hb with rfl | rfl | rfl | rfl <;> exact hhigh _ (by omega) (by omega)

theorem encode_ofNat {b : UInt8} (h : b.toNat < 0x80) :
    String.utf8EncodeChar (Char.ofNat b.toNat) = [b] := by
  have hvalid : b.toNat.isValidChar := .inl (by omega)
  have htoNat := toNat_ofNat hvalid
  rw [encode_ascii (by omega), htoNat]
  exact congrArg (fun b => [b]) (UInt8.ofNat_toNat)

theorem exists_utf8_of_ascii {s : Bytes} (h : ∀ b ∈ s, b.toNat < 0x80) :
    ∃ t : String, utf8 t = s := by
  refine ⟨String.ofList (s.map fun b => Char.ofNat b.toNat), ?_⟩
  rw [utf8, String.toList_ofList]
  induction s with
  | nil => rfl
  | cons b s ih =>
    rw [List.map_cons, List.flatMap_cons, encode_ofNat (h b List.mem_cons_self),
      ih fun c hc => h c (List.mem_cons_of_mem b hc)]
    rfl

theorem control_digits : ∀ n < 0x20,
    ['0'.toUInt8, '0'.toUInt8, hexDigitLower (n / 16), hexDigitLower (n % 16)].all
      isHexDigit = true ∧
    codeUnit ['0'.toUInt8, '0'.toUInt8, hexDigitLower (n / 16), hexDigitLower (n % 16)] = n := by
  decide

/-- How a byte is written: as it is, by a letter, or by its number. -/
theorem quoteByte_cases (b : UInt8) :
    (quoteByte hexDigitLower b = [b] ∧ 0x20 ≤ b ∧ b ≠ quote ∧ b ≠ backslash) ∨
    (∃ e, quoteByte hexDigitLower b = [backslash, e] ∧ (e, b) ∈ shortEscapes) ∨
    (∃ h, quoteByte hexDigitLower b = backslash :: 'u'.toUInt8 :: h ∧ FourHex h ∧
      codeUnit h = b.toNat ∧ b.toNat < 0x20) := by
  unfold quoteByte
  by_cases hquote : b = quote
  · subst hquote
    exact .inr (.inl ⟨quote, by decide, by decide⟩)
  rw [if_neg hquote]
  by_cases hbackslash : b = backslash
  · subst hbackslash
    exact .inr (.inl ⟨backslash, by decide, by decide⟩)
  rw [if_neg hbackslash]
  repeat' split
  · next h => exact .inr (.inl ⟨_, rfl, h ▸ by decide⟩)
  · next h => exact .inr (.inl ⟨_, rfl, h ▸ by decide⟩)
  · next h => exact .inr (.inl ⟨_, rfl, h ▸ by decide⟩)
  · next h => exact .inr (.inl ⟨_, rfl, h ▸ by decide⟩)
  · next h => exact .inr (.inl ⟨_, rfl, h ▸ by decide⟩)
  · next h =>
    have hlt : b.toNat < 0x20 := UInt8.lt_iff_toNat_lt.1 h
    obtain ⟨hall, hvalue⟩ := control_digits b.toNat hlt
    exact .inr (.inr ⟨_, rfl, ⟨rfl, List.all_eq_true.1 hall⟩, hvalue, hlt⟩)
  · next h =>
    exact .inl ⟨rfl, UInt8.not_lt.1 h, hquote, hbackslash⟩

theorem escaped_quoteByte (b : UInt8) {s : Bytes} (h : Escaped s) :
    Escaped (quoteByte hexDigitLower b ++ s) := by
  rcases quoteByte_cases b with ⟨hb, printable, hquote, hbackslash⟩ | ⟨e, hb, letter⟩ |
    ⟨x, hb, hex, -⟩
  · rw [hb]
    exact .raw printable hquote hbackslash h
  · rw [hb]
    exact .short letter h
  · rw [hb]
    exact .unit hex h

theorem spells_quoteByte (b : UInt8) {s t : Bytes} (h : Spells s t) :
    Spells (quoteByte hexDigitLower b ++ s) (b :: t) := by
  rcases quoteByte_cases b with ⟨hb, -, -, hbackslash⟩ | ⟨e, hb, letter⟩ |
    ⟨x, hb, hex, value, hlt⟩
  · rw [hb]
    exact .raw hbackslash h
  · rw [hb]
    exact .short letter h
  · have hvalid : b.toNat.isValidChar := .inl (by omega)
    have hspells := Spells.unit (c := Char.ofNat b.toNat) hex
      (by rw [value, toNat_ofNat hvalid]) h
    rw [encode_ofNat (by omega)] at hspells
    rw [hb]
    exact hspells

theorem quoteByte_high (digit : Nat → UInt8) {b : UInt8} (h : 0x80 ≤ b.toNat) :
    quoteByte digit b = [b] := by
  have hne {d : UInt8} (hd : d.toNat < 0x80) : b ≠ d := by
    rintro rfl
    omega
  have hprintable : ¬ b < 0x20 := by
    rw [UInt8.lt_iff_toNat_lt]
    exact Nat.not_lt.2 (Nat.le_trans (by decide) h)
  rw [quoteByte, if_neg (hne (by decide)), if_neg (hne (by decide)), if_neg (hne (by decide)),
    if_neg (hne (by decide)), if_neg (hne (by decide)), if_neg (hne (by decide)),
    if_neg (hne (by decide)), if_neg hprintable]

def AsciiDigits (digit : Nat → UInt8) : Prop := ∀ n < 16, (digit n).toNat < 0x80

theorem asciiDigits_lower : AsciiDigits hexDigitLower := by
  unfold AsciiDigits
  decide

theorem asciiDigits_upper : AsciiDigits hexDigitUpper := by
  unfold AsciiDigits
  decide

theorem quoteByte_ascii {digit : Nat → UInt8} (hdigit : AsciiDigits digit) {b : UInt8}
    (h : b.toNat < 0x80) : ∀ d ∈ quoteByte digit b, d.toNat < 0x80 := by
  unfold quoteByte
  repeat' split
  iterate 7 · simp [backslash, quote, Char.toUInt8]
  · have hhigh := hdigit (b.toNat / 16) (by omega)
    have hlow := hdigit (b.toNat % 16) (by omega)
    simp [backslash, Char.toUInt8, hhigh, hlow]
  · simpa using h

theorem exists_utf8_char {digit : Nat → UInt8} (hdigit : AsciiDigits digit) (c : Char) :
    ∃ t : String, utf8 t = (String.utf8EncodeChar c).flatMap (quoteByte digit) := by
  by_cases h : c.toNat ≤ 0x7F
  · apply exists_utf8_of_ascii
    have hsize : c.toNat.toUInt8.toNat = c.toNat := toNat_toUInt8 (by omega)
    rw [encode_ascii h, List.flatMap_singleton]
    exact quoteByte_ascii hdigit (by omega)
  · refine ⟨String.ofList [c], ?_⟩
    have hsame : (String.utf8EncodeChar c).map (quoteByte digit) =
        (String.utf8EncodeChar c).map fun b => [b] :=
      List.map_congr_left fun b hb => quoteByte_high digit (le_of_mem_encode h hb)
    rw [utf8, String.toList_ofList, List.flatMap_singleton, List.flatMap_def, hsame,
      ← List.flatMap_def, List.flatMap_singleton']

theorem exists_utf8_quoteBytes {digit : Nat → UInt8} (hdigit : AsciiDigits digit) (s : String) :
    ∃ t : String, utf8 t = (utf8 s).flatMap (quoteByte digit) := by
  rw [utf8, List.flatMap_assoc]
  induction s.toList with
  | nil => exact ⟨"", rfl⟩
  | cons c cs ih =>
    obtain ⟨t, ht⟩ := exists_utf8_char hdigit c
    obtain ⟨u, hu⟩ := ih
    exact ⟨t ++ u, by rw [utf8_append, ht, hu, List.flatMap_cons]⟩

def written (s : String) : Bytes := (utf8 s).flatMap (quoteByte hexDigitLower)

theorem flatten_quoted (s : String) : (quoted s).flatten = quote :: written s ++ [quote] := by
  rw [quoted, List.flatten_append, List.flatten_cons, written, List.flatMap_def]
  rfl

theorem escaped_written (s : String) : Escaped (written s) := by
  rw [written]
  induction utf8 s with
  | nil => exact .nil
  | cons b s ih =>
    rw [List.flatMap_cons]
    exact escaped_quoteByte b ih

theorem spells_written (s : String) : Spells (written s) (utf8 s) := by
  rw [written]
  induction utf8 s with
  | nil => exact .nil
  | cons b s ih =>
    rw [List.flatMap_cons]
    exact spells_quoteByte b ih

def ofText (s : String) : Body :=
  ⟨written s, escaped_written s, exists_utf8_quoteBytes asciiDigits_lower s⟩

end HubDevice.StringBody
