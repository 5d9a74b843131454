import HubDevice.Proofs.Json.Quoting

set_option autoImplicit false

namespace HubDevice

def IsText (b : Bytes) : Prop := ∃ t : String, utf8 t = b

/-- Behind a text there stands a part of this character, but not the whole of it. -/
def EndsWithin (c : Char) (b : Bytes) : Prop :=
  ∃ (t : String) (front : Bytes), b = utf8 t ++ front ∧ front ≠ [] ∧
    front <+: String.utf8EncodeChar c ∧ front ≠ String.utf8EncodeChar c

theorem utf8_textOrEmpty_iff {b : Bytes} : utf8 (textOrEmpty b) = b ↔ IsText b := by
  constructor
  · exact fun h => ⟨_, h⟩
  · rintro ⟨t, rfl⟩
    rw [textOrEmpty, text?_utf8]
    rfl

theorem textOrEmpty_of_not_isText {b : Bytes} (h : ¬ IsText b) : textOrEmpty b = "" := by
  rw [textOrEmpty]
  cases htext : text? b with
  | none => rfl
  | some t => exact absurd ⟨t, text?_eq_some_iff.1 htext⟩ h

theorem isText_append {b b' : Bytes} (h : IsText b) (h' : IsText b') : IsText (b ++ b') := by
  obtain ⟨t, rfl⟩ := h
  obtain ⟨t', rfl⟩ := h'
  exact ⟨t ++ t', utf8_append t t'⟩

theorem isText_char (c : Char) : IsText (String.utf8EncodeChar c) :=
  ⟨String.ofList [c], by rw [utf8, String.toList_ofList, List.flatMap_singleton]⟩

/-- One character is no beginning of another. -/
theorem eq_of_encode_prefix {c d : Char}
    (h : String.utf8EncodeChar d <+: String.utf8EncodeChar c) : d = c := by
  obtain ⟨rest, hrest⟩ := h
  have hd := ByteArray.utf8DecodeChar?_utf8EncodeChar_append (b := rest.toByteArray) (c := d)
  have hc := ByteArray.utf8DecodeChar?_utf8EncodeChar_append
    (b := ([] : Bytes).toByteArray) (c := c)
  rw [← List.toByteArray_append] at hd hc
  rw [hrest] at hd
  rw [List.append_nil] at hc
  exact Option.some.inj (hd.symm.trans hc)

/-- Behind a text, the rest of a text is a text. -/
theorem exists_encoded_of_append {cs ds : List Char} {front : Bytes}
    (h : cs.flatMap String.utf8EncodeChar = ds.flatMap String.utf8EncodeChar ++ front) :
    ∃ es : List Char, front = es.flatMap String.utf8EncodeChar := by
  have harray : ds.utf8Encode ++ front.toByteArray = cs.utf8Encode := by
    rw [List.utf8Encode, List.utf8Encode, h, List.toByteArray_append]
  obtain ⟨es, rfl⟩ := List.isPrefix_of_utf8Encode_append_eq_utf8Encode _ harray
  rw [List.flatMap_append] at h
  exact ⟨es, (List.append_cancel_left h).symm⟩

theorem EndsWithin.not_isText {c : Char} {b : Bytes} (h : EndsWithin c b) : ¬ IsText b := by
  rintro ⟨t, ht⟩
  obtain ⟨before, front, rfl, hne, hfront, hproper⟩ := h
  obtain ⟨es, hes⟩ := exists_encoded_of_append ht
  cases es with
  | nil => exact hne hes
  | cons d es =>
    rw [List.flatMap_cons] at hes
    have hd : String.utf8EncodeChar d <+: front := ⟨_, hes.symm⟩
    have hsame : d = c := eq_of_encode_prefix (hd.trans hfront)
    rw [hsame] at hd
    exact hproper (hfront.eq_of_length_le hd.length_le)

/-- A character of one byte is whole as soon as it begins. -/
theorem EndsWithin.not_ascii {c : Char} {b : Bytes} (h : EndsWithin c b) : ¬ c.toNat ≤ 0x7F := by
  intro hascii
  obtain ⟨-, front, -, hne, hfront, hproper⟩ := h
  rw [StringBody.encode_ascii hascii] at hfront hproper
  cases front with
  | nil => exact hne rfl
  | cons x front =>
    have hlength := hfront.length_le
    exact hproper (hfront.eq_of_length_le (by simp))

end HubDevice
