import HubDevice.Proofs.Json.Tree

set_option autoImplicit false

namespace HubDevice

theorem Buffer.pushAll_of_fits {chunks : List Bytes} {b : Buffer}
    (h : chunks.flatten.length ≤ b.free.length) :
    b.pushAll chunks =
      (⟨b.written ++ chunks.flatten, b.free.drop chunks.flatten.length⟩, true) := by
  induction chunks generalizing b with
  | nil => simp [pushAll]
  | cons chunk chunks ih =>
    rw [List.flatten_cons, List.length_append] at h
    have hchunk : chunk.length ≤ b.free.length := by omega
    rw [pushAll, push?, if_pos hchunk]
    dsimp only
    rw [ih (by rw [List.length_drop]; omega)]
    simp

namespace Writer

def room (w : Writer) : Nat := w.buffer.free.length

def comma (place : Place) : Bytes := if place = .value then [','.toUInt8] else []

theorem length_comma (place : Place) : (comma place).length ≤ 1 := by
  unfold comma
  split <;> decide

theorem flatten_separator (w : Writer) : w.separator.flatten = comma w.place := by
  unfold separator comma
  split <;> rfl

/-- From this place and depth the action appends `s`, if there is room, and leads to those. -/
def Writes (action : Action Unit) (place : Place) (depth : Nat) (s : Bytes) (place' : Place)
    (depth' : Nat) : Prop :=
  ∀ w : Writer, w.place = place → w.depth = depth → s.length ≤ w.room →
    ∃ w', action w = .ok () w' ∧ w'.bytes = w.bytes ++ s ∧ w'.room + s.length = w.room ∧
      w'.place = place' ∧ w'.depth = depth'

variable {place place' place'' : Place} {depth depth' depth'' : Nat}

theorem Writes.done : Writes (pure ()) place depth [] place depth := by
  intro w hplace hdepth _
  exact ⟨w, rfl, (List.append_nil _).symm, rfl, hplace, hdepth⟩

theorem Writes.seq {first second : Action Unit} {s t : Bytes}
    (h : Writes first place depth s place' depth')
    (h' : Writes second place' depth' t place'' depth'') :
    Writes (do first; second) place depth (s ++ t) place'' depth'' := by
  intro w hplace hdepth hroom
  rw [List.length_append] at hroom ⊢
  obtain ⟨v, hfirst, hbytes, hv, hvplace, hvdepth⟩ := h w hplace hdepth (by omega)
  obtain ⟨w', hsecond, hbytes', hw', hplace', hdepth'⟩ := h' v hvplace hvdepth (by omega)
  refine ⟨w', ?_, ?_, by omega, hplace', hdepth'⟩
  · exact (bind_of_ok hfirst).trans hsecond
  · rw [hbytes', hbytes, List.append_assoc]

theorem append_writes {w : Writer} {chunks : List Bytes} {s : Bytes} (hs : chunks.flatten = s)
    (hroom : s.length ≤ w.room) :
    ∃ w', append chunks place depth w = .ok () w' ∧ w'.bytes = w.bytes ++ s ∧
      w'.room + s.length = w.room ∧ w'.place = place ∧ w'.depth = depth := by
  subst hs
  refine ⟨_, by rw [append, Buffer.pushAll_of_fits hroom], rfl, ?_, rfl, rfl⟩
  unfold room at hroom ⊢
  rw [List.length_drop]
  omega

theorem item_writes (chunks : List Bytes) (place place' : Place) (depth : Nat) :
    Writes (item chunks place') place depth (comma place ++ chunks.flatten) place' depth := by
  intro w hplace hdepth hroom
  have hs : (w.separator ++ chunks).flatten = comma place ++ chunks.flatten := by
    rw [List.flatten_append, flatten_separator, hplace]
  rw [← hdepth]
  exact append_writes hs hroom

theorem beginContainer_writes (c : Container) (place : Place) (depth : Nat) :
    Writes (beginContainer c) place depth (comma place ++ [c.opening]) .opened (depth + 1) := by
  intro w hplace hdepth hroom
  have hs : (w.separator ++ [[c.opening]]).flatten = comma place ++ [c.opening] := by
    rw [List.flatten_append, flatten_separator, hplace]
    rfl
  rw [← hdepth]
  exact append_writes hs hroom

theorem endContainer_writes (c : Container) (h : place ≠ .name) :
    Writes (endContainer c) place (depth + 1) [c.closing] .value depth := by
  intro w hplace hdepth hroom
  have hguard : ¬ (w.depth = 0 ∨ w.place = .name) := by
    rw [hplace, hdepth]
    simp [h]
  have hbelow : w.depth - 1 = depth := by omega
  unfold endContainer
  rw [if_neg (by simpa using hguard), hbelow]
  exact append_writes rfl hroom

end Writer

namespace Grammar

def joined (lead : Bytes) : List Bytes → Bytes
  | [] => []
  | s :: more => lead ++ (s ++ joined [','.toUInt8] more)

theorem Items.text_ofList {c : Container} (item : Item c) (items : List (Item c)) :
    (Items.ofList item items).text = joined [] ((item :: items).map Item.text) := by
  induction items generalizing item with
  | nil => exact (List.append_nil _).symm
  | cons next items ih =>
    rw [ofList, text, ih]
    rfl

theorem Value.text_ofItems {c : Container} (items : List (Item c)) :
    (Value.ofItems c items).text = c.opening :: joined [] (items.map Item.text) ++ [c.closing] := by
  cases items with
  | nil => rfl
  | cons item items => rw [ofItems, text, Items.text_ofList]

end Grammar

namespace Tree
open Grammar Writer

def placeAfter {α : Type} (place : Place) : List α → Place
  | [] => place
  | _ :: _ => .value

theorem placeAfter_value {α : Type} (items : List α) : placeAfter .value items = .value := by
  cases items <;> rfl

theorem placeAfter_ne_name {α : Type} (items : List α) : placeAfter .opened items ≠ .name := by
  cases items <;> simp [placeAfter]

theorem container_writes {c : Container} {action : Action Unit} {items : List (Item c)}
    {place after : Place} {depth : Nat} (hafter : after ≠ .name)
    (h : Writes action .opened (depth + 1) (joined [] (items.map Item.text)) after (depth + 1)) :
    Writes (do beginContainer c; action; endContainer c) place depth
      (comma place ++ (Value.ofItems c items).text) .value depth := by
  have hall := (beginContainer_writes c place depth).seq (h.seq (endContainer_writes c hafter))
  rw [List.append_assoc] at hall
  rw [Value.text_ofItems]
  exact hall

theorem text_item (v : Value) : (Item.mk .none .absent v .none).text = v.text := by
  simp [Item.text, Label.text, Blank.none]

theorem text_member (s : String) (v : Value) :
    (Item.mk .none (.name (StringBody.ofText s) .none .none) v .none).text =
      (StringBody.quoted s ++ [[':'.toUInt8]]).flatten ++ v.text := by
  rw [List.flatten_append, StringBody.flatten_quoted]
  simp [Item.text, Label.text, Blank.none, Body.quoted, StringBody.ofText]

theorem flatten_int32 (n : Int32) :
    ((if n < 0 then [['-'.toUInt8]] else []) ++ [Decimal.digits n.toInt.natAbs]).flatten =
      (Tree.int32 n).value.text := by
  rw [Tree.value, Value.text, Scalar.text, Numeral.text_ofDigits, List.flatten_append]
  unfold Numeral.minusText
  split <;> simp_all

mutual

theorem emit_writes (t : Tree) (place : Place) (depth : Nat) :
    Writes t.emit place depth (comma place ++ t.value.text) .value depth := by
  match t with
  | .null => exact item_writes [utf8 "null"] place .value depth
  | .bool true => exact item_writes [utf8 "true"] place .value depth
  | .bool false => exact item_writes [utf8 "false"] place .value depth
  | .int32 n =>
    rw [← flatten_int32]
    exact item_writes _ place .value depth
  | .uint32 n =>
    have h := item_writes [Decimal.digits n.toNat] place .value depth
    rw [List.flatten_singleton] at h
    rw [Tree.value, Value.text, Scalar.text, Numeral.text_ofDigits]
    exact h
  | .string s =>
    have h := item_writes (StringBody.quoted s) place .value depth
    rw [StringBody.flatten_quoted] at h
    exact h
  | .array items =>
    exact container_writes (placeAfter_ne_name items) (emitItems_writes items .opened (depth + 1))
  | .object members =>
    exact container_writes (placeAfter_ne_name members)
      (emitMembers_writes members .opened (depth + 1))

theorem emitItems_writes (items : List Tree) (place : Place) (depth : Nat) :
    Writes (emitItems items) place depth (joined (comma place) ((itemValues items).map Item.text))
      (placeAfter place items) depth := by
  match items with
  | [] => exact .done
  | item :: items =>
    have h := (emit_writes item place depth).seq (emitItems_writes items .value depth)
    rw [placeAfter_value, List.append_assoc] at h
    rw [itemValues, List.map_cons, text_item, joined]
    exact h

theorem emitMembers_writes (members : List (String × Tree)) (place : Place) (depth : Nat) :
    Writes (emitMembers members) place depth
      (joined (comma place) ((memberValues members).map Item.text)) (placeAfter place members)
      depth := by
  match members with
  | [] => exact .done
  | (name, value) :: members =>
    have hname := item_writes (StringBody.quoted name ++ [[':'.toUInt8]]) place .name depth
    have hvalue := emit_writes value .name depth
    have h := hname.seq (hvalue.seq (emitMembers_writes members .value depth))
    rw [placeAfter_value, List.append_assoc] at h
    rw [memberValues, List.map_cons, text_member, joined, List.append_assoc]
    exact h

end

end Tree

end HubDevice
