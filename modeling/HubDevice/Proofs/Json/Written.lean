import HubDevice.Proofs.Json.Members
import HubDevice.Proofs.Json.NumberTexts
import HubDevice.Proofs.Json.RoundTrip

set_option autoImplicit false

namespace HubDevice
open Grammar Writer

/-- Calls that append the text of this value. -/
structure Written where
  action : Writer.Action Unit
  value : Value
  writes : ∀ place depth, Writes action place depth (comma place ++ value.text) .value depth

namespace Written

def tree (t : Tree) : Written := ⟨t.emit, t.value, t.emit_writes⟩

def text (w : Written) : Bytes := w.value.text

def member (name : String) (w : Written) : Item .object :=
  .mk .none (.name (StringBody.ofText name) .none .none) w.value .none

def writeMembers : List (String × Written) → Writer.Action Unit
  | [] => pure ()
  | (name, value) :: members => do
    Writer.name name
    value.action
    writeMembers members

def writeItems : List Written → Writer.Action Unit
  | [] => pure ()
  | item :: items => do
    item.action
    writeItems items

theorem writeMembers_writes (members : List (String × Written)) (place : Place) (depth : Nat) :
    Writes (writeMembers members) place depth
      (joined (comma place) ((members.map fun m => member m.1 m.2).map Item.text))
      (Tree.placeAfter place members) depth := by
  induction members generalizing place with
  | nil => exact .done
  | cons m members ih =>
    obtain ⟨name, value⟩ := m
    have hname := item_writes (StringBody.quoted name ++ [[':'.toUInt8]]) place .name depth
    have h := hname.seq ((value.writes .name depth).seq (ih .value))
    rw [Tree.placeAfter_value, List.append_assoc] at h
    rw [List.map_cons, List.map_cons, member, Tree.text_member, joined, List.append_assoc]
    exact h

theorem writeItems_writes (items : List Written) (place : Place) (depth : Nat) :
    Writes (writeItems items) place depth
      (joined (comma place)
        ((items.map fun w => (Item.mk .none .absent w.value .none : Item .array)).map Item.text))
      (Tree.placeAfter place items) depth := by
  induction items generalizing place with
  | nil => exact .done
  | cons item items ih =>
    have h := (item.writes place depth).seq (ih .value)
    rw [Tree.placeAfter_value, List.append_assoc] at h
    rw [List.map_cons, List.map_cons, Tree.text_item, joined]
    exact h

def object (members : List (String × Written)) : Written where
  action := do
    beginObject
    writeMembers members
    endObject
  value := .ofItems .object (members.map fun m => member m.1 m.2)
  writes place depth := by
    have hmembers := writeMembers_writes members .opened (depth + 1)
    exact Tree.container_writes (Tree.placeAfter_ne_name members) hmembers

def array (items : List Written) : Written where
  action := do
    beginArray
    writeItems items
    endArray
  value := .ofItems .array (items.map fun w => .mk .none .absent w.value .none)
  writes place depth := by
    have hitems := writeItems_writes items .opened (depth + 1)
    exact Tree.container_writes (Tree.placeAfter_ne_name items) hitems

def ofItem (action : Writer.Action Unit) (v : Value) (h : action = item [v.text] .value) :
    Written where
  action := action
  value := v
  writes place depth := by
    have hitem := item_writes [v.text] place .value depth
    rw [List.flatten_singleton] at hitem
    rw [h]
    exact hitem

def verbatim (v : Value) : Written :=
  ofItem (Writer.raw v.text) v <| by
    obtain ⟨b, s, htext, -⟩ := Reader.head_value v
    funext w
    rw [Writer.raw, htext]
    rfl

/-- A finite number of any size, with any count of decimal places. -/
theorem exists_number {x : Float} {b : Binary} (h : Binary.ofFloat? x = some b) (places : Nat) :
    ∃ (n : Numeral) (legal : LegalNumeral n) (w : Written), w.action = Writer.float x places ∧
      w.value = .scalar (.number n legal) ∧ n.text = numberText x b places := by
  obtain ⟨n, legal, htext⟩ := Writer.exists_numberText h places
  have hfloat : Writer.float x places = item [n.text] .value := by
    rw [htext]
    exact Writer.float_eq h places
  exact ⟨n, legal, ofItem _ (.scalar (.number n legal)) hfloat, rfl, rfl, htext⟩

theorem exists_float {x : Float} {b : Binary} (h : Binary.ofFloat? x = some b) (places : Nat) :
    ∃ w : Written, w.action = Writer.float x places ∧ w.text = numberText x b places := by
  obtain ⟨n, legal, w, haction, hvalue, htext⟩ := exists_number h places
  refine ⟨w, haction, ?_⟩
  rw [text, hvalue]
  exact htext

theorem object_action (members : List (String × Written)) :
    (object members).action =
      (do Writer.beginObject; writeMembers members; Writer.endObject) := rfl

theorem text_uint32 (n : UInt32) : (tree (.uint32 n)).text = Decimal.digits n.toNat := by
  change (Tree.uint32 n).value.text = _
  rw [Tree.value, Value.text, Scalar.text, Numeral.text_ofDigits]
  rfl

theorem text_string (s : String) : (tree (.string s)).text = (StringBody.quoted s).flatten :=
  (StringBody.flatten_quoted s).symm

theorem text_object (members : List (String × Written)) :
    (object members).text = Container.object.opening ::
      joined [] (members.map fun m => (StringBody.quoted m.1).flatten ++ ':'.toUInt8 :: m.2.text) ++
        [Container.object.closing] := by
  have hmember : ∀ m : String × Written, (member m.1 m.2).text =
      (StringBody.quoted m.1).flatten ++ ':'.toUInt8 :: m.2.text := by
    intro m
    rw [member, Tree.text_member, List.flatten_append, List.append_assoc]
    rfl
  rw [text, object, Value.text_ofItems, List.map_map]
  simp only [Function.comp_def, hmember]

theorem height_object (members : List (String × Written)) :
    (object members).value.height =
      members.foldr (fun m h => max m.2.value.height h) 0 + 1 := by
  rw [object, Value.height_ofItems, List.foldr_map]
  rfl

theorem isObject_object (members : List (String × Written)) :
    (object members).value.isObject = true := by
  cases members <;> rfl

theorem members_object (members : List (String × Written)) :
    (object members).value.members = members.map fun m => member m.1 m.2 :=
  Value.members_ofItems _

theorem named_member (name t : String) (value : Written) :
    (member name value).Named t ↔ t = name := by
  constructor
  · intro h
    have hname := StringBody.unescape_of_spells (StringBody.spells_written name)
    have ht := StringBody.unescape_of_spells h
    exact utf8_injective (Prod.mk.inj (ht.symm.trans hname)).1
  · rintro rfl
    exact StringBody.spells_written t

end Written

end HubDevice
