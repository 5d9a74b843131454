import HubDevice.Proofs.Json.Moves
import HubDevice.Proofs.Json.Spelling
import HubDevice.Proofs.Json.Tree

set_option autoImplicit false

namespace HubDevice

namespace Grammar

namespace Item

def value {c : Container} : Item c → Value
  | .mk _ _ value _ => value

def behind {c : Container} : Item c → Blank
  | .mk _ _ _ behind => behind

def name : Item .object → Bytes
  | .mk _ (.name body _ _) _ _ => body.bytes

def Named (m : Item .object) (t : String) : Prop := Spells m.name (utf8 t)

instance (m : Item .object) (t : String) : Decidable (m.Named t) :=
  decidable_of_iff (StringBody.unescape m.name = (utf8 t, true)) StringBody.unescape_iff

theorem isText_name (m : Item .object) (t : String) :
    (Token.name m.name).isText t = decide (m.Named t) := by
  rw [Bool.eq_iff_iff, decide_eq_true_iff]
  simp only [Token.isText, Token.body?, beq_iff_eq]
  exact StringBody.unescape_iff

theorem height_value {c : Container} (i : Item c) : i.value.height = i.height := by
  cases i
  rfl

end Item

def Value.members : Value → List (Item .object)
  | .filled .object items => items.toList
  | _ => []

theorem Items.toList_ofList {c : Container} (item : Item c) (items : List (Item c)) :
    (Items.ofList item items).toList = item :: items := by
  induction items generalizing item with
  | nil => rfl
  | cons next items ih =>
    rw [ofList, toList, ih]

theorem Value.members_ofItems (items : List (Item .object)) :
    (Value.ofItems .object items).members = items := by
  cases items with
  | nil => rfl
  | cons item items => exact Items.toList_ofList item items

end Grammar

namespace Reader
open Grammar
open Items (following)

/-- The reader stands at the name of this member, before these others of the innermost object. -/
structure AtMember (r : Reader) (m : Item .object) (more : List (Item .object))
    (outer : List Container) (rest : Bytes) : Prop where
  token : r.token = .name m.name
  nesting : r.nesting = .object :: outer
  wants : r.Wants .value (m.value.text ++ (m.behind.bytes ++ following rest more))
  height : ∀ i ∈ m :: more, outer.length + 1 + i.height ≤ maxNesting

variable {r : Reader} {m : Item .object} {more : List (Item .object)} {outer : List Container}
  {rest : Bytes}

theorem member_step (h : Ahead r (m :: more) outer rest) :
    ∃ s, next r = .ok () s ∧ AtMember s m more outer rest := by
  have wants := h.wants
  have height := h.height
  obtain ⟨before, label, value, behind⟩ := m
  cases label with
  | name body gap lead =>
    simp only [Item.trimmed, List.append_assoc] at wants
    obtain ⟨s, step, token, nesting, hvalue⟩ := name_step body gap lead value wants
    exact ⟨s, step, token, nesting.trans h.nesting, hvalue, height⟩

namespace AtMember

theorem isName (h : AtMember r m more outer rest) : r.token.isName = true := by
  rw [h.token]
  rfl

theorem depth_value (h : AtMember r m more outer rest) :
    r.depth + m.value.height ≤ maxNesting := by
  have hm := h.height m List.mem_cons_self
  rw [depth_cons h.nesting, Item.height_value]
  exact hm

theorem ahead {s : Reader} (h : AtMember r m more outer rest) (settled : s.Settled)
    (nesting : s.nesting = .object :: outer)
    (hrest : s.rest = m.behind.bytes ++ following rest more) : Ahead s more outer rest :=
  ahead_settled m.behind settled nesting (fun i hi => h.height i (List.mem_cons_of_mem m hi)) hrest

theorem passes (h : AtMember r m more outer rest) :
    ∃ r', Passes m.value r r' ∧ Ahead r' more outer rest := by
  obtain ⟨r', passes, hrest⟩ :=
    value_passes m.value h.wants (ends_following m.behind rest more) h.depth_value
  exact ⟨r', passes, h.ahead passes.settled (passes.nesting.trans h.nesting) hrest⟩

end AtMember

theorem enter_step {v : Value} (hv : v.isObject = true) (wants : r.Wants .value (v.text ++ rest))
    (height : r.depth + v.height ≤ maxNesting) :
    ∃ first, next r = .ok () first ∧ first.token = .opened .object ∧
      Ahead first v.members r.nesting rest := by
  match v, hv with
  | .empty .object inside, _ =>
    obtain ⟨first, step, token, -, -, hahead⟩ := open_empty wants height
    exact ⟨first, step, token, hahead⟩
  | .filled .object items, _ =>
    obtain ⟨first, step, token, -, -, hahead⟩ := open_filled wants height
    exact ⟨first, step, token, hahead⟩

theorem AtMember.enters (h : AtMember r m more outer rest) (hm : m.value.isObject = true) :
    ∃ first, next r = .ok () first ∧ first.token = .opened .object ∧
      Ahead first m.value.members (.object :: outer) (m.behind.bytes ++ following rest more) := by
  obtain ⟨first, step, token, hahead⟩ := enter_step hm h.wants h.depth_value
  rw [h.nesting] at hahead
  exact ⟨first, step, token, hahead⟩

theorem AtMember.leaves {s : Reader} (h : AtMember r m more outer rest)
    (hs : Ahead (c := .object) s [] (.object :: outer)
      (m.behind.bytes ++ following rest more)) :
    ∃ s', next s = .ok () s' ∧ s'.token = .closed .object ∧ Ahead s' more outer rest := by
  obtain ⟨s', step, token, nesting, hrest⟩ := close_step hs
  exact ⟨s', step, token, h.ahead (settled_closed token) nesting hrest⟩

theorem isName_first (v : Value) : v.first.isName = false := by
  cases v with
  | scalar x => cases x <;> rfl
  | empty => rfl
  | filled => rfl

theorem Passes.skipValue_name {v : Value} {r r' : Reader} (h : Passes v r r')
    (hname : r.token.isName = true) : skipValue r = .ok () r' := by
  obtain ⟨first, step, -, -, skips⟩ := h.skips
  rw [skipValue, if_pos hname, step]
  exact skips

theorem Passes.first {v : Value} {r r' : Reader} (h : Passes v r r') :
    ∃ first, next r = .ok () first ∧ first.token = v.first ∧ skipValue first = .ok () r' ∧
      between first r' = v.text := by
  obtain ⟨first, step, token, origin, skips⟩ := h.skips
  refine ⟨first, step, token, ?_, ?_⟩
  · rw [skipValue, token, isName_first, if_neg Bool.false_ne_true]
    exact skips
  · rw [between, origin, List.length_append, Nat.add_sub_cancel, List.take_left]

theorem enter_root (d : Document) (height : d.height ≤ maxNesting)
    (hroot : d.root.isObject = true) :
    ∃ first, next (ofBytes d.text) = .ok () first ∧ first.token = .opened .object ∧
      Ahead first d.root.members [] d.behind.bytes := by
  exact enter_step hroot (wants_root d) (by change 0 + d.height ≤ _; omega)

end Reader

end HubDevice
