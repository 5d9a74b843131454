import Mathlib.Data.List.Forall2
import HubDevice.Proofs.Json.Acceptance
import HubDevice.Proofs.Json.Writing

set_option autoImplicit false

namespace HubDevice
open Grammar

def Token.StandsFor (token : Token) (s : String) : Prop :=
  (∀ capacity, (utf8 s).length ≤ capacity → token.text capacity = .ok s) ∧
    ∀ t, token.isText t = true ↔ t = s

/-- The token is of the kind and has the value that the event says. -/
def Event.MatchedBy : Event → Token → Prop
  | opened c, token => token = .opened c
  | closed c, token => token = .closed c
  | name s, token => (∃ body, token = .name body) ∧ token.StandsFor s
  | string s, token => (∃ body, token = .string body) ∧ token.StandsFor s
  | int32 n, token => token.int32 = .ok n
  | uint32 n, token => token.uint32 = .ok n
  | bool b, token => token = .bool b
  | null, token => token = .null

theorem Token.standsFor_of_spells {token : Token} {body : Bytes} {s : String}
    (hbody : token.body? = some body) (h : Spells body (utf8 s)) : token.StandsFor s := by
  have hunescape := StringBody.unescape_of_spells h
  refine ⟨fun capacity hcapacity => ?_, fun t => ?_⟩
  · unfold Token.text
    simp only [hbody, hunescape, if_neg (Nat.not_lt.2 hcapacity), text?_utf8]
    rfl
  · unfold Token.isText
    simp only [hbody, hunescape, beq_iff_eq, Prod.mk.injEq, and_true]
    constructor
    · intro heq
      exact (utf8_injective heq).symm
    · rintro rfl
      rfl

/-- A text is given only by a name or a string that spells it in the room. -/
theorem Token.spells_of_text {token : Token} {capacity : Nat} {s : String}
    (h : token.text capacity = .ok s) :
    ∃ body, token.body? = some body ∧ Spells body (utf8 s) ∧ (utf8 s).length ≤ capacity := by
  unfold Token.text at h
  split at h
  · cases h
  · next body hbody =>
    dsimp only at h
    split at h
    · cases h
    · next hroom =>
      split at h
      · cases h
      · next hwhole =>
        split at h
        · next t htext =>
          cases h
          have hout := text?_eq_some_iff.1 htext
          refine ⟨body, hbody, StringBody.unescape_iff.1 (Prod.ext hout.symm ?_), ?_⟩
          · simpa using hwhole
          · rw [hout]
            exact Nat.le_of_not_lt hroom
        · cases h

namespace Grammar

theorem Items.tokens_ofList {c : Container} (item : Item c) (items : List (Item c)) :
    (Items.ofList item items).tokens = (item :: items).flatMap Item.tokens := by
  induction items generalizing item with
  | nil => exact (List.append_nil _).symm
  | cons next items ih =>
    rw [ofList, tokens, ih]
    rfl

theorem Value.tokens_ofItems {c : Container} (items : List (Item c)) :
    (Value.ofItems c items).tokens = .opened c :: items.flatMap Item.tokens ++ [.closed c] := by
  cases items with
  | nil => rfl
  | cons item items => rw [ofItems, tokens, Items.tokens_ofList]

theorem Items.height_ofList {c : Container} (item : Item c) (items : List (Item c)) :
    (Items.ofList item items).height =
      (item :: items).foldr (fun i h => max i.height h) 0 := by
  induction items generalizing item with
  | nil => exact (Nat.max_zero _).symm
  | cons next items ih =>
    rw [ofList, height, ih]
    rfl

theorem Value.height_ofItems {c : Container} (items : List (Item c)) :
    (Value.ofItems c items).height = items.foldr (fun i h => max i.height h) 0 + 1 := by
  cases items with
  | nil => rfl
  | cons item items => rw [ofItems, height, Items.height_ofList]

end Grammar

namespace Tree

mutual

theorem height_value (t : Tree) : t.value.height = t.height := by
  match t with
  | .null => rfl
  | .bool _ => rfl
  | .int32 _ => rfl
  | .uint32 _ => rfl
  | .string _ => rfl
  | .array items => rw [value, Value.height_ofItems, height_itemValues, height]
  | .object members => rw [value, Value.height_ofItems, height_memberValues, height]

theorem height_itemValues (items : List Tree) :
    (itemValues items).foldr (fun i h => max i.height h) 0 = itemsHeight items := by
  match items with
  | [] => rfl
  | item :: items =>
    rw [itemValues, List.foldr_cons, Item.height, height_value item, height_itemValues items,
      itemsHeight]

theorem height_memberValues (members : List (String × Tree)) :
    (memberValues members).foldr (fun i h => max i.height h) 0 = membersHeight members := by
  match members with
  | [] => rfl
  | (_, value) :: members =>
    rw [memberValues, List.foldr_cons, Item.height, height_value value,
      height_memberValues members, membersHeight]

end

open List (Forall₂)

theorem matched_container {c : Container} {items : List (Item c)} {events : List Event}
    (h : Forall₂ Event.MatchedBy events (items.flatMap Item.tokens)) :
    Forall₂ Event.MatchedBy (.opened c :: events ++ [.closed c])
      (Value.ofItems c items).tokens := by
  rw [Value.tokens_ofItems]
  exact .cons rfl (List.rel_append h (.cons rfl .nil))

theorem int32_matched (n : Int32) :
    (Event.int32 n).MatchedBy (.number (Numeral.ofDigits (n < 0) n.toInt.natAbs)) :=
  Token.int32_number (Numeral.int32?_ofDigits n)

theorem uint32_matched (n : UInt32) :
    (Event.uint32 n).MatchedBy (.number (Numeral.ofDigits false n.toNat)) :=
  Token.uint32_number (Numeral.uint32?_ofDigits n)

mutual

theorem events_matched (t : Tree) : Forall₂ Event.MatchedBy t.events t.value.tokens := by
  match t with
  | .null => exact .cons rfl .nil
  | .bool _ => exact .cons rfl .nil
  | .int32 n => exact .cons (int32_matched n) .nil
  | .uint32 n => exact .cons (uint32_matched n) .nil
  | .string s =>
    exact .cons ⟨⟨_, rfl⟩, Token.standsFor_of_spells rfl (StringBody.spells_written s)⟩ .nil
  | .array items => exact matched_container (itemEvents_matched items)
  | .object members => exact matched_container (memberEvents_matched members)

theorem itemEvents_matched (items : List Tree) :
    Forall₂ Event.MatchedBy (itemEvents items) ((itemValues items).flatMap Item.tokens) := by
  match items with
  | [] => exact .nil
  | item :: items => exact List.rel_append (events_matched item) (itemEvents_matched items)

theorem memberEvents_matched (members : List (String × Tree)) :
    Forall₂ Event.MatchedBy (memberEvents members)
      ((memberValues members).flatMap Item.tokens) := by
  match members with
  | [] => exact .nil
  | (name, value) :: members =>
    have hname : (Event.name name).MatchedBy (.name (StringBody.written name)) :=
      ⟨⟨_, rfl⟩, Token.standsFor_of_spells rfl (StringBody.spells_written name)⟩
    exact .cons hname (List.rel_append (events_matched value) (memberEvents_matched members))

end

theorem text_document (t : Tree) : t.document.text = t.value.text := by
  simp [document, Document.text, Blank.none]

/-- A tree that is not too high is written if there is room, and read back to its end. -/
theorem emit_reads_back (t : Tree) (height : t.height ≤ maxNesting) :
    ∃ (b : Bytes) (ts : List Token),
      (∀ capacity, b.length ≤ capacity →
        ∃ w, t.emit (Writer.ofCapacity capacity) = .ok () w ∧ w.bytes = b) ∧
      (Reader.ofBytes b).tokens = (ts, .readerDone) ∧
      Forall₂ Event.MatchedBy t.events ts := by
  refine ⟨t.value.text, t.value.tokens, fun capacity hcapacity => ?_, ?_, events_matched t⟩
  · obtain ⟨w, hemit, hbytes, -⟩ := emit_writes t .start 0 (Writer.ofCapacity capacity) rfl rfl
      (by simpa [Writer.room, Writer.ofCapacity, Writer.ofBuffer, Buffer.ofCapacity, Writer.comma]
        using hcapacity)
    exact ⟨w, hemit, hbytes⟩
  · rw [← height_value] at height
    have htokens := Reader.tokens_document t.document height
    rw [text_document] at htokens
    exact htokens

theorem lowest_integer_reads_back :
    (array [int32 (-2147483648), string "\"\n"]).height ≤ maxNesting ∧
      ∃ (b : Bytes) (ts : List Token),
        (∀ capacity, b.length ≤ capacity →
          ∃ w, (array [int32 (-2147483648), string "\"\n"]).emit (Writer.ofCapacity capacity) =
            .ok () w ∧ w.bytes = b) ∧
        (Reader.ofBytes b).tokens = (ts, .readerDone) ∧
        Forall₂ Event.MatchedBy
          [.opened .array, .int32 (-2147483648), .string "\"\n", .closed .array] ts :=
  ⟨by decide, emit_reads_back _ (by decide)⟩

end Tree

end HubDevice
