import HubDevice.Proofs.Json.Members
import HubDevice.Twin.Walk

set_option autoImplicit false

namespace HubDevice.Twin
open Grammar
open Items (following)
open Reader (Ahead AtMember)

theorem read_of_ok {action : EStateM JsonError Reader Unit} {r r' : Reader}
    (h : action r = .ok () r') : read action r = .ok r' := by
  rw [read, h]

theorem seekMember_eq (wanted : Token → Bool) (r : Reader) :
    seekMember wanted r = (read Reader.next r).bind fun s =>
      if s.token.isName then
        if wanted s.token then .ok (true, s)
        else (read Reader.skipValue s).bind (seekMember wanted)
      else if s.token = .closed .object then .ok (false, s)
      else .error (.json .unexpectedToken) := by
  rw [seekMember]
  cases read Reader.next r with
  | error e => rfl
  | ok s =>
    simp only [Except.bind]
    cases read Reader.skipValue s <;> rfl

theorem seekMember_found {wanted : Token → Bool} {r s : Reader}
    (step : Reader.next r = .ok () s) (hname : s.token.isName = true)
    (hwanted : wanted s.token = true) : seekMember wanted r = .ok (true, s) := by
  rw [seekMember_eq, read_of_ok step, Except.bind, if_pos hname, if_pos hwanted]

theorem seekMember_skip {wanted : Token → Bool} {r s s' : Reader}
    (step : Reader.next r = .ok () s) (hname : s.token.isName = true)
    (hwanted : wanted s.token = false) (skip : Reader.skipValue s = .ok () s') :
    seekMember wanted r = seekMember wanted s' := by
  rw [seekMember_eq, read_of_ok step, Except.bind, if_pos hname, hwanted,
    if_neg Bool.false_ne_true, read_of_ok skip, Except.bind]

theorem seekMember_end {wanted : Token → Bool} {r s : Reader}
    (step : Reader.next r = .ok () s) (token : s.token = .closed .object) :
    seekMember wanted r = .ok (false, s) := by
  have hname : s.token.isName = false := by rw [token]; rfl
  rw [seekMember_eq, read_of_ok step, Except.bind, hname, if_neg Bool.false_ne_true, if_pos token]

section Seeking

variable (wanted : Token → Bool) {outer : List Container} {rest : Bytes}

theorem seekMember_pass {before after : List (Item .object)} {r : Reader}
    (h : Ahead r (before ++ after) outer rest)
    (hbefore : ∀ m ∈ before, wanted (.name m.name) = false) :
    ∃ s, seekMember wanted r = seekMember wanted s ∧ Ahead s after outer rest := by
  induction before generalizing r with
  | nil => exact ⟨r, rfl, h⟩
  | cons m before ih =>
    obtain ⟨s, step, hs⟩ := Reader.member_step h
    obtain ⟨s', passes, hs'⟩ := hs.passes
    have hskip : seekMember wanted r = seekMember wanted s' := seekMember_skip step hs.isName
      (by rw [hs.token]; exact hbefore m List.mem_cons_self) (passes.skipValue_name hs.isName)
    obtain ⟨e, hseek, he⟩ := ih hs' fun i hi => hbefore i (List.mem_cons_of_mem m hi)
    exact ⟨e, hskip.trans hseek, he⟩

theorem seekMember_none {items : List (Item .object)} {r : Reader} (h : Ahead r items outer rest)
    (hnone : ∀ m ∈ items, wanted (.name m.name) = false) :
    ∃ s, seekMember wanted r = .ok (false, s) ∧ s.Settled ∧ s.nesting = outer ∧ s.rest = rest := by
  rw [← List.append_nil items] at h
  obtain ⟨s, hseek, hs⟩ := seekMember_pass wanted h hnone
  obtain ⟨e, step, token, nesting, hrest⟩ := Reader.close_step hs
  exact ⟨e, hseek.trans (seekMember_end step token), Reader.settled_closed token, nesting, hrest⟩

theorem seekMember_some {items : List (Item .object)} {m : Item .object} {r : Reader}
    (h : Ahead r items outer rest)
    (hfind : items.find? (fun i => wanted (.name i.name)) = some m) :
    ∃ s more, seekMember wanted r = .ok (true, s) ∧ AtMember s m more outer rest := by
  obtain ⟨hwanted, before, more, rfl, hbefore⟩ := List.find?_eq_some_iff_append.1 hfind
  obtain ⟨s, hseek, hs⟩ := seekMember_pass wanted h fun i hi => by simpa using hbefore i hi
  obtain ⟨e, step, he⟩ := Reader.member_step hs
  refine ⟨e, more, ?_, he⟩
  rw [hseek]
  exact seekMember_found step he.isName (by rw [he.token]; exact hwanted)

end Seeking

theorem find?_isText (items : List (Item .object)) (t : String) :
    items.find? (fun i => (Token.name i.name).isText t) = items.find? (·.Named t) := by
  simp only [Item.isText_name]

theorem enterObject_of_step {r s : Reader} (step : Reader.next r = .ok () s)
    (token : s.token = .opened .object) : enterObject r = .ok s := by
  have hread := read_of_ok step
  simp only [enterObject, hread, bind, Except.bind, if_pos token]

/-- The first member with the name of the version, if there is one, is this number. -/
def Versioned (v : Value) (version : Option UInt32) : Prop :=
  match v.members.find? (·.Named versionName) with
  | none => version = none
  | some m => ∃ n : UInt32, version = some n ∧ m.value.text = Decimal.digits n.toNat

theorem uint32_first {v : Value} {n : UInt32} (h : v.text = Decimal.digits n.toNat) :
    v.first.uint32 = .ok n := by
  have hdigit : ∀ b, v.text.head? = some b → isDigit b = true := by
    intro b hb
    rw [h] at hb
    exact Decimal.isDigit_of_mem_digits (List.mem_of_mem_head? hb)
  match v with
  | .scalar .null => exact absurd (hdigit _ rfl) (by decide)
  | .scalar (.bool true) => exact absurd (hdigit _ rfl) (by decide)
  | .scalar (.bool false) => exact absurd (hdigit _ rfl) (by decide)
  | .scalar (.string _) => exact absurd (hdigit _ rfl) (by decide)
  | .empty c _ => exact absurd (hdigit c.opening rfl) (by cases c <;> decide)
  | .filled c _ => exact absurd (hdigit c.opening rfl) (by cases c <;> decide)
  | .scalar (.number m legal) =>
    have hm := Numeral.eq_of_text legal (Numeral.legal_ofDigits false n.toNat)
      (h.trans (Numeral.text_ofDigits false n.toNat).symm)
    exact Token.uint32_number (by rw [hm]; exact Numeral.uint32?_ofDigits n)

theorem scanVersion_ahead {r : Reader} {v : Value} {version : Option UInt32}
    {outer : List Container} {rest : Bytes} (h : Ahead r v.members outer rest)
    (hversion : Versioned v version) : scanVersion r = .ok version := by
  unfold Versioned at hversion
  rw [← find?_isText] at hversion
  split at hversion
  · next hfind =>
    rw [List.find?_eq_none] at hfind
    obtain ⟨s, hseek, -⟩ := seekMember_none (·.isText versionName) h
      fun m hm => by simpa using hfind m hm
    simp only [scanVersion, hseek, hversion, bind, Except.bind]
    rfl
  · next m hfind =>
    obtain ⟨n, rfl, htext⟩ := hversion
    obtain ⟨s, more, hseek, hs⟩ := seekMember_some (·.isText versionName) h hfind
    obtain ⟨r', passes, -⟩ := hs.passes
    obtain ⟨first, step, token, -⟩ := passes.first
    have hread := read_of_ok step
    have huint := uint32_first htext
    rw [← token] at huint
    simp only [scanVersion, hseek, hread, huint, bind, Except.bind, if_true]
    rfl

/-- The object of this section of a payload. -/
def Section (d : Document) (payload : Payload) (part : Part) (v : Value) : Prop :=
  d.root.isObject = true ∧
    match payload with
    | .patch => v = d.root
    | .document => ∃ m, d.root.members.find? (·.Named part.name) = some m ∧ m.value = v ∧
        v.isObject = true

def Closes (payload : Payload) (outer : List Container) (rest : Bytes) : Prop :=
  ∀ s : Reader, s.Settled → s.nesting = outer → s.rest = rest → ∃ e, Walk.close payload s = .ok e

theorem finish_blank {s : Reader} (settled : s.Settled) (nesting : s.nesting = [])
    (behind : Blank) (hrest : s.rest = behind.bytes) : ∃ e, read Reader.finish s = .ok e := by
  have hspace : Reader.skipSpace s.rest = [] := by
    rw [hrest]
    exact Reader.skipSpace_blank_nil behind
  exact ⟨_, read_of_ok (Reader.finish_of_end settled nesting hspace)⟩

theorem closes_patch (behind : Blank) : Closes .patch [] behind.bytes := by
  intro s settled nesting hrest
  exact finish_blank settled nesting behind hrest

theorem closes_document {r : Reader} {m : Item .object} {more : List (Item .object)}
    (behind : Blank) (h : AtMember r m more [] behind.bytes) :
    Closes .document [.object] (m.behind.bytes ++ following behind.bytes more) := by
  intro s settled nesting hrest
  have hs := h.ahead settled nesting hrest
  obtain ⟨e, hseek, settled', nesting', hrest'⟩ :=
    seekMember_none (fun _ => false) hs fun _ _ => rfl
  obtain ⟨e', hfinish⟩ := finish_blank settled' nesting' behind hrest'
  refine ⟨e', ?_⟩
  simp only [Walk.close, hseek]
  exact hfinish

theorem enterPart_ahead {d : Document} {payload : Payload} {part : Part} {v : Value} {r : Reader}
    (hsection : Section d payload part v) (h : Ahead r d.root.members [] d.behind.bytes) :
    ∃ s outer rest, enterPart payload part r = .ok s ∧ Ahead s v.members outer rest ∧
      Closes payload outer rest := by
  cases payload with
  | patch =>
    obtain ⟨-, rfl⟩ := hsection
    exact ⟨r, [], d.behind.bytes, rfl, h, closes_patch d.behind⟩
  | document =>
    obtain ⟨-, m, hfind, rfl, hobject⟩ := hsection
    rw [← find?_isText] at hfind
    obtain ⟨s, more, hseek, hs⟩ := seekMember_some (·.isText part.name) h hfind
    obtain ⟨first, step, token, hahead⟩ := hs.enters hobject
    refine ⟨first, _, _, ?_, hahead, closes_document d.behind hs⟩
    simp only [enterPart, hseek, bind, Except.bind, if_true]
    exact enterObject_of_step step token

theorem openPart_ahead {d : Document} {payload : Payload} {part : Part} {v : Value}
    {version : Option UInt32} (height : d.height ≤ maxNesting)
    (hsection : Section d payload part v) (hversion : Versioned v version) :
    ∃ r outer rest, openPart d.text payload part = .ok (r, version) ∧
      Ahead r v.members outer rest ∧ Closes payload outer rest := by
  obtain ⟨root, step, token, hroot⟩ := Reader.enter_root d height hsection.1
  obtain ⟨r, outer, rest, henter, hahead, hcloses⟩ := enterPart_ahead hsection hroot
  refine ⟨r, outer, rest, ?_, hahead, hcloses⟩
  have hscan := scanVersion_ahead hahead hversion
  simp only [openPart, enterObject_of_step step token, henter, hscan, bind, Except.bind]
  rfl

end HubDevice.Twin
