import HubDevice.Proofs.Json.Moves
import HubDevice.Twin.Walk

set_option autoImplicit false

namespace HubDevice.Twin
open Grammar
open Reader (Runs Moves ofBytes)

def WellFormed (json : Bytes) : Prop :=
  ∃ d : Document, d.text = json ∧ d.height ≤ maxNesting ∧ d.root.isObject = true

def Entered (json : Bytes) (r : Reader) : Prop :=
  ∃ ts, Runs 0 (ofBytes json) (.opened .object :: ts) r

def OfJson (e : Error) : Prop := ∃ c, e = .json c

theorem Entered.moves {json : Bytes} {r r' : Reader} (h : Entered json r) (moves : Moves r r') :
    Entered json r' := by
  obtain ⟨ts, runs⟩ := h
  obtain ⟨us, runs'⟩ := moves
  exact ⟨ts ++ us, runs.trans runs'⟩

theorem read_eq_ok {action : EStateM JsonError Reader Unit} {r r' : Reader}
    (h : read action r = .ok r') : action r = .ok () r' := by
  unfold read at h
  split at h
  · next haction =>
    injection h with h
    rw [haction, h]
  · cases h

theorem read_eq_error {action : EStateM JsonError Reader Unit} {r : Reader} {e : Error}
    (h : read action r = .error e) : OfJson e := by
  unfold read at h
  split at h
  · cases h
  · next c _ _ =>
    injection h with h
    exact ⟨c, h.symm⟩

theorem moves_read_next {r r' : Reader} (h : read Reader.next r = .ok r') : Moves r r' :=
  .one (read_eq_ok h)

theorem moves_read_skipValue {r r' : Reader} (h : read Reader.skipValue r = .ok r') :
    Moves r r' :=
  Reader.moves_skipValue (read_eq_ok h)

theorem wellFormed_of_finish {json : Bytes} {r r' : Reader} (h : Entered json r)
    (hfinish : read Reader.finish r = .ok r') : WellFormed json := by
  obtain ⟨ts, runs⟩ := h
  obtain ⟨d, htext, height, htokens⟩ := Reader.document_of_finish runs (read_eq_ok hfinish)
  refine ⟨d, htext, height, Value.isObject_iff.2 ?_⟩
  have hhead := d.root.head?_tokens
  change d.tokens.head? = _ at hhead
  rw [htokens] at hhead
  injection hhead with hhead
  exact hhead.symm

theorem moves_seekMember {wanted : Token → Bool} {r r' : Reader} {found : Bool}
    (h : seekMember wanted r = .ok (found, r')) : Moves r r' := by
  fun_induction seekMember wanted r with
  | case1 => cases h
  | case2 r s step _ _ =>
    cases h
    exact moves_read_next step
  | case3 => cases h
  | case4 r s step _ _ s' skip ih =>
    have moves := (moves_read_next step).trans (moves_read_skipValue skip)
    exact moves.trans (ih h)
  | case5 r s step _ _ =>
    cases h
    exact moves_read_next step
  | case6 => cases h

theorem seekMember_eq_error {wanted : Token → Bool} {r : Reader} {e : Error}
    (h : seekMember wanted r = .error e) : OfJson e := by
  fun_induction seekMember wanted r with
  | case1 r e' step =>
    cases h
    exact read_eq_error step
  | case2 => cases h
  | case3 _ _ _ _ _ e' skip =>
    cases h
    exact read_eq_error skip
  | case4 _ _ _ _ _ _ _ ih => exact ih h
  | case5 => cases h
  | case6 =>
    cases h
    exact ⟨_, rfl⟩

theorem enterObject_eq_ok {r r' : Reader} (h : enterObject r = .ok r') :
    Reader.next r = .ok () r' ∧ r'.token = .opened .object := by
  unfold enterObject at h
  obtain ⟨s, step, h⟩ := bind_eq_ok h
  split at h
  · next token =>
    cases h
    exact ⟨read_eq_ok step, token⟩
  · cases h

theorem enterObject_eq_error {r : Reader} {e : Error} (h : enterObject r = .error e) :
    OfJson e := by
  unfold enterObject at h
  rcases bind_eq_error h with step | ⟨s, -, h⟩
  · exact read_eq_error step
  · split at h
    · cases h
    · cases h
      exact ⟨_, rfl⟩

theorem uint32_eq_error {token : Token} {e : Error} (h : token.uint32 = .error e) :
    OfJson e := by
  unfold Token.uint32 at h
  split at h
  · next hnumeral =>
    cases h
    unfold Token.numeral at hnumeral
    split at hnumeral
    · cases hnumeral
    · cases hnumeral
      exact ⟨_, rfl⟩
  · split at h
    · cases h
    · cases h
      exact ⟨_, rfl⟩

theorem scanVersion_eq_error {r : Reader} {e : Error} (h : scanVersion r = .error e) :
    OfJson e := by
  unfold scanVersion at h
  rcases bind_eq_error h with hseek | ⟨⟨found, s⟩, -, h⟩
  · exact seekMember_eq_error hseek
  · dsimp only at h
    split at h
    · rcases bind_eq_error h with step | ⟨s', -, h⟩
      · exact read_eq_error step
      · cases huint : s'.token.uint32 with
        | error e' =>
          rw [huint] at h
          cases h
          exact uint32_eq_error huint
        | ok n =>
          rw [huint] at h
          cases h
    · cases h

theorem entered_of_enterObject {json : Bytes} {r : Reader}
    (h : enterObject (ofBytes json) = .ok r) : Entered json r := by
  obtain ⟨step, token⟩ := enterObject_eq_ok h
  refine ⟨[], ?_⟩
  rw [← token]
  exact .one step (Nat.zero_le _)

theorem moves_enterPart {payload : Payload} {part : Part} {r r' : Reader}
    (h : enterPart payload part r = .ok r') : Moves r r' := by
  cases payload with
  | patch =>
    cases h
    exact .refl r
  | document =>
    unfold enterPart at h
    obtain ⟨⟨found, s⟩, hseek, h⟩ := bind_eq_ok h
    dsimp only at h
    split at h
    · exact (moves_seekMember hseek).trans (.one (enterObject_eq_ok h).1)
    · obtain ⟨_, _, h⟩ := bind_eq_ok h
      cases h

/-- A missing section is noticed at the end of a document only. -/
theorem enterPart_eq_error {json : Bytes} {payload : Payload} {part : Part} {r : Reader}
    {e : Error} (hr : Entered json r) (h : enterPart payload part r = .error e) :
    OfJson e ∨ e = .itemNotFound ∧ WellFormed json := by
  cases payload with
  | patch => cases h
  | document =>
    unfold enterPart at h
    rcases bind_eq_error h with hseek | ⟨⟨found, s⟩, hseek, h⟩
    · exact .inl (seekMember_eq_error hseek)
    · dsimp only at h
      split at h
      · exact .inl (enterObject_eq_error h)
      · rcases bind_eq_error h with hfinish | ⟨s', hfinish, h⟩
        · exact .inl (read_eq_error hfinish)
        · cases h
          have hend := hr.moves (moves_seekMember hseek)
          exact .inr ⟨rfl, wellFormed_of_finish hend hfinish⟩

theorem openPart_eq_ok {json : Bytes} {payload : Payload} {part : Part} {r : Reader}
    {version : Option UInt32} (h : openPart json payload part = .ok (r, version)) :
    Entered json r := by
  unfold openPart at h
  obtain ⟨root, hroot, h⟩ := bind_eq_ok h
  obtain ⟨s, hpart, h⟩ := bind_eq_ok h
  obtain ⟨v, _, h⟩ := bind_eq_ok h
  cases h
  exact (entered_of_enterObject hroot).moves (moves_enterPart hpart)

theorem openPart_eq_error {json : Bytes} {payload : Payload} {part : Part} {e : Error}
    (h : openPart json payload part = .error e) :
    OfJson e ∨ e = .itemNotFound ∧ WellFormed json := by
  unfold openPart at h
  rcases bind_eq_error h with hroot | ⟨root, hroot, h⟩
  · exact .inl (enterObject_eq_error hroot)
  · rcases bind_eq_error h with hpart | ⟨s, _, h⟩
    · exact enterPart_eq_error (entered_of_enterObject hroot) hpart
    · rcases bind_eq_error h with hversion | ⟨v, _, h⟩
      · exact .inl (scanVersion_eq_error hversion)
      · cases h

end HubDevice.Twin
