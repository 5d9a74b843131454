import HubDevice.Proofs.Json.Tours

set_option autoImplicit false

namespace HubDevice

open Grammar

def Token.Legal : Token → Prop
  | .name body => ∃ legal : Body, legal.bytes = body
  | .string body => ∃ legal : Body, legal.bytes = body
  | .number n => LegalNumeral n
  | _ => True

theorem Token.Legal.exists_body {token : Token} {body : Bytes} (h : token.Legal)
    (hbody : token.body? = some body) : ∃ legal : Body, legal.bytes = body := by
  cases token <;> cases hbody <;> exact h

namespace Reader

theorem legal_of_next {r r' : Reader} {u : Unit} (h : next r = .ok u r') : r'.token.Legal := by
  obtain ⟨wanted, -, htake⟩ := next_sound h
  cases wanted with
  | close k =>
    simp only [take, Except.ok.injEq, Prod.mk.injEq] at htake
    rw [← htake.1]
    trivial
  | name =>
    obtain ⟨legal, htoken, -, -⟩ := take_name_sound htake
    rw [htoken]
    exact ⟨legal, rfl⟩
  | value =>
    rcases take_value_sound htake with ⟨x, htoken, -, -⟩ | ⟨k, htoken, -, -, -⟩
    · rw [htoken]
      cases x with
      | string legal => exact ⟨legal, rfl⟩
      | number n legal => exact legal
      | null => trivial
      | bool b => trivial
    · rw [htoken]
      trivial

def EndsLegal : EStateM.Result JsonError Reader Unit → Prop
  | .ok _ r => r.token.Legal
  | .error _ r => r.token.Legal

variable {r : Reader}

theorem next_endsLegal (h : r.token.Legal) : EndsLegal (next r) := by
  cases hnext : next r with
  | ok u r' => exact legal_of_next hnext
  | error e r' =>
    change r'.token.Legal
    rwa [(next_error hnext).1]

theorem leave_endsLegal (target : Nat) (h : r.token.Legal) : EndsLegal (leave target r) := by
  fun_induction leave target r with
  | case1 r e r' hnext =>
    have hends := next_endsLegal h
    rwa [hnext] at hends
  | case2 r r' hnext _ => exact legal_of_next hnext
  | case3 r r' hnext _ ih => exact ih (legal_of_next hnext)

theorem skipOpened_endsLegal (h : r.token.Legal) : EndsLegal (skipOpened r) := by
  unfold skipOpened
  split
  · exact leave_endsLegal _ h
  · exact h

theorem answer_endsLegal (call : Tour.Call) (h : r.token.Legal) : EndsLegal (answer call r) := by
  cases call with
  | next => exact next_endsLegal h
  | skip =>
    change EndsLegal (skipValue r)
    unfold skipValue
    split
    · have hends := next_endsLegal h
      split
      · next hnext => rwa [hnext] at hends
      · next hnext => exact skipOpened_endsLegal (legal_of_next hnext)
    · exact skipOpened_endsLegal h
  | finish =>
    change EndsLegal (finish r)
    unfold finish
    dsimp only
    split
    · exact h
    · split <;> exact h

end Reader

namespace Tour

/-- Where a tour is and wherever it can go back to there is a legal token. -/
def Legal (t : Tour Reader) : Prop := t.current.token.Legal ∧ ∀ r ∈ t.saved, r.token.Legal

theorem move_legal {t : Tour Reader} (h : t.Legal) (m : Move) :
    (move Reader.answer t m).2.Legal := by
  obtain ⟨hcurrent, hsaved⟩ := h
  cases m with
  | save =>
    refine ⟨hcurrent, fun r hr => ?_⟩
    rcases List.mem_append.1 hr with hr | hr
    · exact hsaved r hr
    · rw [List.mem_singleton.1 hr]
      exact hcurrent
  | back n =>
    refine ⟨?_, hsaved⟩
    change (t.saved[n]?.getD t.current).token.Legal
    cases hn : t.saved[n]? with
    | none => exact hcurrent
    | some r => exact hsaved r (List.mem_of_getElem? hn)
  | call call =>
    have hends := Reader.answer_endsLegal call hcurrent
    unfold move
    dsimp only
    generalize Reader.answer call t.current = result at hends
    cases result <;> exact ⟨hends, hsaved⟩

theorem run_legal (document : Bytes) (moves : List Move) :
    (run Reader.answer moves ⟨.ofBytes document, []⟩).2.Legal := by
  have hrun : ∀ t : Tour Reader, t.Legal → (run Reader.answer moves t).2.Legal := by
    induction moves with
    | nil => exact fun t h => h
    | cons m moves ih => exact fun t h => ih _ (move_legal h m)
  exact hrun _ ⟨trivial, nofun⟩

end Tour

end HubDevice
