import HubDevice.Proofs.Json.Acceptance

set_option autoImplicit false

namespace HubDevice.Reader
open Grammar

def Moves (r r' : Reader) : Prop := ∃ ts, Runs 0 r ts r'

theorem Moves.refl (r : Reader) : Moves r r := ⟨[], .refl r⟩

theorem Moves.one {r r' : Reader} (step : next r = .ok () r') : Moves r r' :=
  ⟨_, .one step (Nat.zero_le _)⟩

theorem Moves.trans {r s e : Reader} (h : Moves r s) (h' : Moves s e) : Moves r e := by
  obtain ⟨ts, runs⟩ := h
  obtain ⟨us, runs'⟩ := h'
  exact ⟨ts ++ us, runs.trans runs'⟩

theorem moves_leave {d : Nat} {r r' : Reader} {u : Unit} (h : leave d r = .ok u r') :
    Moves r r' := by
  fun_induction leave d r with
  | case1 => cases h
  | case2 r s step _ =>
    cases h
    exact .one step
  | case3 r s step _ ih => exact (Moves.one step).trans (ih h)

theorem moves_skipOpened {r r' : Reader} {u : Unit} (h : skipOpened r = .ok u r') :
    Moves r r' := by
  unfold skipOpened at h
  split at h
  · exact moves_leave h
  · cases h
    exact .refl r

theorem moves_skipValue {r r' : Reader} {u : Unit} (h : skipValue r = .ok u r') :
    Moves r r' := by
  unfold skipValue at h
  split at h
  · split at h
    · cases h
    · next step => exact (Moves.one step).trans (moves_skipOpened h)
  · exact moves_skipOpened h

/-- Where no container is open, nothing has been read or a value is complete. -/
def Grounded (r : Reader) : Prop := r.nesting = [] → r.token = .start ∨ r.Settled

theorem grounded_next {r s : Reader} (h : r.Grounded) (step : next r = .ok () s) :
    s.Grounded := by
  intro hs
  obtain ⟨wanted, hwants, htake⟩ := next_sound step
  cases wanted with
  | close c =>
    simp only [take, Except.ok.injEq, Prod.mk.injEq] at htake
    exact .inr (settled_closed htake.1.symm)
  | value =>
    rcases take_value_sound htake with ⟨x, token, _, _⟩ | ⟨c, _, nesting, _, _⟩
    · exact .inr (settled_scalar token)
    · rw [hs] at nesting
      cases nesting
  | name =>
    -- A name is wanted in an object only, so this cannot be at the root.
    obtain ⟨body, _, nesting, _⟩ := take_name_sound htake
    rw [hs] at nesting
    rcases h nesting.symm with token | settled
    · simp [Wants, seek, token] at hwants
    · obtain ⟨c, r', hstuck⟩ := stuck_of_root settled nesting.symm
      rw [hstuck] at step
      cases step

theorem grounded_runs {r e : Reader} {ts : List Token} (h : r.Grounded) (runs : Runs 0 r ts e) :
    e.Grounded := by
  induction runs with
  | refl _ => exact h
  | next step _ _ ih => exact ih (grounded_next h step)

theorem finish_sound {r r' : Reader} {u : Unit} (h : finish r = .ok u r') :
    r.nesting = [] ∧ r.token ≠ .start ∧ skipSpace r.rest = [] := by
  unfold finish at h
  split at h
  · cases h
  · next hroot =>
    simp only [ne_eq, Bool.or_eq_true, decide_eq_true_eq, not_or, Classical.not_not] at hroot
    dsimp only at h
    split at h
    · next hrest =>
      exact ⟨List.length_eq_zero_iff.1 hroot.1, hroot.2, List.isEmpty_iff.1 hrest⟩
    · cases h

theorem finish_of_end {r : Reader} (settled : r.Settled) (nesting : r.nesting = [])
    (hrest : skipSpace r.rest = []) : finish r = .ok () { r with rest := [] } := by
  have hdepth : r.depth = 0 := by
    rw [depth, nesting]
    rfl
  have htoken : r.token ≠ .start := by
    intro token
    unfold Settled at settled
    rw [token] at settled
    exact settled
  unfold finish
  rw [hdepth, hrest, decide_eq_false htoken]
  rfl

/-- A reader that finishes has read the tokens of a parse tree. -/
theorem document_of_finish {b : Bytes} {ts : List Token} {e e' : Reader} {u : Unit}
    (runs : Runs 0 (ofBytes b) ts e) (h : finish e = .ok u e') :
    ∃ d : Document, d.text = b ∧ d.height ≤ maxNesting ∧ d.tokens = ts := by
  obtain ⟨nesting, token, hrest⟩ := finish_sound h
  have hgrounded : (ofBytes b).Grounded := fun _ => .inl rfl
  have hsettled := (grounded_runs hgrounded runs nesting).resolve_left token
  exact document_of_runs runs hsettled nesting hrest

end HubDevice.Reader
