import HubDevice.Proofs.Json.Tokens

set_option autoImplicit false

namespace HubDevice.Reader

/-- A value is complete: the current token is a scalar or a closing bracket. -/
def Settled (r : Reader) : Prop :=
  match r.token with
  | .start | .opened _ | .name _ => False
  | _ => True

theorem seek_of_settled {r : Reader} (h : r.Settled) :
    r.seek = seekNext r.nesting (skipSpace r.rest) := by
  unfold Settled at h
  unfold seek
  split <;> simp_all

theorem settled_scalar {r : Reader} {x : Grammar.Scalar} (h : r.token = x.token) : r.Settled := by
  unfold Settled
  rw [h]
  cases x <;> trivial

theorem settled_closed {r : Reader} {c : Container} (h : r.token = .closed c) : r.Settled := by
  unfold Settled
  rw [h]
  trivial

inductive Runs (floor : Nat) : Reader → List Token → Reader → Prop where
  | refl (r : Reader) : Runs floor r [] r
  | next {r s e : Reader} {ts : List Token} (step : next r = .ok () s)
    (above : floor ≤ s.depth) (tail : Runs floor s ts e) : Runs floor r (s.token :: ts) e

theorem Runs.one {floor : Nat} {r s : Reader} (step : Reader.next r = .ok () s)
    (above : floor ≤ s.depth) : Runs floor r [s.token] s :=
  .next step above (.refl s)

theorem Runs.trans {floor : Nat} {r s e : Reader} {ts us : List Token} (h : Runs floor r ts s)
    (h' : Runs floor s us e) : Runs floor r (ts ++ us) e := by
  induction h with
  | refl _ => exact h'
  | next step above _ ih => exact .next step above (ih h')

theorem Runs.mono {low high : Nat} {r e : Reader} {ts : List Token} (h : Runs high r ts e)
    (hle : low ≤ high) : Runs low r ts e := by
  induction h with
  | refl r => exact .refl r
  | next step above _ ih => exact .next step (Nat.le_trans hle above) ih

theorem Runs.step {floor : Nat} {r e : Reader} {ts : List Token} (h : Runs floor r ts e)
    (hne : ts ≠ []) :
    ∃ s us, Reader.next r = .ok () s ∧ ts = s.token :: us ∧ Runs floor s us e := by
  cases h with
  | refl _ => exact absurd rfl hne
  | next step _ tail => exact ⟨_, _, step, rfl, tail⟩

theorem Runs.ne_nil {floor : Nat} {r e : Reader} {ts : List Token} (h : Runs floor r ts e)
    (hne : r ≠ e) : ts ≠ [] := by
  rintro rfl
  cases h
  exact hne rfl

theorem Runs.eq_nil {floor : Nat} {r e : Reader} {ts : List Token} (h : Runs floor r ts e)
    {c : JsonError} {r' : Reader} (hnext : Reader.next r = .error c r') : ts = [] ∧ e = r := by
  cases h with
  | refl _ => exact ⟨rfl, rfl⟩
  | next step _ _ =>
    rw [hnext] at step
    cases step

def tokens (r : Reader) : List Token × JsonError :=
  match _h : next r with
  | .error c _ => ([], c)
  | .ok () r' => (r'.token :: (tokens r').1, (tokens r').2)
termination_by r.rest.length
decreasing_by all_goals exact length_next _h

theorem tokens_of_error {r r' : Reader} {c : JsonError} (h : next r = .error c r') :
    r.tokens = ([], c) := by
  rw [tokens]
  split
  · next h' =>
    rw [h] at h'
    injection h' with h'
    rw [h']
  · next h' =>
    rw [h] at h'
    cases h'

theorem tokens_of_ok {r r' : Reader} (h : next r = .ok () r') :
    r.tokens = (r'.token :: r'.tokens.1, r'.tokens.2) := by
  rw [tokens]
  split
  · next h' =>
    rw [h] at h'
    cases h'
  · next h' =>
    rw [h] at h'
    injection h' with _ h'
    rw [h']

theorem tokens_of_runs {floor : Nat} {r e e' : Reader} {ts : List Token} {c : JsonError}
    (h : Runs floor r ts e) (hend : next e = .error c e') : r.tokens = (ts, c) := by
  induction h with
  | refl r => exact tokens_of_error hend
  | next step _ _ ih => rw [tokens_of_ok step, ih hend]

theorem runs_of_tokens {r : Reader} {ts : List Token} {c : JsonError}
    (h : r.tokens = (ts, c)) : ∃ e e', Runs 0 r ts e ∧ next e = .error c e' := by
  fun_induction tokens r generalizing ts c with
  | case1 r c' r' hnext =>
    cases h
    exact ⟨r, r', .refl r, hnext⟩
  | case2 r r' hnext ih =>
    cases h
    obtain ⟨e, e', hruns, hend⟩ := ih rfl
    exact ⟨e, e', .next hnext (Nat.zero_le _) hruns, hend⟩

/-- Leaving a container passes over whatever is read inside it. -/
theorem leave_of_runs {d : Nat} {r e : Reader} {ts : List Token} (h : Runs (d + 1) r ts e) :
    leave d r = leave d e := by
  induction h with
  | refl _ => rfl
  | @next r s e ts step above _ ih =>
    have hdepth : ¬ s.depth = d := by omega
    rw [← ih, leave]
    split
    · next h' =>
      rw [step] at h'
      cases h'
    · next h' =>
      rw [step] at h'
      injection h' with _ h'
      subst h'
      rw [decide_eq_false hdepth, Bool.and_false]
      rfl

theorem leave_closed {d : Nat} {r s : Reader} {c : Container} (step : next r = .ok () s)
    (token : s.token = .closed c) (depth : s.depth = d) : leave d r = .ok () s := by
  rw [leave]
  split
  · next h' =>
    rw [step] at h'
    cases h'
  · next h' =>
    rw [step] at h'
    injection h' with _ h'
    subst h'
    rw [token, depth, decide_eq_true rfl]
    rfl

end HubDevice.Reader
