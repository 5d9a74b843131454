import HubDevice.Proofs.Json.Members
import HubDevice.Proofs.Json.Moves
import HubDevice.Proofs.Json.Tours

set_option autoImplicit false

namespace HubDevice.Reader
open Grammar

inductive Visits : Reader → List Reader → Reader → Prop where
  | done (r : Reader) : Visits r [] r
  | step {r s e : Reader} {visited : List Reader} (step : next r = .ok () s)
    (more : Visits s visited e) : Visits r (s :: visited) e

def Above (base : Nat) (s t : Reader) : Prop := s.token = t.token ∧ s.depth = t.depth + base

theorem depth_close {nesting : List Container} {s : Bytes} {c : Container} {r : Reader}
    (h : take nesting (.close c) s = .ok (r.token, r.nesting, r.rest)) :
    r.token = .closed c ∧ r.depth = nesting.length - 1 := by
  simp only [take, Except.ok.injEq, Prod.mk.injEq] at h
  refine ⟨h.1.symm, ?_⟩
  rw [depth, ← h.2.1, List.length_tail]

def behind (depth : Nat) : Token → Nat
  | .opened _ => depth + 1
  | .closed _ => depth - 1
  | _ => depth

theorem behind_add {base depth : Nat} {t : Token} (h : base ≤ behind (depth + base) t) :
    behind (depth + base) t = behind depth t + base := by
  cases t with
  | opened c => exact Nat.add_right_comm depth base 1
  | closed c =>
    change base ≤ depth + base - 1 at h
    change depth + base - 1 = depth - 1 + base
    omega
  | _ => rfl

theorem depth_next {r s : Reader} {u : Unit} (step : next r = .ok u s) :
    s.depth = behind r.depth s.token := by
  obtain ⟨wanted, -, htake⟩ := next_sound step
  cases wanted with
  | close c =>
    obtain ⟨token, hdepth⟩ := depth_close htake
    rw [token, hdepth]
    rfl
  | name =>
    obtain ⟨body, token, nesting, -⟩ := take_name_sound htake
    rw [token, depth, nesting]
    rfl
  | value =>
    rcases take_value_sound htake with ⟨x, token, nesting, -⟩ | ⟨c, token, nesting, -, -⟩
    · rw [token, depth, nesting]
      cases x <;> rfl
    · rw [token, depth_cons nesting]
      rfl

theorem shallow_next {r s : Reader} {u : Unit} (h : r.depth ≤ maxNesting)
    (step : next r = .ok u s) : s.depth ≤ maxNesting := by
  obtain ⟨wanted, -, htake⟩ := next_sound step
  cases wanted with
  | close c =>
    rw [(depth_close htake).2]
    exact Nat.le_trans (Nat.sub_le _ _) h
  | name =>
    obtain ⟨body, -, nesting, -⟩ := take_name_sound htake
    rwa [depth, nesting]
  | value =>
    rcases take_value_sound htake with ⟨x, -, nesting, -⟩ | ⟨c, -, nesting, -, hlt⟩
    · rwa [depth, nesting]
    · rw [depth_cons nesting]
      exact hlt

/-- What holds of every reader that has come to some place of a document. -/
structure Placed (r : Reader) : Prop where
  poised : r.Poised
  shallow : r.depth ≤ maxNesting

theorem placed_ofBytes (document : Bytes) : (ofBytes document).Placed :=
  ⟨⟨nofun, nofun⟩, Nat.zero_le _⟩

theorem Placed.next {r s : Reader} {u : Unit} (h : r.Placed) (step : Reader.next r = .ok u s) :
    s.Placed :=
  ⟨h.poised.next step, shallow_next h.shallow step⟩

theorem Placed.moves {r s : Reader} (h : r.Placed) (moves : Moves r s) : s.Placed := by
  obtain ⟨ts, runs⟩ := moves
  induction runs with
  | refl _ => exact h
  | next step _ _ ih => exact ih (h.next step)

theorem Placed.visits {r e : Reader} {visited : List Reader} (h : r.Placed)
    (visits : Visits r visited e) : ∀ s ∈ visited, s.Placed := by
  induction visits with
  | done _ => nofun
  | step step _ ih => exact List.forall_mem_cons.2 ⟨h.next step, ih (h.next step)⟩

theorem container_value_passes (v : Value) {c : Container} (first : v.first = .opened c)
    {r : Reader} {rest : Bytes} (wants : r.Wants .value (v.text ++ rest))
    (height : r.depth + v.height ≤ maxNesting) : ∃ r', Passes v r r' ∧ r'.rest = rest := by
  cases v with
  | scalar x => cases x <;> cases first
  | empty c inside =>
    obtain ⟨first, step, token, nesting, origin, hahead⟩ := open_empty wants height
    exact container_passes step token origin nesting (.refl first) hahead rfl rfl
  | filled c items =>
    obtain ⟨first, step, token, nesting, origin, hahead⟩ := open_filled wants height
    obtain ⟨last, runs, hlast⟩ := items_run items hahead
    exact container_passes step token origin nesting runs hlast rfl rfl

theorem leave_closes {d : Nat} {r r' : Reader} {u : Unit} (h : leave d r = .ok u r') :
    r'.token.isClosed = true ∧ r'.depth = d := by
  fun_induction leave d r with
  | case1 => cases h
  | case2 r s _ hclosed =>
    cases h
    simpa using hclosed
  | case3 _ _ _ _ ih => exact ih h

theorem settled_of_isClosed {r : Reader} (h : r.token.isClosed = true) : r.Settled := by
  unfold Settled
  unfold Token.isClosed at h
  split at h
  · next token =>
    rw [token]
    trivial
  · cases h

theorem passes_of_skip {r first r' : Reader} {s : Bytes} {u : Unit} (shallow : r.depth ≤ maxNesting)
    (wants : r.Wants .value s) (step : next r = .ok () first)
    (skip : skipValue first = .ok u r') :
    ∃ v : Value, Passes v r r' ∧ r.depth + v.height ≤ maxNesting := by
  obtain ⟨wanted, hwants, htake⟩ := next_sound step
  rw [Wants, wants] at hwants
  simp only [Prod.mk.injEq, Except.ok.injEq] at hwants
  obtain ⟨rfl, rfl⟩ := hwants
  have hscalar (x : Scalar) : x.token.isName = false := isName_first (.scalar x)
  rcases take_value_sound htake with ⟨x, token, nesting, hs⟩ | ⟨c, token, nesting, hs, -⟩
  · have stays : skipOpened first = .ok () first := by
      unfold skipOpened
      rw [token]
      cases x <;> rfl
    rw [skipValue, token, hscalar x, if_neg Bool.false_ne_true, stays] at skip
    cases skip
    have hdepth : r.depth ≤ first.depth := Nat.le_of_eq (by rw [depth, depth, nesting])
    have runs : Runs r.depth r [x.token] first := token ▸ .one step hdepth
    exact ⟨.scalar x, ⟨settled_scalar token, nesting, runs, first, step, token, hs, stays⟩, shallow⟩
  · have hfirst : first.depth = r.depth + 1 := depth_cons nesting
    have hname : (Token.opened c).isName = false := rfl
    rw [skipValue, token, hname, if_neg Bool.false_ne_true] at skip
    have hleave := skip
    rw [skipOpened_opened token, hfirst, Nat.add_sub_cancel] at hleave
    obtain ⟨closed, hdepth⟩ := leave_closes hleave
    obtain ⟨ts, tail⟩ := moves_leave hleave
    have runs : Runs 0 r (first.token :: ts) r' := .next step (Nat.zero_le _) tail
    obtain ⟨v, r'', us, htokens, resumes, htext, height⟩ := (passes_of_runs _).1 runs
      (settled_of_isClosed closed) (Nat.le_of_eq hdepth) shallow (List.cons_ne_nil _ _) wants
    have hv : v.first = .opened c := by
      have hhead := v.head?_tokens
      cases htree : v.tokens with
      | nil => exact absurd htree (tokens_ne_nil v)
      | cons t more =>
        rw [htree] at hhead htokens
        rw [← Option.some.inj hhead, ← (List.cons.inj htokens).1, token]
    rw [htext] at wants
    obtain ⟨r3, passes, -⟩ := container_value_passes v hv wants height
    -- The skip of the value starts at the same token, so it ends at the same place.
    obtain ⟨first', step', -, -, skip'⟩ := passes.skips
    rw [step] at step'
    cases step'
    rw [skip] at skip'
    cases skip'
    exact ⟨v, passes, height⟩

/-- A reader that does not go below its floor goes side by side with one that reads the same tokens
from depth zero. -/
theorem visits_above {base : Nat} {r e t f : Reader} {ts : List Token} (h : Runs base r ts e)
    (h' : Runs 0 t ts f) (hdepth : r.depth = t.depth + base) :
    ∃ visited alone, Visits r visited e ∧ Visits t alone f ∧
      List.Forall₂ (Above base) visited alone ∧ visited.map token = ts := by
  induction h generalizing t with
  | refl r =>
    cases h' with
    | refl _ => exact ⟨[], [], .done _, .done _, .nil, rfl⟩
  | @next r s e ts step above _ ih =>
    generalize htokens : s.token :: ts = all at h'
    cases h' with
    | refl _ => cases htokens
    | @next _ t' _ us step' _ tail =>
      obtain ⟨htoken, rfl⟩ := List.cons.inj htokens
      have hs := depth_next step
      rw [hdepth] at hs
      rw [hs] at above
      have hbehind : s.depth = t'.depth + base := by
        rw [hs, depth_next step', ← htoken]
        exact behind_add above
      obtain ⟨visited, alone, hvisited, halone, habove, hmap⟩ := ih tail hbehind
      refine ⟨s :: visited, t' :: alone, .step step hvisited, .step step' halone,
        .cons ⟨htoken, hbehind⟩ habove, ?_⟩
      rw [List.map_cons, hmap, htoken]

theorem depth_below {base limit : Nat} {visited alone : List Reader}
    (h : List.Forall₂ (Above base) visited alone) (hlimit : ∀ s ∈ visited, s.depth ≤ limit) :
    ∀ t ∈ alone, t.depth + base ≤ limit := by
  induction h with
  | nil => nofun
  | cons habove _ ih =>
    obtain ⟨hfirst, hrest⟩ := List.forall_mem_cons.1 hlimit
    exact List.forall_mem_cons.2 ⟨habove.2 ▸ hfirst, ih hrest⟩

/-- At the end of a document the reader is done, and it finishes there before and after it has been
told so. -/
def Ends (e : Reader) : Prop :=
  ∃ e', next e = .error .readerDone e' ∧ finish e = .ok () e' ∧ finish e' = .ok () e'

theorem ends_of_settled {e : Reader} (settled : e.Settled) (nesting : e.nesting = [])
    (hrest : skipSpace e.rest = []) : e.Ends := by
  have hseek := seek_of_settled settled
  rw [nesting, hrest] at hseek
  refine ⟨{ e with rest := [] }, ?_, finish_of_end settled nesting hrest, ?_⟩
  · rw [next, hseek]
    rfl
  · exact finish_of_end (r := { e with rest := [] }) settled nesting rfl

/-- The text of a value that was passed over is read by itself as it was read in its document. -/
theorem Passes.alone {v : Value} {r r' : Reader} (h : Passes v r r')
    (height : v.height ≤ maxNesting) :
    ∃ visited alone e, Visits r visited r' ∧ Visits (ofBytes v.text) alone e ∧ e.Ends ∧
      List.Forall₂ (Above r.depth) visited alone ∧
      (visited.map token).head? = some v.first := by
  let d : Document := ⟨.none, v, .none⟩
  have htext : d.text = v.text := List.append_nil _
  obtain ⟨e, runs, settled, nesting, hrest⟩ := runs_document d height
  rw [htext] at runs
  obtain ⟨visited, alone, hvisited, halone, habove, hmap⟩ :=
    visits_above h.runs runs (Nat.zero_add _).symm
  refine ⟨visited, alone, e, hvisited, halone, ?_, habove, ?_⟩
  · exact ends_of_settled settled nesting (by rw [hrest]; exact skipSpace_blank_nil .none)
  · rw [hmap]
    exact v.head?_tokens

end HubDevice.Reader
