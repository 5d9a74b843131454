import HubDevice.Proofs.Json.Skipping

set_option autoImplicit false

namespace HubDevice

open Grammar (Value)

def Kind.isScalar : Kind → Bool
  | string | number | bool _ | null => true
  | _ => false

structure View (σ : Type) where
  kind : σ → Kind
  /-- The document from the current token on. -/
  origin : σ → Bytes
  unread : σ → Bytes
  depth : σ → Nat
  /-- Whether the container open at a level is an object; the outermost is at level zero. -/
  isObject : σ → Nat → Bool

/-- The result is where `n` steps lead, or the failure of the step behind them. -/
inductive Proceeds {ε σ : Type} (next : EStateM ε σ Unit) :
    Nat → σ → EStateM.Result ε σ Unit → Prop
  | stay (s : σ) : Proceeds next 0 s (.ok () s)
  | fail {s s' : σ} {e : ε} (step : next s = .error e s') : Proceeds next 0 s (.error e s')
  | more {n : Nat} {s s' : σ} {result : EStateM.Result ε σ Unit} (step : next s = .ok () s')
    (rest : Proceeds next n s' result) : Proceeds next (n + 1) s result

namespace View

variable {ε σ : Type}

/-- The container at hand is the value `v`, it is not too high, and `rest` stands behind it. -/
structure Holds (view : View σ) (s : σ) (k : Container) (v : Value) (rest : Bytes) : Prop where
  first : v.first = .opened k
  origin : view.origin s = v.text ++ rest
  height : view.depth s - 1 + v.height ≤ maxNesting

/-- From the bracket at `s` the matching one has been reached. -/
structure Lands (view : View σ) (s s' : σ) (k : Container) (rest : Bytes) : Prop where
  kind : view.kind s' = .closed k
  origin : view.origin s' = k.closing :: rest
  unread : view.unread s' = rest
  depth : view.depth s' + 1 = view.depth s
  isObject : ∀ level < view.depth s', view.isObject s' level = view.isObject s level

structure Skips (view : View σ) (next skip : EStateM ε σ Unit) (s : σ) : Prop where
  scalar : (view.kind s).isScalar = true → skip s = .ok () s
  name : view.kind s = .name →
    (∃ e s', next s = .error e s' ∧ skip s = .error e s') ∨
    ∃ first, next s = .ok () first ∧ skip s = skip first ∧
      ((view.kind first).isScalar = true ∨ ∃ k, view.kind first = .opened k)
  opened : ∀ k, view.kind s = .opened k →
    ((∃ s', skip s = .ok () s') ↔ ∃ v rest, view.Holds s k v rest) ∧
    ∀ v rest s', view.Holds s k v rest → skip s = .ok () s' → view.Lands s s' k rest
  ends : ∃ n ≤ (view.unread s).length, Proceeds next n s (skip s)

end View

theorem Proceeds.length_le {ε σ : Type} {next : EStateM ε σ Unit} {unread : σ → Bytes} {n : Nat}
    {s : σ} {result : EStateM.Result ε σ Unit}
    (takes : ∀ s s', next s = .ok () s' → (unread s').length < (unread s).length)
    (h : Proceeds next n s result) : n ≤ (unread s).length := by
  induction h with
  | stay s => exact Nat.zero_le _
  | fail _ => exact Nat.zero_le _
  | more step _ ih => exact Nat.lt_of_le_of_lt ih (takes _ _ step)

theorem Grammar.Value.tokens_closed {v : Value} {k : Container} (first : v.first = .opened k) :
    ∃ ts, v.tokens = ts ++ [.closed k] := by
  cases v with
  | scalar x => cases x <;> cases first
  | empty _ inside =>
    cases first
    exact ⟨[.opened k], rfl⟩
  | filled _ items =>
    cases first
    exact ⟨.opened k :: items.tokens, rfl⟩

namespace Reader
open Grammar

def view : View Reader where
  kind r := r.token.kind
  origin := origin
  unread := rest
  depth := depth
  isObject r level := r.nesting.reverse[level]? = some .object

variable {r r' : Reader} {k : Container}

theorem Runs.last {floor : Nat} {r e : Reader} {ts : List Token} (h : Runs floor r ts e) :
    (ts = [] ∧ r = e) ∨
      ∃ us p, Runs floor r us p ∧ Reader.next p = .ok () e ∧ ts = us ++ [e.token] := by
  induction h with
  | refl r => exact .inl ⟨rfl, rfl⟩
  | @next r s e ts step above _ ih =>
    rcases ih with ⟨rfl, rfl⟩ | ⟨us, p, runs, last, rfl⟩
    · exact .inr ⟨[], r, .refl r, step, rfl⟩
    · exact .inr ⟨s.token :: us, p, .next step above runs, last, rfl⟩

theorem before_opened {document : Bytes} (moves : Moves (ofBytes document) r)
    (token : r.token = .opened k) :
    ∃ p, p.depth ≤ maxNesting ∧ next p = .ok () r ∧ p.Wants .value r.origin ∧
      r.nesting = k :: p.nesting := by
  obtain ⟨ts, runs⟩ := moves
  rcases runs.last with ⟨-, rfl⟩ | ⟨us, p, before, step, -⟩
  · cases token
  · have placed : p.Placed := (placed_ofBytes document).moves ⟨us, before⟩
    obtain ⟨wanted, wants, htake⟩ := next_sound step
    refine ⟨p, placed.shallow, step, ?_⟩
    cases wanted with
    | close c =>
      rw [(depth_close htake).1] at token
      cases token
    | name =>
      obtain ⟨body, hname, -⟩ := take_name_sound htake
      rw [hname] at token
      cases token
    | value =>
      rcases take_value_sound htake with ⟨x, hx, -⟩ | ⟨c, hc, nesting, -⟩
      · rw [hx] at token
        cases x <;> cases token
      · rw [hc] at token
        cases token
        exact ⟨wants, nesting⟩

theorem seekNext_closing {nesting : List Container} {s t : Bytes}
    (h : seekNext nesting s = (t, .ok (.close k))) : t.head? = some k.closing := by
  match nesting, s with
  | [], [] => simp [seekNext] at h
  | [], _ :: _ => simp [seekNext] at h
  | _ :: _, [] => simp [seekNext] at h
  | d :: _, b :: s =>
    rw [seekNext] at h
    split at h
    · cases d <;> simp [item] at h
    · split at h
      · next hclose =>
        cases h
        rw [List.head?_cons, hclose]
      · cases h

theorem seekFirst_closing {c : Container} {s t : Bytes}
    (h : seekFirst c (item c) s = (t, .ok (.close k))) : t.head? = some k.closing := by
  unfold seekFirst at h
  split at h
  · cases h
  · obtain ⟨rfl, hwanted⟩ := Prod.mk.inj h
    split at hwanted
    · next hclose =>
      cases hwanted
      rw [List.head?_cons, hclose]
    · cases c <;> cases hwanted

theorem wants_closing {s : Bytes} (h : r.Wants (.close k) s) : s.head? = some k.closing := by
  unfold Wants seek at h
  split at h
  · cases h
  · exact seekFirst_closing h
  · exact absurd (congrArg Prod.snd h) (seekMember_ne_close _ k)
  · exact seekNext_closing h

theorem origin_of_closed (step : next r = .ok () r') (token : r'.token = .closed k) :
    r'.origin = k.closing :: r'.rest := by
  obtain ⟨wanted, wants, htake⟩ := next_sound step
  cases wanted with
  | close c =>
    have hc := (depth_close htake).1
    rw [hc] at token
    cases token
    simp only [take, Except.ok.injEq, Prod.mk.injEq] at htake
    obtain ⟨more, hmore⟩ := List.head?_eq_some_iff.1 (wants_closing wants)
    rw [← htake.2.2, hmore]
    rfl
  | name =>
    obtain ⟨body, hname, -⟩ := take_name_sound htake
    rw [hname] at token
    cases token
  | value =>
    rcases take_value_sound htake with ⟨x, hx, -⟩ | ⟨c, hc, -⟩
    · rw [hx] at token
      cases x <;> cases token
    · rw [hc] at token
      cases token

/-- A skip that succeeds from an opening bracket has passed over a container, and only then. -/
theorem skip_opened {document : Bytes} (moves : Moves (ofBytes document) r)
    (token : r.token = .opened k) :
    ((∃ r', skipValue r = .ok () r') ↔ ∃ v rest, view.Holds r k v rest) ∧
    ∀ v rest r', view.Holds r k v rest → skipValue r = .ok () r' → view.Lands r r' k rest := by
  obtain ⟨p, shallow, step, wants, nesting⟩ := before_opened moves token
  have hdepth : r.depth = p.depth + 1 := depth_cons nesting
  have hskip : skipValue r = skipOpened r := by
    unfold skipValue
    rw [token]
    rfl
  -- The container at hand can be skipped, and the way leads over its own tokens.
  have hpasses : ∀ v rest, view.Holds r k v rest →
      ∃ r', Passes v p r' ∧ r'.rest = rest ∧ skipValue r = .ok () r' := by
    intro v rest holds
    have height : p.depth + v.height ≤ maxNesting := by
      have h : r.depth - 1 + v.height ≤ maxNesting := holds.height
      rwa [hdepth, Nat.add_sub_cancel] at h
    have horigin : r.origin = v.text ++ rest := holds.origin
    rw [horigin] at wants
    obtain ⟨r', passes, hrest⟩ := container_value_passes v holds.first wants height
    obtain ⟨first, step', -, -, hopened⟩ := passes.skips
    rw [step] at step'
    cases step'
    exact ⟨r', passes, hrest, hskip.trans hopened⟩
  refine ⟨⟨?_, ?_⟩, ?_⟩
  · rintro ⟨r', hok⟩
    obtain ⟨v, passes, height⟩ := passes_of_skip shallow wants step hok
    obtain ⟨first, step', hfirst, horigin, -⟩ := passes.skips
    rw [step] at step'
    cases step'
    refine ⟨v, r'.rest, hfirst.symm.trans token, horigin, ?_⟩
    change r.depth - 1 + v.height ≤ maxNesting
    rwa [hdepth, Nat.add_sub_cancel]
  · rintro ⟨v, rest, holds⟩
    obtain ⟨r', -, -, hok⟩ := hpasses v rest holds
    exact ⟨r', hok⟩
  · intro v rest r' holds hok
    obtain ⟨r1, passes, hrest, hok'⟩ := hpasses v rest holds
    rw [hok] at hok'
    cases hok'
    obtain ⟨ts, htokens⟩ := v.tokens_closed holds.first
    have runs := passes.runs
    rw [htokens] at runs
    rcases runs.last with ⟨hnil, -⟩ | ⟨us, q, -, last, hlast⟩
    · exact absurd hnil (List.append_ne_nil_of_right_ne_nil ts (List.cons_ne_nil _ _))
    have hclosed : r'.token = .closed k :=
      (List.singleton_inj.1 (List.append_inj_right' hlast rfl)).symm
    have hnesting : r'.nesting = p.nesting := passes.nesting
    refine ⟨congrArg Token.kind hclosed, ?_, hrest, ?_, ?_⟩
    · rw [← hrest]
      exact origin_of_closed last hclosed
    · change r'.depth + 1 = r.depth
      rw [hdepth, depth, hnesting, depth]
    · intro level hlevel
      change level < r'.nesting.length at hlevel
      change decide (r'.nesting.reverse[level]? = _) = decide (r.nesting.reverse[level]? = _)
      rw [nesting, List.reverse_cons, List.getElem?_append_left, hnesting]
      rw [List.length_reverse, ← hnesting]
      exact hlevel

theorem first_of_name {body : Bytes} (token : r.token = .name body) (step : next r = .ok () r') :
    r'.token.kind.isScalar = true ∨ ∃ c, r'.token = .opened c := by
  obtain ⟨-, -, s, -, wants⟩ := name_sound token step
  obtain ⟨wanted, wants', htake⟩ := next_sound step
  rw [Wants, wants] at wants'
  cases wants'
  rcases take_value_sound htake with ⟨x, hx, -⟩ | ⟨c, hc, -⟩
  · rw [hx]
    exact .inl (by cases x <;> rfl)
  · exact .inr ⟨c, hc⟩

theorem leave_proceeds (target : Nat) (r : Reader) : ∃ n, Proceeds next n r (leave target r) := by
  fun_induction leave target r with
  | case1 r e r' step => exact ⟨0, .fail step⟩
  | case2 r r' step _ => exact ⟨1, .more step (.stay r')⟩
  | case3 r r' step _ ih =>
    obtain ⟨n, rest⟩ := ih
    exact ⟨n + 1, .more step rest⟩

theorem skipOpened_proceeds (r : Reader) : ∃ n, Proceeds next n r (skipOpened r) := by
  unfold skipOpened
  split
  · exact leave_proceeds _ r
  · exact ⟨0, .stay r⟩

theorem skipValue_proceeds (r : Reader) : ∃ n, Proceeds next n r (skipValue r) := by
  unfold skipValue
  split
  · split
    · next step => exact ⟨0, .fail step⟩
    · next r' step =>
      obtain ⟨n, rest⟩ := skipOpened_proceeds r'
      exact ⟨n + 1, .more step rest⟩
  · exact skipOpened_proceeds r

theorem skipValue_of_not_name (h : r.token.isName = false) : skipValue r = skipOpened r := by
  unfold skipValue
  rw [h]
  rfl

theorem skipOpened_scalar (h : r.token.kind.isScalar = true) : skipOpened r = .ok () r := by
  unfold skipOpened
  cases htoken : r.token with
  | opened c =>
    rw [htoken] at h
    cases h
  | _ => rfl

theorem isName_value {token : Token} (h : token.kind.isScalar = true ∨ ∃ c, token = .opened c) :
    token.isName = false := by
  rcases h with h | ⟨c, rfl⟩
  · cases token <;> first | rfl | cases h
  · rfl

theorem skips_of_moves {document : Bytes} (moves : Moves (ofBytes document) r) :
    view.Skips next skipValue r where
  scalar h := by
    rw [skipValue_of_not_name (isName_value (.inl h))]
    exact skipOpened_scalar h
  name h := by
    cases htoken : r.token with
    | name body =>
      have hname : r.token.isName = true := by rw [htoken]; rfl
      unfold skipValue
      rw [if_pos hname]
      cases step : next r with
      | error e r' => exact .inl ⟨e, r', rfl, rfl⟩
      | ok _ first =>
        have hfirst := first_of_name htoken step
        refine .inr ⟨first, rfl, ?_, ?_⟩
        · exact (skipValue_of_not_name (isName_value hfirst)).symm
        · exact hfirst.imp_right fun ⟨c, hc⟩ => ⟨c, congrArg Token.kind hc⟩
    | _ =>
      change r.token.kind = .name at h
      rw [htoken] at h
      cases h
  opened k h := by
    refine skip_opened moves ?_
    change r.token.kind = .opened k at h
    cases htoken : r.token <;> rw [htoken] at h <;> cases h
    rfl
  ends := by
    obtain ⟨n, proceeds⟩ := skipValue_proceeds r
    exact ⟨n, proceeds.length_le fun _ _ step => length_next step, proceeds⟩

end Reader

namespace Cursor

def view : View Cursor where
  kind := kind
  origin c := c.document.drop c.start
  unread := unread
  depth := depth
  isObject c level := c.containers.toNat.testBit level

variable {document : Bytes} {c c' : Cursor} {r : Reader}

theorem Packs.isObject (h : Packs c r) {level : Nat} (hlevel : level < c.depth) :
    view.isObject c level = Reader.view.isObject r level := by
  have hlength : level < r.nesting.reverse.length := by
    rw [List.length_reverse]
    rw [h.depth] at hlevel
    exact hlevel
  have hnoted := h.notes level _ (List.getElem?_eq_getElem hlength)
  change c.containers.toNat.testBit level = decide (r.nesting.reverse[level]? = _)
  rw [List.getElem?_eq_getElem hlength, Bool.eq_iff_iff, hnoted]
  simp

theorem Packs.holds (h : Packs c r) (k : Container) (v : Grammar.Value) (rest : Bytes) :
    view.Holds c k v rest ↔ Reader.view.Holds r k v rest := by
  have horigin : view.origin c = Reader.view.origin r := h.origin
  have hdepth : view.depth c = Reader.view.depth r := h.depth
  constructor
  · rintro ⟨first, origin, height⟩
    exact ⟨first, horigin ▸ origin, hdepth ▸ height⟩
  · rintro ⟨first, origin, height⟩
    exact ⟨first, horigin ▸ origin, hdepth ▸ height⟩

theorem Packs.lands {r' : Reader} {k : Container} {rest : Bytes} (h : Packs c r) (h' : Packs c' r')
    (lands : Reader.view.Lands r r' k rest) : view.Lands c c' k rest := by
  have hdepth : c'.depth + 1 = c.depth := by
    rw [h'.depth, h.depth]
    exact lands.depth
  refine ⟨h'.kind.trans lands.kind, h'.origin.trans lands.origin, h'.unread.trans lands.unread,
    hdepth, fun level hlevel => ?_⟩
  have hbelow : level < c'.depth := hlevel
  rw [h'.isObject hbelow, h.isObject (by omega)]
  refine lands.isObject level ?_
  rw [h'.depth] at hbelow
  exact hbelow

theorem leave_proceeds (target : Nat) (c : Cursor) : ∃ n, Proceeds next n c (leave target c) := by
  fun_induction leave target c with
  | case1 c e c' step => exact ⟨0, .fail step⟩
  | case2 c c' step _ => exact ⟨1, .more step (.stay c')⟩
  | case3 c c' step _ ih =>
    obtain ⟨n, rest⟩ := ih
    exact ⟨n + 1, .more step rest⟩

theorem skipOpened_proceeds (h : Tracks document c r) : ∃ n, Proceeds next n c (skipOpened c) := by
  unfold skipOpened
  split
  · next k hkind =>
    have hdepth := h.sound.nested (.inr ⟨k, hkind⟩)
    split
    · next hzero => omega
    · exact leave_proceeds _ c
  · exact ⟨0, .stay c⟩

theorem skipValue_proceeds (h : Tracks document c r) : ∃ n, Proceeds next n c (skipValue c) := by
  unfold skipValue
  split
  · have hnext := next_together h
    split
    · next step => exact ⟨0, .fail step⟩
    · next c' step =>
      rw [step] at hnext
      generalize Reader.next r = y at hnext
      cases hnext with
      | ok _ tracks =>
        obtain ⟨n, rest⟩ := skipOpened_proceeds tracks
        exact ⟨n + 1, .more step rest⟩
  · exact skipOpened_proceeds h

theorem length_unread (step : next c = .ok () c') : c'.unread.length < c.unread.length := by
  have advances := advances_next step
  have := advances.inside
  have := advances.position
  rw [unread, unread, List.length_drop, List.length_drop, advances.document]
  omega

theorem isName_value {kind : Kind} (h : kind.isScalar = true ∨ ∃ k, kind = .opened k) :
    kind ≠ .name := by
  rintro rfl
  rcases h with h | ⟨k, h⟩ <;> cases h

theorem skipValue_of_ne_name (h : c.kind ≠ .name) : skipValue c = skipOpened c := if_neg h

theorem skipOpened_scalar (h : c.kind.isScalar = true) : skipOpened c = .ok () c := by
  unfold skipOpened
  cases hkind : c.kind with
  | opened k =>
    rw [hkind] at h
    cases h
  | _ => rfl

theorem Tracks.skips (h : Tracks document c r)
    (skips : Reader.view.Skips Reader.next Reader.skipValue r) : view.Skips next skipValue c where
  scalar hscalar := by
    rw [skipValue_of_ne_name (isName_value (.inl hscalar))]
    exact skipOpened_scalar hscalar
  name hname := by
    have hkind : c.kind = .name := hname
    unfold skipValue
    rw [if_pos hkind]
    have hnext := next_together h
    cases step : next c with
    | error e c' => exact .inl ⟨e, c', rfl, rfl⟩
    | ok _ first =>
      rw [step] at hnext
      rcases skips.name (h.packs.kind.symm.trans hkind) with ⟨e, r', hreader, -⟩ |
        ⟨first', hreader, -, hfirst'⟩
      · rw [hreader] at hnext
        cases hnext
      · rw [hreader] at hnext
        cases hnext with
        | ok _ tracks =>
          have hfirst : first.kind.isScalar = true ∨ ∃ k, first.kind = .opened k := by
            rw [tracks.packs.kind]
            exact hfirst'
          exact .inr ⟨first, rfl, (skipValue_of_ne_name (isName_value hfirst)).symm, hfirst⟩
  opened k hopened := by
    obtain ⟨hiff, hlands⟩ := skips.opened k (h.packs.kind.symm.trans hopened)
    have hboth := skipValue_together h
    refine ⟨?_, fun v rest c' holds hok => ?_⟩
    · rw [exists_congr fun v => exists_congr fun rest => h.packs.holds k v rest, ← hiff]
      constructor
      · rintro ⟨c', hok⟩
        rw [hok] at hboth
        generalize Reader.skipValue r = y at hboth
        cases hboth with
        | ok _ tracks => exact ⟨_, rfl⟩
      · rintro ⟨r', hok⟩
        rw [hok] at hboth
        generalize skipValue c = x at hboth
        cases hboth with
        | ok _ tracks => exact ⟨_, rfl⟩
    · rw [hok] at hboth
      generalize hreader : Reader.skipValue r = y at hboth
      cases hboth with
      | ok _ tracks =>
        have holds' := (h.packs.holds k v rest).1 holds
        exact h.packs.lands tracks.packs (hlands v rest _ holds' hreader)
  ends := by
    obtain ⟨n, proceeds⟩ := skipValue_proceeds h
    exact ⟨n, proceeds.length_le fun _ _ step => length_unread step, proceeds⟩

end Cursor

namespace Tour

open Grammar

theorem moves_of_steps {document : Bytes} (n : Nat) {t : Tour Reader}
    (moved : Reader.Moves (.ofBytes document) t.current)
    (h : (run Reader.answer (List.replicate n (.call .next)) t).1 = List.replicate n (.ok ())) :
    Reader.Moves (.ofBytes document)
      (run Reader.answer (List.replicate n (.call .next)) t).2.current := by
  induction n generalizing t with
  | zero => exact moved
  | succ n ih =>
    rw [List.replicate_succ, run] at h ⊢
    unfold move at h ⊢
    dsimp only at h ⊢
    cases step : Reader.answer .next t.current with
    | error e r' =>
      rw [step] at h
      cases h
    | ok _ r' =>
      rw [step] at h
      refine ih (moved.trans (.one step)) (List.cons.inj h).2

/-- Wherever successful steps lead in a document, reader and cursor skip the value at hand as its
text says. -/
theorem values_skipped (document : Bytes) (n : Nat)
    (h : (run Reader.answer (List.replicate n (.call .next)) ⟨.ofBytes document, []⟩).1 =
      List.replicate n (.ok ())) :
    let s := run Cursor.answer (List.replicate n (.call .next)) ⟨.ofBytes document, []⟩
    let t := run Reader.answer (List.replicate n (.call .next)) ⟨.ofBytes document, []⟩
    s.1 = List.replicate n (.ok ()) ∧
      Reader.view.Skips Reader.next Reader.skipValue t.2.current ∧
      Cursor.view.Skips Cursor.next Cursor.skipValue s.2.current := by
  intro s t
  obtain ⟨hanswers, habreast, -⟩ :=
    run_abreast (abreast_start document) (List.replicate n (.call .next))
  have hskips := Reader.skips_of_moves (moves_of_steps n (.refl _) h)
  refine ⟨?_, hskips, habreast.current.skips hskips⟩
  rw [hanswers, h, List.map_replicate]
  rfl

def nested : Bytes := utf8 "\x7b\"a\":[\x7b\x7d],\"b\":1\x7d"

/-- From the outer bracket the skip leads to its end and not to that of the inner one. -/
theorem nested_skipped :
    let r := (run Reader.answer (List.replicate 3 (.call .next)) ⟨.ofBytes nested, []⟩).2.current
    ∃ r', Reader.skipValue r = .ok () r' ∧
      Reader.view.Lands r r' .array (utf8 ",\"b\":1\x7d") := by
  intro r
  let v : Value := .filled .array (.last (.mk .none .absent (.empty .object .none) .none))
  obtain ⟨-, hskips, -⟩ := values_skipped nested 3 (by decide +kernel)
  obtain ⟨hiff, hlands⟩ := hskips.opened .array (by decide +kernel)
  have holds : Reader.view.Holds r .array v (utf8 ",\"b\":1\x7d") :=
    ⟨rfl, by decide +kernel, by decide +kernel⟩
  obtain ⟨r', hok⟩ := hiff.2 ⟨v, _, holds⟩
  exact ⟨r', hok, hlands v _ r' holds hok⟩

end Tour

end HubDevice
