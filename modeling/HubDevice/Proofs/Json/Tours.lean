import Mathlib.Data.List.Forall2
import HubDevice.Proofs.Json.Lockstep

set_option autoImplicit false

/-!
# Tours through a document

A tour moves through a document with any calls in any order, also after calls that failed, saves
where it is and goes back to what was saved. Cursor and reader make the same tour. On it the cursor
never loses hold of the containers that are open.
-/
namespace HubDevice

def Kind.bracket (containers : List Container) : Kind → List Container
  | opened k => containers ++ [k]
  | closed _ => containers.dropLast
  | _ => containers

/-- The containers that these tokens leave open, the outermost first. -/
def stillOpen (kinds : List Kind) : List Container := kinds.foldl Kind.bracket []

structure Tour (σ : Type) where
  current : σ
  saved : List σ := []

namespace Tour

inductive Call where
  | next
  | skip
  | finish
  deriving DecidableEq, Repr

inductive Move where
  | call (call : Call)
  | save
  /-- Back to what was saved as the `n`th, if there is one. -/
  | back (n : Nat)
  deriving DecidableEq, Repr

variable {ε σ : Type}

def move (answer : Call → EStateM ε σ Unit) (tour : Tour σ) :
    Move → List (Except ε Unit) × Tour σ
  | .call call =>
    match answer call tour.current with
    | .ok () current => ([.ok ()], { tour with current })
    | .error e current => ([.error e], { tour with current })
  | .save => ([], { tour with saved := tour.saved ++ [tour.current] })
  | .back n => ([], { tour with current := tour.saved[n]?.getD tour.current })

def run (answer : Call → EStateM ε σ Unit) : List Move → Tour σ → List (Except ε Unit) × Tour σ
  | [], tour => ([], tour)
  | m :: moves, tour =>
    ((move answer tour m).1 ++ (run answer moves (move answer tour m).2).1,
      (run answer moves (move answer tour m).2).2)

end Tour

namespace Reader

def answer : Tour.Call → EStateM JsonError Reader Unit
  | .next => next
  | .skip => skipValue
  | .finish => finish

theorem next_error {r r' : Reader} {e : JsonError} (h : next r = .error e r') :
    r'.token = r.token ∧ r'.nesting = r.nesting := by
  unfold next at h
  split at h
  · cases h
    exact ⟨rfl, rfl⟩
  · split at h
    · cases h
      exact ⟨rfl, rfl⟩
    · cases h

theorem take_bracket {nesting nesting' : List Container} {wanted : Wanted} {s rest : Bytes}
    {token : Token} (h : take nesting wanted s = .ok (token, nesting', rest)) :
    nesting'.reverse = token.kind.bracket nesting.reverse := by
  cases wanted with
  | close k =>
    cases h
    rw [← List.dropLast_reverse]
    rfl
  | name =>
    obtain ⟨body, rfl, rfl, -⟩ := take_name_sound h
    rfl
  | value =>
    rcases take_value_sound h with ⟨x, rfl, rfl, -⟩ | ⟨k, rfl, rfl, -, -⟩
    · cases x <;> rfl
    · exact List.reverse_cons

theorem object_of_name {r : Reader} {s : Bytes} (poised : r.Poised) (h : r.Wants .name s) :
    r.nesting.head? = some .object := by
  have hitem : ∀ k, item k = .name → k = .object := by
    intro k hk
    cases k with
    | object => rfl
    | array => cases hk
  have hnext : ∀ t, (seekNext r.nesting t).2 = .ok .name → r.nesting.head? = some .object := by
    intro t ht
    match hnesting : r.nesting, t with
    | [], [] => simp [seekNext, hnesting] at ht
    | [], _ :: _ => simp [seekNext, hnesting] at ht
    | _ :: _, [] => simp [seekNext, hnesting] at ht
    | k :: _, b :: t =>
      rw [hnesting, seekNext] at ht
      split at ht
      · rw [List.head?_cons, hitem k (Except.ok.inj ht)]
      · split at ht <;> cases ht
  have hwants : r.seek.2 = .ok .name := congrArg Prod.snd h
  unfold seek at hwants
  split at hwants
  · cases hwants
  · next k htoken =>
    rw [poised.opened k htoken]
    unfold seekFirst at hwants
    split at hwants
    · cases hwants
    · split at hwants
      · cases hwants
      · rw [hitem k (Except.ok.inj hwants)]
  · unfold seekMember at hwants
    split at hwants
    · cases hwants
    · split at hwants <;> cases hwants
  · exact hnext _ hwants

theorem Poised.next {r r' : Reader} {u : Unit} (poised : r.Poised) (h : Reader.next r = .ok u r') :
    r'.Poised := by
  obtain ⟨wanted, hwants, htake⟩ := next_sound h
  cases wanted with
  | close k =>
    simp only [take, Except.ok.injEq, Prod.mk.injEq] at htake
    constructor <;> simp [← htake.1]
  | name =>
    obtain ⟨body, htoken, hnesting, -⟩ := take_name_sound htake
    constructor
    · simp [htoken]
    · intro _ _
      rw [hnesting]
      exact object_of_name poised hwants
  | value =>
    rcases take_value_sound htake with ⟨x, htoken, -, -⟩ | ⟨k, htoken, hnesting, -, -⟩
    · constructor
      · intro k
        rw [htoken]
        cases x <;> simp [Grammar.Scalar.token]
      · intro body
        rw [htoken]
        cases x <;> simp [Grammar.Scalar.token]
    · constructor
      · intro k' hk'
        rw [htoken] at hk'
        cases hk'
        rw [hnesting, List.head?_cons]
      · simp [htoken]

theorem Poised.refused {r r' : Reader} {e : JsonError} (poised : r.Poised)
    (h : Reader.next r = .error e r') : r'.Poised := by
  obtain ⟨htoken, hnesting⟩ := next_error h
  constructor
  · rw [htoken, hnesting]
    exact poised.opened
  · rw [htoken, hnesting]
    exact poised.named

end Reader

namespace Cursor

def answer : Tour.Call → EStateM Stop Cursor Unit
  | .next => next
  | .skip => skipValue
  | .finish => finish

/-- The cursor can be reached in the document past tokens of these kinds. Calls that fail move on,
but past no token. -/
inductive Reaches (document : Bytes) : List Kind → Cursor → Prop
  | start : Reaches document [] (ofBytes document)
  | next {kinds : List Kind} {c c' : Cursor} (h : Reaches document kinds c)
    (step : Cursor.next c = .ok () c') : Reaches document (kinds ++ [c'.kind]) c'
  | refused {kinds : List Kind} {c c' : Cursor} {e : Stop} (h : Reaches document kinds c)
    (step : Cursor.next c = .error e c') : Reaches document kinds c'
  | finished {kinds : List Kind} {c c' : Cursor} (h : Reaches document kinds c)
    (done : finish c = .ok () c' ∨ ∃ e, finish c = .error e c') : Reaches document kinds c'

structure Sound (document : Bytes) (c : Cursor) : Prop where
  same : c.document = document
  bounded : c.position ≤ document.length
  shallow : c.depth ≤ maxNesting
  nested : (c.kind = .name ∨ ∃ k, c.kind = .opened k) → 1 ≤ c.depth
  reached : ∃ kinds, Reaches document kinds c
  /-- Below the depth each bit is that of the bracket which opened its level and is still open. -/
  noted : ∀ kinds, Reaches document kinds c →
    (stillOpen kinds).length = c.depth ∧ Notes c.containers (stillOpen kinds)

theorem packs_ofBytes (document : Bytes) : Packs (ofBytes document) (.ofBytes document) where
  bounded := Nat.zero_le _
  unread := rfl
  kind := rfl
  slice := rfl
  escaped := rfl
  origin := rfl
  depth := rfl
  notes := notes_nil 0
  shallow := Nat.zero_le _

/-- All that `finish` may change is the place, past blanks. -/
theorem finish_moves {c c' : Cursor} (h : finish c = .ok () c' ∨ ∃ e, finish c = .error e c') :
    c' = c ∨ c' = c.skipSpace := by
  unfold finish refuse at h
  split at h
  · rcases h with h | ⟨e, h⟩
    · cases h
    · cases h
      exact .inl rfl
  · split at h
    · rcases h with h | ⟨e, h⟩
      · cases h
        exact .inr rfl
      · cases h
    · rcases h with h | ⟨e, h⟩
      · cases h
      · cases h
        exact .inr rfl

/-- By whatever way a cursor is reached, it stands for a reader whose containers are those that the
tokens on this way have left open. -/
theorem Reaches.packs {document : Bytes} {kinds : List Kind} {c : Cursor}
    (h : Reaches document kinds c) :
    ∃ r : Reader, Packs c r ∧ r.Poised ∧ r.nesting.reverse = stillOpen kinds := by
  -- A call that fails leaves the containers alone, so only tokens that were read count.
  induction h with
  | start => exact ⟨.ofBytes document, packs_ofBytes document, ⟨nofun, nofun⟩, rfl⟩
  | next _ step ih =>
    obtain ⟨r, packs, poised, hopen⟩ := ih
    have hagrees := next_agrees packs poised
    generalize hreader : Reader.next r = y at hagrees
    rw [step] at hagrees
    cases hagrees with
    | @ok _ r' _ _ packs' =>
      obtain ⟨wanted, -, htake⟩ := Reader.next_sound hreader
      refine ⟨r', packs', poised.next hreader, ?_⟩
      rw [stillOpen, List.foldl_concat, packs'.kind, Reader.take_bracket htake, hopen]
      rfl
  | refused _ step ih =>
    obtain ⟨r, packs, poised, hopen⟩ := ih
    have hagrees := next_agrees packs poised
    generalize hreader : Reader.next r = y at hagrees
    rw [step] at hagrees
    cases hagrees with
    | @refused _ _ r' _ packs' =>
      exact ⟨r', packs', poised.refused hreader, (Reader.next_error hreader).2 ▸ hopen⟩
  | finished _ done ih =>
    obtain ⟨r, packs, poised, hopen⟩ := ih
    rcases finish_moves done with rfl | rfl
    · exact ⟨r, packs, poised, hopen⟩
    · exact ⟨_, packs.skipSpace, ⟨poised.opened, poised.named⟩, hopen⟩

structure Tracks (document : Bytes) (c : Cursor) (r : Reader) : Prop where
  same : c.document = document
  packs : Packs c r
  poised : r.Poised
  reached : ∃ kinds, Reaches document kinds c

theorem Tracks.sound {document : Bytes} {c : Cursor} {r : Reader} (h : Tracks document c r) :
    Sound document c where
  same := h.same
  bounded := h.same ▸ h.packs.bounded
  shallow := by
    rw [h.packs.depth]
    exact h.packs.shallow
  nested := by
    have hpositive : ∀ k, r.nesting.head? = some k → 1 ≤ c.depth := by
      intro k hk
      obtain ⟨nesting, hnesting⟩ := List.head?_eq_some_iff.1 hk
      rw [h.packs.depth, hnesting]
      exact Nat.succ_pos _
    rw [h.packs.kind]
    cases htoken : r.token with
    | name body => exact fun _ => hpositive _ (h.poised.named body htoken)
    | opened k => exact fun _ => hpositive _ (h.poised.opened k htoken)
    | _ => rintro (hname | ⟨_, hopened⟩) <;> contradiction
  reached := h.reached
  noted kinds hreaches := by
    obtain ⟨r', packs, -, hopen⟩ := hreaches.packs
    refine ⟨?_, ?_⟩
    · rw [← hopen, List.length_reverse, packs.depth]
    · rw [← hopen]
      exact packs.notes

/-- Calls of a cursor and of a reader give the same, the cursor does not go back, and the two stay
in step. -/
inductive Together (document : Bytes) (c : Cursor) :
    EStateM.Result Stop Cursor Unit → EStateM.Result JsonError Reader Unit → Prop
  | ok {c' : Cursor} {r' : Reader} (behind : c.position ≤ c'.position)
    (tracks : Tracks document c' r') : Together document c (.ok () c') (.ok () r')
  | refused {e : JsonError} {c' : Cursor} {r' : Reader} (behind : c.position ≤ c'.position)
    (tracks : Tracks document c' r') : Together document c (.error (.refused e) c') (.error e r')

variable {document : Bytes} {c d : Cursor} {r : Reader}

theorem Together.of_le {x : EStateM.Result Stop Cursor Unit}
    {y : EStateM.Result JsonError Reader Unit} (h : Together document d x y)
    (behind : c.position ≤ d.position) : Together document c x y := by
  cases h with
  | ok behind' tracks => exact .ok (Nat.le_trans behind behind') tracks
  | refused behind' tracks => exact .refused (Nat.le_trans behind behind') tracks

theorem next_together (h : Tracks document c r) :
    Together document c (next c) (Reader.next r) := by
  obtain ⟨kinds, hreaches⟩ := h.reached
  have hagrees := next_agrees h.packs h.poised
  generalize hnext : next c = x at hagrees
  generalize hreader : Reader.next r = y at hagrees
  cases hagrees with
  | ok document behind packs =>
    exact .ok behind ⟨document.trans h.same, packs, h.poised.next hreader, _, hreaches.next hnext⟩
  | refused behind packs =>
    exact .refused behind ⟨h.same, packs, h.poised.refused hreader, _, hreaches.refused hnext⟩

theorem leave_eq (target : Nat) (c : Cursor) :
    leave target c =
      match next c with
      | .error e c' => .error e c'
      | .ok () c' =>
        if c'.kind.isClosed && c'.depth = target then .ok () c' else leave target c' := by
  rw [leave]
  split
  · next h => rw [h]
  · next h => rw [h]

theorem isClosed_kind (token : Token) : token.kind.isClosed = token.isClosed := by
  cases token <;> rfl

theorem leave_together {target : Nat} (h : Tracks document c r) :
    Together document c (leave target c) (Reader.leave target r) := by
  -- The loops of both stop at the same token, so the cases are those of the reader's loop.
  fun_induction Reader.leave target r generalizing c with
  | case1 r e r' hreader =>
    have hnext := next_together h
    rw [hreader] at hnext
    rw [leave_eq]
    generalize next c = x at hnext
    cases hnext with
    | refused behind tracks => exact .refused behind tracks
  | case2 r r' hreader hend =>
    have hnext := next_together h
    rw [hreader] at hnext
    rw [leave_eq]
    generalize next c = x at hnext
    cases hnext with
    | @ok c' _ behind tracks =>
      have hend' : (c'.kind.isClosed && decide (c'.depth = target)) = true := by
        rw [tracks.packs.kind, isClosed_kind, tracks.packs.depth]
        exact hend
      dsimp only
      rw [if_pos hend']
      exact .ok behind tracks
  | case3 r r' hreader hend ih =>
    have hnext := next_together h
    rw [hreader] at hnext
    rw [leave_eq]
    generalize next c = x at hnext
    cases hnext with
    | @ok c' _ behind tracks =>
      have hend' : ¬ (c'.kind.isClosed && decide (c'.depth = target)) = true := by
        rw [tracks.packs.kind, isClosed_kind, tracks.packs.depth]
        exact hend
      dsimp only
      rw [if_neg hend']
      exact (ih tracks).of_le behind

theorem skipOpened_together (h : Tracks document c r) :
    Together document c (skipOpened c) (Reader.skipOpened r) := by
  have hstay : Together document c (.ok () c) (.ok () r) := .ok (Nat.le_refl _) h
  unfold skipOpened Reader.skipOpened
  rw [h.packs.kind]
  cases htoken : r.token with
  | opened k =>
    -- A container that was just opened is still open, so one can be taken off the depth.
    obtain ⟨nesting, hnesting⟩ := List.head?_eq_some_iff.1 (h.poised.opened k htoken)
    have hdepth : r.depth = nesting.length + 1 := by rw [Reader.depth, hnesting, List.length_cons]
    have hdepth' : c.depth = nesting.length + 1 := h.packs.depth.trans hdepth
    rw [hdepth, Nat.add_sub_cancel]
    dsimp only [Token.kind]
    rw [hdepth']
    exact leave_together h
  | _ => exact hstay

theorem skipValue_together (h : Tracks document c r) :
    Together document c (skipValue c) (Reader.skipValue r) := by
  have hname : c.kind = .name ↔ r.token.isName = true := by
    rw [h.packs.kind]
    cases r.token <;> simp [Token.kind, Token.isName]
  unfold skipValue Reader.skipValue
  by_cases hkind : c.kind = .name
  · rw [if_pos hkind, if_pos (hname.1 hkind)]
    have hnext := next_together h
    generalize next c = x at hnext
    generalize Reader.next r = y at hnext
    cases hnext with
    | ok behind tracks => exact (skipOpened_together tracks).of_le behind
    | refused behind tracks => exact .refused behind tracks
  · rw [if_neg hkind, if_neg (mt hname.2 hkind)]
    exact skipOpened_together h

theorem finish_together (h : Tracks document c r) :
    Together document c (finish c) (Reader.finish r) := by
  obtain ⟨kinds, hreaches⟩ := h.reached
  have hspace := h.packs.skipSpace
  have hblank : c.position ≤ c.skipSpace.position := Nat.le_add_right _ _
  have htracks : (finish c = .ok () c.skipSpace ∨ ∃ e, finish c = .error e c.skipSpace) →
      Tracks document c.skipSpace { r with rest := Reader.skipSpace r.rest } := fun done =>
    ⟨h.same, hspace, ⟨h.poised.opened, h.poised.named⟩, kinds, hreaches.finished done⟩
  have hstart : c.kind = .start ↔ r.token = .start := by
    rw [h.packs.kind]
    cases r.token <;> simp [Token.kind]
  have hroot : (decide (c.depth ≠ 0) || decide (c.kind = .start)) =
      (decide (r.depth ≠ 0) || decide (r.token = .start)) := by
    rw [h.packs.depth, decide_eq_decide.2 hstart]
    rfl
  have hend : c.skipSpace.position = c.document.length ↔
      (Reader.skipSpace r.rest).isEmpty = true := by
    have hlength : c.skipSpace.position + (Reader.skipSpace r.rest).length = c.document.length :=
      hspace.length_rest
    rw [List.isEmpty_iff, ← List.length_eq_zero_iff]
    omega
  by_cases hopen : (decide (r.depth ≠ 0) || decide (r.token = .start)) = true
  · have hcursor : finish c = .error (.refused .unexpectedEnd) c := if_pos (hroot.trans hopen)
    have hreader : Reader.finish r = .error .unexpectedEnd r := if_pos hopen
    rw [hcursor, hreader]
    exact .refused (Nat.le_refl _) h
  have hopen' : ¬ (decide (c.depth ≠ 0) || decide (c.kind = .start)) = true := by rwa [hroot]
  by_cases hall : c.skipSpace.position = c.document.length
  · have hcursor : finish c = .ok () c.skipSpace := (if_neg hopen').trans (if_pos hall)
    have hreader : Reader.finish r = .ok () { r with rest := Reader.skipSpace r.rest } :=
      (if_neg hopen).trans (if_pos (hend.1 hall))
    rw [hcursor, hreader]
    exact .ok hblank (htracks (.inl hcursor))
  · have hcursor : finish c = .error (.refused .trailingCharacters) c.skipSpace :=
      (if_neg hopen').trans (if_neg hall)
    have hreader : Reader.finish r =
        .error .trailingCharacters { r with rest := Reader.skipSpace r.rest } :=
      (if_neg hopen).trans (if_neg (mt hend.2 hall))
    rw [hcursor, hreader]
    exact .refused hblank (htracks (.inr ⟨_, hcursor⟩))

theorem answer_together (h : Tracks document c r) (call : Tour.Call) :
    Together document c (answer call c) (Reader.answer call r) := by
  cases call with
  | next => exact next_together h
  | skip => exact skipValue_together h
  | finish => exact finish_together h

end Cursor

namespace Tour

open Cursor (Tracks)

structure Abreast (document : Bytes) (s : Tour Cursor) (t : Tour Reader) : Prop where
  current : Tracks document s.current t.current
  saved : List.Forall₂ (Tracks document) s.saved t.saved

def refusal : Except JsonError Unit → Except Stop Unit := Except.mapError .refused

variable {document : Bytes} {s : Tour Cursor} {t : Tour Reader}

theorem getD_related {α β : Type} {R : α → β → Prop} {l : List α} {l' : List β} {a : α} {b : β}
    (h : List.Forall₂ R l l') (hab : R a b) (n : Nat) : R (l[n]?.getD a) (l'[n]?.getD b) := by
  induction h generalizing n with
  | nil => exact hab
  | cons hhead _ ih =>
    cases n with
    | zero => exact hhead
    | succ n => exact ih n

theorem sound_of_tracks {cursors : List Cursor} {readers : List Reader}
    (h : List.Forall₂ (Tracks document) cursors readers) : ∀ c ∈ cursors, c.Sound document := by
  induction h with
  | nil => nofun
  | cons htracks _ ih => exact List.forall_mem_cons.2 ⟨htracks.sound, ih⟩

theorem move_abreast (h : Abreast document s t) (m : Move) :
    (move Cursor.answer s m).1 = (move Reader.answer t m).1.map refusal ∧
      Abreast document (move Cursor.answer s m).2 (move Reader.answer t m).2 ∧
      ((∀ n, m ≠ .back n) →
        s.current.position ≤ (move Cursor.answer s m).2.current.position) := by
  cases m with
  | save =>
    refine ⟨rfl, ⟨h.current, ?_⟩, fun _ => Nat.le_refl _⟩
    exact List.rel_append h.saved (.cons h.current .nil)
  | back n =>
    exact ⟨rfl, ⟨getD_related h.saved h.current n, h.saved⟩, fun hback => absurd rfl (hback n)⟩
  | call call =>
    have hboth := Cursor.answer_together h.current call
    unfold move
    dsimp only
    generalize Cursor.answer call s.current = x at hboth
    generalize Reader.answer call t.current = y at hboth
    cases hboth with
    | ok behind tracks => exact ⟨rfl, ⟨tracks, h.saved⟩, fun _ => behind⟩
    | refused behind tracks => exact ⟨rfl, ⟨tracks, h.saved⟩, fun _ => behind⟩

theorem run_abreast (h : Abreast document s t) (moves : List Move) :
    (run Cursor.answer moves s).1 = (run Reader.answer moves t).1.map refusal ∧
      Abreast document (run Cursor.answer moves s).2 (run Reader.answer moves t).2 ∧
      ((∀ n, .back n ∉ moves) →
        s.current.position ≤ (run Cursor.answer moves s).2.current.position) := by
  induction moves generalizing s t with
  | nil => exact ⟨rfl, h, fun _ => Nat.le_refl _⟩
  | cons m moves ih =>
    obtain ⟨hanswer, hmoved, hbehind⟩ := move_abreast h m
    obtain ⟨hanswers, hrun, hbehinds⟩ := ih hmoved
    refine ⟨?_, hrun, fun hback => ?_⟩
    · rw [run, run, List.map_append, hanswer, hanswers]
    · refine Nat.le_trans (hbehind fun n hn => hback n (hn ▸ List.mem_cons_self)) (hbehinds ?_)
      exact fun n hn => hback n (List.mem_cons_of_mem _ hn)

theorem abreast_start (document : Bytes) :
    Abreast document ⟨.ofBytes document, []⟩ ⟨.ofBytes document, []⟩ :=
  ⟨⟨rfl, Cursor.packs_ofBytes document, ⟨nofun, nofun⟩, [], .start⟩, .nil⟩

/-- Whatever calls are made on a document and however often one goes back, a cursor answers as a
reader does, hence with no fault, and stays in step with it. Its place and its depth are within
bounds, and its word notes the containers that the tokens read on the way have left open. Without
going back its place does not go back either, and a failing `next` changes nothing but the place. -/
theorem cursor_tours_sound (document : Bytes) (moves : List Move) :
    let s := run Cursor.answer moves ⟨.ofBytes document, []⟩
    let t := run Reader.answer moves ⟨.ofBytes document, []⟩
    s.1 = t.1.map refusal ∧ (∀ fault, .error (.fault fault) ∉ s.1) ∧
      Cursor.Packs s.2.current t.2.current ∧
      (∀ c ∈ s.2.current :: s.2.saved, Cursor.Sound document c) ∧
      (∀ more, (∀ n, .back n ∉ more) →
        s.2.current.position ≤ (run Cursor.answer more s.2).2.current.position) ∧
      ∀ e c', Cursor.next s.2.current = .error e c' → (∃ cause, e = .refused cause) ∧
        c' = { s.2.current with position := c'.position } := by
  intro s t
  obtain ⟨hanswers, habreast, -⟩ := run_abreast (abreast_start document) moves
  refine ⟨hanswers, ?_, habreast.current.packs, ?_, fun more => (run_abreast habreast more).2.2, ?_⟩
  · intro fault hfault
    rw [hanswers] at hfault
    obtain ⟨result, -, hresult⟩ := List.mem_map.1 hfault
    cases result <;> cases hresult
  · intro c hc
    rcases List.mem_cons.1 hc with rfl | hc
    · exact habreast.current.sound
    · exact sound_of_tracks habreast.saved c hc
  · intro e c' hnext
    have hagrees := Cursor.next_agrees habreast.current.packs habreast.current.poised
    rw [hnext] at hagrees
    generalize Reader.next _ = y at hagrees
    cases hagrees with
    | refused _ _ => exact ⟨⟨_, rfl⟩, rfl⟩

end Tour

end HubDevice
