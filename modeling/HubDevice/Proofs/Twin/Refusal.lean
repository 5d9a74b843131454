import HubDevice.Proofs.Twin.Calls
import HubDevice.Proofs.Twin.Opening

set_option autoImplicit false

/-!
# Refused payloads

A walk that has ended has read the whole payload, also the members behind the section. So a payload
that is not a document is refused with a cause of the reader.
-/
namespace HubDevice.Twin.Walk
open Reader (Moves)

theorem close_eq_ok {json : Bytes} {payload : Payload} {r r' : Reader} (hr : Entered json r)
    (h : close payload r = .ok r') : WellFormed json := by
  cases payload with
  | patch => exact wellFormed_of_finish hr h
  | document =>
    cases hseek : seekMember (fun _ => false) r with
    | error e =>
      simp only [close, hseek] at h
      cases h
    | ok sought =>
      simp only [close, hseek] at h
      exact wellFormed_of_finish (hr.moves (moves_seekMember hseek)) h

theorem close_eq_error {payload : Payload} {r : Reader} {e : Error}
    (h : close payload r = .error e) : OfJson e := by
  cases payload with
  | patch => exact read_eq_error h
  | document =>
    cases hseek : seekMember (fun _ => false) r with
    | error e' =>
      simp only [close, hseek] at h
      cases h
      exact seekMember_eq_error hseek
    | ok sought =>
      simp only [close, hseek] at h
      exact read_eq_error h

def Leaves (json : Bytes) : Except Error (Found × Option String × Reader) → Prop
  | .ok (.property _, _, r) => Entered json r
  | .ok (.finished, _, _) => WellFormed json
  | .error e => OfJson e

theorem advance_leaves {json : Bytes} (payload : Payload) (components : List String)
    (component : Option String) {r : Reader} (hr : Entered json r) :
    Leaves json (advance payload components component r) := by
  fun_induction advance payload components component r with
  | case1 _ r e step => exact read_eq_error step
  | case2 r s step _ c ih => exact ih (hr.moves (moves_read_next step))
  | case3 r s step _ =>
    have hs := hr.moves (moves_read_next step)
    cases hclose : close payload s with
    | error e => exact close_eq_error hclose
    | ok r' => exact close_eq_ok hs hclose
  | case4 => exact ⟨_, rfl⟩
  | case5 _ r s step _ _ _ e skip => exact read_eq_error skip
  | case6 _ r s step _ _ _ s' skip ih =>
    exact ih (hr.moves ((moves_read_next step).trans (moves_read_skipValue skip)))
  | case7 _ r s step _ _ _ e value => exact read_eq_error value
  | case8 _ r s step _ _ _ v value _ c _ ih =>
    exact ih (hr.moves ((moves_read_next step).trans (moves_read_next value)))
  | case9 _ r s step _ _ _ v value _ _ e skip => exact read_eq_error skip
  | case10 _ r s step _ _ _ v value _ _ r' skip _ =>
    have moves := (moves_read_next step).trans (moves_read_next value)
    exact hr.moves (moves.trans (moves_read_skipValue skip))

/-- A walk is inside the document, has read it to its end, or has failed at it. -/
def Tracks (json : Bytes) (w : Walk) : Prop :=
  match w.progress with
  | .walking => Entered json w.reader
  | .done => WellFormed json
  | .failed e => OfJson e

theorem tracks_openAt {json : Bytes} {payload : Payload} {part : Part}
    {components : List String} {w : Walk} (h : openAt json payload part components = .ok w) :
    w.Tracks json := by
  unfold openAt at h
  obtain ⟨opened, hpart, h⟩ := bind_eq_ok h
  cases h
  exact openPart_eq_ok hpart

theorem openAt_eq_error {json : Bytes} {payload : Payload} {part : Part}
    {components : List String} {e : Error} (h : openAt json payload part components = .error e) :
    OfJson e ∨ e = .itemNotFound ∧ WellFormed json := by
  unfold openAt at h
  rcases bind_eq_error h with hpart | ⟨opened, _, h⟩
  · exact openPart_eq_error hpart
  · cases h

theorem tracks_next {json : Bytes} {w : Walk} (h : w.Tracks json) : w.next.2.Tracks json := by
  cases hprogress : w.progress with
  | done =>
    rw [next_of_done hprogress]
    exact h
  | failed e =>
    rw [next_of_failed hprogress]
    exact h
  | walking =>
    unfold Tracks at h
    rw [hprogress] at h
    have hleaves := advance_leaves w.payload w.components w.component h
    cases hadvance : advance w.payload w.components w.component w.reader with
    | error e =>
      rw [hadvance] at hleaves
      rw [next_of_error hprogress hadvance]
      exact hleaves
    | ok found =>
      rw [hadvance] at hleaves
      obtain ⟨found, component, r⟩ := found
      cases found with
      | property p =>
        rw [next_of_property hprogress hadvance, Tracks, hprogress]
        exact hleaves
      | finished =>
        rw [next_of_finished hprogress hadvance]
        exact hleaves

theorem tracks_reached {json : Bytes} {payload : Payload} {components : List String} {w : Walk}
    (h : Reached json payload components w) : w.Tracks json := by
  induction h with
  | start h => exact tracks_openAt h
  | next _ ih => exact tracks_next ih
  | restart h h' _ =>
    obtain ⟨hjson, -, -⟩ := h.frame
    have hopen := restart_eq_ok h'
    rw [hjson] at hopen
    exact tracks_openAt hopen

theorem tracks_collect {json : Bytes} {w : Walk} (h : w.Tracks json) :
    w.collect.2.Tracks json := by
  have hnext := tracks_next h
  fun_induction collect w with
  | case1 w p w' step more ih =>
    rw [step] at hnext
    exact ih hnext (tracks_next hnext)
  | case2 w answer w' _ step =>
    rw [step] at hnext
    exact hnext

theorem wellFormed_of_none {json : Bytes} {w : Walk} (h : w.Tracks json)
    (hnone : w.next.1 = .ok none) : WellFormed json := by
  have hnext := tracks_next h
  rw [Tracks, progress_of_none hnone] at hnext
  exact hnext

theorem ofJson_of_error {json : Bytes} {w : Walk} {e : Error} (h : w.Tracks json)
    (herror : w.next.1 = .error e) : OfJson e := by
  have hnext := tracks_next h
  rw [Tracks, progress_of_error herror] at hnext
  exact hnext

theorem wellFormed_of_mem {json : Bytes} {w : Walk} {n : Nat} (h : w.Tracks json)
    (hmem : .ok none ∈ w.answers n) : WellFormed json := by
  induction n generalizing w with
  | zero => cases hmem
  | succ n ih =>
    rcases List.mem_cons.1 hmem with hnow | hlater
    · exact wellFormed_of_none h hnow.symm
    · exact ih (tracks_next h) hlater

/-- Opening the section or a call of the walk gives a cause of the reader, and so does every call
behind it. -/
def Refuses (result : Except Error Walk) : Prop :=
  (∃ c, result = .error (.json c)) ∨
    ∃ (w : Walk) (ps : List Property) (c : JsonError), result = .ok w ∧
      ∀ n, w.answers (ps.length + n) =
        ps.map (fun p => .ok (some p)) ++ List.replicate n (.error (.json c))

theorem refuses_of_tracks {json : Bytes} {w : Walk} (h : w.Tracks json)
    (hjson : ¬ WellFormed json) : Refuses (.ok w) := by
  have hlast := tracks_collect h
  cases hend : w.collect.2.next.1 with
  | error e =>
    obtain ⟨c, rfl⟩ := ofJson_of_error hlast hend
    refine .inr ⟨w, w.collect.1, c, rfl, fun n => ?_⟩
    rw [answers_collect, hend]
  | ok answer =>
    cases answer with
    | none => exact absurd (wellFormed_of_none hlast hend) hjson
    | some p => exact absurd hend (collect_last w p)

/-- Only a document with an object at its root lacks a section or lets a walk come to its end.
Anything else is refused after finitely many calls, for good and with a cause of the reader. -/
theorem ends_only_documents (json : Bytes) (payload : Payload) (part : Part)
    (components : List String) :
    (openAt json payload part components = .error .itemNotFound → WellFormed json) ∧
    (∀ w n, openAt json payload part components = .ok w ∨ Reached json payload components w →
      .ok none ∈ w.answers n → WellFormed json) ∧
    (¬ WellFormed json → Refuses (openAt json payload part components)) ∧
    ∀ result, Opens json payload components part result →
      result = openAt json payload part components := by
  refine ⟨fun h => ?_, fun w n h hmem => ?_, fun hjson => ?_, fun result h => h.eq_openAt⟩
  · rcases openAt_eq_error h with ⟨c, hc⟩ | ⟨-, hjson⟩
    · cases hc
    · exact hjson
  · rcases h with hopen | hreached
    · exact wellFormed_of_mem (tracks_openAt hopen) hmem
    · exact wellFormed_of_mem (tracks_reached hreached) hmem
  · cases hopen : openAt json payload part components with
    | ok w => exact refuses_of_tracks (tracks_openAt hopen) hjson
    | error e =>
      rcases openAt_eq_error hopen with ⟨c, rfl⟩ | ⟨-, hwhole⟩
      · exact .inl ⟨c, rfl⟩
      · exact absurd hwhole hjson

theorem truncated_refused :
    openAt (utf8 "\x7b\x7d") .document .desired [] = .error .itemNotFound ∧
      WellFormed (utf8 "\x7b\x7d") ∧ ¬ WellFormed (utf8 "\x7b\"a\":1") ∧
      Refuses (openAt (utf8 "\x7b\"a\":1") .patch .desired []) := by
  have hmissing : openAt (utf8 "\x7b\x7d") .document .desired [] = .error .itemNotFound := by
    have h : (match openAt (utf8 "\x7b\x7d") .document .desired [] with
        | .ok _ => none
        | .error e => some e) = some Error.itemNotFound := by
      decide +kernel
    split at h
    · cases h
    · next hopen =>
      rw [hopen, Option.some.inj h]
  have htruncated : ¬ WellFormed (utf8 "\x7b\"a\":1") := by
    rintro ⟨d, htext, height, -⟩
    have htokens := Reader.tokens_document d height
    rw [htext] at htokens
    have hend : (Reader.ofBytes (utf8 "\x7b\"a\":1")).tokens.2 = .unexpectedEnd := by
      decide +kernel
    rw [htokens] at hend
    cases hend
  exact ⟨hmissing, (ends_only_documents _ _ _ _).1 hmissing, htruncated,
    (ends_only_documents _ _ _ _).2.2.1 htruncated⟩

end HubDevice.Twin.Walk
