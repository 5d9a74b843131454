import HubDevice.Proofs.Json.Skipping
import HubDevice.Proofs.Twin.Refusal

set_option autoImplicit false

namespace HubDevice.Twin.Walk
open Grammar (Value)
open Reader (Moves Visits Above ofBytes)

structure Cut (p : Property) (atName atValue behind : Reader) : Prop where
  name : atName.token = p.name
  isName : p.name.isName = true
  step : Reader.next atName = .ok () atValue
  value : atValue.token = p.value
  skip : Reader.skipValue atValue = .ok () behind
  raw : p.raw = Reader.between atValue behind

theorem cut_of_advance {payload : Payload} {components : List String}
    {component component' : Option String} {r r' : Reader} {p : Property}
    (h : advance payload components component r = .ok (.property p, component', r')) :
    ∃ atName atValue, Moves r atName ∧ Cut p atName atValue r' := by
  fun_induction advance payload components component r with
  | case1 => cases h
  | case4 => cases h
  | case5 => cases h
  | case7 => cases h
  | case9 => cases h
  | case2 _ s step _ _ ih =>
    obtain ⟨atName, atValue, moves, cut⟩ := ih h
    exact ⟨atName, atValue, (moves_read_next step).trans moves, cut⟩
  | case3 _ s =>
    cases hclose : close payload s <;> simp [hclose, Except.map] at h
  | case6 _ _ s step _ _ _ s' skip ih =>
    obtain ⟨atName, atValue, moves, cut⟩ := ih h
    have before := (moves_read_next step).trans (moves_read_skipValue skip)
    exact ⟨atName, atValue, before.trans moves, cut⟩
  | case8 _ _ s step _ _ _ v value _ _ _ ih =>
    obtain ⟨atName, atValue, moves, cut⟩ := ih h
    have before := (moves_read_next step).trans (moves_read_next value)
    exact ⟨atName, atValue, before.trans moves, cut⟩
  | case10 _ _ s step _ hname _ v value _ _ r' skip _ =>
    simp only [Except.ok.injEq, Prod.mk.injEq, Found.property.injEq] at h
    obtain ⟨rfl, -, rfl⟩ := h
    exact ⟨s, v, moves_read_next step, rfl, by simpa using hname, read_eq_ok value, rfl,
      read_eq_ok skip, rfl⟩

theorem advance_of_some {w : Walk} {p : Property} (h : w.next.1 = .ok (some p)) :
    ∃ component, w.progress = .walking ∧
      advance w.payload w.components w.component w.reader =
        .ok (.property p, component, w.next.2.reader) := by
  cases hprogress : w.progress with
  | done =>
    rw [next_of_done hprogress] at h
    cases h
  | failed e =>
    rw [next_of_failed hprogress] at h
    cases h
  | walking =>
    cases hadvance : advance w.payload w.components w.component w.reader with
    | error e =>
      rw [next_of_error hprogress hadvance] at h
      cases h
    | ok found =>
      obtain ⟨found, component, r⟩ := found
      cases found with
      | finished =>
        rw [next_of_finished hprogress hadvance] at h
        cases h
      | property p' =>
        have hnext := next_of_property hprogress hadvance
        rw [hnext] at h
        cases h
        exact ⟨component, rfl, by rw [hnext]⟩

theorem Cut.exists_body {p : Property} {atName atValue behind : Reader}
    (h : Cut p atName atValue behind) : ∃ body, atName.token = .name body := by
  have hname := h.isName
  rw [← h.name] at hname
  unfold Token.isName at hname
  split at hname
  · next body htoken => exact ⟨body, htoken⟩
  · cases hname

/-- Skipping the value of a property has passed over a tree of which its bytes are the text. -/
theorem Cut.passes {p : Property} {atName atValue behind : Reader}
    (h : Cut p atName atValue behind) (placed : atName.Placed) :
    ∃ v : Value, Reader.Passes v atName behind ∧ atName.depth + v.height ≤ maxNesting ∧
      p.raw = v.text ∧ p.value = v.first := by
  obtain ⟨body, hbody⟩ := h.exists_body
  obtain ⟨_, _, s, -, wants⟩ := Reader.name_sound hbody h.step
  obtain ⟨v, passes, height⟩ := Reader.passes_of_skip placed.shallow wants h.step h.skip
  obtain ⟨first, step, token, -, hraw⟩ := passes.first
  rw [h.step] at step
  cases step
  exact ⟨v, passes, height, h.raw.trans hraw, h.value.symm.trans token⟩

/-- The bytes of a property, by themselves, are a document. Its reader reads the tokens that the
walk has passed over, at depths less by that of the enclosing object, and it comes to the end. -/
theorem value_reads_alone {json : Bytes} {payload : Payload} {components : List String} {w : Walk}
    {p : Property} (hreached : Reached json payload components w)
    (hp : w.next.1 = .ok (some p)) :
    ∃ (atName : Reader) (visited alone : List Reader) (last : Reader),
      Moves (ofBytes json) atName ∧ atName.token = p.name ∧ p.name.isName = true ∧
      atName.nesting.head? = some .object ∧ Visits atName visited w.next.2.reader ∧
      Visits p.reader alone last ∧ last.Ends ∧ List.Forall₂ (Above atName.depth) visited alone ∧
      (visited.map Reader.token).head? = some p.value ∧
      (∀ s ∈ alone, s.depth + atName.depth ≤ maxNesting) ∧ ∃ v : Value, p.raw = v.text := by
  obtain ⟨component, walking, hadvance⟩ := advance_of_some hp
  obtain ⟨atName, atValue, moves, cut⟩ := cut_of_advance hadvance
  have htracks := tracks_reached hreached
  rw [Tracks, walking] at htracks
  obtain ⟨ts, runs⟩ := htracks
  have hmoves : Moves (ofBytes json) atName := Moves.trans ⟨_, runs⟩ moves
  have placed := (Reader.placed_ofBytes json).moves hmoves
  obtain ⟨v, passes, height, hraw, hfirst⟩ := cut.passes placed
  obtain ⟨visited, alone, last, hvisited, halone, hends, habove, hhead⟩ :=
    passes.alone (by omega)
  rw [← hraw] at halone
  rw [← hfirst] at hhead
  refine ⟨atName, visited, alone, last, hmoves, cut.name, cut.isName, ?_, hvisited, halone, hends,
    habove, hhead, fun s hs => ?_, v, hraw⟩
  · obtain ⟨body, hbody⟩ := cut.exists_body
    exact placed.poised.named body hbody
  · have shallow := fun s hs => ((placed.visits hvisited) s hs).shallow
    exact Reader.depth_below habove shallow s hs

theorem array_reads_alone :
    ∃ (w : Walk) (p : Property),
      Walk.start (utf8 "\x7b\"$version\":1,\"a\": [1, 2] ]") .patch [] = .ok w ∧
      w.next.1 = .ok (some p) ∧ p.raw = utf8 "[1, 2]" ∧
      ∃ (atName : Reader) (visited alone : List Reader) (last : Reader),
        Moves (ofBytes (utf8 "\x7b\"$version\":1,\"a\": [1, 2] ]")) atName ∧ atName.token = p.name ∧
        p.name.isName = true ∧ atName.nesting.head? = some .object ∧
        Visits atName visited w.next.2.reader ∧ Visits p.reader alone last ∧ last.Ends ∧
        List.Forall₂ (Above atName.depth) visited alone ∧
        (visited.map Reader.token).head? = some p.value ∧
        (∀ s ∈ alone, s.depth + atName.depth ≤ maxNesting) ∧ ∃ v : Value, p.raw = v.text := by
  have hfound : (match Walk.start (utf8 "\x7b\"$version\":1,\"a\": [1, 2] ]") .patch [] with
      | .ok w => (match w.next.1 with
        | .ok found => found.map Property.raw
        | .error _ => none)
      | .error _ => none) = some (utf8 "[1, 2]") := by
    decide +kernel
  split at hfound
  · next w hstart =>
    split at hfound
    · next found hnext =>
      obtain ⟨p, rfl, hraw⟩ := Option.map_eq_some_iff.1 hfound
      exact ⟨w, p, hstart, hnext, hraw, value_reads_alone (.start hstart) hnext⟩
    · cases hfound
  · cases hfound

end HubDevice.Twin.Walk
