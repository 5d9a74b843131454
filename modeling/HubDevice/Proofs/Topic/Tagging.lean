import HubDevice.Proofs.Topic.Drafts

set_option autoImplicit false

namespace HubDevice

namespace Properties

variable {size : Nat} {p : Properties} {component : Option String}

theorem Sound.isEmpty_iff (h : p.Sound size) : p.isEmpty = true ↔ p.text = "" := by
  rw [isEmpty, beq_iff_eq]
  exact h.length_eq_zero_iff

/-- Behind the properties of a list its component is joined like one more pair. -/
theorem Sound.propertyText_eq (h : p.Sound size) (component : Option String) :
    Draft.propertyText (some p) component =
      component.elim p.text fun c => joined p.text (pairText "$.sub" c) := by
  have hpair (c : String) : pairText "$.sub" c = "$.sub=" ++ c := rfl
  have hjoint : "&$.sub=" = "&" ++ "$.sub=" := by decide
  unfold Draft.propertyText joined
  by_cases hempty : p.text = ""
  · rw [Option.filter_some_neg (by simp [h.isEmpty_iff.2 hempty])]
    cases component with
    | none => exact hempty.symm
    | some c => exact (if_pos hempty).symm
  · rw [Option.filter_some_pos (by simp [mt h.isEmpty_iff.1 hempty])]
    cases component with
    | none => rfl
    | some c =>
      dsimp only [Option.elim_some]
      rw [if_neg hempty, hpair, hjoint, ← String.append_assoc, ← String.append_assoc]

theorem Sound.pairsOf_propertyText (h : p.Sound size)
    (hcomponent : ∀ c, component = some c → '&' ∉ c.toList) :
    pairsOf (Draft.propertyText (some p) component) =
      p.toList ++ (component.map fun c => ("$.sub", c)).toList := by
  rw [h.propertyText_eq, toList_eq]
  cases component with
  | none => exact (List.append_nil _).symm
  | some c =>
    have hname : '=' ∉ "$.sub".toList ∧ '&' ∉ "$.sub".toList := by decide
    rw [Option.elim_some, pairsOf_joined, pairsOf_pairText hname (hcomponent c rfl)]
    rfl

theorem ofEncoded_utf8 (s : String) :
    ofEncoded (utf8 s) (utf8 s).length = .ok ⟨⟨utf8 s, []⟩⟩ := by
  have hleading := ofEncoded_leading s []
  rwa [List.append_nil] at hleading

theorem toList_encoded (s : String) : toList ⟨⟨utf8 s, []⟩⟩ = pairsOf s := by
  rw [toList_eq, text_of_written rfl]

end Properties

namespace Desk

variable {i : Identity} {component : Option String} {d d' : Desk}

/-- However the writing ends, the list is the one that was there. -/
theorem list_kept (h : (∃ n, telemetry i component d = .ok n d') ∨
    ∃ e, telemetry i component d = .error e d') : d'.list = d.list := by
  unfold telemetry at h
  split at h <;> rcases h with ⟨_, h⟩ | ⟨_, h⟩ <;> cases h <;> rfl

theorem telemetry_of_fits (hcomponent : component ≠ some "")
    (hfits : ((Draft.telemetry d.list component).template i).length ≤ d.memory.length) :
    let topic := (Draft.telemetry d.list component).template i
    telemetry i component d =
      .ok topic.length ⟨d.list, topic ++ d.memory.drop topic.length⟩ := by
  have hadmissible : (Draft.telemetry d.list component).admissible = true :=
    decide_eq_true hcomponent
  unfold telemetry
  rw [Draft.write_of_fits hadmissible hfits]

open Properties

/-- With room for it the topic of a message ends in a text that holds the pairs of the list, in
order, and then the component if there is one. That goes for every list that one can come to, and
the list stays as it is. -/
theorem component_comes_last (i : Identity) {stock : Bytes} {start : Properties}
    (h : Starts stock start) (calls : List (String × String)) (component : Option String)
    (hcomponent : ∀ c, component = some c → c ≠ "" ∧ '&' ∉ c.toList) :
    let p := calls.foldl Properties.after start
    let query := Draft.propertyText (some p) component
    let topic := utf8 ("devices/" ++ i.deviceId ++ Draft.part "/modules/" i.moduleId ++
      "/messages/events/" ++ query)
    (∀ memory : Bytes, topic.length ≤ memory.length →
      telemetry i component ⟨some p, memory⟩ =
        .ok topic.length ⟨some p, topic ++ memory.drop topic.length⟩) ∧
    (∃ q, ofEncoded (utf8 query) (utf8 query).length = .ok q ∧
      q.toList = p.toList ++ (component.map fun c => ("$.sub", c)).toList) ∧
    ∀ (memory : Bytes) (d : Desk), ((∃ n, telemetry i component ⟨some p, memory⟩ = .ok n d) ∨
      ∃ e, telemetry i component ⟨some p, memory⟩ = .error e d) → d.list = some p := by
  intro p query topic
  have hsound : p.Sound stock.length := h.sound.entered calls
  have hname : component ≠ some "" := fun hempty => (hcomponent "" hempty).1 rfl
  refine ⟨fun memory hfits => ?_, ⟨_, ofEncoded_utf8 query, ?_⟩, fun memory d hends => ?_⟩
  · exact telemetry_of_fits (d := ⟨some p, memory⟩) hname hfits
  · rw [toList_encoded]
    exact hsound.pairsOf_propertyText fun c hc => (hcomponent c hc).2
  · exact list_kept hends

/-- The separator at the end of this list is no reason to leave out the next one. -/
theorem ragged_tagged :
    let query := "x&&a=1&&$.sub=left=right"
    let topic := utf8 ("devices/gate way/modules/s&n=1/messages/events/" ++ query)
    Starts ragged.buffer.contents ragged ∧
      telemetry Identity.sensor (some "left=right") ⟨some ragged, List.replicate 80 7⟩ =
        .ok 71 ⟨some ragged, topic ++ List.replicate 9 7⟩ ∧
      ∃ q, ofEncoded (utf8 query) (utf8 query).length = .ok q ∧
        q.toList = [("a", "1"), ("$.sub", "left=right")] := by
  intro query topic
  have hcomponent : ∀ c, some "left=right" = some c → c ≠ "" ∧ '&' ∉ c.toList := by
    rintro c ⟨⟩
    decide
  obtain ⟨hwritten, ⟨q, hencoded, hpairs⟩, -⟩ :=
    component_comes_last Identity.sensor ragged_starts [] (some "left=right") hcomponent
  have hquery : Draft.propertyText (some ragged) (some "left=right") = query := by decide +kernel
  have hstem : "devices/" ++ Identity.sensor.deviceId ++
      Draft.part "/modules/" Identity.sensor.moduleId ++ "/messages/events/" =
        "devices/gate way/modules/s&n=1/messages/events/" := by decide
  have hlength : topic.length = 71 := by decide
  dsimp only [List.foldl_nil] at hwritten hencoded hpairs
  rw [hquery] at hwritten hencoded
  rw [hstem, hlength] at hwritten
  refine ⟨ragged_starts, hwritten _ (by decide), q, hencoded, hpairs.trans ?_⟩
  rw [ragged_pairs]
  rfl

end Desk

end HubDevice
