import HubDevice.Device.Controller
import HubDevice.Proofs.Mqtt.Writes

set_option autoImplicit false

/-!
# What every action keeps

The actions of the device are made of a few: they publish, count requests, replace a thermostat and
fail. What these keep is kept by all, whether they succeed or fail. Only the report of a maximum is
left to its users, as there the flag changes before the report is out.
-/
namespace HubDevice.Controller
open Mqtt (outcome)

variable {I : Controller → Prop} {E : Failure → Controller → Prop}

/-- From a state with `I` the action comes to one with `I`, or it fails in one that `E` tells of. -/
structure Maintains (I : Controller → Prop) (E : Failure → Controller → Prop) {α : Type}
    (action : Action α) : Prop where
  ok : ∀ {c a c'}, I c → action c = .ok a c' → I c'
  error : ∀ {c e c'}, I c → action c = .error e c' → E e c'

section Sequences

variable {α β : Type}

theorem maintains_pure (a : α) : Maintains I E (pure a) where
  ok h hresult := by cases hresult; exact h
  error _ hresult := by cases hresult

theorem maintains_get : Maintains I E get where
  ok h hresult := by cases hresult; exact h
  error _ hresult := by cases hresult

theorem maintains_throw {e : Failure} (h : ∀ c, I c → E e c) :
    Maintains I E (throw e : Action α) where
  ok _ hresult := by cases hresult
  error hc hresult := by cases hresult; exact h _ hc

theorem maintains_modify {f : Controller → Controller} (h : ∀ c, I c → I (f c)) :
    Maintains I E (modify f) where
  ok hc hresult := by cases hresult; exact h _ hc
  error _ hresult := by cases hresult

theorem Maintains.bind {first : Action α} {second : α → Action β} (h : Maintains I E first)
    (h' : ∀ a, Maintains I E (second a)) : Maintains I E (first >>= second) := by
  constructor
  · intro c b c' hc hresult
    obtain ⟨a, c1, hfirst, hsecond⟩ := bind_eq_ok_state hresult
    exact (h' a).ok (h.ok hc hfirst) hsecond
  · intro c e c' hc hresult
    rcases bind_eq_error_state hresult with hfirst | ⟨a, c1, hfirst, hsecond⟩
    · exact h.error hc hfirst
    · exact (h' a).error (h.ok hc hfirst) hsecond

theorem maintains_of_eq {action : Action α} (h : ∀ c, I c →
    ∃ (same : Action α) (c' : Controller), I c' ∧ Maintains I E same ∧ action c = same c') :
    Maintains I E action := by
  constructor
  · intro c a c' hc hresult
    obtain ⟨same, c1, h1, hsame, heq⟩ := h c hc
    exact hsame.ok h1 (heq.symm.trans hresult)
  · intro c e c' hc hresult
    obtain ⟨same, c1, h1, hsame, heq⟩ := h c hc
    exact hsame.error h1 (heq.symm.trans hresult)

theorem maintains_forM {f : α → Action Unit} (as : List α)
    (h : ∀ a ∈ as, Maintains I E (f a)) : Maintains I E (as.forM f) := by
  induction as with
  | nil => exact maintains_pure ()
  | cons a as ih =>
    obtain ⟨ha, has⟩ := List.forall_mem_cons.1 h
    exact ha.bind fun _ => ih has

section Link

variable {action : Mqtt.Client.Action α} {c c' : Controller}

theorem onLink_eq_ok {a : α} (h : onLink action c = .ok a c') :
    ∃ client, action c.client = .ok a client ∧ c' = { c with client } := by
  unfold onLink at h
  cases haction : action c.client with
  | ok b client =>
    rw [haction] at h
    cases h
    exact ⟨client, rfl, rfl⟩
  | error e client =>
    rw [haction] at h
    cases h

theorem onLink_eq_error {f : Failure} (h : onLink action c = .error f c') :
    ∃ e client, action c.client = .error e client ∧ f = .link e ∧ c' = { c with client } := by
  unfold onLink at h
  cases haction : action c.client with
  | ok a client =>
    rw [haction] at h
    cases h
  | error e client =>
    rw [haction] at h
    cases h
    exact ⟨e, client, rfl, rfl, rfl⟩

theorem outcome_onLink (action : Mqtt.Client.Action α) (c : Controller) :
    (outcome (onLink action c)).2 = { c with client := (outcome (action c.client)).2 } := by
  unfold onLink
  cases action c.client <;> rfl

end Link

/-- An action of the client is judged by the client that it leaves, whether or not it fails. -/
theorem maintains_onLink {action : Mqtt.Client.Action α}
    (leaves : ∀ c, I c → I { c with client := (outcome (action c.client)).2 })
    (fails : ∀ e c, I c → E (.link e) c) : Maintains I E (onLink action) := by
  constructor
  · intro c a c' hc hresult
    obtain ⟨client, haction, rfl⟩ := onLink_eq_ok hresult
    have hleaves := leaves c hc
    rw [haction] at hleaves
    exact hleaves
  · intro c f c' hc hresult
    obtain ⟨e, client, haction, rfl, rfl⟩ := onLink_eq_error hresult
    have hleaves := leaves c hc
    rw [haction] at hleaves
    exact fails e _ hleaves

theorem maintains_of_outcome {action : Action α} (h : ∀ c, I c → I (outcome (action c)).2) :
    Maintains I (fun _ => I) action := by
  constructor
  · intro c a c' hc hresult
    have hkeeps := h c hc
    rw [hresult] at hkeeps
    exact hkeeps
  · intro c e c' hc hresult
    have hkeeps := h c hc
    rw [hresult] at hkeeps
    exact hkeeps

/-- Where failures keep `I` too, so does the action, however it ends. -/
theorem Maintains.ends {action : Action α} (h : Maintains I (fun _ => I) action)
    {c : Controller} (hc : I c) : I (outcome (action c)).2 := by
  cases hresult : action c with
  | ok a c' => exact h.ok hc hresult
  | error e c' => exact h.error hc hresult

end Sequences

/-- To publish and to count requests keeps `I`, and a failure of the device in such a state is one
of `E`. -/
structure Steady (I : Controller → Prop) (E : Failure → Controller → Prop) : Prop where
  fails : ∀ e c, I c → E (.device e) c
  publishes : ∀ topic payload,
    Maintains I E (onLink (Mqtt.Client.publish topic payload .atMostOnce))
  counts : ∀ requestId c, I c → I { c with requestId }

structure Stable (I : Controller → Prop) (E : Failure → Controller → Prop) : Prop
    extends Steady I E where
  reboots : ∀ c, I c → I { c with rebooting := true }

namespace Steady

variable (steady : Steady I E)
include steady

theorem throw {α : Type} (e : Error) : Maintains I E (throw (.device e) : Action α) :=
  maintains_throw (steady.fails e)

theorem liftExcept {α : Type} (result : Except Error α) :
    Maintains I E (Controller.liftExcept result) := by
  cases result with
  | ok a => exact maintains_pure a
  | error e => exact steady.throw e

theorem compose {α : Type} (action : Writer.Action α) :
    Maintains I E (Controller.compose action) := by
  unfold Controller.compose
  cases action payloadRoom with
  | ok a w => exact maintains_pure (a, w.bytes)
  | error e w => exact steady.throw e

theorem publish (topic : Except Error Buffer) (payload : Bytes) :
    Maintains I E (Controller.publish topic payload) :=
  (steady.liftExcept topic).bind fun b => steady.publishes b.written payload

theorem nextRequestId : Maintains I E Controller.nextRequestId := by
  refine maintains_get.bind fun c => (maintains_modify ?_).bind fun _ => maintains_pure _
  exact steady.counts (c.requestId + 1)

theorem report (patch : Bytes) : Maintains I E (Controller.report patch) :=
  steady.nextRequestId.bind fun requestId =>
    steady.publish (Topic.twinPatch requestId topicRoom) patch

theorem requestTwin : Maintains I E Controller.requestTwin :=
  steady.nextRequestId.bind fun requestId => steady.publish (Topic.twinGet requestId topicRoom) []

theorem sendInformation : Maintains I E Controller.sendInformation :=
  (steady.compose Information.write).bind fun made => steady.report made.2

theorem sendTelemetryOf (t : Thermostat) : Maintains I E (Controller.sendTelemetryOf t) :=
  maintains_get.bind fun c =>
    (steady.liftExcept (Topic.telemetry c.identity none (some t.name) topicRoom)).bind fun topic =>
      (steady.compose t.writeTelemetry).bind fun made => steady.publish (.ok topic) made.2

theorem sendTelemetry : Maintains I E Controller.sendTelemetry :=
  maintains_get.bind fun c => maintains_forM c.thermostats fun t _ => steady.sendTelemetryOf t

end Steady

theorem Stable.handleCommand (stable : Stable I E) (now : String) (request : Topic.CommandRequest)
    (payload : Bytes) : Maintains I E (Controller.handleCommand now request payload) := by
  refine maintains_get.bind fun c => (stable.compose (c.answer now request payload)).bind
    fun made => ?_
  have hpublish := stable.publish (Topic.response request.requestId made.1 topicRoom) made.2
  dsimp only
  split
  · exact (maintains_modify stable.reboots).bind fun _ => hpublish
  · exact hpublish

theorem update_thermostat (t : Thermostat) (name value : Token) (version : UInt32) (w : Writer) :
    (t.update name value version w).2.1 = t ∨
      name.isText Thermostat.targetName = true ∧ ∃ target, value.float = .ok target ∧
        (t.update name value version w).2.1 = t.setTemperature target := by
  unfold Thermostat.update
  cases hname : name.isText Thermostat.targetName with
  | false => exact .inl rfl
  | true =>
    cases hvalue : value.float with
    | error e => exact .inl rfl
    | ok target =>
      refine .inr ⟨rfl, target, rfl, ?_⟩
      rw [Bool.not_true, if_neg Bool.false_ne_true]
      dsimp only
      cases Thermostat.acknowledgeTarget t.name version target w <;> rfl

theorem mem_replace {c : Controller} {t t' : Thermostat} (h : t' ∈ (c.replace t).thermostats) :
    t' ∈ c.thermostats ∨ t' = t := by
  obtain ⟨old, hold, heq⟩ := List.mem_map.1 h
  split at heq
  · exact .inr heq.symm
  · exact .inl (heq ▸ hold)

def propertiesIn (topic : String) (payload : Bytes) : List Twin.Property :=
  match Topic.commandRequest? topic, Topic.twinResponse? topic with
  | none, some response =>
    (twinPayload? response).elim [] fun kind =>
      (Twin.Walk.start payload kind componentNames).toOption.elim [] (·.collect.1)
  | _, _ => []

def Takes (I : Controller → Prop) (p : Twin.Property) : Prop :=
  ∀ c name t version, I c → p.component = some name → c.thermostat? name = some t →
    I (c.replace (t.update p.name p.value version payloadRoom).2.1)

theorem accept_eq (version : UInt32) (p : Twin.Property) (c : Controller) :
    accept version p c =
      match p.component.bind c.thermostat? with
      | none => .ok () c
      | some t =>
        match t.update p.name p.value version payloadRoom with
        | (.error e, t', _) => .error (.device e) (c.replace t')
        | (.ok false, t', _) => .ok () (c.replace t')
        | (.ok true, t', w) => report w.bytes (c.replace t') := by
  change (match p.component.bind c.thermostat? with
    | none => pure ()
    | some t => (do
        modify fun s : Controller => s.replace (t.update p.name p.value version payloadRoom).2.1
        if ← liftExcept (t.update p.name p.value version payloadRoom).1 then
          report (t.update p.name p.value version payloadRoom).2.2.bytes : Action Unit)) c = _
  cases p.component.bind c.thermostat? with
  | none => rfl
  | some t =>
    dsimp only
    rcases t.update p.name p.value version payloadRoom with ⟨_ | handled, t', w⟩
    · rfl
    · cases handled <;> rfl

/-- To take over a property keeps `I` if the new state of the thermostat and its acknowledgement
do. -/
theorem maintains_accept (fails : ∀ e c, I c → E (.device e) c) {p : Twin.Property}
    (takes : Takes I p) (version : UInt32)
    (reports : ∀ c t t' w, I c → t ∈ c.thermostats →
      t.update p.name p.value version payloadRoom = (.ok true, t', w) →
      Maintains I E (report w.bytes)) :
    Maintains I E (accept version p) := by
  refine maintains_of_eq fun c hc => ?_
  rw [accept_eq]
  cases hfound : p.component.bind c.thermostat? with
  | none => exact ⟨pure (), c, hc, maintains_pure (), rfl⟩
  | some t =>
    obtain ⟨name, component, thermostat⟩ := Option.bind_eq_some_iff.1 hfound
    have htaken := takes c name t version hc component thermostat
    have hreports := reports c t
    revert htaken hreports
    dsimp only
    rcases t.update p.name p.value version payloadRoom with ⟨e | handled, t', w⟩ <;>
      intro htaken hreports
    · exact ⟨throw (.device e), c.replace t', htaken, maintains_throw (fails e), rfl⟩
    · cases handled
      · exact ⟨pure (), c.replace t', htaken, maintains_pure (), rfl⟩
      · have hreport := hreports t' w hc (List.mem_of_find?_eq_some thermostat) rfl
        exact ⟨report w.bytes, c.replace t', htaken, hreport, rfl⟩

theorem maintains_handleTwin (fails : ∀ e c, I c → E (.device e) c)
    (highest : Maintains I E sendHighest) {response : Topic.TwinResponse} {payload : Bytes}
    (accepts : ∀ kind walk, twinPayload? response = some kind →
      Twin.Walk.start payload kind componentNames = .ok walk →
      ∀ p ∈ walk.collect.1, ∀ version, Maintains I E (accept version p)) :
    Maintains I E (handleTwin response payload) := by
  unfold handleTwin
  cases hkind : twinPayload? response with
  | none => exact maintains_pure ()
  | some kind =>
    dsimp only
    cases hwalk : Twin.Walk.start payload kind componentNames with
    | error e =>
      exact maintains_of_eq fun c hc =>
        ⟨throw (.device e), c, hc, maintains_throw (fails e), rfl⟩
    | ok walk =>
      have hlift : liftExcept (Except.ok walk : Except Error Twin.Walk) = pure walk := rfl
      rw [hlift, pure_bind]
      refine (maintains_forM _ fun p hp => accepts kind walk hkind hwalk p hp _).bind fun _ => ?_
      split
      · exact maintains_throw (fails _)
      · exact highest

theorem maintains_handle (stable : Stable I E) (highest : Maintains I E sendHighest)
    (now : String) {topic : String} {payload : Bytes}
    (takes : ∀ p ∈ propertiesIn topic payload, Takes I p) :
    Maintains I E (handle now topic payload) := by
  unfold propertiesIn at takes
  unfold handle
  cases hrequest : Topic.commandRequest? topic with
  | some request => exact stable.handleCommand now request payload
  | none =>
    cases hresponse : Topic.twinResponse? topic with
    | none => exact maintains_pure ()
    | some response =>
      rw [hrequest, hresponse] at takes
      dsimp only at takes ⊢
      refine maintains_handleTwin stable.fails highest fun kind walk hkind hwalk p hp version => ?_
      rw [hkind, Option.elim_some, hwalk] at takes
      exact maintains_accept stable.fails (takes p hp) version fun _ _ _ w _ _ _ =>
        stable.report w.bytes

theorem maintains_sendHighest
    (highest : ∀ c, I c → ∀ t ∈ c.thermostats, Maintains I E (sendHighestOf t)) :
    Maintains I E sendHighest :=
  maintains_of_eq fun c hc => ⟨c.thermostats.forM sendHighestOf, c, hc,
    maintains_forM c.thermostats (highest c hc), rfl⟩

inductive Call where
  | handle (now topic : String) (payload : Bytes)
  | information
  | requestTwin
  | highest
  | telemetry

def Call.action : Call → Action Unit
  | .handle now topic payload => Controller.handle now topic payload
  | .information => sendInformation
  | .requestTwin => Controller.requestTwin
  | .highest => sendHighest
  | .telemetry => sendTelemetry

/-- The state after these calls. Each is made whether or not those before succeeded. -/
def after (calls : List Call) (c : Controller) : Controller :=
  calls.foldl (fun c call => (outcome (call.action c)).2) c

theorem after_concat (calls : List Call) (call : Call) (c : Controller) :
    after (calls ++ [call]) c = (outcome (call.action (after calls c))).2 := by
  rw [after, List.foldl_append]
  rfl

def Call.properties : Call → List Twin.Property
  | .handle _ topic payload => propertiesIn topic payload
  | _ => []

theorem maintains_call (stable : Stable I E)
    (highest : ∀ c, I c → ∀ t ∈ c.thermostats, Maintains I E (sendHighestOf t)) {call : Call}
    (takes : ∀ p ∈ call.properties, Takes I p) : Maintains I E call.action := by
  have hhighest := maintains_sendHighest highest
  cases call with
  | handle now topic payload => exact maintains_handle stable hhighest now takes
  | information => exact stable.sendInformation
  | requestTwin => exact stable.requestTwin
  | highest => exact hhighest
  | telemetry => exact stable.sendTelemetry

end HubDevice.Controller
