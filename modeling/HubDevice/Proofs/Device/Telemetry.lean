import HubDevice.Proofs.Device.Commands
import HubDevice.Proofs.Device.Targets
import Mathlib.Data.List.Induction

set_option autoImplicit false

namespace HubDevice.Controller
open Mqtt (outcome Message)
open Thermostat (telemetryText targetName)

variable {c c' c'' : Controller} {identity : Identity}

def telemetryTopic (i : Identity) (name : String) : String :=
  "devices/" ++ i.deviceId ++ (i.moduleId.elim "" fun m => "/modules/" ++ m) ++
    "/messages/events/$.sub=" ++ name

theorem utf8_telemetryTopic (i : Identity) (name : String) :
    utf8 (telemetryTopic i name) = (Topic.telemetryChunks i none (some name)).flatten := by
  have hsub : utf8 "/messages/events/$.sub=" =
      utf8 "/messages/events/" ++ utf8 Topic.componentProperty ++ utf8 "=" := by decide +kernel
  have hempty : utf8 "" = [] := rfl
  unfold telemetryTopic Topic.telemetryChunks
  rw [utf8_append _ name, utf8_append _ "/messages/events/$.sub=",
    utf8_append _ (i.moduleId.elim _ _), utf8_append, hsub]
  cases i.moduleId with
  | none => simp [Identity.optional, hempty]
  | some m => simp [Identity.optional, utf8_append]

theorem length_telemetryTopic {i : Identity} (hmodule : i.moduleId = none)
    (hdevice : (utf8 i.deviceId).length ≤ 128) {name : String} (known : name ∈ thermostatNames) :
    (utf8 (telemetryTopic i name)).length ≤ Topic.capacity := by
  have hname : (utf8 name).length = 11 := by
    have hall : ∀ name ∈ thermostatNames, (utf8 name).length = 11 := by decide
    exact hall name known
  have hstem : (utf8 "devices/").length = 8 := by decide
  have hevents : (utf8 "/messages/events/$.sub=").length = 23 := by decide +kernel
  unfold telemetryTopic
  rw [hmodule, Option.elim_none, utf8_append, utf8_append, utf8_append, utf8_append,
    List.length_append, List.length_append, List.length_append, List.length_append, hstem, hevents,
    hname, Topic.capacity]
  have hempty : (utf8 "").length = 0 := rfl
  omega

theorem telemetry_eq (i : Identity) {name : String} (known : name ∈ thermostatNames) :
    (∃ b, Topic.telemetry i none (some name) topicRoom = .ok b ∧
      b.written = utf8 (telemetryTopic i name) ∧
      (utf8 (telemetryTopic i name)).length ≤ Topic.capacity) ∨
    Topic.telemetry i none (some name) topicRoom = .error .bufferTooSmall ∧
      Topic.capacity < (utf8 (telemetryTopic i name)).length := by
  have hname : some name ≠ some "" := by
    simpa using Thermostat.ne_of_mem known (by decide)
  unfold Topic.telemetry
  rw [if_neg hname, utf8_telemetryTopic]
  exact fill_topicRoom _

def telemetryMessage (i : Identity) (t : Thermostat) : Message :=
  ⟨telemetryTopic i t.name, telemetryText t.current, .atMostOnce, none⟩

/-- The temperature is a number that can be written, to a topic that has room. -/
def Telling (i : Identity) (t : Thermostat) : Prop :=
  (utf8 (telemetryTopic i t.name)).length ≤ Topic.capacity ∧ t.current.isFinite = true

theorem compose_of_ok {α : Type} {action : Writer.Action α} {a : α} {w : Writer}
    (h : action payloadRoom = .ok a w) (c : Controller) :
    compose action c = .ok (a, w.bytes) c := by
  rw [compose, h]
  rfl

theorem compose_of_error {α : Type} {action : Writer.Action α} {e : Error} {w : Writer}
    (h : action payloadRoom = .error e w) (c : Controller) :
    compose action c = .error (.device e) c := by
  rw [compose, h]
  rfl

theorem sendTelemetryOf_eq (t : Thermostat) (c : Controller) :
    sendTelemetryOf t c =
      (liftExcept (Topic.telemetry c.identity none (some t.name) topicRoom) >>= fun topic =>
        compose t.writeTelemetry >>= fun made => publish (.ok topic) made.2) c := rfl

theorem sendTelemetryOf_of_topic {t : Thermostat} {b : Buffer}
    (h : Topic.telemetry c.identity none (some t.name) topicRoom = .ok b) :
    sendTelemetryOf t c =
      (compose t.writeTelemetry >>= fun made => publish (.ok b) made.2) c := by
  have hlift : liftExcept (Except.ok b : Except Error Buffer) = pure b := rfl
  rw [sendTelemetryOf_eq, h, hlift, pure_bind]

structure Sends (c c' : Controller) (messages : List Message) : Prop where
  published : Published c c' messages
  identity : c'.identity = c.identity
  connected : Connected c'

theorem sendTelemetryOf_telling (connected : Connected c) {t : Thermostat}
    (known : t.name ∈ thermostatNames) (telling : Telling c.identity t) :
    ∃ c', sendTelemetryOf t c = .ok () c' ∧ Sends c c' [telemetryMessage c.identity t] := by
  obtain ⟨hroom, hfinite⟩ := telling
  rcases telemetry_eq c.identity known with ⟨b, htopic, hwritten, -⟩ | ⟨-, hover⟩
  swap
  · exact absurd hroom (Nat.not_le.2 hover)
  obtain ⟨w, hwrite, hbytes⟩ := Thermostat.writeTelemetry_runs hfinite
  have hpayload := Nat.le_trans (Thermostat.length_telemetryText t.current)
    (show 512 ≤ Mqtt.payloadCapacity by decide)
  obtain ⟨link, p, carries, hpublish, hsent, haccepts⟩ :=
    Mqtt.Client.publish_ok_of_accepts hroom hpayload connected
  refine ⟨{ c with client := { c.client with transport := link } }, ?_,
    ⟨.one carries hsent, rfl, haccepts⟩⟩
  rw [← hwritten, ← hbytes] at hpublish
  rw [sendTelemetryOf_of_topic htopic, bind_of_ok (compose_of_ok hwrite c)]
  change onLink (Mqtt.Client.publish b.written w.bytes .atMostOnce) c = _
  rw [onLink, hpublish]

theorem sendTelemetryOf_silent {t : Thermostat} (known : t.name ∈ thermostatNames)
    (silent : ¬ Telling c.identity t) : ∃ e, sendTelemetryOf t c = .error e c := by
  rcases telemetry_eq c.identity known with ⟨b, htopic, hwritten, hroom⟩ | ⟨htopic, -⟩
  · cases hwrite : t.writeTelemetry payloadRoom with
    | error e w =>
      refine ⟨.device e, ?_⟩
      rw [sendTelemetryOf_of_topic htopic, bind_of_error (compose_of_error hwrite c)]
    | ok u w => exact absurd ⟨hroom, Thermostat.finite_of_writeTelemetry hwrite⟩ silent
  · refine ⟨.device .bufferTooSmall, ?_⟩
    rw [sendTelemetryOf_eq, htopic]
    rfl

theorem forM_telling {ts : List Thermostat} (connected : Connected c)
    (known : ∀ t ∈ ts, t.name ∈ thermostatNames) (telling : ∀ t ∈ ts, Telling c.identity t) :
    ∃ c', ts.forM sendTelemetryOf c = .ok () c' ∧
      Sends c c' (ts.map (telemetryMessage c.identity)) := by
  induction ts generalizing c with
  | nil => exact ⟨c, rfl, .nothing rfl, rfl, connected⟩
  | cons t ts ih =>
    obtain ⟨hfirst, hmore⟩ := List.forall_mem_cons.1 known
    obtain ⟨htelling, htellings⟩ := List.forall_mem_cons.1 telling
    obtain ⟨c1, hok, hsends⟩ := sendTelemetryOf_telling connected hfirst htelling
    rw [← hsends.identity] at htellings
    obtain ⟨c2, hok', hsends'⟩ := ih hsends.connected hmore htellings
    refine ⟨c2, (forM_cons_of_ok hok).trans hok', ?_, hsends'.identity.trans hsends.identity,
      hsends'.connected⟩
    rw [List.map_cons, ← List.singleton_append]
    rw [hsends.identity] at hsends'
    exact hsends.published.trans hsends'.published

theorem forM_silent {ts : List Thermostat} (connected : Connected c)
    (known : ∀ t ∈ ts, t.name ∈ thermostatNames) (silent : ∃ t ∈ ts, ¬ Telling c.identity t) :
    ∃ e c', ts.forM sendTelemetryOf c = .error e c' := by
  induction ts generalizing c with
  | nil => simp at silent
  | cons t ts ih =>
    obtain ⟨hfirst, hmore⟩ := List.forall_mem_cons.1 known
    by_cases htelling : Telling c.identity t
    · obtain ⟨c1, hok, hsends⟩ := sendTelemetryOf_telling connected hfirst htelling
      have hlater : ∃ t ∈ ts, ¬ Telling c1.identity t := by
        obtain ⟨t', ht', hsilent⟩ := silent
        rw [hsends.identity]
        rcases List.mem_cons.1 ht' with rfl | ht'
        · exact absurd htelling hsilent
        · exact ⟨t', ht', hsilent⟩
      obtain ⟨e, c2, herror⟩ := ih hsends.connected hmore hlater
      exact ⟨e, c2, (forM_cons_of_ok hok).trans herror⟩
    · obtain ⟨e, herror⟩ := sendTelemetryOf_silent hfirst htelling
      refine ⟨e, c, ?_⟩
      exact forM_cons_of_error herror

structure Serving (identity : Identity) (Q : Thermostat → Prop) (c : Controller) : Prop where
  equipped : Equipped c
  connected : Connected c
  identity : c.identity = identity
  each : ∀ t ∈ c.thermostats, Q t

section Serving

variable {Q : Thermostat → Prop}

theorem Serving.replace (h : Serving identity Q c) {t : Thermostat} (ht : Q t) :
    Serving identity Q (c.replace t) where
  equipped := h.equipped.replace t
  connected := h.connected
  identity := h.identity
  each t' ht' := (mem_replace ht').elim (h.each t') fun hsame => hsame ▸ ht

theorem stable_serving (identity : Identity) (Q : Thermostat → Prop) :
    Stable (Serving identity Q) (fun _ => Serving identity Q) where
  fails _ _ h := h
  publishes topic payload := maintains_onLink
    (fun _ h => ⟨h.equipped, Mqtt.Client.publish_accepts topic payload h.connected, h.identity,
      h.each⟩)
    fun _ _ h => h
  counts _ _ h := ⟨h.equipped, h.connected, h.identity, h.each⟩
  reboots _ h := ⟨h.equipped, h.connected, h.identity, h.each⟩

theorem serving_sendHighestOf (hreported : ∀ t, Q t → Q t.reported) (c : Controller)
    (h : Serving identity Q c) {t : Thermostat} (ht : t ∈ c.thermostats) :
    Maintains (Serving identity Q) (fun _ => Serving identity Q) (sendHighestOf t) := by
  have stable := stable_serving identity Q
  refine maintains_of_eq fun c' h' => ?_
  rcases sendHighestOf_cases (h.equipped.known ht) c' with hnone | ⟨e, herror⟩ | hreport
  · exact ⟨pure (), c', h', maintains_pure (), hnone⟩
  · exact ⟨throw (.device e), c', h', stable.throw e, herror⟩
  · exact ⟨report _, c'.replace t.reported, h'.replace (hreported t (h.each t ht)),
      stable.report _, hreport⟩

/-- A target that the property is for a thermostat keeps `Q`. -/
theorem takes_serving {p : Twin.Property}
    (hset : ∀ t target, p.component = some t.name → p.name.isText targetName = true →
      p.value.float = .ok target → Q t → Q (t.setTemperature target)) :
    Takes (Serving identity Q) p := by
  intro c name t version h component thermostat
  have ht := h.each t (List.mem_of_find?_eq_some thermostat)
  refine h.replace ?_
  rcases update_thermostat t p.name p.value version payloadRoom with hsame | ⟨named, v, hv, heq⟩
  · rw [hsame]
    exact ht
  · rw [heq]
    rw [← thermostat?_name thermostat] at component
    exact hset t v component named hv ht

theorem serving_after (hreported : ∀ t, Q t → Q t.reported) {calls : List Call}
    (hset : ∀ call ∈ calls, ∀ p ∈ call.properties, ∀ t target, p.component = some t.name →
      p.name.isText targetName = true → p.value.float = .ok target → Q t →
      Q (t.setTemperature target))
    (h : Serving identity Q c) : Serving identity Q (after calls c) := by
  induction calls using List.reverseRecOn with
  | nil => exact h
  | append_singleton calls call ih =>
    rw [after_concat]
    have hbefore := ih fun earlier hearlier => hset earlier (List.mem_append_left [call] hearlier)
    have hcall := hset call (List.mem_append_right calls (List.mem_singleton_self call))
    exact (maintains_call (stable_serving identity Q)
      (fun c hc t ht => serving_sendHighestOf hreported c hc ht)
      fun p hp => takes_serving (hcall p hp)).ends hbefore

end Serving

/-- If the property is a target of a thermostat, it is a finite number. -/
def InRange (p : Twin.Property) : Prop :=
  ∀ name ∈ thermostatNames, p.component = some name → p.name.isText targetName = true →
    ∀ target, p.value.float = .ok target → target.isFinite = true

theorem start_serving (identity : Identity) {client : Mqtt.Client}
    (accepts : ∀ n, client.transport.Accepts n) {Q : Thermostat → Prop}
    (each : ∀ name ∈ thermostatNames, Q (.start name startTemperature)) :
    Serving identity Q (start identity client) where
  equipped := rfl
  connected := accepts
  identity := rfl
  each t ht := by
    obtain ⟨name, hname, rfl⟩ := List.mem_map.1 ht
    exact each name hname

theorem finite_after (identity : Identity) {client : Mqtt.Client}
    (accepts : ∀ n, client.transport.Accepts n) (calls : List Call)
    (range : ∀ call ∈ calls, ∀ p ∈ call.properties, InRange p) :
    ∀ t ∈ (after calls (start identity client)).thermostats, t.current.isFinite = true := by
  let Q (t : Thermostat) : Prop := t.name ∈ thermostatNames ∧ t.current.isFinite = true
  have hwarm : startTemperature.isFinite = true := by decide +kernel
  have hstart : Serving identity Q (start identity client) :=
    start_serving identity accepts fun name hname => ⟨hname, hwarm⟩
  have hafter := serving_after (fun _ ht => ht) (fun call hcall p hp t target component named value
    ht => ⟨ht.1, range call hcall p hp t.name ht.1 component named target value⟩) hstart
  exact fun t ht => (hafter.each t ht).2

/-- Whatever a device has been asked to do, its telemetry is sent just where each topic has room and
each temperature is finite. It is one message for each thermostat, in order. The temperatures are
finite if the targets that were received are, and then a device with a name of at most 128 bytes and
no module sends its telemetry. -/
theorem telemetry_sent_iff (identity : Identity) {client : Mqtt.Client}
    (accepts : ∀ n, client.transport.Accepts n) (calls : List Call) :
    let c := after calls (start identity client)
    let result := outcome (sendTelemetry c)
    (result.1 = .ok () ↔ ∀ t ∈ c.thermostats, Telling identity t) ∧
    (result.1 = .ok () →
      Published c result.2 (c.thermostats.map (telemetryMessage identity))) ∧
    c.thermostats.map Thermostat.name = thermostatNames ∧
    ((∀ call ∈ calls, ∀ p ∈ call.properties, InRange p) →
      (∀ t ∈ c.thermostats, t.current.isFinite = true) ∧
      (identity.moduleId = none → (utf8 identity.deviceId).length ≤ 128 →
        result.1 = .ok ())) := by
  have hserving : Serving identity (fun _ => True) (after calls (start identity client)) :=
    serving_after (fun _ _ => trivial) (fun _ _ _ _ _ _ _ _ _ _ => trivial)
      (start_serving identity accepts fun _ _ => trivial)
  have hfinite := finite_after identity accepts calls
  generalize after calls (start identity client) = c at hserving hfinite
  have known : ∀ t ∈ c.thermostats, t.name ∈ thermostatNames :=
    fun _ ht => hserving.equipped.known ht
  have hloop : sendTelemetry c = c.thermostats.forM sendTelemetryOf c := rfl
  have hidentity := hserving.identity
  have hrange (range : ∀ call ∈ calls, ∀ p ∈ call.properties, InRange p)
      (hmodule : identity.moduleId = none) (hdevice : (utf8 identity.deviceId).length ≤ 128) :
      ∀ t ∈ c.thermostats, Telling identity t :=
    fun t ht => ⟨length_telemetryTopic hmodule hdevice (known t ht), hfinite range t ht⟩
  dsimp only
  rw [hloop]
  by_cases telling : ∀ t ∈ c.thermostats, Telling identity t
  · rw [← hidentity] at telling
    obtain ⟨c', hok, hsends⟩ := forM_telling hserving.connected known telling
    rw [hidentity] at telling hsends
    rw [hok]
    exact ⟨⟨fun _ => telling, fun _ => rfl⟩, fun _ => hsends.published, hserving.equipped,
      fun range => ⟨hfinite range, fun _ _ => rfl⟩⟩
  · have silent : ∃ t ∈ c.thermostats, ¬ Telling c.identity t := by
      rw [hidentity]
      simpa using telling
    obtain ⟨e, c', herror⟩ := forM_silent hserving.connected known silent
    rw [herror]
    exact ⟨⟨nofun, fun h => absurd h telling⟩, nofun, hserving.equipped, fun range =>
      ⟨hfinite range, fun hmodule hdevice => absurd (hrange range hmodule hdevice) telling⟩⟩

def targetReceived : Call := .handle "now" targetTopic targetSection.document.text

theorem telemetry_after_target :
    (∀ n, (Mqtt.Client.fed []).transport.Accepts n) ∧
      let c := after [targetReceived] idle
      let result := outcome (sendTelemetry c)
      result.1 = .ok () ∧
        Published c result.2 (c.thermostats.map (telemetryMessage idle.identity)) := by
  have accepts : ∀ n, (Mqtt.Client.fed []).transport.Accepts n := Mqtt.Client.fed_accepts []
  have telling : ∀ t ∈ (after [targetReceived] idle).thermostats, Telling idle.identity t := by
    unfold Telling
    decide +kernel
  obtain ⟨hiff, hpublished, -⟩ := telemetry_sent_iff idle.identity accepts [targetReceived]
  have hsent := hiff.2 telling
  exact ⟨accepts, hsent, hpublished hsent⟩

def endlessTarget : Bytes := utf8 "\x7b\"thermostat1\":\x7b\"targetTemperature\":1e999\x7d\x7d"

theorem endless_target_silences :
    let c := after [.handle "now" targetTopic endlessTarget] idle
    let result := outcome (sendTelemetry c)
    result.1 = .error (.device .invalidArgument) ∧
      result.2.client.transport.sent = c.client.transport.sent := by
  decide +kernel

end HubDevice.Controller
