import HubDevice.Device.Controller
import HubDevice.Proofs.Device.Reports
import HubDevice.Proofs.Mqtt.Publishing
import HubDevice.Proofs.Text.Escaping

set_option autoImplicit false

namespace HubDevice.Controller
open Mqtt (outcome Packet Publishes Message)
open Thermostat (Asks Reports since)

/-- The status and the payload that a command is answered with. -/
inductive Responds (c : Controller) (now : String) (request : Topic.CommandRequest)
    (payload : Bytes) : Status → Bytes → Prop where
  | reboot (root : request.component = none) (command : request.command = "reboot") :
    Responds c now request payload ⟨200⟩ (utf8 "\x7b\x7d")
  | unknown (root : request.component = none) (command : request.command ≠ "reboot") :
    Responds c now request payload ⟨404⟩ (utf8 "\x7b\x7d")
  | elsewhere {name : String} (component : request.component = some name)
    (absent : ∀ t ∈ c.thermostats, t.name ≠ name) :
    Responds c now request payload ⟨404⟩ (utf8 "\x7b\x7d")
  | unsupported {name : String} {t : Thermostat} (component : request.component = some name)
    (thermostat : c.thermostat? name = some t) (command : request.command ≠ "getMaxMinReport") :
    Responds c now request payload ⟨404⟩ (utf8 "\x7b\x7d")
  | refused {name : String} {t : Thermostat} {e : Error}
    (component : request.component = some name) (thermostat : c.thermostat? name = some t)
    (command : request.command = "getMaxMinReport") (bad : since payload = .error e) :
    Responds c now request payload ⟨400⟩ (utf8 "\x7b\x7d")
  | report {name startTime : String} {t : Thermostat} {response : Bytes}
    (component : request.component = some name) (thermostat : c.thermostat? name = some t)
    (command : request.command = "getMaxMinReport") (good : since payload = .ok startTime)
    (asks : Asks payload startTime) (reports : Reports response t startTime now) :
    Responds c now request payload ⟨200⟩ response

theorem answerEmpty_eq (status : Status) :
    ∃ w, answerEmpty status payloadRoom = .ok status w ∧ w.bytes = utf8 "\x7b\x7d" := by
  have hwrites := Writer.item_writes [Thermostat.emptyObject] .start .value 0
  have hroom : payloadRoom.room = 512 := List.length_replicate
  obtain ⟨w, hok, hbytes, -⟩ := hwrites payloadRoom rfl rfl (by rw [hroom]; decide)
  refine ⟨w, ?_, hbytes⟩
  change (Writer.item [Thermostat.emptyObject] .value >>= fun _ => pure status) payloadRoom = _
  rw [bind_of_ok hok]
  rfl

theorem bytes_of_answerEmpty {status s : Status} {w : Writer}
    (h : answerEmpty status payloadRoom = .ok s w) : s = status ∧ w.bytes = utf8 "\x7b\x7d" := by
  obtain ⟨v, hv, hbytes⟩ := answerEmpty_eq status
  rw [hv] at h
  cases h
  exact ⟨rfl, hbytes⟩

variable {c : Controller} {now : String} {request : Topic.CommandRequest} {payload : Bytes}

theorem responds_of_process {name : String} {t : Thermostat} {status : Status} {w : Writer}
    (component : request.component = some name) (thermostat : c.thermostat? name = some t)
    (h : t.process now request.command payload payloadRoom = .ok status w) :
    Responds c now request payload status w.bytes := by
  unfold Thermostat.process at h
  by_cases command : request.command = Thermostat.reportCommand
  · rw [if_neg (Classical.not_not.2 command)] at h
    cases hsince : since payload with
    | ok startTime =>
      rw [hsince] at h
      obtain ⟨_, v, hreport, h⟩ := bind_eq_ok_state h
      cases h
      exact .report component thermostat command hsince (Thermostat.asks_of_since hsince)
        (Thermostat.reports_of_ok hreport)
    | error e =>
      rw [hsince] at h
      obtain ⟨rfl, hbytes⟩ := bytes_of_answerEmpty h
      rw [hbytes]
      exact .refused component thermostat command hsince
  · rw [if_pos command] at h
    obtain ⟨rfl, hbytes⟩ := bytes_of_answerEmpty h
    rw [hbytes]
    exact .unsupported component thermostat command

theorem responds_of_answer {status : Status} {w : Writer}
    (h : c.answer now request payload payloadRoom = .ok status w) :
    Responds c now request payload status w.bytes := by
  unfold answer at h
  cases component : request.component with
  | none =>
    rw [component, Option.bind_none] at h
    obtain ⟨rfl, hbytes⟩ := bytes_of_answerEmpty h
    rw [hbytes, asksReboot, component]
    by_cases command : request.command = "reboot"
    · rw [command]
      exact .reboot component command
    · have hreboot : (request.command == rebootCommand) = false := beq_false_of_ne command
      rw [hreboot]
      exact .unknown component command
  | some name =>
    rw [component, Option.bind_some] at h
    cases thermostat : c.thermostat? name with
    | some t =>
      rw [thermostat] at h
      exact responds_of_process component thermostat h
    | none =>
      rw [thermostat] at h
      obtain ⟨rfl, hbytes⟩ := bytes_of_answerEmpty h
      rw [hbytes, asksReboot, component]
      refine .elsewhere component fun t ht => ?_
      simpa using List.find?_eq_none.1 thermostat t ht

/-- The response to a reboot can always be written. -/
theorem asksReboot_of_error {e : Error} {w : Writer}
    (h : c.answer now request payload payloadRoom = .error e w) : asksReboot request = false := by
  refine Bool.eq_false_iff.2 fun hasks => ?_
  have component : request.component = none := by
    have hboth := hasks
    simp only [asksReboot, Bool.and_eq_true, Option.isNone_iff_eq_none] at hboth
    exact hboth.1
  unfold answer at h
  rw [component, Option.bind_none, hasks, if_pos rfl] at h
  obtain ⟨v, hv, -⟩ := answerEmpty_eq .ok
  dsimp only at h
  rw [hv] at h
  cases h

def responseTopic (requestId : String) (status : Status) : String :=
  "$iothub/methods/res/" ++ status.text ++ "/?$rid=" ++ requestId

theorem utf8_responseTopic (requestId : String) (status : Status) :
    utf8 (responseTopic requestId status) =
      utf8 "$iothub/methods/res/" ++ status.digits ++ utf8 "/?$rid=" ++ utf8 requestId := by
  have hdigits : utf8 status.text = status.digits := Decimal.utf8_text _
  unfold responseTopic
  rw [utf8_append _ requestId, utf8_append _ "/?$rid=", utf8_append _ status.text, hdigits]

theorem written_of_response {requestId : String} {status : Status} {room b : Buffer}
    (h : Topic.response requestId status room = .ok b) :
    b.written = room.written ++ utf8 (responseTopic requestId status) := by
  have hflatten (s t u v : Bytes) : [s, t, u, v].flatten = s ++ t ++ u ++ v := by simp
  unfold Topic.response at h
  split at h
  · cases h
  · rw [Buffer.written_of_fill h, hflatten, utf8_responseTopic]

/-- What a publication leaves: a failure and the device as it was, or one more packet sent. -/
def Leaves (c : Controller) (topic : String) (payload : Bytes) :
    EStateM.Result Failure Controller Unit → Prop
  | .error _ c' => c' = c
  | .ok _ c' => c' = { c with client := c'.client } ∧ ∃ p : Packet,
      c'.client.transport.sent = c.client.transport.sent ++ p.bytes ∧
      p.header = 0x30 ∧ Publishes p.header p.body ⟨topic, payload, .atMostOnce, none⟩

theorem publish_leaves (haccepts : ∀ n, c.client.transport.Accepts n) (topic : String)
    (payload : Bytes) :
    Leaves c topic payload (onLink (Mqtt.Client.publish (utf8 topic) payload .atMostOnce) c) := by
  by_cases hlarge : Mqtt.topicCapacity < (utf8 topic).length ∨ Mqtt.payloadCapacity < payload.length
  · rw [onLink, Mqtt.Client.publish_tooLarge (by decide) hlarge]
    rfl
  · have htopic : (utf8 topic).length ≤ Mqtt.topicCapacity := by omega
    have hpayload : payload.length ≤ Mqtt.payloadCapacity := by omega
    have served : Mqtt.QoS.atMostOnce ≠ .exactlyOnce := by decide
    obtain ⟨t, hok, hsent⟩ := Mqtt.Client.publish_accepted served htopic hpayload (haccepts _)
    rw [onLink, hok]
    refine ⟨rfl, c.client.publicationPacket .atMostOnce htopic hpayload, hsent, rfl, ?_⟩
    exact c.client.publishes_publication served htopic

theorem publish_response_leaves (haccepts : ∀ n, c.client.transport.Accepts n)
    (requestId : String) (status : Status) (payload : Bytes) :
    Leaves c (responseTopic requestId status) payload
      (publish (Topic.response requestId status topicRoom) payload c) := by
  cases hresponse : Topic.response requestId status topicRoom with
  | error e => rfl
  | ok b =>
    have hempty : topicRoom.written = [] := rfl
    have hwritten := written_of_response hresponse
    rw [hempty, List.nil_append] at hwritten
    change Leaves c _ _ (onLink (Mqtt.Client.publish b.written payload .atMostOnce) c)
    rw [hwritten]
    exact publish_leaves haccepts _ payload

theorem handleCommand_eq (c : Controller) (now : String) (request : Topic.CommandRequest)
    (payload : Bytes) :
    handleCommand now request payload c =
      match c.answer now request payload payloadRoom with
      | .error e _ => .error (.device e) c
      | .ok status w =>
        publish (Topic.response request.requestId status topicRoom) w.bytes
          { c with rebooting := c.rebooting || asksReboot request } := by
  change EStateM.bind (compose (c.answer now request payload)) (fun made => do
      if asksReboot request then modify fun c => { c with rebooting := true }
      publish (Topic.response request.requestId made.1 topicRoom) made.2) c = _
  unfold EStateM.bind compose
  cases c.answer now request payload payloadRoom with
  | error e _ => rfl
  | ok status w =>
    by_cases hreboot : asksReboot request = true
    · rw [hreboot, Bool.or_true]
      rfl
    · rw [Bool.eq_false_iff.2 hreboot, Bool.or_false]
      rfl

/-- A command is answered by one packet with its status and payload, or nothing is sent. Only a
reboot of the device is remembered. -/
theorem command_answered (c : Controller) (now : String) {topic : String} (payload : Bytes)
    (hrequest : Topic.commandRequest? topic = some request)
    (haccepts : ∀ n, c.client.transport.Accepts n) :
    let handled := outcome (handle now topic payload c)
    (handled.1 = .ok () → ∃ (status : Status) (response : Bytes) (p : Packet),
      Responds c now request payload status response ∧
      handled.2.client.transport.sent = c.client.transport.sent ++ p.bytes ∧
      p.header = 0x30 ∧ Publishes p.header p.body
        ⟨responseTopic request.requestId status, response, .atMostOnce, none⟩) ∧
    (∀ e, handled.1 = .error e →
      handled.2.client.transport.sent = c.client.transport.sent) ∧
    handled.2.thermostats = c.thermostats ∧ handled.2.requestId = c.requestId ∧
    (handled.2.rebooting = true ↔
      c.rebooting = true ∨ request.component = none ∧ request.command = "reboot") := by
  have hhandle : handle now topic payload c = handleCommand now request payload c := by
    unfold handle
    rw [hrequest]
  have hasks : (c.rebooting || asksReboot request) = true ↔
      c.rebooting = true ∨ request.component = none ∧ request.command = "reboot" := by
    simp [asksReboot, rebootCommand]
  rw [hhandle, handleCommand_eq]
  cases hanswer : c.answer now request payload payloadRoom with
  | error e w =>
    refine ⟨nofun, fun _ _ => rfl, rfl, rfl, ?_⟩
    rw [← hasks, asksReboot_of_error hanswer, Bool.or_false]
    rfl
  | ok status w =>
    have hresponds := responds_of_answer hanswer
    let asked : Controller := { c with rebooting := c.rebooting || asksReboot request }
    have hleaves := publish_response_leaves (c := asked) haccepts request.requestId status w.bytes
    dsimp only
    generalize publish (Topic.response request.requestId status topicRoom) w.bytes _ = result
      at hleaves ⊢
    cases result with
    | error e c' =>
      cases hleaves
      exact ⟨nofun, fun _ _ => rfl, rfl, rfl, hasks⟩
    | ok _ c' =>
      obtain ⟨hframe, p, hsent, hheader, hpublishes⟩ := hleaves
      refine ⟨fun _ => ⟨status, w.bytes, p, hresponds, hsent, hheader, hpublishes⟩, nofun, ?_⟩
      change c'.thermostats = _ ∧ c'.requestId = _ ∧ (c'.rebooting = true ↔ _)
      rw [hframe]
      exact ⟨rfl, rfl, hasks⟩

def idle : Controller := .start ⟨"hub", "d", none, none, none⟩ (.fed [])

def reportTopic : String := "$iothub/methods/POST/thermostat1*getMaxMinReport/?$rid=7"

def targetTopic : String := "$iothub/twin/PATCH/properties/desired/?$version=7"

theorem bad_report_answered :
    Topic.commandRequest? reportTopic = some ⟨some "thermostat1", "getMaxMinReport", "7"⟩ ∧
      (∀ n, idle.client.transport.Accepts n) ∧
      ∃ (status : Status) (response : Bytes) (p : Packet),
        Responds idle "now" ⟨some "thermostat1", "getMaxMinReport", "7"⟩ (utf8 "5") status
          response ∧
        (outcome (handle "now" reportTopic (utf8 "5") idle)).2.client.transport.sent = p.bytes ∧
        p.header = 0x30 ∧ Publishes p.header p.body
          ⟨responseTopic "7" status, response, .atMostOnce, none⟩ := by
  have hrequest : Topic.commandRequest? reportTopic =
      some ⟨some "thermostat1", "getMaxMinReport", "7"⟩ := by decide +kernel
  have haccepts : ∀ n, idle.client.transport.Accepts n := Mqtt.Client.fed_accepts []
  have hok : (outcome (handle "now" reportTopic (utf8 "5") idle)).1 = .ok () := by
    have h : (match (outcome (handle "now" reportTopic (utf8 "5") idle)).1 with
        | .ok _ => true
        | .error _ => false) = true := by
      decide +kernel
    split at h
    · next hresult => exact hresult
    · cases h
  obtain ⟨hanswered, -⟩ := command_answered idle "now" (utf8 "5") hrequest haccepts
  obtain ⟨status, response, p, hresponds, hsent, hheader, hpublishes⟩ := hanswered hok
  have hempty : idle.client.transport.sent = [] := rfl
  rw [hempty, List.nil_append] at hsent
  exact ⟨hrequest, haccepts, status, response, p, hresponds, hsent, hheader, hpublishes⟩

end HubDevice.Controller
