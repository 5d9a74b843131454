import HubDevice.Proofs.Device.Commands
import HubDevice.Proofs.Device.Payloads
import HubDevice.Proofs.Device.Posting
import HubDevice.Proofs.Topic.Commands

set_option autoImplicit false

namespace HubDevice

theorem length_utf8_le_of_infix {s t : String} (h : s.toList <:+: t.toList) :
    (utf8 s).length ≤ (utf8 t).length := by
  obtain ⟨before, behind, happend⟩ := h
  rw [utf8, utf8, ← happend, List.flatMap_append, List.flatMap_append, List.length_append,
    List.length_append]
  omega

theorem length_utf8_pos {s : String} (h : s ≠ "") : 0 < (utf8 s).length := by
  obtain ⟨c, cs, hs⟩ := List.exists_cons_of_ne_nil (mt String.toList_eq_nil_iff.1 h)
  have hfirst := c.utf8Size_pos
  rw [utf8, hs, List.flatMap_cons, List.length_append, String.length_utf8EncodeChar]
  omega

namespace Topic

theorem length_method {topic name requestId : String} (h : IsMethod topic name requestId) :
    28 + (utf8 name).length + (utf8 requestId).length ≤ (utf8 topic).length := by
  obtain ⟨query, rfl, before, behind, hquery, -, -⟩ := h.form
  have hstem : (utf8 "$iothub/methods/POST/").length = 21 := by decide +kernel
  have hmark : (utf8 "/?").length = 2 := by decide
  have hkey : (utf8 "$rid=").length = 5 := by decide
  have hpair : ("$rid=" ++ requestId).toList <:+: query.toList := by
    rw [hquery, String.toList_append]
    exact Split.infix_join '&' before behind _
  have hlength := length_utf8_le_of_infix hpair
  rw [utf8_append, List.length_append, hkey] at hlength
  rw [utf8_append, utf8_append, utf8_append, List.length_append, List.length_append,
    List.length_append, hstem, hmark]
  omega

/-- In a topic of at most 256 bytes only a command of one byte leaves room for an identifier of more
than 226. -/
theorem long_requestId {topic : String} {request : CommandRequest}
    (h : commandRequest? topic = some request) (htopic : (utf8 topic).length ≤ 256)
    (long : 226 < (utf8 request.requestId).length) :
    request.component = none ∧ (utf8 request.command).length = 1 := by
  obtain ⟨name, hmethod, haddresses⟩ := commandRequest?_eq_some_iff.1 h
  have hlength := length_method hmethod
  have hname := length_utf8_pos hmethod.named
  generalize hcomponent : request.component = component at haddresses ⊢
  generalize hcommand : request.command = command at haddresses ⊢
  cases haddresses with
  | device _ => exact ⟨rfl, by omega⟩
  | @component component _ named named' _ =>
    have hmark : (utf8 "*").length = 1 := by decide
    have hfront := length_utf8_pos named
    have hback := length_utf8_pos named'
    rw [utf8_append, utf8_append, List.length_append, List.length_append, hmark] at hlength
    omega

end Topic

namespace Controller
open Mqtt (outcome)
open Thermostat (since)

variable {c : Controller} {now : String} {request : Topic.CommandRequest} {payload : Bytes}

/-- If a thermostat is asked for its report, the numbers for it are finite. -/
def Answerable (c : Controller) (request : Topic.CommandRequest) (payload : Bytes) : Prop :=
  ∀ name t startTime, request.component = some name → c.thermostat? name = some t →
    request.command = "getMaxMinReport" → since payload = .ok startTime →
    t.highest.isFinite = true ∧ t.lowest.isFinite = true ∧ t.average.isFinite = true

theorem answerable_of_answer {status : Status} {w : Writer}
    (h : c.answer now request payload payloadRoom = .ok status w) :
    Answerable c request payload := by
  intro name t startTime component thermostat command good
  unfold answer Thermostat.process at h
  rw [component, Option.bind_some, thermostat] at h
  dsimp only at h
  have hasks : ¬ request.command ≠ Thermostat.reportCommand := Classical.not_not.2 command
  rw [if_neg hasks, good] at h
  obtain ⟨_, v, hreport, -⟩ := bind_eq_ok_state h
  obtain ⟨highest, lowest, average⟩ := Thermostat.writeReport_finite hreport
  exact ⟨(Binary.isFinite_iff _).2 highest, (Binary.isFinite_iff _).2 lowest,
    (Binary.isFinite_iff _).2 average⟩

theorem answerEmpty_fits (status : Status) :
    ∃ s w, answerEmpty status payloadRoom = .ok s w ∧ w.bytes.length ≤ 512 := by
  obtain ⟨w, hok, hbytes⟩ := answerEmpty_eq status
  exact ⟨status, w, hok, by rw [hbytes]; decide⟩

theorem answer_fits (htime : (utf8 now).length ≤ 30) (h : Answerable c request payload) :
    ∃ status w, c.answer now request payload payloadRoom = .ok status w ∧
      w.bytes.length ≤ 512 := by
  unfold answer
  cases component : request.component with
  | none => exact answerEmpty_fits _
  | some name =>
    rw [Option.bind_some]
    cases thermostat : c.thermostat? name with
    | none => exact answerEmpty_fits _
    | some t =>
      dsimp only
      unfold Thermostat.process
      by_cases command : request.command = Thermostat.reportCommand
      · rw [if_neg (Classical.not_not.2 command)]
        cases good : since payload with
        | error e => exact answerEmpty_fits _
        | ok startTime =>
          obtain ⟨highest, lowest, average⟩ :=
            h name t startTime component thermostat command good
          obtain ⟨_, _, -, -, -, hstart, -⟩ := Thermostat.asks_of_since good
          obtain ⟨report, haction, hfits⟩ :=
            Thermostat.exists_fitting_report highest lowest average hstart htime
          obtain ⟨w, hok, hbytes⟩ := report.runs hfits
          refine ⟨.ok, w, ?_, by rw [hbytes]; exact hfits⟩
          rw [haction] at hok
          exact bind_of_ok hok
      · rw [if_pos command]
        exact answerEmpty_fits _

theorem Responds.digits {status : Status} {response : Bytes}
    (h : Responds c now request payload status response) : status.digits.length = 3 := by
  cases h <;> decide

theorem length_responseTopic (requestId : String) {status : Status}
    (digits : status.digits.length = 3) :
    (utf8 (responseTopic requestId status)).length = 30 + (utf8 requestId).length := by
  have hstem : (utf8 "$iothub/methods/res/").length = 20 := by decide +kernel
  have hmark : (utf8 "/?$rid=").length = 7 := by decide
  rw [utf8_responseTopic, List.length_append, List.length_append, List.length_append, hstem, hmark,
    digits]

theorem response_eq {requestId : String} (hid : requestId ≠ "") (status : Status) :
    (∃ b, Topic.response requestId status topicRoom = .ok b ∧
      b.written = utf8 (responseTopic requestId status) ∧
      (utf8 (responseTopic requestId status)).length ≤ Topic.capacity) ∨
    Topic.response requestId status topicRoom = .error .bufferTooSmall ∧
      Topic.capacity < (utf8 (responseTopic requestId status)).length := by
  have hflatten : [utf8 "$iothub/methods/res/", status.digits, utf8 "/?$rid=",
      utf8 requestId].flatten = utf8 (responseTopic requestId status) := by
    simp [utf8_responseTopic]
  unfold Topic.response
  rw [if_neg (by simpa using hid), ← hflatten]
  exact fill_topicRoom _

theorem publish_response {requestId : String} {response : Bytes} {status : Status}
    (hid : requestId ≠ "") (digits : status.digits.length = 3) (hresponse : response.length ≤ 512)
    (connected : Connected c) :
    if (utf8 requestId).length ≤ 226 then
      ∃ c', publish (Topic.response requestId status topicRoom) response c = .ok () c' ∧
        Published c c' [⟨responseTopic requestId status, response, .atMostOnce, none⟩]
    else publish (Topic.response requestId status topicRoom) response c =
      .error (.device .bufferTooSmall) c := by
  have hlength := length_responseTopic requestId digits
  rcases response_eq hid status with ⟨b, hok, hwritten, hfits⟩ | ⟨herror, hover⟩
  · rw [hlength, Topic.capacity] at hfits
    rw [if_pos (by omega), hok]
    have htopic : (utf8 (responseTopic requestId status)).length ≤ Mqtt.topicCapacity := by
      rw [hlength, Mqtt.topicCapacity]
      exact hfits
    have hpayload : response.length ≤ Mqtt.payloadCapacity := Nat.le_trans hresponse (by decide)
    obtain ⟨t, p, carries, hpublish, hsent, -⟩ :=
      Mqtt.Client.publish_ok_of_accepts htopic hpayload connected
    refine ⟨{ c with client := { c.client with transport := t } }, ?_, .one carries hsent⟩
    change onLink (Mqtt.Client.publish b.written response .atMostOnce) c = _
    rw [hwritten, onLink, hpublish]
  · rw [hlength, Topic.capacity] at hover
    rw [if_neg (by omega), herror]
    rfl

/-- A command is answered just where its identifier leaves room for the topic of the response, and
the numbers of the report that it may ask for are finite. Then one response is published, and
otherwise nothing. In a topic of at most 256 bytes an identifier can be too long only for a command
of one byte. -/
theorem answered_iff (now : String) {topic : String} (payload : Bytes)
    (hrequest : Topic.commandRequest? topic = some request) (connected : Connected c)
    (htime : (utf8 now).length ≤ 30) :
    let handled := outcome (handle now topic payload c)
    (handled.1 = .ok () ↔
      (utf8 request.requestId).length ≤ 226 ∧ Answerable c request payload) ∧
    (handled.1 = .ok () → ∃ (status : Status) (response : Bytes),
      Responds c now request payload status response ∧ Published c handled.2
        [⟨responseTopic request.requestId status, response, .atMostOnce, none⟩]) ∧
    (∀ e, handled.1 = .error e → Published c handled.2 []) ∧
    ((utf8 topic).length ≤ 256 → 226 < (utf8 request.requestId).length →
      request.component = none ∧ (utf8 request.command).length = 1) := by
  have hhandle : handle now topic payload c = handleCommand now request payload c := by
    unfold handle
    rw [hrequest]
  obtain ⟨name, hmethod, -⟩ := Topic.commandRequest?_eq_some_iff.1 hrequest
  have hlong := Topic.long_requestId hrequest
  dsimp only
  rw [hhandle, handleCommand_eq]
  by_cases answerable : Answerable c request payload
  · obtain ⟨status, w, hanswer, hfits⟩ := answer_fits htime answerable
    have hresponds := responds_of_answer hanswer
    let asked : Controller := { c with rebooting := c.rebooting || asksReboot request }
    have hpublish := publish_response (c := asked) hmethod.identified hresponds.digits hfits
      connected
    rw [hanswer]
    dsimp only
    split at hpublish
    · next hroom =>
      obtain ⟨c', hok, hpublished⟩ := hpublish
      rw [hok]
      exact ⟨⟨fun _ => ⟨hroom, answerable⟩, fun _ => rfl⟩,
        fun _ => ⟨status, w.bytes, hresponds, hpublished⟩, nofun, hlong⟩
    · next hroom =>
      rw [hpublish]
      exact ⟨⟨nofun, fun h => absurd h.1 hroom⟩, nofun, fun _ _ => .nothing rfl, hlong⟩
  · cases hanswer : c.answer now request payload payloadRoom with
    | ok status w => exact absurd (answerable_of_answer hanswer) answerable
    | error e w =>
      exact ⟨⟨nofun, fun h => absurd h.2 answerable⟩, nofun, fun _ _ => .nothing rfl, hlong⟩

theorem report_answered :
    Topic.commandRequest? reportTopic = some ⟨some "thermostat1", "getMaxMinReport", "7"⟩ ∧
      Connected idle ∧ (utf8 "now").length ≤ 30 ∧
      ∃ (status : Status) (response : Bytes),
        Responds idle "now" ⟨some "thermostat1", "getMaxMinReport", "7"⟩ (utf8 "\"2024\"") status
          response ∧
        Published idle (outcome (handle "now" reportTopic (utf8 "\"2024\"") idle)).2
          [⟨responseTopic "7" status, response, .atMostOnce, none⟩] := by
  have hrequest : Topic.commandRequest? reportTopic =
      some ⟨some "thermostat1", "getMaxMinReport", "7"⟩ := by decide +kernel
  have connected : Connected idle := Mqtt.Client.fed_accepts []
  have htime : (utf8 "now").length ≤ 30 := by decide
  have answerable : Answerable idle ⟨some "thermostat1", "getMaxMinReport", "7"⟩
      (utf8 "\"2024\"") := by
    have finite : ∀ t ∈ idle.thermostats, t.highest.isFinite = true ∧ t.lowest.isFinite = true ∧
        t.average.isFinite = true := by decide +kernel
    intro name t startTime _ thermostat _ _
    exact finite t (List.mem_of_find?_eq_some thermostat)
  obtain ⟨hiff, hanswered, -⟩ := answered_iff "now" (utf8 "\"2024\"") hrequest connected htime
  exact ⟨hrequest, connected, htime, hanswered (hiff.2 ⟨by decide, answerable⟩)⟩

def largeTarget : Bytes := utf8 "\x7b\"thermostat1\":\x7b\"targetTemperature\":1e308\x7d\x7d"

/-- Two targets are taken over and acknowledged, and then there is no finite average. -/
theorem overflow_unanswered :
    let first := outcome (handle "now" targetTopic largeTarget idle)
    let second := outcome (handle "now" targetTopic largeTarget first.2)
    let third := outcome (handle "now" reportTopic (utf8 "\"2024\"") second.2)
    first.1 = .ok () ∧ second.1 = .ok () ∧ third.1 = .error (.device .invalidArgument) ∧
      third.2.client.transport.sent = second.2.client.transport.sent := by
  decide +kernel

end Controller
end HubDevice
