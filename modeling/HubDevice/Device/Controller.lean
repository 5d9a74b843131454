import HubDevice.Device.Failure
import HubDevice.Device.Information
import HubDevice.Device.Thermostat
import HubDevice.Mqtt.Client
import HubDevice.Topic.Incoming
import HubDevice.Topic.Outgoing
import HubDevice.Twin.Walk

set_option autoImplicit false

/-!
# The temperature controller

A device with two thermostats and its own description. It subscribes to commands and to the twin,
reports, and answers what it receives. What an action changed before it failed stays changed: request
identifiers are not given out twice, and a thermostat keeps a target that could not be acknowledged.
-/
namespace HubDevice

structure Controller where
  identity : Identity
  client : Mqtt.Client
  thermostats : List Thermostat
  /-- The number of the last request. -/
  requestId : UInt32 := 0
  rebooting : Bool := false

namespace Controller

abbrev Action := EStateM Failure Controller

def modelId : String := "dtmi:com:example:TemperatureController;1"

def thermostatNames : List String := ["thermostat1", "thermostat2"]

def componentNames : List String := thermostatNames ++ [Information.componentName]

def rebootCommand : String := "reboot"

def startTemperature : Float := 22

def topicRoom : Buffer := .ofCapacity Topic.capacity

def payloadRoom : Writer := .ofCapacity 512

def start (identity : Identity) (client : Mqtt.Client) : Controller where
  identity
  client
  thermostats := thermostatNames.map (Thermostat.start · startTemperature)

def thermostat? (c : Controller) (name : String) : Option Thermostat :=
  c.thermostats.find? (·.name = name)

def replace (c : Controller) (t : Thermostat) : Controller :=
  { c with thermostats := c.thermostats.map fun old => if old.name = t.name then t else old }

def onLink {α : Type} (action : Mqtt.Client.Action α) : Action α := fun c =>
  match action c.client with
  | .ok a client => .ok a { c with client }
  | .error e client => .error (.link e) { c with client }

def liftExcept {α : Type} (result : Except Error α) : Action α :=
  match result with
  | .ok a => pure a
  | .error e => throw (.device e)

def compose {α : Type} (action : Writer.Action α) : Action (α × Bytes) :=
  match action payloadRoom with
  | .ok a w => pure (a, w.bytes)
  | .error e _ => throw (.device e)

def subscribe : Action Unit :=
  [Topic.methodFilter, Topic.twinPatchFilter, Topic.twinResponseFilter].forM fun filter =>
    onLink (Mqtt.Client.subscribe (utf8 filter) .atMostOnce)

def nextRequestId : Action String := do
  let requestId := (← get).requestId + 1
  modify fun c => { c with requestId }
  return Decimal.text requestId.toNat

def publish (topic : Except Error Buffer) (payload : Bytes) : Action Unit := do
  let topic ← liftExcept topic
  onLink (Mqtt.Client.publish topic.written payload .atMostOnce)

def requestTwin : Action Unit := do
  let requestId ← nextRequestId
  publish (Topic.twinGet requestId topicRoom) []

def report (patch : Bytes) : Action Unit := do
  let requestId ← nextRequestId
  publish (Topic.twinPatch requestId topicRoom) patch

def sendInformation : Action Unit := do
  let (_, patch) ← compose Information.write
  report patch

def sendHighestOf (t : Thermostat) : Action Unit := do
  if t.reportDue then
    match t.writeHighest payloadRoom with
    | (.ok _, t, w) =>
      modify (·.replace t)
      report w.bytes
    | (.error e, _, _) => throw (.device e)

def sendHighest : Action Unit := do
  (← get).thermostats.forM sendHighestOf

def sendTelemetryOf (t : Thermostat) : Action Unit := do
  let topic ← liftExcept (Topic.telemetry (← get).identity none (some t.name) topicRoom)
  let (_, payload) ← compose t.writeTelemetry
  publish (.ok topic) payload

def sendTelemetry : Action Unit := do
  (← get).thermostats.forM sendTelemetryOf

def asksReboot (request : Topic.CommandRequest) : Bool :=
  request.component.isNone && request.command == rebootCommand

def answerEmpty (status : Status) : Writer.Action Status := do
  Writer.raw Thermostat.emptyObject
  return status

/-- Writes the response to a command: a thermostat answers its own ones, the device the reboot. -/
def answer (c : Controller) (now : String) (request : Topic.CommandRequest) (payload : Bytes) :
    Writer.Action Status :=
  match request.component.bind c.thermostat? with
  | some t => t.process now request.command payload
  | none => answerEmpty (if asksReboot request then .ok else .notFound)

def handleCommand (now : String) (request : Topic.CommandRequest) (payload : Bytes) :
    Action Unit := do
  let (status, response) ← compose ((← get).answer now request payload)
  if asksReboot request then modify fun c => { c with rebooting := true }
  publish (Topic.response request.requestId status topicRoom) response

/-- Takes over a desired property of a thermostat and acknowledges it; others are left alone. -/
def accept (version : UInt32) (p : Twin.Property) : Action Unit := do
  match p.component.bind (← get).thermostat? with
  | none => pure ()
  | some t =>
    let (handled, t, w) := t.update p.name p.value version payloadRoom
    modify (·.replace t)
    if ← liftExcept handled then report w.bytes

def twinPayload? (response : Topic.TwinResponse) : Option Twin.Payload :=
  match response.answer with
  | .reported => none
  | .document => if response.status.isSuccess then some .document else none
  | .desired => if response.status.isSuccess then some .patch else none

/-- Takes over the desired properties in their order. Those before a fault in the payload count. -/
def handleTwin (response : Topic.TwinResponse) (payload : Bytes) : Action Unit := do
  match twinPayload? response with
  | none => pure ()
  | some kind =>
    let walk ← liftExcept (Twin.Walk.start payload kind componentNames)
    let (properties, walk') := walk.collect
    properties.forM (accept (walk.version.getD 0))
    match walk'.progress with
    | .failed e => throw (.device e)
    | _ => sendHighest

/-- Handles a message at the time `now`. One that is neither command nor twin answer is ignored. -/
def handle (now topic : String) (payload : Bytes) : Action Unit :=
  match Topic.commandRequest? topic, Topic.twinResponse? topic with
  | some request, _ => handleCommand now request payload
  | none, some response => handleTwin response payload
  | none, none => pure ()

end Controller

end HubDevice
