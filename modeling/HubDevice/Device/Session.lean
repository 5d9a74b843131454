import HubDevice.Device.Controller

set_option autoImplicit false

/-!
# A session of the temperature controller

The device reads its configuration, connects, introduces itself, asks for its twin, and then handles
what arrives until it is told to reboot. A message that cannot be handled does not end the session; a
failing link does.
-/
namespace HubDevice.Session

inductive Ending where
  | rebooted
  | failed (cause : Failure)
  /-- Nothing more has arrived, and the device goes on listening. -/
  | listening
  deriving DecidableEq, Repr

structure Outcome where
  ending : Ending
  /-- The endpoint that was called, if it came to that. -/
  remote : Option String := none
  /-- The connection, if there was one. -/
  transport : Option Mqtt.Transport := none

def keepAlive : UInt16 := 240

def options (identity : Identity) (credentials : Option Credentials) :
    Except Error Mqtt.Options := do
  let clientId ← identity.clientId (.ofCapacity 128)
  let userName ← identity.userName (.ofCapacity 256)
  let password ← match credentials with
    | none => pure none
    | some c => do
      let _ ← identity.textToSign c.expiry (.ofCapacity 256)
      some <$> identity.password c.signature c.expiry none (.ofCapacity 256)
  return {
    clientId := clientId.written
    keepAlive
    cleanSession := true
    userName := some userName.written
    password := password.map Buffer.written }

structure Plan where
  identity : Identity
  endpoint : String
  options : Mqtt.Options

def plan (entry : String → Option String) : Except Failure Plan := do
  let config ← (Config.ofEntries entry).mapError .config
  let identity ←
    (Identity.plugAndPlay config.hostname config.deviceId Controller.modelId none none).mapError
      .device
  let options ← (options identity config.credentials).mapError .device
  return { identity, endpoint := config.endpoint, options }

def introduce : Controller.Action Unit := do
  Controller.subscribe
  Controller.sendInformation
  Controller.requestTwin

def attempt (action : Controller.Action Unit) : Controller.Action Unit := fun c =>
  match action c with
  | .ok _ c => .ok () c
  | .error _ c => .ok () c

/-- Handles what arrives, at most so many packets, until a reboot is due and nothing is waiting. The
result tells whether it came to the reboot. -/
def listen (now : String) : Nat → Controller.Action Bool
  | 0 => pure false
  | rounds + 1 => do
    match ← Controller.onLink Mqtt.Client.poll with
    | some message =>
      attempt (Controller.handle now message.topic message.payload)
      listen now rounds
    | none =>
      if (← get).rebooting then pure true else listen now rounds

def reads : List Mqtt.Arrival → Nat
  | [] => 0
  | .data b :: inbox => b.length + 1 + reads inbox
  | .idle n :: inbox => n + reads inbox
  | .failure :: inbox => 1 + reads inbox

/-- Every round but one reads the link, so these exhaust the inbox and meet its end. -/
def serve (now : String) : Controller.Action Ending := do
  introduce
  if ← listen now (reads (← get).client.transport.inbox + 2) then
    Controller.onLink Mqtt.Client.disconnect
    return .rebooted
  else return .listening

def converse (now : String) (plan : Plan) (transport : Mqtt.Transport) :
    Ending × Mqtt.Transport :=
  match Mqtt.Client.connect plan.options transport with
  | .error e transport => (.failed (.link e), transport)
  | .ok client _ =>
    match serve now (Controller.start plan.identity client) with
    | .ok ending c => (ending, c.client.transport)
    | .error e c => (.failed e, c.client.transport)

/-- Runs a session from the entries of its configuration, over the connection that `dial` opens to
the endpoint. -/
def run (entry : String → Option String) (now : String)
    (dial : String → Except LinkError Mqtt.Transport) : Outcome :=
  match plan entry with
  | .error e => { ending := .failed e }
  | .ok plan =>
    match dial plan.endpoint with
    | .error e => { ending := .failed (.link e), remote := some plan.endpoint }
    | .ok transport =>
      let (ending, transport) := converse now plan transport
      { ending, remote := some plan.endpoint, transport := some transport }

end HubDevice.Session
