import HubDevice.Bytes
import HubDevice.Mqtt.Error

set_option autoImplicit false

namespace HubDevice.Mqtt

def topicCapacity : Nat := 256

def payloadCapacity : Nat := 2048

/-- Room for a topic field, a packet identifier and a payload. -/
def packetCapacity : Nat := 2 + topicCapacity + 2 + payloadCapacity

/-- Room for the client identifier, user name and password fields together. -/
def connectCapacity : Nat := 1024

def connectHeader : UInt8 := 0x10

def connackHeader : UInt8 := 0x20

def publishHeader : UInt8 := 0x30

def pubackHeader : UInt8 := 0x40

def subscribeHeader : UInt8 := 0x82

def subackHeader : UInt8 := 0x90

def pingHeader : UInt8 := 0xC0

def disconnectHeader : UInt8 := 0xE0

inductive QoS where
  | atMostOnce
  | atLeastOnce
  | exactlyOnce
  deriving DecidableEq, Repr

def QoS.level : QoS → UInt8
  | .atMostOnce => 0
  | .atLeastOnce => 1
  | .exactlyOnce => 2

/-- Groups of seven bits; all but the last have the high bit set. -/
def lengthField (n : Nat) : Bytes :=
  if n < 128 then [n.toUInt8] else (n % 128 + 128).toUInt8 :: lengthField (n / 128)
termination_by n

def fixedHeader (header : UInt8) (length : Nat) : Except LinkError Bytes :=
  let field := lengthField length
  if field.length ≤ 4 then .ok (header :: field) else .error .packetTooLarge

def field (b : Bytes) : Bytes := bigEndian b.length.toUInt16 ++ b

structure Message where
  topic : String
  payload : Bytes
  qos : QoS
  packetId : Option UInt16
  deriving DecidableEq, Repr

def isPublish (header : UInt8) : Bool := header &&& 0xF0 == publishHeader

/-- A delivery that must not be repeated is not spoken. -/
def qosOfHeader (header : UInt8) : Except LinkError QoS :=
  let level := (header >>> 1) &&& 3
  if level = 0 then .ok .atMostOnce
  else if level = 1 then .ok .atLeastOnce
  else .error .protocolError

def takeTopic (body : Bytes) : Except LinkError (String × Bytes) :=
  match body with
  | high :: low :: rest =>
    let length := (ofBigEndian high low).toNat
    if rest.length < length then .error .protocolError
    else
      match text? (rest.take length) with
      | none => .error .protocolError
      | some topic =>
        if topicCapacity < length then .error .packetTooLarge
        else .ok (topic, rest.drop length)
  | _ => .error .protocolError

/-- A packet identifier stands only before an acknowledged payload. -/
def takePacketId (qos : QoS) (rest : Bytes) : Except LinkError (Option UInt16 × Bytes) :=
  if qos = .atLeastOnce then
    match rest with
    | high :: low :: payload => .ok (some (ofBigEndian high low), payload)
    | _ => .error .protocolError
  else .ok (none, rest)

namespace Message

def decode (header : UInt8) (body : Bytes) : Except LinkError Message := do
  let qos ← qosOfHeader header
  let (topic, rest) ← takeTopic body
  let (packetId, payload) ← takePacketId qos rest
  if payloadCapacity < payload.length then .error .packetTooLarge
  else return { topic, payload, qos, packetId }

end Message

def publishBody (topic payload : Bytes) (packetId : Option UInt16) : Bytes :=
  field topic ++ packetId.elim [] bigEndian ++ payload

def publishFlags (qos : QoS) : UInt8 := publishHeader ||| (qos.level <<< 1)

def subscribeBody (packetId : UInt16) (topic : Bytes) (qos : QoS) : Bytes :=
  bigEndian packetId ++ field topic ++ [qos.level]

def acknowledgement (packetId : UInt16) : Bytes := [pubackHeader, 2] ++ bigEndian packetId

structure Options where
  clientId : Bytes
  keepAlive : UInt16
  cleanSession : Bool
  userName : Option Bytes
  password : Option Bytes
  deriving Repr

namespace Options

def flags (o : Options) : UInt8 :=
  (if o.cleanSession then 0x02 else 0) ||| (if o.userName.isSome then 0x80 else 0) |||
    (if o.password.isSome then 0x40 else 0)

def variableHeader (o : Options) : Bytes :=
  field (utf8 "MQTT") ++ [4, o.flags] ++ bigEndian o.keepAlive

def payload (o : Options) : Bytes :=
  field o.clientId ++ o.userName.elim [] field ++ o.password.elim [] field

end Options

end HubDevice.Mqtt
