import HubDevice.Mqtt.Packet
import HubDevice.Mqtt.Transport

set_option autoImplicit false

/-!
# An MQTT client

The client numbers the packets that want an answer and keeps the last message that came while it
waited for the answer to a subscription. Every operation sends whole packets and reads whole
packets. Messages that ask for it are acknowledged before they are handed out.
-/
namespace HubDevice.Mqtt

open Transport (readExact writeAll flush)

structure Client where
  transport : Transport
  /-- The identifier given out last; zero before the first. -/
  lastPacketId : UInt16 := 0
  /-- A message that came before a subscription was answered. -/
  pending : Option Message := none

def liftExcept {σ α : Type} (result : Except LinkError α) : EStateM LinkError σ α :=
  match result with
  | .ok a => pure a
  | .error e => throw e

namespace Wire

def sendPacket (header : UInt8) (body : Bytes) : Wire Unit := do
  let start ← liftExcept (fixedHeader header body.length)
  writeAll start
  writeAll body
  flush

/-- Reads a body of the given length; one beyond the capacity is read over. -/
def readBody : Wire (Option Bytes) := do
  let length ← Transport.readLength 4
  if packetCapacity < length then
    Transport.discard length
    return none
  else return some (← readExact length)

def readPacket : Wire (UInt8 × Option Bytes) := do
  let header ← readExact 1
  let body ← readBody
  return (header.headD 0, body)

def acknowledge : Option UInt16 → Wire Unit
  | some packetId => do
    writeAll (acknowledgement packetId)
    flush
  | none => pure ()

def receive (header : UInt8) (body : Bytes) : Wire Message := do
  let message ← liftExcept (Message.decode header body)
  acknowledge message.packetId
  return message

def checkConnack : Bytes → Except LinkError Unit
  | [header, length, _, code] =>
    if header ≠ connackHeader || length ≠ 2 then .error .protocolError
    else if code = 0 then .ok ()
    else if code ≤ 5 then .error (.connectionRefused code)
    else .error .protocolError
  | _ => .error .protocolError

def handshake (o : Options) : Wire Unit := do
  if connectCapacity < o.payload.length then throw .packetTooLarge
  let start ← liftExcept
    (fixedHeader connectHeader (o.variableHeader.length + o.payload.length))
  writeAll start
  writeAll o.variableHeader
  writeAll o.payload
  flush
  let answer ← readExact 4
  liftExcept (checkConnack answer)

end Wire

theorem dataLength_receive {endFails : Bool} {n : Nat} {inbox inbox' : List Arrival} {b : Bytes}
    (h : receive endFails n inbox = (some b, inbox')) :
    dataLength inbox' + b.length = dataLength inbox := by
  fun_induction receive endFails n inbox with
  | case1 =>
    simp only [Prod.mk.injEq] at h
    split at h
    · simp at h
    · obtain ⟨hb, rfl⟩ := h
      cases hb
      simp [dataLength]
  | case2 d inbox =>
    simp only [Prod.mk.injEq, Option.some.injEq] at h
    obtain ⟨rfl, rfl⟩ := h
    split
    · next hle =>
      simp only [dataLength, List.length_take]
      omega
    · simp only [dataLength, List.length_take, List.length_drop]
      omega
  | case3 inbox ih => exact ih h
  | case4 reads inbox =>
    simp only [Prod.mk.injEq, Option.some.injEq] at h
    obtain ⟨rfl, rfl⟩ := h
    simp [dataLength]
  | case5 => simp at h

namespace Transport

theorem dataLength_read {n : Nat} {t t' : Transport} {b : Bytes} (h : read n t = .ok b t') :
    t'.dataLength + b.length = t.dataLength := by
  unfold read at h
  split at h
  · cases h
  · split at h
    · next hr =>
      cases h
      exact dataLength_receive hr
    · cases h

theorem dataLength_await {n left : Nat} {t t' : Transport} {b : UInt8} {more : Bytes}
    (h : await n left t = .ok (b, more) t') : t'.dataLength + (more.length + 1) = t.dataLength := by
  induction left generalizing t with
  | zero =>
    unfold await at h
    split at h
    · next hr =>
      cases h
      exact dataLength_read hr
    · cases h
    · cases h
  | succ left ih =>
    unfold await at h
    split at h
    · next hr =>
      cases h
      exact dataLength_read hr
    · next hr =>
      have hread := dataLength_read hr
      simp only [List.length_nil, Nat.add_zero] at hread
      rw [← hread]
      exact ih h
    · cases h

theorem dataLength_readExact {n : Nat} {t t' : Transport} {b : Bytes}
    (h : readExact n t = .ok b t') : t'.dataLength + b.length = t.dataLength := by
  fun_induction readExact n t generalizing b with
  | case1 =>
    cases h
    simp
  | case2 => cases h
  | case3 => cases h
  | case4 n t hn first more t1 hawait rest t2 hrest ih =>
    cases h
    have h1 := dataLength_await hawait
    have h2 := ih hrest
    simp only [List.length_append, List.length_cons]
    omega

theorem dataLength_readExact_pos {n : Nat} {t t' : Transport} {b : Bytes} (hn : 0 < n)
    (h : readExact n t = .ok b t') : t'.dataLength < t.dataLength := by
  have hlength := dataLength_readExact h
  have : 0 < b.length := by
    unfold readExact at h
    split at h
    · omega
    · split at h
      · cases h
      · split at h
        · cases h
        · cases h
          simp
  omega

theorem dataLength_discard {n : Nat} {t t' : Transport} {u : Unit}
    (h : discard n t = .ok u t') : t'.dataLength ≤ t.dataLength := by
  fun_induction discard n t with
  | case1 =>
    cases h
    exact Nat.le_refl _
  | case2 => cases h
  | case3 n t _ b t1 hread ih =>
    have h1 := dataLength_readExact hread
    have h2 := ih h
    omega

theorem dataLength_readLength {left n : Nat} {t t' : Transport}
    (h : readLength left t = .ok n t') : t'.dataLength ≤ t.dataLength := by
  induction left generalizing t t' n with
  | zero => cases h
  | succ left ih =>
    simp only [readLength, bind, EStateM.bind] at h
    split at h
    · next hread =>
      have := dataLength_readExact hread
      split at h
      · cases h
        omega
      · simp only [EStateM.bind] at h
        split at h
        · next hmore =>
          have := ih hmore
          cases h
          omega
        · cases h
    · cases h

theorem inbox_writeAll {b : Bytes} {t t' : Transport} {u : Unit} (h : writeAll b t = .ok u t') :
    t'.inbox = t.inbox := by
  fun_induction writeAll b t with
  | case1 =>
    cases h
    rfl
  | case2 => cases h
  | case3 => cases h
  | case4 b t _ n t1 hwrite ih =>
    rw [ih h]
    unfold write at hwrite
    split at hwrite
    · cases hwrite
    · split at hwrite
      · cases hwrite
      · cases hwrite
        rfl

theorem inbox_flush {t t' : Transport} {u : Unit} (h : flush t = .ok u t') :
    t'.inbox = t.inbox := by
  unfold flush at h
  split at h
  · cases h
  · cases h
    rfl

end Transport

namespace Wire

theorem dataLength_readBody {t t' : Transport} {body : Option Bytes}
    (h : readBody t = .ok body t') : t'.dataLength ≤ t.dataLength := by
  simp only [readBody, bind, EStateM.bind] at h
  split at h
  · next length t1 hlength =>
    have h1 := Transport.dataLength_readLength hlength
    split at h
    · simp only [EStateM.bind] at h
      split at h
      · next hdiscard =>
        have h2 := Transport.dataLength_discard hdiscard
        cases h
        omega
      · cases h
    · simp only [EStateM.bind] at h
      split at h
      · next hread =>
        have h2 := Transport.dataLength_readExact hread
        cases h
        omega
      · cases h
  · cases h

theorem dataLength_readPacket {t t' : Transport} {p : UInt8 × Option Bytes}
    (h : readPacket t = .ok p t') : t'.dataLength < t.dataLength := by
  simp only [readPacket, bind, EStateM.bind] at h
  split at h
  · next hheader =>
    have h1 := Transport.dataLength_readExact_pos (by decide) hheader
    split at h
    · next hbody =>
      have h2 := dataLength_readBody hbody
      cases h
      omega
    · cases h
  · cases h

theorem inbox_acknowledge {packetId : Option UInt16} {t t' : Transport} {u : Unit}
    (h : acknowledge packetId t = .ok u t') : t'.inbox = t.inbox := by
  cases packetId with
  | none =>
    cases h
    rfl
  | some packetId =>
    simp only [acknowledge, bind, EStateM.bind] at h
    split at h
    · next hwrite => rw [Transport.inbox_flush h, Transport.inbox_writeAll hwrite]
    · cases h

theorem inbox_receive {header : UInt8} {body : Bytes} {t t' : Transport} {m : Message}
    (h : receive header body t = .ok m t') : t'.inbox = t.inbox := by
  unfold receive at h
  cases hdecode : Message.decode header body with
  | error e =>
    rw [hdecode] at h
    cases h
  | ok message =>
    simp only [hdecode, liftExcept, bind, EStateM.bind, pure, EStateM.pure] at h
    split at h
    · next hack =>
      cases h
      exact inbox_acknowledge hack
    · cases h

end Wire

namespace Client

abbrev Action := EStateM LinkError Client

def ofTransport (transport : Transport) : Client := { transport }

def onWire {α : Type} (action : Wire α) : Action α := fun c =>
  match action c.transport with
  | .ok a transport => .ok a { c with transport }
  | .error e transport => .error e { c with transport }

def connect (o : Options) : EStateM LinkError Transport Client := do
  Wire.handshake o
  return ofTransport (← get)

/-- The identifier after a given one; zero is left out. -/
def nextPacketId (last : UInt16) : UInt16 := if last = 0xFFFF then 1 else last + 1

def allocate : Action UInt16 := do
  let packetId := nextPacketId (← get).lastPacketId
  modify fun c => { c with lastPacketId := packetId }
  return packetId

/-- Publishes a payload; only an acknowledged message takes an identifier. -/
def publish (topic payload : Bytes) (qos : QoS) : Action Unit := do
  if qos = .exactlyOnce then throw .protocolError
  if topicCapacity < topic.length || payloadCapacity < payload.length then throw .packetTooLarge
  let packetId ← if qos = .atLeastOnce then some <$> allocate else pure none
  onWire (Wire.sendPacket (publishFlags qos) (publishBody topic payload packetId))

def checkSuback (packetId : UInt16) : Bytes → Except LinkError Unit
  | [high, low, code] =>
    if ofBigEndian high low ≠ packetId || code = 0x80 then .error .protocolError else .ok ()
  | _ => .error .protocolError

/-- Reads packets up to the answer to a subscription. Of the messages that come before it the last
one is kept. -/
def awaitSuback (packetId : UInt16) (c : Client) : EStateM.Result LinkError Client Unit :=
  match _hpacket : Wire.readPacket c.transport with
  | .error e transport => .error e { c with transport }
  | .ok (_, none) transport => awaitSuback packetId { c with transport }
  | .ok (header, some body) transport =>
    if header = subackHeader then
      match checkSuback packetId body with
      | .ok () => .ok () { c with transport }
      | .error e => .error e { c with transport }
    else if isPublish header then
      match _hreceive : Wire.receive header body transport with
      | .error e transport => .error e { c with transport }
      | .ok message transport =>
        awaitSuback packetId { c with transport, pending := some message }
    else awaitSuback packetId { c with transport }
termination_by c.transport.dataLength
decreasing_by
  · exact Wire.dataLength_readPacket _hpacket
  · have h := Wire.dataLength_readPacket _hpacket
    simp only [Transport.dataLength] at h ⊢
    rwa [Wire.inbox_receive _hreceive]
  · exact Wire.dataLength_readPacket _hpacket

def subscribe (topic : Bytes) (qos : QoS) : Action Unit := do
  if topicCapacity < topic.length then throw .packetTooLarge
  let packetId ← allocate
  onWire (Wire.sendPacket subscribeHeader (subscribeBody packetId topic qos))
  fun c => awaitSuback packetId c

def ping : Action Unit := onWire do
  writeAll [pingHeader, 0]
  flush

/-- The next message if one has come; at most one packet is read. -/
def poll : Action (Option Message) := do
  match (← get).pending with
  | some message =>
    modify fun c => { c with pending := none }
    return some message
  | none =>
    match ← onWire (Transport.read 1) with
    | [] => return none
    | header :: _ =>
      match ← onWire Wire.readBody with
      | none => throw .packetTooLarge
      | some body =>
        if isPublish header then some <$> onWire (Wire.receive header body) else return none

def disconnect : Action Unit := onWire do
  writeAll [disconnectHeader, 0]
  flush
  Transport.close

end Client

end HubDevice.Mqtt
