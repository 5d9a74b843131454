import HubDevice.Mqtt.Packet

set_option autoImplicit false

/-!
# Packets byte by byte

What the protocol puts into a packet, written out in literals and arithmetic. The encoders of the
client are compared with it.
-/
namespace HubDevice.Mqtt

def twoBytes (n : Nat) : Bytes := [(n / 256).toUInt8, (n % 256).toUInt8]

def QoS.number : QoS → UInt8
  | .atMostOnce => 0
  | .atLeastOnce => 1
  | .exactlyOnce => 2

def publishLayout (topic payload : Bytes) (packetId : Option UInt16) : Bytes :=
  twoBytes topic.length ++ topic ++ packetId.elim [] (twoBytes ·.toNat) ++ payload

def subscribeLayout (packetId : UInt16) (topic : Bytes) (qos : QoS) : Bytes :=
  twoBytes packetId.toNat ++ twoBytes topic.length ++ topic ++ [qos.number]

def pubackLayout (packetId : UInt16) : Bytes := [0x40, 2] ++ twoBytes packetId.toNat

theorem toUInt8_eq_iff {m n : Nat} : m.toUInt8 = n.toUInt8 ↔ m % 256 = n % 256 := by
  rw [← UInt8.toNat_inj]
  exact Iff.rfl

theorem bigEndian_eq (w : UInt16) : bigEndian w = twoBytes w.toNat := by
  have hw := w.toNat_lt
  have hhigh : (w >>> 8).toUInt8 = (w.toNat / 256).toUInt8 := by
    rw [← UInt8.toNat_inj, toNat_high]
    exact (Nat.mod_eq_of_lt (by omega)).symm
  have hlow : w.toUInt8 = (w.toNat % 256).toUInt8 := by
    rw [← UInt8.toNat_inj, UInt16.toNat_toUInt8]
    exact (Nat.mod_mod _ _).symm
  rw [bigEndian, twoBytes, hhigh, hlow]

theorem twoBytes_mod (n : Nat) : twoBytes (n % 65536) = twoBytes n := by
  have hhigh : (n % 65536 / 256).toUInt8 = (n / 256).toUInt8 := toUInt8_eq_iff.2 (by omega)
  have hlow : (n % 65536 % 256).toUInt8 = (n % 256).toUInt8 := toUInt8_eq_iff.2 (by omega)
  rw [twoBytes, twoBytes, hhigh, hlow]

theorem field_eq (b : Bytes) : field b = twoBytes b.length ++ b := by
  rw [field, bigEndian_eq]
  exact congrArg (· ++ b) (twoBytes_mod b.length)

theorem publishBody_eq (topic payload : Bytes) (packetId : Option UInt16) :
    publishBody topic payload packetId = publishLayout topic payload packetId := by
  have hid : packetId.elim [] bigEndian = packetId.elim [] (twoBytes ·.toNat) := by
    cases packetId with
    | none => rfl
    | some packetId => exact bigEndian_eq packetId
  rw [publishBody, publishLayout, field_eq, hid]

theorem subscribeBody_eq (packetId : UInt16) (topic : Bytes) (qos : QoS) :
    subscribeBody packetId topic qos = subscribeLayout packetId topic qos := by
  have hlevel : qos.level = qos.number := by cases qos <;> rfl
  rw [subscribeBody, subscribeLayout, bigEndian_eq, field_eq, hlevel, List.append_assoc _ _ topic]

theorem acknowledgement_eq (packetId : UInt16) :
    acknowledgement packetId = pubackLayout packetId := by
  rw [acknowledgement, pubackLayout, bigEndian_eq]
  rfl

end HubDevice.Mqtt
