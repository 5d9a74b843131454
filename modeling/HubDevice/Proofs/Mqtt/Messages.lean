import Mathlib.Algebra.Group.Nat.Defs
import HubDevice.Error
import HubDevice.Proofs.Mqtt.Layouts

set_option autoImplicit false

namespace HubDevice.Mqtt

/-- The packet with this header and body is a PUBLISH of the message. -/
structure Publishes (header : UInt8) (body : Bytes) (m : Message) : Prop where
  kind : header &&& 0xF0 = 0x30
  qos : (header >>> 1) &&& 3 = m.qos.number
  served : m.qos ≠ .exactlyOnce
  packetId : m.packetId.isSome = true ↔ m.qos = .atLeastOnce
  topic : (utf8 m.topic).length < 2 ^ 16
  body : body = publishLayout (utf8 m.topic) m.payload m.packetId

def Message.Fits (m : Message) : Prop :=
  (utf8 m.topic).length ≤ topicCapacity ∧ m.payload.length ≤ payloadCapacity

instance (m : Message) : Decidable m.Fits :=
  inferInstanceAs (Decidable (_ ∧ _))

theorem isPublish_iff {header : UInt8} : isPublish header = true ↔ header &&& 0xF0 = 0x30 :=
  beq_iff_eq

theorem qosOfHeader_eq_ok {header : UInt8} {qos : QoS} (h : qosOfHeader header = .ok qos) :
    (header >>> 1) &&& 3 = qos.number ∧ qos ≠ .exactlyOnce := by
  unfold qosOfHeader at h
  dsimp only at h
  split at h
  · next hlevel =>
    cases h
    exact ⟨hlevel, by simp⟩
  · split at h
    · next hlevel =>
      cases h
      exact ⟨hlevel, by simp⟩
    · cases h

theorem qosOfHeader_of_number {header : UInt8} {qos : QoS} (h : (header >>> 1) &&& 3 = qos.number)
    (served : qos ≠ .exactlyOnce) : qosOfHeader header = .ok qos := by
  unfold qosOfHeader
  dsimp only
  rw [h]
  cases qos with
  | atMostOnce => rfl
  | atLeastOnce => rfl
  | exactlyOnce => exact absurd rfl served

theorem length_bigEndian_toNat {b : Bytes} (h : b.length < 2 ^ 16) :
    (ofBigEndian (b.length.toUInt16 >>> 8).toUInt8 b.length.toUInt16.toUInt8).toNat = b.length := by
  rw [ofBigEndian_bigEndian]
  exact Nat.mod_eq_of_lt h

theorem takeTopic_field {topic : String} (rest : Bytes) (h : (utf8 topic).length < 2 ^ 16) :
    takeTopic (field (utf8 topic) ++ rest) =
      if topicCapacity < (utf8 topic).length then .error .packetTooLarge
      else .ok (topic, rest) := by
  have hlong : ¬ (utf8 topic ++ rest).length < (utf8 topic).length := by
    rw [List.length_append]
    omega
  rw [field, bigEndian, List.append_assoc, List.cons_append, List.cons_append, List.nil_append,
    takeTopic]
  rw [length_bigEndian_toNat h, if_neg hlong, List.take_left, List.drop_left, text?_utf8]

theorem takeTopic_eq_ok {body rest : Bytes} {topic : String}
    (h : takeTopic body = .ok (topic, rest)) :
    body = field (utf8 topic) ++ rest ∧ (utf8 topic).length ≤ topicCapacity := by
  unfold takeTopic at h
  split at h
  · next high low more =>
    dsimp only at h
    split at h
    · cases h
    next hlong =>
    split at h
    · cases h
    next htext =>
    split at h
    · cases h
    next hfits =>
    cases h
    have hutf8 := text?_eq_some_iff.1 htext
    have hlength : (utf8 topic).length = (ofBigEndian high low).toNat := by
      rw [hutf8, List.length_take]
      omega
    refine ⟨?_, by omega⟩
    have hword : (ofBigEndian high low).toNat.toUInt16 = ofBigEndian high low :=
      UInt16.ofNat_toNat
    rw [field, hlength, hword, bigEndian_ofBigEndian, hutf8, List.append_assoc,
      List.take_append_drop]
    rfl
  · cases h

theorem takePacketId_append {qos : QoS} {packetId : Option UInt16} (payload : Bytes)
    (h : packetId.isSome = true ↔ qos = .atLeastOnce) :
    takePacketId qos (packetId.elim [] bigEndian ++ payload) = .ok (packetId, payload) := by
  unfold takePacketId
  cases packetId with
  | none =>
    have hqos : qos ≠ .atLeastOnce := fun hqos => absurd (h.2 hqos) (by simp)
    rw [if_neg hqos]
    rfl
  | some packetId =>
    rw [if_pos (h.1 rfl)]
    change Except.ok (some (ofBigEndian _ _), payload) = _
    rw [ofBigEndian_bigEndian]

theorem takePacketId_eq_ok {qos : QoS} {packetId : Option UInt16} {rest payload : Bytes}
    (h : takePacketId qos rest = .ok (packetId, payload)) :
    rest = packetId.elim [] bigEndian ++ payload ∧
      (packetId.isSome = true ↔ qos = .atLeastOnce) := by
  unfold takePacketId at h
  split at h
  · next hqos =>
    split at h
    · cases h
      refine ⟨?_, by simp [hqos]⟩
      rw [Option.elim_some, bigEndian_ofBigEndian]
      rfl
    · cases h
  · next hqos =>
    cases h
    exact ⟨rfl, by simp [hqos]⟩

theorem length_publishBody (topic payload : Bytes) (packetId : Option UInt16) :
    (publishBody topic payload packetId).length ≤ 2 + topic.length + 2 + payload.length := by
  rw [publishBody, field, List.length_append, List.length_append, List.length_append]
  cases packetId with
  | none =>
    change 2 + topic.length + 0 + payload.length ≤ _
    omega
  | some packetId => exact Nat.le_refl _

theorem length_fitting {topic payload : Bytes} (packetId : Option UInt16)
    (htopic : topic.length ≤ topicCapacity) (hpayload : payload.length ≤ payloadCapacity) :
    (publishBody topic payload packetId).length ≤ packetCapacity := by
  have h := length_publishBody topic payload packetId
  unfold packetCapacity
  omega

theorem Publishes.length_body {header : UInt8} {body : Bytes} {m : Message}
    (h : Publishes header body m) (hfits : m.Fits) : body.length ≤ packetCapacity := by
  rw [h.body, ← publishBody_eq]
  exact length_fitting m.packetId hfits.1 hfits.2

namespace Message

theorem decode_publishes {header : UInt8} {body : Bytes} {m : Message}
    (h : Publishes header body m) :
    decode header body = if m.Fits then .ok m else .error .packetTooLarge := by
  have hqos := qosOfHeader_of_number h.qos h.served
  have htopic := takeTopic_field (m.packetId.elim [] bigEndian ++ m.payload) h.topic
  have hid := takePacketId_append m.payload h.packetId
  rw [decode, hqos, h.body, ← publishBody_eq, publishBody, List.append_assoc]
  simp only [bind, Except.bind, htopic]
  by_cases hlong : topicCapacity < (utf8 m.topic).length
  · have hfits : ¬ m.Fits := fun hfits => absurd hfits.1 (Nat.not_le.2 hlong)
    rw [if_pos hlong, if_neg hfits]
  · rw [if_neg hlong]
    simp only [hid]
    by_cases hpayload : payloadCapacity < m.payload.length
    · have hfits : ¬ m.Fits := fun hfits => absurd hfits.2 (Nat.not_le.2 hpayload)
      rw [if_pos hpayload, if_neg hfits]
    · have hfits : m.Fits := ⟨Nat.not_lt.1 hlong, Nat.not_lt.1 hpayload⟩
      rw [if_neg hpayload, if_pos hfits]
      rfl

theorem publishes_of_decode {header : UInt8} {body : Bytes} {m : Message}
    (kind : isPublish header = true) (h : decode header body = .ok m) :
    Publishes header body m ∧ m.Fits := by
  unfold decode at h
  obtain ⟨qos, hqos, h⟩ := bind_eq_ok h
  obtain ⟨⟨topic, rest⟩, htopic, h⟩ := bind_eq_ok h
  obtain ⟨⟨packetId, payload⟩, hid, h⟩ := bind_eq_ok h
  obtain ⟨hnumber, served⟩ := qosOfHeader_eq_ok hqos
  obtain ⟨hbody, htopicFits⟩ := takeTopic_eq_ok htopic
  obtain ⟨hrest, hsome⟩ := takePacketId_eq_ok hid
  dsimp only at h
  split at h
  · cases h
  next hpayload =>
  cases h
  refine ⟨⟨isPublish_iff.1 kind, hnumber, served, hsome, ?_, ?_⟩, htopicFits, Nat.not_lt.1 hpayload⟩
  · unfold topicCapacity at htopicFits
    dsimp only
    omega
  · rw [hbody, hrest, ← publishBody_eq, publishBody, List.append_assoc]

/-- A PUBLISH that stands for no message is refused. -/
theorem decode_malformed {header : UInt8} {body : Bytes} (kind : isPublish header = true)
    (h : ∀ m, ¬ Publishes header body m) : ∃ e, decode header body = .error e := by
  cases hdecode : decode header body with
  | error e => exact ⟨e, rfl⟩
  | ok m => exact absurd (publishes_of_decode kind hdecode).1 (h m)

end Message

end HubDevice.Mqtt
