import HubDevice.Proofs.Mqtt.Publishing

set_option autoImplicit false

namespace HubDevice.Mqtt

open Transport (write writeAll flush)

namespace Transport

theorem write_grows (b : Bytes) (t : Transport) : t.sent <+: (outcome (write b t)).2.sent := by
  unfold write
  split
  · exact List.prefix_refl _
  · split
    · exact List.prefix_refl _
    · exact List.prefix_append _ _

theorem sent_of_write {b : Bytes} {n : Nat} {t t' : Transport} (h : write b t = .ok n t') :
    t'.sent = t.sent ++ b.take n := by
  unfold write at h
  split at h
  · cases h
  · split at h
    · cases h
    · cases h
      rfl

theorem writeAll_grows (b : Bytes) (t : Transport) :
    t.sent <+: (outcome (writeAll b t)).2.sent := by
  fun_induction writeAll b t with
  | case1 b t => exact List.prefix_refl _
  | case2 b t _ e t' hwrite =>
    have h := write_grows b t
    rw [hwrite] at h
    exact h
  | case3 b t _ t' hwrite =>
    have h := write_grows b t
    rw [hwrite] at h
    exact h
  | case4 b t _ n t' hwrite ih =>
    have h := write_grows b t
    rw [hwrite] at h
    exact h.trans ih

theorem sent_of_writeAll {b : Bytes} {t t' : Transport} {u : Unit}
    (h : writeAll b t = .ok u t') : t'.sent = t.sent ++ b := by
  fun_induction writeAll b t with
  | case1 b t hempty =>
    cases h
    rw [List.isEmpty_iff.1 hempty, List.append_nil]
  | case2 => cases h
  | case3 => cases h
  | case4 b t _ n t1 hwrite ih =>
    rw [ih h, sent_of_write hwrite, List.append_assoc, List.take_append_drop]

theorem flush_sent (t : Transport) : (outcome (flush t)).2.sent = t.sent := by
  unfold flush
  dsimp only
  split <;> rfl

end Transport

namespace Wire

theorem bind_grows {α β : Type} {first : Wire α} {second : α → Wire β} {t : Transport}
    (h : t.sent <+: (outcome (first t)).2.sent)
    (h' : ∀ a t', t'.sent <+: (outcome (second a t')).2.sent) :
    t.sent <+: (outcome ((first >>= second) t)).2.sent :=
  outcome_bind (R := fun t t' : Transport => t.sent <+: t'.sent) List.IsPrefix.trans h h'

theorem sendPacket_grows (header : UInt8) (body : Bytes) (t : Transport) :
    t.sent <+: (outcome (sendPacket header body t)).2.sent := by
  refine bind_grows ?_ fun start t1 => bind_grows (Transport.writeAll_grows start t1) fun _ t2 =>
    bind_grows (Transport.writeAll_grows body t2) fun _ t3 => ?_
  · cases fixedHeader header body.length <;> exact List.prefix_refl _
  · exact ⟨[], by rw [List.append_nil, Transport.flush_sent]⟩

theorem sent_of_sendPacket {header : UInt8} {body : Bytes} {t t' : Transport} {u : Unit}
    (short : (lengthField body.length).length ≤ 4) (h : sendPacket header body t = .ok u t') :
    t'.sent = t.sent ++ (header :: lengthField body.length ++ body) := by
  unfold sendPacket at h
  rw [fixedHeader_short header short] at h
  obtain ⟨start, t1, hlift, h⟩ := bind_eq_ok_state h
  obtain ⟨_, t2, hstart, h⟩ := bind_eq_ok_state h
  obtain ⟨_, t3, hbody, h⟩ := bind_eq_ok_state h
  have hflush := Transport.flush_sent t3
  rw [h] at hflush
  cases hlift
  change t'.sent = t3.sent at hflush
  rw [hflush, Transport.sent_of_writeAll hbody, Transport.sent_of_writeAll hstart,
    List.append_assoc]

end Wire

namespace Client

theorem publish_atMostOnce (topic payload : Bytes) (c : Client) :
    publish topic payload .atMostOnce c =
      if topicCapacity < topic.length ∨ payloadCapacity < payload.length then
        .error .packetTooLarge c
      else
        onWire (Wire.sendPacket (publishFlags .atMostOnce) (publishBody topic payload none)) c := by
  have served : QoS.atMostOnce ≠ .exactlyOnce := by decide
  split
  · next hlarge => exact publish_tooLarge served hlarge
  · next hfits => exact publish_sends served hfits c

theorem short_publishBody {topic payload : Bytes}
    (hfits : ¬ (topicCapacity < topic.length ∨ payloadCapacity < payload.length)) :
    (lengthField (publishBody topic payload none).length).length ≤ 4 := by
  have hbody : (publishBody topic payload none).length ≤ packetCapacity :=
    length_fitting none (by omega) (by omega)
  exact length_lengthField (by decide) (Nat.lt_of_le_of_lt hbody (by decide))

/-- Whether or not a publication fails, what was sent before stays sent. -/
theorem publish_grows (topic payload : Bytes) (c : Client) :
    c.transport.sent <+: (outcome (publish topic payload .atMostOnce c)).2.transport.sent := by
  rw [publish_atMostOnce]
  split
  · exact List.prefix_refl _
  · rw [outcome_onWire]
    exact Wire.sendPacket_grows _ _ _

theorem publish_accepts (topic payload : Bytes) {c : Client}
    (haccepts : ∀ n, c.transport.Accepts n) (n : Nat) :
    (outcome (publish topic payload .atMostOnce c)).2.transport.Accepts n := by
  rw [publish_atMostOnce]
  split
  · exact haccepts n
  · next hfits =>
    obtain ⟨t, hsend, -, haccepts'⟩ :=
      (Wire.sendPacket_sends (short_publishBody hfits)).accepted haccepts
    rw [outcome_onWire, hsend]
    exact haccepts' n

end Client

/-- The packet carries this message, as it is published without an acknowledgement. -/
def Packet.Carries (p : Packet) (m : Message) : Prop :=
  p.header = 0x30 ∧ Publishes p.header p.body m

theorem Packet.Carries.payload_infix {p : Packet} {m : Message} (carries : p.Carries m) :
    m.payload <:+: p.bytes := by
  have hpayload : m.payload <:+ p.body := by
    rw [carries.2.body]
    exact List.suffix_append _ _
  have hbody : p.body <:+ p.bytes := ⟨p.header :: p.groups, rfl⟩
  exact (hpayload.trans hbody).isInfix

namespace Client

variable {c : Client} {topic : String} {payload : Bytes}

/-- A publication that fits fails with the link only. One that succeeds has left as one packet. -/
theorem publish_fitting (htopic : (utf8 topic).length ≤ topicCapacity)
    (hpayload : payload.length ≤ payloadCapacity) :
    ∃ p : Packet, p.Carries ⟨topic, payload, .atMostOnce, none⟩ ∧
      match publish (utf8 topic) payload .atMostOnce c with
      | .ok _ c' => c' = { c with transport := c'.transport } ∧
          c'.transport.sent = c.transport.sent ++ p.bytes
      | .error e c' => c' = { c with transport := c'.transport } ∧ e = .writeError := by
  have served : QoS.atMostOnce ≠ .exactlyOnce := by decide
  have hfits : ¬ (topicCapacity < (utf8 topic).length ∨ payloadCapacity < payload.length) := by
    omega
  refine ⟨c.publicationPacket .atMostOnce htopic hpayload,
    ⟨rfl, c.publishes_publication served htopic⟩, ?_⟩
  rw [publish_atMostOnce, if_neg hfits, onWire]
  cases hsend : Wire.sendPacket (publishFlags .atMostOnce)
      (publishBody (utf8 topic) payload none) c.transport with
  | ok _ t => exact ⟨rfl, Wire.sent_of_sendPacket (short_publishBody hfits) hsend⟩
  | error e t => exact ⟨rfl, sendPacket_eq_error (short_publishBody hfits) hsend⟩

theorem publish_ok_of_accepts (htopic : (utf8 topic).length ≤ topicCapacity)
    (hpayload : payload.length ≤ payloadCapacity) (haccepts : ∀ n, c.transport.Accepts n) :
    ∃ (t : Transport) (p : Packet), p.Carries ⟨topic, payload, .atMostOnce, none⟩ ∧
      publish (utf8 topic) payload .atMostOnce c = .ok () { c with transport := t } ∧
      t.sent = c.transport.sent ++ p.bytes ∧ ∀ n, t.Accepts n := by
  have served : QoS.atMostOnce ≠ .exactlyOnce := by decide
  obtain ⟨t, hok, hsent⟩ := publish_accepted served htopic hpayload (haccepts _)
  refine ⟨t, c.publicationPacket .atMostOnce htopic hpayload,
    ⟨rfl, c.publishes_publication served htopic⟩, hok, hsent, fun n => ?_⟩
  have hkeeps := publish_accepts (utf8 topic) payload haccepts n
  rw [hok] at hkeeps
  exact hkeeps

end Client

end HubDevice.Mqtt
