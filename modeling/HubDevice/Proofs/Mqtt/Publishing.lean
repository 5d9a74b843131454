import HubDevice.Proofs.Mqtt.Polls

set_option autoImplicit false

namespace HubDevice.Mqtt

open Transport (writeAll flush)

theorem lengthField_valid (n : Nat) : LengthField n (lengthField n) := by
  fun_induction lengthField n with
  | case1 n h =>
    have hbyte : n.toUInt8.toNat = n := Nat.mod_eq_of_lt (by omega : n < 2 ^ 8)
    have hlast := LengthField.last (b := n.toUInt8)
      (UInt8.lt_iff_toNat_lt.2 (by rw [hbyte]; exact h))
    rw [hbyte] at hlast
    exact hlast
  | case2 n h ih =>
    have hbyte : (n % 128 + 128).toUInt8.toNat = n % 128 + 128 :=
      Nat.mod_eq_of_lt (by omega : n % 128 + 128 < 2 ^ 8)
    have hmore := LengthField.more (b := (n % 128 + 128).toUInt8)
      (UInt8.le_iff_toNat_le.2 (by rw [hbyte]; exact Nat.le_add_left _ _)) ih
    rw [hbyte, Nat.add_sub_cancel, Nat.mod_add_div] at hmore
    exact hmore

theorem length_lengthField {n k : Nat} (hk : 0 < k) (h : n < 128 ^ k) :
    (lengthField n).length ≤ k := by
  induction k generalizing n with
  | zero => omega
  | succ k ih =>
    unfold lengthField
    split
    · exact Nat.succ_le_succ (Nat.zero_le k)
    · next hlong =>
      have hk : 0 < k := by
        rcases Nat.eq_zero_or_pos k with rfl | hpos
        · omega
        · exact hpos
      have hdiv : n / 128 < 128 ^ k := by
        rw [Nat.div_lt_iff_lt_mul (by omega)]
        rwa [Nat.pow_succ] at h
      exact Nat.succ_le_succ (ih hk hdiv)

def Packet.sent (header : UInt8) (body : Bytes) (h : body.length < 128 ^ 4) : Packet where
  header
  groups := lengthField body.length
  body
  length := lengthField_valid body.length
  short := length_lengthField (by decide) h

theorem lengthField_of_lt {n : Nat} (h : n < 128) : lengthField n = [n.toUInt8] := by
  rw [lengthField, if_pos h]

theorem Packet.bytes_sent {header : UInt8} {body : Bytes} (short : body.length < 128 ^ 4)
    (h : body.length < 128) :
    (Packet.sent header body short).bytes = header :: body.length.toUInt8 :: body := by
  change header :: (lengthField body.length ++ body) = _
  rw [lengthField_of_lt h]
  rfl

theorem write_eq_error {b : Bytes} {t t' : Transport} {e : LinkError}
    (h : Transport.write b t = .error e t') : e = .writeError := by
  unfold Transport.write at h
  split at h
  · cases h
    rfl
  · split at h
    · cases h
      rfl
    · cases h

theorem writeAll_eq_error {b : Bytes} {t t' : Transport} {e : LinkError}
    (h : writeAll b t = .error e t') : e = .writeError := by
  fun_induction writeAll b t with
  | case1 => cases h
  | case2 _ _ _ e' _ hwrite =>
    cases h
    exact write_eq_error hwrite
  | case3 =>
    cases h
    rfl
  | case4 _ _ _ _ _ _ ih => exact ih h

theorem flush_eq_error {t t' : Transport} {e : LinkError} (h : flush t = .error e t') :
    e = .writeError := by
  unfold Transport.flush at h
  dsimp only at h
  split at h
  · cases h
    rfl
  · cases h

theorem sendPacket_eq_error {header : UInt8} {body : Bytes} {t t' : Transport} {e : LinkError}
    (short : (lengthField body.length).length ≤ 4)
    (h : Wire.sendPacket header body t = .error e t') : e = .writeError := by
  unfold Wire.sendPacket at h
  rw [Wire.fixedHeader_short header short] at h
  rcases bind_eq_error_state h with hlift | ⟨start, t1, -, h⟩
  · cases hlift
  rcases bind_eq_error_state h with hstart | ⟨_, t2, -, h⟩
  · exact writeAll_eq_error hstart
  rcases bind_eq_error_state h with hbody | ⟨_, t3, -, h⟩
  · exact writeAll_eq_error hbody
  · exact flush_eq_error h

theorem isPublish_flags (qos : QoS) : isPublish (publishFlags qos) = true := by
  cases qos <;> decide

theorem number_flags (qos : QoS) : (publishFlags qos >>> 1) &&& 3 = qos.number := by
  cases qos <;> decide

namespace Client

/-- The message that a publication stands for; one that is to be acknowledged gets an identifier. -/
def publication (c : Client) (topic : String) (payload : Bytes) (qos : QoS) : Message where
  topic
  payload
  qos
  packetId := if qos = .atLeastOnce then some (nextPacketId c.lastPacketId) else none

def publicationBody (c : Client) (topic : String) (payload : Bytes) (qos : QoS) : Bytes :=
  publishBody (utf8 topic) payload (c.publication topic payload qos).packetId

theorem publishes_publication (c : Client) {topic : String} {payload : Bytes} {qos : QoS}
    (served : qos ≠ .exactlyOnce) (htopic : (utf8 topic).length ≤ topicCapacity) :
    Publishes (publishFlags qos) (c.publicationBody topic payload qos)
      (c.publication topic payload qos) where
  kind := isPublish_iff.1 (isPublish_flags qos)
  qos := number_flags qos
  served := served
  packetId := by
    unfold publication
    dsimp only
    split <;> simp_all
  topic := by
    change (utf8 topic).length < 2 ^ 16
    unfold topicCapacity at htopic
    omega
  body := publishBody_eq _ _ _

variable {c : Client} {topic : String} {payload : Bytes} {qos : QoS}

theorem publish_exactlyOnce (topic : Bytes) (payload : Bytes) :
    publish topic payload .exactlyOnce c = .error .protocolError c := rfl

theorem publish_tooLarge {topic : Bytes} (served : qos ≠ .exactlyOnce)
    (h : topicCapacity < topic.length ∨ payloadCapacity < payload.length) :
    publish topic payload qos c = .error .packetTooLarge c := by
  have hguard : (topicCapacity < topic.length || payloadCapacity < payload.length) = true := by
    simpa using h
  unfold publish
  rw [if_neg served, if_pos hguard]
  rfl

/-- A publication that passes its checks takes an identifier if it wants one, and is sent. -/
theorem publish_sends {topic : Bytes} (served : qos ≠ .exactlyOnce)
    (hfits : ¬ (topicCapacity < topic.length ∨ payloadCapacity < payload.length)) (c : Client) :
    publish topic payload qos c =
      let packetId := if qos = .atLeastOnce then some (nextPacketId c.lastPacketId) else none
      onWire (Wire.sendPacket (publishFlags qos) (publishBody topic payload packetId))
        { c with lastPacketId := packetId.getD c.lastPacketId } := by
  have hguard : ¬ (topicCapacity < topic.length || payloadCapacity < payload.length) = true := by
    simpa using hfits
  unfold publish
  rw [if_neg served, if_neg hguard]
  cases qos with
  | atMostOnce => rfl
  | atLeastOnce => rfl
  | exactlyOnce => exact absurd rfl served

theorem publish_fits (served : qos ≠ .exactlyOnce)
    (htopic : (utf8 topic).length ≤ topicCapacity) (hpayload : payload.length ≤ payloadCapacity) :
    publish (utf8 topic) payload qos c =
      onWire (Wire.sendPacket (publishFlags qos) (c.publicationBody topic payload qos))
        { c with lastPacketId := (c.publication topic payload qos).packetId.getD c.lastPacketId } :=
  publish_sends served (by omega) c

def publicationPacket (c : Client) {topic : String} {payload : Bytes} (qos : QoS)
    (htopic : (utf8 topic).length ≤ topicCapacity) (hpayload : payload.length ≤ payloadCapacity) :
    Packet :=
  .sent (publishFlags qos) (c.publicationBody topic payload qos)
    (Nat.lt_of_le_of_lt (length_fitting _ htopic hpayload) (by decide))

theorem publish_fits_error {e : LinkError} (served : qos ≠ .exactlyOnce)
    (htopic : (utf8 topic).length ≤ topicCapacity) (hpayload : payload.length ≤ payloadCapacity)
    (h : (outcome (publish (utf8 topic) payload qos c)).1 = .error e) : e = .writeError := by
  rw [publish_fits served htopic hpayload, outcome_onWire] at h
  dsimp only at h
  have short := (c.publicationPacket qos htopic hpayload).short
  cases hsend : Wire.sendPacket (publishFlags qos) (c.publicationBody topic payload qos)
      c.transport with
  | ok _ t =>
    rw [hsend] at h
    cases h
  | error e' t =>
    rw [hsend] at h
    cases h
    exact sendPacket_eq_error short hsend

theorem publish_accepted (served : qos ≠ .exactlyOnce)
    (htopic : (utf8 topic).length ≤ topicCapacity) (hpayload : payload.length ≤ payloadCapacity)
    (h : c.transport.Accepts (c.publicationPacket qos htopic hpayload).bytes.length) :
    ∃ t, publish (utf8 topic) payload qos c = .ok () { c with
        transport := t
        lastPacketId := (c.publication topic payload qos).packetId.getD c.lastPacketId } ∧
      t.sent = c.transport.sent ++ (c.publicationPacket qos htopic hpayload).bytes := by
  have short := (c.publicationPacket qos htopic hpayload).short
  have hsends : Sends (Wire.sendPacket (publishFlags qos) (c.publicationBody topic payload qos))
      (c.publicationPacket qos htopic hpayload).bytes () := Wire.sendPacket_sends short
  obtain ⟨t, hsend, hsent, -⟩ := hsends c.transport 0 h
  refine ⟨t, ?_, hsent⟩
  rw [publish_fits served htopic hpayload]
  unfold onWire
  dsimp only
  rw [hsend]

/-- The packet gives the message back to whoever polls it. -/
theorem publication_answer (served : qos ≠ .exactlyOnce)
    (htopic : (utf8 topic).length ≤ topicCapacity) (hpayload : payload.length ≤ payloadCapacity) :
    (c.publicationPacket qos htopic hpayload).answer =
      .ok (some (c.publication topic payload qos)) := by
  have hpublishes : Publishes (publishFlags qos) (c.publicationBody topic payload qos)
      (c.publication topic payload qos) := c.publishes_publication served htopic
  have hfits : (c.publication topic payload qos).Fits := ⟨htopic, hpayload⟩
  have hanswer := (c.publicationPacket qos htopic hpayload).answered.message _
    (length_fitting _ htopic hpayload) hpublishes
  rw [hanswer, if_pos hfits]

theorem publish_refusals (c : Client) (topic : String) (payload : Bytes) (qos : QoS) :
    let published := outcome (publish (utf8 topic) payload qos c)
    (published.1 = .error .protocolError ↔ qos = .exactlyOnce) ∧
    (published.1 = .error .packetTooLarge ↔ qos ≠ .exactlyOnce ∧
      (topicCapacity < (utf8 topic).length ∨ payloadCapacity < payload.length)) ∧
    (published.1 = .error .protocolError ∨ published.1 = .error .packetTooLarge →
      published.2 = c) := by
  dsimp only
  by_cases hqos : qos = .exactlyOnce
  · subst hqos
    rw [publish_exactlyOnce]
    simp [outcome]
  by_cases hlarge : topicCapacity < (utf8 topic).length ∨ payloadCapacity < payload.length
  · rw [publish_tooLarge hqos hlarge]
    simp [outcome, hqos, hlarge]
  have htopic : (utf8 topic).length ≤ topicCapacity := by omega
  have hpayload : payload.length ≤ payloadCapacity := by omega
  have herror : ∀ e, (outcome (publish (utf8 topic) payload qos c)).1 = .error e →
      e = .writeError := fun e => publish_fits_error hqos htopic hpayload
  have hprotocol : (outcome (publish (utf8 topic) payload qos c)).1 ≠ .error .protocolError :=
    fun h => nomatch herror _ h
  have htooLarge : (outcome (publish (utf8 topic) payload qos c)).1 ≠ .error .packetTooLarge :=
    fun h => nomatch herror _ h
  simp [hprotocol, htooLarge, hqos, hlarge]

/-- A publication is refused for its quality of service or else for its size, and then nothing has
happened. Any other goes out as one packet, which gives the message back to every client that polls
it off a stream. -/
theorem publish_round_trip (c : Client) (topic : String) (payload : Bytes) (qos : QoS) :
    let published := outcome (publish (utf8 topic) payload qos c)
    let m := c.publication topic payload qos
    (published.1 = .error .protocolError ↔ qos = .exactlyOnce) ∧
    (published.1 = .error .packetTooLarge ↔ qos ≠ .exactlyOnce ∧
      (topicCapacity < (utf8 topic).length ∨ payloadCapacity < payload.length)) ∧
    (published.1 = .error .protocolError ∨ published.1 = .error .packetTooLarge →
      published.2 = c) ∧
    (qos ≠ .exactlyOnce → (utf8 topic).length ≤ topicCapacity →
      payload.length ≤ payloadCapacity → ∃ p : Packet,
        (c.transport.Accepts p.bytes.length → published.1 = .ok () ∧
          published.2.transport.sent = c.transport.sent ++ p.bytes ∧
          published.2.lastPacketId = m.packetId.getD c.lastPacketId) ∧
        ∀ (d : Client) (ps : List Packet), d.pending = none → d.transport.Delivers (p :: ps) →
          d.transport.begins = true → (m.packetId.isSome = true → d.transport.Accepts 4) →
          d.pollResult = .ok (some m) ∧ d.polled.transport.Delivers ps) := by
  obtain ⟨hqos, hlarge, hsame⟩ := publish_refusals c topic payload qos
  refine ⟨hqos, hlarge, hsame, fun served htopic hpayload => ?_⟩
  refine ⟨c.publicationPacket qos htopic hpayload, fun haccepts => ?_, ?_⟩
  · obtain ⟨t, hpublish, hsent⟩ := publish_accepted served htopic hpayload haccepts
    rw [hpublish]
    exact ⟨rfl, hsent, rfl⟩
  · intro d ps pending hdelivers hbegins haccepts
    rcases polled_delivers pending hdelivers with ⟨hidle, -⟩ | ⟨p, more, hps, -, hmore, hresult⟩
    · rw [hbegins] at hidle
      cases hidle
    · cases hps
      have hanswer := publication_answer (c := c) served htopic hpayload
      have hack := Packet.acknowledged_of_ok hanswer
      exact ⟨(hresult (by rw [hack]; exact haccepts)).trans hanswer, hmore⟩

def worn : Client :=
  { ofTransport { outlet := { limit := fun _ => some 1 } } with lastPacketId := 0xFFFF }

def fed (b : Bytes) : Client := .ofTransport { inbox := [.data b] }

theorem fed_delivers (ps : List Packet) :
    (fed (ps.flatMap Packet.bytes)).transport.Delivers ps where
  readable := ⟨rfl, nofun⟩
  stream := by
    cases ps with
    | nil => exact .rest rfl
    | cons p more =>
      have hbytes : (p :: more).flatMap Packet.bytes ≠ [] := List.cons_ne_nil _ _
      change Delivers _ (readings [.data _])
      rw [readings_data hbytes]
      clear hbytes
      induction p :: more with
      | nil => exact .rest rfl
      | cons q ps ih =>
        rw [List.flatMap_cons, List.map_append, List.append_assoc]
        exact @Delivers.packet q ps [] _ _ rfl (.whole q.tail _) ih

theorem worn_accepts (n : Nat) : worn.transport.Accepts n where
  opened := rfl
  takes _ _ := ⟨rfl, by simp [worn, ofTransport]⟩
  budget := nofun
  flushes _ _ := rfl

theorem fed_accepts (b : Bytes) (n : Nat) : (fed b).transport.Accepts n where
  opened := rfl
  takes _ _ := ⟨rfl, nofun⟩
  budget := nofun
  flushes _ _ := rfl

theorem publication_fed_back :
    let published := outcome (publish (utf8 "t") [] .atLeastOnce worn)
    published.1 = .ok () ∧ published.2.lastPacketId = 1 ∧
      (fed published.2.transport.sent).pollResult =
        .ok (some ⟨"t", [], .atLeastOnce, some 1⟩) := by
  obtain ⟨-, -, -, hfits⟩ := publish_round_trip worn "t" [] .atLeastOnce
  obtain ⟨p, hsend, hpoll⟩ := hfits (by decide) (by decide +kernel) (by decide)
  obtain ⟨hok, hsent, hid⟩ := hsend (worn_accepts _)
  have hdelivers := fed_delivers [p]
  rw [List.flatMap_singleton] at hdelivers
  obtain ⟨hresult, -⟩ := hpoll (fed p.bytes) [] rfl hdelivers rfl
    fun _ => fed_accepts p.bytes 4
  refine ⟨hok, hid, ?_⟩
  rw [hsent]
  exact hresult

end Client

end HubDevice.Mqtt
