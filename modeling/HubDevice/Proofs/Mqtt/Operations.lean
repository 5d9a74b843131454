import HubDevice.Proofs.Mqtt.Acknowledging
import HubDevice.Proofs.Mqtt.Connecting

set_option autoImplicit false

namespace HubDevice.Mqtt

open Transport (SameReads writeAll flush readExact)

/-- A link that accepted everything still does, and no more than acknowledgements were written. -/
def Transport.Acknowledges (t t' : Transport) : Prop :=
  (∀ n, t.Accepts n) → (∀ n, t'.Accepts n) ∧
    ∃ ids : List UInt16, t'.sent = t.sent ++ ids.flatMap pubackLayout

namespace Transport.Acknowledges

variable {t t' t'' : Transport}

theorem inbox (t : Transport) (inbox : List Arrival) : t.Acknowledges { t with inbox } :=
  fun accepts => ⟨fun n => (accepts n).inbox inbox, [], (List.append_nil _).symm⟩

theorem trans (h : t.Acknowledges t') (h' : t'.Acknowledges t'') : t.Acknowledges t'' := by
  intro accepts
  obtain ⟨accepts1, ids, hsent⟩ := h accepts
  obtain ⟨accepts2, more, hsent'⟩ := h' accepts1
  refine ⟨accepts2, ids ++ more, ?_⟩
  rw [hsent', hsent, List.flatMap_append, List.append_assoc]

end Transport.Acknowledges

theorem Packet.message?_of_decode {p : Packet} {body : Bytes} {m : Message}
    (hkept : p.kept = some body) (hpublish : isPublish p.header = true)
    (hdecode : Message.decode p.header body = .ok m) : p.message? = some m := by
  refine Packet.message?_of_ok ?_
  rw [answer, hkept]
  dsimp only
  rw [if_pos hpublish, hdecode]
  rfl

namespace Wire

variable {header : UInt8} {body : Bytes} {t t' : Transport}

theorem readPacket_eq_ok {kept : Option Bytes} (h : readPacket t = .ok (header, kept) t') :
    ∃ p : Packet, p.header = header ∧ p.kept = kept ∧
      arriving t.inbox = p.bytes ++ arriving t'.inbox := by
  rcases readPacket_frames t with ⟨p, inbox, hread, harrive⟩ | ⟨e, inbox, gone, hread, -, -⟩
  · rw [hread] at h
    cases h
    exact ⟨p, rfl, rfl, harrive⟩
  · rw [hread] at h
    cases h

theorem readPacket_acknowledges (t : Transport) : t.Acknowledges (outcome (readPacket t)).2 := by
  rcases readPacket_frames t with ⟨p, inbox, hread, -⟩ | ⟨e, inbox, gone, hread, -, -⟩ <;>
    rw [hread] <;> exact .inbox t inbox

theorem decode_of_receive {m : Message} (h : receive header body t = .ok m t') :
    Message.decode header body = .ok m := by
  unfold receive at h
  obtain ⟨m', t1, hlift, h⟩ := bind_eq_ok_state h
  obtain ⟨_, t2, -, h⟩ := bind_eq_ok_state h
  cases h
  cases hdecode : Message.decode header body with
  | error e =>
    rw [hdecode] at hlift
    cases hlift
  | ok m'' =>
    rw [hdecode] at hlift
    cases hlift
    rfl

theorem receive_acknowledges (header : UInt8) (body : Bytes) (t : Transport) :
    t.Acknowledges (outcome (receive header body t)).2 := by
  intro accepts
  cases hdecode : Message.decode header body with
  | error e =>
    rw [receive_refused hdecode]
    exact ⟨accepts, [], (List.append_nil _).symm⟩
  | ok m =>
    obtain ⟨t', hack, hsent, accepts'⟩ := (acknowledge_sends m.packetId).accepted accepts
    have hreceive : receive header body t = .ok m t' := by
      unfold receive
      rw [hdecode]
      exact bind_of_ok hack
    rw [hreceive]
    refine ⟨accepts', m.packetId.toList, hsent.trans ?_⟩
    cases m.packetId with
    | none => rfl
    | some packetId => rw [Option.toList_some, List.flatMap_singleton]; rfl

theorem takeUp_eq_ok {p : Packet} {m : Option Message} (h : takeUp p.header p.kept t = .ok m t') :
    p.message? = m ∧ t'.inbox = t.inbox := by
  have hreads := (takeUp_sameReads p.header p.kept t).inbox
  rw [h] at hreads
  rw [takeUp_eq] at h
  obtain ⟨m', t1, hlift, h⟩ := bind_eq_ok_state h
  obtain ⟨_, t2, -, h⟩ := bind_eq_ok_state h
  cases h
  refine ⟨Packet.message?_of_ok ?_, hreads⟩
  cases hanswer : p.answer with
  | error e =>
    rw [hanswer] at hlift
    cases hlift
  | ok m'' =>
    rw [hanswer] at hlift
    cases hlift
    rfl

theorem takePacket_acknowledges (t : Transport) :
    t.Acknowledges (outcome (takePacket t)).2 := by
  rcases takePacket_frames t with ⟨inbox, htake, -⟩ | ⟨e, inbox, gone, htake, -, -⟩ |
    ⟨p, inbox, htake, -⟩
  · rw [htake]
    exact .inbox t inbox
  · rw [htake]
    exact .inbox t inbox
  · rw [htake]
    refine (Transport.Acknowledges.inbox t inbox).trans fun accepts => ?_
    obtain ⟨t', hanswer, -, hsent, accepts'⟩ := takeUp_accepted p accepts
    rw [hanswer]
    refine ⟨accepts', p.acknowledged.toList, hsent.trans ?_⟩
    cases p.acknowledged with
    | none => rfl
    | some packetId => rw [Option.toList_some, List.flatMap_singleton]; rfl

end Wire

namespace Client

variable {c c' c'' : Client} {packetId : UInt16} {topic : Bytes} {qos : QoS}

/-- These packets were taken off what arrives. A message that is held then was held before or came
in one of them. -/
structure Hears (c c' : Client) (taken : List Packet) : Prop where
  stream : arriving c.transport.inbox = taken.flatMap Packet.bytes ++ arriving c'.transport.inbox
  pending : ∀ m, c'.pending = some m → c.pending = some m ∨ ∃ p ∈ taken, p.message? = some m

theorem Hears.nothing (hinbox : c'.transport.inbox = c.transport.inbox)
    (hpending : c'.pending = c.pending) : Hears c c' [] where
  stream := by
    rw [hinbox]
    rfl
  pending m h := .inl (hpending.symm.trans h)

theorem Hears.trans {ps qs : List Packet} (h : Hears c c' ps) (h' : Hears c' c'' qs) :
    Hears c c'' (ps ++ qs) where
  stream := by
    rw [h.stream, h'.stream, List.flatMap_append, List.append_assoc]
  pending m hm := by
    rcases h'.pending m hm with hheld | ⟨p, hp, hmessage⟩
    · rcases h.pending m hheld with hfirst | ⟨p, hp, hmessage⟩
      · exact .inl hfirst
      · exact .inr ⟨p, List.mem_append_left qs hp, hmessage⟩
    · exact .inr ⟨p, List.mem_append_right ps hp, hmessage⟩

/-- One packet was read, and held is what it brought or what was held before. -/
theorem Hears.packet {p : Packet}
    (stream : arriving c.transport.inbox = p.bytes ++ arriving c'.transport.inbox)
    (pending : c'.pending = c.pending ∨ c'.pending = p.message?) : Hears c c' [p] where
  stream := by
    rw [List.flatMap_singleton]
    exact stream
  pending m hm := by
    rcases pending with hsame | hnew
    · exact .inl (hsame.symm.trans hm)
    · exact .inr ⟨p, List.mem_singleton_self p, hnew.symm.trans hm⟩

theorem Hears.onward {p : Packet} (h : Hears c c' [p]) (h' : ∃ taken, Hears c' c'' taken) :
    ∃ taken, Hears c c'' taken := by
  obtain ⟨taken, hrest⟩ := h'
  exact ⟨[p] ++ taken, h.trans hrest⟩

/-- A wait that succeeds has read whole packets. -/
theorem awaitSuback_hears (h : awaitSuback packetId c = .ok () c') :
    ∃ taken, Hears c c' taken := by
  fun_induction awaitSuback packetId c with
  | case1 => cases h
  | case2 c header t hread ih =>
    obtain ⟨p, -, -, stream⟩ := Wire.readPacket_eq_ok hread
    have hfirst : Hears c { c with transport := t } [p] := .packet stream (.inl rfl)
    exact hfirst.onward (ih h)
  | case3 c body t _ hread =>
    obtain ⟨p, -, -, stream⟩ := Wire.readPacket_eq_ok hread
    cases h
    exact ⟨[p], .packet stream (.inl rfl)⟩
  | case4 => cases h
  | case5 => cases h
  | case6 c header body t hread _ hpublish m t' hreceive ih =>
    obtain ⟨p, rfl, hkept, stream⟩ := Wire.readPacket_eq_ok hread
    have hmessage := Packet.message?_of_decode hkept hpublish (Wire.decode_of_receive hreceive)
    rw [← Wire.inbox_receive hreceive] at stream
    have hfirst : Hears c { c with transport := t', pending := some m } [p] :=
      .packet stream (.inr hmessage.symm)
    exact hfirst.onward (ih h)
  | case7 c header body t hread _ _ ih =>
    obtain ⟨p, -, -, stream⟩ := Wire.readPacket_eq_ok hread
    have hfirst : Hears c { c with transport := t } [p] := .packet stream (.inl rfl)
    exact hfirst.onward (ih h)

theorem subscribe_hears (h : subscribe topic qos c = .ok () c') : ∃ taken, Hears c c' taken := by
  by_cases hlong : topicCapacity < topic.length
  · rw [subscribe_tooLong hlong] at h
    cases h
  rw [subscribe_fits (Nat.not_lt.1 hlong)] at h
  dsimp only at h
  generalize nextPacketId c.lastPacketId = packetId at h
  have hreads := Wire.sendPacket_sameReads subscribeHeader (subscribeBody packetId topic qos)
    c.transport
  cases hsend : Wire.sendPacket subscribeHeader (subscribeBody packetId topic qos) c.transport with
  | error e t =>
    rw [hsend] at h
    cases h
  | ok u t =>
    rw [hsend] at h hreads
    obtain ⟨taken, hears⟩ := awaitSuback_hears h
    have hrequest : Hears c { c with transport := t, lastPacketId := packetId } [] :=
      .nothing hreads.inbox rfl
    exact ⟨[] ++ taken, hrequest.trans hears⟩

/-- A message that a poll hands out was held, or it came in the packet that was read. -/
theorem poll_hears {got : Option Message} (h : poll c = .ok got c') :
    ∃ taken, Hears c c' taken ∧
      ∀ m, got = some m → c.pending = some m ∨ ∃ p ∈ taken, p.message? = some m := by
  cases hpending : c.pending with
  | some held =>
    rw [poll_held hpending] at h
    cases h
    refine ⟨[], ⟨rfl, fun m hm => ?_⟩, fun m hm => .inl hm⟩
    cases hm
  | none =>
    rw [poll_eq hpending, onWire] at h
    rcases Wire.takePacket_frames c.transport with ⟨inbox, htake, harrive⟩ |
      ⟨e, inbox, gone, htake, -, -⟩ | ⟨p, inbox, htake, harrive⟩
    · rw [htake] at h
      cases h
      refine ⟨[], ⟨harrive, fun m hm => .inl hm⟩, fun m hm => ?_⟩
      cases hm
    · rw [htake] at h
      cases h
    · rw [htake] at h
      cases htaken : Wire.takeUp p.header p.kept { c.transport with inbox } with
      | error e t =>
        rw [htaken] at h
        cases h
      | ok m t =>
        rw [htaken] at h
        cases h
        obtain ⟨hmessage, hinbox⟩ := Wire.takeUp_eq_ok htaken
        change t.inbox = inbox at hinbox
        rw [← hinbox] at harrive
        refine ⟨[p], .packet harrive (.inl rfl), fun m hm => .inr ⟨p, ?_, ?_⟩⟩
        · exact List.mem_singleton_self p
        · rw [hmessage, hm]

theorem publish_hears (topic payload : Bytes) (c : Client) :
    Hears c (outcome (publish topic payload .atMostOnce c)).2 [] := by
  rw [publish_atMostOnce]
  split
  · exact .nothing rfl rfl
  · rw [outcome_onWire]
    exact .nothing (Wire.sendPacket_sameReads _ _ _).inbox rfl

theorem awaitSuback_acknowledges (packetId : UInt16) (c : Client) :
    c.transport.Acknowledges (outcome (awaitSuback packetId c)).2.transport ∧
      (outcome (awaitSuback packetId c)).2.lastPacketId = c.lastPacketId := by
  have reads {t t' : Transport} {r} (h : Wire.readPacket t = .ok r t') : t.Acknowledges t' := by
    have hread := Wire.readPacket_acknowledges t
    rw [h] at hread
    exact hread
  fun_induction awaitSuback packetId c with
  | case1 c e t hread =>
    have hfailed := Wire.readPacket_acknowledges c.transport
    rw [hread] at hfailed
    exact ⟨hfailed, rfl⟩
  | case2 c header t hread ih => exact ⟨(reads hread).trans ih.1, ih.2⟩
  | case3 c body t _ hread => exact ⟨reads hread, rfl⟩
  | case4 c body t e _ hread => exact ⟨reads hread, rfl⟩
  | case5 c header body t hread _ _ e t' hreceive =>
    have hfailed := Wire.receive_acknowledges header body t
    rw [hreceive] at hfailed
    exact ⟨(reads hread).trans hfailed, rfl⟩
  | case6 c header body t hread _ _ m t' hreceive ih =>
    have hreceived := Wire.receive_acknowledges header body t
    rw [hreceive] at hreceived
    exact ⟨((reads hread).trans hreceived).trans ih.1, ih.2⟩
  | case7 c header body t hread _ _ ih => exact ⟨(reads hread).trans ih.1, ih.2⟩

theorem poll_acknowledges (c : Client) :
    c.transport.Acknowledges (outcome (poll c)).2.transport := by
  cases hpending : c.pending with
  | some m =>
    rw [poll_held hpending]
    exact .inbox c.transport c.transport.inbox
  | none =>
    rw [poll_eq hpending, outcome_onWire]
    exact Wire.takePacket_acknowledges c.transport

/-- Where everything is accepted a subscription writes its request under the next identifier, and
then acknowledgements. -/
theorem subscribe_writes (qos : QoS) (h : topic.length ≤ topicCapacity)
    (accepts : ∀ n, c.transport.Accepts n) :
    let asked := (outcome (subscribe topic qos c)).2
    ∃ ids : List UInt16, (∀ n, asked.transport.Accepts n) ∧
      asked.transport.sent = c.transport.sent ++
        (Outgoing.request (nextPacketId c.lastPacketId) topic qos).bytes ++
        ids.flatMap pubackLayout ∧
      asked.lastPacketId = nextPacketId c.lastPacketId := by
  obtain ⟨packetId, t, rfl, -, accepts1, hsent, heq⟩ := subscribe_sent qos h accepts
  rw [heq]
  obtain ⟨hacks, hlast⟩ := awaitSuback_acknowledges (nextPacketId c.lastPacketId)
    { c with transport := t, lastPacketId := nextPacketId c.lastPacketId }
  obtain ⟨accepts2, ids, hsent'⟩ := hacks accepts1
  refine ⟨ids, accepts2, ?_, hlast⟩
  rw [hsent', hsent]

variable {o : Options} {t t' : Transport}

theorem connect_eq_ok (h : connect o t = .ok c t') :
    c = ofTransport t' ∧ ∃ answer : Bytes, answer.length = 4 ∧
      arriving t.inbox = answer ++ arriving t'.inbox := by
  by_cases hlarge : connectCapacity < o.size
  · rw [connect_large hlarge] at h
    cases h
  have hfits := Nat.not_lt.1 hlarge
  have same := Wire.present_sameReads o t
  cases hpresent : Wire.present o t with
  | error e t1 =>
    unfold connect at h
    rw [Wire.handshake_fits hfits, bind_assoc, bind_of_error hpresent] at h
    cases h
  | ok u t1 =>
    rw [hpresent] at same
    change SameReads t t1 at same
    rcases readExact_ends 4 t1 with ⟨answer, inbox, hread, hlength, harrive⟩ |
      ⟨e, inbox, gone, hread, -, -, -⟩
    · have hanswered := connect_answered hfits hpresent hread
      rw [h] at hanswered
      obtain ⟨hresult, rfl⟩ := Prod.mk.inj hanswered
      refine ⟨?_, answer, hlength, ?_⟩
      · cases hcheck : Wire.checkConnack answer with
        | error e =>
          rw [hcheck] at hresult
          cases hresult
        | ok u =>
          rw [hcheck] at hresult
          cases hresult
          rfl
      · rw [← same.inbox]
        exact harrive
    · rw [connect_unanswered hfits hpresent hread] at h
      cases h

theorem connect_writes (o : Options) (accepts : ∀ n, t.Accepts n) :
    (∃ e, connect o t = .error e t) ∨
      ∃ h : o.size ≤ connectCapacity,
        (outcome (connect o t)).2.sent = t.sent ++ (o.packet h).bytes ∧
        ∀ n, (outcome (connect o t)).2.Accepts n := by
  by_cases hlarge : connectCapacity < o.size
  · exact .inl ⟨_, connect_large hlarge t⟩
  have hfits := Nat.not_lt.1 hlarge
  obtain ⟨t1, hpresent, hsent, accepts1⟩ := (Wire.present_sends hfits).accepted accepts
  refine .inr ⟨hfits, ?_⟩
  rcases readExact_ends 4 t1 with ⟨answer, inbox, hread, -, -⟩ | ⟨e, inbox, gone, hread, -, -, -⟩
  · rw [connect_answered hfits hpresent hread]
    exact ⟨hsent, fun n => (accepts1 n).inbox inbox⟩
  · rw [connect_unanswered hfits hpresent hread]
    exact ⟨hsent, fun n => (accepts1 n).inbox inbox⟩

/-- A farewell that succeeds has written its packet and then closed the link. -/
theorem disconnect_eq_ok (h : disconnect c = .ok () c') :
    ∃ t : Transport, t.sent = c.transport.sent ++ [0xE0, 0] ∧ t.inbox = c.transport.inbox ∧
      t.closed = false ∧ c' = { c with transport := { t with closed := true } } := by
  unfold disconnect onWire at h
  split at h
  · next u t' hwire =>
    cases h
    obtain ⟨_, t1, hwrite, hwire⟩ := bind_eq_ok_state hwire
    obtain ⟨_, t2, hflush, hclose⟩ := bind_eq_ok_state hwire
    have hsent := Transport.flush_sent t1
    have hinbox := Transport.inbox_flush hflush
    rw [hflush] at hsent
    change t2.sent = t1.sent at hsent
    unfold Transport.close at hclose
    split at hclose
    · cases hclose
    · next hopen =>
      cases hclose
      refine ⟨t2, ?_, ?_, ?_, rfl⟩
      · rw [hsent, Transport.sent_of_writeAll hwrite]
        rfl
      · rw [hinbox, Transport.inbox_writeAll hwrite]
      · simp only [Bool.or_eq_true, not_or, Bool.not_eq_true] at hopen
        exact hopen.1
  · cases h

theorem disconnect_writes (accepts : ∀ n, c.transport.Accepts n) :
    (outcome (disconnect c)).2.transport.sent = c.transport.sent ++ [0xE0, 0] := by
  have hsends : Sends (do writeAll [disconnectHeader, 0]; flush) [disconnectHeader, 0] () :=
    Sends.last (writeAll_sends _) flush_sends
  obtain ⟨t, hwrite, hsent, -⟩ := hsends.accepted accepts
  have hdisconnect : disconnect =
      onWire ((do writeAll [disconnectHeader, 0]; flush) >>= fun _ => Transport.close) := by
    rw [bind_assoc]
    rfl
  rw [hdisconnect, outcome_onWire, bind_of_ok hwrite]
  unfold Transport.close
  split <;> exact hsent

end Client

end HubDevice.Mqtt
