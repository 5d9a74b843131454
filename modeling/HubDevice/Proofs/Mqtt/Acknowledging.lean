import HubDevice.Proofs.Mqtt.Framing
import HubDevice.Proofs.Mqtt.Publishing

set_option autoImplicit false

namespace HubDevice.Mqtt

open Transport (SameReads)

namespace Wire

/-- What a poll finds: nothing, a part of a packet, or a packet. -/
theorem takePacket_frames (t : Transport) :
    (∃ inbox, takePacket t = .ok none { t with inbox } ∧ arriving t.inbox = arriving inbox) ∨
    (∃ e inbox gone, takePacket t = .error e { t with inbox } ∧
      arriving t.inbox = gone ++ arriving inbox ∧ Partial gone) ∨
    ∃ (p : Packet) (inbox : _), takePacket t = takeUp p.header p.kept { t with inbox } ∧
      arriving t.inbox = p.bytes ++ arriving inbox := by
  rcases Transport.read_takes 1 t with ⟨b, inbox, hread, harrive, hlength⟩ | ⟨inbox, hread, harrive⟩
  · cases b with
    | nil => exact .inl ⟨inbox, (takePacket_of_nothing hread).2, harrive⟩
    | cons header more =>
      obtain rfl : more = [] :=
        List.length_eq_zero_iff.1 (Nat.le_zero.1 (Nat.le_of_succ_le_succ hlength))
      rcases readBody_frames header { t with inbox } with ⟨p, inbox', rfl, hbody, hmore⟩ |
        ⟨e, inbox', gone, hbody, hmore, cut⟩
      · refine .inr (.inr ⟨p, inbox', (takePacket_of_byte hread hbody).2, ?_⟩)
        rw [harrive, hmore]
        rfl
      · refine .inr (.inl ⟨e, inbox', header :: gone, ?_, ?_, cut⟩)
        · exact (bind_of_ok hread).trans (bind_of_error hbody)
        · rw [harrive, hmore]
          rfl
  · exact .inr (.inl ⟨_, inbox, [], (takePacket_of_failure hread).2, harrive.symm, partial_nil⟩)

end Wire

inductive Outgoing where
  | request (packetId : UInt16) (topic : Bytes) (qos : QoS)
  | acknowledgement (packetId : UInt16)
  deriving DecidableEq, Repr

namespace Outgoing

def bytes : Outgoing → Bytes
  | request packetId topic qos =>
    let body := subscribeLayout packetId topic qos
    0x82 :: lengthField body.length ++ body
  | acknowledgement packetId => pubackLayout packetId

def acknowledged? : Outgoing → Option UInt16
  | request .. => none
  | acknowledgement packetId => some packetId

end Outgoing

namespace Client

inductive Call where
  | subscribe (topic : Bytes) (qos : QoS)
  | poll
  deriving DecidableEq, Repr

def Call.action : Call → Action (Option Message)
  | subscribe topic qos => do
    Client.subscribe topic qos
    return none
  | poll => Client.poll

def result (c : Client) (call : Call) : Except LinkError (Option Message) :=
  (outcome (call.action c)).1

def after (c : Client) (call : Call) : Client := (outcome (call.action c)).2

def afterCalls : List Call → Client → Client
  | [], c => c
  | call :: calls, c => afterCalls calls (c.after call)

def handed? (c : Client) (call : Call) : Option Message := (c.result call).toOption.join

def handed : List Call → Client → List Message
  | [], _ => []
  | call :: calls, c => (c.handed? call).toList ++ handed calls (c.after call)

/-- The run takes these packets off whatever arrives. A call that fails may break off inside a
packet; what it has read of that packet is gone. -/
inductive Takes : List Call → Client → List Packet → Prop
  | done (c : Client) : Takes [] c []
  | call {call : Call} {calls : List Call} {c : Client} {ps qs : List Packet} {gone : Bytes}
    (stream : arriving c.transport.inbox =
      ps.flatMap Packet.bytes ++ gone ++ arriving (c.after call).transport.inbox)
    (cut : Partial gone) (failed : gone ≠ [] → ∃ e, c.result call = .error e)
    (rest : Takes calls (c.after call) qs) : Takes (call :: calls) c (ps ++ qs)

/-- What the client has written and handed out since it was `c`, taking these packets. -/
structure Progress (c c' : Client) (taken : List Packet) (out : List Outgoing)
    (given : List Message) : Prop where
  accepts : ∀ n, c'.transport.Accepts n
  sent : c'.transport.sent = c.transport.sent ++ out.flatMap Outgoing.bytes
  acknowledged : out.filterMap Outgoing.acknowledged? = taken.filterMap Packet.acknowledged
  messages : List.Sublist (given ++ c'.pending.toList)
    (c.pending.toList ++ taken.filterMap Packet.message?)

theorem Progress.refl {c : Client} (accepts : ∀ n, c.transport.Accepts n) :
    Progress c c [] [] [] where
  accepts
  sent := (List.append_nil _).symm
  acknowledged := rfl
  messages := by
    simp only [List.nil_append, List.filterMap_nil, List.append_nil, List.Sublist.refl]

theorem Progress.trans {c c' c'' : Client} {ps qs : List Packet} {out out' : List Outgoing}
    {given given' : List Message} (h : Progress c c' ps out given)
    (h' : Progress c' c'' qs out' given') :
    Progress c c'' (ps ++ qs) (out ++ out') (given ++ given') where
  accepts := h'.accepts
  sent := by
    rw [h'.sent, h.sent, List.flatMap_append, List.append_assoc]
  acknowledged := by
    rw [List.filterMap_append, List.filterMap_append, h.acknowledged, h'.acknowledged]
  messages := by
    have hlast := h'.messages.append_left given
    have hfirst := h.messages.append_right (qs.filterMap Packet.message?)
    rw [List.append_assoc] at hfirst
    rw [List.append_assoc, List.filterMap_append, ← List.append_assoc c.pending.toList]
    exact hlast.trans hfirst

theorem Progress.packet {c : Client} {t : Transport} {p : Packet} {pending : Option Message}
    {given : List Message} (accepts : ∀ n, t.Accepts n)
    (sent : t.sent = c.transport.sent ++ p.acknowledged.elim [] pubackLayout)
    (messages : List.Sublist (given ++ pending.toList) (c.pending.toList ++ p.message?.toList)) :
    Progress c { c with transport := t, pending } [p]
      (p.acknowledged.toList.map .acknowledgement) given where
  accepts
  sent := by
    rw [sent]
    cases p.acknowledged <;> simp [Outgoing.bytes]
  acknowledged := by
    cases h : p.acknowledged <;> simp [Outgoing.acknowledged?, h]
  messages := by
    have hone : [p].filterMap Packet.message? = p.message?.toList := by
      cases h : p.message? <;> simp [h]
    rw [hone]
    exact messages

theorem Progress.silent {c : Client} {t : Transport} {p : Packet} (accepts : ∀ n, t.Accepts n)
    (sent : t.sent = c.transport.sent) (h : p.message? = none) :
    Progress c { c with transport := t } [p] [] [] := by
  have hack : p.acknowledged = none := by
    rw [Packet.acknowledged, h]
    rfl
  have hpacket : Progress c { c with transport := t } [p]
      (p.acknowledged.toList.map .acknowledgement) [] := by
    refine .packet accepts ?_ ?_
    · rw [sent, hack]
      exact (List.append_nil _).symm
    · exact List.sublist_append_left _ _
  rw [hack] at hpacket
  exact hpacket

/-- Packets are taken off what arrives and served. Only if that fails a part of a packet is gone. -/
def Serves {α : Type} (c : Client) (r : Except LinkError α × Client)
    (given : List Message) : Prop :=
  ∃ taken gone out,
    arriving c.transport.inbox =
      taken.flatMap Packet.bytes ++ gone ++ arriving r.2.transport.inbox ∧
    Partial gone ∧ (gone ≠ [] → ∃ e, r.1 = .error e) ∧ Progress c r.2 taken out given

variable {α : Type} {c c' : Client} {r : Except LinkError α × Client} {topic : Bytes} {qos : QoS}

theorem Serves.stop {p : Packet} {out : List Outgoing} {given : List Message}
    (stream : arriving c.transport.inbox = p.bytes ++ arriving r.2.transport.inbox)
    (h : Progress c r.2 [p] out given) : Serves c r given := by
  refine ⟨[p], [], out, ?_, partial_nil, fun h => absurd rfl h, h⟩
  rw [stream]
  simp

theorem Serves.trans {ps : List Packet} {out : List Outgoing} {given given' : List Message}
    (stream : arriving c.transport.inbox = ps.flatMap Packet.bytes ++ arriving c'.transport.inbox)
    (h : Progress c c' ps out given) (h' : Serves c' r given') : Serves c r (given ++ given') := by
  obtain ⟨taken, gone, out', stream', cut, failed, hprogress⟩ := h'
  refine ⟨ps ++ taken, gone, out ++ out', ?_, cut, failed, h.trans hprogress⟩
  rw [stream, stream', List.flatMap_append]
  simp only [List.append_assoc]

theorem Serves.next {p : Packet} {out : List Outgoing} {given given' : List Message}
    (stream : arriving c.transport.inbox = p.bytes ++ arriving c'.transport.inbox)
    (h : Progress c c' [p] out given) (h' : Serves c' r given') : Serves c r (given ++ given') := by
  refine .trans ?_ h h'
  rw [stream, List.flatMap_singleton]

/-- The part of a packet that was read before the reading failed is gone. -/
theorem Serves.cut {inbox : List Arrival} {gone : Bytes} {e : LinkError}
    (accepts : ∀ n, c.transport.Accepts n)
    (stream : arriving c.transport.inbox = gone ++ arriving inbox) (cut : Partial gone) :
    @Serves α c (.error e, { c with transport := { c.transport with inbox } }) [] := by
  refine ⟨[], gone, [], stream, cut, fun _ => ⟨e, rfl⟩, ?_⟩
  exact {
    Progress.refl accepts with
    accepts := fun n => (accepts n).inbox inbox }

theorem awaitSuback_eq (packetId : UInt16) (c : Client) :
    awaitSuback packetId c =
      match Wire.readPacket c.transport with
      | .error e transport => .error e { c with transport }
      | .ok (_, none) transport => awaitSuback packetId { c with transport }
      | .ok (header, some body) transport =>
        if header = subackHeader then
          match checkSuback packetId body with
          | .ok () => .ok () { c with transport }
          | .error e => .error e { c with transport }
        else if isPublish header then
          match Wire.receive header body transport with
          | .error e transport => .error e { c with transport }
          | .ok message transport =>
            awaitSuback packetId { c with transport, pending := some message }
        else awaitSuback packetId { c with transport } := by
  rw [awaitSuback]
  split
  · next h => rw [h]
  · next h => rw [h]
  · next header body transport h =>
    rw [h]
    dsimp only
    split
    · rfl
    · split
      · cases Wire.receive header body transport <;> rfl
      · rfl

/-- With a packet that it has read the wait ends, or it goes on behind it. -/
theorem awaitSuback_step {packetId : UInt16} {c : Client} {p : Packet} {t : Transport}
    (hread : Wire.readPacket c.transport = .ok (p.header, p.kept) t)
    (hsent : t.sent = c.transport.sent) :
    ∃ c', SameReads t c'.transport ∧
      ((∀ n, t.Accepts n) →
        c'.pending = p.message?.or c.pending ∧ ∃ out, Progress c c' [p] out []) ∧
      ((∃ r, outcome (awaitSuback packetId c) = (r, c')) ∨
        awaitSuback packetId c = awaitSuback packetId c') := by
  rw [awaitSuback_eq, hread]
  have hsilent : p.message? = none → (∀ n, t.Accepts n) →
      c.pending = p.message?.or c.pending ∧
        ∃ out, Progress c { c with transport := t } [p] out [] :=
    fun h accepts => ⟨by rw [h, Option.none_or], [], .silent accepts hsent h⟩
  cases hkept : p.kept with
  | none =>
    exact ⟨{ c with transport := t }, .refl t, hsilent (Packet.message?_of_dropped hkept),
      .inr rfl⟩
  | some body =>
    dsimp only
    split
    · next hsuback =>
      have hother : isPublish p.header = false := by
        rw [hsuback]
        decide
      refine ⟨{ c with transport := t }, .refl t, hsilent (Packet.message?_of_other hother),
        .inl ?_⟩
      cases checkSuback packetId body with
      | ok _ => exact ⟨_, rfl⟩
      | error e => exact ⟨_, rfl⟩
    split
    · next hpublish =>
      have hreads := Wire.receive_sameReads p.header body t
      cases hreceive : Wire.receive p.header body t with
      | error e t' =>
        rw [hreceive] at hreads
        refine ⟨{ c with transport := t' }, hreads, fun accepts => ?_, .inl ⟨_, rfl⟩⟩
        obtain ⟨hanswer, hsent', haccepts⟩ :=
          Wire.receive_accepted hkept hpublish accepts (congrArg outcome hreceive)
        rw [hsent, Packet.acknowledged_of_error hanswer] at hsent'
        have hnone := Packet.message?_of_error hanswer
        exact ⟨by rw [hnone, Option.none_or], [],
          .silent haccepts (hsent'.trans (List.append_nil _)) hnone⟩
      | ok m t' =>
        rw [hreceive] at hreads
        refine ⟨{ c with transport := t', pending := some m }, hreads, fun accepts => ?_, .inr rfl⟩
        obtain ⟨hanswer, hsent', haccepts⟩ :=
          Wire.receive_accepted hkept hpublish accepts (congrArg outcome hreceive)
        rw [hsent] at hsent'
        have hsome : p.message? = some m := Packet.message?_of_ok hanswer
        refine ⟨by rw [hsome, Option.some_or], _, .packet haccepts hsent' ?_⟩
        rw [hsome]
        exact List.sublist_append_right _ _
    · next hother =>
      rw [Bool.not_eq_true] at hother
      exact ⟨{ c with transport := t }, .refl t, hsilent (Packet.message?_of_other hother),
        .inr rfl⟩

/-- The wait for the answer to a subscription serves every packet that it reads. -/
theorem awaitSuback_serves (packetId : UInt16) {c : Client} (accepts : ∀ n, c.transport.Accepts n) :
    Serves c (outcome (awaitSuback packetId c)) [] := by
  -- The wait is bounded by nothing but the bytes that arrive, and each packet makes these fewer.
  induction hlength : (arriving c.transport.inbox).length using Nat.strongRecOn generalizing c with
  | ind length ih =>
  subst hlength
  rcases Wire.readPacket_frames c.transport with ⟨p, inbox, hread, harrive⟩ |
    ⟨e, inbox, gone, hread, harrive, cut⟩
  · obtain ⟨c', hreads, hprogress, hnext⟩ := awaitSuback_step hread rfl
    obtain ⟨-, out, hprogress⟩ := hprogress fun n => (accepts n).inbox inbox
    have hshorter : (arriving inbox).length < (arriving c.transport.inbox).length := by
      rw [harrive, List.length_append]
      exact Nat.lt_add_of_pos_left (Nat.succ_pos _)
    have hinbox : c'.transport.inbox = inbox := hreads.inbox
    rw [← hinbox] at harrive hshorter
    rcases hnext with ⟨r, hend⟩ | hnext
    · rw [hend]
      exact .stop harrive hprogress
    · rw [hnext]
      exact Serves.next harrive hprogress (ih _ hshorter hprogress.accepts rfl)
  · rw [awaitSuback_eq, hread]
    exact .cut accepts harrive cut

theorem awaitSuback_delivers (packetId : UInt16) {c : Client} {ps : List Packet}
    (h : c.transport.Delivers ps) :
    ∃ rest, rest <:+ ps ∧ (outcome (awaitSuback packetId c)).2.transport.Delivers rest := by
  induction ps generalizing c with
  | nil =>
    rcases Transport.readPacket_delivers h with ⟨e, inbox, hread, hsame⟩ | ⟨p, more, _, hps, -⟩
    · rw [awaitSuback_eq, hread]
      exact ⟨[], List.suffix_refl _, hsame⟩
    · cases hps
  | cons p ps ih =>
    rcases Transport.readPacket_delivers h with ⟨e, inbox, hread, hsame⟩ |
      ⟨q, more, inbox, hps, hread, hmore⟩
    · rw [awaitSuback_eq, hread]
      exact ⟨p :: ps, List.suffix_refl _, hsame⟩
    · cases hps
      obtain ⟨c', hreads, -, hnext⟩ := awaitSuback_step hread rfl
      have hrest := hreads.delivers hmore
      rcases hnext with ⟨r, hend⟩ | hnext
      · rw [hend]
        exact ⟨ps, List.suffix_cons p ps, hrest⟩
      · rw [hnext]
        obtain ⟨rest, hsuffix, hdelivers⟩ := ih hrest
        exact ⟨rest, hsuffix.trans (List.suffix_cons p ps), hdelivers⟩

theorem subscribe_tooLong (h : topicCapacity < topic.length) (c : Client) :
    subscribe topic qos c = .error .packetTooLarge c := by
  unfold subscribe
  rw [if_pos h]
  rfl

theorem subscribe_fits (h : topic.length ≤ topicCapacity) (c : Client) :
    subscribe topic qos c =
      let packetId := nextPacketId c.lastPacketId
      match Wire.sendPacket subscribeHeader (subscribeBody packetId topic qos) c.transport with
      | .error e transport => .error e { c with transport, lastPacketId := packetId }
      | .ok () transport => awaitSuback packetId { c with transport, lastPacketId := packetId } := by
  unfold subscribe
  rw [if_neg (Nat.not_lt.2 h)]
  change EStateM.bind (onWire _) _ _ = _
  unfold EStateM.bind onWire
  dsimp only
  cases Wire.sendPacket subscribeHeader (subscribeBody (nextPacketId c.lastPacketId) topic qos)
    c.transport <;> rfl

theorem short_subscribeBody (packetId : UInt16) (qos : QoS) (h : topic.length ≤ topicCapacity) :
    (lengthField (subscribeBody packetId topic qos).length).length ≤ 4 := by
  refine length_lengthField (by decide) ?_
  simp only [subscribeBody, bigEndian, field, List.length_append, List.length_cons, List.length_nil]
  unfold topicCapacity at h
  omega

theorem subscribe_sent (qos : QoS) (h : topic.length ≤ topicCapacity)
    (accepts : ∀ n, c.transport.Accepts n) :
    ∃ packetId t, packetId = nextPacketId c.lastPacketId ∧ SameReads c.transport t ∧
      (∀ n, t.Accepts n) ∧
      t.sent = c.transport.sent ++ (Outgoing.request packetId topic qos).bytes ∧
      subscribe topic qos c =
        awaitSuback packetId { c with transport := t, lastPacketId := packetId } := by
  rw [subscribe_fits h]
  dsimp only
  generalize nextPacketId c.lastPacketId = packetId
  have hsends : Sends (Wire.sendPacket subscribeHeader (subscribeBody packetId topic qos))
      (Outgoing.request packetId topic qos).bytes () := by
    rw [Outgoing.bytes, ← subscribeBody_eq]
    exact Wire.sendPacket_sends (short_subscribeBody packetId qos h)
  have hreads := Wire.sendPacket_sameReads subscribeHeader (subscribeBody packetId topic qos)
    c.transport
  obtain ⟨t, hok, hsent, haccepts⟩ := hsends.accepted accepts
  rw [hok] at hreads ⊢
  exact ⟨packetId, t, rfl, hreads, haccepts, hsent, rfl⟩

theorem subscribe_serves (accepts : ∀ n, c.transport.Accepts n) :
    Serves c (outcome (subscribe topic qos c)) [] := by
  by_cases hlong : topicCapacity < topic.length
  · rw [subscribe_tooLong hlong]
    exact ⟨[], [], [], rfl, partial_nil, fun h => absurd rfl h, .refl accepts⟩
  obtain ⟨packetId, t, -, hreads, haccepts, hsent, heq⟩ :=
    subscribe_sent qos (Nat.not_lt.1 hlong) accepts
  have hrequest : Progress c { c with transport := t, lastPacketId := packetId } []
      [.request packetId topic qos] [] := {
    Progress.refl accepts with
    accepts := haccepts
    sent := by rw [hsent, List.flatMap_singleton] }
  rw [heq]
  refine Serves.trans ?_ hrequest (awaitSuback_serves _ haccepts)
  rw [← hreads.inbox]
  rfl

theorem subscribe_delivers {ps : List Packet} (h : c.transport.Delivers ps) :
    ∃ rest, rest <:+ ps ∧ (outcome (subscribe topic qos c)).2.transport.Delivers rest := by
  by_cases hlong : topicCapacity < topic.length
  · rw [subscribe_tooLong hlong]
    exact ⟨ps, List.suffix_refl ps, h⟩
  rw [subscribe_fits (Nat.not_lt.1 hlong)]
  dsimp only
  generalize nextPacketId c.lastPacketId = packetId
  have hreads := Wire.sendPacket_sameReads subscribeHeader (subscribeBody packetId topic qos)
    c.transport
  cases hsend : Wire.sendPacket subscribeHeader (subscribeBody packetId topic qos) c.transport with
  | error e t =>
    rw [hsend] at hreads
    exact ⟨ps, List.suffix_refl ps, hreads.delivers h⟩
  | ok u t =>
    rw [hsend] at hreads
    exact awaitSuback_delivers _ (hreads.delivers h)

theorem poll_serves (accepts : ∀ n, c.transport.Accepts n) :
    Serves c (outcome (poll c)) (outcome (poll c)).1.toOption.join.toList := by
  cases hpending : c.pending with
  | some m =>
    rw [poll_held hpending]
    refine ⟨[], [], [], rfl, partial_nil, fun h => absurd rfl h, ?_⟩
    exact {
      Progress.refl accepts with
      messages := by
        rw [hpending]
        exact List.Sublist.refl _ }
  | none =>
    rw [poll_eq hpending, outcome_onWire]
    rcases Wire.takePacket_frames c.transport with ⟨inbox, htake, harrive⟩ |
      ⟨e, inbox, gone, htake, harrive, cut⟩ | ⟨p, inbox, htake, harrive⟩
    · rw [htake]
      refine ⟨[], [], [], harrive, partial_nil, fun h => absurd rfl h, ?_⟩
      exact {
        Progress.refl accepts with
        accepts := fun n => (accepts n).inbox inbox }
    · rw [htake]
      exact .cut accepts harrive cut
    · rw [htake]
      obtain ⟨t', hanswer, hinbox, hsent, haccepts⟩ := Wire.takeUp_accepted p
        fun n => (accepts n).inbox inbox
      rw [hanswer]
      have hmessage : p.message? = p.answer.toOption.join := by
        unfold Packet.message?
        cases p.answer <;> rfl
      refine .stop ?_ (.packet haccepts hsent ?_)
      · rw [harrive]
        exact congrArg (p.bytes ++ arriving ·) hinbox.symm
      · rw [hpending, hmessage]
        simp

theorem poll_delivers {ps : List Packet} (h : c.transport.Delivers ps) :
    ∃ rest, rest <:+ ps ∧ (outcome (poll c)).2.transport.Delivers rest := by
  cases hpending : c.pending with
  | some m =>
    rw [poll_held hpending]
    exact ⟨ps, List.suffix_refl ps, h⟩
  | none =>
    rcases polled_delivers hpending h with ⟨-, hsame⟩ | ⟨p, more, rfl, -, hmore, -⟩
    · exact ⟨ps, List.suffix_refl ps, hsame⟩
    · exact ⟨more, List.suffix_cons p more, hmore⟩

theorem outcome_subscribe :
    outcome ((Call.subscribe topic qos).action c) =
      ((outcome (subscribe topic qos c)).1.map fun _ => none,
        (outcome (subscribe topic qos c)).2) := by
  change outcome (EStateM.bind (subscribe topic qos) (fun _ => pure none) c) = _
  unfold EStateM.bind
  cases subscribe topic qos c <;> rfl

theorem handed_subscribe : c.handed? (.subscribe topic qos) = none := by
  unfold handed? result
  rw [outcome_subscribe]
  cases (outcome (subscribe topic qos c)).1 <;> rfl

theorem Serves.map {β : Type} {f : α → β} {given : List Message} (h : Serves c r given) :
    Serves c (r.1.map f, r.2) given := by
  obtain ⟨taken, gone, out, stream, cut, failed, hprogress⟩ := h
  refine ⟨taken, gone, out, stream, cut, fun h => ?_, hprogress⟩
  obtain ⟨e, he⟩ := failed h
  exact ⟨e, by rw [he]; rfl⟩

theorem call_serves (accepts : ∀ n, c.transport.Accepts n) (call : Call) :
    Serves c (c.result call, c.after call) (c.handed? call).toList := by
  cases call with
  | subscribe topic qos =>
    have hserves : Serves c (outcome (subscribe topic qos c)) [] := subscribe_serves accepts
    rw [handed_subscribe]
    unfold result after
    rw [outcome_subscribe]
    exact hserves.map
  | poll => exact poll_serves accepts

theorem call_delivers {ps : List Packet} (h : c.transport.Delivers ps) (call : Call) :
    ∃ rest, rest <:+ ps ∧ (c.after call).transport.Delivers rest := by
  cases call with
  | subscribe topic qos =>
    unfold after
    rw [outcome_subscribe]
    exact subscribe_delivers h
  | poll => exact poll_delivers h

theorem calls_serve (accepts : ∀ n, c.transport.Accepts n) (calls : List Call) :
    ∃ taken out, Takes calls c taken ∧
      Progress c (afterCalls calls c) taken out (handed calls c) := by
  induction calls generalizing c with
  | nil => exact ⟨[], [], .done c, .refl accepts⟩
  | cons call calls ih =>
    obtain ⟨taken, gone, out, stream, cut, failed, hfirst⟩ := call_serves accepts call
    obtain ⟨taken', out', htakes, hrest⟩ := ih hfirst.accepts
    exact ⟨taken ++ taken', out ++ out', .call stream cut failed htakes, hfirst.trans hrest⟩

/-- Where packets are delivered a run takes the first of them. -/
theorem Takes.delivers {calls : List Call} {taken ps : List Packet} (h : Takes calls c taken)
    (hdelivers : c.transport.Delivers ps) :
    ∃ rest, ps = taken ++ rest ∧ (afterCalls calls c).transport.Delivers rest := by
  induction h generalizing ps with
  | done c => exact ⟨ps, rfl, hdelivers⟩
  | @call call calls c taken taken' gone stream cut _ _ ih =>
    obtain ⟨rest, ⟨front, rfl⟩, hrest⟩ := call_delivers hdelivers call
    have hall := hdelivers.stream.arriving
    have hleft := hrest.stream.arriving
    rw [← arriving, stream, arriving, hleft, List.flatMap_append] at hall
    obtain ⟨rfl, -⟩ := eq_of_flatMap (List.append_cancel_right hall) cut
    obtain ⟨rest', rfl, hrest'⟩ := ih hrest
    exact ⟨rest', (List.append_assoc _ _ _).symm, hrest'⟩

/-- Whatever arrives, a run of subscriptions and polls writes requests and acknowledgements. Of the
latter there is one, in order, for each message that it has read and that has an identifier, and
there are no others. The messages handed out and the one held are among those read before, each of
them once; to hand out the one held writes nothing. This is so at the end of every run, hence when
a message is handed out its acknowledgement has been written. -/
theorem messages_acknowledged (c : Client) (calls : List Call)
    (accepts : ∀ n, c.transport.Accepts n) :
    ∃ (taken : List Packet) (out : List Outgoing),
      Takes calls c taken ∧
      (∀ ps, c.transport.Delivers ps →
        ∃ rest, ps = taken ++ rest ∧ (afterCalls calls c).transport.Delivers rest) ∧
      (afterCalls calls c).transport.sent = c.transport.sent ++ out.flatMap Outgoing.bytes ∧
      out.filterMap Outgoing.acknowledged? = taken.filterMap Packet.acknowledged ∧
      (∀ p ∈ taken, ∀ packetId, p.acknowledged = some packetId ↔
        ∃ m, Publishes p.header p.body m ∧ m.Fits ∧ m.packetId = some packetId) ∧
      List.Sublist (handed calls c ++ (afterCalls calls c).pending.toList)
        (c.pending.toList ++ taken.filterMap Packet.message?) ∧
      ∀ m, (afterCalls calls c).pending = some m →
        outcome (poll (afterCalls calls c)) =
          (.ok (some m), { afterCalls calls c with pending := none }) := by
  obtain ⟨taken, out, htakes, hprogress⟩ := calls_serve accepts calls
  refine ⟨taken, out, htakes, fun ps h => htakes.delivers h, hprogress.sent, hprogress.acknowledged,
    fun p _ packetId => Packet.acknowledged_iff, hprogress.messages, fun m held => ?_⟩
  rw [poll_held held]
  rfl

def earlyPackets : List Packet :=
  [lightPacket, .sent 0x90 [0, 1, 1] (by decide), .sent 0x30 [0, 1, 0x61, 0x62] (by decide)]

/-- The message that came before the answer is acknowledged while that is waited for. -/
theorem early_message_acknowledged :
    let c := fed (earlyPackets.flatMap Packet.bytes)
    let run := [.subscribe [0x61] .atLeastOnce, .poll, .poll]
    (∀ n, c.transport.Accepts n) ∧ ∃ out : List Outgoing,
      (afterCalls run c).transport.sent = out.flatMap Outgoing.bytes ∧
      out.filterMap Outgoing.acknowledged? = [0x1234] := by
  refine ⟨fed_accepts _, ?_⟩
  obtain ⟨taken, out, -, hdelivers, hsent, hack, -⟩ := messages_acknowledged
    (fed (earlyPackets.flatMap Packet.bytes)) [.subscribe [0x61] .atLeastOnce, .poll, .poll]
    (fed_accepts _)
  obtain ⟨rest, hpackets, hrest⟩ := hdelivers earlyPackets (fed_delivers _)
  have hend : arriving (afterCalls [.subscribe [0x61] .atLeastOnce, .poll, .poll]
      (fed (earlyPackets.flatMap Packet.bytes))).transport.inbox = [] := by decide +kernel
  obtain ⟨rfl, -⟩ := @eq_of_flatMap [] rest [] (hend.symm.trans hrest.stream.arriving) partial_nil
  rw [List.append_nil] at hpackets
  rw [← hpackets] at hack
  refine ⟨out, hsent, hack.trans ?_⟩
  decide +kernel

end Client

end HubDevice.Mqtt
