import HubDevice.Proofs.Mqtt.Delivery
import HubDevice.Proofs.Mqtt.Operations

set_option autoImplicit false

namespace HubDevice.Mqtt

open Transport (SameReads readExact patience)

structure Transport.Unfailing (t : Transport) : Prop where
  opened : t.closed = false
  ends : t.endFails = false
  sound : .failure ∉ readings t.inbox

theorem receive_unfailing (n : Nat) {inbox : List Arrival} (h : .failure ∉ readings inbox) :
    ∃ b inbox', receive false n inbox = (some b, inbox') ∧ .failure ∉ readings inbox' := by
  fun_induction receive false n inbox with
  | case1 => exact ⟨[], [], rfl, h⟩
  | case2 b inbox =>
    have hrest : .failure ∉ readings inbox := fun hmem => h (List.mem_append_right _ hmem)
    refine ⟨_, _, rfl, ?_⟩
    split
    · exact hrest
    · next hlong =>
      have hdrop : b.drop n ≠ [] := by simpa using hlong
      rw [readings_data hdrop, List.mem_append]
      rintro (hbyte | hmem)
      · obtain ⟨_, -, hkind⟩ := List.mem_map.1 hbyte
        cases hkind
      · exact hrest hmem
  | case3 inbox ih => exact ih h
  | case4 reads inbox =>
    refine ⟨_, _, rfl, fun hmem => h ?_⟩
    rw [readings, List.replicate_succ]
    exact List.mem_cons_of_mem _ hmem
  | case5 => exact absurd List.mem_cons_self h

namespace Transport.Unfailing

variable {t : Transport}

theorem read (n : Nat) (h : t.Unfailing) :
    ∃ b inbox, Transport.read n t = .ok b { t with inbox } ∧ { t with inbox }.Unfailing := by
  obtain ⟨b, inbox, hreceive, hsound⟩ := receive_unfailing (atMost t.readLimit n) h.sound
  refine ⟨b, inbox, ?_, h.opened, h.ends, hsound⟩
  unfold Transport.read
  rw [h.opened, h.ends, hreceive]
  rfl

theorem await (n left : Nat) (h : t.Unfailing) :
    (∃ b more inbox, Transport.await n left t = .ok (b, more) { t with inbox } ∧
        { t with inbox }.Unfailing) ∨
      ∃ inbox, Transport.await n left t = .error .connectionClosed { t with inbox } := by
  induction left generalizing t with
  | zero =>
    obtain ⟨b, inbox, hread, hmore⟩ := h.read n
    unfold Transport.await
    rw [hread]
    cases b with
    | nil => exact .inr ⟨inbox, rfl⟩
    | cons b more => exact .inl ⟨b, more, inbox, rfl, hmore⟩
  | succ left ih =>
    obtain ⟨b, inbox, hread, hmore⟩ := h.read n
    unfold Transport.await
    rw [hread]
    cases b with
    | nil => exact ih hmore
    | cons b more => exact .inl ⟨b, more, inbox, rfl, hmore⟩

theorem readExact (n : Nat) (h : t.Unfailing) :
    (∃ b inbox, Transport.readExact n t = .ok b { t with inbox } ∧ { t with inbox }.Unfailing) ∨
      ∃ inbox, Transport.readExact n t = .error .connectionClosed { t with inbox } := by
  induction n using Nat.strongRecOn generalizing t with
  | ind n ih =>
  unfold Transport.readExact
  split
  · exact .inl ⟨[], t.inbox, rfl, h⟩
  next hpos =>
  rcases h.await n patience with ⟨b, more, inbox, hawait, hrest⟩ | ⟨inbox, hawait⟩
  · rw [hawait]
    dsimp only
    rcases ih (n - (more.length + 1)) (by omega) hrest with ⟨rest, inbox', hread, hmore⟩ |
      ⟨inbox', hread⟩
    · rw [hread]
      exact .inl ⟨_, inbox', rfl, hmore⟩
    · rw [hread]
      exact .inr ⟨inbox', rfl⟩
  · rw [hawait]
    exact .inr ⟨inbox, rfl⟩

end Transport.Unfailing

/-- Where reading never fails the action gives `a` and takes `b`, or it ends because the connection
is closed. To do the first it must find all of `b`: what is still missing behind the bytes that
arrive, `missing`, is missing in what comes after `b`. -/
def Exhausts (α : Type) (action : Wire α) (b : Bytes) (a : α) : Prop :=
  ∀ (t : Transport) (missing more : Bytes), t.Unfailing → arriving t.inbox ++ missing = b ++ more →
    (∃ inbox, action t = .ok a { t with inbox } ∧ { t with inbox }.Unfailing ∧
        arriving inbox ++ missing = more) ∨
      ∃ inbox, action t = .error .connectionClosed { t with inbox }

theorem readExact_exhausts (b : Bytes) : Exhausts Bytes (readExact b.length) b b := by
  intro t missing more h harrive
  rcases readExact_ends b.length t with ⟨got, inbox, hread, hlength, hrest⟩ |
    ⟨e, inbox, gone, hread, -, -, -⟩
  · rw [hrest, List.append_assoc] at harrive
    obtain ⟨rfl, hmore⟩ := List.append_inj harrive hlength
    rcases h.readExact got.length with ⟨_, inbox', hread', hsound⟩ | ⟨inbox', hread'⟩
    · rw [hread] at hread'
      cases hread'
      exact .inl ⟨inbox, hread, hsound, hmore⟩
    · rw [hread] at hread'
      cases hread'
  · rcases h.readExact b.length with ⟨_, inbox', hread', -⟩ | ⟨inbox', hread'⟩
    · rw [hread] at hread'
      cases hread'
    · exact .inr ⟨inbox', hread'⟩

theorem Exhausts.law : ReadingLaw Exhausts where
  pure a t missing more h harrive := .inl ⟨t.inbox, rfl, h, harrive⟩
  bind first second t missing more h harrive := by
    rw [List.append_assoc] at harrive
    rcases first t missing _ h harrive with ⟨inbox, hfirst, hsound, hrest⟩ | ⟨inbox, hfirst⟩
    · rw [bind_of_ok hfirst]
      exact second { t with inbox } missing more hsound hrest
    · exact .inr ⟨inbox, bind_of_error hfirst⟩
  readExact := readExact_exhausts

/-- Some packet goes on behind these bytes: they are a part of it, or there are none. -/
def Unfinished (b : Bytes) : Prop :=
  ∃ (p : Packet) (missing : Bytes), missing ≠ [] ∧ b ++ missing = p.bytes

theorem Transport.Unfailing.readPacket {t : Transport} (h : t.Unfailing)
    (part : Unfinished (arriving t.inbox)) :
    ∃ inbox, Wire.readPacket t = .error .connectionClosed { t with inbox } := by
  obtain ⟨p, missing, hmissing, hpart⟩ := part
  rw [← List.append_nil p.bytes] at hpart
  rcases Exhausts.law.readPacket p t missing [] h hpart with ⟨inbox, -, -, hnothing⟩ | hclosed
  · exact absurd (List.append_eq_nil_iff.1 hnothing).2 hmissing
  · exact hclosed

namespace Packet

/-- With this packet the wait ends: it is kept, and it is an answer or it is a PUBLISH that stands
for no message that fits. -/
structure Stops (p : Packet) : Prop where
  short : p.body.length ≤ packetCapacity
  kind : p.header = subackHeader ∨
    isPublish p.header = true ∧ ∀ m, Publishes p.header p.body m → ¬ m.Fits

structure Settles (p : Packet) (packetId : UInt16) (result : Except LinkError Unit) : Prop where
  granted : p.header = subackHeader →
    (result = .ok () ↔ ∃ code, p.body = bigEndian packetId ++ [code] ∧ code ≠ 0x80)
  refused : p.header = subackHeader → result = .ok () ∨ result = .error .protocolError
  unread : isPublish p.header = true → ∃ e, result = .error e ∧
    Message.decode p.header p.body = .error e ∧ (e = .protocolError ∨ e = .packetTooLarge)

theorem Stops.message?_eq_none {p : Packet} (h : p.Stops) : p.message? = none := by
  cases hm : p.message? with
  | none => rfl
  | some m =>
    obtain ⟨hpublishes, hfits⟩ := message?_eq_some_iff.1 hm
    rcases h.kind with hsuback | ⟨-, hunread⟩
    · have hkind := hpublishes.kind
      rw [hsuback] at hkind
      exact absurd hkind (by decide)
    · exact absurd hfits (hunread m hpublishes)

theorem kept_short {p : Packet} (h : p.body.length ≤ packetCapacity) : p.kept = some p.body :=
  if_neg (Nat.not_lt.2 h)

/-- A packet that the wait reads over is too long, or brings a message, or is of another kind. -/
theorem not_stops {p : Packet} (h : ¬ p.Stops) :
    p.kept = none ∨ p.kept = some p.body ∧ p.header ≠ subackHeader ∧
      ((isPublish p.header = true ∧ ∃ m, p.message? = some m) ∨ isPublish p.header = false) := by
  by_cases hlong : packetCapacity < p.body.length
  · exact .inl (if_pos hlong)
  have hshort := Nat.not_lt.1 hlong
  refine .inr ⟨kept_short hshort, fun hsuback => h ⟨hshort, .inl hsuback⟩, ?_⟩
  cases hkind : isPublish p.header with
  | false => exact .inr rfl
  | true =>
    refine .inl ⟨rfl, ?_⟩
    by_contra hnone
    refine h ⟨hshort, .inr ⟨hkind, fun m hm hfits => hnone ⟨m, ?_⟩⟩⟩
    exact message?_eq_some_iff.2 ⟨hm, hfits⟩

end Packet

theorem decode_eq_error {header : UInt8} {body : Bytes} {e : LinkError}
    (h : Message.decode header body = .error e) : e = .protocolError ∨ e = .packetTooLarge := by
  unfold Message.decode at h
  rcases bind_eq_error h with hqos | ⟨qos, -, h⟩
  · unfold qosOfHeader at hqos
    grind
  rcases bind_eq_error h with htopic | ⟨⟨topic, rest⟩, -, h⟩
  · unfold takeTopic at htopic
    grind
  rcases bind_eq_error h with hid | ⟨⟨packetId, payload⟩, -, h⟩
  · unfold takePacketId at hid
    grind
  dsimp only at h
  split at h
  · cases h
    exact .inr rfl
  · cases h

theorem checkSuback_eq_error {packetId : UInt16} {body : Bytes} {e : LinkError}
    (h : Client.checkSuback packetId body = .error e) : e = .protocolError := by
  unfold Client.checkSuback at h
  split at h
  · split at h
    · cases h
      rfl
    · cases h
  · cases h
    rfl

theorem checkSuback_eq_ok_iff {packetId : UInt16} {body : Bytes} :
    Client.checkSuback packetId body = .ok () ↔
      ∃ code, body = bigEndian packetId ++ [code] ∧ code ≠ 0x80 := by
  constructor
  · intro h
    unfold Client.checkSuback at h
    split at h
    · next high low code =>
      split at h
      · cases h
      · next hgranted =>
        simp only [Bool.or_eq_true, decide_eq_true_eq, not_or, not_not] at hgranted
        obtain ⟨rfl, hcode⟩ := hgranted
        exact ⟨code, by rw [bigEndian_ofBigEndian]; rfl, hcode⟩
    · cases h
  · rintro ⟨code, rfl, hcode⟩
    change (if (decide (ofBigEndian (packetId >>> 8).toUInt8 packetId.toUInt8 ≠ packetId) ||
      decide (code = 0x80)) = true then Except.error LinkError.protocolError else .ok ()) = _
    rw [ofBigEndian_bigEndian]
    simp [hcode]

namespace Client

variable (packetId : UInt16) {c : Client} {p : Packet} {t : Transport}

/-- The wait ends with a packet that settles it. -/
theorem awaitSuback_stops (hread : Wire.readPacket c.transport = .ok (p.header, p.kept) t)
    (h : p.Stops) :
    ∃ result, outcome (awaitSuback packetId c) = (result, { c with transport := t }) ∧
      p.Settles packetId result := by
  have hkept := Packet.kept_short h.short
  by_cases hsuback : p.header = subackHeader
  · have hother : isPublish p.header = false := by
      rw [hsuback]
      decide
    refine ⟨checkSuback packetId p.body, ?_, fun _ => checkSuback_eq_ok_iff, fun _ => ?_, ?_⟩
    · rw [awaitSuback_eq, hread, hkept]
      dsimp only
      rw [if_pos hsuback]
      cases checkSuback packetId p.body <;> rfl
    · cases hcheck : checkSuback packetId p.body with
      | ok u => exact .inl rfl
      | error e => exact .inr (congrArg _ (checkSuback_eq_error hcheck))
    · rw [hother]
      exact nofun
  obtain ⟨hpublish, hunread⟩ := h.kind.resolve_left hsuback
  cases hdecode : Message.decode p.header p.body with
  | ok m =>
    obtain ⟨hm, hfits⟩ := Message.publishes_of_decode hpublish hdecode
    exact absurd hfits (hunread m hm)
  | error e =>
    refine ⟨.error e, ?_, fun hcontra => absurd hcontra hsuback,
      fun hcontra => absurd hcontra hsuback, fun _ => ⟨e, rfl, hdecode, decode_eq_error hdecode⟩⟩
    rw [awaitSuback_eq, hread, hkept]
    dsimp only
    rw [if_neg hsuback, if_pos hpublish, Wire.receive_refused hdecode]
    rfl

def PassesOver (c : Client) (p : Packet) (t : Transport) : Prop :=
  ∃ t', SameReads t t' ∧ (∀ n, t'.Accepts n) ∧
    t'.sent = t.sent ++ p.acknowledged.elim [] pubackLayout ∧
    awaitSuback packetId c =
      awaitSuback packetId { c with transport := t', pending := p.message?.or c.pending }

theorem PassesOver.silent (accepts : ∀ n, t.Accepts n) (h : p.message? = none)
    (next : awaitSuback packetId c = awaitSuback packetId { c with transport := t }) :
    PassesOver packetId c p t := by
  refine ⟨t, .refl t, accepts, ?_, ?_⟩
  · rw [Packet.acknowledged, h]
    exact (List.append_nil _).symm
  · rw [h, Option.none_or, next]

theorem awaitSuback_skips (hread : Wire.readPacket c.transport = .ok (p.header, p.kept) t)
    (h : ¬ p.Stops) (accepts : ∀ n, t.Accepts n) : PassesOver packetId c p t := by
  rcases Packet.not_stops h with hkept | ⟨hkept, hsuback, ⟨hpublish, m, hm⟩ | hother⟩
  · refine .silent packetId accepts (Packet.message?_of_dropped hkept) ?_
    rw [awaitSuback_eq, hread, hkept]
  · have hreads := Wire.receive_sameReads p.header p.body t
    have hdecode : Message.decode p.header p.body = .ok m := by
      obtain ⟨hpublishes, hfits⟩ := Packet.message?_eq_some_iff.1 hm
      rw [Message.decode_publishes hpublishes, if_pos hfits]
    cases hreceive : Wire.receive p.header p.body t with
    | error e t' =>
      obtain ⟨hanswer, -, -⟩ :=
        Wire.receive_accepted hkept hpublish accepts (congrArg outcome hreceive)
      rw [Packet.message?_of_error hanswer] at hm
      cases hm
    | ok m' t' =>
      obtain ⟨hanswer, hsent, haccepts⟩ :=
        Wire.receive_accepted hkept hpublish accepts (congrArg outcome hreceive)
      rw [hreceive] at hreads
      refine ⟨t', hreads, haccepts, hsent, ?_⟩
      rw [Packet.message?_of_ok hanswer, Option.some_or, awaitSuback_eq, hread, hkept]
      dsimp only
      rw [if_neg hsuback, if_pos hpublish, hreceive]
  · refine .silent packetId accepts (Packet.message?_of_other hother) ?_
    rw [awaitSuback_eq, hread, hkept]
    dsimp only
    rw [if_neg hsuback, hother, if_neg Bool.false_ne_true]

/-- The wait reads over these packets, and they are acknowledged where they ask for it. -/
theorem awaitSuback_passes {taken : List Packet} {rs : List Reading}
    (h : ∀ q ∈ taken, ¬ q.Stops) (accepts : ∀ n, c.transport.Accepts n)
    (ready : c.transport.Readable)
    (stream : InTime (taken.flatMap Packet.bytes) (readings c.transport.inbox) rs) :
    ∃ c', awaitSuback packetId c = awaitSuback packetId c' ∧ (∀ n, c'.transport.Accepts n) ∧
      SameReads { c.transport with inbox := c'.transport.inbox } c'.transport ∧
      readings c'.transport.inbox = rs ∧ c'.pending = latest c.pending taken ∧
      c'.transport.sent =
        c.transport.sent ++ (taken.filterMap Packet.acknowledged).flatMap pubackLayout := by
  induction taken generalizing c with
  | nil =>
    cases stream
    exact ⟨c, rfl, accepts, .refl _, rfl, rfl, (List.append_nil _).symm⟩
  | cons p taken ih =>
    rw [List.flatMap_cons] at stream
    obtain ⟨rs', hpacket, hrest⟩ := stream.split
    obtain ⟨inbox, hread, rfl⟩ := (Reads.law.readPacket p).inTime c.transport rs' ready hpacket
    obtain ⟨t, hreads, haccepts, hsent, hnext⟩ := awaitSuback_skips packetId hread
      (h p List.mem_cons_self) fun n => (accepts n).inbox inbox
    have hinbox : t.inbox = inbox := hreads.inbox
    rw [← hinbox] at hrest
    have hready : t.Readable :=
      ⟨hreads.closed.trans ready.opened, by rw [hreads.readLimit]; exact ready.limit⟩
    obtain ⟨c', hwait, haccepts', hreads', hrs, hpending, hsent'⟩ :=
      ih (c := { c with transport := t, pending := p.message?.or c.pending })
        (fun q hq => h q (List.mem_cons_of_mem _ hq)) haccepts hready hrest
    refine ⟨c', hnext.trans hwait, haccepts', ?_, hrs, ?_, ?_⟩
    · exact ⟨hreads'.inbox, hreads'.readLimit.trans hreads.readLimit,
        hreads'.endFails.trans hreads.endFails, hreads'.closed.trans hreads.closed⟩
    · rw [hpending, latest_cons]
    · rw [hsent', hsent]
      cases hack : p.acknowledged with
      | none =>
        rw [List.filterMap_cons_none hack]
        exact congrArg (· ++ _) (List.append_nil _)
      | some ackId =>
        rw [List.filterMap_cons_some hack, List.flatMap_cons]
        exact List.append_assoc _ _ _

/-- The wait ends at the first packet that settles it, with all behind that packet left. -/
theorem awaitSuback_settles {taken rest : List Packet} {rs : List Reading}
    (h : ∀ q ∈ taken, ¬ q.Stops) (stop : p.Stops) (accepts : ∀ n, c.transport.Accepts n)
    (ready : c.transport.Readable)
    (stream : InTime ((taken ++ p :: rest).flatMap Packet.bytes) (readings c.transport.inbox) rs) :
    let settled := outcome (awaitSuback packetId c)
    p.Settles packetId settled.1 ∧
      InTime (rest.flatMap Packet.bytes) (readings settled.2.transport.inbox) rs ∧
      settled.2.pending = latest c.pending taken ∧
      settled.2.transport.sent =
        c.transport.sent ++ (taken.filterMap Packet.acknowledged).flatMap pubackLayout := by
  rw [List.flatMap_append, List.flatMap_cons] at stream
  obtain ⟨rs1, htaken, hmore⟩ := stream.split
  obtain ⟨rs2, hpacket, hrest⟩ := hmore.split
  obtain ⟨c', hwait, haccepts, hreads, rfl, hpending, hsent⟩ :=
    awaitSuback_passes packetId h accepts ready htaken
  have hready : c'.transport.Readable :=
    ⟨hreads.closed.trans ready.opened, by rw [hreads.readLimit]; exact ready.limit⟩
  obtain ⟨inbox, hread, rfl⟩ := (Reads.law.readPacket p).inTime c'.transport rs2 hready hpacket
  obtain ⟨result, hstop, hsettles⟩ := awaitSuback_stops packetId hread stop
  rw [hwait, hstop]
  exact ⟨hsettles, hrest, hpending, hsent⟩

/-- Where no packet settles it the wait ends with the stream. -/
theorem awaitSuback_closed {ps : List Packet} {rs : List Reading}
    (h : ∀ q ∈ ps, ¬ q.Stops) (accepts : ∀ n, c.transport.Accepts n) (ready : c.transport.Readable)
    (stream : InTime (ps.flatMap Packet.bytes) (readings c.transport.inbox) rs)
    (ends : c.transport.endFails = false) (sound : .failure ∉ rs)
    (part : Unfinished (rs.filterMap Reading.byte?)) :
    (outcome (awaitSuback packetId c)).1 = .error .connectionClosed ∧
      (outcome (awaitSuback packetId c)).2.pending = latest c.pending ps := by
  obtain ⟨c', hwait, -, hreads, rfl, hpending, -⟩ :=
    awaitSuback_passes packetId h accepts ready stream
  have hsound : c'.transport.Unfailing :=
    ⟨hreads.closed.trans ready.opened, hreads.endFails.trans ends, sound⟩
  obtain ⟨inbox, hread⟩ := hsound.readPacket part
  rw [hwait, awaitSuback_eq, hread]
  exact ⟨rfl, hpending⟩

/-- A subscription whose request goes out reads whole packets, each of whose bytes comes in time, up
to the first that settles it. That packet alone says how the subscription ends. What was read
before it is what the client holds and has acknowledged, and all behind it is still to be read.
Where no packet settles it and the stream ends, in a packet or between two, so does the connection. -/
theorem subscribe_settled (c : Client) (topic : Bytes) (qos : QoS) (ps : List Packet)
    (rs : List Reading) (fits : topic.length ≤ topicCapacity)
    (accepts : ∀ n, c.transport.Accepts n) (ready : c.transport.Readable)
    (stream : InTime (ps.flatMap Packet.bytes) (readings c.transport.inbox) rs) :
    let asked := outcome (subscribe topic qos c)
    let packetId := nextPacketId c.lastPacketId
    (∀ taken p rest, ps = taken ++ p :: rest → (∀ q ∈ taken, ¬ q.Stops) → p.Stops →
      p.Settles packetId asked.1 ∧
      InTime (rest.flatMap Packet.bytes) (readings asked.2.transport.inbox) rs ∧
      asked.2.pending = latest c.pending taken ∧
      asked.2.transport.sent = c.transport.sent ++ (Outgoing.request packetId topic qos).bytes ++
        (taken.filterMap Packet.acknowledged).flatMap pubackLayout) ∧
    ((∀ q ∈ ps, ¬ q.Stops) → c.transport.endFails = false → .failure ∉ rs →
      Unfinished (rs.filterMap Reading.byte?) →
      asked.1 = .error .connectionClosed ∧ asked.2.pending = latest c.pending ps) := by
  obtain ⟨packetId, t, rfl, hreads, haccepts, hsent, heq⟩ := subscribe_sent qos fits accepts
  have hready : t.Readable :=
    ⟨hreads.closed.trans ready.opened, by rw [hreads.readLimit]; exact ready.limit⟩
  rw [← hreads.inbox] at stream
  dsimp only
  rw [heq, ← hsent]
  refine ⟨?_, fun h ends sound part => ?_⟩
  · rintro taken p rest rfl h stop
    exact awaitSuback_settles (nextPacketId c.lastPacketId) h stop haccepts hready stream
  · exact awaitSuback_closed (nextPacketId c.lastPacketId) h haccepts hready stream
      (hreads.endFails.trans ends) sound part

def refusedPackets : List Packet :=
  [lightPacket, .sent 0x40 [0, 9] (by decide), .sent 0x90 ([0, 1] ++ [0x80]) (by decide),
    .sent 0xD0 [] (by decide)]

theorem refusal_settles :
    let c := fed (refusedPackets.flatMap Packet.bytes)
    let asked := outcome (subscribe [0x61] .atLeastOnce c)
    (∀ n, c.transport.Accepts n) ∧ c.transport.Readable ∧
      InTime (refusedPackets.flatMap Packet.bytes) (readings c.transport.inbox) [] ∧
      asked.1 = .error .protocolError ∧ asked.2.pending = lightPacket.message? ∧
      asked.2.transport.sent =
        (Outgoing.request 1 [0x61] .atLeastOnce).bytes ++ pubackLayout 0x1234 := by
  have accepts := fed_accepts (refusedPackets.flatMap Packet.bytes)
  have ready := (fed_delivers refusedPackets).readable
  have stream : InTime (refusedPackets.flatMap Packet.bytes)
      (readings (fed (refusedPackets.flatMap Packet.bytes)).transport.inbox) [] :=
    .whole _ []
  have hlight : ¬ lightPacket.Stops := fun h => absurd h.message?_eq_none (by decide +kernel)
  have hother : ¬ (Packet.sent 0x40 [0, 9] (by decide)).Stops := by
    rintro ⟨-, hsuback | ⟨hpublish, -⟩⟩
    · exact absurd hsuback (by decide)
    · exact absurd hpublish (by decide)
  obtain ⟨hsettled, -⟩ := subscribe_settled (fed (refusedPackets.flatMap Packet.bytes)) [0x61]
    .atLeastOnce refusedPackets [] (by decide) accepts ready stream
  obtain ⟨hsettles, -, hpending, hsent⟩ := hsettled [lightPacket, .sent 0x40 [0, 9] (by decide)]
    (.sent 0x90 ([0, 1] ++ [0x80]) (by decide)) [.sent 0xD0 [] (by decide)] rfl
    (by simp only [List.mem_cons, List.not_mem_nil, or_false, forall_eq_or_imp, forall_eq]
        exact ⟨hlight, hother⟩)
    ⟨by decide, .inl rfl⟩
  have hdenied : ¬ ∃ code : UInt8, ([0, 1] ++ [0x80] : Bytes) =
      bigEndian (nextPacketId 0) ++ [code] ∧ code ≠ 0x80 := by
    rintro ⟨code, hbody, hcode⟩
    cases hbody
    exact hcode rfl
  refine ⟨accepts, ready, stream, ?_, ?_, ?_⟩
  · exact (hsettles.refused rfl).resolve_left fun hok => hdenied ((hsettles.granted rfl).1 hok)
  · exact hpending.trans (by decide +kernel)
  · exact hsent.trans (by decide +kernel)

end Client

end HubDevice.Mqtt
