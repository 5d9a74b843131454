import HubDevice.Proofs.Mqtt.Packets
import HubDevice.Proofs.Mqtt.Writes

set_option autoImplicit false

namespace HubDevice.Mqtt

open Transport (SameReads)

namespace Packet

def answer (p : Packet) : Except LinkError (Option Message) :=
  match p.kept with
  | none => .error .packetTooLarge
  | some body =>
    if isPublish p.header then (Message.decode p.header body).map some else .ok none

def message? (p : Packet) : Option Message :=
  match p.answer with
  | .ok m => m
  | .error _ => none

def acknowledged (p : Packet) : Option UInt16 := p.message?.bind (·.packetId)

structure Answered (p : Packet) (result : Except LinkError (Option Message)) : Prop where
  oversized : packetCapacity < p.body.length → result = .error .packetTooLarge
  other : p.body.length ≤ packetCapacity → isPublish p.header = false → result = .ok none
  message : ∀ m, p.body.length ≤ packetCapacity → Publishes p.header p.body m →
    result = if m.Fits then .ok (some m) else .error .packetTooLarge
  malformed : p.body.length ≤ packetCapacity → isPublish p.header = true →
    (∀ m, ¬ Publishes p.header p.body m) → ∃ e, result = .error e

theorem answer_kept {p : Packet} (h : p.body.length ≤ packetCapacity) :
    p.answer = if isPublish p.header then (Message.decode p.header p.body).map some
      else .ok none := by
  rw [answer, kept, if_neg (Nat.not_lt.2 h)]

theorem acknowledged_of_ok {p : Packet} {m : Option Message} (h : p.answer = .ok m) :
    p.acknowledged = m.bind (·.packetId) := by
  rw [acknowledged, message?, h]

theorem acknowledged_of_error {p : Packet} {e : LinkError} (h : p.answer = .error e) :
    p.acknowledged = none := by
  rw [acknowledged, message?, h]
  rfl

theorem answered (p : Packet) : p.Answered p.answer where
  oversized h := by
    rw [answer, kept, if_pos h]
  other h hkind := by
    rw [answer_kept h, hkind, if_neg Bool.false_ne_true]
  message m h hm := by
    rw [answer_kept h, if_pos (isPublish_iff.2 hm.kind), Message.decode_publishes hm]
    split <;> rfl
  malformed h hkind hm := by
    obtain ⟨e, hdecode⟩ := Message.decode_malformed hkind hm
    refine ⟨e, ?_⟩
    rw [answer_kept h, if_pos hkind, hdecode]
    rfl

theorem message?_of_error {p : Packet} {e : LinkError} (h : p.answer = .error e) :
    p.message? = none := by
  rw [message?, h]

theorem message?_of_ok {p : Packet} {m : Option Message} (h : p.answer = .ok m) :
    p.message? = m := by
  rw [message?, h]

theorem message?_of_other {p : Packet} (h : isPublish p.header = false) : p.message? = none := by
  by_cases hlong : packetCapacity < p.body.length
  · exact message?_of_error (p.answered.oversized hlong)
  · exact message?_of_ok (p.answered.other (Nat.not_lt.1 hlong) h)

theorem message?_of_dropped {p : Packet} (h : p.kept = none) : p.message? = none := by
  unfold kept at h
  split at h
  · next hlong => exact message?_of_error (p.answered.oversized hlong)
  · cases h

/-- The messages handed out are those that fit. -/
theorem message?_eq_some_iff {p : Packet} {m : Message} :
    p.message? = some m ↔ Publishes p.header p.body m ∧ m.Fits := by
  constructor
  · intro h
    have hanswer : p.answer = .ok (some m) := by
      unfold message? at h
      split at h
      · next hanswer => rw [hanswer, h]
      · cases h
    by_cases hlong : packetCapacity < p.body.length
    · rw [p.answered.oversized hlong] at hanswer
      cases hanswer
    rw [answer_kept (Nat.not_lt.1 hlong)] at hanswer
    split at hanswer
    · next hkind =>
      cases hdecode : Message.decode p.header p.body with
      | error e =>
        rw [hdecode] at hanswer
        cases hanswer
      | ok m' =>
        rw [hdecode] at hanswer
        cases hanswer
        exact Message.publishes_of_decode hkind hdecode
    · cases hanswer
  · rintro ⟨hm, hfits⟩
    rw [message?, p.answered.message m (hm.length_body hfits) hm, if_pos hfits]

/-- Just the messages of quality one that fit are acknowledged, with their identifiers. -/
theorem acknowledged_iff {p : Packet} {packetId : UInt16} :
    p.acknowledged = some packetId ↔
      ∃ m, Publishes p.header p.body m ∧ m.Fits ∧ m.packetId = some packetId := by
  unfold acknowledged
  rw [Option.bind_eq_some_iff]
  simp only [message?_eq_some_iff, and_assoc]

end Packet

namespace Wire

def takeUp (header : UInt8) (kept : Option Bytes) : Wire (Option Message) :=
  match kept with
  | none => throw .packetTooLarge
  | some body => if isPublish header then some <$> receive header body else return none

theorem takeUp_sameReads (header : UInt8) (kept : Option Bytes) (t : Transport) :
    SameReads t (outcome (takeUp header kept t)).2 := by
  unfold takeUp
  split
  · exact .refl t
  · split
    · exact bind_sameReads (receive_sameReads _ _ t) fun _ => .refl
    · exact .refl t

theorem map_receive (header : UInt8) (body : Bytes) :
    some <$> receive header body = (do
      let m ← liftExcept ((Message.decode header body).map some)
      acknowledge (m.bind (·.packetId))
      return m) := by
  funext t
  cases hdecode : Message.decode header body with
  | error e =>
    change EStateM.map some (receive header body) t = _
    rw [EStateM.map, receive_refused hdecode]
    rfl
  | ok m =>
    unfold receive
    rw [hdecode]
    change EStateM.map some (EStateM.bind (acknowledge m.packetId) fun _ => pure m) t =
      EStateM.bind (acknowledge m.packetId) (fun _ => pure (some m)) t
    unfold EStateM.map EStateM.bind
    cases acknowledge m.packetId t <;> rfl

/-- The answer is worked out first, then it is acknowledged if it asks for that. -/
theorem takeUp_eq (p : Packet) :
    takeUp p.header p.kept = (do
      let m ← liftExcept p.answer
      acknowledge (m.bind (·.packetId))
      return m) := by
  by_cases hlong : packetCapacity < p.body.length
  · have hkept : p.kept = none := if_pos hlong
    rw [hkept, p.answered.oversized hlong]
    rfl
  have hkept : p.kept = some p.body := if_neg hlong
  have hshort := Nat.not_lt.1 hlong
  cases hkind : isPublish p.header with
  | true =>
    rw [hkept, takeUp, if_pos hkind, map_receive, Packet.answer_kept hshort, if_pos hkind]
  | false =>
    rw [hkept, takeUp, hkind, if_neg Bool.false_ne_true, p.answered.other hshort hkind]
    rfl

theorem takeUp_silent {p : Packet} (h : p.acknowledged = none) (t : Transport) :
    outcome (takeUp p.header p.kept t) = (p.answer, t) := by
  rw [takeUp_eq]
  cases hanswer : p.answer with
  | error e => rfl
  | ok m =>
    rw [Packet.acknowledged_of_ok hanswer] at h
    change outcome ((acknowledge (m.bind (·.packetId)) >>= fun _ => pure m) t) = _
    rw [h]
    rfl

theorem takeUp_answers (p : Packet) {t : Transport} {n : Nat}
    (h : t.Accepts ((p.acknowledged.elim [] pubackLayout).length + n)) :
    ∃ t', outcome (takeUp p.header p.kept t) = (p.answer, t') ∧
      t'.sent = t.sent ++ p.acknowledged.elim [] pubackLayout ∧ t'.Accepts n := by
  cases hanswer : p.answer with
  | error e =>
    have hnone := Packet.acknowledged_of_error hanswer
    have hsilent := takeUp_silent hnone t
    rw [hanswer] at hsilent
    rw [hnone] at h ⊢
    exact ⟨t, hsilent, (List.append_nil _).symm, h.mono (Nat.le_add_left n _)⟩
  | ok m =>
    rw [Packet.acknowledged_of_ok hanswer] at h ⊢
    have hsends : Sends (do acknowledge (m.bind (·.packetId)); return m)
        ((m.bind (·.packetId)).elim [] pubackLayout) m :=
      Sends.last (acknowledge_sends _) (.pure m)
    obtain ⟨t', hack, hsent, haccepts⟩ := hsends t n h
    refine ⟨t', ?_, hsent, haccepts⟩
    rw [takeUp_eq, hanswer]
    exact congrArg outcome hack

theorem takeUp_accepted (p : Packet) {t : Transport} (accepts : ∀ n, t.Accepts n) :
    ∃ t', outcome (takeUp p.header p.kept t) = (p.answer, t') ∧ t'.inbox = t.inbox ∧
      t'.sent = t.sent ++ p.acknowledged.elim [] pubackLayout ∧ ∀ n, t'.Accepts n := by
  obtain ⟨t', hanswer, hsent, -⟩ := takeUp_answers p (n := 0) (accepts _)
  have hreads := (takeUp_sameReads p.header p.kept t).inbox
  rw [hanswer] at hreads
  refine ⟨t', hanswer, hreads, hsent, fun n => ?_⟩
  obtain ⟨t'', hanswer', -, haccepts⟩ := takeUp_answers p (n := n) (accepts _)
  rw [hanswer] at hanswer'
  cases hanswer'
  exact haccepts

theorem outcome_takeUp {header : UInt8} (h : isPublish header = true) (body : Bytes)
    (t : Transport) :
    outcome (takeUp header (some body) t) =
      ((outcome (receive header body t)).1.map some, (outcome (receive header body t)).2) := by
  have htake : takeUp header (some body) = some <$> receive header body := if_pos h
  rw [htake]
  change outcome (EStateM.map some (receive header body) t) = _
  unfold EStateM.map
  cases receive header body t <;> rfl

theorem receive_accepted {p : Packet} {body : Bytes} {t t' : Transport}
    {r : Except LinkError Message} (hkept : p.kept = some body)
    (hpublish : isPublish p.header = true) (accepts : ∀ n, t.Accepts n)
    (h : outcome (receive p.header body t) = (r, t')) :
    p.answer = r.map some ∧ t'.sent = t.sent ++ p.acknowledged.elim [] pubackLayout ∧
      ∀ n, t'.Accepts n := by
  obtain ⟨t'', hanswer, -, hsent, haccepts⟩ := takeUp_accepted p accepts
  rw [hkept, outcome_takeUp hpublish, h] at hanswer
  obtain ⟨hresult, rfl⟩ := Prod.mk.inj hanswer
  exact ⟨hresult.symm, hsent, haccepts⟩

def takePacket : Wire (Option Message) := do
  match ← Transport.read 1 with
  | [] => return none
  | header :: _ => takeUp header (← readBody)

end Wire

theorem Transport.SameReads.delivers {t t' : Transport} {ps : List Packet} (h : SameReads t t')
    (hdelivers : t.Delivers ps) : t'.Delivers ps := by
  obtain ⟨⟨hopened, hlimit⟩, hstream⟩ := hdelivers
  refine ⟨⟨h.closed.trans hopened, ?_⟩, ?_⟩
  · rw [h.readLimit]
    exact hlimit
  · rw [h.inbox]
    exact hstream

def Transport.begins (t : Transport) : Bool :=
  match Transport.read 1 t with
  | .ok (_ :: _) _ => true
  | _ => false

namespace Wire

theorem takePacket_of_nothing {t t' : Transport} (h : Transport.read 1 t = .ok [] t') :
    t.begins = false ∧ takePacket t = .ok none t' := by
  refine ⟨?_, ?_⟩
  · unfold Transport.begins
    rw [h]
  · exact bind_of_ok h

theorem takePacket_of_failure {t t' : Transport} {e : LinkError}
    (h : Transport.read 1 t = .error e t') :
    t.begins = false ∧ takePacket t = .error e t' := by
  refine ⟨?_, ?_⟩
  · unfold Transport.begins
    rw [h]
  · exact bind_of_error h

theorem takePacket_of_byte {t t' t'' : Transport} {header : UInt8} {kept : Option Bytes}
    (h : Transport.read 1 t = .ok [header] t') (hbody : readBody t' = .ok kept t'') :
    t.begins = true ∧ takePacket t = takeUp header kept t'' := by
  refine ⟨?_, ?_⟩
  · unfold Transport.begins
    rw [h]
  · exact (bind_of_ok h).trans (bind_of_ok hbody)

/-- A poll that finds a first byte reads one packet whole, any other leaves all packets and has no
message. -/
theorem takePacket_delivers {t : Transport} {ps : List Packet} (h : t.Delivers ps) :
    (t.begins = false ∧ (outcome (takePacket t)).1.toOption.join = none ∧
        (outcome (takePacket t)).2.Delivers ps) ∨
      ∃ p more inbox, ps = p :: more ∧ t.begins = true ∧ { t with inbox }.Delivers more ∧
        takePacket t = takeUp p.header p.kept { t with inbox } := by
  rcases Transport.read_delivers h with ⟨inbox, hsame, hread | hread⟩ |
    ⟨p, more, inbox, rfl, hread, inside⟩
  · obtain ⟨hbegins, htake⟩ := takePacket_of_nothing hread
    rw [htake]
    exact .inl ⟨hbegins, rfl, hsame⟩
  · obtain ⟨hbegins, htake⟩ := takePacket_of_failure hread
    rw [htake]
    exact .inl ⟨hbegins, rfl, hsame⟩
  · obtain ⟨inbox', hbody, hmore⟩ := inside.readBody
    obtain ⟨hbegins, htake⟩ := takePacket_of_byte hread hbody
    exact .inr ⟨p, more, inbox', rfl, hbegins, hmore, htake⟩

end Wire

namespace Client

def pollResult (c : Client) : Except LinkError (Option Message) := (outcome (poll c)).1

def polled (c : Client) : Client := (outcome (poll c)).2

def polls : Nat → Client → Client
  | 0, c => c
  | n + 1, c => (polls n c).polled

def begun : Nat → Client → Nat
  | 0, _ => 0
  | n + 1, c => begun n c + if (polls n c).transport.begins then 1 else 0

theorem onWire_bind {α β : Type} (first : Wire α) (second : α → Wire β) :
    onWire (first >>= second) = onWire first >>= fun a => onWire (second a) := by
  funext c
  change onWire (EStateM.bind first second) c = EStateM.bind (onWire first) _ c
  unfold onWire EStateM.bind
  dsimp only
  cases first c.transport <;> rfl

theorem onWire_map {α β : Type} (f : α → β) (action : Wire α) :
    onWire (f <$> action) = f <$> onWire action := by
  funext c
  change onWire (EStateM.map f action) c = EStateM.map f (onWire action) c
  unfold onWire EStateM.map
  dsimp only
  cases action c.transport <;> rfl

theorem outcome_onWire {α : Type} (action : Wire α) (c : Client) :
    outcome (onWire action c) =
      ((outcome (action c.transport)).1,
        { c with transport := (outcome (action c.transport)).2 }) := by
  unfold onWire
  cases action c.transport <;> rfl

theorem poll_held {c : Client} {m : Message} (held : c.pending = some m) :
    poll c = .ok (some m) { c with pending := none } := by
  unfold poll
  change EStateM.bind (fun c => .ok c c) _ c = _
  simp only [EStateM.bind, held]
  rfl

theorem poll_eq {c : Client} (pending : c.pending = none) :
    poll c = onWire Wire.takePacket c := by
  unfold poll Wire.takePacket
  rw [onWire_bind]
  change EStateM.bind (fun c => .ok c c) _ c = EStateM.bind _ _ c
  simp only [EStateM.bind, pending]
  change EStateM.bind _ _ c = _
  unfold EStateM.bind
  cases onWire (Transport.read 1) c with
  | error e c' => rfl
  | ok first c' =>
    cases first with
    | nil => rfl
    | cons header more =>
      dsimp only
      rw [onWire_bind]
      change EStateM.bind _ _ c' = EStateM.bind _ _ c'
      unfold EStateM.bind
      cases onWire Wire.readBody c' with
      | error e c'' => rfl
      | ok kept c'' =>
        unfold Wire.takeUp
        cases kept with
        | none => rfl
        | some body =>
          dsimp only
          split
          · rw [onWire_map]
          · rfl

theorem polled_eq {c : Client} (pending : c.pending = none) :
    c.pollResult = (outcome (Wire.takePacket c.transport)).1 ∧
      c.polled = { c with transport := (outcome (Wire.takePacket c.transport)).2 } := by
  unfold pollResult polled
  rw [poll_eq pending, outcome_onWire]
  exact ⟨rfl, rfl⟩

theorem polled_delivers {c : Client} {ps : List Packet} (pending : c.pending = none)
    (h : c.transport.Delivers ps) :
    (c.transport.begins = false ∧ c.polled.transport.Delivers ps) ∨
      ∃ p more, ps = p :: more ∧ c.transport.begins = true ∧ c.polled.transport.Delivers more ∧
        ((p.acknowledged.isSome = true → c.transport.Accepts 4) → c.pollResult = p.answer) := by
  obtain ⟨hresult, hpolled⟩ := polled_eq pending
  rw [hresult, hpolled]
  rcases Wire.takePacket_delivers h with ⟨hidle, -, hsame⟩ |
    ⟨p, more, inbox, rfl, hbegins, hmore, htake⟩
  · exact .inl ⟨hidle, hsame⟩
  · rw [htake]
    refine .inr ⟨p, more, rfl, hbegins, (Wire.takeUp_sameReads _ _ _).delivers hmore, ?_⟩
    intro haccepts
    cases hack : p.acknowledged with
    | none => rw [Wire.takeUp_silent hack]
    | some packetId =>
      obtain ⟨opened, takes, budget, flushes⟩ := haccepts (by rw [hack]; rfl)
      have haccepts' : { c.transport with inbox }.Accepts
          ((p.acknowledged.elim [] pubackLayout).length + 0) := by
        rw [hack]
        exact ⟨opened, takes, budget, flushes⟩
      obtain ⟨t', houtcome, -⟩ := Wire.takeUp_answers p haccepts'
      rw [houtcome]

theorem polls_pending {c : Client} (pending : c.pending = none) (n : Nat) :
    (polls n c).pending = none := by
  induction n with
  | zero => exact pending
  | succ n ih =>
    rw [polls, (polled_eq ih).2]
    exact ih

/-- As many packets are gone as polls have found a first byte. -/
theorem polls_deliver {c : Client} {ps : List Packet} (pending : c.pending = none)
    (h : c.transport.Delivers ps) (n : Nat) :
    (polls n c).transport.Delivers (ps.drop (begun n c)) := by
  induction n with
  | zero => exact h
  | succ n ih =>
    rw [polls, begun]
    rcases polled_delivers (polls_pending pending n) ih with
      ⟨hbegins, hsame⟩ | ⟨p, more, hps, hbegins, hmore, -⟩
    · rw [hbegins]
      exact hsame
    · rw [hbegins, if_pos rfl, ← List.drop_drop, hps]
      exact hmore

/-- However the packets arrive, each poll that finds a first byte takes one of them off the stream,
and none does else. Its result, where writes are accepted, is the answer to that packet. -/
theorem polls_take_packets {c : Client} {ps : List Packet} (pending : c.pending = none)
    (h : c.transport.Delivers ps) (n : Nat) :
    (polls n c).transport.Delivers (ps.drop (begun n c)) ∧
    ((polls n c).transport.begins = false →
      arriving (polls n c).polled.transport.inbox = arriving (polls n c).transport.inbox) ∧
    ((polls n c).transport.begins = true → ∃ p, ps[begun n c]? = some p ∧
      arriving (polls n c).transport.inbox =
        p.bytes ++ arriving (polls n c).polled.transport.inbox ∧
      p.Answered p.answer ∧
      ((p.acknowledged.isSome = true → (polls n c).transport.Accepts 4) →
        (polls n c).pollResult = p.answer)) := by
  have hdelivers := polls_deliver pending h n
  have harrive := hdelivers.stream.arriving
  refine ⟨hdelivers, ?_⟩
  rcases polled_delivers (polls_pending pending n) hdelivers with
    ⟨hbegins, hsame⟩ | ⟨p, more, hps, hbegins, hmore, hresult⟩
  · refine ⟨fun _ => ?_, fun htrue => ?_⟩
    · exact hsame.stream.arriving.trans harrive.symm
    · rw [hbegins] at htrue
      cases htrue
  · refine ⟨fun hfalse => ?_, fun _ =>
      ⟨p, ?_, ?_, p.answered, hresult⟩⟩
    · rw [hbegins] at hfalse
      cases hfalse
    · rw [← List.head?_drop, hps]
      rfl
    · rw [hps, List.flatMap_cons] at harrive
      exact harrive.trans (congrArg _ hmore.stream.arriving.symm)

/-- A message of quality one under the topic `a`, with a length field longer than it need be. -/
def lightPacket : Packet where
  header := 0x32
  groups := [0x86, 0x00]
  body := [0, 1, 0x61, 0x12, 0x34, 0x00]
  length := .more (b := 0x86) (by decide) (.last (b := 0) (by decide))
  short := by decide

/-- A client to which this packet comes in pieces, as slowly as may be, and whose writes fail. -/
def slowClient : Client :=
  .ofTransport {
    inbox := [.idle 1, .data [0x32], .idle 16, .data [0x86, 0x00, 0], .idle 15, .data [],
      .data [1, 0x61, 0x12], .data [0x34, 0x00], .idle 40]
    outlet := { refuses := fun _ => true } }

theorem slowClient_delivers : slowClient.transport.Delivers [lightPacket] where
  readable := ⟨rfl, by decide⟩
  stream :=
    @Delivers.packet lightPacket [] [.nothing] _ _ rfl
      (.byte 16 (by decide) (.byte 0 (by decide) (.byte 0 (by decide) (.byte 16 (by decide)
        (.byte 0 (by decide) (.byte 0 (by decide) (.byte 0 (by decide) (.byte 0 (by decide)
          (.done _)))))))))
      (.rest rfl)

/-- The second poll takes the packet, though its acknowledgement cannot be written. -/
theorem slow_packet_taken :
    slowClient.pending = none ∧ slowClient.transport.Delivers [lightPacket] ∧
      arriving (polls 1 slowClient).transport.inbox =
        lightPacket.bytes ++ arriving (polls 1 slowClient).polled.transport.inbox ∧
      lightPacket.Answered lightPacket.answer ∧
      ((lightPacket.acknowledged.isSome = true → (polls 1 slowClient).transport.Accepts 4) →
        (polls 1 slowClient).pollResult = lightPacket.answer) := by
  obtain ⟨-, -, htakes⟩ := polls_take_packets (c := slowClient) rfl slowClient_delivers 1
  obtain ⟨p, hp, hbytes, hanswered, hresult⟩ := htakes (by decide +kernel)
  have hbegun : begun 1 slowClient = 0 := by decide +kernel
  rw [hbegun] at hp
  cases hp
  exact ⟨rfl, slowClient_delivers, hbytes, hanswered, hresult⟩

end Client

end HubDevice.Mqtt
