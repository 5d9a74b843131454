import HubDevice.Proofs.Mqtt.Refusals

set_option autoImplicit false

namespace HubDevice.Mqtt

namespace Client

theorem toNat_nextPacketId (last : UInt16) : (nextPacketId last).toNat = last.toNat % 65535 + 1 := by
  unfold nextPacketId
  split
  · next h =>
    rw [h]
    rfl
  · next h =>
    have hlast : last.toNat ≠ 65535 := fun hnat => h (UInt16.toNat_inj.1 hnat)
    have hbound := last.toNat_lt
    rw [UInt16.toNat_add, UInt16.toNat_one]
    omega

def identifiersAfter (last : UInt16) : Nat → List UInt16
  | 0 => []
  | n + 1 => nextPacketId last :: identifiersAfter (nextPacketId last) n

theorem length_identifiersAfter (last : UInt16) (n : Nat) :
    (identifiersAfter last n).length = n := by
  induction n generalizing last with
  | zero => rfl
  | succ n ih => rw [identifiersAfter, List.length_cons, ih]

theorem toNat_identifiersAfter {last : UInt16} {n k : Nat}
    (hk : k < (identifiersAfter last n).length) :
    ((identifiersAfter last n)[k]).toNat = (last.toNat + k) % 65535 + 1 := by
  induction n generalizing last k with
  | zero => exact absurd hk (Nat.not_lt_zero k)
  | succ n ih =>
    cases k with
    | zero => exact toNat_nextPacketId last
    | succ k =>
      simp only [identifiersAfter, List.getElem_cons_succ]
      rw [ih, toNat_nextPacketId]
      omega

/-- Within one round of the circle no identifier comes twice. -/
theorem nodup_identifiersAfter (last : UInt16) (n k : Nat) :
    (((identifiersAfter last n).drop k).take 65535).Nodup := by
  rw [List.nodup_iff_pairwise_ne, List.pairwise_iff_getElem]
  intro i j hi hj hij heq
  have hj' := hj
  rw [List.length_take] at hj'
  have hvalues := congrArg UInt16.toNat heq
  rw [List.getElem_take, List.getElem_take, List.getElem_drop, List.getElem_drop,
    toNat_identifiersAfter, toNat_identifiersAfter] at hvalues
  omega

theorem identifiersAfter_append (last : UInt16) (m n : Nat) :
    identifiersAfter last (m + n) =
      identifiersAfter last m ++
        identifiersAfter ((identifiersAfter last m).getLast?.getD last) n := by
  induction m generalizing last with
  | zero => rw [Nat.zero_add]; rfl
  | succ m ih =>
    rw [Nat.succ_add, identifiersAfter, ih, identifiersAfter, List.getLast?_cons, Option.getD_some,
      List.cons_append]

/-- The identifiers that an action gives out, in order. An action that leaves the last one of every
client alone gives out none. -/
inductive Allocates : {α : Type} → Action α → Client → List UInt16 → Prop
  | keeps {α : Type} {action : Action α}
    (h : ∀ c : Client, (outcome (action c)).2.lastPacketId = c.lastPacketId) (c : Client) :
    Allocates action c []
  | allocate (c : Client) : Allocates allocate c [nextPacketId c.lastPacketId]
  | next {α β : Type} {first : Action α} {second : α → Action β} {c c' : Client} {a : α}
    {ids ids' : List UInt16} (h : first c = .ok a c') (before : Allocates first c ids)
    (after : Allocates (second a) c' ids') : Allocates (first >>= second) c (ids ++ ids')
  | stop {α β : Type} {first : Action α} {second : α → Action β} {c c' : Client} {e : LinkError}
    {ids : List UInt16} (h : first c = .error e c') (before : Allocates first c ids) :
    Allocates (first >>= second) c ids

/-- The identifiers given out follow on one another and on the last one before. -/
theorem Allocates.inOrder {α : Type} {action : Action α} {c : Client} {ids : List UInt16}
    (h : Allocates action c ids) :
    ids = identifiersAfter c.lastPacketId ids.length ∧
      (outcome (action c)).2.lastPacketId = ids.getLast?.getD c.lastPacketId := by
  induction h with
  | keeps h c => exact ⟨rfl, h c⟩
  | allocate c => exact ⟨rfl, rfl⟩
  | @next _ _ first second c c' a ids ids' h _ _ ihBefore ihAfter =>
    rw [h] at ihBefore
    have hlast : c'.lastPacketId = ids.getLast?.getD c.lastPacketId := ihBefore.2
    rw [bind_of_ok h]
    refine ⟨?_, ?_⟩
    · rw [List.length_append, identifiersAfter_append, ← ihBefore.1, ← hlast, ← ihAfter.1]
    · rw [ihAfter.2, hlast, List.getLast?_append]
      cases ids'.getLast? <;> rfl
  | stop h _ ih =>
    rw [h] at ih
    rw [bind_of_error h]
    exact ih

namespace Operation

/-- The operation wants an answer from the broker and passes its checks. -/
def numbered : Operation → Bool
  | publish topic payload qos =>
    qos = .atLeastOnce && topic.length ≤ topicCapacity && payload.length ≤ payloadCapacity
  | subscribe topic _ => topic.length ≤ topicCapacity
  | _ => false

def packet : Operation → UInt16 → Bytes
  | publish topic payload qos, packetId =>
    let body := publishLayout topic payload (if qos = .atLeastOnce then some packetId else none)
    (0x30 + 2 * qos.number) :: lengthField body.length ++ body
  | subscribe topic qos, packetId => (Outgoing.request packetId topic qos).bytes
  | ping, _ => [0xC0, 0]
  | poll, _ => []
  | disconnect, _ => [0xE0, 0]

end Operation

theorem Allocates.answered {action : Action Unit} {c : Client} {ids : List UInt16}
    (h : Allocates action c ids) :
    Allocates (do action; return (none : Option Message)) c ids := by
  have hreturn (c : Client) : Allocates (pure none : Action (Option Message)) c [] :=
    .keeps (fun _ => rfl) c
  cases haction : action c with
  | ok u c' =>
    rw [← List.append_nil ids]
    exact .next haction h (hreturn c')
  | error e c' => exact .stop haction h

theorem Allocates.onWire {α : Type} (action : Wire α) (c : Client) :
    Allocates (Client.onWire action) c [] :=
  .keeps (fun c => by rw [outcome_onWire]) c

theorem publish_allocates (topic payload : Bytes) (qos : QoS) (c : Client) :
    Allocates (publish topic payload qos) c
      (if (Operation.publish topic payload qos).numbered then [nextPacketId c.lastPacketId]
        else []) := by
  by_cases hqos : qos = .exactlyOnce
  · subst hqos
    exact .keeps (fun _ => rfl) c
  by_cases hlarge : topicCapacity < topic.length ∨ payloadCapacity < payload.length
  · have hunnumbered : (Operation.publish topic payload qos).numbered = false := by
      unfold Operation.numbered
      simp only [Bool.and_eq_false_iff, decide_eq_false_iff_not]
      omega
    rw [hunnumbered]
    exact .keeps (fun c => by rw [publish_tooLarge hqos hlarge]; rfl) c
  cases qos with
  | exactlyOnce => exact absurd rfl hqos
  | atMostOnce =>
    refine .keeps (fun c => ?_) c
    rw [publish_sends hqos hlarge, outcome_onWire]
    rfl
  | atLeastOnce =>
    have hnumbered : (Operation.publish topic payload .atLeastOnce).numbered = true := by
      unfold Operation.numbered
      simp only [Bool.and_eq_true, decide_eq_true_eq]
      exact ⟨⟨trivial, by omega⟩, by omega⟩
    rw [hnumbered, if_pos rfl]
    have heq : publish topic payload .atLeastOnce = allocate >>= fun packetId =>
        Client.onWire (Wire.sendPacket (publishFlags .atLeastOnce)
          (publishBody topic payload (some packetId))) := by
      funext c
      exact publish_sends hqos hlarge c
    rw [heq, ← List.append_nil [_]]
    exact .next rfl (.allocate c) (.onWire _ _)

theorem waitFor_last (packetId : UInt16) (c : Client) :
    (outcome (waitFor packetId c)).2.lastPacketId = c.lastPacketId :=
  (awaitSuback_acknowledges packetId c).2

theorem subscribe_allocates (topic : Bytes) (qos : QoS) (c : Client) :
    Allocates (subscribe topic qos) c
      (if (Operation.subscribe topic qos).numbered then [nextPacketId c.lastPacketId]
        else []) := by
  by_cases hlong : topicCapacity < topic.length
  · have hunnumbered : (Operation.subscribe topic qos).numbered = false := by
      simpa [Operation.numbered] using hlong
    rw [hunnumbered]
    exact .keeps (fun c => by rw [subscribe_tooLong hlong]; rfl) c
  have hnumbered : (Operation.subscribe topic qos).numbered = true := by
    simpa [Operation.numbered] using hlong
  rw [hnumbered, if_pos rfl, ← List.append_nil [_]]
  have heq : subscribe topic qos = allocate >>= fun packetId =>
      Client.onWire (Wire.sendPacket subscribeHeader (subscribeBody packetId topic qos)) >>=
        fun _ => waitFor packetId := by
    unfold subscribe
    rw [if_neg hlong]
    rfl
  rw [heq]
  refine .next rfl (.allocate c) (.keeps (fun c => ?_) _)
  refine outcome_bind (R := fun c c' : Client => c'.lastPacketId = c.lastPacketId)
    (fun h h' => h'.trans h) ?_ fun _ => waitFor_last _
  rw [outcome_onWire]

theorem poll_allocates (c : Client) : Allocates poll c [] := by
  refine .keeps (fun c => ?_) c
  cases hpending : c.pending with
  | some m =>
    rw [poll_held hpending]
    rfl
  | none => rw [poll_eq hpending, outcome_onWire]

theorem operation_allocates (op : Operation) (c : Client) :
    Allocates op.action c (if op.numbered then [nextPacketId c.lastPacketId] else []) := by
  cases op with
  | publish topic payload qos => exact (publish_allocates topic payload qos c).answered
  | subscribe topic qos => exact (subscribe_allocates topic qos c).answered
  | ping => exact (Allocates.onWire _ c).answered
  | poll => exact poll_allocates c
  | disconnect => exact (Allocates.onWire _ c).answered

/-- The packet was written whole, or writing failed on it; acknowledgements may stand behind it. -/
def Brings {α : Type} (packet : Bytes) (c : Client) (r : Except LinkError α × Client) : Prop :=
  ∃ (written : Bytes) (acks : List UInt16),
    r.2.transport.sent = c.transport.sent ++ written ∧
    written <+: packet ++ acks.flatMap pubackLayout ∧
    (r.1 ≠ .error .writeError → packet <+: written)

/-- What is written to a willing link says what is written to any. -/
theorem Brings.ofFaithful {α : Type} {action : Action α} {c : Client} {packet : Bytes}
    (h : Faithful (overWire action c))
    (opened : c.transport.closed = false → ∃ acks : List UInt16,
      (outcome (action { c with transport := c.transport.willing })).2.transport.sent =
        c.transport.sent ++ packet ++ acks.flatMap pubackLayout)
    (closed : c.transport.closed = true → (outcome (action c)).1 = .error .writeError ∧
      (outcome (action c)).2.transport.sent = c.transport.sent) :
    Brings packet c (outcome (action c)) := by
  cases hclosed : c.transport.closed with
  | true =>
    obtain ⟨hresult, hsent⟩ := closed hclosed
    exact ⟨[], [], hsent.trans (List.append_nil _).symm, List.nil_prefix,
      fun h => absurd hresult h⟩
  | false =>
    obtain ⟨acks, hideal⟩ := opened hclosed
    obtain ⟨log, packets, -, hsent, hpackets, hwritten⟩ := written_of_faithful h
    rw [hideal, List.append_assoc] at hpackets
    obtain rfl := List.append_cancel_left hpackets
    refine ⟨log.flatMap Attempt.accepted, acks, hsent, hwritten.inOrder, fun h => ?_⟩
    rw [hwritten.whole h]
    exact List.prefix_append _ _

theorem Brings.answered {action : Action Unit} {c : Client} {packet : Bytes}
    (h : Brings packet c (outcome (action c))) :
    Brings packet c (outcome ((do action; return (none : Option Message) : Action _) c)) := by
  obtain ⟨written, acks, hsent, hprefix, hwhole⟩ := h
  cases haction : action c with
  | ok u c' =>
    rw [haction] at hsent hwhole
    rw [bind_of_ok haction]
    exact ⟨written, acks, hsent, hprefix, fun _ => hwhole nofun⟩
  | error e c' =>
    rw [haction] at hsent hwhole
    rw [bind_of_error haction]
    refine ⟨written, acks, hsent, hprefix, fun h => hwhole fun he => h ?_⟩
    cases he
    rfl

theorem sendPacket_closed {header : UInt8} {body : Bytes} {t : Transport}
    (short : (lengthField body.length).length ≤ 4) (closed : t.closed = true) :
    Wire.sendPacket header body t = .error .writeError t := by
  unfold Wire.sendPacket
  rw [Wire.fixedHeader_short header short]
  exact (bind_of_ok rfl).trans (bind_of_error (writeAll_closed (List.cons_ne_nil _ _) closed))

theorem publish_brings {topic payload : Bytes} {qos : QoS} (c : Client)
    (h : (Operation.publish topic payload qos).numbered = true) :
    Brings ((Operation.publish topic payload qos).packet (nextPacketId c.lastPacketId)) c
      (outcome (publish topic payload qos c)) := by
  simp only [Operation.numbered, Bool.and_eq_true, decide_eq_true_eq] at h
  obtain ⟨⟨rfl, htopic⟩, hpayload⟩ := h
  have hfits : ¬ (topicCapacity < topic.length ∨ payloadCapacity < payload.length) := by omega
  have served : QoS.atLeastOnce ≠ .exactlyOnce := by decide
  have short : (lengthField (publishBody topic payload
      (some (nextPacketId c.lastPacketId))).length).length ≤ 4 :=
    length_lengthField (by decide)
      (Nat.lt_of_le_of_lt (length_fitting _ htopic hpayload) (by decide))
  refine .ofFaithful (publish_faithful topic payload .atLeastOnce c) (fun opened => ?_)
    fun closed => ?_
  · have hsends : Sends (Wire.sendPacket (publishFlags .atLeastOnce) _) _ () :=
      Wire.sendPacket_sends short
    obtain ⟨t, hok, hsent, -⟩ := hsends.accepted (Transport.willing_accepts opened)
    refine ⟨[], ?_⟩
    rw [publish_sends served hfits, outcome_onWire]
    dsimp only
    rw [if_pos rfl, hok, List.flatMap_nil, List.append_nil]
    rw [publishBody_eq] at hsent
    exact hsent
  · rw [publish_sends served hfits, outcome_onWire]
    dsimp only
    rw [if_pos rfl, sendPacket_closed short closed]
    exact ⟨rfl, rfl⟩

theorem subscribe_brings {topic : Bytes} {qos : QoS} (c : Client)
    (h : (Operation.subscribe topic qos).numbered = true) :
    Brings ((Operation.subscribe topic qos).packet (nextPacketId c.lastPacketId)) c
      (outcome (subscribe topic qos c)) := by
  have hfits : topic.length ≤ topicCapacity := of_decide_eq_true h
  refine .ofFaithful (subscribe_faithful topic qos c) (fun opened => ?_) fun closed => ?_
  · obtain ⟨acks, -, hsent, -⟩ :=
      subscribe_writes (c := { c with transport := c.transport.willing }) qos hfits
        (Transport.willing_accepts opened)
    exact ⟨acks, hsent⟩
  · rw [subscribe_fits hfits]
    dsimp only
    rw [sendPacket_closed (short_subscribeBody _ qos hfits) closed]
    exact ⟨rfl, rfl⟩

structure Numbers (op : Operation) (c : Client) (ids : List UInt16) : Prop where
  allocates : Allocates op.action c ids
  length : ids.length = if op.numbered then 1 else 0
  brings : ∀ packetId ∈ ids, Brings (op.packet packetId) c (outcome (op.action c))

theorem operation_numbers (op : Operation) (c : Client) :
    Numbers op c (if op.numbered then [nextPacketId c.lastPacketId] else []) := by
  refine ⟨operation_allocates op c, by split <;> rfl, fun packetId hmem => ?_⟩
  cases hnumbered : op.numbered with
  | false =>
    rw [hnumbered] at hmem
    cases hmem
  | true =>
    rw [hnumbered, if_pos rfl, List.mem_singleton] at hmem
    subst hmem
    cases op with
    | publish topic payload qos => exact (publish_brings c hnumbered).answered
    | subscribe topic qos => exact (subscribe_brings c hnumbered).answered
    | ping => cases hnumbered
    | poll => cases hnumbered
    | disconnect => cases hnumbered

inductive Numbered : List Operation → Client → List UInt16 → Prop
  | done (c : Client) : Numbered [] c []
  | operation {op : Operation} {ops : List Operation} {c : Client} {ids ids' : List UInt16}
    (first : Numbers op c ids) (rest : Numbered ops (outcome (op.action c)).2 ids') :
    Numbered (op :: ops) c (ids ++ ids')

theorem exists_numbered (ops : List Operation) (c : Client) : ∃ ids, Numbered ops c ids := by
  induction ops generalizing c with
  | nil => exact ⟨[], .done c⟩
  | cons op ops ih =>
    obtain ⟨ids, hrest⟩ := ih (outcome (op.action c)).2
    exact ⟨_, .operation (operation_numbers op c) hrest⟩

/-- What a run gives out follows on what was given out before. -/
theorem Numbered.inOrder {ops : List Operation} {c : Client} {ids : List UInt16}
    (h : Numbered ops c ids) :
    ids = identifiersAfter c.lastPacketId (ops.countP Operation.numbered) := by
  induction h with
  | done c => rfl
  | operation first _ ih =>
    obtain ⟨hids, hlast⟩ := first.allocates.inOrder
    rw [first.length] at hids
    rw [List.countP_cons, Nat.add_comm, identifiersAfter_append, ← hids, ← hlast, ← ih]

/-- From the opening of a session on the identifiers are numbered in a circle without zero: each
operation that is to be answered and passes its checks gives out the next one, no other gives out
any, and the one given out is the one that is written. -/
theorem identifiers_numbered (o : Options) (t t' : Transport) (c : Client)
    (opened : connect o t = .ok c t') (ops : List Operation) :
    (∃ ids, Numbered ops c ids) ∧ ∀ ids, Numbered ops c ids →
      ids.length = ops.countP Operation.numbered ∧
      (∀ (k : Nat) (hk : k < ids.length), (ids[k]).toNat = k % 65535 + 1 ∧ ids[k] ≠ 0) ∧
      ∀ k, ((ids.drop k).take 65535).Nodup := by
  obtain ⟨rfl, -⟩ := connect_eq_ok opened
  refine ⟨exists_numbered ops _, fun ids h => ?_⟩
  obtain rfl := h.inOrder
  refine ⟨length_identifiersAfter _ _, fun k hk => ?_, nodup_identifiersAfter _ _⟩
  have hvalue := toNat_identifiersAfter hk
  have hfirst : (ofTransport t').lastPacketId.toNat = 0 := rfl
  rw [hfirst, Nat.zero_add] at hvalue
  refine ⟨hvalue, fun hzero => ?_⟩
  rw [hzero] at hvalue
  cases hvalue

def unansweredRun : List Operation :=
  [.publish [0x74] [] .atMostOnce, .subscribe [0x61] .atLeastOnce, .publish [0x74] [] .exactlyOnce,
    .publish [0x74] [] .atLeastOnce]

theorem failed_operation_numbered :
    let o : Options := ⟨[0x61], 60, true, none, none⟩
    let t : Transport := { inbox := [.data [0x20, 2, 0, 0]] }
    ∃ c t', connect o t = .ok c t' ∧ ∃ ids, Numbered unansweredRun c ids ∧
      ids.map UInt16.toNat = [1, 2] := by
  intro o t
  have hopens : (outcome (connect o t)).1.toBool = true := by decide +kernel
  cases hconnect : connect o t with
  | error e t' =>
    rw [hconnect] at hopens
    cases hopens
  | ok c t' =>
    obtain ⟨⟨ids, hnumbered⟩, hids⟩ := identifiers_numbered o t t' c hconnect unansweredRun
    obtain ⟨hlength, hvalues, -⟩ := hids ids hnumbered
    refine ⟨c, t', rfl, ids, hnumbered, ?_⟩
    match ids, hlength with
    | [first, second], _ =>
      have hfirst : first.toNat = 1 := (hvalues 0 Nat.zero_lt_two).1
      have hsecond : second.toNat = 2 := (hvalues 1 Nat.one_lt_two).1
      rw [List.map_cons, List.map_singleton, hfirst, hsecond]

end Client

end HubDevice.Mqtt
