import HubDevice.Proofs.Device.Invariants
import HubDevice.Proofs.Json.Room
import HubDevice.Proofs.Mqtt.Sending
import HubDevice.Proofs.Number.Lengths
import HubDevice.Proofs.Text.Escaping
import Mathlib.Data.List.Forall2

set_option autoImplicit false

namespace HubDevice.Controller
open Mqtt (Message Packet Transport outcome)

variable {c c' c'' : Controller}

def Connected (c : Controller) : Prop := ∀ n, c.client.transport.Accepts n

theorem connected_publish (topic : Except Error Buffer) (payload : Bytes) (h : Connected c) :
    Connected (outcome (publish topic payload c)).2 := by
  cases topic with
  | error e => exact h
  | ok b =>
    have haccepts := Mqtt.Client.publish_accepts b.written payload h
    change Connected (outcome (onLink (Mqtt.Client.publish b.written payload .atMostOnce) c)).2
    rw [outcome_onLink]
    exact haccepts

/-- From one state to the other these messages were published, a packet for each, and nothing else
was sent. -/
def Published (c c' : Controller) (messages : List Message) : Prop :=
  ∃ packets : List Packet, List.Forall₂ Packet.Carries packets messages ∧
    c'.client.transport.sent = c.client.transport.sent ++ packets.flatMap Packet.bytes

theorem Published.nothing (h : c'.client.transport.sent = c.client.transport.sent) :
    Published c c' [] := ⟨[], .nil, by rw [h, List.flatMap_nil, List.append_nil]⟩

theorem Published.one {m : Message} {p : Packet} (carries : p.Carries m)
    (h : c'.client.transport.sent = c.client.transport.sent ++ p.bytes) : Published c c' [m] :=
  ⟨[p], .cons carries .nil, by rw [h, List.flatMap_singleton]⟩

theorem Published.trans {ms ms' : List Message} (h : Published c c' ms)
    (h' : Published c' c'' ms') : Published c c'' (ms ++ ms') := by
  obtain ⟨ps, carries, hsent⟩ := h
  obtain ⟨ps', carries', hsent'⟩ := h'
  refine ⟨ps ++ ps', List.rel_append carries carries', ?_⟩
  rw [hsent', hsent, List.flatMap_append, List.append_assoc]

def reportedTopic (requestId : UInt32) : String :=
  "$iothub/twin/PATCH/properties/reported/?$rid=" ++ Decimal.text requestId.toNat

def patchMessage (requestId : UInt32) (patch : Bytes) : Message :=
  ⟨reportedTopic requestId, patch, .atMostOnce, none⟩

def patchMessages (requestId : UInt32) : List Bytes → List Message
  | [] => []
  | patch :: patches => patchMessage (requestId + 1) patch :: patchMessages (requestId + 1) patches

def later (requestId : UInt32) (n : Nat) : UInt32 := requestId + n.toUInt32

theorem later_zero (requestId : UInt32) : later requestId 0 = requestId := by
  simp [later]

theorem later_later (requestId : UInt32) (n m : Nat) :
    later (later requestId n) m = later requestId (n + m) := by
  have hsum : (n + m).toUInt32 = n.toUInt32 + m.toUInt32 := UInt32.ofNat_add n m
  rw [later, later, later, hsum, UInt32.add_assoc]

theorem patchMessages_append (requestId : UInt32) (patches more : List Bytes) :
    patchMessages requestId (patches ++ more) =
      patchMessages requestId patches ++ patchMessages (later requestId patches.length) more := by
  induction patches generalizing requestId with
  | nil => rw [List.length_nil, later_zero]; rfl
  | cons patch patches ih =>
    have hlater : later (requestId + 1) patches.length = later requestId (patches.length + 1) := by
      rw [Nat.add_comm, ← later_later]
      rfl
    rw [List.cons_append, patchMessages, patchMessages, ih, hlater]
    rfl

theorem fill_topicRoom (chunks : List Bytes) :
    (∃ b, topicRoom.fill chunks = .ok b ∧ b.written = chunks.flatten ∧
      chunks.flatten.length ≤ Topic.capacity) ∨
    topicRoom.fill chunks = .error .bufferTooSmall ∧ Topic.capacity < chunks.flatten.length := by
  have hroom : topicRoom.free.length = Topic.capacity := List.length_replicate
  have hempty : topicRoom.written = [] := rfl
  unfold Buffer.fill
  by_cases hfits : chunks.flatten.length ≤ Topic.capacity
  · rw [Buffer.pushAll_of_fits (by rw [hroom]; exact hfits), hempty]
    exact .inl ⟨_, rfl, List.nil_append _, hfits⟩
  · have hover : topicRoom.free.length < chunks.flatten.length := by
      rw [hroom]
      exact Nat.lt_of_not_le hfits
    obtain ⟨full, hpush, -⟩ := Buffer.pushAll_of_overflow hover
    rw [hpush]
    exact .inr ⟨rfl, Nat.lt_of_not_le hfits⟩

def requestTopic (stem : String) (requestId : UInt32) : String :=
  stem ++ Decimal.text requestId.toNat

def Roomy (stem : String) : Prop := (utf8 stem).length + 10 ≤ Topic.capacity

theorem roomy_twinPatch : Roomy Topic.twinPatchStem := by
  unfold Roomy
  decide +kernel

theorem roomy_twinGet : Roomy Topic.twinGetStem := by
  unfold Roomy
  decide +kernel

theorem utf8_requestTopic (stem : String) (requestId : UInt32) :
    utf8 (requestTopic stem requestId) = utf8 stem ++ utf8 (Decimal.text requestId.toNat) :=
  utf8_append _ _

theorem length_requestTopic {stem : String} (roomy : Roomy stem) (requestId : UInt32) :
    (utf8 (requestTopic stem requestId)).length ≤ Topic.capacity := by
  have hdigits : (Decimal.digits requestId.toNat).length ≤ 10 :=
    Decimal.length_digits_le (by decide) (Nat.lt_trans requestId.toNat_lt (by decide))
  unfold Roomy at roomy
  rw [utf8_requestTopic, Decimal.utf8_text, List.length_append]
  omega

theorem request_eq {stem : String} (roomy : Roomy stem) (requestId : UInt32) :
    ∃ b, Topic.request stem (Decimal.text requestId.toNat) topicRoom = .ok b ∧
      b.written = utf8 (requestTopic stem requestId) := by
  have hflatten : [utf8 stem, utf8 (Decimal.text requestId.toNat)].flatten =
      utf8 (requestTopic stem requestId) := by
    rw [utf8_requestTopic, List.flatten_cons, List.flatten_singleton]
  have hnonempty : ¬ (Decimal.text requestId.toNat).isEmpty = true := by
    rw [String.isEmpty_iff]
    intro hempty
    have hdigits := Decimal.utf8_text requestId.toNat
    rw [hempty] at hdigits
    exact Decimal.digits_ne_nil _ hdigits.symm
  have hfits := length_requestTopic roomy requestId
  unfold Topic.request
  rw [if_neg hnonempty, ← hflatten]
  rw [← hflatten] at hfits
  rcases fill_topicRoom [utf8 stem, utf8 (Decimal.text requestId.toNat)] with
    ⟨b, hok, hwritten, -⟩ | ⟨-, hover⟩
  · exact ⟨b, hok, hwritten⟩
  · exact absurd hfits (Nat.not_le.2 hover)

/-- A request counts first, and then it is a publication. -/
theorem publish_request_eq {stem : String} (roomy : Roomy stem) (payload : Bytes)
    (c : Controller) :
    (do publish (Topic.request stem (← nextRequestId) topicRoom) payload : Action Unit) c =
      onLink (Mqtt.Client.publish (utf8 (requestTopic stem (c.requestId + 1))) payload .atMostOnce)
        { c with requestId := c.requestId + 1 } := by
  obtain ⟨b, htopic, hwritten⟩ := request_eq roomy (c.requestId + 1)
  change publish (Topic.request stem (Decimal.text (c.requestId + 1).toNat) topicRoom) payload
    { c with requestId := c.requestId + 1 } = _
  rw [htopic, ← hwritten]
  rfl

theorem requestTwin_eq (c : Controller) :
    requestTwin c =
      onLink (Mqtt.Client.publish (utf8 (requestTopic Topic.twinGetStem (c.requestId + 1))) []
        .atMostOnce) { c with requestId := c.requestId + 1 } :=
  publish_request_eq roomy_twinGet [] c

theorem length_reportedTopic (requestId : UInt32) :
    (utf8 (reportedTopic requestId)).length ≤ Topic.capacity :=
  length_requestTopic roomy_twinPatch requestId

theorem report_eq (patch : Bytes) (c : Controller) :
    report patch c =
      onLink (Mqtt.Client.publish (utf8 (reportedTopic (c.requestId + 1))) patch .atMostOnce)
        { c with requestId := c.requestId + 1 } :=
  publish_request_eq roomy_twinPatch patch c

/-- A report that is not too large takes an identifier. It fails with the link only, and one that
succeeds has left as one packet. -/
theorem report_fitting {patch : Bytes} (hpatch : patch.length ≤ Mqtt.payloadCapacity) :
    ∃ p : Packet, p.Carries (patchMessage (c.requestId + 1) patch) ∧
      match report patch c with
      | .ok _ c' => c' = { c with requestId := c.requestId + 1, client := c'.client } ∧
          c'.client.transport.sent = c.client.transport.sent ++ p.bytes
      | .error e c' => c' = { c with requestId := c.requestId + 1, client := c'.client } ∧
          e = .link .writeError := by
  obtain ⟨p, carries, hpublish⟩ := Mqtt.Client.publish_fitting (c := c.client)
    (length_reportedTopic (c.requestId + 1)) hpatch
  refine ⟨p, carries, ?_⟩
  rw [report_eq, onLink]
  dsimp only
  generalize Mqtt.Client.publish (utf8 (reportedTopic (c.requestId + 1))) patch .atMostOnce
    c.client = published at hpublish
  cases published with
  | ok u client => exact ⟨rfl, hpublish.2⟩
  | error e client => exact ⟨rfl, congrArg Failure.link hpublish.2⟩

/-- From one state to the other these patches were reported and nothing else was sent; apart from
the thermostats the device is the same. -/
structure Posts (c c' : Controller) (patches : List Bytes) : Prop where
  published : Published c c' (patchMessages c.requestId patches)
  requestId : c'.requestId = later c.requestId patches.length
  identity : c'.identity = c.identity
  rebooting : c'.rebooting = c.rebooting
  connected : Connected c'

theorem Posts.nothing (h : Connected c) (thermostats : List Thermostat) :
    Posts c { c with thermostats } [] where
  published := .nothing rfl
  requestId := (later_zero c.requestId).symm
  identity := rfl
  rebooting := rfl
  connected := h

theorem Posts.trans {patches more : List Bytes} (h : Posts c c' patches)
    (h' : Posts c' c'' more) : Posts c c'' (patches ++ more) where
  published := by
    rw [patchMessages_append, ← h.requestId]
    exact h.published.trans h'.published
  requestId := by
    rw [h'.requestId, h.requestId, List.length_append, later_later]
  identity := h'.identity.trans h.identity
  rebooting := h'.rebooting.trans h.rebooting
  connected := h'.connected

theorem report_posts {patch : Bytes} (h : Connected c)
    (hpatch : patch.length ≤ Mqtt.payloadCapacity) :
    ∃ c', report patch c = .ok () c' ∧ Posts c c' [patch] ∧ c'.thermostats = c.thermostats := by
  obtain ⟨t, p, carries, hok, hsent, haccepts⟩ :=
    Mqtt.Client.publish_ok_of_accepts (length_reportedTopic (c.requestId + 1)) hpatch h
  refine ⟨{ c with requestId := c.requestId + 1, client := { c.client with transport := t } }, ?_,
    ⟨.one carries hsent, rfl, rfl, rfl, haccepts⟩, rfl⟩
  rw [report_eq, onLink]
  dsimp only
  rw [hok]

end HubDevice.Controller
