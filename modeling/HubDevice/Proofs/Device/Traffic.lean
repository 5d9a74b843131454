import HubDevice.Device.Session
import HubDevice.Proofs.Device.Handling
import HubDevice.Proofs.Mqtt.Operations

set_option autoImplicit false

namespace HubDevice.Session
open Mqtt (Packet Transport Connect outcome)
open Controller (Action Connected Equipped onLink)

inductive Utterance where
  | connect (o : Mqtt.Options)
  | subscribe (packetId : UInt16) (filter : String)
  | acknowledgement (packetId : UInt16)
  | patch (requestId : UInt32) (patch : Bytes)
  | getTwin (requestId : UInt32)
  | response (requestId : String) (status : Status) (payload : Bytes)
  | disconnect

def Utterance.isAcknowledgement : Utterance → Bool
  | .acknowledgement _ => true
  | _ => false

def Tells (p : Packet) : Utterance → Prop
  | .connect o => Connect.ofPacket? p = some o.presented
  | .subscribe packetId filter =>
    p.header = 0x82 ∧ p.body = Mqtt.subscribeLayout packetId (utf8 filter) .atMostOnce
  | .acknowledgement packetId => p.header = 0x40 ∧ p.body = Mqtt.twoBytes packetId.toNat
  | .patch requestId patch => p.Carries (Controller.patchMessage requestId patch)
  | .getTwin requestId =>
    p.Carries ⟨"$iothub/twin/GET/?$rid=" ++ Decimal.text requestId.toNat, [], .atMostOnce, none⟩
  | .response requestId status payload =>
    p.Carries ⟨Controller.responseTopic requestId status, payload, .atMostOnce, none⟩
  | .disconnect => p.header = 0xE0 ∧ p.body = []

/-- From one transport to the other whole packets were written, and acknowledgements left out they
tell this. -/
def Wrote (t t' : Transport) (said : List Utterance) : Prop :=
  ∃ packets all, List.Forall₂ Tells packets all ∧
    t'.sent = t.sent ++ packets.flatMap Packet.bytes ∧
    all.filter (!·.isAcknowledgement) = said

namespace Wrote

variable {t t' t'' : Transport} {said more : List Utterance}

theorem nothing (h : t'.sent = t.sent) : Wrote t t' [] :=
  ⟨[], [], .nil, by rw [h, List.flatMap_nil, List.append_nil], rfl⟩

theorem one {p : Packet} {u : Utterance} (tells : Tells p u) (hu : u.isAcknowledgement = false)
    (h : t'.sent = t.sent ++ p.bytes) : Wrote t t' [u] := by
  refine ⟨[p], [u], .cons tells .nil, by rw [h, List.flatMap_singleton], ?_⟩
  rw [List.filter_singleton, hu]
  rfl

theorem trans (h : Wrote t t' said) (h' : Wrote t' t'' more) : Wrote t t'' (said ++ more) := by
  obtain ⟨ps, us, tells, hsent, rfl⟩ := h
  obtain ⟨qs, vs, tells', hsent', rfl⟩ := h'
  refine ⟨ps ++ qs, us ++ vs, List.rel_append tells tells', ?_, List.filter_append us vs⟩
  rw [hsent', hsent, List.flatMap_append, List.append_assoc]

def acknowledgementPacket (packetId : UInt16) : Packet :=
  .sent 0x40 (Mqtt.twoBytes packetId.toNat) (show 2 < 128 ^ 4 by decide)

theorem bytes_acknowledgementPacket (packetId : UInt16) :
    (acknowledgementPacket packetId).bytes = Mqtt.pubackLayout packetId :=
  Packet.bytes_sent _ (show 2 < 128 by decide)

theorem acknowledgements {ids : List UInt16}
    (h : t'.sent = t.sent ++ ids.flatMap Mqtt.pubackLayout) : Wrote t t' [] := by
  refine ⟨ids.map acknowledgementPacket, ids.map .acknowledgement, ?_, ?_, ?_⟩
  · rw [List.forall₂_map_left_iff, List.forall₂_map_right_iff]
    exact List.forall₂_same.2 fun _ _ => ⟨rfl, rfl⟩
  · rw [h, List.flatMap_map]
    simp only [bytes_acknowledgementPacket]
  · rw [List.filter_map, List.map_eq_nil_iff, List.filter_eq_nil_iff]
    exact fun _ _ => nofun

theorem acknowledges (h : t.Acknowledges t') (accepts : ∀ n, t.Accepts n) : Wrote t t' [] := by
  obtain ⟨-, ids, hsent⟩ := h accepts
  exact .acknowledgements hsent

theorem published {c c' : Controller} {m : Mqtt.Message} {u : Utterance}
    (h : Controller.Published c c' [m]) (tells : ∀ p : Packet, p.Carries m → Tells p u)
    (hu : u.isAcknowledgement = false) : Wrote c.client.transport c'.client.transport [u] := by
  obtain ⟨packets, carries, hsent⟩ := h
  obtain ⟨p, _, hp, hnil, rfl⟩ := List.forall₂_cons_right_iff.1 carries
  cases hnil
  rw [List.flatMap_singleton] at hsent
  exact .one (tells p hp) hu hsent

end Wrote

/-- From a state with `P` the action says this and comes to one with `Q`, or it fails with a part of
it said. -/
def Speaks {α : Type} (action : Action α) (said : List Utterance) (P Q : Controller → Prop) :
    Prop :=
  ∀ c, P c → ∃ part, Wrote c.client.transport (outcome (action c)).2.client.transport part ∧
    match action c with
    | .ok _ c' => part = said ∧ Q c'
    | .error _ _ => part <+: said

theorem Speaks.bind {α β : Type} {first : Action α} {second : α → Action β}
    {said more : List Utterance} {P Q R : Controller → Prop} (h : Speaks first said P Q)
    (h' : ∀ a, Speaks (second a) more Q R) : Speaks (first >>= second) (said ++ more) P R := by
  intro c hc
  obtain ⟨part, hwrote, hend⟩ := h c hc
  cases hfirst : first c with
  | error e c1 =>
    rw [hfirst] at hwrote hend
    rw [bind_of_error hfirst]
    exact ⟨part, hwrote, hend.trans (List.prefix_append said more)⟩
  | ok a c1 =>
    rw [hfirst] at hwrote hend
    obtain ⟨rfl, h1⟩ := hend
    obtain ⟨part', hwrote', hend'⟩ := h' a c1 h1
    rw [bind_of_ok hfirst]
    refine ⟨part ++ part', hwrote.trans hwrote', ?_⟩
    cases hsecond : second a c1 with
    | error e c2 =>
      rw [hsecond] at hend'
      exact (List.prefix_append_right_inj part).2 hend'
    | ok b c2 =>
      rw [hsecond] at hend'
      obtain ⟨rfl, h2⟩ := hend'
      exact ⟨rfl, h2⟩

structure Ready (requestId : UInt32) (c : Controller) : Prop where
  connected : Connected c
  equipped : Equipped c
  requestId : c.requestId = requestId

/-- Nothing was requested so far but subscriptions, and this is the identifier of the last one. -/
structure Fresh (packetId : UInt16) (c : Controller) : Prop extends Ready 0 c where
  lastPacketId : c.client.lastPacketId = packetId

theorem start_fresh (identity : Identity) {t : Transport} (accepts : ∀ n, t.Accepts n) :
    Fresh 0 (Controller.start identity (.ofTransport t)) where
  connected := accepts
  equipped := rfl
  requestId := rfl
  lastPacketId := rfl

theorem subscribe_speaks (packetId : UInt16) {filter : String}
    (h : (utf8 filter).length ≤ Mqtt.topicCapacity) :
    Speaks (onLink (Mqtt.Client.subscribe (utf8 filter) .atMostOnce))
      [.subscribe (Mqtt.Client.nextPacketId packetId) filter] (Fresh packetId)
      (Fresh (Mqtt.Client.nextPacketId packetId)) := by
  rintro c ⟨⟨connected, equipped, hrequest⟩, rfl⟩
  obtain ⟨ids, accepts, hsent, hlast⟩ := Mqtt.Client.subscribe_writes .atMostOnce h connected
  let body := Mqtt.subscribeLayout (Mqtt.Client.nextPacketId c.client.lastPacketId) (utf8 filter)
    .atMostOnce
  have hshort : body.length < 128 ^ 4 := by
    simp only [body, Mqtt.subscribeLayout, Mqtt.twoBytes, List.length_append,
      List.length_cons, List.length_nil]
    unfold Mqtt.topicCapacity at h
    omega
  let p : Packet := .sent 0x82 body hshort
  let asked : Transport := { c.client.transport with sent := c.client.transport.sent ++ p.bytes }
  have hasked : Wrote c.client.transport asked
      [.subscribe (Mqtt.Client.nextPacketId c.client.lastPacketId) filter] :=
    .one (p := p) ⟨rfl, rfl⟩ rfl rfl
  refine ⟨[.subscribe (Mqtt.Client.nextPacketId c.client.lastPacketId) filter], ?_, ?_⟩
  · rw [Controller.outcome_onLink]
    exact hasked.trans (.acknowledgements hsent)
  · cases hlink : onLink (Mqtt.Client.subscribe (utf8 filter) .atMostOnce) c with
    | error e c1 => exact List.prefix_refl _
    | ok u c1 =>
      obtain ⟨client, hresult, rfl⟩ := Controller.onLink_eq_ok hlink
      rw [hresult] at accepts hlast
      exact ⟨rfl, ⟨accepts, equipped, hrequest⟩, hlast⟩

theorem report_speaks (requestId : UInt32) {patch : Bytes}
    (hpatch : patch.length ≤ Mqtt.payloadCapacity) :
    Speaks (Controller.report patch) [.patch (requestId + 1) patch] (Ready requestId)
      (Ready (requestId + 1)) := by
  rintro c ⟨connected, equipped, rfl⟩
  obtain ⟨c', hok, hposts, hthermostats⟩ := Controller.report_posts connected hpatch
  rw [hok]
  refine ⟨[.patch (c.requestId + 1) patch], .published hposts.published (fun _ hp => hp) rfl, rfl,
    hposts.connected, ?_, ?_⟩
  · rw [Equipped, hthermostats]
    exact equipped
  · exact hposts.requestId

theorem requestTwin_speaks (requestId : UInt32) :
    Speaks Controller.requestTwin [.getTwin (requestId + 1)] (Ready requestId)
      (Ready (requestId + 1)) := by
  rintro c ⟨connected, equipped, rfl⟩
  have htopic := Controller.length_requestTopic Controller.roomy_twinGet (c.requestId + 1)
  have hnothing : ([] : Bytes).length ≤ Mqtt.payloadCapacity := Nat.zero_le _
  obtain ⟨t, p, carries, hok, hsent, accepts⟩ :=
    Mqtt.Client.publish_ok_of_accepts htopic hnothing connected
  rw [Controller.requestTwin_eq, onLink]
  dsimp only
  rw [hok]
  exact ⟨[.getTwin (c.requestId + 1)], .one (p := p) carries rfl hsent, rfl, accepts, equipped, rfl⟩

def informationText : Bytes :=
  utf8 "\x7b\"deviceInformation\":\x7b\"__t\":\"c\"," ++
    utf8 "\"manufacturer\":\"Contoso Device Corporation\"," ++
    utf8 "\"model\":\"Contoso 4762B-turbo\",\"swVersion\":\"3.1\",\"osName\":\"linux\"," ++
    utf8 "\"processorArchitecture\":\"x86_64\",\"processorManufacturer\":\"Contoso Foundries\"," ++
    utf8 "\"totalStorage\":64000,\"totalMemory\":640\x7d\x7d"

theorem information_writes :
    ∃ w, Information.write Controller.payloadRoom = .ok () w ∧ w.bytes = informationText := by
  have hwritten : (outcome (Information.write Controller.payloadRoom)).1.isOk = true ∧
      (outcome (Information.write Controller.payloadRoom)).2.bytes = informationText := by
    decide +kernel
  obtain ⟨hok, hbytes⟩ := hwritten
  cases hwrite : Information.write Controller.payloadRoom with
  | ok u w =>
    rw [hwrite] at hbytes
    exact ⟨w, rfl, hbytes⟩
  | error e w =>
    rw [hwrite] at hok
    cases hok

theorem sendInformation_eq :
    Controller.sendInformation = Controller.report informationText := by
  obtain ⟨w, hwrite, hbytes⟩ := information_writes
  unfold Controller.sendInformation Controller.compose
  rw [hwrite, ← hbytes]
  rfl

def introduction : List Utterance :=
  [.subscribe 1 "$iothub/methods/POST/#",
    .subscribe 2 "$iothub/twin/PATCH/properties/desired/#",
    .subscribe 3 "$iothub/twin/res/#",
    .patch 1 informationText,
    .getTwin 2]

theorem Speaks.pure {P : Controller → Prop} : Speaks (Pure.pure ()) [] P P :=
  fun _ h => ⟨[], .nothing rfl, rfl, h⟩

theorem introduce_speaks : Speaks introduce introduction (Fresh 0) (Ready 2) := by
  have methods : (utf8 Topic.methodFilter).length ≤ Mqtt.topicCapacity := by decide +kernel
  have patches : (utf8 Topic.twinPatchFilter).length ≤ Mqtt.topicCapacity := by decide +kernel
  have responses : (utf8 Topic.twinResponseFilter).length ≤ Mqtt.topicCapacity := by
    decide +kernel
  have subscribes : Speaks Controller.subscribe (introduction.take 3) (Fresh 0) (Fresh 3) :=
    (subscribe_speaks 0 methods).bind fun _ =>
      (subscribe_speaks 1 patches).bind fun _ =>
        (subscribe_speaks 2 responses).bind fun _ => .pure
  have information : Speaks Controller.sendInformation [.patch 1 informationText] (Fresh 3)
      (Ready 1) := by
    have hlength : informationText.length ≤ Mqtt.payloadCapacity := by decide +kernel
    rw [sendInformation_eq]
    exact fun c h => report_speaks 0 hlength c h.toReady
  exact subscribes.bind fun _ => information.bind fun _ => requestTwin_speaks 1

/-- Behind the request with the first number each patch has the number that follows, up to the last.
The number behind the greatest is zero. There may be responses between the patches. -/
inductive Consecutive : UInt32 → List Utterance → UInt32 → Prop where
  | done (first : UInt32) : Consecutive first [] first
  | patch {first last : UInt32} {patch : Bytes} {more : List Utterance}
    (rest : Consecutive (first + 1) more last) :
    Consecutive first (.patch (first + 1) patch :: more) last
  | response {first last : UInt32} {requestId : String} {status : Status} {payload : Bytes}
    {more : List Utterance} (rest : Consecutive first more last) :
    Consecutive first (.response requestId status payload :: more) last

theorem Consecutive.append {first middle last : UInt32} {said more : List Utterance}
    (h : Consecutive first said middle) (h' : Consecutive middle more last) :
    Consecutive first (said ++ more) last := by
  induction h with
  | done => exact h'
  | patch _ ih => exact .patch (ih h')
  | response _ ih => exact .response (ih h')

structure Told (t : Transport) (first : UInt32) (c : Controller) : Prop where
  connected : Connected c
  equipped : Equipped c
  numbered : ∃ said, Wrote t c.client.transport said ∧ Consecutive first said c.requestId

namespace Told

variable {t : Transport} {first : UInt32} {c : Controller}

theorem start {requestId : UInt32} (h : Ready requestId c) :
    Told c.client.transport requestId c where
  connected := h.connected
  equipped := h.equipped
  numbered := ⟨[], .nothing rfl, h.requestId ▸ .done requestId⟩

theorem acknowledges (h : Told t first c) {client : Mqtt.Client}
    (hacks : c.client.transport.Acknowledges client.transport) :
    Told t first { c with client } := by
  obtain ⟨connected, equipped, said, hwrote, hnumbered⟩ := h
  refine ⟨(hacks connected).1, equipped, said, ?_, hnumbered⟩
  have hmore := hwrote.trans (.acknowledges hacks connected)
  rw [List.append_nil] at hmore
  exact hmore

theorem report (h : Told t first c) {patch : Bytes}
    (hpatch : patch.length ≤ Mqtt.payloadCapacity) :
    Told t first (outcome (Controller.report patch c)).2 := by
  obtain ⟨connected, equipped, said, hwrote, hnumbered⟩ := h
  obtain ⟨c', hok, hposts, hthermostats⟩ := Controller.report_posts connected hpatch
  have hreport : Wrote c.client.transport c'.client.transport [.patch (c.requestId + 1) patch] :=
    .published hposts.published (fun _ hp => hp) rfl
  have hnext : c'.requestId = c.requestId + 1 := hposts.requestId
  rw [hok]
  refine ⟨hposts.connected, ?_, _, hwrote.trans hreport, ?_⟩
  · change c'.thermostats.map Thermostat.name = _
    rw [hthermostats]
    exact equipped
  · change Consecutive first _ c'.requestId
    rw [hnext]
    exact hnumbered.append (.patch (.done _))

theorem respond (h : Told t first c) (requestId : String) (status : Status) (payload : Bytes) :
    Told t first
      (outcome (Controller.publish (Topic.response requestId status Controller.topicRoom) payload
        c)).2 := by
  have connected := Controller.connected_publish
    (Topic.response requestId status Controller.topicRoom) payload h.connected
  have hleaves := Controller.publish_response_leaves h.connected requestId status payload
  revert connected hleaves
  cases Controller.publish (Topic.response requestId status Controller.topicRoom) payload c with
  | error e c' =>
    rintro - rfl
    exact h
  | ok u c' =>
    intro connected hleaves
    obtain ⟨hframe, p, hsent, carries⟩ := hleaves
    obtain ⟨-, equipped, said, hwrote, hnumbered⟩ := h
    have hresponse : Wrote c.client.transport c'.client.transport
        [.response requestId status payload] := .one (p := p) carries rfl hsent
    refine ⟨connected, ?_, _, hwrote.trans hresponse, ?_⟩
    · change c'.thermostats.map Thermostat.name = _
      rw [hframe]
      exact equipped
    · change Consecutive first _ c'.requestId
      rw [hframe]
      exact hnumbered.append (.response (.done _))

end Told

/-- Whatever the message, its handling says patches with consecutive numbers and responses. -/
theorem handles_told (topic : String) (t : Transport) (first : UInt32) :
    Controller.Handles topic (Told t first) where
  equipped _ h := h.equipped
  replaces thermostat _ h := ⟨h.connected, h.equipped.replace thermostat, h.numbered⟩
  reports _ hpatch := Controller.maintains_of_outcome fun _ h => h.report hpatch
  responds requestId status payload :=
    Controller.maintains_of_outcome fun _ h => h.respond requestId status payload
  reboots _ _ h := ⟨h.connected, h.equipped, h.numbered⟩

end HubDevice.Session
