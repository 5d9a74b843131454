import HubDevice.Proofs.Device.Traffic

set_option autoImplicit false

namespace HubDevice.Session
open Mqtt (Packet Transport Message Publishes arriving outcome)
open Controller (Action Equipped Reboots Maintains Handles onLink)

variable {now : String} {c c' : Controller} {t t' : Transport}

/-- What publications and subscriptions keep is kept by an introduction that succeeds. -/
theorem introduce_keeps {I : Controller → Prop} {E E' : Failure → Controller → Prop}
    (steady : Controller.Steady I E) (subscribes : ∀ filter : String,
      Maintains I E' (onLink (Mqtt.Client.subscribe (utf8 filter) .atMostOnce)))
    (h : I c) (hok : introduce c = .ok () c') : I c' := by
  obtain ⟨_, c1, hsubscribe, hok⟩ := bind_eq_ok_state hok
  obtain ⟨_, c2, hinformation, htwin⟩ := bind_eq_ok_state hok
  have h1 := (Controller.maintains_forM _ fun filter _ => subscribes filter).ok h hsubscribe
  have h2 := steady.sendInformation.ok h1 hinformation
  exact steady.requestTwin.ok h2 htwin

theorem listen_succ (now : String) (rounds : Nat) (c : Controller) :
    listen now (rounds + 1) c =
      match onLink Mqtt.Client.poll c with
      | .error e c' => .error e c'
      | .ok none c' => if c'.rebooting then .ok true c' else listen now rounds c'
      | .ok (some m) c' =>
        listen now rounds (outcome (Controller.handle now m.topic m.payload c')).2 := by
  rw [listen]
  cases hpoll : onLink Mqtt.Client.poll c with
  | error e c' => exact bind_of_error hpoll
  | ok got c' =>
    rw [bind_of_ok hpoll]
    cases got with
    | none =>
      change (if c'.rebooting then pure true else listen now rounds : Action Bool) c' = _
      dsimp only
      split <;> rfl
    | some m =>
      have hattempt : attempt (Controller.handle now m.topic m.payload) c' =
          .ok () (outcome (Controller.handle now m.topic m.payload c')).2 := by
        unfold attempt
        cases Controller.handle now m.topic m.payload c' <;> rfl
      exact bind_of_ok hattempt

/-- What a poll and the handling of its message keep is kept all along; `J` tells of the state with
a message in hand. -/
theorem listen_keeps {J : Option Message → Controller → Prop} {E : Failure → Controller → Prop}
    (polls : ∀ c, J none c → match onLink Mqtt.Client.poll c with
      | .ok got c' => J got c'
      | .error e c' => E e c')
    (handles : ∀ m c, J (some m) c →
      J none (outcome (Controller.handle now m.topic m.payload c)).2)
    (rounds : Nat) (h : J none c) :
    match listen now rounds c with
    | .ok _ c' => J none c'
    | .error e c' => E e c' := by
  induction rounds generalizing c with
  | zero => exact h
  | succ rounds ih =>
    have hpolls := polls c h
    rw [listen_succ]
    cases hpoll : onLink Mqtt.Client.poll c with
    | error e c1 =>
      rw [hpoll] at hpolls
      exact hpolls
    | ok got c1 =>
      rw [hpoll] at hpolls
      cases got with
      | none =>
        by_cases hrebooting : c1.rebooting = true
        · simp only [if_pos hrebooting]
          exact hpolls
        · simp only [if_neg hrebooting]
          exact ih hpolls
      | some m => exact ih (handles m c1 hpolls)

theorem rebooting_of_listen {rounds : Nat} (h : listen now rounds c = .ok true c') :
    c'.rebooting = true := by
  induction rounds generalizing c with
  | zero => cases h
  | succ rounds ih =>
    rw [listen_succ] at h
    cases hpoll : onLink Mqtt.Client.poll c with
    | error e c1 =>
      rw [hpoll] at h
      cases h
    | ok got c1 =>
      rw [hpoll] at h
      cases got with
      | none =>
        dsimp only at h
        split at h
        · next hrebooting =>
          cases h
          exact hrebooting
        · exact ih h
      | some m => exact ih h

theorem serve_eq (now : String) (c : Controller) :
    serve now c =
      match introduce c with
      | .error e c' => .error e c'
      | .ok _ c' =>
        match listen now (reads c'.client.transport.inbox + 2) c' with
        | .error e c' => .error e c'
        | .ok false c' => .ok .listening c'
        | .ok true c' =>
          match onLink Mqtt.Client.disconnect c' with
          | .error e c' => .error e c'
          | .ok _ c' => .ok .rebooted c' := by
  unfold serve
  cases hintroduce : introduce c with
  | error e c1 => exact bind_of_error hintroduce
  | ok u c1 =>
    rw [bind_of_ok hintroduce]
    have hget : (get : Action Controller) c1 = .ok c1 c1 := rfl
    rw [bind_of_ok hget]
    dsimp only
    cases hlisten : listen now (reads c1.client.transport.inbox + 2) c1 with
    | error e c2 => exact bind_of_error hlisten
    | ok b c2 =>
      rw [bind_of_ok hlisten]
      cases b with
      | false => rfl
      | true =>
        rw [if_pos rfl]
        dsimp only
        cases hdisconnect : onLink Mqtt.Client.disconnect c2 with
        | error e c3 => exact bind_of_error hdisconnect
        | ok u c3 => exact bind_of_ok hdisconnect

/-- Since its session was opened the device has taken these packets. The message in hand came in one
of them, and if the device is to reboot one of them asked for that. -/
structure Heard (t : Transport) (inHand : Option Message) (c : Controller) (taken : List Packet) :
    Prop where
  equipped : Equipped c
  hears : (Mqtt.Client.ofTransport t).Hears c.client taken
  inHand : ∀ m, inHand = some m → ∃ p ∈ taken, p.message? = some m
  asked : c.rebooting = true → ∃ p ∈ taken, ∃ m, p.message? = some m ∧ Reboots m.topic

def Hearing (t : Transport) (inHand : Option Message) (c : Controller) : Prop :=
  ∃ taken, Heard t inHand c taken

namespace Hearing

variable {inHand : Option Message}

theorem start (identity : Identity) (t : Transport) :
    Hearing t none (Controller.start identity (.ofTransport t)) :=
  ⟨[], rfl, .nothing rfl rfl, nofun, nofun⟩

/-- More packets are taken, and one of them may bring the next message. -/
theorem hears (h : Hearing t none c) {client : Mqtt.Client} {more : List Packet}
    (hears : c.client.Hears client more)
    (hmessage : ∀ m, inHand = some m →
      c.client.pending = some m ∨ ∃ p ∈ more, p.message? = some m) :
    Hearing t inHand { c with client } := by
  obtain ⟨taken, equipped, heard, -, asked⟩ := h
  refine ⟨taken ++ more, equipped, heard.trans hears, fun m hm => ?_, fun hrebooting => ?_⟩
  · rcases hmessage m hm with hheld | ⟨p, hp, hm⟩
    · rcases heard.pending m hheld with hfirst | ⟨p, hp, hm⟩
      · cases hfirst
      · exact ⟨p, List.mem_append_left more hp, hm⟩
    · exact ⟨p, List.mem_append_right taken hp, hm⟩
  · obtain ⟨p, hp, hm⟩ := asked hrebooting
    exact ⟨p, List.mem_append_left more hp, hm⟩

end Hearing

theorem steady_hearing (t : Transport) (inHand : Option Message) :
    Controller.Steady (Hearing t inHand) (fun _ => Hearing t inHand) where
  fails _ _ h := h
  publishes topic payload := by
    refine Controller.maintains_onLink (fun c h => ?_) fun _ _ h => h
    obtain ⟨taken, equipped, heard, hmessage, asked⟩ := h
    have hears := heard.trans (Mqtt.Client.publish_hears topic payload c.client)
    rw [List.append_nil] at hears
    exact ⟨taken, equipped, hears, hmessage, asked⟩
  counts _ _ h := by
    obtain ⟨taken, equipped, hears, hmessage, asked⟩ := h
    exact ⟨taken, equipped, hears, hmessage, asked⟩

/-- Only a message that asks for it makes the device reboot. -/
theorem handles_hearing (t : Transport) (m : Message) :
    Handles m.topic (Hearing t (some m)) where
  equipped _ h := h.choose_spec.equipped
  replaces thermostat _ h := by
    obtain ⟨taken, equipped, hears, hmessage, asked⟩ := h
    exact ⟨taken, equipped.replace thermostat, hears, hmessage, asked⟩
  reports patch _ := (steady_hearing t (some m)).report patch
  responds requestId status payload :=
    (steady_hearing t (some m)).publish (Topic.response requestId status Controller.topicRoom)
      payload
  reboots hreboots _ h := by
    obtain ⟨taken, equipped, hears, hmessage, -⟩ := h
    obtain ⟨p, hp, hm⟩ := hmessage m rfl
    exact ⟨taken, equipped, hears, hmessage, fun _ => ⟨p, hp, m, hm, hreboots⟩⟩

theorem introduce_hearing (h : Hearing t none c) (hok : introduce c = .ok () c') :
    Hearing t none c' := by
  have subscribes (filter : String) : Maintains (Hearing t none) (fun _ _ => True)
      (onLink (Mqtt.Client.subscribe (utf8 filter) .atMostOnce)) := by
    refine ⟨fun {c a c'} h hresult => ?_, fun _ _ => trivial⟩
    obtain ⟨client, hsubscribe, rfl⟩ := Controller.onLink_eq_ok hresult
    obtain ⟨more, hears⟩ := Mqtt.Client.subscribe_hears hsubscribe
    exact h.hears hears nofun
  exact introduce_keeps (steady_hearing t none) subscribes h hok

theorem listen_hearing {rounds : Nat} {b : Bool} (h : Hearing t none c)
    (hok : listen now rounds c = .ok b c') : Hearing t none c' := by
  have polls : ∀ c, Hearing t none c → match onLink Mqtt.Client.poll c with
      | .ok got c' => Hearing t got c'
      | .error _ _ => True := by
    intro c h
    cases hlink : onLink Mqtt.Client.poll c with
    | error e c1 => trivial
    | ok got c1 =>
      obtain ⟨client, hpoll, rfl⟩ := Controller.onLink_eq_ok hlink
      obtain ⟨more, hears, hmessage⟩ := Mqtt.Client.poll_hears hpoll
      exact h.hears hears hmessage
  have handles : ∀ (m : Message) c, Hearing t (some m) c →
      Hearing t none (outcome (Controller.handle now m.topic m.payload c)).2 := by
    intro m c h
    obtain ⟨taken, equipped, hears, -, asked⟩ :=
      ((handles_hearing t m).handle now m.payload).ends h
    exact ⟨taken, equipped, hears, nofun, asked⟩
  have hkeeps := listen_keeps (J := Hearing t) (E := fun _ _ => True) polls handles rounds h
  rw [hok] at hkeeps
  exact hkeeps

theorem listen_told {first : UInt32} (h : Told t first c) (rounds : Nat) :
    Told t first (outcome (listen now rounds c)).2 := by
  have polls : ∀ c, Told t first c → match onLink Mqtt.Client.poll c with
      | .ok _ c' => Told t first c'
      | .error _ c' => Told t first c' := by
    intro c h
    have hacks := h.acknowledges (Mqtt.Client.poll_acknowledges c.client)
    rw [← Controller.outcome_onLink] at hacks
    cases hpoll : onLink Mqtt.Client.poll c <;> rw [hpoll] at hacks <;> exact hacks
  have handles : ∀ (m : Message) c, Told t first c →
      Told t first (outcome (Controller.handle now m.topic m.payload c)).2 :=
    fun m c h => ((handles_told m.topic t first).handle now m.payload).ends h
  have hkeeps := listen_keeps (J := fun _ => Told t first) (E := fun _ => Told t first) polls
    handles rounds h
  cases hlisten : listen now rounds c <;> rw [hlisten] at hkeeps <;> exact hkeeps

theorem disconnect_wrote (connected : Controller.Connected c) :
    Wrote c.client.transport
      (outcome (onLink Mqtt.Client.disconnect c)).2.client.transport [.disconnect] := by
  have hsent := Mqtt.Client.disconnect_writes connected
  let p : Packet := .sent 0xE0 [] (show 0 < 128 ^ 4 by decide)
  have hbytes : p.bytes = [0xE0, 0] := Packet.bytes_sent _ (show 0 < 128 by decide)
  rw [← hbytes] at hsent
  rw [Controller.outcome_onLink]
  exact .one (p := p) ⟨rfl, rfl⟩ rfl hsent

theorem serve_wrote (now : String) (fresh : Fresh 0 c) :
    ∃ said rest last, Wrote c.client.transport (outcome (serve now c)).2.client.transport said ∧
      Consecutive 2 rest last ∧ said <+: introduction ++ rest ++ [.disconnect] := by
  obtain ⟨part, hintroduced, hend⟩ := introduce_speaks c fresh
  rw [serve_eq]
  cases hintroduce : introduce c with
  | error e c1 =>
    rw [hintroduce] at hintroduced hend
    refine ⟨part, [], 2, hintroduced, .done 2, ?_⟩
    rw [List.append_nil]
    exact hend.trans (List.prefix_append _ _)
  | ok u c1 =>
    rw [hintroduce] at hintroduced hend
    obtain ⟨rfl, ready⟩ := hend
    have htold : Told c1.client.transport 2
        (outcome (listen now (reads c1.client.transport.inbox + 2) c1)).2 :=
      listen_told (.start ready) _
    dsimp only
    revert htold
    rcases listen now (reads c1.client.transport.inbox + 2) c1 with ⟨b, c2⟩ | ⟨e, c2⟩ <;>
      rintro ⟨connected, -, rest, hrest, hnumbered⟩
    · have hsaid := hintroduced.trans hrest
      cases b with
      | false => exact ⟨_, rest, _, hsaid, hnumbered, List.prefix_append _ _⟩
      | true =>
        have hfarewell := disconnect_wrote connected
        refine ⟨_, rest, _, hsaid.trans ?_, hnumbered, List.prefix_refl _⟩
        dsimp only [outcome] at hfarewell ⊢
        cases hdisconnect : onLink Mqtt.Client.disconnect c2 <;>
          rw [hdisconnect] at hfarewell <;> exact hfarewell
    · exact ⟨_, rest, _, hintroduced.trans hrest, hnumbered, List.prefix_append _ _⟩

/-- Among the packets that were taken behind the answer to the opening is the command to reboot. -/
def RebootAsked (t t' : Transport) : Prop :=
  ∃ (answer : Bytes) (packets : List Packet), answer.length = 4 ∧
    arriving t.inbox = answer ++ packets.flatMap Packet.bytes ++ arriving t'.inbox ∧
    ∃ p ∈ packets, ∃ m request, Publishes p.header p.body m ∧
      Topic.commandRequest? m.topic = some request ∧ request.component = none ∧
      request.command = "reboot"

/-- The last that was written is a farewell, and then the link was closed. -/
def TookLeave (t : Transport) : Prop :=
  ∃ (before : Transport) (earlier : Bytes), before.sent = earlier ++ [0xE0, 0] ∧
    before.closed = false ∧ t = { before with closed := true }

theorem rebooted_of_serve (identity : Identity)
    (h : serve now (Controller.start identity (.ofTransport t)) = .ok .rebooted c') :
    ∃ taken : List Packet,
      arriving t.inbox = taken.flatMap Packet.bytes ++ arriving c'.client.transport.inbox ∧
      (∃ p ∈ taken, ∃ m, p.message? = some m ∧ Reboots m.topic) ∧
      TookLeave c'.client.transport := by
  rw [serve_eq] at h
  cases hintroduce : introduce (Controller.start identity (.ofTransport t)) with
  | error e c1 =>
    rw [hintroduce] at h
    cases h
  | ok u c1 =>
    rw [hintroduce] at h
    have heard := introduce_hearing (.start identity t) hintroduce
    dsimp only at h
    cases hlisten : listen now (reads c1.client.transport.inbox + 2) c1 with
    | error e c2 =>
      rw [hlisten] at h
      cases h
    | ok b c2 =>
      rw [hlisten] at h
      cases b with
      | false => cases h
      | true =>
        obtain ⟨taken, -, hears, -, asked⟩ := listen_hearing heard hlisten
        dsimp only at h
        cases hlink : onLink Mqtt.Client.disconnect c2 with
        | error e c3 =>
          rw [hlink] at h
          cases h
        | ok u c3 =>
          rw [hlink] at h
          cases h
          obtain ⟨client, hdisconnect, rfl⟩ := Controller.onLink_eq_ok hlink
          obtain ⟨before, hsent, hinbox, hopen, rfl⟩ := Mqtt.Client.disconnect_eq_ok hdisconnect
          refine ⟨taken, ?_, asked (rebooting_of_listen hlisten), before, _, hsent, hopen, rfl⟩
          have hstream := hears.stream
          rw [← hinbox] at hstream
          exact hstream

theorem rebooted_of_converse {plan : Plan} (h : converse now plan t = (.rebooted, t')) :
    RebootAsked t t' ∧ TookLeave t' := by
  unfold converse at h
  cases hconnect : Mqtt.Client.connect plan.options t with
  | error e t1 =>
    rw [hconnect] at h
    cases h
  | ok client t1 =>
    rw [hconnect] at h
    obtain ⟨rfl, answer, hlength, harrive⟩ := Mqtt.Client.connect_eq_ok hconnect
    dsimp only at h
    cases hserve : serve now (Controller.start plan.identity (.ofTransport t1)) with
    | error e c =>
      rw [hserve] at h
      cases h
    | ok ending c =>
      rw [hserve] at h
      cases h
      obtain ⟨taken, hstream, ⟨p, hp, m, hm, request, hrequest⟩, hleave⟩ :=
        rebooted_of_serve plan.identity hserve
      refine ⟨⟨answer, taken, hlength, ?_, p, hp, m, request, ?_, hrequest⟩, hleave⟩
      · rw [harrive, hstream, List.append_assoc]
      · exact (Packet.message?_eq_some_iff.1 hm).1

theorem converse_wrote (now : String) (plan : Plan) (accepts : ∀ n, t.Accepts n) :
    ∃ said rest last, Wrote t (converse now plan t).2 said ∧ Consecutive 2 rest last ∧
      said <+: .connect plan.options :: introduction ++ rest ++ [.disconnect] := by
  unfold converse
  rcases Mqtt.Client.connect_writes plan.options accepts with ⟨e, hconnect⟩ |
    ⟨hfits, hsent, accepts1⟩
  · rw [hconnect]
    exact ⟨[], [], 2, .nothing rfl, .done 2, List.nil_prefix⟩
  have hopening : Wrote t (outcome (Mqtt.Client.connect plan.options t)).2
      [.connect plan.options] :=
    .one (p := plan.options.packet hfits) (plan.options.ofPacket?_packet hfits) rfl hsent
  cases hconnect : Mqtt.Client.connect plan.options t with
  | error e t1 =>
    rw [hconnect] at hopening
    exact ⟨_, [], 2, hopening, .done 2, ⟨introduction ++ [.disconnect], rfl⟩⟩
  | ok client t1 =>
    rw [hconnect] at hopening accepts1
    obtain ⟨rfl, -⟩ := Mqtt.Client.connect_eq_ok hconnect
    obtain ⟨said, rest, last, hserve, hnumbered, hprefix⟩ :=
      serve_wrote now (start_fresh plan.identity accepts1)
    refine ⟨_, rest, last, ?_, hnumbered, (List.prefix_cons_inj _).2 hprefix⟩
    have hall := hopening.trans hserve
    dsimp only [outcome] at hall ⊢
    cases hresult : serve now (Controller.start plan.identity (.ofTransport t1)) <;>
      rw [hresult] at hall <;> exact hall

/-- Whatever the entries, the messages and the link: a session ends well only if a packet that it
took held the command to reboot, and then it has taken leave. Where every write is accepted, what it
says is a part, from the beginning, of a text that opens the session, introduces the device and goes
on with responses and with patches that have consecutive numbers, up to a farewell. -/
theorem run_conduct (entry : String → Option String) (now : String)
    (dial : String → Except LinkError Transport) :
    ((run entry now dial).ending = .rebooted →
      ∃ p t t', plan entry = .ok p ∧ dial p.endpoint = .ok t ∧
        (run entry now dial).transport = some t' ∧ RebootAsked t t' ∧ TookLeave t') ∧
    ∀ p t, plan entry = .ok p → dial p.endpoint = .ok t → (∀ n, t.Accepts n) →
      ∃ t' said rest last, (run entry now dial).transport = some t' ∧ Wrote t t' said ∧
        Consecutive 2 rest last ∧
        said <+: .connect p.options :: introduction ++ rest ++ [.disconnect] := by
  unfold run
  refine ⟨fun h => ?_, fun p t hplan hdial accepts => ?_⟩
  · cases hplan : plan entry with
    | error e =>
      rw [hplan] at h
      cases h
    | ok p =>
      rw [hplan] at h
      dsimp only at h ⊢
      cases hdial : dial p.endpoint with
      | error e =>
        rw [hdial] at h
        cases h
      | ok t =>
        rw [hdial] at h
        have hconverse : converse now p t = (.rebooted, (converse now p t).2) :=
          Prod.ext h rfl
        exact ⟨p, t, _, rfl, hdial, rfl, rebooted_of_converse hconverse⟩
  · rw [hplan]
    dsimp only
    rw [hdial]
    obtain ⟨said, rest, last, hwrote, hnumbered, hpart⟩ := converse_wrote now p accepts
    exact ⟨_, said, rest, last, rfl, hwrote, hnumbered, hpart⟩

def settings (name : String) : Option String :=
  [("AZ_IOT_HUB_HOSTNAME", "hub"), ("AZ_IOT_DEVICE_ID", "d")].lookup name

def subscribed (packetId : UInt8) : Bytes := [0x90, 3, 0, packetId, 0]

def rebootBody : Bytes :=
  Mqtt.publishLayout (utf8 "$iothub/methods/POST/reboot/?$rid=7") (utf8 "\x7b\x7d") none

def briefLink : Transport where
  inbox := [.data ([0x20, 2, 0, 0] ++ subscribed 1 ++ subscribed 2 ++ subscribed 3),
    .data (0x30 :: rebootBody.length.toUInt8 :: rebootBody), .idle 1]

theorem brief_session :
    let brief := run settings "now" fun _ => .ok briefLink
    brief.ending = .rebooted ∧ ∃ p t', plan settings = .ok p ∧ brief.transport = some t' ∧
      RebootAsked briefLink t' ∧ TookLeave t' ∧ (∀ n, briefLink.Accepts n) ∧
      ∃ said rest last, Wrote briefLink t' said ∧ Consecutive 2 rest last ∧
        said <+: .connect p.options :: introduction ++ rest ++ [.disconnect] := by
  have hending : (run settings "now" fun _ => .ok briefLink).ending = .rebooted := by
    decide +kernel
  have accepts (n : Nat) : briefLink.Accepts n :=
    ⟨rfl, fun _ _ => ⟨rfl, nofun⟩, nofun, fun _ _ => rfl⟩
  obtain ⟨hrebooted, hsaid⟩ := run_conduct settings "now" fun _ => .ok briefLink
  obtain ⟨p, t, t', hplan, hdial, htransport, hasked, hleave⟩ := hrebooted hending
  cases hdial
  obtain ⟨t'', said, rest, last, hsame, hwrote, hnumbered, hpart⟩ :=
    hsaid p briefLink hplan rfl accepts
  rw [htransport] at hsame
  cases hsame
  exact ⟨hending, p, t', hplan, htransport, hasked, hleave, accepts, said, rest, last, hwrote,
    hnumbered, hpart⟩

end HubDevice.Session
