import HubDevice.Proofs.Device.Sessions

set_option autoImplicit false

/-!
# How long the device listens

A round without a message in hand reads the link, and a read takes something off the inbox unless
the inbox will answer in that way for ever. So the rounds of a session are enough: with any more of
them it would end in the same way.
-/
namespace HubDevice.Session
open Mqtt (Transport Wire Message Arrival outcome receive atMost)
open Controller (Equipped Handles onLink)

/-- A read takes something off the inbox, or what it leaves gives the same answer again. -/
theorem reads_receive (endFails : Bool) (n : Nat) (inbox : List Arrival) :
    reads (receive endFails n inbox).2 < reads inbox ∨
      reads (receive endFails n inbox).2 = reads inbox ∧
        receive endFails n (receive endFails n inbox).2 = receive endFails n inbox := by
  fun_induction receive endFails n inbox with
  | case1 => exact .inr ⟨rfl, rfl⟩
  | case2 b inbox =>
    split
    · refine .inl ?_
      simp only [reads]
      omega
    · next hlong =>
      by_cases hn : n = 0
      · subst hn
        refine .inr ⟨rfl, ?_⟩
        rw [List.drop_zero, receive, if_neg hlong, List.drop_zero]
      · refine .inl ?_
        simp only [reads, List.length_drop]
        omega
  | case3 inbox ih =>
    simp only [reads, Nat.zero_add]
    exact ih
  | case4 k inbox =>
    refine .inl ?_
    simp only [reads]
    omega
  | case5 inbox =>
    refine .inl ?_
    simp only [reads]
    omega

/-- What reads the link leaves no more to be read than there was. -/
def Wears {α : Type} (action : Wire α) : Prop :=
  ∀ t, reads (outcome (action t)).2.inbox ≤ reads t.inbox

namespace Wears

variable {α β : Type}

theorem pure (a : α) : Wears (Pure.pure a) := fun _ => Nat.le_refl _

theorem bind {first : Wire α} {second : α → Wire β} (h : Wears first)
    (h' : ∀ a, Wears (second a)) : Wears (first >>= second) := fun t =>
  Mqtt.outcome_bind (R := fun t t' : Transport => reads t'.inbox ≤ reads t.inbox)
    (fun h h' => Nat.le_trans h' h) (h t) h'

theorem read (n : Nat) : Wears (Transport.read n) := by
  intro t
  unfold Transport.read
  split
  · exact Nat.le_refl _
  · have h := reads_receive t.endFails (atMost t.readLimit n) t.inbox
    revert h
    rcases receive t.endFails (atMost t.readLimit n) t.inbox with ⟨_ | b, inbox⟩ <;>
      exact fun h => h.elim Nat.le_of_lt fun h => Nat.le_of_eq h.1

theorem law : Mqtt.ReadClosed @Wears where
  pure := pure
  closed := fun _ => Nat.le_refl _
  malformed := fun _ => Nat.le_refl _
  bind := bind
  read := read

theorem takeUp (header : UInt8) (kept : Option Bytes) : Wears (Wire.takeUp header kept) :=
  fun t => Nat.le_of_eq (congrArg reads (Wire.takeUp_sameReads header kept t).inbox)

end Wears

/-- A read that gives something takes it off the inbox; one that gives nothing may be the last to
change anything. -/
theorem reads_read {n : Nat} {t t' : Transport} {b : Bytes} (h : Transport.read n t = .ok b t') :
    reads t'.inbox < reads t.inbox ∨ b = [] ∧ Transport.read n t' = .ok [] t' := by
  have hreceive := reads_receive t.endFails (atMost t.readLimit n) t.inbox
  have hopen : t.closed = false := by
    cases hclosed : t.closed with
    | false => rfl
    | true =>
      rw [Transport.read, if_pos hclosed] at h
      cases h
  rw [Transport.read, if_neg (ne_true_of_eq_false hopen)] at h
  revert h hreceive
  rcases hreceived : receive t.endFails (atMost t.readLimit n) t.inbox with ⟨_ | b', inbox⟩
  · exact fun h => nomatch h
  rintro h hreceive
  cases h
  refine hreceive.imp id fun ⟨_, hagain⟩ => ?_
  dsimp only at hagain
  have hread : Transport.read n { t with inbox } = .ok b { t with inbox } := by
    rw [Transport.read, if_neg (ne_true_of_eq_false hopen)]
    dsimp only
    rw [hagain]
  -- The bytes of an answer that is given again and again cannot come out of the inbox.
  have hlength := Transport.dataLength_read hread
  have hempty : b = [] := List.eq_nil_of_length_eq_zero (by omega)
  rw [hempty] at hread
  exact ⟨hempty, hread⟩

/-- A bound on the polls that take something: a message in hand, or something off the inbox. -/
def waiting (client : Mqtt.Client) : Nat :=
  reads client.transport.inbox + if client.pending.isSome then 1 else 0

/-- A poll takes something, or it finds nothing and so will the next one. -/
theorem poll_takes {client client' : Mqtt.Client} {got : Option Message}
    (h : Mqtt.Client.poll client = .ok got client') :
    waiting client' < waiting client ∨
      got = none ∧ Mqtt.Client.poll client' = .ok none client' := by
  cases hpending : client.pending with
  | some m =>
    rw [Mqtt.Client.poll_held hpending] at h
    cases h
    refine .inl ?_
    rw [waiting, waiting, hpending]
    exact Nat.lt_succ_self _
  | none =>
    rw [Mqtt.Client.poll_eq hpending, Mqtt.Client.onWire] at h
    cases htake : Wire.takePacket client.transport with
    | error e t =>
      rw [htake] at h
      cases h
    | ok m t =>
      rw [htake] at h
      cases h
      obtain ⟨b, t1, hread, hrest⟩ := bind_eq_ok_state htake
      rcases reads_read hread with hless | ⟨rfl, hagain⟩
      · refine .inl ?_
        have htaken : reads t.inbox ≤ reads t1.inbox := by
          cases b with
          | nil =>
            cases hrest
            exact Nat.le_refl _
          | cons header more =>
            have hwears := (Wears.law.readBody.bind (Wears.takeUp header)) t1
            change (Wire.readBody >>= Wire.takeUp header) t1 = .ok got t at hrest
            rw [hrest] at hwears
            exact hwears
        rw [waiting, waiting, hpending]
        exact Nat.lt_of_le_of_lt htaken hless
      · cases hrest
        refine .inr ⟨rfl, ?_⟩
        have hpoll : Mqtt.Client.poll { client with transport := t } =
            Mqtt.Client.onWire Wire.takePacket { client with transport := t } :=
          Mqtt.Client.poll_eq hpending
        rw [hpoll, Mqtt.Client.onWire]
        dsimp only
        rw [(Wire.takePacket_of_nothing hagain).2]

structure Standing (n : Nat) (c : Controller) : Prop where
  equipped : Equipped c
  waits : waiting c.client = n

theorem steady_standing (n : Nat) : Controller.Steady (Standing n) (fun _ => Standing n) where
  fails _ _ h := h
  publishes topic payload := by
    refine Controller.maintains_onLink (fun c h => ?_) fun _ _ h => h
    rw [Mqtt.Client.publish_atMostOnce]
    split
    · exact h
    · rw [Mqtt.Client.outcome_onWire]
      refine ⟨h.equipped, ?_⟩
      rw [← h.waits, waiting, (Wire.sendPacket_sameReads _ _ _).inbox, waiting]
  counts _ _ h := ⟨h.equipped, h.waits⟩

theorem handles_standing (topic : String) (n : Nat) : Handles topic (Standing n) where
  equipped _ h := h.equipped
  replaces thermostat _ h := ⟨h.equipped.replace thermostat, h.waits⟩
  reports patch _ := (steady_standing n).report patch
  responds requestId status payload :=
    (steady_standing n).publish (Topic.response requestId status Controller.topicRoom) payload
  reboots _ _ h := ⟨h.equipped, h.waits⟩

section Rounds

variable {now : String} {c c' : Controller}

/-- A round takes something, or it changes nothing that the next one would not leave. -/
theorem round_takes {got : Option Message} (equipped : Equipped c)
    (h : onLink Mqtt.Client.poll c = .ok got c') :
    Equipped c' ∧ (waiting c'.client < waiting c.client ∨
      got = none ∧ onLink Mqtt.Client.poll c' = .ok none c') := by
  obtain ⟨client, hpoll, rfl⟩ := Controller.onLink_eq_ok h
  refine ⟨equipped, (poll_takes hpoll).imp id fun ⟨hnone, hquiet⟩ => ⟨hnone, ?_⟩⟩
  rw [onLink, hquiet]

/-- Where nothing more comes the rounds go on without an end. -/
theorem listen_quiet (quiet : onLink Mqtt.Client.poll c = .ok none c) (h : c.rebooting = false)
    (rounds : Nat) : listen now rounds c = .ok false c := by
  induction rounds with
  | zero => rfl
  | succ rounds ih =>
    rw [listen_succ, quiet]
    dsimp only
    rw [if_neg (ne_true_of_eq_false h)]
    exact ih

theorem introduce_equipped (h : Equipped c) (hok : introduce c = .ok () c') : Equipped c' := by
  have link {α : Type} (action : Mqtt.Client.Action α) :
      Controller.Maintains Equipped (fun _ => Equipped) (onLink action) :=
    Controller.maintains_onLink (fun _ h => h) fun _ _ h => h
  exact introduce_keeps ⟨fun _ _ h => h, fun _ _ => link _, fun _ _ h => h⟩ (fun _ => link _) h hok

/-- Behind more rounds than there are polls that may take something, any others are the same. -/
theorem listen_enough {rounds : Nat} (equipped : Equipped c) (h : waiting c.client < rounds)
    (more : Nat) : listen now (rounds + more) c = listen now rounds c := by
  induction rounds generalizing c with
  | zero => exact absurd h (Nat.not_lt_zero _)
  | succ rounds ih =>
    rw [Nat.add_right_comm, listen_succ, listen_succ]
    cases hpoll : onLink Mqtt.Client.poll c with
    | error e c1 => rfl
    | ok got c1 =>
      obtain ⟨equipped1, htakes⟩ := round_takes equipped hpoll
      cases got with
      | none =>
        dsimp only
        cases hrebooting : c1.rebooting with
        | true => rfl
        | false =>
          rw [if_neg Bool.false_ne_true, if_neg Bool.false_ne_true]
          rcases htakes with hless | ⟨-, quiet⟩
          · exact ih equipped1 (by omega)
          · rw [listen_quiet quiet hrebooting, listen_quiet quiet hrebooting]
      | some m =>
        have hless : waiting c1.client < waiting c.client := by
          rcases htakes with hless | ⟨hnone, -⟩
          · exact hless
          · cases hnone
        have hstanding := ((handles_standing m.topic (waiting c1.client)).handle now
          m.payload).ends ⟨equipped1, rfl⟩
        refine ih hstanding.equipped ?_
        rw [hstanding.waits]
        omega

/-- The rounds of a session are enough: with more of them it would be the same session. -/
theorem serve_enough (now : String) (equipped : Equipped c) (more : Nat) :
    serve now c = (do
      introduce
      if ← listen now (reads (← get).client.transport.inbox + 2 + more) then
        onLink Mqtt.Client.disconnect
        return Ending.rebooted
      else return Ending.listening) c := by
  unfold serve
  cases hintroduce : introduce c with
  | error e c1 => rw [bind_of_error hintroduce, bind_of_error hintroduce]
  | ok u c1 =>
    have equipped1 : Equipped c1 := introduce_equipped equipped hintroduce
    have hget : (get : Controller.Action Controller) c1 = .ok c1 c1 := rfl
    have hwaiting : waiting c1.client < reads c1.client.transport.inbox + 2 := by
      unfold waiting
      split <;> omega
    have hsame : listen now (reads c1.client.transport.inbox + 2 + more) c1 = listen now _ c1 :=
      listen_enough equipped1 hwaiting more
    rw [bind_of_ok hintroduce, bind_of_ok hintroduce, bind_of_ok hget, bind_of_ok hget]
    change EStateM.bind _ _ c1 = EStateM.bind _ _ c1
    rw [EStateM.bind, EStateM.bind, hsame]

end Rounds

end HubDevice.Session
