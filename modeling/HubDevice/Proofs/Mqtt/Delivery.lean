import Mathlib.Data.List.Forall2
import HubDevice.Proofs.Mqtt.Acknowledging

set_option autoImplicit false

/-!
# Messages handed out

A client holds one message. A run falls into turns that end with a poll, and of the messages that
come in a turn the poll hands out the last. Where no turn has more than one of them, none is lost.
-/
namespace HubDevice.Mqtt

open Transport (SameReads)

theorem InTime.length_le {b : Bytes} {rs rs' : List Reading} (h : InTime b rs rs') :
    rs'.length ≤ rs.length := by
  induction h with
  | done => exact Nat.le_refl _
  | byte pauses _ _ ih =>
    rw [List.length_append, List.length_cons]
    omega

namespace Wire

/-- While packets are to come, each poll meets something. -/
theorem readings_takePacket {t : Transport} {p : Packet} {ps : List Packet}
    (h : t.Delivers (p :: ps)) :
    (readings (outcome (takePacket t)).2.inbox).length < (readings t.inbox).length := by
  obtain ⟨ready, hstream⟩ := h
  cases hrs : readings t.inbox with
  | nil =>
    rw [hrs] at hstream
    have hbytes := hstream.arriving
    simp [Packet.bytes] at hbytes
  | cons r rs =>
    rw [hrs] at hstream
    obtain ⟨inbox, hmeets⟩ := Transport.read_meets Nat.one_pos ready hrs
    cases r with
    | nothing =>
      obtain ⟨hread, rfl⟩ := hmeets
      rw [(takePacket_of_nothing hread).2]
      exact Nat.lt_succ_self _
    | failure =>
      obtain ⟨hread, rfl⟩ := hmeets
      rw [(takePacket_of_failure hread).2]
      exact Nat.lt_succ_self _
    | byte b =>
      obtain ⟨got, hread, rfl, hlength⟩ := hmeets
      obtain rfl : got = [] := List.length_eq_zero_iff.1 (Nat.lt_one_iff.1 hlength)
      rcases hstream.next with ⟨hquiet, -⟩ | ⟨q, more, rs', -, -, inside, -⟩
      · cases hquiet
      obtain ⟨inbox', hbody, hrest⟩ := q.readBody_reads.inTime { t with inbox } rs'
        ⟨ready.opened, ready.limit⟩ inside
      have htake := (takePacket_of_byte hread hbody).2
      have hinbox := (takeUp_sameReads b q.kept { t with inbox := inbox' }).inbox
      have hshorter := inside.length_le
      rw [htake, hinbox, hrest]
      exact Nat.lt_succ_of_le hshorter

end Wire

namespace Client

variable {c : Client} {ps : List Packet}

def latest (held : Option Message) (taken : List Packet) : Option Message :=
  (taken.filterMap Packet.message?).getLast?.or held

theorem latest_cons (held : Option Message) (p : Packet) (taken : List Packet) :
    latest held (p :: taken) = latest (p.message?.or held) taken := by
  unfold latest
  cases h : p.message? with
  | none => rw [List.filterMap_cons_none h, Option.none_or]
  | some m =>
    rw [List.filterMap_cons_some h, List.getLast?_cons, Option.some_or]
    cases (taken.filterMap Packet.message?).getLast? <;> rfl

theorem awaitSuback_latest (packetId : UInt16) (accepts : ∀ n, c.transport.Accepts n)
    (h : c.transport.Delivers ps) :
    ∃ taken rest, ps = taken ++ rest ∧
      (outcome (awaitSuback packetId c)).2.transport.Delivers rest ∧
      (outcome (awaitSuback packetId c)).2.pending = latest c.pending taken := by
  induction ps generalizing c with
  | nil =>
    rcases Transport.readPacket_delivers h with ⟨e, inbox, hread, hsame⟩ | ⟨p, more, _, hps, -⟩
    · rw [awaitSuback_eq, hread]
      exact ⟨[], [], rfl, hsame, rfl⟩
    · cases hps
  | cons p ps ih =>
    rcases Transport.readPacket_delivers h with ⟨e, inbox, hread, hsame⟩ |
      ⟨q, more, inbox, hps, hread, hmore⟩
    · rw [awaitSuback_eq, hread]
      exact ⟨[], p :: ps, rfl, hsame, rfl⟩
    · cases hps
      obtain ⟨c', hreads, hprogress, hnext⟩ := awaitSuback_step hread rfl
      obtain ⟨hpending, out, hprogress⟩ := hprogress fun n => (accepts n).inbox inbox
      have hrest := hreads.delivers hmore
      rcases hnext with ⟨r, hend⟩ | hnext
      · rw [hend]
        refine ⟨[p], ps, rfl, hrest, ?_⟩
        rw [latest_cons]
        exact hpending
      · rw [hnext]
        obtain ⟨taken, rest, rfl, hdelivers, hlatest⟩ := ih hprogress.accepts hrest
        refine ⟨p :: taken, rest, rfl, hdelivers, ?_⟩
        rw [latest_cons, hlatest, hpending]

theorem subscribe_latest {topic : Bytes} (qos : QoS) (accepts : ∀ n, c.transport.Accepts n)
    (h : c.transport.Delivers ps) :
    ∃ taken rest, ps = taken ++ rest ∧
      (outcome (subscribe topic qos c)).2.transport.Delivers rest ∧
      (outcome (subscribe topic qos c)).2.pending = latest c.pending taken := by
  by_cases hlong : topicCapacity < topic.length
  · rw [subscribe_tooLong hlong]
    exact ⟨[], ps, rfl, h, rfl⟩
  · obtain ⟨packetId, t, -, hreads, haccepts, -, heq⟩ :=
      subscribe_sent qos (Nat.not_lt.1 hlong) accepts
    rw [heq]
    exact awaitSuback_latest packetId haccepts (hreads.delivers h)

theorem poll_latest (accepts : ∀ n, c.transport.Accepts n) (h : c.transport.Delivers ps) :
    ∃ taken rest, ps = taken ++ rest ∧ c.polled.transport.Delivers rest ∧
      c.handed? .poll = latest c.pending taken ∧ c.polled.pending = none := by
  have hhanded : c.handed? .poll = (outcome (poll c)).1.toOption.join := rfl
  unfold polled
  rw [hhanded]
  cases hpending : c.pending with
  | some m =>
    rw [poll_held hpending]
    exact ⟨[], ps, rfl, h, rfl, rfl⟩
  | none =>
    rw [poll_eq hpending, outcome_onWire]
    rcases Wire.takePacket_delivers h with ⟨-, hnone, hsame⟩ |
      ⟨p, more, inbox, rfl, -, hmore, htake⟩
    · exact ⟨[], ps, rfl, hsame, hnone, hpending⟩
    · obtain ⟨t', hanswer, hinbox, -⟩ := Wire.takeUp_accepted p fun n => (accepts n).inbox inbox
      have hreads := Wire.takeUp_sameReads p.header p.kept { c.transport with inbox }
      have hrest := hreads.delivers hmore
      rw [htake]
      refine ⟨[p], more, rfl, hrest, ?_, hpending⟩
      rw [hanswer, latest_cons, Option.or_none]
      cases hp : p.answer with
      | error e => rw [Packet.message?_of_error hp]; rfl
      | ok m => rw [Packet.message?_of_ok hp]; cases m <;> rfl

inductive TakesEach : List Call → Client → List (List Packet) → Prop
  | done (c : Client) : TakesEach [] c []
  | call {call : Call} {calls : List Call} {c : Client} {taken : List Packet}
    {log : List (List Packet)}
    (stream : arriving c.transport.inbox =
      taken.flatMap Packet.bytes ++ arriving (c.after call).transport.inbox)
    (rest : TakesEach calls (c.after call) log) : TakesEach (call :: calls) c (taken :: log)

/-- What the turns of a run take: each ends with a poll, but for the last, which is open. What the
open turn has taken so far comes first. -/
def turns {α : Type} : List α → List Call → List (List α) → List (List α)
  | taken, .poll :: calls, now :: log => (taken ++ now) :: turns [] calls log
  | taken, .subscribe _ _ :: calls, now :: log => turns (taken ++ now) calls log
  | taken, _, _ => [taken]

def lasts {α : Type} (ts : List (List α)) : List α := ts.filterMap List.getLast?

def publications (ps : List Packet) : List Packet := ps.filter fun p => isPublish p.header

theorem publications_cons (p : Packet) (ps : List Packet) :
    publications (p :: ps) =
      if isPublish p.header = true then p :: publications ps else publications ps :=
  List.filter_cons

theorem TakesEach.length_eq {calls : List Call} {log : List (List Packet)}
    (h : TakesEach calls c log) : log.length = calls.length := by
  induction h with
  | done => rfl
  | call _ _ ih => rw [List.length_cons, List.length_cons, ih]

theorem flatten_turns {α : Type} (taken : List α) {calls : List Call} {log : List (List α)}
    (h : log.length = calls.length) :
    (turns taken calls log).flatten = taken ++ log.flatten := by
  induction calls generalizing taken log with
  | nil =>
    rw [List.length_eq_zero_iff.1 h]
    simp [turns]
  | cons call calls ih =>
    cases log with
    | nil => cases h
    | cons now log =>
      have hrest := fun taken => ih taken (Nat.succ.inj h)
      cases call with
      | subscribe _ _ => rw [turns, hrest, List.append_assoc, List.flatten_cons]
      | poll =>
        rw [turns, List.flatten_cons, hrest, List.nil_append, List.flatten_cons,
          List.append_assoc]

/-- Turns of one message or none have no message but the last. -/
theorem lasts_eq_flatten {α : Type} {ts : List (List α)} (h : ∀ turn ∈ ts, turn.length ≤ 1) :
    lasts ts = ts.flatten := by
  induction ts with
  | nil => rfl
  | cons turn ts ih =>
    have hrest : ts.filterMap List.getLast? = ts.flatten :=
      ih fun other hother => h other (List.mem_cons_of_mem _ hother)
    have hone := h turn List.mem_cons_self
    unfold lasts
    rw [List.filterMap_cons, List.flatten_cons, hrest]
    match turn, hone with
    | [], _ => rfl
    | [_], _ => rfl

theorem turns_related {α β : Type} {R : α → β → Prop} (calls : List Call) {taken : List α}
    {taken' : List β} {log : List (List α)} {log' : List (List β)}
    (htaken : List.Forall₂ R taken taken') (hlog : List.Forall₂ (List.Forall₂ R) log log') :
    List.Forall₂ (List.Forall₂ R) (turns taken calls log) (turns taken' calls log') := by
  induction calls generalizing taken taken' log log' with
  | nil => exact .cons htaken .nil
  | cons call calls ih =>
    cases hlog with
    | nil => cases call <;> exact .cons htaken .nil
    | cons hnow hrest =>
      have happend := List.rel_append htaken hnow
      cases call with
      | subscribe _ _ => exact ih happend hrest
      | poll => exact .cons happend (ih .nil hrest)

theorem getLast?_related {α β : Type} {R : α → β → Prop} {l : List α} {l' : List β}
    (h : List.Forall₂ R l l') : Option.Rel R l.getLast? l'.getLast? := by
  induction h with
  | nil => exact .none
  | cons hab hrest ih =>
    rw [List.getLast?_cons, List.getLast?_cons]
    generalize List.getLast? _ = last at ih
    generalize List.getLast? _ = last' at ih
    cases ih with
    | some h => exact .some h
    | none => exact .some hab

theorem lasts_related {α β : Type} {R : α → β → Prop} {ts : List (List α)} {ts' : List (List β)}
    (h : List.Forall₂ (List.Forall₂ R) ts ts') : List.Forall₂ R (lasts ts) (lasts ts') := by
  induction h with
  | nil => exact .nil
  | cons hturn _ ih =>
    have hlast := getLast?_related hturn
    unfold lasts at ih ⊢
    rw [List.filterMap_cons, List.filterMap_cons]
    generalize List.getLast? _ = last at hlast
    generalize List.getLast? _ = last' at hlast
    cases hlast with
    | some h => exact .cons h ih
    | none => exact ih

/-- Where every publication is well formed and fits, each of them gives its message. -/
theorem publications_messages
    (sound : ∀ p ∈ ps, isPublish p.header = true → ∃ m, Publishes p.header p.body m ∧ m.Fits) :
    List.Forall₂ (fun p m => Publishes p.header p.body m) (publications ps)
      (ps.filterMap Packet.message?) := by
  induction ps with
  | nil => exact .nil
  | cons p ps ih =>
    have hrest := ih fun q hq => sound q (List.mem_cons_of_mem _ hq)
    rw [publications_cons]
    split
    · next hkind =>
      obtain ⟨m, hm, hfits⟩ := sound p List.mem_cons_self hkind
      rw [List.filterMap_cons_some (Packet.message?_eq_some_iff.2 ⟨hm, hfits⟩)]
      exact .cons hm hrest
    · next hkind =>
      rw [Bool.not_eq_true] at hkind
      rw [List.filterMap_cons_none (Packet.message?_of_other hkind)]
      exact hrest

theorem call_takes (accepts : ∀ n, c.transport.Accepts n) (h : c.transport.Delivers ps)
    (call : Call) :
    ∃ taken rest, ps = taken ++ rest ∧ (c.after call).transport.Delivers rest ∧
      match call with
      | .subscribe _ _ => c.handed? call = none ∧ (c.after call).pending = latest c.pending taken
      | .poll => c.handed? call = latest c.pending taken ∧ (c.after call).pending = none := by
  cases call with
  | subscribe topic qos =>
    obtain ⟨taken, rest, hps, hrest, hlatest⟩ := subscribe_latest qos accepts h
    unfold after
    rw [outcome_subscribe]
    exact ⟨taken, rest, hps, hrest, handed_subscribe, hlatest⟩
  | poll => exact poll_latest accepts h

/-- The messages handed out, and the one held in the end, are the last ones of the turns. -/
theorem calls_take (accepts : ∀ n, c.transport.Accepts n) (h : c.transport.Delivers ps)
    (calls : List Call) :
    ∃ log rest, ps = log.flatten ++ rest ∧ TakesEach calls c log ∧
      (afterCalls calls c).transport.Delivers rest ∧
      ∀ taken : List Message, taken.getLast? = c.pending →
        handed calls c ++ (afterCalls calls c).pending.toList =
          lasts (turns taken calls (log.map (List.filterMap Packet.message?))) := by
  -- The client holds the last message of the open turn. That is all a later call can tell of it, so
  -- the turn may have begun with any messages that end in the one held.
  induction calls generalizing c ps with
  | nil =>
    refine ⟨[], ps, rfl, .done c, h, fun taken htaken => ?_⟩
    change c.pending.toList = lasts [taken]
    rw [← htaken]
    unfold lasts
    cases htaken' : taken.getLast? <;> simp [htaken']
  | cons call calls ih =>
    have haccepts : ∀ n, (c.after call).transport.Accepts n := by
      obtain ⟨_, _, _, -, -, -, hprogress⟩ := call_serves accepts call
      exact hprogress.accepts
    obtain ⟨now, more, rfl, hmore, hcall⟩ := call_takes accepts h call
    obtain ⟨log, rest, rfl, htakes, hrest, hlasts⟩ := ih haccepts hmore
    have hstream : arriving c.transport.inbox =
        now.flatMap Packet.bytes ++ arriving (c.after call).transport.inbox := by
      rw [arriving, h.stream.arriving, List.flatMap_append, arriving, hmore.stream.arriving]
    refine ⟨now :: log, rest, ?_, .call hstream htakes, hrest, fun taken htaken => ?_⟩
    · rw [List.flatten_cons, List.append_assoc]
    have hlast : (taken ++ now.filterMap Packet.message?).getLast? = latest c.pending now := by
      rw [List.getLast?_append, htaken, latest]
    cases call with
    | subscribe topic qos =>
      obtain ⟨hhanded, hpending⟩ := hcall
      rw [handed, hhanded, List.map_cons, turns]
      exact hlasts _ (hlast.trans hpending.symm)
    | poll =>
      obtain ⟨hhanded, hpending⟩ := hcall
      have hopen := hlasts [] hpending.symm
      rw [handed, hhanded, List.map_cons, turns, lasts, List.filterMap_cons, hlast,
        afterCalls, List.append_assoc, hopen]
      cases latest c.pending now <;> rfl

theorem afterCalls_append (calls calls' : List Call) (c : Client) :
    afterCalls (calls ++ calls') c = afterCalls calls' (afterCalls calls c) := by
  induction calls generalizing c with
  | nil => rfl
  | cons call calls ih => exact ih (c.after call)

theorem afterCalls_polls (k : Nat) (c : Client) :
    afterCalls (List.replicate k .poll) c = polls k c := by
  induction k with
  | zero => rfl
  | succ k ih =>
    rw [List.replicate_succ', afterCalls_append, ih]
    rfl

theorem polls_drain (pending : c.pending = none) (h : c.transport.Delivers ps) :
    ∃ n, ∀ k, n ≤ k → (afterCalls (List.replicate k .poll) c).transport.Delivers [] := by
  -- Between packets a poll may read nothing, so what decreases is the readings that are left.
  induction hlength : (readings c.transport.inbox).length using Nat.strongRecOn
    generalizing c ps with
  | ind length ih =>
  subst hlength
  cases ps with
  | nil =>
    refine ⟨0, fun k _ => ?_⟩
    have hend := polls_deliver pending h k
    rw [afterCalls_polls]
    rwa [List.drop_nil] at hend
  | cons p ps =>
    have hpending : c.polled.pending = none := polls_pending pending 1
    have hless : (readings c.polled.transport.inbox).length <
        (readings c.transport.inbox).length := by
      rw [(polled_eq pending).2]
      exact Wire.readings_takePacket h
    obtain ⟨rest, -, hrest⟩ := poll_delivers h
    obtain ⟨n, hn⟩ := ih _ hless hpending hrest rfl
    refine ⟨n + 1, fun k hk => ?_⟩
    obtain ⟨k, rfl⟩ := Nat.exists_eq_add_of_le' (Nat.le_trans (Nat.le_add_left 1 n) hk)
    exact hn k (Nat.le_of_succ_le_succ hk)

/-- After any run enough polls take all packets, and no message is held. -/
theorem run_drains (accepts : ∀ n, c.transport.Accepts n) (h : c.transport.Delivers ps)
    (calls : List Call) :
    ∃ n, ∀ k, n ≤ k →
      (afterCalls (calls ++ List.replicate k .poll) c).transport.Delivers [] ∧
      (afterCalls (calls ++ List.replicate k .poll) c).pending = none := by
  obtain ⟨_, _, -, hprogress⟩ := calls_serve accepts calls
  obtain ⟨_, rest, -, -, hrest, -⟩ := calls_take accepts h calls
  obtain ⟨_, more, -, hmore, -, hpending⟩ := poll_latest hprogress.accepts hrest
  obtain ⟨n, hn⟩ := polls_drain hpending hmore
  refine ⟨n + 1, fun k hk => ?_⟩
  obtain ⟨k, rfl⟩ := Nat.exists_eq_add_of_le' (Nat.le_trans (Nat.le_add_left 1 n) hk)
  rw [afterCalls_append, List.replicate_succ]
  refine ⟨hn k (Nat.le_of_succ_le_succ hk), ?_⟩
  change (afterCalls (List.replicate k .poll) (afterCalls calls c).polled).pending = none
  rw [afterCalls_polls]
  exact polls_pending hpending k

/-- However subscriptions and polls follow each other, after enough further polls every packet has
been taken, and of the messages that came in a turn the last was handed out, once and in order of
arrival. Hence nothing is lost where no turn has two messages. -/
theorem last_of_each_turn_handed (c : Client) (ps : List Packet) (calls : List Call)
    (fresh : c.pending = none) (accepts : ∀ n, c.transport.Accepts n)
    (delivers : c.transport.Delivers ps)
    (sound : ∀ p ∈ ps, isPublish p.header = true → ∃ m, Publishes p.header p.body m ∧ m.Fits) :
    ∃ n, ∀ k, n ≤ k → ∀ run, run = calls ++ List.replicate k .poll →
      ∃ log : List (List Packet), TakesEach run c log ∧ log.flatten = ps ∧
        List.Forall₂ (fun p m => Publishes p.header p.body m)
          (lasts (turns [] run (log.map publications))) (handed run c) ∧
        ((∀ turn ∈ turns [] run (log.map publications), turn.length ≤ 1) →
          List.Forall₂ (fun p m => Publishes p.header p.body m) (publications ps)
            (handed run c)) := by
  obtain ⟨n, hn⟩ := run_drains accepts delivers calls
  refine ⟨n, fun k hk run hrun => ?_⟩
  obtain ⟨hend, hheld⟩ := hn k hk
  rw [← hrun] at hend hheld
  obtain ⟨log, rest, hps, htakes, hrest, hlasts⟩ := calls_take accepts delivers run
  have hnothing := hend.stream.arriving.symm.trans hrest.stream.arriving
  obtain ⟨rfl, -⟩ := @eq_of_flatMap [] rest [] hnothing partial_nil
  rw [List.append_nil] at hps
  subst hps
  have hhanded := hlasts [] fresh.symm
  rw [hheld, Option.toList_none, List.append_nil] at hhanded
  have hrelated : List.Forall₂ (List.Forall₂ fun p m => Publishes p.header p.body m)
      (log.map publications) (log.map (List.filterMap Packet.message?)) := by
    rw [List.forall₂_map_left_iff, List.forall₂_map_right_iff, List.forall₂_same]
    intro taken htaken
    exact publications_messages fun p hp => sound p (List.mem_flatten_of_mem htaken hp)
  have hgiven := lasts_related (turns_related run .nil hrelated)
  rw [← hhanded] at hgiven
  refine ⟨log, htakes, rfl, hgiven, fun hone => ?_⟩
  have hlength : (log.map publications).length = run.length := by
    rw [List.length_map, htakes.length_eq]
  have hall : publications log.flatten = (log.map publications).flatten := List.filter_flatten
  rw [hall, ← List.nil_append (log.map publications).flatten, ← flatten_turns [] hlength,
    ← lasts_eq_flatten hone]
  exact hgiven

/-- Two messages of quality one, then the answer to a subscription. -/
def crowdedPackets : List Packet :=
  [.sent 0x32 [0, 1, 0x74, 0, 5, 0x68, 0x69] (by decide),
    .sent 0x32 [0, 1, 0x74, 0, 6, 0x79, 0x6f] (by decide), .sent 0x90 ([0, 1] ++ [1]) (by decide)]

theorem crowdedPackets_sound : ∀ p ∈ crowdedPackets, isPublish p.header = true →
    ∃ m, Publishes p.header p.body m ∧ m.Fits := by
  have hmessages : ∀ p ∈ crowdedPackets, isPublish p.header = true →
      p.message?.isSome = true := by decide +kernel
  intro p hp hkind
  obtain ⟨m, hm⟩ := Option.isSome_iff_exists.1 (hmessages p hp hkind)
  exact ⟨m, Packet.message?_eq_some_iff.1 hm⟩

theorem crowded_turns_handed :
    let c := fed (crowdedPackets.flatMap Packet.bytes)
    c.pending = none ∧ (∀ n, c.transport.Accepts n) ∧ c.transport.Delivers crowdedPackets ∧
      ∃ n, ∀ k, n ≤ k → ∀ run, run = [.subscribe [0x61] .atLeastOnce] ++ List.replicate k .poll →
        ∃ log : List (List Packet), TakesEach run c log ∧ log.flatten = crowdedPackets ∧
          List.Forall₂ (fun p m => Publishes p.header p.body m)
            (lasts (turns [] run (log.map publications))) (handed run c) ∧
          ((∀ turn ∈ turns [] run (log.map publications), turn.length ≤ 1) →
            List.Forall₂ (fun p m => Publishes p.header p.body m) (publications crowdedPackets)
              (handed run c)) :=
  ⟨rfl, fed_accepts _, fed_delivers _,
    last_of_each_turn_handed (fed (crowdedPackets.flatMap Packet.bytes)) crowdedPackets
      [.subscribe [0x61] .atLeastOnce] rfl (fed_accepts _) (fed_delivers _) crowdedPackets_sound⟩

/-- Both messages are acknowledged while the answer is waited for, and the first is never handed
out. -/
theorem earlier_message_lost :
    let c := fed (crowdedPackets.flatMap Packet.bytes)
    c.pending = none ∧ (∀ n, c.transport.Accepts n) ∧ c.transport.Delivers crowdedPackets ∧
      (∀ p ∈ crowdedPackets, isPublish p.header = true →
        ∃ m, Publishes p.header p.body m ∧ m.Fits) ∧
      (afterCalls [.subscribe [0x61] .atLeastOnce] c).transport.sent =
        (Outgoing.request 1 [0x61] .atLeastOnce).bytes ++ pubackLayout 5 ++ pubackLayout 6 ∧
      ∀ k, ¬ List.Forall₂ (fun p m => Publishes p.header p.body m) (publications crowdedPackets)
        (handed (.subscribe [0x61] .atLeastOnce :: List.replicate k .poll) c) := by
  refine ⟨rfl, fed_accepts _, fed_delivers _, crowdedPackets_sound, by decide +kernel, ?_⟩
  let later : Message := ⟨"t", [0x79, 0x6f], .atLeastOnce, some 6⟩
  let earlier : Packet := .sent 0x32 [0, 1, 0x74, 0, 5, 0x68, 0x69] (by decide)
  have hheld : ((fed (crowdedPackets.flatMap Packet.bytes)).after
      (.subscribe [0x61] .atLeastOnce)).pending = some later := by decide +kernel
  have hother : earlier.message? ≠ some later := by decide +kernel
  intro k h
  change List.Forall₂ _ (earlier :: _) _ at h
  rw [handed, handed_subscribe] at h
  cases k with
  | zero => cases h
  | succ k =>
    rw [List.replicate_succ, handed, handed?, result] at h
    change List.Forall₂ _ _ ([] ++ ((outcome (poll _)).1.toOption.join.toList ++ _)) at h
    rw [poll_held hheld] at h
    cases h with
    | cons hfirst _ => exact hother (Packet.message?_eq_some_iff.2 ⟨hfirst, by decide +kernel⟩)

end Client

end HubDevice.Mqtt
