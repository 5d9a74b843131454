import HubDevice.Proofs.Mqtt.Subscribing

set_option autoImplicit false

/-!
# Links that refuse to be written to

A link may take any part of what it is given, take nothing or fail, and its flushes may fail. What an
operation writes to it is compared with what the same operation writes to a link that takes
everything. Up to the first attempt that fails the two runs go side by side; there the operation
ends.
-/
namespace HubDevice.Mqtt

open Transport (SameReads read write writeAll flush close)

inductive Attempt where
  | write (b : Bytes) (taken : Option Nat)
  | flush (done : Bool)
  deriving DecidableEq, Repr

namespace Attempt

def Fails : Attempt → Prop
  | write _ taken => taken = none ∨ taken = some 0
  | flush done => done = false

def accepted : Attempt → Bytes
  | write b taken => b.take (taken.getD 0)
  | flush _ => []

end Attempt

structure Transport.SameWrites (t t' : Transport) : Prop where
  outlet : t'.outlet = t.outlet
  sent : t'.sent = t.sent
  writeCalls : t'.writeCalls = t.writeCalls
  flushCalls : t'.flushCalls = t.flushCalls
  flushes : t'.flushes = t.flushes

/-- The attempts that an action makes over `t`, in order. An action that leaves the write side of
every transport alone makes none. -/
inductive Attempts : {α : Type} → Wire α → Transport → List Attempt → Prop
  | silent {α : Type} {action : Wire α} (h : ∀ t : Transport, t.SameWrites (outcome (action t)).2)
    (t : Transport) : Attempts action t []
  | write (b : Bytes) (t : Transport) :
    Attempts (write b) t [.write b (outcome (write b t)).1.toOption]
  | flush (t : Transport) : Attempts flush t [.flush (outcome (flush t)).1.toBool]
  | next {α β : Type} {first : Wire α} {second : α → Wire β} {t t' : Transport} {a : α}
    {log log' : List Attempt} (h : first t = .ok a t') (before : Attempts first t log)
    (after : Attempts (second a) t' log') : Attempts (first >>= second) t (log ++ log')
  | stop {α β : Type} {first : Wire α} {second : α → Wire β} {t t' : Transport} {e : LinkError}
    {log : List Attempt} (h : first t = .error e t') (before : Attempts first t log) :
    Attempts (first >>= second) t log

theorem write_silent {b : Bytes} {e : LinkError} {t t' : Transport}
    (h : write b t = .error e t') : t'.sent = t.sent := by
  unfold Transport.write at h
  split at h
  · cases h
    rfl
  · split at h
    · cases h
      rfl
    · cases h

/-- What was sent is what the attempts brought. -/
theorem Attempts.sent {α : Type} {action : Wire α} {t : Transport} {log : List Attempt}
    (h : Attempts action t log) :
    (outcome (action t)).2.sent = t.sent ++ log.flatMap Attempt.accepted := by
  induction h with
  | silent h t =>
    rw [(h t).sent]
    exact (List.append_nil _).symm
  | write b t =>
    rw [List.flatMap_singleton]
    cases hwrite : Transport.write b t with
    | ok n t' => exact Transport.sent_of_write hwrite
    | error e t' => exact (write_silent hwrite).trans (List.append_nil _).symm
  | flush t => exact (Transport.flush_sent t).trans (List.append_nil _).symm
  | next h _ _ ihBefore ihAfter =>
    rw [h] at ihBefore
    change _ = _ at ihBefore
    rw [bind_of_ok h, ihAfter, List.flatMap_append, ← List.append_assoc, ← ihBefore]
    rfl
  | stop h _ ih =>
    rw [h] at ih
    rw [bind_of_error h]
    exact ih

namespace Transport

/-- The same link, but it takes every write whole and every flush. -/
def willing (t : Transport) : Transport :=
  { t with outlet := { closeFails := t.outlet.closeFails } }

theorem willing_accepts {t : Transport} (opened : t.closed = false) (n : Nat) :
    t.willing.Accepts n where
  opened := opened
  takes _ _ := ⟨rfl, nofun⟩
  budget := nofun
  flushes _ _ := rfl

structure Twin (t ideal : Transport) : Prop where
  reads : SameReads t ideal
  sent : ideal.sent = t.sent
  outlet : ideal.outlet = { closeFails := t.outlet.closeFails }

theorem twin_willing (t : Transport) : t.Twin t.willing := ⟨⟨rfl, rfl, rfl, rfl⟩, rfl, rfl⟩

theorem Twin.inbox {t ideal : Transport} (h : t.Twin ideal) (inbox : List Arrival) :
    { t with inbox }.Twin { ideal with inbox } :=
  ⟨⟨rfl, h.reads.readLimit, h.reads.endFails, h.reads.closed⟩, h.sent, h.outlet⟩

theorem Twin.onward {t t' ideal ideal' : Transport} (h : t.Twin ideal) (reads : SameReads t t')
    (reads' : SameReads ideal ideal') (sent : ideal'.sent = t'.sent)
    (closes : t'.outlet.closeFails = t.outlet.closeFails) (outlet : ideal'.outlet = ideal.outlet) :
    t'.Twin ideal' where
  reads := {
    inbox := (reads'.inbox.trans h.reads.inbox).trans reads.inbox.symm
    readLimit := (reads'.readLimit.trans h.reads.readLimit).trans reads.readLimit.symm
    endFails := (reads'.endFails.trans h.reads.endFails).trans reads.endFails.symm
    closed := (reads'.closed.trans h.reads.closed).trans reads.closed.symm }
  sent := sent
  outlet := by rw [outlet, h.outlet, closes]

/-- How a link closes does not depend on what is written to it. -/
theorem writeAll_closeFails (b : Bytes) (t : Transport) :
    (outcome (writeAll b t)).2.outlet.closeFails = t.outlet.closeFails := by
  have hwrite (b : Bytes) (t : Transport) :
      (outcome (write b t)).2.outlet.closeFails = t.outlet.closeFails := by
    unfold write
    split
    · rfl
    · split <;> rfl
  fun_induction writeAll b t with
  | case1 => rfl
  | case2 b t _ e t' h =>
    have hfirst := hwrite b t
    rw [h] at hfirst
    exact hfirst
  | case3 b t _ t' h =>
    have hfirst := hwrite b t
    rw [h] at hfirst
    exact hfirst
  | case4 b t _ n t' h ih =>
    have hfirst := hwrite b t
    rw [h] at hfirst
    exact ih.trans hfirst

theorem writeAll_willing (b : Bytes) {t : Transport} {closeFails : Bool}
    (opened : t.closed = false) (h : t.outlet = { closeFails }) :
    ∃ t', writeAll b t = .ok () t' ∧ t'.sent = t.sent ++ b ∧ t'.outlet = t.outlet := by
  unfold writeAll
  by_cases hempty : b = []
  · subst hempty
    exact ⟨t, rfl, (List.append_nil _).symm, rfl⟩
  have hpos := List.length_pos_iff.2 hempty
  have htakes : t.outlet.takes t.writeCalls b.length = some (b.length - 1 + 1) := by
    rw [h, Nat.sub_add_cancel hpos]
    rfl
  have hwrite : write b t = .ok (b.length - 1 + 1) { t with
      outlet := t.outlet.spend (b.length - 1 + 1)
      sent := t.sent ++ b.take (b.length - 1 + 1)
      writeCalls := t.writeCalls + 1 } := by
    unfold write
    rw [opened, if_neg Bool.false_ne_true, htakes]
  rw [if_neg (by simpa using hempty), hwrite]
  dsimp only
  rw [Nat.sub_add_cancel hpos, List.drop_length, List.take_length]
  unfold writeAll
  refine ⟨_, rfl, rfl, ?_⟩
  rw [h]
  rfl

end Transport

/-- How an action has ended over a link and over its willing twin: as well on the one as on the other,
with no attempt failed, or on the first failed attempt, short of what the other has sent. -/
inductive Compared {α : Type} (log : List Attempt) :
    Except LinkError α × Transport → Except LinkError α × Transport → Prop
  | whole {result : Except LinkError α} {t ideal : Transport} (other : result ≠ .error .writeError)
    (taken : ∀ a ∈ log, ¬ a.Fails) (twin : t.Twin ideal) :
    Compared log (result, t) (result, ideal)
  | cut {result : Except LinkError α} {t ideal : Transport} (failed : ∃ a ∈ log, a.Fails)
    (short : t.sent <+: ideal.sent) : Compared log (.error .writeError, t) (result, ideal)

/-- From `t` on, the action goes as it does from any willing twin of `t`. -/
def Tracks {α : Type} (action : Wire α) (t : Transport) : Prop :=
  ∀ ideal, t.Twin ideal → ∃ log, Attempts action t log ∧
    Compared log (outcome (action t)) (outcome (action ideal))

def Grows {α : Type} (action : Wire α) : Prop :=
  ∀ t : Transport, t.sent <+: (outcome (action t)).2.sent

structure Faithful {α : Type} (action : Wire α) : Prop where
  grows : Grows action
  tracks : ∀ t, Tracks action t

theorem outcome_eq_ok {ε σ α : Type} {r : EStateM.Result ε σ α} {a : α} {s : σ} :
    outcome r = (.ok a, s) ↔ r = .ok a s := by
  cases r <;> simp [outcome]

theorem outcome_eq_error {ε σ α : Type} {r : EStateM.Result ε σ α} {e : ε} {s : σ} :
    outcome r = (.error e, s) ↔ r = .error e s := by
  cases r <;> simp [outcome]

section Sequence

variable {α β : Type} {first : Wire α} {second : α → Wire β} {t : Transport}

theorem Grows.bind (h : Grows first) (h' : ∀ a, Grows (second a)) : Grows (first >>= second) :=
  fun t => Wire.bind_grows (h t) fun a => h' a

theorem Tracks.bind (h : Tracks first t) (grows : ∀ a, Grows (second a))
    (h' : ∀ a t', first t = .ok a t' → Tracks (second a) t') : Tracks (first >>= second) t := by
  intro ideal twin
  obtain ⟨log, hlog, hcompared⟩ := h ideal twin
  generalize hr : outcome (first t) = r at hcompared
  generalize hr' : outcome (first ideal) = r' at hcompared
  cases hcompared with
  | @whole result t1 ideal1 other taken twin1 =>
    cases result with
    | error e =>
      have hfirst := outcome_eq_error.1 hr
      refine ⟨log, .stop hfirst hlog, ?_⟩
      rw [bind_of_error hfirst, bind_of_error (outcome_eq_error.1 hr')]
      exact .whole (fun h => other (by cases h; rfl)) taken twin1
    | ok a =>
      have hfirst := outcome_eq_ok.1 hr
      obtain ⟨log', hlog', hrest⟩ := h' a t1 hfirst ideal1 twin1
      refine ⟨log ++ log', .next hfirst hlog hlog', ?_⟩
      rw [bind_of_ok hfirst, bind_of_ok (outcome_eq_ok.1 hr')]
      generalize outcome (second a t1) = r2 at hrest
      generalize outcome (second a ideal1) = r2' at hrest
      cases hrest with
      | whole other' taken' twin2 =>
        refine .whole other' (fun a ha => ?_) twin2
        exact (List.mem_append.1 ha).elim (taken a) (taken' a)
      | cut failed short =>
        obtain ⟨a, ha, hfails⟩ := failed
        exact .cut ⟨a, List.mem_append_right _ ha, hfails⟩ short
  | @cut result t1 ideal1 failed short =>
    have hfirst := outcome_eq_error.1 hr
    refine ⟨log, .stop hfirst hlog, ?_⟩
    rw [bind_of_error hfirst]
    refine .cut failed (short.trans ?_)
    -- The willing link may have gone on, but it keeps what it was sent.
    cases result with
    | ok a =>
      rw [bind_of_ok (outcome_eq_ok.1 hr')]
      exact grows a ideal1
    | error e => exact bind_of_error (outcome_eq_error.1 hr') ▸ List.prefix_refl _

theorem Faithful.bind (h : Faithful first) (h' : ∀ a, Faithful (second a)) :
    Faithful (first >>= second) where
  grows := h.grows.bind fun a => (h' a).grows
  tracks t := (h.tracks t).bind (fun a => (h' a).grows) fun a t' _ => (h' a).tracks t'

end Sequence

/-- What the action does hangs on what there is to read, and it does nothing but read. -/
def Quiet {α : Type} (action : Wire α) : Prop :=
  ∀ t : Transport, ∃ result inbox, result ≠ .error .writeError ∧
    ∀ t', SameReads t t' → outcome (action t') = (result, { t' with inbox })

namespace Quiet

variable {α β : Type}

theorem pure (a : α) : Quiet (Pure.pure a) :=
  fun t => ⟨.ok a, t.inbox, nofun, fun t' h => by rw [← h.inbox]; rfl⟩

theorem throw {e : LinkError} (h : e ≠ .writeError) : Quiet (throw e : Wire α) :=
  fun t => ⟨.error e, t.inbox, fun h' => h (by cases h'; rfl), fun t' h => by rw [← h.inbox]; rfl⟩

theorem bind {first : Wire α} {second : α → Wire β} (h : Quiet first) (h' : ∀ a, Quiet (second a)) :
    Quiet (first >>= second) := by
  intro t
  obtain ⟨result, inbox, other, hfirst⟩ := h t
  cases result with
  | error e =>
    refine ⟨.error e, inbox, fun h => other (by cases h; rfl), fun t' same => ?_⟩
    rw [bind_of_error (outcome_eq_error.1 (hfirst t' same))]
    rfl
  | ok a =>
    obtain ⟨result', inbox', other', hsecond⟩ := h' a { t with inbox }
    refine ⟨result', inbox', other', fun t' same => ?_⟩
    rw [bind_of_ok (outcome_eq_ok.1 (hfirst t' same))]
    exact hsecond _ ⟨rfl, same.readLimit, same.endFails, same.closed⟩

theorem sameWrites {action : Wire α} (h : Quiet action) (t : Transport) :
    t.SameWrites (outcome (action t)).2 := by
  obtain ⟨result, inbox, -, haction⟩ := h t
  rw [haction t (.refl t)]
  exact ⟨rfl, rfl, rfl, rfl, rfl⟩

theorem faithful {action : Wire α} (h : Quiet action) : Faithful action where
  grows t := (h.sameWrites t).sent ▸ List.prefix_refl _
  tracks t ideal twin := by
    obtain ⟨result, inbox, other, haction⟩ := h t
    refine ⟨[], .silent h.sameWrites t, ?_⟩
    rw [haction t (.refl t), haction ideal twin.reads]
    exact .whole other (fun a ha => absurd ha List.not_mem_nil) (twin.inbox inbox)

end Quiet

theorem read_quiet (n : Nat) : Quiet (read n) := by
  intro t
  by_cases hclosed : t.closed = true
  · refine ⟨.error .readError, t.inbox, nofun, fun t' same => ?_⟩
    unfold Transport.read
    rw [if_pos (same.closed.trans hclosed), ← same.inbox]
    rfl
  cases hreceive : receive t.endFails (atMost t.readLimit n) t.inbox with
  | mk answer inbox =>
    refine ⟨answer.elim (.error .readError) .ok, inbox, ?_, fun t' same => ?_⟩
    · cases answer <;> exact nofun
    · unfold Transport.read
      rw [if_neg fun h => hclosed (same.closed.symm.trans h), same.endFails, same.readLimit,
        same.inbox, hreceive]
      cases answer <;> rfl

theorem Quiet.law : ReadClosed @Quiet where
  pure := .pure
  closed := .throw (by decide)
  malformed := .throw (by decide)
  bind := .bind
  read := read_quiet

namespace Wire

theorem liftExcept_quiet {α : Type} {result : Except LinkError α}
    (h : result ≠ .error .writeError) : Quiet (liftExcept result : Wire α) := by
  cases result with
  | ok a => exact .pure a
  | error e => exact .throw fun he => h (by rw [he])

end Wire

theorem writeAll_nil : writeAll [] = pure () := by
  funext t
  unfold writeAll
  rfl

theorem writeAll_eq {b : Bytes} (h : b ≠ []) :
    writeAll b = write b >>= fun
      | 0 => throw .writeError
      | n + 1 => writeAll (b.drop (n + 1)) := by
  funext t
  conv => lhs; unfold writeAll
  rw [if_neg (by simpa using h)]
  cases hwrite : write b t with
  | error e t' => rw [bind_of_error hwrite]
  | ok n t' =>
    rw [bind_of_ok hwrite]
    cases n <;> rfl

theorem writeAll_closed {b : Bytes} {t : Transport} (h : b ≠ []) (closed : t.closed = true) :
    writeAll b t = .error .writeError t := by
  rw [writeAll_eq h]
  refine bind_of_error ?_
  unfold Transport.write
  rw [if_pos closed]

/-- The bytes go out with no attempt failed, or only the last attempt failed. -/
theorem writeAll_attempts (b : Bytes) (t : Transport) :
    ∃ log, Attempts (writeAll b) t log ∧
      ((∃ t', writeAll b t = .ok () t' ∧ ∀ a ∈ log, ¬ a.Fails) ∨
        ∃ t', writeAll b t = .error .writeError t' ∧ t'.sent <+: t.sent ++ b ∧
          ∃ a ∈ log, a.Fails) := by
  induction hb : b.length using Nat.strongRecOn generalizing b t with
  | ind length ih =>
  subst hb
  by_cases hempty : b = []
  · rw [hempty, writeAll_nil]
    exact ⟨[], .silent (Quiet.pure ()).sameWrites t, .inl ⟨t, rfl, fun a ha => nomatch ha⟩⟩
  rw [writeAll_eq hempty]
  have hattempt := Attempts.write b t
  cases hwrite : write b t with
  | error e t' =>
    have hsent := hattempt.sent
    rw [hwrite] at hattempt hsent
    obtain rfl := write_eq_error hwrite
    refine ⟨_, .stop hwrite hattempt, .inr ⟨t', bind_of_error hwrite, ?_, _,
      List.mem_singleton_self _, .inl rfl⟩⟩
    have hsame : t'.sent = t.sent := hsent.trans (List.append_nil _)
    rw [hsame]
    exact List.prefix_append _ _
  | ok n t' =>
    have hsent := Transport.sent_of_write hwrite
    rw [hwrite] at hattempt
    cases n with
    | zero =>
      have hstop : Attempts (throw .writeError : Wire Unit) t' [] :=
        .silent (fun t => ⟨rfl, rfl, rfl, rfl, rfl⟩) t'
      refine ⟨_, .next hwrite hattempt hstop, .inr ⟨t', bind_of_ok hwrite, ?_, _,
        List.mem_append_left _ (List.mem_singleton_self _), .inr rfl⟩⟩
      rw [hsent, List.take_zero, List.append_nil]
      exact List.prefix_append _ _
    | succ n =>
      have hshorter : (b.drop (n + 1)).length < b.length := by
        have := List.length_pos_iff.2 hempty
        rw [List.length_drop]
        omega
      have hfirst : ¬ (Attempt.write b (some (n + 1))).Fails := by
        rintro (h | h) <;> cases h
      obtain ⟨log, hlog, hend⟩ := ih _ hshorter (b.drop (n + 1)) t' rfl
      refine ⟨_, .next hwrite hattempt hlog, ?_⟩
      rw [bind_of_ok hwrite]
      rcases hend with ⟨t'', hrest, hnone⟩ | ⟨t'', hrest, hshort, a, ha, hfails⟩
      · refine .inl ⟨t'', hrest, fun a ha => ?_⟩
        rcases List.mem_append.1 ha with hmem | hmem
        · rw [List.mem_singleton.1 hmem]
          exact hfirst
        · exact hnone a hmem
      · refine .inr ⟨t'', hrest, ?_, a, List.mem_append_right _ ha, hfails⟩
        rw [hsent, List.append_assoc, List.take_append_drop] at hshort
        exact hshort

theorem writeAll_faithful (b : Bytes) : Faithful (writeAll b) := by
  by_cases hempty : b = []
  · rw [hempty, writeAll_nil]
    exact (Quiet.pure ()).faithful
  refine ⟨Transport.writeAll_grows b, fun t ideal twin => ?_⟩
  obtain ⟨log, hlog, hend⟩ := writeAll_attempts b t
  refine ⟨log, hlog, ?_⟩
  have hreads := Transport.writeAll_sameReads b t
  have hcloses := Transport.writeAll_closeFails b t
  by_cases hclosed : t.closed = true
  · rw [writeAll_closed hempty hclosed] at hend ⊢
    rw [writeAll_closed hempty (twin.reads.closed.trans hclosed)]
    rcases hend with ⟨t', hok, -⟩ | ⟨t', -, -, hfailed⟩
    · cases hok
    · exact .cut hfailed (twin.sent ▸ List.prefix_refl _)
  obtain ⟨ideal', hideal, hsent', houtlet⟩ := Transport.writeAll_willing b
    (twin.reads.closed.trans (Bool.not_eq_true _ ▸ hclosed)) twin.outlet
  have hreads' := Transport.writeAll_sameReads b ideal
  rw [hideal] at hreads' ⊢
  rcases hend with ⟨t', hwrite, hnone⟩ | ⟨t', hwrite, hshort, hfailed⟩
  · rw [hwrite] at hreads hcloses ⊢
    have hsent := Transport.sent_of_writeAll hwrite
    refine .whole nofun hnone (twin.onward hreads hreads' ?_ hcloses houtlet)
    rw [hsent', hsent, twin.sent]
  · rw [hwrite]
    refine .cut hfailed ?_
    rw [hsent', twin.sent]
    exact hshort

theorem flush_faithful : Faithful flush where
  grows t := Transport.flush_sent t ▸ List.prefix_refl _
  tracks t ideal twin := by
    have hattempt := Attempts.flush t
    have hreads := Transport.flush_sameReads t
    have hreads' := Transport.flush_sameReads ideal
    have hideal : flush ideal = .ok () { ideal with
        flushCalls := ideal.flushCalls + 1
        flushes := ideal.flushes + 1 } := by
      unfold Transport.flush
      rw [twin.outlet]
      rfl
    rw [hideal] at hreads' ⊢
    refine ⟨_, hattempt, ?_⟩
    by_cases hfails : t.outlet.flushFails t.flushCalls = true
    · have hflush : flush t = .error .writeError { t with flushCalls := t.flushCalls + 1 } := by
        unfold Transport.flush
        rw [if_pos hfails]
      rw [hflush]
      exact .cut ⟨_, List.mem_singleton_self _, rfl⟩ (twin.sent ▸ List.prefix_refl _)
    · have hflush : flush t = .ok () { t with
          flushCalls := t.flushCalls + 1
          flushes := t.flushes + 1 } := by
        unfold Transport.flush
        rw [if_neg hfails]
      rw [hflush] at hreads ⊢
      refine .whole nofun (fun a ha => ?_) (twin.onward hreads hreads' twin.sent rfl rfl)
      rw [List.mem_singleton.1 ha]
      exact Bool.noConfusion

theorem close_faithful : Faithful close := by
  have hsame (t : Transport) : t.SameWrites (outcome (close t)).2 := by
    unfold Transport.close
    split <;> exact ⟨rfl, rfl, rfl, rfl, rfl⟩
  refine ⟨fun t => ?_, fun t ideal twin => ⟨[], .silent hsame t, ?_⟩⟩
  · exact (hsame t).sent ▸ List.prefix_refl _
  have hcloses : (ideal.closed || ideal.outlet.closeFails) = (t.closed || t.outlet.closeFails) := by
    rw [twin.reads.closed, twin.outlet]
  unfold Transport.close
  rw [hcloses]
  split
  · exact .whole nofun nofun twin
  · exact .whole nofun nofun ⟨⟨twin.reads.inbox, twin.reads.readLimit, twin.reads.endFails, rfl⟩,
      twin.sent, twin.outlet⟩

namespace Wire

theorem fixedHeader_ne (header : UInt8) (length : Nat) :
    fixedHeader header length ≠ .error .writeError := by
  unfold fixedHeader
  dsimp only
  split <;> exact nofun

theorem sendPacket_faithful (header : UInt8) (body : Bytes) : Faithful (sendPacket header body) :=
  (liftExcept_quiet (fixedHeader_ne header body.length)).faithful.bind fun start =>
    (writeAll_faithful start).bind fun _ => (writeAll_faithful body).bind fun _ => flush_faithful

theorem acknowledge_faithful (packetId : Option UInt16) : Faithful (acknowledge packetId) := by
  cases packetId with
  | none => exact (Quiet.pure ()).faithful
  | some packetId => exact (writeAll_faithful _).bind fun _ => flush_faithful

theorem receive_faithful (header : UInt8) (body : Bytes) : Faithful (receive header body) := by
  have hdecode : Message.decode header body ≠ .error .writeError := fun h => by
    rcases decode_eq_error h with h | h <;> cases h
  exact (liftExcept_quiet hdecode).faithful.bind fun message =>
    (acknowledge_faithful message.packetId).bind fun _ => (Quiet.pure message).faithful

theorem checkConnack_ne (answer : Bytes) : checkConnack answer ≠ .error .writeError := by
  unfold checkConnack
  split
  · split
    · exact nofun
    · split
      · exact nofun
      · split <;> exact nofun
  · exact nofun

theorem handshake_faithful (o : Options) : Faithful (handshake o) := by
  unfold handshake
  split
  · exact (Quiet.throw (by decide)).faithful
  refine (liftExcept_quiet (fixedHeader_ne _ _)).faithful.bind fun start => ?_
  refine (writeAll_faithful start).bind fun _ => (writeAll_faithful _).bind fun _ => ?_
  refine (writeAll_faithful _).bind fun _ => flush_faithful.bind fun _ => ?_
  exact (Quiet.law.readExact 4).faithful.bind fun answer =>
    (liftExcept_quiet (checkConnack_ne answer)).faithful

theorem takePacket_faithful : Faithful takePacket := by
  refine (read_quiet 1).faithful.bind fun first => ?_
  cases first with
  | nil => exact (Quiet.pure none).faithful
  | cons header more =>
    refine Quiet.law.readBody.faithful.bind fun kept => ?_
    cases kept with
    | none => exact (Quiet.throw (by decide)).faithful
    | some body =>
      unfold takeUp
      dsimp only
      split
      · exact (receive_faithful header body).bind fun m => (Quiet.pure (some m)).faithful
      · exact (Quiet.pure none).faithful

end Wire

namespace Client

inductive Operation where
  | publish (topic payload : Bytes) (qos : QoS)
  | subscribe (topic : Bytes) (qos : QoS)
  | ping
  | poll
  | disconnect
  deriving DecidableEq, Repr

def Operation.action : Operation → Action (Option Message)
  | publish topic payload qos => do
    Client.publish topic payload qos
    return none
  | subscribe topic qos => do
    Client.subscribe topic qos
    return none
  | ping => do
    Client.ping
    return none
  | poll => Client.poll
  | disconnect => do
    Client.disconnect
    return none

def overWire {α : Type} (action : Action α) (c : Client) : Wire α := fun t =>
  match action { c with transport := t } with
  | .ok a c' => .ok a c'.transport
  | .error e c' => .error e c'.transport

theorem outcome_overWire {α : Type} (action : Action α) (c : Client) (t : Transport) :
    outcome (overWire action c t) =
      ((outcome (action { c with transport := t })).1,
        (outcome (action { c with transport := t })).2.transport) := by
  unfold overWire
  cases action { c with transport := t } <;> rfl

theorem overWire_onWire {α : Type} (action : Wire α) (c : Client) :
    overWire (onWire action) c = action := by
  funext t
  unfold overWire onWire
  cases action t <;> rfl

theorem overWire_none (action : Action Unit) (c : Client) :
    overWire (do action; return (none : Option Message)) c =
      (do overWire action c; return none) := by
  funext t
  change overWire (EStateM.bind action _) c t = EStateM.bind (overWire action c) _ t
  unfold overWire EStateM.bind
  dsimp only
  cases action { c with transport := t } <;> rfl

/-- What is refused before anything is done. -/
theorem refused_faithful {α : Type} {action : Action α} {e : LinkError} (other : e ≠ .writeError)
    (refused : ∀ c, action c = .error e c) (c : Client) : Faithful (overWire action c) := by
  have hthrow : overWire action c = throw e := by
    funext t
    unfold overWire
    rw [refused]
    rfl
  rw [hthrow]
  exact (Quiet.throw other).faithful

theorem publish_faithful (topic payload : Bytes) (qos : QoS) (c : Client) :
    Faithful (overWire (publish topic payload qos) c) := by
  by_cases served : qos = .exactlyOnce
  · subst served
    exact refused_faithful (by decide) (fun _ => publish_exactlyOnce topic payload) c
  by_cases hlarge : topicCapacity < topic.length ∨ payloadCapacity < payload.length
  · exact refused_faithful (by decide) (fun _ => publish_tooLarge served hlarge) c
  · have hsends : overWire (publish topic payload qos) c =
        Wire.sendPacket (publishFlags qos) (publishBody topic payload
          (if qos = .atLeastOnce then some (nextPacketId c.lastPacketId) else none)) := by
      funext t
      unfold overWire
      rw [publish_sends served hlarge]
      unfold onWire
      dsimp only
      cases Wire.sendPacket (publishFlags qos) (publishBody topic payload
        (if qos = .atLeastOnce then some (nextPacketId c.lastPacketId) else none)) t <;> rfl
    rw [hsends]
    exact Wire.sendPacket_faithful _ _

def waitFor (packetId : UInt16) : Action Unit := fun c => awaitSuback packetId c

/-- The wait over the link: it reads a packet and ends, or it answers and goes on. -/
theorem waitFor_wire (packetId : UInt16) (c : Client) :
    overWire (waitFor packetId) c = Wire.readPacket >>= fun got =>
      match got.2 with
      | none => overWire (waitFor packetId) c
      | some body =>
        if got.1 = subackHeader then liftExcept (checkSuback packetId body)
        else if isPublish got.1 then Wire.receive got.1 body >>= fun m =>
          overWire (waitFor packetId) { c with pending := some m }
        else overWire (waitFor packetId) c := by
  funext t
  conv => lhs; unfold overWire waitFor
  rw [awaitSuback_eq]
  dsimp only
  cases hread : Wire.readPacket t with
  | error e t' => rw [bind_of_error hread]
  | ok got t' =>
    rw [bind_of_ok hread]
    obtain ⟨header, kept⟩ := got
    cases kept with
    | none => rfl
    | some body =>
      dsimp only
      by_cases hsuback : header = subackHeader
      · rw [if_pos hsuback, if_pos hsuback]
        cases checkSuback packetId body <;> rfl
      rw [if_neg hsuback, if_neg hsuback]
      by_cases hpublish : isPublish header = true
      · rw [if_pos hpublish, if_pos hpublish]
        cases hreceive : Wire.receive header body t' with
        | error e t'' => rw [bind_of_error hreceive]
        | ok m t'' =>
          rw [bind_of_ok hreceive]
          rfl
      · rw [if_neg hpublish, if_neg hpublish]
        rfl

theorem checkSuback_ne (packetId : UInt16) (body : Bytes) :
    checkSuback packetId body ≠ .error .writeError :=
  fun h => nomatch checkSuback_eq_error h

theorem waitFor_grows (packetId : UInt16) (c : Client) : Grows (overWire (waitFor packetId) c) := by
  have reads {t t' : Transport} {r} (h : Wire.readPacket t = .ok r t') : t'.sent = t.sent := by
    have hsame := (Quiet.law.readPacket.sameWrites t).sent
    rw [h] at hsame
    exact hsame
  have wait (c : Client) :
      c.transport.sent <+: (outcome (awaitSuback packetId c)).2.transport.sent := by
    fun_induction awaitSuback packetId c with
    | case1 c e t hread =>
      have hsame := (Quiet.law.readPacket.sameWrites c.transport).sent
      rw [hread] at hsame
      exact ⟨[], (List.append_nil _).trans hsame.symm⟩
    | case2 c header t hread ih => exact reads hread ▸ ih
    | case3 c body t _ hread => exact ⟨[], (List.append_nil _).trans (reads hread).symm⟩
    | case4 c body t e _ hread => exact ⟨[], (List.append_nil _).trans (reads hread).symm⟩
    | case5 c header body t hread _ _ e t' hreceive =>
      have hgrows := (Wire.receive_faithful header body).grows t
      rw [hreceive, reads hread] at hgrows
      exact hgrows
    | case6 c header body t hread _ _ m t' hreceive ih =>
      have hgrows := (Wire.receive_faithful header body).grows t
      rw [hreceive, reads hread] at hgrows
      exact hgrows.trans ih
    | case7 c header body t hread _ _ ih => exact reads hread ▸ ih
  intro t
  rw [outcome_overWire]
  exact wait { c with transport := t }

theorem waitFor_faithful (packetId : UInt16) (c : Client) :
    Faithful (overWire (waitFor packetId) c) := by
  refine ⟨waitFor_grows packetId c, fun t => ?_⟩
  -- The wait is bounded by nothing but the bytes that arrive, and each packet makes these fewer.
  induction hlength : t.dataLength using Nat.strongRecOn generalizing c t with
  | ind length ih =>
  subst hlength
  have onward {got : UInt8 × Option Bytes} {t' : Transport}
      (hread : Wire.readPacket t = .ok got t') (c : Client) :
      Tracks (overWire (waitFor packetId) c) t' :=
    ih _ (Wire.dataLength_readPacket hread) c t' rfl
  rw [waitFor_wire]
  refine (Quiet.law.readPacket.faithful.tracks t).bind (fun got => ?_) fun got t' hread => ?_
  · obtain ⟨header, kept⟩ := got
    cases kept with
    | none => exact waitFor_grows packetId c
    | some body =>
      dsimp only
      split
      · exact (Wire.liftExcept_quiet (checkSuback_ne packetId body)).faithful.grows
      · split
        · exact (Wire.receive_faithful header body).grows.bind fun m => waitFor_grows packetId _
        · exact waitFor_grows packetId c
  · obtain ⟨header, kept⟩ := got
    cases kept with
    | none => exact onward hread c
    | some body =>
      dsimp only
      split
      · exact (Wire.liftExcept_quiet (checkSuback_ne packetId body)).faithful.tracks t'
      · split
        · refine ((Wire.receive_faithful header body).tracks t').bind
            (fun m => waitFor_grows packetId _) fun m t'' hreceive => ?_
          refine ih _ ?_ _ t'' rfl
          have hshorter := Wire.dataLength_readPacket hread
          unfold Transport.dataLength at hshorter ⊢
          rw [Wire.inbox_receive hreceive]
          exact hshorter
        · exact onward hread c

theorem subscribe_faithful (topic : Bytes) (qos : QoS) (c : Client) :
    Faithful (overWire (subscribe topic qos) c) := by
  by_cases hlong : topicCapacity < topic.length
  · exact refused_faithful (by decide) (subscribe_tooLong hlong) c
  · have hsends : overWire (subscribe topic qos) c =
        Wire.sendPacket subscribeHeader (subscribeBody (nextPacketId c.lastPacketId) topic qos) >>=
          fun _ => overWire (waitFor (nextPacketId c.lastPacketId))
            { c with lastPacketId := nextPacketId c.lastPacketId } := by
      funext t
      conv => lhs; unfold overWire
      rw [subscribe_fits (Nat.not_lt.1 hlong)]
      dsimp only
      cases hsend : Wire.sendPacket subscribeHeader
          (subscribeBody (nextPacketId c.lastPacketId) topic qos) t with
      | error e t' => rw [bind_of_error hsend]
      | ok u t' =>
        rw [bind_of_ok hsend]
        rfl
    rw [hsends]
    exact (Wire.sendPacket_faithful _ _).bind fun _ => waitFor_faithful _ _

theorem poll_faithful (c : Client) : Faithful (overWire poll c) := by
  cases hpending : c.pending with
  | some m =>
    have hheld : overWire poll c = pure (some m) := by
      funext t
      have held : ({ c with transport := t } : Client).pending = some m := hpending
      unfold overWire
      rw [poll_held held]
      rfl
    rw [hheld]
    exact (Quiet.pure _).faithful
  | none =>
    have htakes : overWire poll c = Wire.takePacket := by
      funext t
      have empty : ({ c with transport := t } : Client).pending = none := hpending
      rw [← overWire_onWire Wire.takePacket c]
      unfold overWire
      rw [poll_eq empty]
    rw [htakes]
    exact Wire.takePacket_faithful

theorem operation_faithful (op : Operation) (c : Client) : Faithful (overWire op.action c) := by
  have answered {action : Action Unit} (h : Faithful (overWire action c)) :
      Faithful (overWire (do action; return (none : Option Message)) c) := by
    rw [overWire_none]
    exact h.bind fun _ => (Quiet.pure none).faithful
  cases op with
  | publish topic payload qos => exact answered (publish_faithful topic payload qos c)
  | subscribe topic qos => exact answered (subscribe_faithful topic qos c)
  | ping =>
    refine answered ?_
    unfold Client.ping
    rw [overWire_onWire]
    exact (writeAll_faithful _).bind fun _ => flush_faithful
  | poll => exact poll_faithful c
  | disconnect =>
    refine answered ?_
    unfold Client.disconnect
    rw [overWire_onWire]
    exact (writeAll_faithful _).bind fun _ => flush_faithful.bind fun _ => close_faithful

/-- Of what there was to write the attempts in `log` brought a part from its beginning on, and all of
it unless one of them failed. -/
structure Written {α : Type} (log : List Attempt) (packets : Bytes) (result : Except LinkError α) :
    Prop where
  inOrder : log.flatMap Attempt.accepted <+: packets
  whole : result ≠ .error .writeError → log.flatMap Attempt.accepted = packets
  failed : result = .error .writeError ↔ ∃ attempt ∈ log, attempt.Fails

theorem written_of_compared {α : Type} {log : List Attempt} {t : Transport}
    {done ideal : Except LinkError α × Transport} (h : Compared log done ideal)
    (sent : done.2.sent = t.sent ++ log.flatMap Attempt.accepted) :
    ∃ packets, ideal.2.sent = t.sent ++ packets ∧ Written log packets done.1 := by
  cases h with
  | @whole result t' ideal other taken twin =>
    refine ⟨log.flatMap Attempt.accepted, twin.sent.trans sent, List.prefix_refl _, fun _ => rfl,
      fun h => absurd h other, ?_⟩
    rintro ⟨attempt, hmem, hfails⟩
    exact absurd hfails (taken attempt hmem)
  | @cut result t' ideal failed short =>
    obtain ⟨rest, hrest⟩ := short
    change t'.sent = _ at sent
    rw [sent, List.append_assoc] at hrest
    exact ⟨_, hrest.symm, List.prefix_append _ _, fun h => absurd rfl h, fun _ => failed,
      fun _ => rfl⟩

theorem written_of_faithful {α : Type} {action : Action α} {c : Client}
    (h : Faithful (overWire action c)) :
    ∃ log packets, Attempts (overWire action c) c.transport log ∧
      (outcome (action c)).2.transport.sent = c.transport.sent ++ log.flatMap Attempt.accepted ∧
      (outcome (action { c with transport := c.transport.willing })).2.transport.sent =
        c.transport.sent ++ packets ∧ Written log packets (outcome (action c)).1 := by
  obtain ⟨log, hlog, hcompared⟩ := h.tracks c.transport _ c.transport.twin_willing
  obtain ⟨packets, hpackets, hwritten⟩ := written_of_compared hcompared hlog.sent
  have hsent := hlog.sent
  rw [outcome_overWire] at hsent hpackets hwritten
  exact ⟨log, packets, hlog, hsent, hpackets, hwritten⟩

theorem connect_faithful (o : Options) {t ideal : Transport} (twin : t.Twin ideal) :
    ∃ log, Attempts (connect o) t log ∧
      ∃ packets, (outcome (connect o ideal)).2.sent = t.sent ++ packets ∧
        Written log packets (outcome (connect o t)).1 := by
  -- The client that is handed out holds the link, so only the handshake is the same for both.
  obtain ⟨log, hlog, hcompared⟩ := (Wire.handshake_faithful o).tracks t ideal twin
  obtain ⟨packets, hpackets, hwritten⟩ := written_of_compared hcompared hlog.sent
  have hsent (t : Transport) :
      (outcome (connect o t)).2 = (outcome (Wire.handshake o t)).2 ∧
        ((outcome (connect o t)).1 = .error .writeError ↔
          (outcome (Wire.handshake o t)).1 = .error .writeError) := by
    unfold connect
    cases hshake : Wire.handshake o t with
    | error e t' =>
      rw [bind_of_error hshake]
      exact ⟨rfl, by simp [outcome]⟩
    | ok u t' =>
      rw [bind_of_ok hshake]
      refine ⟨rfl, fun h => ?_, fun h => ?_⟩ <;> cases h
  have hattempts : Attempts (connect o) t log := by
    have hlast (t : Transport) :
        Attempts (do return ofTransport (← get) : Wire Client) t [] :=
      .silent (fun t => ⟨rfl, rfl, rfl, rfl, rfl⟩) t
    unfold connect
    cases hshake : Wire.handshake o t with
    | error e t' => exact .stop hshake hlog
    | ok u t' => exact List.append_nil log ▸ .next hshake hlog (hlast t')
  refine ⟨log, hattempts, packets, by rw [(hsent ideal).1, hpackets], hwritten.inOrder, fun h => ?_,
    (hsent t).2.trans hwritten.failed⟩
  exact hwritten.whole fun hfailed => h ((hsent t).2.2 hfailed)

/-- Whatever a link does with what it is given, an operation brings its packets to it in order, up to
the first attempt that fails. It ends with a write error just then, and else it has brought all that
it would have written to a link that takes everything. -/
theorem written_in_order :
    (∀ (o : Options) (t : Transport), ∃ log packets, Attempts (connect o) t log ∧
      (outcome (connect o t)).2.sent = t.sent ++ log.flatMap Attempt.accepted ∧
      (outcome (connect o t.willing)).2.sent = t.sent ++ packets ∧
      Written log packets (outcome (connect o t)).1) ∧
    ∀ (op : Operation) (c : Client),
      let done := outcome (op.action c)
      let ideal := outcome (op.action { c with transport := c.transport.willing })
      ∃ log packets, Attempts (overWire op.action c) c.transport log ∧
        done.2.transport.sent = c.transport.sent ++ log.flatMap Attempt.accepted ∧
        ideal.2.transport.sent = c.transport.sent ++ packets ∧ Written log packets done.1 := by
  refine ⟨fun o t => ?_, fun op c => ?_⟩
  · obtain ⟨log, hlog, packets, hpackets, hwritten⟩ := connect_faithful o t.twin_willing
    exact ⟨log, packets, hlog, hlog.sent, hpackets, hwritten⟩
  · exact written_of_faithful (operation_faithful op c)

end Client

end HubDevice.Mqtt
