import HubDevice.Mqtt.Client
import HubDevice.Proofs.Mqtt.Layouts
import HubDevice.Proofs.Mqtt.Stream

set_option autoImplicit false

namespace HubDevice.Mqtt

open Transport (write writeAll flush)

def outcome {ε σ α : Type} : EStateM.Result ε σ α → Except ε α × σ
  | .ok a s => (.ok a, s)
  | .error e s => (.error e, s)

/-- Where each part of a sequence leads to a related state, so does the sequence, however it ends. -/
theorem outcome_bind {ε σ α β : Type} {R : σ → σ → Prop}
    (trans : ∀ {s s' s'' : σ}, R s s' → R s' s'' → R s s'') {first : EStateM ε σ α}
    {second : α → EStateM ε σ β} {s : σ} (h : R s (outcome (first s)).2)
    (h' : ∀ a s', R s' (outcome (second a s')).2) : R s (outcome ((first >>= second) s)).2 := by
  cases hfirst : first s with
  | ok a s' =>
    rw [hfirst] at h
    rw [bind_of_ok hfirst]
    exact trans h (h' a s')
  | error e s' =>
    rw [hfirst] at h
    rw [bind_of_error hfirst]
    exact h

namespace Transport

structure SameReads (t t' : Transport) : Prop where
  inbox : t'.inbox = t.inbox
  readLimit : t'.readLimit = t.readLimit
  endFails : t'.endFails = t.endFails
  closed : t'.closed = t.closed

theorem SameReads.refl (t : Transport) : SameReads t t := ⟨rfl, rfl, rfl, rfl⟩

theorem SameReads.trans {t t' t'' : Transport} (h : SameReads t t') (h' : SameReads t' t'') :
    SameReads t t'' :=
  ⟨h'.inbox.trans h.inbox, h'.readLimit.trans h.readLimit, h'.endFails.trans h.endFails,
    h'.closed.trans h.closed⟩

theorem write_sameReads (b : Bytes) (t : Transport) : SameReads t (outcome (write b t)).2 := by
  unfold write
  split
  · exact .refl t
  · split <;> exact ⟨rfl, rfl, rfl, rfl⟩

theorem writeAll_sameReads (b : Bytes) (t : Transport) :
    SameReads t (outcome (writeAll b t)).2 := by
  fun_induction writeAll b t with
  | case1 b t => exact .refl t
  | case2 b t _ e t' hwrite =>
    have h := write_sameReads b t
    rw [hwrite] at h
    exact h
  | case3 b t _ t' hwrite =>
    have h := write_sameReads b t
    rw [hwrite] at h
    exact h
  | case4 b t _ n t' hwrite ih =>
    have h := write_sameReads b t
    rw [hwrite] at h
    exact h.trans ih

theorem flush_sameReads (t : Transport) : SameReads t (outcome (flush t)).2 := by
  unfold flush
  dsimp only
  split <;> exact ⟨rfl, rfl, rfl, rfl⟩

/-- The transport takes `n` more bytes, at least one with each call, and every flush. -/
structure Accepts (t : Transport) (n : Nat) : Prop where
  opened : t.closed = false
  takes : ∀ call, t.writeCalls ≤ call →
    t.outlet.refuses call = false ∧ t.outlet.limit call ≠ some 0
  budget : ∀ m, t.outlet.budget = some m → n ≤ m
  flushes : ∀ call, t.flushCalls ≤ call → t.outlet.flushFails call = false

theorem Accepts.mono {t : Transport} {m n : Nat} (h : t.Accepts n) (hm : m ≤ n) : t.Accepts m :=
  ⟨h.opened, h.takes, fun k hk => Nat.le_trans hm (h.budget k hk), h.flushes⟩

theorem Accepts.inbox {t : Transport} {n : Nat} (h : t.Accepts n) (inbox : List Arrival) :
    { t with inbox }.Accepts n :=
  ⟨h.opened, h.takes, h.budget, h.flushes⟩

theorem takes_accepted {o : Outlet} {call length : Nat} (taken : o.refuses call = false)
    (some : o.limit call ≠ .some 0) (hlength : 0 < length)
    (budget : ∀ m, o.budget = .some m → length ≤ m) :
    ∃ k, o.takes call length = .some (k + 1) ∧ k + 1 ≤ length := by
  have hlimit := atMost_ne_zero some hlength
  have hle := atMost_le (o.limit call) length
  unfold Outlet.takes
  rw [taken, if_neg Bool.false_ne_true]
  split
  · next hspent => exact absurd (budget 0 hspent) (by omega)
  · next hspent =>
    have hbudget : o.budget ≠ .some 0 := hspent
    have hpos := atMost_ne_zero hbudget (Nat.pos_of_ne_zero hlimit)
    have hmost := atMost_le o.budget (atMost (o.limit call) length)
    refine ⟨atMost o.budget (atMost (o.limit call) length) - 1, ?_, by omega⟩
    rw [Nat.sub_add_cancel (Nat.pos_of_ne_zero hpos)]

theorem write_accepted {b : Bytes} {n : Nat} {t : Transport} (hb : b ≠ [])
    (h : t.Accepts (b.length + n)) :
    ∃ k t', write b t = .ok (k + 1) t' ∧ t'.sent = t.sent ++ b.take (k + 1) ∧
      t'.Accepts ((b.drop (k + 1)).length + n) := by
  obtain ⟨taken, some⟩ := h.takes t.writeCalls (Nat.le_refl _)
  obtain ⟨k, htakes, hk⟩ := takes_accepted taken some (List.length_pos_iff.2 hb)
    fun m hm => Nat.le_trans (Nat.le_add_right _ n) (h.budget m hm)
  unfold write
  rw [h.opened, if_neg Bool.false_ne_true, htakes]
  refine ⟨k, _, rfl, rfl, rfl, fun call hcall => ?_, fun m hm => ?_, h.flushes⟩
  · exact h.takes call (Nat.le_trans (Nat.le_succ _) hcall)
  · obtain ⟨m', hm', rfl⟩ := Option.map_eq_some_iff.1 hm
    have hbudget := h.budget m' hm'
    rw [List.length_drop]
    omega

end Transport

/-- Where the transport accepts them, the action writes the bytes `b` and gives `a`. -/
def Sends {α : Type} (action : Wire α) (b : Bytes) (a : α) : Prop :=
  ∀ (t : Transport) (n : Nat), t.Accepts (b.length + n) →
    ∃ t', action t = .ok a t' ∧ t'.sent = t.sent ++ b ∧ t'.Accepts n

theorem Sends.pure {α : Type} (a : α) : Sends (Pure.pure a) [] a := by
  intro t n h
  exact ⟨t, rfl, (List.append_nil _).symm, h.mono (Nat.le_add_left n _)⟩

theorem Sends.bind {α β : Type} {first : Wire α} {second : α → Wire β} {b c : Bytes} {a : α}
    {d : β} (h : Sends first b a) (h' : Sends (second a) c d) :
    Sends (first >>= second) (b ++ c) d := by
  intro t n haccepts
  rw [List.length_append, Nat.add_assoc] at haccepts
  obtain ⟨t1, hfirst, hsent, haccepts1⟩ := h t _ haccepts
  obtain ⟨t2, hsecond, hsent', haccepts2⟩ := h' t1 n haccepts1
  refine ⟨t2, (bind_of_ok hfirst).trans hsecond, ?_, haccepts2⟩
  rw [hsent', hsent, List.append_assoc]

theorem Sends.last {α β : Type} {first : Wire α} {second : α → Wire β} {b : Bytes} {a : α}
    {d : β} (h : Sends first b a) (h' : Sends (second a) [] d) : Sends (first >>= second) b d := by
  rw [← List.append_nil b]
  exact h.bind h'

/-- A transport that accepts everything goes on doing so. -/
theorem Sends.accepted {α : Type} {action : Wire α} {b : Bytes} {a : α} (h : Sends action b a)
    {t : Transport} (accepts : ∀ n, t.Accepts n) :
    ∃ t', action t = .ok a t' ∧ t'.sent = t.sent ++ b ∧ ∀ n, t'.Accepts n := by
  -- The state behind the action is one and the same, however many bytes it is asked to accept.
  obtain ⟨t', hok, hsent, -⟩ := h t 0 (accepts _)
  refine ⟨t', hok, hsent, fun n => ?_⟩
  obtain ⟨t'', hok', -, haccepts⟩ := h t n (accepts _)
  rw [hok] at hok'
  cases hok'
  exact haccepts

theorem writeAll_sends (b : Bytes) : Sends (writeAll b) b () := by
  intro t n h
  induction hb : b.length using Nat.strongRecOn generalizing b t with
  | ind length ih =>
  unfold writeAll
  by_cases hempty : b = []
  · subst hempty
    exact ⟨t, rfl, (List.append_nil _).symm, h.mono (Nat.le_add_left n _)⟩
  · obtain ⟨k, t1, hwrite, hsent, haccepts⟩ := Transport.write_accepted hempty h
    have hlength : (b.drop (k + 1)).length < length := by
      have := List.length_pos_iff.2 hempty
      rw [List.length_drop]
      omega
    obtain ⟨t2, hrest, hsent', haccepts'⟩ := ih _ hlength (b.drop (k + 1)) t1 haccepts rfl
    refine ⟨t2, ?_, ?_, haccepts'⟩
    · rw [if_neg (by simpa using hempty), hwrite]
      exact hrest
    · rw [hsent', hsent, List.append_assoc, List.take_append_drop]

theorem flush_sends : Sends flush [] () := by
  intro t n h
  unfold flush
  dsimp only
  rw [h.flushes t.flushCalls (Nat.le_refl _), if_neg Bool.false_ne_true]
  refine ⟨_, rfl, (List.append_nil _).symm, h.opened, h.takes, fun m hm => ?_, fun call hcall => ?_⟩
  · exact Nat.le_trans (Nat.le_add_left n _) (h.budget m hm)
  · exact h.flushes call (Nat.le_trans (Nat.le_succ _) hcall)

namespace Wire

open Transport (SameReads)

theorem bind_sameReads {α β : Type} {first : Wire α} {second : α → Wire β} {t : Transport}
    (h : SameReads t (outcome (first t)).2)
    (h' : ∀ a t', SameReads t' (outcome (second a t')).2) :
    SameReads t (outcome ((first >>= second) t)).2 :=
  outcome_bind (R := SameReads) SameReads.trans h h'

theorem liftExcept_sameReads {α : Type} (result : Except LinkError α) (t : Transport) :
    SameReads t (outcome ((liftExcept result : Wire α) t)).2 := by
  cases result <;> exact .refl t

theorem acknowledge_sameReads (packetId : Option UInt16) (t : Transport) :
    SameReads t (outcome (acknowledge packetId t)).2 := by
  cases packetId with
  | none => exact .refl t
  | some packetId =>
    exact bind_sameReads (Transport.writeAll_sameReads _ t) fun _ => Transport.flush_sameReads

theorem receive_sameReads (header : UInt8) (body : Bytes) (t : Transport) :
    SameReads t (outcome (receive header body t)).2 :=
  bind_sameReads (liftExcept_sameReads _ t) fun message t' =>
    bind_sameReads (acknowledge_sameReads message.packetId t') fun _ => .refl

theorem sendPacket_sameReads (header : UInt8) (body : Bytes) (t : Transport) :
    SameReads t (outcome (sendPacket header body t)).2 :=
  bind_sameReads (liftExcept_sameReads _ t) fun start t1 =>
    bind_sameReads (Transport.writeAll_sameReads start t1) fun _ t2 =>
      bind_sameReads (Transport.writeAll_sameReads body t2) fun _ => Transport.flush_sameReads

theorem acknowledge_sends (packetId : Option UInt16) :
    Sends (acknowledge packetId) (packetId.elim [] pubackLayout) () := by
  cases packetId with
  | none => exact .pure ()
  | some packetId =>
    rw [Option.elim_some, ← acknowledgement_eq]
    exact (writeAll_sends _).last flush_sends

theorem receive_refused {header : UInt8} {body : Bytes} {e : LinkError}
    (h : Message.decode header body = .error e) (t : Transport) :
    receive header body t = .error e t := by
  unfold receive
  rw [h]
  rfl

theorem fixedHeader_short (header : UInt8) {n : Nat} (short : (lengthField n).length ≤ 4) :
    fixedHeader header n = .ok (header :: lengthField n) := by
  unfold fixedHeader
  dsimp only
  rw [if_pos short]

theorem sendPacket_sends {header : UInt8} {body : Bytes}
    (short : (lengthField body.length).length ≤ 4) :
    Sends (sendPacket header body) (header :: lengthField body.length ++ body) () := by
  unfold sendPacket
  rw [fixedHeader_short header short]
  have hbody : Sends (do writeAll body; flush) body () :=
    Sends.last (writeAll_sends body) flush_sends
  have hwrites : Sends (do writeAll (header :: lengthField body.length); writeAll body; flush)
      (header :: lengthField body.length ++ body) () :=
    Sends.bind (writeAll_sends _) hbody
  exact hwrites

end Wire

end HubDevice.Mqtt
