import HubDevice.Error
import HubDevice.Mqtt.Transport

set_option autoImplicit false

/-!
# The stream behind the reads

Whatever the pieces in which bytes arrive, reads meet bytes, nothing and failures in one order. An
action that reads takes the bytes it wants off the front of this stream, or fails while some of them
are missing. Where each byte comes in time it cannot fail.
-/
namespace HubDevice.Mqtt

open Transport (read await readExact patience)

inductive Reading where
  | byte (b : UInt8)
  | nothing
  | failure
  deriving DecidableEq

def Reading.byte? : Reading → Option UInt8
  | byte b => some b
  | _ => none

def readings : List Arrival → List Reading
  | [] => []
  | .data b :: inbox => (if b = [] then [.nothing] else b.map .byte) ++ readings inbox
  | .idle n :: inbox => List.replicate n .nothing ++ readings inbox
  | .failure :: inbox => .failure :: readings inbox

def arriving (inbox : List Arrival) : Bytes := (readings inbox).filterMap Reading.byte?

structure Transport.Readable (t : Transport) : Prop where
  opened : t.closed = false
  limit : t.readLimit ≠ some 0

theorem filterMap_bytes (b : Bytes) : (b.map Reading.byte).filterMap Reading.byte? = b := by
  induction b with
  | nil => rfl
  | cons x b ih => simpa [Reading.byte?] using ih

theorem filterMap_nothing (n : Nat) :
    (List.replicate n Reading.nothing).filterMap Reading.byte? = [] := by
  exact List.filterMap_replicate_of_none rfl

theorem readings_data {b : Bytes} (h : b ≠ []) (inbox : List Arrival) :
    readings (.data b :: inbox) = b.map .byte ++ readings inbox := by
  rw [readings, if_neg h]

inductive Received (n : Nat) : List Reading → Option Bytes → List Reading → Prop
  | bytes {b : Bytes} {rs : List Reading} (some : b ≠ []) (length : b.length ≤ n) :
    Received n (b.map .byte ++ rs) (.some b) rs
  | nothing {rs : List Reading} : Received n (.nothing :: rs) (some []) rs
  | failure {rs : List Reading} : Received n (.failure :: rs) none rs
  | stalled {rs : List Reading} (h : n = 0) : Received n rs (some []) rs
  | finished : Received n [] (some []) []
  | ended : Received n [] none []

theorem receive_received (endFails : Bool) (n : Nat) (inbox : List Arrival) :
    Received n (readings inbox) (receive endFails n inbox).1
      (readings (receive endFails n inbox).2) := by
  fun_induction receive endFails n inbox with
  | case1 =>
    cases endFails
    · exact .finished
    · exact .ended
  | case2 b inbox =>
    -- A piece without bytes is met as nothing; any other gives bytes, and what is left of it stays.
    by_cases hb : b = []
    · subst hb
      have hfits : ([] : Bytes).length ≤ n := Nat.zero_le n
      rw [if_pos hfits, List.take_nil]
      exact .nothing
    by_cases hn : n = 0
    · subst hn
      have hlong : ¬ b.length ≤ 0 := by simpa using hb
      rw [if_neg hlong]
      exact .stalled rfl
    have htake : b.take n ≠ [] := by simp [hb, hn]
    rw [readings_data hb]
    split
    · next h =>
      rw [List.take_of_length_le h]
      exact .bytes hb h
    · next h =>
      have hdrop : b.drop n ≠ [] := by simpa using h
      have hsplit : b.map Reading.byte ++ readings inbox =
          (b.take n).map .byte ++ readings (.data (b.drop n) :: inbox) := by
        rw [readings_data hdrop, ← List.append_assoc, ← List.map_append, List.take_append_drop]
      rw [hsplit]
      exact .bytes htake (List.length_take_le n b)
  | case3 inbox ih => exact ih
  | case4 reads inbox => exact .nothing
  | case5 => exact .failure

theorem atMost_le (limit : Option Nat) (n : Nat) : atMost limit n ≤ n := by
  unfold atMost
  split
  · exact Nat.min_le_right _ _
  · exact Nat.le_refl n

theorem atMost_ne_zero {limit : Option Nat} {n : Nat} (hlimit : limit ≠ some 0) (hn : 0 < n) :
    atMost limit n ≠ 0 := by
  unfold atMost
  split
  · next m =>
    have : m ≠ 0 := fun h => hlimit (by rw [h])
    omega
  · omega

def Lost (e : LinkError) : Prop := e = .readError ∨ e = .connectionClosed

namespace Transport

theorem read_takes (n : Nat) (t : Transport) :
    (∃ b inbox, read n t = .ok b { t with inbox } ∧ arriving t.inbox = b ++ arriving inbox ∧
        b.length ≤ n) ∨
      ∃ inbox, read n t = .error .readError { t with inbox } ∧
        arriving inbox = arriving t.inbox := by
  unfold read
  split
  · exact .inr ⟨t.inbox, rfl, rfl⟩
  · have h := receive_received t.endFails (atMost t.readLimit n) t.inbox
    have hmost := atMost_le t.readLimit n
    generalize receive t.endFails (atMost t.readLimit n) t.inbox = received at h
    obtain ⟨answer, inbox⟩ := received
    unfold arriving
    generalize hrs : readings t.inbox = rs at h
    generalize hrs' : readings inbox = rs' at h
    dsimp only at h
    cases h with
    | @bytes b _ _ length =>
      refine .inl ⟨b, inbox, rfl, ?_, by omega⟩
      rw [List.filterMap_append, filterMap_bytes, hrs']
    | nothing => exact .inl ⟨[], inbox, rfl, by rw [hrs']; rfl, Nat.zero_le n⟩
    | failure => exact .inr ⟨inbox, rfl, by rw [hrs']; rfl⟩
    | stalled => exact .inl ⟨[], inbox, rfl, by rw [hrs']; rfl, Nat.zero_le n⟩
    | finished => exact .inl ⟨[], inbox, rfl, by rw [hrs']; rfl, Nat.zero_le n⟩
    | ended => exact .inr ⟨inbox, rfl, by rw [hrs']⟩

/-- A read that can give bytes gives some if they come next, and nothing if that comes next. -/
theorem read_meets {n : Nat} {t : Transport} {r : Reading} {rs : List Reading} (hn : 0 < n)
    (ready : t.Readable) (h : readings t.inbox = r :: rs) :
    ∃ inbox, match r with
      | .byte b => ∃ more, read n t = .ok (b :: more) { t with inbox } ∧
          rs = more.map .byte ++ readings inbox ∧ more.length < n
      | .nothing => read n t = .ok [] { t with inbox } ∧ readings inbox = rs
      | .failure => read n t = .error .readError { t with inbox } ∧ readings inbox = rs := by
  have hreceived := receive_received t.endFails (atMost t.readLimit n) t.inbox
  have hpos := atMost_ne_zero ready.limit hn
  have hmost := atMost_le t.readLimit n
  unfold read
  rw [ready.opened, if_neg Bool.false_ne_true]
  generalize receive t.endFails (atMost t.readLimit n) t.inbox = received at hreceived
  obtain ⟨answer, inbox⟩ := received
  refine ⟨inbox, ?_⟩
  dsimp only at hreceived ⊢
  generalize hrs : readings inbox = rest at hreceived
  rw [h] at hreceived
  generalize hall : r :: rs = all at hreceived
  cases hreceived with
  | @bytes b _ some length =>
    cases b with
    | nil => exact absurd rfl some
    | cons b more =>
      cases hall
      exact ⟨more, rfl, rfl, Nat.lt_of_lt_of_le (Nat.lt_succ_self _) (Nat.le_trans length hmost)⟩
  | nothing =>
    cases hall
    exact ⟨rfl, rfl⟩
  | failure =>
    cases hall
    exact ⟨rfl, rfl⟩
  | stalled h0 => exact absurd h0 hpos
  | finished => cases hall
  | ended => cases hall

theorem await_takes (n left : Nat) (t : Transport) :
    (∃ b more inbox, await n left t = .ok (b, more) { t with inbox } ∧
        arriving t.inbox = b :: more ++ arriving inbox ∧ more.length < n) ∨
      ∃ e inbox, await n left t = .error e { t with inbox } ∧ Lost e ∧
        arriving inbox = arriving t.inbox := by
  induction left generalizing t with
  | zero =>
    unfold await
    rcases read_takes n t with ⟨b, inbox, hread, harrive, hlength⟩ | ⟨inbox, hread, harrive⟩
    · rw [hread]
      cases b with
      | nil => exact .inr ⟨_, inbox, rfl, .inr rfl, harrive.symm⟩
      | cons b more => exact .inl ⟨b, more, inbox, rfl, harrive, hlength⟩
    · rw [hread]
      exact .inr ⟨_, inbox, rfl, .inl rfl, harrive⟩
  | succ left ih =>
    unfold await
    rcases read_takes n t with ⟨b, inbox, hread, harrive, hlength⟩ | ⟨inbox, hread, harrive⟩
    · rw [hread]
      cases b with
      | nil =>
        have h := ih { t with inbox }
        rw [harrive]
        exact h
      | cons b more => exact .inl ⟨b, more, inbox, rfl, harrive, hlength⟩
    · rw [hread]
      exact .inr ⟨_, inbox, rfl, .inl rfl, harrive⟩

theorem await_meets {n left pauses : Nat} {t : Transport} {b : UInt8} {rs : List Reading}
    (hn : 0 < n) (ready : t.Readable) (hpauses : pauses ≤ left)
    (h : readings t.inbox = List.replicate pauses .nothing ++ .byte b :: rs) :
    ∃ more inbox, await n left t = .ok (b, more) { t with inbox } ∧
      rs = more.map .byte ++ readings inbox ∧ more.length < n := by
  induction pauses generalizing t left with
  | zero =>
    obtain ⟨inbox, more, hread, hrs, hmore⟩ := read_meets hn ready h
    refine ⟨more, inbox, ?_, hrs, hmore⟩
    cases left with
    | zero =>
      unfold await
      rw [hread]
    | succ left =>
      unfold await
      rw [hread]
  | succ pauses ih =>
    rw [List.replicate_succ, List.cons_append] at h
    obtain ⟨inbox, hread, hrs⟩ := read_meets hn ready h
    cases left with
    | zero => omega
    | succ left =>
      unfold await
      rw [hread]
      exact ih ⟨ready.opened, ready.limit⟩ (Nat.le_of_succ_le_succ hpauses) hrs

end Transport

/-- These bytes come next, and before each of them reads find nothing at most `patience` times. -/
inductive InTime : Bytes → List Reading → List Reading → Prop
  | done (rs : List Reading) : InTime [] rs rs
  | byte {b : UInt8} {more : Bytes} {rs rs' : List Reading} (pauses : Nat)
    (short : pauses ≤ patience) (rest : InTime more rs rs') :
    InTime (b :: more) (List.replicate pauses .nothing ++ .byte b :: rs) rs'

theorem InTime.whole (b : Bytes) (rs : List Reading) : InTime b (b.map .byte ++ rs) rs := by
  induction b with
  | nil => exact .done rs
  | cons x b ih => exact .byte 0 (Nat.zero_le _) ih

theorem InTime.split {b c : Bytes} {rs rs'' : List Reading} (h : InTime (b ++ c) rs rs'') :
    ∃ rs', InTime b rs rs' ∧ InTime c rs' rs'' := by
  induction b generalizing rs with
  | nil => exact ⟨rs, .done rs, h⟩
  | cons x b ih =>
    cases h with
    | byte pauses short rest =>
      obtain ⟨rs', hb, hc⟩ := ih rest
      exact ⟨rs', .byte pauses short hb, hc⟩

theorem InTime.drop {b got : Bytes} {rs rs' : List Reading} (h : InTime b (got.map .byte ++ rs) rs')
    (length : got.length ≤ b.length) : ∃ more, b = got ++ more ∧ InTime more rs rs' := by
  induction got generalizing b with
  | nil => exact ⟨b, rfl, h⟩
  | cons x got ih =>
    generalize hall : (x :: got).map Reading.byte ++ rs = all at h
    cases h with
    | done => simp at length
    | @byte y b all' _ pauses _ rest =>
      cases pauses with
      | succ pauses => cases hall
      | zero =>
        cases hall
        obtain ⟨more, rfl, hmore⟩ := ih rest (Nat.le_of_succ_le_succ length)
        exact ⟨more, rfl, hmore⟩

theorem InTime.arriving {b : Bytes} {rs rs' : List Reading} (h : InTime b rs rs') :
    rs.filterMap Reading.byte? = b ++ rs'.filterMap Reading.byte? := by
  induction h with
  | done => rfl
  | @byte b more rs rs' pauses _ _ ih =>
    rw [List.filterMap_append, filterMap_nothing, List.nil_append]
    change b :: rs.filterMap Reading.byte? = _
    rw [ih]
    rfl

/-- The action takes the bytes `b` and gives `a`. It fails only on the link and while some of the
bytes are missing, and it does not if they come in time. -/
structure Reads {α : Type} (action : Wire α) (b : Bytes) (a : α) : Prop where
  takes : ∀ (t : Transport) (more : Bytes), arriving t.inbox = b ++ more →
    (∃ inbox, action t = .ok a { t with inbox } ∧ arriving inbox = more) ∨
    ∃ e inbox left, action t = .error e { t with inbox } ∧ Lost e ∧ left ≠ [] ∧ left <:+ b ∧
      arriving inbox = left ++ more
  inTime : ∀ (t : Transport) (rs : List Reading), t.Readable → InTime b (readings t.inbox) rs →
    ∃ inbox, action t = .ok a { t with inbox } ∧ readings inbox = rs

namespace Reads

variable {α β : Type}

theorem pure (a : α) : Reads (Pure.pure a) [] a where
  takes t more h := .inl ⟨t.inbox, rfl, h⟩
  inTime t rs _ h := by
    cases h
    exact ⟨t.inbox, rfl, rfl⟩

theorem bind {first : Wire α} {second : α → Wire β} {b c : Bytes} {a : α} {d : β}
    (h : Reads first b a) (h' : Reads (second a) c d) : Reads (first >>= second) (b ++ c) d where
  takes t more harrive := by
    rw [List.append_assoc] at harrive
    rcases h.takes t _ harrive with ⟨inbox, hfirst, harrive'⟩ |
      ⟨e, inbox, left, hfirst, lost, hleft, hsuffix, harrive'⟩
    · rw [bind_of_ok hfirst]
      rcases h'.takes { t with inbox } more harrive' with ⟨inbox', hsecond, hrest⟩ |
        ⟨e, inbox', left, hsecond, lost, hleft, hsuffix, hrest⟩
      · exact .inl ⟨inbox', hsecond, hrest⟩
      · exact .inr ⟨e, inbox', left, hsecond, lost, hleft,
          hsuffix.trans (List.suffix_append b c), hrest⟩
    · refine .inr ⟨e, inbox, left ++ c, bind_of_error hfirst, lost, by simp [hleft], ?_, ?_⟩
      · obtain ⟨gone, rfl⟩ := hsuffix
        exact ⟨gone, by rw [List.append_assoc]⟩
      · rw [List.append_assoc]
        exact harrive'
  inTime t rs ready hrs := by
    obtain ⟨rs', hb, hc⟩ := hrs.split
    obtain ⟨inbox, hfirst, rfl⟩ := h.inTime t rs' ready hb
    rw [bind_of_ok hfirst]
    exact h'.inTime { t with inbox } rs ⟨ready.opened, ready.limit⟩ hc

end Reads

/-- One wait gives the first bytes, or fails with all of them missing. -/
theorem readExact_takes {b : Bytes} (n : Nat) (hn : b.length = n) (t : Transport) (more : Bytes)
    (h : arriving t.inbox = b ++ more) :
    (∃ inbox, readExact n t = .ok b { t with inbox } ∧ arriving inbox = more) ∨
    ∃ e inbox left, readExact n t = .error e { t with inbox } ∧ Lost e ∧ left ≠ [] ∧ left <:+ b ∧
      arriving inbox = left ++ more := by
  induction n using Nat.strongRecOn generalizing b t with
  | ind n ih =>
  unfold readExact
  split
  · next hzero =>
    rw [hzero, List.length_eq_zero_iff] at hn
    subst hn
    exact .inl ⟨t.inbox, rfl, h⟩
  next hpos =>
  have hb : b ≠ [] := by
    rintro rfl
    exact hpos hn.symm
  rcases Transport.await_takes n patience t with ⟨x, got, inbox, hawait, harrive, hlength⟩ |
    ⟨e, inbox, hawait, lost, harrive⟩
  · rw [hawait]
    rw [harrive] at h
    obtain ⟨rest, rfl⟩ : x :: got <+: b := List.prefix_of_prefix_length_le
      (List.prefix_append _ _) ⟨more, h.symm⟩ (by rw [hn]; exact hlength)
    rw [List.append_assoc] at h
    have hrest := List.append_cancel_left h
    have hleft : rest.length = n - (got.length + 1) := by
      simp only [List.length_append, List.length_cons] at hn
      omega
    rcases ih _ (by omega) hleft { t with inbox } hrest with ⟨inbox', hread, hmore⟩ |
      ⟨e, inbox', left, hread, lost, hne, hsuffix, hmore⟩
    · dsimp only
      rw [hread]
      exact .inl ⟨inbox', rfl, hmore⟩
    · dsimp only
      rw [hread]
      exact .inr ⟨e, inbox', left, rfl, lost, hne, hsuffix.trans (List.suffix_append _ _), hmore⟩
  · rw [hawait]
    exact .inr ⟨e, inbox, b, rfl, lost, hb, List.suffix_refl b, harrive.trans h⟩

theorem readExact_inTime {b : Bytes} (n : Nat) (hn : b.length = n) (t : Transport)
    (rs : List Reading) (ready : t.Readable) (h : InTime b (readings t.inbox) rs) :
    ∃ inbox, readExact n t = .ok b { t with inbox } ∧ readings inbox = rs := by
  induction n using Nat.strongRecOn generalizing b t with
  | ind n ih =>
  unfold readExact
  generalize hall : readings t.inbox = all at h
  cases h with
  | done =>
    have hzero : n = 0 := hn.symm
    rw [if_pos hzero]
    exact ⟨t.inbox, rfl, hall⟩
  | @byte x b rest _ pauses short hrest =>
    have hpos : 0 < n := by rw [← hn]; exact Nat.succ_pos _
    obtain ⟨got, inbox, hawait, rfl, hlength⟩ := Transport.await_meets hpos ready short hall
    obtain ⟨left, rfl, hleft⟩ := hrest.drop (by rw [List.length_cons] at hn; omega)
    obtain ⟨inbox', hread, hrs⟩ := ih (n - (got.length + 1)) (by omega)
      (by simp only [List.length_append, List.length_cons] at hn; omega) { t with inbox }
      ⟨ready.opened, ready.limit⟩ hleft
    rw [if_neg (Nat.ne_of_gt hpos), hawait]
    dsimp only
    rw [hread]
    exact ⟨inbox', rfl, hrs⟩

theorem readExact_one_of_ok {t t' : Transport} {b : UInt8}
    (h : await 1 patience t = .ok (b, []) t') : readExact 1 t = .ok [b] t' := by
  unfold readExact
  rw [if_neg Nat.one_ne_zero, h]
  dsimp only
  unfold readExact
  rfl

theorem readExact_one_of_error {t t' : Transport} {e : LinkError}
    (h : await 1 patience t = .error e t') : readExact 1 t = .error e t' := by
  unfold readExact
  rw [if_neg Nat.one_ne_zero, h]

theorem readExact_reads (b : Bytes) : Reads (readExact b.length) b b where
  takes := readExact_takes _ rfl
  inTime := readExact_inTime _ rfl

/-- What is so of exact reads, and of two readings in sequence where it is so of both. It is so of
all that is put together from these. -/
structure ReadingLaw (R : (α : Type) → Wire α → Bytes → α → Prop) : Prop where
  pure {α : Type} (a : α) : R α (Pure.pure a) [] a
  bind {α β : Type} {first : Wire α} {second : α → Wire β} {b c : Bytes} {a : α} {d : β}
    (h : R α first b a) (h' : R β (second a) c d) : R β (first >>= second) (b ++ c) d
  readExact (b : Bytes) : R Bytes (readExact b.length) b b

theorem ReadingLaw.map {R : (α : Type) → Wire α → Bytes → α → Prop} (law : ReadingLaw R)
    {α β : Type} {action : Wire α} {b : Bytes} {a : α} (h : R α action b a) (f : α → β) :
    R β (action >>= fun x => Pure.pure (f x)) b (f a) := by
  rw [← List.append_nil b]
  exact law.bind h (law.pure (f a))

theorem Reads.law : ReadingLaw @Reads := ⟨.pure, .bind, readExact_reads⟩

theorem await_eq (n left : Nat) :
    await n left = (do
      match ← read n with
      | b :: more => pure (b, more)
      | [] => if left = 0 then throw .connectionClosed else await n (left - 1)) := by
  funext t
  cases left with
  | zero =>
    unfold await
    cases hread : read n t with
    | ok b t' =>
      rw [bind_of_ok hread]
      cases b <;> rfl
    | error e t' => rw [bind_of_error hread]
  | succ left =>
    conv => lhs; unfold await
    cases hread : read n t with
    | ok b t' =>
      rw [bind_of_ok hread]
      cases b <;> rfl
    | error e t' => rw [bind_of_error hread]

theorem readExact_zero : readExact 0 = pure [] := by
  funext t
  unfold readExact
  rfl

theorem readExact_eq {n : Nat} (hn : n ≠ 0) :
    readExact n = (do
      let (b, more) ← await n patience
      let rest ← readExact (n - (more.length + 1))
      return b :: more ++ rest) := by
  funext t
  conv => lhs; unfold readExact
  rw [if_neg hn]
  cases hawait : await n patience t with
  | error e t' => rw [bind_of_error hawait]
  | ok got t' =>
    rw [bind_of_ok hawait]
    dsimp only
    cases hread : readExact (n - (got.2.length + 1)) t' with
    | error e t'' => rw [bind_of_error hread]
    | ok rest t'' =>
      rw [bind_of_ok hread]
      rfl

/-- What is so of single reads and of the failures behind them, and of a sequence where it is so of
both parts. It is so of whatever reads and does nothing else. -/
structure ReadClosed (P : {α : Type} → Wire α → Prop) : Prop where
  pure {α : Type} (a : α) : P (Pure.pure a)
  closed {α : Type} : P (throw .connectionClosed : Wire α)
  malformed {α : Type} : P (throw .protocolError : Wire α)
  bind {α β : Type} {first : Wire α} {second : α → Wire β} (h : P first)
    (h' : ∀ a, P (second a)) : P (first >>= second)
  read (n : Nat) : P (Transport.read n)

namespace ReadClosed

variable {P : {α : Type} → Wire α → Prop} (law : ReadClosed P)

include law

theorem await (n left : Nat) : P (await n left) := by
  induction left with
  | zero =>
    rw [await_eq]
    refine law.bind (law.read n) fun b => ?_
    cases b with
    | nil => exact law.closed
    | cons b more => exact law.pure _
  | succ left ih =>
    rw [await_eq]
    refine law.bind (law.read n) fun b => ?_
    cases b with
    | nil => exact ih
    | cons b more => exact law.pure _

theorem readExact (n : Nat) : P (readExact n) := by
  induction n using Nat.strongRecOn with
  | ind n ih =>
  by_cases hn : n = 0
  · rw [hn, readExact_zero]
    exact law.pure []
  · rw [readExact_eq hn]
    refine law.bind (law.await n patience) fun got => ?_
    exact law.bind (ih (n - (got.2.length + 1)) (by omega)) fun _ => law.pure _

end ReadClosed

end HubDevice.Mqtt
