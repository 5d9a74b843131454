import HubDevice.Mqtt.Client
import HubDevice.Proofs.Mqtt.Messages
import HubDevice.Proofs.Mqtt.Stream

set_option autoImplicit false

namespace HubDevice.Mqtt

open Transport (read await readExact discard readLength patience discardCapacity)

/-- A length in groups of seven bits, the lowest first. Every byte but the last has the high bit
set; groups of zeros may stand at the end. -/
inductive LengthField : Nat → Bytes → Prop
  | last {b : UInt8} (h : b < 128) : LengthField b.toNat [b]
  | more {b : UInt8} {n : Nat} {groups : Bytes} (h : 128 ≤ b) (rest : LengthField n groups) :
    LengthField (b.toNat - 128 + 128 * n) (b :: groups)

structure Packet where
  header : UInt8
  groups : Bytes
  body : Bytes
  length : LengthField body.length groups
  short : groups.length ≤ 4

namespace Packet

def tail (p : Packet) : Bytes := p.groups ++ p.body

def bytes (p : Packet) : Bytes := p.header :: p.tail

def kept (p : Packet) : Option Bytes :=
  if packetCapacity < p.body.length then none else some p.body

end Packet

/-- The packets come one after the other. Between them anything but bytes may be met, inside them
each byte comes in time. -/
inductive Delivers : List Packet → List Reading → Prop
  | rest {gap : List Reading} (quiet : gap.filterMap Reading.byte? = []) : Delivers [] gap
  | packet {p : Packet} {ps : List Packet} {gap rs rs' : List Reading}
    (quiet : gap.filterMap Reading.byte? = []) (inside : InTime p.tail rs rs')
    (more : Delivers ps rs') : Delivers (p :: ps) (gap ++ .byte p.header :: rs)

theorem discard_eq {n : Nat} (hn : n ≠ 0) :
    discard n = (do
      let _ ← readExact (min n discardCapacity)
      discard (n - min n discardCapacity)) := by
  funext t
  change discard n t = EStateM.bind _ _ t
  unfold EStateM.bind Transport.discard
  rw [if_neg hn]
  split <;> simp_all

theorem discard_zero : discard 0 = pure () := by
  funext t
  unfold Transport.discard
  rfl

namespace ReadingLaw

variable {R : (α : Type) → Wire α → Bytes → α → Prop} (law : ReadingLaw R)

include law

theorem discard {b : Bytes} (n : Nat) (hn : b.length = n) : R Unit (discard n) b () := by
  induction n using Nat.strongRecOn generalizing b with
  | ind n ih =>
  by_cases hzero : n = 0
  · rw [hzero, List.length_eq_zero_iff] at hn
    subst hzero hn
    rw [discard_zero]
    exact law.pure ()
  · have hpos : 0 < min n discardCapacity := by
      unfold discardCapacity
      omega
    have hpiece : (b.take (min n discardCapacity)).length = min n discardCapacity := by
      rw [List.length_take]
      omega
    have hread := law.readExact (b.take (min n discardCapacity))
    rw [hpiece] at hread
    have hrest := ih (n - min n discardCapacity) (by omega) (b := b.drop (min n discardCapacity))
      (by rw [List.length_drop, hn])
    rw [discard_eq hzero, ← List.take_append_drop (min n discardCapacity) b]
    exact law.bind hread hrest

theorem readLength {n left : Nat} {groups : Bytes} (h : LengthField n groups)
    (short : groups.length ≤ left) : R Nat (readLength left) groups n := by
  induction h generalizing left with
  | @last b h =>
    cases left with
    | zero => simp at short
    | succ left =>
      have hread := law.readExact [b]
      have hdone : R Nat (if b < 128 then Pure.pure b.toNat else do
          let more ← Transport.readLength left
          return b.toNat - 128 + 128 * more) [] b.toNat := by
        rw [if_pos h]
        exact law.pure _
      exact law.bind hread hdone
  | @more b n groups h _ ih =>
    cases left with
    | zero => simp at short
    | succ left =>
      have hread := law.readExact [b]
      have hmore : R Nat (if b < 128 then Pure.pure b.toNat else do
          let more ← Transport.readLength left
          return b.toNat - 128 + 128 * more) groups (b.toNat - 128 + 128 * n) := by
        rw [if_neg (UInt8.not_lt.2 h)]
        exact law.map (ih (Nat.le_of_succ_le_succ short)) _
      exact law.bind hread hmore

theorem readBody (p : Packet) : R (Option Bytes) Wire.readBody p.tail p.kept := by
  refine law.bind (law.readLength p.length p.short) ?_
  unfold Packet.kept
  split
  · exact law.map (law.discard _ rfl) fun _ => none
  · exact law.map (law.readExact p.body) some

theorem readPacket (p : Packet) :
    R (UInt8 × Option Bytes) Wire.readPacket p.bytes (p.header, p.kept) :=
  law.bind (law.readExact [p.header]) (law.map (law.readBody p) fun body => (p.header, body))

end ReadingLaw

namespace ReadClosed

variable {P : {α : Type} → Wire α → Prop} (law : ReadClosed P)

include law

theorem discard (n : Nat) : P (discard n) := by
  induction n using Nat.strongRecOn with
  | ind n ih =>
  by_cases hn : n = 0
  · rw [hn, discard_zero]
    exact law.pure ()
  · rw [discard_eq hn]
    exact law.bind (law.readExact _) fun _ => ih _ (by unfold discardCapacity; omega)

theorem readLength (left : Nat) : P (readLength left) := by
  induction left with
  | zero => exact law.malformed
  | succ left ih =>
    refine law.bind (law.readExact 1) fun group => ?_
    dsimp only
    split
    · exact law.pure _
    · exact law.bind ih fun _ => law.pure _

theorem readBody : P Wire.readBody := by
  refine law.bind (law.readLength 4) fun length => ?_
  split
  · exact law.bind (law.discard length) fun _ => law.pure none
  · exact law.bind (law.readExact length) fun body => law.pure (some body)

theorem readPacket : P Wire.readPacket :=
  law.bind (law.readExact 1) fun _ => law.bind law.readBody fun _ => law.pure _

end ReadClosed

theorem Packet.readBody_reads (p : Packet) : Reads Wire.readBody p.tail p.kept := Reads.law.readBody p

theorem Delivers.arriving {ps : List Packet} {rs : List Reading} (h : Delivers ps rs) :
    rs.filterMap Reading.byte? = ps.flatMap Packet.bytes := by
  induction h with
  | rest quiet => exact quiet
  | @packet p ps gap rs rs' quiet inside _ ih =>
    rw [List.filterMap_append, quiet, List.nil_append, List.flatMap_cons]
    change p.header :: rs.filterMap Reading.byte? = _
    rw [inside.arriving, ih]
    rfl

structure Transport.Delivers (t : Transport) (ps : List Packet) : Prop where
  readable : t.Readable
  stream : Mqtt.Delivers ps (readings t.inbox)

structure Transport.Inside (t : Transport) (p : Packet) (more : List Packet) : Prop where
  readable : t.Readable
  stream : ∃ rs, InTime p.tail (readings t.inbox) rs ∧ Mqtt.Delivers more rs

theorem Delivers.next {r : Reading} {rs : List Reading} {ps : List Packet}
    (h : Delivers ps (r :: rs)) :
    (r.byte? = none ∧ Delivers ps rs) ∨ ∃ p more rs', ps = p :: more ∧ r = .byte p.header ∧
      InTime p.tail rs rs' ∧ Delivers more rs' := by
  generalize hall : r :: rs = all at h
  cases h with
  | rest quiet =>
    subst hall
    cases hr : r.byte? with
    | none =>
      rw [List.filterMap_cons_none hr] at quiet
      exact .inl ⟨rfl, .rest quiet⟩
    | some b =>
      rw [List.filterMap_cons_some hr] at quiet
      cases quiet
  | @packet p ps gap rs1 rs2 quiet inside more =>
    cases gap with
    | nil =>
      cases hall
      exact .inr ⟨p, ps, rs2, rfl, rfl, inside, more⟩
    | cons g gap =>
      cases hall
      cases hr : r.byte? with
      | none =>
        rw [List.filterMap_cons_none hr] at quiet
        exact .inl ⟨rfl, .packet quiet inside more⟩
      | some b =>
        rw [List.filterMap_cons_some hr] at quiet
        cases quiet

theorem Transport.Inside.readBody {t : Transport} {p : Packet} {more : List Packet}
    (h : t.Inside p more) :
    ∃ inbox, Wire.readBody t = .ok p.kept { t with inbox } ∧ { t with inbox }.Delivers more := by
  obtain ⟨ready, rs, inside, hmore⟩ := h
  obtain ⟨inbox, hbody, rfl⟩ := p.readBody_reads.inTime t rs ready inside
  exact ⟨inbox, hbody, ⟨ready.opened, ready.limit⟩, hmore⟩

/-- One read between packets finds the next header byte, or leaves all packets. -/
theorem Transport.read_delivers {t : Transport} {ps : List Packet} (h : t.Delivers ps) :
    (∃ inbox, { t with inbox }.Delivers ps ∧
      (read 1 t = .ok [] { t with inbox } ∨ read 1 t = .error .readError { t with inbox })) ∨
    ∃ p more inbox, ps = p :: more ∧ read 1 t = .ok [p.header] { t with inbox } ∧
      { t with inbox }.Inside p more := by
  obtain ⟨ready, hstream⟩ := h
  have hready : ∀ inbox, { t with inbox }.Readable := fun _ => ⟨ready.opened, ready.limit⟩
  cases hrs : readings t.inbox with
  | nil =>
    rw [hrs] at hstream
    have hend : Mqtt.arriving t.inbox = [] := by
      rw [Mqtt.arriving, hrs]
      rfl
    obtain rfl : ps = [] := by
      have hbytes := hstream.arriving
      cases ps with
      | nil => rfl
      | cons p more => simp [Packet.bytes] at hbytes
    rcases read_takes 1 t with ⟨b, inbox, hread, harrive, -⟩ | ⟨inbox, hread, harrive⟩
    · rw [hend] at harrive
      obtain ⟨rfl, hinbox⟩ := List.append_eq_nil_iff.1 harrive.symm
      exact .inl ⟨inbox, ⟨hready inbox, .rest hinbox⟩, .inl hread⟩
    · exact .inl ⟨inbox, ⟨hready inbox, .rest (harrive.trans hend)⟩, .inr hread⟩
  | cons r rs =>
    rw [hrs] at hstream
    obtain ⟨inbox, hmeets⟩ := read_meets (by decide : 0 < 1) ready hrs
    rcases hstream.next with ⟨hquiet, hrest⟩ | ⟨p, more, rs', rfl, rfl, inside, hrest⟩
    · cases r with
      | byte b => cases hquiet
      | nothing =>
        obtain ⟨hread, rfl⟩ := hmeets
        exact .inl ⟨inbox, ⟨hready inbox, hrest⟩, .inl hread⟩
      | failure =>
        obtain ⟨hread, rfl⟩ := hmeets
        exact .inl ⟨inbox, ⟨hready inbox, hrest⟩, .inr hread⟩
    · obtain ⟨got, hread, rfl, hlength⟩ := hmeets
      obtain rfl : got = [] := List.length_eq_zero_iff.1 (Nat.lt_one_iff.1 hlength)
      exact .inr ⟨p, more, inbox, rfl, hread, hready inbox, rs', inside, hrest⟩

theorem Transport.await_delivers {t : Transport} {ps : List Packet} (left : Nat)
    (h : t.Delivers ps) :
    (∃ e inbox, await 1 left t = .error e { t with inbox } ∧ { t with inbox }.Delivers ps) ∨
    ∃ p more inbox, ps = p :: more ∧ await 1 left t = .ok (p.header, []) { t with inbox } ∧
      { t with inbox }.Inside p more := by
  induction left generalizing t with
  | zero =>
    unfold await
    rcases read_delivers h with ⟨inbox, hsame, hread | hread⟩ | ⟨p, more, inbox, rfl, hread, inside⟩
    · rw [hread]
      exact .inl ⟨_, inbox, rfl, hsame⟩
    · rw [hread]
      exact .inl ⟨_, inbox, rfl, hsame⟩
    · rw [hread]
      exact .inr ⟨p, more, inbox, rfl, rfl, inside⟩
  | succ left ih =>
    unfold await
    rcases read_delivers h with ⟨inbox, hsame, hread | hread⟩ | ⟨p, more, inbox, rfl, hread, inside⟩
    · rw [hread]
      exact ih hsame
    · rw [hread]
      exact .inl ⟨_, inbox, rfl, hsame⟩
    · rw [hread]
      exact .inr ⟨p, more, inbox, rfl, rfl, inside⟩

/-- Between packets the next one is read whole, or the reading fails in front of it. -/
theorem Transport.readPacket_delivers {t : Transport} {ps : List Packet} (h : t.Delivers ps) :
    (∃ e inbox, Wire.readPacket t = .error e { t with inbox } ∧ { t with inbox }.Delivers ps) ∨
    ∃ p more inbox, ps = p :: more ∧
      Wire.readPacket t = .ok (p.header, p.kept) { t with inbox } ∧
      { t with inbox }.Delivers more := by
  unfold Wire.readPacket
  rcases await_delivers patience h with ⟨e, inbox, hawait, hsame⟩ |
    ⟨p, more, inbox, rfl, hawait, inside⟩
  · exact .inl ⟨e, inbox, bind_of_error (readExact_one_of_error hawait), hsame⟩
  · obtain ⟨inbox', hbody, hmore⟩ := inside.readBody
    refine .inr ⟨p, more, inbox', rfl, ?_, hmore⟩
    rw [bind_of_ok (readExact_one_of_ok hawait)]
    exact bind_of_ok hbody

end HubDevice.Mqtt
