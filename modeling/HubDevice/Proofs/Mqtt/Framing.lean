import HubDevice.Proofs.Mqtt.Packets

set_option autoImplicit false

namespace HubDevice.Mqtt

open Transport (readExact discard readLength discardCapacity)

theorem LengthField.eq_of_append {m n : Nat} {b c x y : Bytes} (hb : LengthField m b)
    (hc : LengthField n c) (h : b ++ x = c ++ y) : m = n ∧ b = c := by
  induction hb generalizing n c with
  | last hlow =>
    cases hc with
    | last => exact ⟨congrArg _ (List.cons.inj h).1, congrArg (fun b => [b]) (List.cons.inj h).1⟩
    | more hhigh =>
      rw [(List.cons.inj h).1] at hlow
      exact absurd hlow (UInt8.not_lt.2 hhigh)
  | more hhigh _ ih =>
    cases hc with
    | last hlow =>
      rw [(List.cons.inj h).1] at hhigh
      exact absurd hlow (UInt8.not_lt.2 hhigh)
    | more _ hrest =>
      obtain ⟨rfl, htail⟩ := List.cons.inj h
      obtain ⟨rfl, rfl⟩ := ih hrest htail
      exact ⟨rfl, rfl⟩

namespace Packet

theorem eq_of_append {p q : Packet} {x y : Bytes} (h : p.bytes ++ x = q.bytes ++ y) : p = q := by
  obtain ⟨header, groups, body, length, short⟩ := p
  obtain ⟨header', groups', body', length', short'⟩ := q
  obtain ⟨hheader, htail⟩ := List.cons.inj h
  dsimp only at hheader
  change groups ++ body ++ x = groups' ++ body' ++ y at htail
  rw [List.append_assoc, List.append_assoc] at htail
  obtain ⟨hlength, rfl⟩ := length.eq_of_append length' htail
  obtain ⟨rfl, -⟩ := List.append_inj (List.append_cancel_left htail) hlength
  rw [hheader]

end Packet

def Partial (b : Bytes) : Prop := ∀ p : Packet, ¬ p.bytes <+: b

theorem partial_nil : Partial [] := fun _ h => nomatch List.prefix_nil.1 h

/-- What is taken off packets is the first of them, up to a part of a packet. -/
theorem eq_of_flatMap {taken ps : List Packet} {gone : Bytes}
    (h : taken.flatMap Packet.bytes ++ gone = ps.flatMap Packet.bytes) (cut : Partial gone) :
    taken = ps ∧ gone = [] := by
  induction taken generalizing ps with
  | nil =>
    cases ps with
    | nil => exact ⟨rfl, h⟩
    | cons q ps => exact absurd ⟨ps.flatMap Packet.bytes, h.symm⟩ (cut q)
  | cons p taken ih =>
    cases ps with
    | nil => cases h
    | cons q ps =>
      rw [List.flatMap_cons, List.flatMap_cons, List.append_assoc] at h
      obtain rfl := Packet.eq_of_append h
      obtain ⟨rfl, rfl⟩ := ih (List.append_cancel_left h)
      exact ⟨rfl, rfl⟩

/-- The action takes bytes off the front of whatever arrives; where it gives `a` they are bytes of
which `P a` holds. -/
def Cuts {α : Type} (action : Wire α) (P : α → Bytes → Prop) : Prop :=
  ∀ t : Transport, ∃ gone inbox, arriving t.inbox = gone ++ arriving inbox ∧
    ((∃ e, action t = .error e { t with inbox }) ∨
      ∃ a, action t = .ok a { t with inbox } ∧ P a gone)

namespace Cuts

variable {α β : Type}

theorem pure {a : α} {P : α → Bytes → Prop} (h : P a []) : Cuts (Pure.pure a) P :=
  fun t => ⟨[], t.inbox, rfl, .inr ⟨a, rfl, h⟩⟩

theorem throw (e : LinkError) (P : α → Bytes → Prop) : Cuts (MonadExcept.throw e) P :=
  fun t => ⟨[], t.inbox, rfl, .inl ⟨e, rfl⟩⟩

theorem bind {first : Wire α} {second : α → Wire β} {P : α → Bytes → Prop}
    {Q : β → Bytes → Prop} (h : Cuts first P)
    (h' : ∀ a b, P a b → Cuts (second a) fun d c => Q d (b ++ c)) : Cuts (first >>= second) Q := by
  intro t
  obtain ⟨b, inbox, harrive, ⟨e, hfirst⟩ | ⟨a, hfirst, ha⟩⟩ := h t
  · exact ⟨b, inbox, harrive, .inl ⟨e, bind_of_error hfirst⟩⟩
  · rw [bind_of_ok hfirst]
    obtain ⟨c, inbox', harrive', hsecond⟩ := h' a b ha { t with inbox }
    refine ⟨b ++ c, inbox', ?_, hsecond⟩
    rw [List.append_assoc, ← harrive']
    exact harrive

end Cuts

theorem readExact_cuts (n : Nat) : Cuts (readExact n) fun b gone => b = gone ∧ gone.length = n := by
  induction n using Nat.strongRecOn with
  | ind n ih =>
  intro t
  unfold Transport.readExact
  split
  · next hzero => exact ⟨[], t.inbox, rfl, .inr ⟨[], rfl, rfl, hzero.symm⟩⟩
  rcases Transport.await_takes n Transport.patience t with
    ⟨x, got, inbox, hawait, harrive, hlength⟩ | ⟨e, inbox, hawait, -, harrive⟩
  · rw [hawait]
    dsimp only
    obtain ⟨gone, inbox', harrive', hrest⟩ := ih (n - (got.length + 1)) (by omega) { t with inbox }
    refine ⟨x :: got ++ gone, inbox', ?_, ?_⟩
    · rw [List.append_assoc, ← harrive']
      exact harrive
    · rcases hrest with ⟨e, hread⟩ | ⟨rest, hread, rfl, hrest⟩
      · rw [hread]
        exact .inl ⟨e, rfl⟩
      · rw [hread]
        refine .inr ⟨x :: got ++ rest, rfl, rfl, ?_⟩
        rw [List.length_append, hrest, List.length_cons]
        omega
  · rw [hawait]
    exact ⟨[], inbox, harrive.symm, .inl ⟨e, rfl⟩⟩

theorem readExact_one (t : Transport) :
    (∃ b inbox, readExact 1 t = .ok [b] { t with inbox } ∧
      arriving t.inbox = b :: arriving inbox) ∨
    ∃ e inbox, readExact 1 t = .error e { t with inbox } ∧ arriving inbox = arriving t.inbox := by
  rcases Transport.await_takes 1 Transport.patience t with
    ⟨b, got, inbox, hawait, harrive, hlength⟩ | ⟨e, inbox, hawait, -, harrive⟩
  · obtain rfl : got = [] := List.length_eq_zero_iff.1 (Nat.lt_one_iff.1 hlength)
    exact .inl ⟨b, inbox, readExact_one_of_ok hawait, harrive⟩
  · exact .inr ⟨e, inbox, readExact_one_of_error hawait, harrive⟩

theorem discard_cuts (n : Nat) : Cuts (discard n) fun _ gone => gone.length = n := by
  induction n using Nat.strongRecOn with
  | ind n ih =>
  by_cases hzero : n = 0
  · subst hzero
    rw [discard_zero]
    exact .pure rfl
  · rw [discard_eq hzero]
    refine (readExact_cuts _).bind fun _ b hb => ?_
    intro t
    obtain ⟨gone, inbox, harrive, hrest⟩ := ih (n - min n discardCapacity)
      (by unfold discardCapacity; omega) t
    refine ⟨gone, inbox, harrive, hrest.imp_right fun ⟨u, hread, hlength⟩ => ⟨u, hread, ?_⟩⟩
    dsimp only at hlength ⊢
    rw [List.length_append, hb.2, hlength]
    omega

theorem readLength_cuts (left : Nat) :
    Cuts (readLength left) fun n gone => LengthField n gone ∧ gone.length ≤ left := by
  induction left with
  | zero => exact .throw _ _
  | succ left ih =>
    refine (readExact_cuts 1).bind fun got b hb => ?_
    obtain ⟨rfl, hone⟩ := hb
    obtain ⟨b, rfl⟩ := List.length_eq_one_iff.1 hone
    dsimp only [List.headD_cons]
    split
    · next hlast =>
      refine .pure ⟨?_, ?_⟩
      · exact .last hlast
      · exact Nat.succ_le_succ (Nat.zero_le left)
    · next hmore =>
      refine ih.bind fun n groups hgroups => .pure ?_
      rw [List.append_nil]
      exact ⟨.more (UInt8.not_lt.1 hmore) hgroups.1, Nat.succ_le_succ hgroups.2⟩

namespace Wire

theorem readBody_cuts (header : UInt8) :
    Cuts readBody fun kept gone => ∃ p : Packet, p.header = header ∧ p.kept = kept ∧
      p.tail = gone := by
  refine (readLength_cuts 4).bind fun length groups hgroups => ?_
  have hpacket : ∀ body : Bytes, body.length = length → ∃ p : Packet, p.header = header ∧
      p.kept = (if packetCapacity < length then none else some body) ∧ p.tail = groups ++ body := by
    rintro body rfl
    exact ⟨⟨header, groups, body, hgroups.1, hgroups.2⟩, rfl, rfl, rfl⟩
  split
  · next hlong =>
    refine (discard_cuts length).bind fun _ body hbody => .pure ?_
    rw [List.append_nil]
    obtain ⟨p, hheader, hkept, htail⟩ := hpacket body hbody
    rw [if_pos hlong] at hkept
    exact ⟨p, hheader, hkept, htail⟩
  · next hshort =>
    refine (readExact_cuts length).bind fun got body hbody => .pure ?_
    obtain ⟨rfl, hlength⟩ := hbody
    rw [List.append_nil]
    obtain ⟨p, hheader, hkept, htail⟩ := hpacket got hlength
    rw [if_neg hshort] at hkept
    exact ⟨p, hheader, hkept, htail⟩

/-- Behind a header byte a packet is read to its end, or the reading breaks off before that. -/
theorem readBody_frames (header : UInt8) (t : Transport) :
    (∃ (p : Packet) (inbox : _), p.header = header ∧ readBody t = .ok p.kept { t with inbox } ∧
      arriving t.inbox = p.tail ++ arriving inbox) ∨
    ∃ e inbox gone, readBody t = .error e { t with inbox } ∧
      arriving t.inbox = gone ++ arriving inbox ∧ Partial (header :: gone) := by
  -- If a whole packet arrives it is this one that is read. If none does, no part of what arrives is
  -- one either, wherever the reading stops.
  by_cases h : ∃ p : Packet, p.header = header ∧ p.tail <+: arriving t.inbox
  · obtain ⟨p, rfl, more, harrive⟩ := h
    rcases p.readBody_reads.takes t more harrive.symm with ⟨inbox, hread, rfl⟩ |
      ⟨e, inbox, left, hread, -, hleft, ⟨gone, htail⟩, hmore⟩
    · exact .inl ⟨p, inbox, rfl, hread, harrive.symm⟩
    · refine .inr ⟨e, inbox, gone, hread, ?_, ?_⟩
      · rw [← harrive, ← htail, hmore, List.append_assoc]
      · rintro q ⟨x, hq⟩
        have hbytes : q.bytes ++ (x ++ left) = p.bytes ++ [] := by
          rw [← List.append_assoc, hq, List.append_nil, Packet.bytes, ← htail, List.cons_append]
        have hpos := List.length_pos_iff.2 hleft
        have hlength := congrArg List.length hq
        rw [Packet.eq_of_append hbytes, Packet.bytes, ← htail] at hlength
        simp only [List.length_append, List.length_cons] at hlength
        omega
  · obtain ⟨gone, inbox, harrive, ⟨e, hread⟩ | ⟨kept, hread, p, hheader, rfl, rfl⟩⟩ :=
      readBody_cuts header t
    · refine .inr ⟨e, inbox, gone, hread, harrive, ?_⟩
      rintro q ⟨x, hq⟩
      obtain ⟨hheader, htail⟩ : q.header = header ∧ q.tail ++ x = gone := List.cons.inj hq
      refine h ⟨q, hheader, x ++ arriving inbox, ?_⟩
      rw [harrive, ← htail, List.append_assoc]
    · exact .inl ⟨p, inbox, hheader, hread, harrive⟩

theorem readPacket_frames (t : Transport) :
    (∃ (p : Packet) (inbox : _), readPacket t = .ok (p.header, p.kept) { t with inbox } ∧
      arriving t.inbox = p.bytes ++ arriving inbox) ∨
    ∃ e inbox gone, readPacket t = .error e { t with inbox } ∧
      arriving t.inbox = gone ++ arriving inbox ∧ Partial gone := by
  unfold readPacket
  rcases readExact_one t with ⟨header, inbox, hheader, harrive⟩ | ⟨e, inbox, hheader, harrive⟩
  · rw [bind_of_ok hheader, harrive]
    rcases readBody_frames header { t with inbox } with ⟨p, inbox', rfl, hbody, hmore⟩ |
      ⟨e, inbox', gone, hbody, hmore, cut⟩
    · refine .inl ⟨p, inbox', bind_of_ok hbody, ?_⟩
      exact congrArg (p.header :: ·) hmore
    · refine .inr ⟨e, inbox', header :: gone, bind_of_error hbody, ?_, cut⟩
      exact congrArg (header :: ·) hmore
  · exact .inr ⟨e, inbox, [], bind_of_error hheader, harrive.symm, partial_nil⟩

end Wire

end HubDevice.Mqtt
