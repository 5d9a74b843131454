import HubDevice.Proofs.Mqtt.Framing
import HubDevice.Proofs.Mqtt.Publishing

set_option autoImplicit false

namespace HubDevice.Mqtt

open Transport (readExact readLength)

def startCapacity : Nat := 5

def group (n : Nat) : UInt8 :=
  if n / 128 = 0 then (n % 128).toUInt8 else (n % 128).toUInt8 ||| 0x80

def appendLength (n : Nat) : EStateM LinkError Bytes Unit := fun buffer =>
  if startCapacity ≤ buffer.length then .error .packetTooLarge buffer
  else if n / 128 = 0 then .ok () (buffer ++ [group n])
  else appendLength (n / 128) (buffer ++ [group n])
termination_by n

def word? (bits n : Nat) : Option Nat := if n < 2 ^ bits then some n else none

/-- Adds up the groups from the given value and weight on. It gives nothing where a sum or a weight
does not fit a word. -/
def gather (bits : Nat) : Nat → Nat → Nat → Wire (Option Nat)
  | 0, _, _ => throw .protocolError
  | left + 1, value, weight => do
    let b := (← readExact 1).headD 0
    let next? := do
      let part ← word? bits ((b &&& 0x7F).toNat * weight)
      word? bits (value + part)
    match next? with
    | none => return none
    | some next =>
      if b &&& 0x80 = 0 then return some next
      else
        match word? bits (weight * 128) with
        | none => return none
        | some weight => gather bits left next weight

theorem or_high : ∀ k < 128, k.toUInt8 ||| 0x80 = (k + 128).toUInt8 := by decide

theorem toNat_low (b : UInt8) : (b &&& 0x7F).toNat = b.toNat % 128 := by
  rw [UInt8.toNat_and]
  exact Nat.and_two_pow_sub_one_eq_mod b.toNat 7

theorem high_eq_zero_iff (b : UInt8) : b &&& 0x80 = 0 ↔ b < 128 := by
  have hall : ∀ k < 256, UInt8.ofNat k &&& 0x80 = 0 ↔ UInt8.ofNat k < 128 := by decide +kernel
  have hb := hall b.toNat b.toNat_lt
  rwa [UInt8.ofNat_toNat] at hb

theorem lengthField_eq (n : Nat) :
    lengthField n = group n :: if n / 128 = 0 then [] else lengthField (n / 128) := by
  rw [lengthField]
  split
  · next h =>
    have hzero : n / 128 = 0 := by omega
    rw [group, if_pos hzero, if_pos hzero, Nat.mod_eq_of_lt h]
  · next h =>
    have hpos : ¬ n / 128 = 0 := by omega
    rw [group, if_neg hpos, if_neg hpos, or_high _ (Nat.mod_lt n (by decide))]

theorem lengthField_ne_nil (n : Nat) : lengthField n ≠ [] := by
  rw [lengthField_eq]
  exact List.cons_ne_nil _ _

theorem LengthField.lt {n : Nat} {groups : Bytes} (h : LengthField n groups) :
    n < 128 ^ groups.length := by
  induction h with
  | @last b h => exact UInt8.lt_iff_toNat_lt.1 h
  | @more b n groups h _ ih =>
    have hb := b.toNat_lt
    rw [List.length_cons, Nat.pow_succ]
    omega

theorem LengthField.ne_nil {n : Nat} {groups : Bytes} (h : LengthField n groups) :
    groups ≠ [] := by
  cases h <;> exact List.cons_ne_nil _ _

theorem LengthField.lt_of_length_le {n k : Nat} {groups : Bytes} (h : LengthField n groups)
    (hk : groups.length ≤ k) : n < 128 ^ k :=
  Nat.lt_of_lt_of_le h.lt (Nat.pow_le_pow_right (by decide) hk)

theorem length_lengthField_le_iff {n k : Nat} (hk : 0 < k) :
    (lengthField n).length ≤ k ↔ n < 128 ^ k :=
  ⟨(lengthField_valid n).lt_of_length_le, length_lengthField hk⟩

/-- Any other field of the same length has groups of zeros at its end. -/
theorem LengthField.shortest {n : Nat} {groups : Bytes} (h : LengthField n groups) :
    groups = lengthField n ∨ (lengthField n).length < groups.length := by
  induction h with
  | @last b h =>
    have hlow : b.toNat < 128 := UInt8.lt_iff_toNat_lt.1 h
    left
    rw [lengthField, if_pos hlow]
    exact congrArg (fun b => [b]) UInt8.ofNat_toNat.symm
  | @more b n groups h rest ih =>
    have hb := b.toNat_lt
    have hhigh : 128 ≤ b.toNat := UInt8.le_iff_toNat_le.1 h
    have hpos := List.length_pos_iff.2 rest.ne_nil
    rw [lengthField]
    split
    · right
      exact Nat.succ_lt_succ hpos
    · have hdiv : (b.toNat - 128 + 128 * n) / 128 = n := by omega
      have hmod : (b.toNat - 128 + 128 * n) % 128 + 128 = b.toNat := by omega
      rw [hdiv, hmod]
      refine ih.imp (fun h => ?_) Nat.succ_lt_succ
      rw [← h]
      exact congrArg (· :: groups) UInt8.ofNat_toNat.symm

theorem appendLength_eq (n : Nat) (buffer : Bytes) :
    appendLength n buffer =
      if buffer.length + (lengthField n).length ≤ startCapacity then
        .ok () (buffer ++ lengthField n)
      else .error .packetTooLarge
        (buffer ++ (lengthField n).take (startCapacity - buffer.length)) := by
  fun_induction appendLength n buffer with
  | case1 n buffer full =>
    have hpos := List.length_pos_iff.2 (lengthField_ne_nil n)
    rw [if_neg (by omega), Nat.sub_eq_zero_of_le full, List.take_zero, List.append_nil]
  | case2 n buffer room last =>
    rw [lengthField_eq, if_pos last]
    exact (if_pos (Nat.lt_of_not_le room)).symm
  | case3 n buffer room more ih =>
    have hspace : startCapacity - buffer.length =
        startCapacity - (buffer ++ [group n]).length + 1 := by
      rw [List.length_append, List.length_singleton]
      omega
    have hlength : (buffer ++ [group n]).length + (lengthField (n / 128)).length =
        buffer.length + (group n :: lengthField (n / 128)).length := by
      rw [List.length_append, List.length_singleton, List.length_cons]
      omega
    rw [ih, lengthField_eq n, if_neg more, hspace, hlength, List.take_succ_cons,
      List.append_assoc, List.append_assoc]
    rfl

theorem fixedHeader_eq (header : UInt8) (n : Nat) :
    fixedHeader header n =
      if n < 128 ^ 4 then .ok (header :: lengthField n) else .error .packetTooLarge := by
  have hiff := length_lengthField_le_iff (n := n) (k := 4) (by decide)
  simp only [fixedHeader, hiff]

theorem appendLength_header (header : UInt8) (n : Nat) :
    appendLength n [header] =
      if n < 128 ^ 4 then .ok () (header :: lengthField n)
      else .error .packetTooLarge (header :: (lengthField n).take 4) := by
  have hiff : [header].length + (lengthField n).length ≤ startCapacity ↔ n < 128 ^ 4 := by
    rw [← length_lengthField_le_iff (by decide), List.length_singleton, startCapacity]
    omega
  rw [appendLength_eq]
  simp only [hiff]
  rfl

def Continued (b : Bytes) : Prop := ∀ x ∈ b, 128 ≤ x

instance (b : Bytes) : Decidable (Continued b) := inferInstanceAs (Decidable (∀ x ∈ b, 128 ≤ x))

theorem Continued.nil : Continued [] := List.forall_mem_nil _

theorem Continued.cons {x : UInt8} {b : Bytes} (hx : 128 ≤ x) (hb : Continued b) :
    Continued (x :: b) :=
  List.forall_mem_cons.2 ⟨hx, hb⟩

/-- A field stands in front of bytes that do not all announce another group. -/
theorem exists_lengthField {b : Bytes} (h : ¬ Continued b) :
    ∃ n groups more, LengthField n groups ∧ b = groups ++ more := by
  induction b with
  | nil => exact absurd Continued.nil h
  | cons x b ih =>
    by_cases hx : x < 128
    · exact ⟨x.toNat, [x], b, .last hx, rfl⟩
    · have hhigh := UInt8.not_lt.1 hx
      obtain ⟨n, groups, more, hgroups, rfl⟩ := ih fun hb => h (hb.cons hhigh)
      exact ⟨_, x :: groups, more, .more hhigh hgroups, rfl⟩

section

variable {left : Nat} {t t' : Transport} {b : UInt8}

theorem readLength_of_last (h : readExact 1 t = .ok [b] t') (hb : b < 128) :
    readLength (left + 1) t = .ok b.toNat t' := by
  rw [readLength, bind_of_ok h]
  exact congrFun (if_pos hb) t'

theorem readLength_of_more (h : readExact 1 t = .ok [b] t') (hb : 128 ≤ b) :
    readLength (left + 1) t = (do
      let more ← readLength left
      return b.toNat - 128 + 128 * more) t' := by
  rw [readLength, bind_of_ok h]
  exact congrFun (if_neg (UInt8.not_lt.2 hb)) t'

end

/-- The reading of a field takes the groups up to its end, or as many as it may, or those that come
before the connection fails. -/
theorem readLength_takes (left : Nat) (t : Transport) :
    ∃ gone inbox, arriving t.inbox = gone ++ arriving inbox ∧
      ((∃ n, readLength left t = .ok n { t with inbox } ∧ LengthField n gone ∧
          gone.length ≤ left) ∨
        (readLength left t = .error .protocolError { t with inbox } ∧ gone.length = left ∧
          Continued gone) ∨
        ∃ e, readLength left t = .error e { t with inbox } ∧ Lost e ∧ gone.length < left ∧
          Continued gone) := by
  induction left generalizing t with
  | zero => exact ⟨[], t.inbox, rfl, .inr (.inl ⟨rfl, rfl, .nil⟩)⟩
  | succ left ih =>
    rcases Transport.await_takes 1 Transport.patience t with
      ⟨b, got, inbox, hawait, harrive, hlength⟩ | ⟨e, inbox, hawait, lost, harrive⟩
    · obtain rfl : got = [] := List.length_eq_zero_iff.1 (Nat.lt_one_iff.1 hlength)
      have hread := readExact_one_of_ok hawait
      by_cases hb : b < 128
      · exact ⟨[b], inbox, harrive,
          .inl ⟨b.toNat, readLength_of_last hread hb, .last hb, Nat.le_add_left 1 left⟩⟩
      · have hhigh := UInt8.not_lt.1 hb
        obtain ⟨gone, inbox', harrive', houtcome⟩ := ih { t with inbox }
        refine ⟨b :: gone, inbox', harrive.trans (congrArg (b :: ·) harrive'), ?_⟩
        rw [readLength_of_more hread hhigh]
        rcases houtcome with ⟨n, hmore, hfield, hshort⟩ | ⟨hmore, hall, hcont⟩ |
          ⟨e, hmore, lost, hshort, hcont⟩
        · exact .inl ⟨_, bind_of_ok hmore, .more hhigh hfield, Nat.succ_le_succ hshort⟩
        · exact .inr (.inl ⟨bind_of_error hmore, congrArg (· + 1) hall, hcont.cons hhigh⟩)
        · exact .inr (.inr
            ⟨e, bind_of_error hmore, lost, Nat.succ_lt_succ hshort, hcont.cons hhigh⟩)
    · exact ⟨[], inbox, harrive.symm, .inr (.inr
        ⟨e, bind_of_error (readExact_one_of_error hawait), lost, Nat.succ_pos left, .nil⟩)⟩

theorem readLength_refuses {b : Bytes} (hb : Continued b) {t : Transport} {rs : List Reading}
    (ready : t.Readable) (h : InTime b (readings t.inbox) rs) :
    ∃ inbox, readLength b.length t = .error .protocolError { t with inbox } ∧
      readings inbox = rs := by
  induction b generalizing t with
  | nil =>
    cases h
    exact ⟨t.inbox, rfl, rfl⟩
  | cons x b ih =>
    obtain ⟨hx, hb⟩ := List.forall_mem_cons.1 hb
    obtain ⟨rs', hone, hrest⟩ := InTime.split (b := [x]) h
    obtain ⟨inbox, hread, rfl⟩ := (readExact_reads [x]).inTime t rs' ready hone
    obtain ⟨inbox', hmore, hrs⟩ := ih hb (t := { t with inbox }) ⟨ready.opened, ready.limit⟩ hrest
    exact ⟨inbox', (readLength_of_more hread hx).trans (bind_of_error hmore), hrs⟩

theorem readLength_inTime {left : Nat} {b : Bytes} (hleft : b.length = left) {t : Transport}
    {rs : List Reading} (ready : t.Readable) (h : InTime b (readings t.inbox) rs) :
    if Continued b then ∃ inbox, readLength left t = .error .protocolError { t with inbox } ∧
      readings inbox = rs
    else ∃ n, n < 128 ^ left ∧ ∃ inbox, readLength left t = .ok n { t with inbox } := by
  subst hleft
  split
  · next hcont => exact readLength_refuses hcont ready h
  · next hends =>
    obtain ⟨n, groups, more, hgroups, rfl⟩ := exists_lengthField hends
    have hshort : groups.length ≤ (groups ++ more).length := by
      rw [List.length_append]
      exact Nat.le_add_right _ _
    obtain ⟨rs', hfield, -⟩ := h.split
    obtain ⟨inbox, hread, -⟩ := (Reads.law.readLength hgroups hshort).inTime t rs' ready hfield
    exact ⟨n, hgroups.lt_of_length_le hshort, inbox, hread⟩

section

variable {bits left value weight : Nat}

theorem word?_of_lt {n : Nat} (h : n < 2 ^ bits) : word? bits n = some n := if_pos h

/-- Where the weights fit, no sum is too large. -/
theorem gather_eq (hvalue : value < weight) (fits : weight * 128 ^ left < 2 ^ bits) :
    gather bits left value weight = (do
      let n ← readLength left
      return some (value + weight * n)) := by
  induction left generalizing value weight with
  | zero => rfl
  | succ left ih =>
    have hpos : 0 < 128 ^ left := Nat.pow_pos (by decide)
    have hweight : weight * 128 < 2 ^ bits := by
      refine Nat.lt_of_le_of_lt ?_ fits
      rw [Nat.pow_succ', ← Nat.mul_assoc]
      exact Nat.le_mul_of_pos_right _ hpos
    rw [gather, readLength, bind_assoc]
    refine congrArg (readExact 1 >>= ·) (funext fun got => ?_)
    dsimp only
    generalize got.headD 0 = b
    have hlow : b.toNat % 128 * weight ≤ 127 * weight :=
      Nat.mul_le_mul_right _ (Nat.le_of_lt_succ (Nat.mod_lt _ (by decide)))
    have hnext : (do
        let part ← word? bits ((b &&& 0x7F).toNat * weight)
        word? bits (value + part)) = some (value + b.toNat % 128 * weight) := by
      rw [toNat_low, word?_of_lt (by omega), Option.bind_eq_bind, Option.bind_some,
        word?_of_lt (by omega)]
    rw [hnext]
    dsimp only
    by_cases hb : b < 128
    · have hbyte : b.toNat < 128 := UInt8.lt_iff_toNat_lt.1 hb
      rw [if_pos ((high_eq_zero_iff b).2 hb), if_pos hb, pure_bind, Nat.mod_eq_of_lt hbyte,
        Nat.mul_comm]
    · have hbyte : 128 ≤ b.toNat := UInt8.le_iff_toNat_le.1 (UInt8.not_lt.1 hb)
      have hmod : b.toNat % 128 = b.toNat - 128 := by
        have := b.toNat_lt
        omega
      rw [if_neg fun h => hb ((high_eq_zero_iff b).1 h), if_neg hb, word?_of_lt hweight, bind_assoc]
      dsimp only
      rw [ih (by omega) (by rwa [Nat.mul_assoc, ← Nat.pow_succ'])]
      refine congrArg (readLength left >>= ·) (funext fun n => ?_)
      rw [pure_bind, hmod]
      congr 2
      rw [Nat.mul_add, Nat.mul_comm (b.toNat - 128), Nat.add_assoc, Nat.mul_assoc]

end

/-- The lengths that can be written are those that can be read, up to four groups of seven bits.
Every one is written in the least number of bytes and read back from them, whatever follows. No
stream makes the reading take more than four bytes, give a greater value or need a wider word than
one of 32 bits, and it is refused for its bytes just where the first four leave the field open. -/
theorem lengths_exact :
    (∀ header n, n ≤ 268435455 →
      appendLength n [header] = .ok () (header :: lengthField n) ∧
      fixedHeader header n = .ok (header :: lengthField n) ∧
      1 ≤ (lengthField n).length ∧ (lengthField n).length ≤ 4 ∧ LengthField n (lengthField n) ∧
      (∀ groups, LengthField n groups →
        groups = lengthField n ∨ (lengthField n).length < groups.length) ∧
      Reads (readLength 4) (lengthField n) n) ∧
    (∀ header n, 268435455 < n →
      (∃ buffer, appendLength n [header] = .error .packetTooLarge buffer) ∧
      fixedHeader header n = .error .packetTooLarge) ∧
    (∀ bits, 32 ≤ bits → gather bits 4 0 1 = (do
      let n ← readLength 4
      return some n)) ∧
    (∀ t : Transport, ∃ gone inbox, arriving t.inbox = gone ++ arriving inbox ∧
      ((∃ n, readLength 4 t = .ok n { t with inbox } ∧ n ≤ 268435455 ∧ LengthField n gone ∧
          gone.length ≤ 4) ∨
        (readLength 4 t = .error .protocolError { t with inbox } ∧ gone.length = 4 ∧
          Continued gone) ∨
        ∃ e, readLength 4 t = .error e { t with inbox } ∧ Lost e ∧ gone.length < 4 ∧
          Continued gone)) ∧
    ∀ (four : Bytes) (t : Transport) (rs : List Reading), four.length = 4 → t.Readable →
      InTime four (readings t.inbox) rs →
      if Continued four then ∃ inbox, readLength 4 t = .error .protocolError { t with inbox } ∧
        readings inbox = rs
      else ∃ n, n ≤ 268435455 ∧ ∃ inbox, readLength 4 t = .ok n { t with inbox } := by
  have hle : ∀ n, n ≤ 268435455 ↔ n < 128 ^ 4 := fun n => Nat.lt_succ_iff.symm
  have hlt : ∀ n, 268435455 < n ↔ ¬ n < 128 ^ 4 := fun n => Nat.not_lt.symm
  simp only [hle, hlt]
  refine ⟨fun header n h => ?_, fun header n h => ?_, fun bits hbits => ?_, fun t => ?_,
    fun four t rs hfour ready h => readLength_inTime hfour ready h⟩
  · have hshort := length_lengthField (by decide) h
    refine ⟨?_, ?_, List.length_pos_iff.2 (lengthField_ne_nil n), hshort, lengthField_valid n,
      fun _ hgroups => hgroups.shortest, Reads.law.readLength (lengthField_valid n) hshort⟩
    · rw [appendLength_header, if_pos h]
    · rw [fixedHeader_eq, if_pos h]
  · rw [appendLength_header, if_neg h, fixedHeader_eq, if_neg h]
    exact ⟨⟨_, rfl⟩, rfl⟩
  · have fits : 1 * 128 ^ 4 < 2 ^ bits :=
      Nat.lt_of_lt_of_le (by decide) (Nat.pow_le_pow_right (by decide) hbits)
    rw [gather_eq Nat.zero_lt_one fits]
    simp only [Nat.zero_add, Nat.one_mul]
  · obtain ⟨gone, inbox, harrive, houtcome⟩ := readLength_takes 4 t
    refine ⟨gone, inbox, harrive, houtcome.imp_left ?_⟩
    rintro ⟨n, hread, hfield, hshort⟩
    exact ⟨n, hread, hfield.lt_of_length_le hshort, hfield, hshort⟩

end HubDevice.Mqtt
