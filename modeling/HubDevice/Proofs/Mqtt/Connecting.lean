import HubDevice.Proofs.Mqtt.Sending

set_option autoImplicit false

/-!
# Opening a session

A reader of CONNECT packets, made from the layout of the packet alone, gets just what the client
presents back from the packet that it sends. What does not fit is refused before anything is
written. The four bytes read next decide how the opening ends.
-/
namespace HubDevice.Mqtt

open Transport (writeAll flush readExact)

structure Will where
  topic : Bytes
  message : Bytes
  qos : Nat
  retain : Bool
  deriving DecidableEq

structure Connect where
  protocol : Bytes
  level : Nat
  cleanSession : Bool
  keepAlive : Nat
  clientId : Bytes
  will : Option Will
  userName : Option Bytes
  password : Option Bytes
  deriving DecidableEq

def takeField : Bytes → Option (Bytes × Bytes)
  | high :: low :: rest =>
    let length := high.toNat * 256 + low.toNat
    if length ≤ rest.length then some (rest.splitAt length) else none
  | _ => none

def takeOptional (present : Bool) (b : Bytes) : Option (Option Bytes × Bytes) :=
  if present then (takeField b).map fun (field, rest) => (some field, rest) else some (none, b)

/-- A will has a quality of service below three; without one its flags are clear. -/
def takeWill (flags : Nat) (b : Bytes) : Option (Option Will × Bytes) :=
  let qos := flags / 8 % 4
  let retain := flags.testBit 5
  if flags.testBit 2 then
    if qos = 3 then none
    else do
      let (topic, b) ← takeField b
      let (message, b) ← takeField b
      return (some { topic, message, qos, retain }, b)
  else if qos = 0 && !retain then some (none, b)
  else none

namespace Connect

/-- Reads a CONNECT packet to its last byte. Each flag alone tells whether its field is there. -/
def ofPacket? (p : Packet) : Option Connect :=
  if p.header ≠ 0x10 then none
  else do
    let (protocol, rest) ← takeField p.body
    match rest with
    | level :: flags :: high :: low :: rest =>
      let flags := flags.toNat
      if flags.testBit 0 then none
      else
        let (clientId, rest) ← takeField rest
        let (will, rest) ← takeWill flags rest
        let (userName, rest) ← takeOptional (flags.testBit 7) rest
        let (password, rest) ← takeOptional (flags.testBit 6) rest
        if rest ≠ [] then none
        else
          return {
            protocol, clientId, will, userName, password
            level := level.toNat
            cleanSession := flags.testBit 1
            keepAlive := high.toNat * 256 + low.toNat }
    | _ => none

end Connect

theorem toNat_bigEndian (w : UInt16) :
    (w >>> 8).toUInt8.toNat * 256 + w.toUInt8.toNat = w.toNat := by
  rw [toNat_high, UInt16.toNat_toUInt8]
  omega

theorem takeField_field {b : Bytes} (h : b.length < 2 ^ 16) (rest : Bytes) :
    takeField (field b ++ rest) = some (b, rest) := by
  have hcount : b.length.toUInt16.toNat = b.length := Nat.mod_eq_of_lt h
  have hlength := toNat_bigEndian b.length.toUInt16
  rw [hcount] at hlength
  change takeField
    ((b.length.toUInt16 >>> 8).toUInt8 :: b.length.toUInt16.toUInt8 :: (b ++ rest)) = _
  rw [takeField, hlength]
  have hfits : b.length ≤ (b ++ rest).length := by
    rw [List.length_append]
    exact Nat.le_add_right _ _
  rw [if_pos hfits, List.splitAt_eq, List.take_left, List.drop_left]

theorem takeOptional_elim {b : Option Bytes} (h : ∀ field ∈ b, field.length < 2 ^ 16)
    (rest : Bytes) : takeOptional b.isSome (b.elim [] field ++ rest) = some (b, rest) := by
  cases b with
  | none => rfl
  | some b =>
    change (takeField (field b ++ rest)).map _ = _
    rw [takeField_field (h b rfl)]
    rfl

namespace Options

def size (o : Options) : Nat :=
  (2 + o.clientId.length) + o.userName.elim 0 (2 + ·.length) + o.password.elim 0 (2 + ·.length)

def presented (o : Options) : Connect where
  protocol := utf8 "MQTT"
  level := 4
  cleanSession := o.cleanSession
  keepAlive := o.keepAlive.toNat
  clientId := o.clientId
  will := none
  userName := o.userName
  password := o.password

theorem length_field (b : Bytes) : (field b).length = 2 + b.length := by
  rw [field, List.length_append]
  rfl

theorem length_elim_field (b : Option Bytes) :
    (b.elim [] field).length = b.elim 0 (2 + ·.length) := by
  cases b with
  | none => rfl
  | some b => exact length_field b

theorem length_payload (o : Options) : o.payload.length = o.size := by
  rw [payload, List.length_append, List.length_append, length_field, length_elim_field,
    length_elim_field, size]

/-- The flags of the packet one by one; those of a will are clear. -/
theorem flags_bits (o : Options) :
    o.flags.toNat.testBit 0 = false ∧ o.flags.toNat.testBit 1 = o.cleanSession ∧
      o.flags.toNat.testBit 2 = false ∧ o.flags.toNat / 8 % 4 = 0 ∧
      o.flags.toNat.testBit 5 = false ∧ o.flags.toNat.testBit 6 = o.password.isSome ∧
      o.flags.toNat.testBit 7 = o.userName.isSome := by
  unfold flags
  generalize o.cleanSession = clean
  generalize o.userName.isSome = named
  generalize o.password.isSome = secret
  revert clean named secret
  decide

variable {o : Options}

theorem body_short (h : o.size ≤ connectCapacity) :
    (o.variableHeader ++ o.payload).length < 128 ^ 4 := by
  have hheader : o.variableHeader.length = 10 := rfl
  rw [List.length_append, hheader, length_payload]
  unfold connectCapacity at h
  omega

def packet (o : Options) (h : o.size ≤ connectCapacity) : Packet :=
  .sent connectHeader (o.variableHeader ++ o.payload) (body_short h)

theorem ofPacket?_packet (h : o.size ≤ connectCapacity) :
    Connect.ofPacket? (o.packet h) = some o.presented := by
  have hsize : o.size < 2 ^ 16 := Nat.lt_of_le_of_lt h (by decide)
  unfold size at hsize
  have hclient : o.clientId.length < 2 ^ 16 := by omega
  have huser : ∀ b ∈ o.userName, b.length < 2 ^ 16 := by
    intro b hb
    rw [Option.mem_def.1 hb, Option.elim_some] at hsize
    omega
  have hpassword : ∀ b ∈ o.password, b.length < 2 ^ 16 := by
    intro b hb
    rw [Option.mem_def.1 hb, Option.elim_some] at hsize
    omega
  obtain ⟨hreserved, hclean, hwill, hqos, hretain, hsecret, hnamed⟩ := o.flags_bits
  have hbody : (o.packet h).body = field (utf8 "MQTT") ++ (4 :: o.flags ::
      (o.keepAlive >>> 8).toUInt8 :: o.keepAlive.toUInt8 ::
        (field o.clientId ++ (o.userName.elim [] field ++ (o.password.elim [] field ++ [])))) := by
    change o.variableHeader ++ o.payload = _
    simp [variableHeader, payload, bigEndian]
  have hheader : (o.packet h).header = 0x10 := rfl
  have hwillField (rest : Bytes) : takeWill o.flags.toNat rest = some (none, rest) := by
    simp [takeWill, hwill, hqos, hretain]
  have hkeepAlive := toNat_bigEndian o.keepAlive
  have hprotocol := takeField_field (b := utf8 "MQTT") (by decide)
  have hclientField := takeField_field hclient
  have huserField := takeOptional_elim huser
  have hpasswordField := takeOptional_elim hpassword []
  simp only [Connect.ofPacket?, hheader, hbody, hprotocol, hreserved, hclientField, hwillField,
    hnamed, huserField, hsecret, hpasswordField, hkeepAlive, hclean, Option.bind_eq_bind,
    Option.bind_some, Option.pure_def]
  rfl

end Options

namespace Wire

def present (o : Options) : Wire Unit := do
  writeAll (connectHeader :: lengthField (o.variableHeader ++ o.payload).length)
  writeAll o.variableHeader
  writeAll o.payload
  flush

theorem handshake_large {o : Options} (h : connectCapacity < o.size) (t : Transport) :
    handshake o t = .error .packetTooLarge t := by
  rw [← o.length_payload] at h
  unfold handshake
  rw [if_pos h]
  rfl

theorem handshake_fits {o : Options} (h : o.size ≤ connectCapacity) :
    handshake o = (do present o; liftExcept (checkConnack (← readExact 4))) := by
  have hshort := (o.packet h).short
  change (lengthField (o.variableHeader ++ o.payload).length).length ≤ 4 at hshort
  rw [← o.length_payload, ← Nat.not_lt] at h
  unfold handshake present
  rw [if_neg h, ← List.length_append, fixedHeader_short connectHeader hshort]
  simp only [bind_assoc]
  rfl

theorem present_sends {o : Options} (h : o.size ≤ connectCapacity) :
    Sends (present o) (o.packet h).bytes () := by
  have hpayload : Sends (do writeAll o.payload; flush) o.payload () :=
    Sends.last (writeAll_sends _) flush_sends
  have hbody : Sends (do writeAll o.variableHeader; writeAll o.payload; flush)
      (o.variableHeader ++ o.payload) () := Sends.bind (writeAll_sends _) hpayload
  have hpacket : Sends (present o) (connectHeader :: lengthField (o.variableHeader ++
      o.payload).length ++ (o.variableHeader ++ o.payload)) () :=
    Sends.bind (writeAll_sends _) hbody
  exact hpacket

theorem present_sameReads (o : Options) (t : Transport) :
    Transport.SameReads t (outcome (present o t)).2 :=
  bind_sameReads (Transport.writeAll_sameReads _ t) fun _ t1 =>
    bind_sameReads (Transport.writeAll_sameReads _ t1) fun _ t2 =>
      bind_sameReads (Transport.writeAll_sameReads _ t2) fun _ => Transport.flush_sameReads

end Wire

/-- Either as many bytes as are wanted are read, or fewer and the link fails. -/
theorem readExact_ends (n : Nat) (t : Transport) :
    (∃ b inbox, readExact n t = .ok b { t with inbox } ∧ b.length = n ∧
      arriving t.inbox = b ++ arriving inbox) ∨
    ∃ e inbox gone, readExact n t = .error e { t with inbox } ∧ Lost e ∧ gone.length < n ∧
      arriving t.inbox = gone ++ arriving inbox := by
  induction n using Nat.strongRecOn generalizing t with
  | ind n ih =>
  unfold readExact
  split
  · next hzero => exact .inl ⟨[], t.inbox, rfl, hzero.symm, rfl⟩
  next hpos =>
  rcases Transport.await_takes n Transport.patience t with
    ⟨x, got, inbox, hawait, harrive, hlength⟩ | ⟨e, inbox, hawait, lost, harrive⟩
  · rw [hawait, harrive]
    rcases ih (n - (got.length + 1)) (by omega) { t with inbox } with
      ⟨rest, inbox', hread, hrest, hmore⟩ | ⟨e, inbox', gone, hread, lost, hgone, hmore⟩
    · dsimp only at hmore ⊢
      rw [hread, hmore]
      refine .inl ⟨x :: got ++ rest, inbox', rfl, ?_, (List.append_assoc ..).symm⟩
      rw [List.length_append, List.length_cons, hrest]
      omega
    · dsimp only at hmore ⊢
      rw [hread, hmore]
      refine .inr ⟨e, inbox', x :: got ++ gone, rfl, lost, ?_, (List.append_assoc ..).symm⟩
      rw [List.length_append, List.length_cons]
      omega
  · rw [hawait]
    exact .inr ⟨e, inbox, [], rfl, lost, Nat.pos_of_ne_zero hpos, harrive.symm⟩

namespace Client

/-- How an opening ends on an answer with these bytes; its third byte does not count. -/
structure Opens (first second last : UInt8) (t : Transport) (result : Except LinkError Client) :
    Prop where
  accepted : ∀ c, result = .ok c ↔ (first = 0x20 ∧ second = 2 ∧ last = 0) ∧ c = ofTransport t
  refused : ∀ code, result = .error (.connectionRefused code) ↔
    first = 0x20 ∧ second = 2 ∧ last = code ∧ 1 ≤ code ∧ code ≤ 5
  malformed : result = .error .protocolError ↔ ¬ (first = 0x20 ∧ second = 2 ∧ last ≤ 5)

theorem opens_checkConnack (first second third last : UInt8) (t : Transport) :
    Opens first second last t
      ((Wire.checkConnack [first, second, third, last]).map fun _ => ofTransport t) := by
  unfold Wire.checkConnack connackHeader
  dsimp only
  by_cases hstart : first = 0x20 ∧ second = 2
  · obtain ⟨rfl, rfl⟩ := hstart
    rw [if_neg (by decide)]
    by_cases hzero : last = 0
    · subst hzero
      exact ⟨by simp [Except.map, eq_comm], by simp [Except.map], by simp [Except.map]⟩
    have hpos : 1 ≤ last := UInt8.le_iff_toNat_le.2
      (Nat.pos_of_ne_zero fun h => hzero (UInt8.toNat_inj.1 h))
    rw [if_neg hzero]
    by_cases hlast : last ≤ 5
    · rw [if_pos hlast]
      refine ⟨by simp [Except.map, hzero], fun code => ?_, by simp [Except.map, hlast]⟩
      constructor
      · rintro ⟨⟩
        exact ⟨rfl, rfl, rfl, hpos, hlast⟩
      · rintro ⟨-, -, rfl, -, -⟩
        rfl
    · rw [if_neg hlast]
      refine ⟨by simp [Except.map, hzero], fun code => ?_, by simp [Except.map, hlast]⟩
      constructor
      · nofun
      · rintro ⟨-, -, rfl, -, h⟩
        exact absurd h hlast
  · have hguard : (first ≠ 0x20 || second ≠ 2) = true := by
      simpa [Decidable.imp_iff_not_or] using hstart
    rw [if_pos hguard]
    exact ⟨fun c => ⟨nofun, fun h => absurd ⟨h.1.1, h.1.2.1⟩ hstart⟩,
      fun code => ⟨nofun, fun h => absurd ⟨h.1, h.2.1⟩ hstart⟩,
      ⟨fun _ h => hstart ⟨h.1, h.2.1⟩, fun _ => rfl⟩⟩

theorem connect_large {o : Options} (h : connectCapacity < o.size) (t : Transport) :
    connect o t = .error .packetTooLarge t := by
  unfold connect
  rw [bind_of_error (Wire.handshake_large h t)]

variable {o : Options} {t t1 t2 : Transport}

theorem connect_answered (h : o.size ≤ connectCapacity) {answer : Bytes}
    (hpresent : Wire.present o t = .ok () t1) (hread : readExact 4 t1 = .ok answer t2) :
    outcome (connect o t) = ((Wire.checkConnack answer).map fun _ => ofTransport t2, t2) := by
  unfold connect
  rw [Wire.handshake_fits h]
  simp only [bind_assoc]
  rw [bind_of_ok hpresent, bind_of_ok hread]
  cases Wire.checkConnack answer <;> rfl

theorem connect_unanswered (h : o.size ≤ connectCapacity) {e : LinkError}
    (hpresent : Wire.present o t = .ok () t1) (hread : readExact 4 t1 = .error e t2) :
    connect o t = .error e t2 := by
  unfold connect
  rw [Wire.handshake_fits h]
  simp only [bind_assoc]
  rw [bind_of_ok hpresent, bind_of_error hread]

/-- A client whose fields have room presents itself as one packet that says what it is to say, and
the four bytes that it reads next decide; without them the link has failed. One whose fields have no
room writes nothing. -/
theorem connect_presents (o : Options) (t : Transport) :
    (connectCapacity < o.size → connect o t = .error .packetTooLarge t) ∧
    (o.size ≤ connectCapacity → ∃ p : Packet, Connect.ofPacket? p = some o.presented ∧
      (t.Accepts p.bytes.length →
        let opened := outcome (connect o t)
        opened.2.sent = t.sent ++ p.bytes ∧
        ((∃ first second third last,
            arriving t.inbox = [first, second, third, last] ++ arriving opened.2.inbox ∧
            Opens first second last opened.2 opened.1) ∨
          ∃ e gone, opened.1 = .error e ∧ Lost e ∧ gone.length < 4 ∧
            arriving t.inbox = gone ++ arriving opened.2.inbox) ∧
        ∀ first second third last rs, t.Readable →
          InTime [first, second, third, last] (readings t.inbox) rs →
          Opens first second last opened.2 opened.1 ∧ readings opened.2.inbox = rs)) := by
  refine ⟨fun h => connect_large h t, fun h => ⟨o.packet h, o.ofPacket?_packet h, ?_⟩⟩
  intro accepts
  obtain ⟨t1, hpresent, hsent, -⟩ := Wire.present_sends h t 0 accepts
  have same := Wire.present_sameReads o t
  rw [hpresent] at same
  change Transport.SameReads t t1 at same
  refine ⟨?_, ?_, ?_⟩
  · rcases readExact_ends 4 t1 with ⟨answer, inbox, hread, -, -⟩ | ⟨e, inbox, gone, hread, -, -, -⟩
    · rw [connect_answered h hpresent hread]
      exact hsent
    · rw [connect_unanswered h hpresent hread]
      exact hsent
  · rw [← same.inbox]
    rcases readExact_ends 4 t1 with ⟨answer, inbox, hread, hlength, harrive⟩ |
      ⟨e, inbox, gone, hread, lost, hgone, harrive⟩
    · rw [connect_answered h hpresent hread]
      match answer, hlength with
      | [first, second, third, last], _ =>
        exact .inl ⟨first, second, third, last, harrive, opens_checkConnack ..⟩
    · rw [connect_unanswered h hpresent hread]
      exact .inr ⟨e, gone, rfl, lost, hgone, harrive⟩
  · intro first second third last rs ready intime
    rw [← same.inbox] at intime
    have ready1 : t1.Readable := ⟨same.closed.trans ready.opened, by
      rw [same.readLimit]
      exact ready.limit⟩
    obtain ⟨inbox, hread, hrs⟩ :=
      (readExact_reads [first, second, third, last]).inTime t1 rs ready1 intime
    change readExact 4 t1 = _ at hread
    rw [connect_answered h hpresent hread]
    exact ⟨opens_checkConnack .., hrs⟩

def visitor : Options where
  clientId := utf8 "c"
  keepAlive := 60
  cleanSession := true
  userName := some (utf8 "u")
  password := none

theorem visitor_admitted :
    (∃ p, Connect.ofPacket? p = some visitor.presented ∧
      (outcome (connect visitor (fed [0x20, 2, 1, 0]).transport)).2.sent = p.bytes) ∧
    ∃ c, (outcome (connect visitor (fed [0x20, 2, 1, 0]).transport)).1 = .ok c := by
  obtain ⟨-, hfits⟩ := connect_presents visitor (fed [0x20, 2, 1, 0]).transport
  obtain ⟨p, hread, hopened⟩ := hfits (by decide)
  obtain ⟨hsent, -, hanswer⟩ := hopened (fed_accepts _ _)
  obtain ⟨hopens, -⟩ := hanswer 0x20 2 1 0 [] ⟨rfl, nofun⟩ (.whole _ _)
  exact ⟨⟨p, hread, hsent⟩, _, (hopens.accepted _).2 ⟨⟨rfl, rfl, rfl⟩, rfl⟩⟩

end Client

end HubDevice.Mqtt
