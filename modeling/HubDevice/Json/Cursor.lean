import HubDevice.Json.Reader

set_option autoImplicit false

/-!
# A JSON reader in a few words of memory

A cursor knows places in the document in place of what is unread, and of the open containers only
their number and one bit for each in a word. It counts, shifts and slices as a machine does: where a
count would fall below zero, a shift pass the word or a slice leave the document, the call ends in a
fault. Otherwise it moves as a reader does.
-/
namespace HubDevice

inductive Kind where
  | start
  | opened (c : Container)
  | closed (c : Container)
  | name
  | string
  | number
  | bool (b : Bool)
  | null
  deriving DecidableEq, Repr

def Token.kind : Token → Kind
  | start => .start
  | opened c => .opened c
  | closed c => .closed c
  | name _ => .name
  | string _ => .string
  | number _ => .number
  | bool b => .bool b
  | null => .null

def hasEscape (body : Bytes) : Bool := body.contains StringBody.backslash

def Token.escaped (token : Token) : Bool := token.body?.any hasEscape

def Kind.isClosed : Kind → Bool
  | closed _ => true
  | _ => false

/-- What a machine does not let pass. -/
inductive Fault where
  /-- A count below zero. -/
  | underflow
  /-- A shift by all bits of a word or more. -/
  | shift
  /-- A slice that is not in the document. -/
  | slice
  deriving DecidableEq, Repr

inductive Stop where
  | refused (cause : JsonError)
  | fault (fault : Fault)
  deriving DecidableEq, Repr

structure Cursor where
  document : Bytes
  position : Nat := 0
  kind : Kind := .start
  /-- The bytes of the current token, without the quotes of a string. -/
  slice : Bytes := []
  /-- The current token is a string or name with escapes. -/
  escaped : Bool := false
  /-- The place of the current token. -/
  start : Nat := 0
  /-- Bit `n` is set if the container at depth `n + 1` is an object. -/
  containers : UInt64 := 0
  depth : Nat := 0
  deriving Repr

namespace Cursor

abbrev Action := EStateM Stop Cursor Unit

def ofBytes (document : Bytes) : Cursor := { document }

def unread (c : Cursor) : Bytes := c.document.drop c.position

def refuse (cause : JsonError) : Action := fun c => .error (.refused cause) c

def fail (fault : Fault) : Action := fun c => .error (.fault fault) c

def move (n : Nat) (c : Cursor) : Cursor := { c with position := c.position + n }

def skipSpace (c : Cursor) : Cursor := c.move (c.unread.takeWhile Reader.isSpace).length

def peek? (c : Cursor) : Option UInt8 := c.document[c.position]?

def cut? (c : Cursor) (first last : Nat) : Option Bytes :=
  if first ≤ last ∧ last ≤ c.document.length then
    some ((c.document.drop first).take (last - first))
  else none

def mask? (level : Nat) : Option UInt64 :=
  if level < 64 then some (1 <<< UInt64.ofNat level) else none

def setToken (kind : Kind) (first last : Nat) : Action := fun c =>
  match c.cut? first last with
  | none => fail .slice c
  | some slice => .ok () { c with kind, slice, escaped := false, start := first }

def note (containers mask : UInt64) : Container → UInt64
  | .object => containers ||| mask
  | .array => containers &&& ~~~mask

def beginContainer (k : Container) : Action := fun c =>
  if maxNesting ≤ c.depth then refuse .depthExceeded c
  else
    match mask? c.depth with
    | none => fail .shift c
    | some mask =>
      setToken (.opened k) c.position (c.position + 1) { c with
        containers := note c.containers mask k
        depth := c.depth + 1
        position := c.position + 1 }

def endContainer (k : Container) : Action := fun c =>
  match c.depth with
  | 0 => fail .underflow c
  | below + 1 =>
    setToken (.closed k) c.position (c.position + 1)
      { c with depth := below, position := c.position + 1 }

def readString (kind : Kind) : Action := fun c =>
  let first := c.position + 1
  match StringBody.bodyLength (c.document.drop first) with
  | .error cause => refuse cause c
  | .ok n =>
    match c.cut? first (first + n) with
    | none => fail .slice c
    | some slice =>
      if (text? slice).isSome then
        .ok () { c with
          kind, slice
          escaped := hasEscape slice
          start := c.position
          position := first + n + 1 }
      else refuse .invalidUtf8 c

def readLiteral (word : Bytes) (kind : Kind) : Action := fun c =>
  match c.cut? c.position c.document.length with
  | none => fail .slice c
  | some rest =>
    if word.isPrefixOf rest then
      setToken kind c.position (c.position + word.length) (c.move word.length)
    else if rest.isPrefixOf word then refuse .unexpectedEnd c
    else refuse .unexpectedChar c

def readNumber : Action := fun c =>
  match Numeral.scan c.unread with
  | .error cause => refuse cause c
  | .ok (_, rest) =>
    let last := c.document.length - rest.length
    setToken .number c.position last { c with position := last }

def readScalar (b : UInt8) : Action :=
  if b = StringBody.quote then readString .string
  else if b = 't'.toUInt8 then readLiteral (utf8 "true") (.bool true)
  else if b = 'f'.toUInt8 then readLiteral (utf8 "false") (.bool false)
  else if b = 'n'.toUInt8 then readLiteral (utf8 "null") .null
  else if b = '-'.toUInt8 || isDigit b then readNumber
  else refuse .unexpectedChar

def readValue : Action := fun c =>
  match c.peek? with
  | none => refuse .unexpectedEnd c
  | some b =>
    match Reader.opening? b with
    | some k => beginContainer k c
    | none => readScalar b c

def readName : Action := fun c =>
  match c.peek? with
  | none => refuse .unexpectedEnd c
  | some b => if b = StringBody.quote then readString .name c else refuse .unexpectedChar c

def readItem : Container → Action
  | .object => readName
  | .array => readValue

/-- The innermost container that the word has noted, or nothing if the shift to its bit fails. -/
def innermost? (c : Cursor) (below : Nat) : Option Container :=
  (mask? below).map fun mask => if c.containers &&& mask ≠ 0 then .object else .array

def afterValue : Action := fun c =>
  match c.depth with
  | 0 =>
    if c.position = c.document.length then refuse .readerDone c else refuse .trailingCharacters c
  | below + 1 =>
    match c.innermost? below with
    | none => fail .shift c
    | some k =>
      match c.peek? with
      | none => refuse .unexpectedEnd c
      | some b =>
        if b = ','.toUInt8 then readItem k (c.move 1).skipSpace
        else if b = k.closing then endContainer k c
        else refuse .unexpectedChar c

def step : Action := fun c =>
  match c.kind with
  | .start => readValue c
  | .opened k =>
    match c.peek? with
    | none => refuse .unexpectedEnd c
    | some b => if b = k.closing then endContainer k c else readItem k c
  | .name =>
    match c.peek? with
    | none => refuse .unexpectedEnd c
    | some b =>
      if b = ':'.toUInt8 then readValue (c.move 1).skipSpace else refuse .unexpectedChar c
  | _ => afterValue c

def next : Action := fun c => step c.skipSpace

def finish : Action := fun c =>
  if c.depth ≠ 0 || c.kind = .start then refuse .unexpectedEnd c
  else if c.skipSpace.position = c.document.length then .ok () c.skipSpace
  else refuse .trailingCharacters c.skipSpace

structure Advances (c c' : Cursor) : Prop where
  document : c'.document = c.document
  inside : c.position < c.document.length
  position : c.position < c'.position

theorem Advances.of_le {c d c' : Cursor} (h : Advances d c') (document : d.document = c.document)
    (position : c.position ≤ d.position) : Advances c c' where
  document := h.document.trans document
  inside := by
    have := h.inside
    rw [document] at this
    omega
  position := Nat.lt_of_le_of_lt position h.position

theorem inside_of_peek? {c : Cursor} {b : UInt8} (h : c.peek? = some b) :
    c.position < c.document.length :=
  (List.getElem?_eq_some_iff.1 h).1

theorem setToken_ok {kind : Kind} {first last : Nat} {c c' : Cursor} {u : Unit}
    (h : setToken kind first last c = .ok u c') :
    c'.document = c.document ∧ c'.position = c.position := by
  unfold setToken at h
  split at h
  · cases h
  · cases h
    exact ⟨rfl, rfl⟩

variable {c c' : Cursor} {u : Unit}

theorem advances_beginContainer {k : Container} (inside : c.position < c.document.length)
    (h : beginContainer k c = .ok u c') : Advances c c' := by
  unfold beginContainer at h
  split at h
  · cases h
  · split at h
    · cases h
    · obtain ⟨document, position⟩ := setToken_ok h
      exact ⟨document, inside, position ▸ Nat.lt_succ_self _⟩

theorem advances_endContainer {k : Container} (inside : c.position < c.document.length)
    (h : endContainer k c = .ok u c') : Advances c c' := by
  unfold endContainer at h
  split at h
  · cases h
  · obtain ⟨document, position⟩ := setToken_ok h
    exact ⟨document, inside, position ▸ Nat.lt_succ_self _⟩

theorem advances_readString {kind : Kind} (inside : c.position < c.document.length)
    (h : readString kind c = .ok u c') : Advances c c' := by
  unfold readString at h
  dsimp only at h
  split at h
  · cases h
  · split at h
    · cases h
    · split at h
      · cases h
        exact ⟨rfl, inside, by dsimp only; omega⟩
      · cases h

theorem advances_readLiteral {word : Bytes} {kind : Kind} (hword : word ≠ [])
    (inside : c.position < c.document.length) (h : readLiteral word kind c = .ok u c') :
    Advances c c' := by
  unfold readLiteral at h
  split at h
  · cases h
  · split at h
    · obtain ⟨document, position⟩ := setToken_ok h
      have := List.length_pos_iff.2 hword
      exact ⟨document, inside, by rw [position, move]; dsimp only; omega⟩
    · split at h <;> cases h

theorem advances_readNumber (inside : c.position < c.document.length)
    (h : readNumber c = .ok u c') : Advances c c' := by
  unfold readNumber at h
  split at h
  · cases h
  · next hscan =>
    have hshorter := Numeral.length_scan hscan
    rw [unread, List.length_drop] at hshorter
    obtain ⟨document, position⟩ := setToken_ok h
    exact ⟨document, inside, by rw [position]; dsimp only; omega⟩

theorem advances_readScalar {b : UInt8} (inside : c.position < c.document.length)
    (h : readScalar b c = .ok u c') : Advances c c' := by
  unfold readScalar at h
  split at h
  · exact advances_readString inside h
  · split at h
    · exact advances_readLiteral (by decide) inside h
    · split at h
      · exact advances_readLiteral (by decide) inside h
      · split at h
        · exact advances_readLiteral (by decide) inside h
        · split at h
          · exact advances_readNumber inside h
          · cases h

theorem advances_readValue (h : readValue c = .ok u c') : Advances c c' := by
  unfold readValue at h
  split at h
  · cases h
  · next hpeek =>
    split at h
    · exact advances_beginContainer (inside_of_peek? hpeek) h
    · exact advances_readScalar (inside_of_peek? hpeek) h

theorem advances_readName (h : readName c = .ok u c') : Advances c c' := by
  unfold readName at h
  split at h
  · cases h
  · next hpeek =>
    split at h
    · exact advances_readString (inside_of_peek? hpeek) h
    · cases h

theorem advances_readItem {k : Container} (h : readItem k c = .ok u c') : Advances c c' := by
  cases k with
  | object => exact advances_readName h
  | array => exact advances_readValue h

theorem position_behind (c : Cursor) : c.position ≤ (c.move 1).skipSpace.position := by
  simp only [skipSpace, move]
  omega

theorem advances_afterValue (h : afterValue c = .ok u c') : Advances c c' := by
  unfold afterValue at h
  split at h
  · split at h <;> cases h
  · split at h
    · cases h
    · split at h
      · cases h
      · next hpeek =>
        split at h
        · exact (advances_readItem h).of_le rfl (position_behind c)
        · split at h
          · exact advances_endContainer (inside_of_peek? hpeek) h
          · cases h

theorem advances_step (h : step c = .ok u c') : Advances c c' := by
  unfold step at h
  split at h
  · exact advances_readValue h
  · split at h
    · cases h
    · next hpeek =>
      split at h
      · exact advances_endContainer (inside_of_peek? hpeek) h
      · exact advances_readItem h
  · split at h
    · cases h
    · split at h
      · exact (advances_readValue h).of_le rfl (position_behind c)
      · cases h
  · exact advances_afterValue h

theorem advances_next (h : next c = .ok u c') : Advances c c' :=
  (advances_step h).of_le rfl (Nat.le_add_right _ _)

/-- Moves on until a closing bracket leaves `target` containers open. -/
def leave (target : Nat) (c : Cursor) : EStateM.Result Stop Cursor Unit :=
  match _h : next c with
  | .error e c' => .error e c'
  | .ok () c' => if c'.kind.isClosed && c'.depth = target then .ok () c' else leave target c'
termination_by c.document.length - c.position
decreasing_by
  have h := advances_next _h
  have := h.inside
  have := h.position
  rw [h.document]
  omega

/-- From an opening bracket to the closing one; other tokens stay. -/
def skipOpened : Action := fun c =>
  match c.kind with
  | .opened _ =>
    match c.depth with
    | 0 => fail .underflow c
    | target + 1 => leave target c
  | _ => .ok () c

/-- Moves over the value at hand; from a name first to its value. -/
def skipValue : Action := fun c =>
  if c.kind = .name then
    match next c with
    | .error e c' => .error e c'
    | .ok () c' => skipOpened c'
  else skipOpened c

end Cursor

end HubDevice
