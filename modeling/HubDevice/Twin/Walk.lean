import HubDevice.Json.Reader
import HubDevice.Twin.Report

set_option autoImplicit false

/-!
# Walking a twin document

A payload is the whole twin, with a section of desired and one of reported properties, or a patch of
desired properties. The walk yields the members of a section in order and tags those that stand in
the object of a registered component. The version and the component marks are left out. A walk that
ends has read the document to its end.
-/
namespace HubDevice.Twin

inductive Payload where
  | document
  | patch
  deriving DecidableEq, Repr

inductive Part where
  | desired
  | reported
  deriving DecidableEq, Repr

def Part.name : Part → String
  | .desired => desiredName
  | .reported => reportedName

structure Property where
  component : Option String
  name : Token
  /-- The first token of the value. -/
  value : Token
  /-- The bytes of the value. -/
  raw : Bytes
  deriving DecidableEq, Repr

def Property.reader (p : Property) : Reader := .ofBytes p.raw

abbrev Read (α : Type) := Except Error (α × Reader)

def read (action : EStateM JsonError Reader Unit) (r : Reader) : Except Error Reader :=
  match action r with
  | .ok _ r' => .ok r'
  | .error e _ => .error (.json e)

theorem length_read_next {r r' : Reader} (h : read Reader.next r = .ok r') :
    r'.rest.length < r.rest.length := by
  unfold read at h
  split at h
  · next hnext =>
    cases h
    exact Reader.length_next hnext
  · cases h

theorem length_read_skipValue {r r' : Reader} (h : read Reader.skipValue r = .ok r') :
    r'.rest.length ≤ r.rest.length := by
  unfold read at h
  split at h
  · next hskip =>
    cases h
    exact Reader.length_skipValue hskip
  · cases h

/-- Moves on in an object to the first member whose name is wanted, or to the end of the object; the
flag tells which. -/
def seekMember (wanted : Token → Bool) (r : Reader) : Read Bool :=
  match _hnext : read Reader.next r with
  | .error e => .error e
  | .ok r' =>
    if r'.token.isName then
      if wanted r'.token then .ok (true, r')
      else
        match _hskip : read Reader.skipValue r' with
        | .error e => .error e
        | .ok r'' => seekMember wanted r''
    else if r'.token = .closed .object then .ok (false, r')
    else .error (.json .unexpectedToken)
termination_by r.rest.length
decreasing_by exact Nat.lt_of_le_of_lt (length_read_skipValue _hskip) (length_read_next _hnext)

def enterObject (r : Reader) : Except Error Reader := do
  let r ← read Reader.next r
  if r.token = .opened .object then .ok r else .error (.json .unexpectedToken)

def scanVersion (r : Reader) : Except Error (Option UInt32) := do
  let (found, r) ← seekMember (·.isText versionName) r
  if found then
    let r ← read Reader.next r
    some <$> r.token.uint32
  else return none

/-- From inside the root object into the object of a section. A patch is the section itself. -/
def enterPart (payload : Payload) (part : Part) (r : Reader) : Except Error Reader :=
  match payload with
  | .patch => .ok r
  | .document => do
    let (found, r) ← seekMember (·.isText part.name) r
    if found then enterObject r
    else
      let _ ← read Reader.finish r
      .error .itemNotFound

def openPart (json : Bytes) (payload : Payload) (part : Part) :
    Except Error (Reader × Option UInt32) := do
  let r ← enterObject (.ofBytes json)
  let r ← enterPart payload part r
  let version ← scanVersion r
  return (r, version)

inductive Progress where
  | walking
  | done
  | failed (e : Error)
  deriving DecidableEq, Repr

structure Walk where
  json : Bytes
  payload : Payload
  part : Part
  /-- The names of the registered components. -/
  components : List String
  reader : Reader
  /-- The component whose object the reader is in. -/
  component : Option String
  version : Option UInt32
  progress : Progress
  deriving Repr

namespace Walk

def openAt (json : Bytes) (payload : Payload) (part : Part) (components : List String) :
    Except Error Walk := do
  let (reader, version) ← openPart json payload part
  return {
    json, payload, part, components, reader, version
    component := none
    progress := .walking }

def start (json : Bytes) (payload : Payload) (components : List String) : Except Error Walk :=
  openAt json payload .desired components

/-- A fresh walk over a section of the same payload; a patch has no reported one. -/
def restart (w : Walk) (part : Part) : Except Error Walk :=
  if w.payload = .patch && part = .reported then .error .invalidArgument
  else openAt w.json w.payload part w.components

def registered? (components : List String) (name : Token) : Option String :=
  components.find? name.isText

/-- The name of members that are left out: the version beside components, the mark inside one. -/
def reserved (component : Option String) : String :=
  match component with
  | none => versionName
  | some _ => markerName

/-- Behind a section the members that follow it are read over, and nothing may follow the root. -/
def close (payload : Payload) (r : Reader) : Except Error Reader := do
  let r ← match payload with
    | .patch => pure r
    | .document => Prod.snd <$> seekMember (fun _ => false) r
  read Reader.finish r

inductive Found where
  | property (p : Property)
  | finished

def advance (payload : Payload) (components : List String) (component : Option String)
    (r : Reader) : Except Error (Found × Option String × Reader) :=
  match _hnext : read Reader.next r with
  | .error e => .error e
  | .ok atName =>
    if atName.token = .closed .object then
      match component with
      | some _ => advance payload components none atName
      | none => (close payload atName).map fun r => (.finished, none, r)
    else if !atName.token.isName then .error (.json .unexpectedToken)
    else if atName.token.isText (reserved component) then
      match _hskip : read Reader.skipValue atName with
      | .error e => .error e
      | .ok r => advance payload components component r
    else
      match _hvalue : read Reader.next atName with
      | .error e => .error e
      | .ok atValue =>
        let entered :=
          if component.isNone && atValue.token = .opened .object then
            registered? components atName.token
          else none
        match entered with
        | some c => advance payload components (some c) atValue
        | none =>
          match read Reader.skipValue atValue with
          | .error e => .error e
          | .ok r =>
            let property := {
              component
              name := atName.token
              value := atValue.token
              raw := Reader.between atValue r }
            .ok (.property property, component, r)
termination_by r.rest.length
decreasing_by
  · exact length_read_next _hnext
  · exact Nat.lt_of_le_of_lt (length_read_skipValue _hskip) (length_read_next _hnext)
  · exact Nat.lt_trans (length_read_next _hvalue) (length_read_next _hnext)

/-- The next property, or none at the end. A failure is kept and given again. -/
def next (w : Walk) : Except Error (Option Property) × Walk :=
  match w.progress with
  | .done => (.ok none, w)
  | .failed e => (.error e, w)
  | .walking =>
    match advance w.payload w.components w.component w.reader with
    | .error e => (.error e, { w with progress := .failed e })
    | .ok (.finished, component, reader) =>
      (.ok none, { w with component, reader, progress := .done })
    | .ok (.property p, component, reader) => (.ok (some p), { w with component, reader })

theorem length_advance {payload : Payload} {components : List String}
    {component component' : Option String} {r r' : Reader} {p : Property}
    (h : advance payload components component r = .ok (.property p, component', r')) :
    r'.rest.length < r.rest.length := by
  fun_induction advance payload components component r with
  | case1 => simp at h
  | case2 _ _ hnext _ _ ih => exact Nat.lt_trans (ih h) (length_read_next hnext)
  | case3 r atName hnext _ =>
    cases hc : close payload atName <;> simp [hc, Except.map] at h
  | case4 => simp at h
  | case5 => simp at h
  | case6 _ _ _ hnext _ _ _ _ hskip ih =>
    exact Nat.lt_trans (ih h)
      (Nat.lt_of_le_of_lt (length_read_skipValue hskip) (length_read_next hnext))
  | case7 => simp at h
  | case8 _ _ _ hnext _ _ _ _ hvalue _ _ _ ih =>
    exact Nat.lt_trans (ih h) (Nat.lt_trans (length_read_next hvalue) (length_read_next hnext))
  | case9 => simp at h
  | case10 _ _ _ hnext _ _ _ _ hvalue _ _ _ hskip =>
    simp only [Except.ok.injEq, Prod.mk.injEq] at h
    rw [← h.2.2]
    exact Nat.lt_of_le_of_lt (length_read_skipValue hskip)
      (Nat.lt_trans (length_read_next hvalue) (length_read_next hnext))

theorem length_next {w w' : Walk} {p : Property} (h : w.next = (.ok (some p), w')) :
    w'.reader.rest.length < w.reader.rest.length := by
  unfold next at h
  split at h
  · simp at h
  · simp at h
  · split at h
    · simp at h
    · simp at h
    · next hadvance =>
      simp only [Prod.mk.injEq, Except.ok.injEq, Option.some.injEq] at h
      rw [← h.2]
      exact length_advance hadvance

/-- The properties still to come, and the walk behind the last of them: done, or failed. -/
def collect (w : Walk) : List Property × Walk :=
  match _h : w.next with
  | (.ok (some p), w') =>
    let more := collect w'
    (p :: more.1, more.2)
  | (_, w') => ([], w')
termination_by w.reader.rest.length
decreasing_by exact length_next _h

end Walk

end HubDevice.Twin
