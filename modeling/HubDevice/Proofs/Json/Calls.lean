import HubDevice.Twin.Report

set_option autoImplicit false

namespace HubDevice.Writer

inductive Primitive where
  | opening (c : Container)
  | closing (c : Container)
  | name (s : String)
  | string (s : String)
  | int32 (n : Int32)
  | uint32 (n : UInt32)
  | float (x : Float) (places : Nat)
  | bool (b : Bool)
  | null
  | raw (json : Bytes)
  | datum (d : Datum)

def Primitive.action : Primitive → Action Unit
  | opening c => beginContainer c
  | closing c => endContainer c
  | name s => Writer.name s
  | string s => Writer.string s
  | int32 n => Writer.int32 n
  | uint32 n => Writer.uint32 n
  | float x places => Writer.float x places
  | bool b => Writer.bool b
  | null => Writer.null
  | raw json => Writer.raw json
  | datum d => Writer.datum d

inductive Call where
  | primitive (p : Primitive)
  | beginComponent (component : String)
  | endComponent
  | beginAcknowledgement (a : Twin.Acknowledgement)
  | endAcknowledgement (component : Option String)

def Call.action : Call → Action Unit
  | primitive p => p.action
  | beginComponent component => Twin.beginComponent component
  | endComponent => Twin.endComponent
  | beginAcknowledgement a => Twin.beginAcknowledgement a
  | endAcknowledgement component => Twin.endAcknowledgement component

def separatorAt (place : Place) : List Bytes := if place = .value then [[','.toUInt8]] else []

def floatChunks (x : Float) (places : Nat) : List Bytes :=
  (Binary.ofFloat? x).toList.map fun b => numberText x b places

def Primitive.chunks (place : Place) : Primitive → List Bytes
  | opening c => separatorAt place ++ [[c.opening]]
  | closing c => [[c.closing]]
  | name s => separatorAt place ++ (StringBody.quoted s ++ [[':'.toUInt8]])
  | string s => separatorAt place ++ StringBody.quoted s
  | int32 n =>
    separatorAt place ++
      ((if n < 0 then [['-'.toUInt8]] else []) ++ [Decimal.digits n.toInt.natAbs])
  | uint32 n => separatorAt place ++ [Decimal.digits n.toNat]
  | float x places => separatorAt place ++ floatChunks x places
  | bool b => separatorAt place ++ [utf8 (if b then "true" else "false")]
  | null => separatorAt place ++ [utf8 "null"]
  | raw json => separatorAt place ++ [json]
  | datum d => separatorAt place ++ [d.render]

def Primitive.text? : Primitive → Option String
  | name s => some s
  | string s => some s
  | _ => none

def componentParts (component : String) : List Primitive :=
  [.name component, .opening .object, .name Twin.markerName, .string Twin.markerValue]

/-- The primitives that a call makes, as far as none of them fails. -/
def Call.parts : Call → List Primitive
  | primitive p => [p]
  | beginComponent component => componentParts component
  | endComponent => [.closing .object]
  | beginAcknowledgement a =>
    a.component.elim [] componentParts ++
      [.name a.name, .opening .object, .name Twin.codeName, .uint32 a.status.code.toUInt32,
        .name Twin.ackVersionName, .uint32 a.version] ++
      a.description.elim [] (fun text => [.name Twin.descriptionName, .string text]) ++
      [.name Twin.valueName]
  | endAcknowledgement component =>
    .closing .object :: component.elim [] fun _ => [.closing .object]

def ends (action : Action Unit) (w : Writer) : Except Error Unit × Writer :=
  match action w with
  | .ok _ w' => (.ok (), w')
  | .error e w' => (.error e, w')

structure Seen where
  result : Except Error Unit
  /-- The bytes written so far. -/
  bytes : Bytes

def seen : List Call → Writer → List Seen
  | [], _ => []
  | call :: calls, w =>
    ⟨(ends call.action w).1, (ends call.action w).2.bytes⟩ :: seen calls (ends call.action w).2

def final (text : Bytes) : List Seen → Bytes
  | [] => text
  | m :: more => final m.bytes more

def onMemory (memory : Bytes) : Writer := ofBuffer ⟨[], memory⟩

/-- What is seen over every memory that is large enough. -/
def Unlimited (calls : List Call) (full : List Seen) : Prop :=
  ∃ room, ∀ memory : Bytes, room ≤ memory.length → seen calls (onMemory memory) = full

theorem ends_bind (first : Action Unit) (second : Unit → Action Unit) (w : Writer) :
    ends (first >>= second) w =
      match ends first w with
      | (.ok _, w') => ends (second ()) w'
      | (.error e, w') => (.error e, w') := by
  change ends (EStateM.bind first second) w = _
  unfold ends EStateM.bind
  cases first w <;> rfl

theorem ends_eq_error {action : Action Unit} {w w' : Writer} {e : Error}
    (h : action w = .error e w') : ends action w = (.error e, w') := by
  rw [ends, h]

/-- Actions put together from these primitives and refusals. -/
inductive Composed (allowed : Primitive → Prop) : Action Unit → Prop where
  | primitive {p : Primitive} (h : allowed p) : Composed allowed p.action
  | done : Composed allowed (pure ())
  | refused : Composed allowed (throw .invalidArgument)
  | sequence {first : Action Unit} {second : Unit → Action Unit} (h : Composed allowed first)
    (h' : Composed allowed (second ())) : Composed allowed (first >>= second)

namespace Composed

variable {allowed : Primitive → Prop}

theorem checked {refuses : Bool} {rest : Action Unit} (h : Composed allowed rest) :
    Composed allowed (if refuses then (do throw .invalidArgument; rest) else rest) := by
  split
  · exact .sequence .refused h
  · exact h

theorem beginComponent {component : String} (h : ∀ p ∈ componentParts component, allowed p) :
    Composed allowed (Twin.beginComponent component) := by
  simp only [componentParts, List.forall_mem_cons] at h
  obtain ⟨hname, hopening, hmarker, hvalue, -⟩ := h
  exact .checked <| .sequence (.primitive hname) <| .sequence (.primitive hopening) <|
    .sequence (.primitive hmarker) (.primitive hvalue)

theorem beginAcknowledgement {a : Twin.Acknowledgement}
    (h : ∀ p ∈ (Call.beginAcknowledgement a).parts, allowed p) :
    Composed allowed (Twin.beginAcknowledgement a) := by
  obtain ⟨component, name, status, version, description⟩ := a
  simp only [Call.parts, List.forall_mem_append, List.forall_mem_cons] at h
  obtain ⟨⟨⟨hcomponent, hname, hopening, hcode, hstatus, hversion, hnumber, -⟩, hdescription⟩,
    hvalue, -⟩ := h
  have hmembers {rest : Action Unit} (hrest : Composed allowed rest) : Composed allowed (do
      Writer.name name
      beginObject
      Writer.name Twin.codeName
      uint32 status.code.toUInt32
      Writer.name Twin.ackVersionName
      uint32 version
      rest) :=
    .sequence (.primitive hname) <| .sequence (.primitive hopening) <|
      .sequence (.primitive hcode) <| .sequence (.primitive hstatus) <|
      .sequence (.primitive hversion) <| .sequence (.primitive hnumber) hrest
  have hlast : Composed allowed (Writer.name Twin.valueName) := .primitive hvalue
  have hdescribed (text : String) (htext : description = some text) : Composed allowed (do
      Writer.name Twin.descriptionName
      Writer.string text
      Writer.name Twin.valueName) := by
    rw [htext] at hdescription
    obtain ⟨hlead, hrest⟩ := List.forall_mem_cons.1 hdescription
    have hstring := hrest (.string text) List.mem_cons_self
    exact .sequence (.primitive hlead) (.sequence (.primitive hstring) hlast)
  refine .checked ?_
  cases component with
  | none =>
    cases description with
    | none => exact hmembers hlast
    | some text => exact hmembers (hdescribed text rfl)
  | some component =>
    refine .sequence (.beginComponent hcomponent) ?_
    cases description with
    | none => exact hmembers hlast
    | some text => exact hmembers (hdescribed text rfl)

theorem endAcknowledgement (component : Option String)
    (h : ∀ p ∈ (Call.endAcknowledgement component).parts, allowed p) :
    Composed allowed (Twin.endAcknowledgement component) := by
  obtain ⟨hinner, houter⟩ := List.forall_mem_cons.1 h
  refine .sequence (.primitive hinner) ?_
  cases component with
  | none => exact .done
  | some _ => exact .primitive (houter _ List.mem_cons_self)

theorem call (call : Call) : Composed (· ∈ call.parts) call.action := by
  cases call with
  | primitive p => exact .primitive List.mem_cons_self
  | beginComponent component => exact .beginComponent fun _ h => h
  | endComponent => exact .primitive (p := .closing .object) List.mem_cons_self
  | beginAcknowledgement a => exact .beginAcknowledgement fun _ h => h
  | endAcknowledgement component => exact .endAcknowledgement component fun _ h => h

end Composed

end HubDevice.Writer
