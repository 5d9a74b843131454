import HubDevice.Error
import HubDevice.Text.Decimal
import HubDevice.Topic.Query
import HubDevice.Topic.Status

set_option autoImplicit false

namespace HubDevice.Topic

def methodFilter : String := "$iothub/methods/POST/#"

def twinResponseFilter : String := "$iothub/twin/res/#"

def twinPatchFilter : String := "$iothub/twin/PATCH/properties/desired/#"

def methodLead : List Char := "$iothub/methods/POST/".toList

def twinResponseLead : List Char := "$iothub/twin/res/".toList

def twinPatchLead : List Char := "$iothub/twin/PATCH/properties/desired/".toList

def requestKey : List Char := "$rid".toList

def versionKey : List Char := "$version".toList

structure MethodRequest where
  name : String
  requestId : String
  deriving DecidableEq, Repr

structure CommandRequest where
  component : Option String
  command : String
  requestId : String
  deriving DecidableEq, Repr

inductive TwinAnswer where
  /-- The whole twin document. -/
  | document
  /-- A patch of desired properties. -/
  | desired
  /-- The acknowledgement of a report. -/
  | reported
  deriving DecidableEq, Repr

structure TwinResponse where
  answer : TwinAnswer
  status : Status
  requestId : String
  version : Option UInt32
  deriving DecidableEq, Repr

def required (key query : List Char) : Option (List Char) :=
  (Query.value? key query).filter fun v => !v.isEmpty

def methodRequest? (topic : String) : Option MethodRequest := do
  let rest ← Split.after? methodLead topic.toList
  let (name, query) ← Split.cut? ['/', '?'] rest
  if name.isEmpty then none
  else
    let requestId ← required requestKey query
    return ⟨String.ofList name, String.ofList requestId⟩

def commandSeparator : Char := '*'

/-- Component and command are parted by the first separator, and neither is empty. -/
def commandRequest? (topic : String) : Option CommandRequest := do
  let method ← methodRequest? topic
  match Split.cut? [commandSeparator] method.name.toList with
  | none => return ⟨none, method.name, method.requestId⟩
  | some (component, command) =>
    if component.isEmpty || command.isEmpty then none
    else return ⟨some (String.ofList component), String.ofList command, method.requestId⟩

def version? (text : List Char) : Option UInt32 := (Decimal.read? UInt32.size text).map Nat.toUInt32

def twinAnswer? (rest : List Char) : Option TwinResponse := do
  let (code, query) ← Split.cut? ['/', '?'] rest
  let status : Status := ⟨(← Decimal.read? UInt16.size code).toUInt16⟩
  let requestId ← required requestKey query
  let version ← match Query.value? versionKey query with
    | none => some none
    | some text => (version? text).map some
  return {
    answer := if status = .noContent then .reported else .document
    status
    requestId := String.ofList requestId
    version }

/-- A patch names its version and nothing else. -/
def twinPatch? (rest : List Char) : Option TwinResponse := do
  let query ← Split.after? ['?'] rest
  let version ← (Query.value? versionKey query).bind version?
  return { answer := .desired, status := .ok, requestId := "", version := some version }

def twinResponse? (topic : String) : Option TwinResponse :=
  match Split.after? twinResponseLead topic.toList with
  | some rest => twinAnswer? rest
  | none => (Split.after? twinPatchLead topic.toList).bind twinPatch?

def orNoMatch {α : Type} (parsed : Option α) : Except Error α :=
  match parsed with
  | some a => .ok a
  | none => .error .topicNoMatch

def parseMethod (topic : String) : Except Error MethodRequest := orNoMatch (methodRequest? topic)

def parseCommand (topic : String) : Except Error CommandRequest := orNoMatch (commandRequest? topic)

def parseTwin (topic : String) : Except Error TwinResponse := orNoMatch (twinResponse? topic)

end HubDevice.Topic
