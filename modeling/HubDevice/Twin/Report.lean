import HubDevice.Json.Writer
import HubDevice.Topic.Status

set_option autoImplicit false

namespace HubDevice.Twin

def markerName : String := "__t"

def markerValue : String := "c"

def versionName : String := "$version"

def desiredName : String := "desired"

def reportedName : String := "reported"

def codeName : String := "ac"

def ackVersionName : String := "av"

def descriptionName : String := "ad"

def valueName : String := "value"

/-- Opens a component, whose name must not be empty, and marks it. -/
def beginComponent (component : String) : Writer.Action Unit := do
  if component.isEmpty then throw .invalidArgument
  Writer.name component
  Writer.beginObject
  Writer.name markerName
  Writer.string markerValue

def endComponent : Writer.Action Unit := Writer.endObject

structure Acknowledgement where
  component : Option String
  name : String
  status : Status
  version : UInt32
  description : Option String

def beginAcknowledgement (a : Acknowledgement) : Writer.Action Unit := do
  if a.name.isEmpty then throw .invalidArgument
  match a.component with
  | some component => beginComponent component
  | none => pure ()
  Writer.name a.name
  Writer.beginObject
  Writer.name codeName
  Writer.uint32 a.status.code.toUInt32
  Writer.name ackVersionName
  Writer.uint32 a.version
  match a.description with
  | some description =>
    Writer.name descriptionName
    Writer.string description
  | none => pure ()
  Writer.name valueName

def endAcknowledgement (component : Option String) : Writer.Action Unit := do
  Writer.endObject
  match component with
  | some _ => Writer.endObject
  | none => pure ()

end HubDevice.Twin
