import HubDevice.Topic.Identity
import HubDevice.Topic.Properties
import HubDevice.Topic.Status

set_option autoImplicit false

namespace HubDevice.Topic

def capacity : Nat := 256

def componentProperty : String := "$.sub"

def telemetryChunks (i : Identity) (properties : Option Properties) (component : Option String) :
    List Bytes :=
  let listed := properties.filter fun p => !p.isEmpty
  [utf8 "devices/", utf8 i.deviceId] ++
    (Identity.optional i.moduleId fun m => [utf8 "/modules/", utf8 m]) ++
    [utf8 "/messages/events/"] ++
    (Identity.optional (listed.map Properties.text) fun t => [utf8 t]) ++
    Identity.optional component fun c =>
      (if listed.isSome then [utf8 "&"] else []) ++ [utf8 componentProperty, utf8 "=", utf8 c]

def telemetry (i : Identity) (properties : Option Properties) (component : Option String)
    (b : Buffer) : Except Error Buffer :=
  if component = some "" then .error .invalidArgument
  else b.fill (telemetryChunks i properties component)

def twinGetStem : String := "$iothub/twin/GET/?$rid="

def twinPatchStem : String := "$iothub/twin/PATCH/properties/reported/?$rid="

def request (stem requestId : String) (b : Buffer) : Except Error Buffer :=
  if requestId.isEmpty then .error .invalidArgument else b.fill [utf8 stem, utf8 requestId]

def twinGet (requestId : String) (b : Buffer) : Except Error Buffer :=
  request twinGetStem requestId b

def twinPatch (requestId : String) (b : Buffer) : Except Error Buffer :=
  request twinPatchStem requestId b

def response (requestId : String) (status : Status) (b : Buffer) : Except Error Buffer :=
  if requestId.isEmpty then .error .invalidArgument
  else b.fill [utf8 "$iothub/methods/res/", status.digits, utf8 "/?$rid=", utf8 requestId]

end HubDevice.Topic
