import HubDevice.Topic.Outgoing

set_option autoImplicit false

/-!
# Lists and texts in the memory of the caller

A text is written piece by piece, and what was written before a piece that does not fit stays in
memory. A list takes a new pair in only by its length, once the whole pair stands behind it. A text
that stands at the front of the memory as a whole is told by its length.
-/
namespace HubDevice

namespace Buffer

/-- Appends chunks in order. Those before one that does not fit stay. -/
def put (chunks : List Bytes) : EStateM Error Buffer Unit := fun b =>
  match b.pushAll chunks with
  | (full, true) => .ok () full
  | (full, false) => .error .bufferTooSmall full

end Buffer

namespace Properties

def pieces (p : Properties) (name value : String) : List Bytes :=
  (if p.length = 0 then [] else [utf8 "&"]) ++ [utf8 name, utf8 "=", utf8 value]

def onMemory (p : Properties) (memory : Bytes) : Properties :=
  ⟨⟨memory.take p.length, memory.drop p.length⟩⟩

/-- Writes a pair behind the list and takes it in if it stands there as a whole. -/
def enter (name value : String) : EStateM Error Properties Unit := fun p =>
  if name.isEmpty || value.isEmpty then .error .invalidArgument p
  else
    match Buffer.put (p.pieces name value) p.buffer with
    | .ok _ full => .ok () ⟨full⟩
    | .error e full => .error e (p.onMemory full.contents)

def after (p : Properties) (pair : String × String) : Properties :=
  match enter pair.1 pair.2 p with
  | .ok _ next => next
  | .error _ same => same

def taken (p : Properties) : List (String × String) → List (String × String)
  | [] => []
  | pair :: calls =>
    match enter pair.1 pair.2 p with
    | .ok _ next => pair :: next.taken calls
    | .error _ same => same.taken calls

end Properties

inductive Draft where
  | clientId
  | userName
  | textToSign (expiry : UInt64)
  | password (signature : String) (expiry : UInt64) (keyName : Option String)
  | telemetry (properties : Option Properties) (component : Option String)
  | twinGet (requestId : String)
  | twinPatch (requestId : String)
  | response (requestId : String) (status : Status)

namespace Draft

def admissible : Draft → Bool
  | clientId => true
  | userName => true
  | textToSign _ => true
  | password signature _ _ => !signature.isEmpty
  | telemetry _ component => component ≠ some ""
  | twinGet requestId => !requestId.isEmpty
  | twinPatch requestId => !requestId.isEmpty
  | response requestId _ => !requestId.isEmpty

def chunks (i : Identity) : Draft → List Bytes
  | clientId => i.clientIdChunks
  | userName => i.userNameChunks
  | textToSign expiry => i.signatureChunks expiry
  | password signature expiry keyName => i.passwordChunks signature expiry keyName
  | telemetry properties component => Topic.telemetryChunks i properties component
  | twinGet requestId => [utf8 Topic.twinGetStem, utf8 requestId]
  | twinPatch requestId => [utf8 Topic.twinPatchStem, utf8 requestId]
  | response requestId status =>
    [utf8 "$iothub/methods/res/", status.digits, utf8 "/?$rid=", utf8 requestId]

def write (i : Identity) (d : Draft) : EStateM Error Bytes Nat := fun memory =>
  if d.admissible then
    match Buffer.put (d.chunks i) ⟨[], memory⟩ with
    | .ok _ full => .ok full.length full.contents
    | .error e full => .error e full.contents
  else .error .invalidArgument memory

def form (i : Identity) : Draft → Buffer → Except Error Buffer
  | clientId => i.clientId
  | userName => i.userName
  | textToSign expiry => i.textToSign expiry
  | password signature expiry keyName => i.password signature expiry keyName
  | telemetry properties component => Topic.telemetry i properties component
  | twinGet requestId => Topic.twinGet requestId
  | twinPatch requestId => Topic.twinPatch requestId
  | response requestId status => Topic.response requestId status

end Draft

structure Desk where
  list : Option Properties
  memory : Bytes

namespace Desk

def telemetry (i : Identity) (component : Option String) : EStateM Error Desk Nat := fun d =>
  match (Draft.telemetry d.list component).write i d.memory with
  | .ok n memory => .ok n { d with memory }
  | .error e memory => .error e { d with memory }

end Desk

end HubDevice
