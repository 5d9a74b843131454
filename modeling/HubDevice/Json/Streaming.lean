import HubDevice.Buffer
import HubDevice.Json.Cursor

set_option autoImplicit false

namespace HubDevice

abbrev Sink (σ : Type) := UInt8 → EStateM Error σ Unit

namespace StringBody

def stream {σ : Type} (sink : Sink σ) (s : Bytes) : EStateM Error σ Unit :=
  match s with
  | [] => pure ()
  | b :: rest =>
    if b = backslash then
      match escape? rest with
      | none => throw (.json .invalidEscape)
      | some (out, n) => do
        forM out sink
        stream sink (rest.drop n)
    else do
      sink b
      stream sink rest
termination_by s.length

end StringBody

namespace Cursor

def isString (c : Cursor) : Bool := c.kind = .name || c.kind = .string

/-- Goes along the expected bytes as long as the same ones come. -/
def matching (expected : Bytes) : Sink Nat := fun b position =>
  if expected[position]? = some b then .ok () (position + 1) else .error .itemNotFound position

def isText (c : Cursor) (t : String) : Bool :=
  if !c.isString then false
  else if !c.escaped then c.slice = utf8 t
  else
    match StringBody.stream (matching (utf8 t)) c.slice 0 with
    | .ok () position => position = (utf8 t).length
    | .error _ _ => false

def store : Sink Buffer := fun b buffer =>
  match buffer.push? [b] with
  | some buffer => .ok () buffer
  | none => .error .bufferTooSmall buffer

def text (c : Cursor) (memory : Bytes) : Except Error String :=
  if !c.isString then .error (.json .unexpectedToken)
  else
    match StringBody.stream store c.slice ⟨[], memory⟩ with
    | .error e _ => .error e
    | .ok () buffer =>
      match text? buffer.written with
      | some t => .ok t
      | none => .error (.json .invalidUtf8)

end Cursor

end HubDevice
