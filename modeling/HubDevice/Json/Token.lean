import HubDevice.Json.Numeral
import HubDevice.Json.StringBody

set_option autoImplicit false

namespace HubDevice

inductive Container where
  | object
  | array
  deriving DecidableEq, Repr

namespace Container

def opening : Container → UInt8
  | object => '\x7b'.toUInt8
  | array => '['.toUInt8

def closing : Container → UInt8
  | object => '\x7d'.toUInt8
  | array => ']'.toUInt8

end Container

inductive Token where
  /-- Nothing has been read yet. -/
  | start
  | opened (c : Container)
  | closed (c : Container)
  /-- A string in the place of a member name. -/
  | name (body : Bytes)
  | string (body : Bytes)
  | number (n : Numeral)
  | bool (b : Bool)
  | null
  deriving DecidableEq, Repr

namespace Token

def slice : Token → Bytes
  | start => []
  | opened c => [c.opening]
  | closed c => [c.closing]
  | name body => body
  | string body => body
  | number n => n.text
  | bool true => utf8 "true"
  | bool false => utf8 "false"
  | null => utf8 "null"

def body? : Token → Option Bytes
  | name body => some body
  | string body => some body
  | _ => none

def isName : Token → Bool
  | name _ => true
  | _ => false

def isClosed : Token → Bool
  | closed _ => true
  | _ => false

def isText (token : Token) (t : String) : Bool :=
  match token.body? with
  | some body => StringBody.unescape body == (utf8 t, true)
  | none => false

/-- The text of a name or string, which must fit into `capacity` bytes. The room runs out before a
later bad escape is noticed. -/
def text (token : Token) (capacity : Nat) : Except Error String :=
  match token.body? with
  | none => .error (.json .unexpectedToken)
  | some body =>
    let (out, whole) := StringBody.unescape body
    if capacity < out.length then .error .bufferTooSmall
    else if !whole then .error (.json .invalidEscape)
    else
      match text? out with
      | some t => .ok t
      | none => .error (.json .invalidUtf8)

def raw (token : Token) : Except Error String :=
  match text? token.slice with
  | some t => .ok t
  | none => .error (.json .invalidUtf8)

def numeral : Token → Except Error Numeral
  | number n => .ok n
  | _ => .error (.json .unexpectedToken)

def float (token : Token) : Except Error Float := token.numeral.map Numeral.float

def int32 (token : Token) : Except Error Int32 :=
  match token.numeral with
  | .error e => .error e
  | .ok n =>
    match n.int32? with
    | some v => .ok v
    | none => .error (.json .invalidNumber)

def uint32 (token : Token) : Except Error UInt32 :=
  match token.numeral with
  | .error e => .error e
  | .ok n =>
    match n.uint32? with
    | some v => .ok v
    | none => .error (.json .invalidNumber)

def boolean : Token → Except Error Bool
  | bool b => .ok b
  | _ => .error (.json .unexpectedToken)

end Token

end HubDevice
