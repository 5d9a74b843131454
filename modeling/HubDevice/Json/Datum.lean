import HubDevice.Json.StringBody
import HubDevice.Number.Text

set_option autoImplicit false

namespace HubDevice

inductive Datum where
  | null
  | bool (b : Bool)
  | integer (n : Int)
  | single (x : Float32)
  | double (x : Float)
  | text (s : String)
  | list (items : List Datum)
  | record (fields : List (String × Datum))
  | map (entries : List (String × Datum))
  /-- A variant around one datum. -/
  | wrapped (variant : String) (payload : Datum)
  /-- A variant with named fields. -/
  | tagged (variant : String) (fields : List (String × Datum))

namespace Datum

def escaped (s : String) : Bytes := (utf8 s).flatMap (StringBody.quoteByte hexDigitUpper)

def plain (s : String) : Bytes := utf8 s

def inQuotes (body : Bytes) : Bytes := StringBody.quote :: body ++ [StringBody.quote]

def bracketed (c : UInt8 × UInt8) (items : List Bytes) : Bytes :=
  c.1 :: [','.toUInt8].intercalate items ++ [c.2]

def braces : UInt8 × UInt8 := ('\x7b'.toUInt8, '\x7d'.toUInt8)

def brackets : UInt8 × UInt8 := ('['.toUInt8, ']'.toUInt8)

def member (body value : Bytes) : Bytes := inQuotes body ++ ':'.toUInt8 :: value

def number (p : NumberText.Positional) : Option Binary → Bytes
  | some b => NumberText.shortest p b
  | none => utf8 "null"

mutual

def render : Datum → Bytes
  | null => utf8 "null"
  | bool true => utf8 "true"
  | bool false => utf8 "false"
  | integer n => NumberText.integer n
  | single x => number .single (Binary.ofFloat32? x)
  | double x => number .double (Binary.ofFloat? x)
  | text s => inQuotes (escaped s)
  | list items => bracketed brackets (renderItems items)
  | record fields => bracketed braces (renderMembers plain fields)
  | map entries => bracketed braces (renderMembers escaped entries)
  | wrapped variant payload => bracketed braces [member (plain variant) (render payload)]
  | tagged variant fields =>
    bracketed braces
      [member (escaped variant) (bracketed braces (renderMembers plain fields))]

def renderItems : List Datum → List Bytes
  | [] => []
  | item :: items => render item :: renderItems items

def renderMembers (form : String → Bytes) : List (String × Datum) → List Bytes
  | [] => []
  | (name, value) :: members => member (form name) (render value) :: renderMembers form members

end

end Datum

end HubDevice
