import HubDevice.Json.Writer
import HubDevice.Proofs.Json.Numerals
import HubDevice.Proofs.Json.Quoting

set_option autoImplicit false

namespace HubDevice

inductive Tree where
  | null
  | bool (b : Bool)
  | int32 (n : Int32)
  | uint32 (n : UInt32)
  | string (s : String)
  | array (items : List Tree)
  | object (members : List (String × Tree))

inductive Event where
  | opened (c : Container)
  | closed (c : Container)
  | name (s : String)
  | string (s : String)
  | int32 (n : Int32)
  | uint32 (n : UInt32)
  | bool (b : Bool)
  | null
  deriving DecidableEq, Repr

namespace Grammar

def Items.ofList {c : Container} (item : Item c) : List (Item c) → Items c
  | [] => .last item
  | next :: items => .more item (ofList next items)

def Value.ofItems (c : Container) : List (Item c) → Value
  | [] => .empty c .none
  | item :: items => .filled c (.ofList item items)

end Grammar

namespace Tree
open Grammar

mutual

def height : Tree → Nat
  | array items => itemsHeight items + 1
  | object members => membersHeight members + 1
  | _ => 0

def itemsHeight : List Tree → Nat
  | [] => 0
  | item :: items => max item.height (itemsHeight items)

def membersHeight : List (String × Tree) → Nat
  | [] => 0
  | (_, value) :: members => max value.height (membersHeight members)

end

mutual

def events : Tree → List Event
  | null => [.null]
  | bool b => [.bool b]
  | int32 n => [.int32 n]
  | uint32 n => [.uint32 n]
  | string s => [.string s]
  | array items => .opened .array :: itemEvents items ++ [.closed .array]
  | object members => .opened .object :: memberEvents members ++ [.closed .object]

def itemEvents : List Tree → List Event
  | [] => []
  | item :: items => item.events ++ itemEvents items

def memberEvents : List (String × Tree) → List Event
  | [] => []
  | (name, value) :: members => .name name :: value.events ++ memberEvents members

end

mutual

def emit : Tree → Writer.Action Unit
  | null => Writer.null
  | bool b => Writer.bool b
  | int32 n => Writer.int32 n
  | uint32 n => Writer.uint32 n
  | string s => Writer.string s
  | array items => do
    Writer.beginArray
    emitItems items
    Writer.endArray
  | object members => do
    Writer.beginObject
    emitMembers members
    Writer.endObject

def emitItems : List Tree → Writer.Action Unit
  | [] => pure ()
  | item :: items => do
    item.emit
    emitItems items

def emitMembers : List (String × Tree) → Writer.Action Unit
  | [] => pure ()
  | (name, value) :: members => do
    Writer.name name
    value.emit
    emitMembers members

end

mutual

def value : Tree → Value
  | null => .scalar .null
  | bool b => .scalar (.bool b)
  | int32 n =>
    .scalar (.number (Numeral.ofDigits (n < 0) n.toInt.natAbs) (Numeral.legal_ofDigits _ _))
  | uint32 n => .scalar (.number (Numeral.ofDigits false n.toNat) (Numeral.legal_ofDigits _ _))
  | string s => .scalar (.string (StringBody.ofText s))
  | array items => .ofItems .array (itemValues items)
  | object members => .ofItems .object (memberValues members)

def itemValues : List Tree → List (Item .array)
  | [] => []
  | item :: items => .mk .none .absent item.value .none :: itemValues items

def memberValues : List (String × Tree) → List (Item .object)
  | [] => []
  | (name, value) :: members =>
    .mk .none (.name (StringBody.ofText name) .none .none) value.value .none :: memberValues members

end

def document (t : Tree) : Document := ⟨.none, t.value, .none⟩

end Tree

end HubDevice
