import HubDevice.Json.Reader

set_option autoImplicit false

/-!
# The grammar of JSON documents

A document is given by its parse tree, in which the blanks between the tokens are kept. So its text,
its tokens and its height are all read off the tree. A value in an object has a label in front, its
name and a colon; a value in an array has none.
-/
namespace HubDevice.Grammar
open StringBody (quote backslash)

structure Blank where
  bytes : Bytes
  blank : ∀ b ∈ bytes, b = 0x20 ∨ b = 0x09 ∨ b = 0x0A ∨ b = 0x0D

def Blank.none : Blank := ⟨[], by simp⟩

def Digits (ds : Bytes) : Prop := ds ≠ [] ∧ ∀ b ∈ ds, isDigit b = true

/-- No superfluous zero stands in front, and a point or an exponent has digits behind it. -/
structure LegalNumeral (n : Numeral) : Prop where
  whole : n.whole = ['0'.toUInt8] ∨ Digits n.whole ∧ n.whole.head? ≠ some '0'.toUInt8
  fraction : ∀ ds ∈ n.fraction, Digits ds
  exponent : ∀ e ∈ n.exponent, Digits e.digits

def shortEscapes : List (UInt8 × UInt8) :=
  [(quote, quote), (backslash, backslash), ('/'.toUInt8, '/'.toUInt8), ('b'.toUInt8, 0x08),
    ('f'.toUInt8, 0x0C), ('n'.toUInt8, 0x0A), ('r'.toUInt8, 0x0D), ('t'.toUInt8, 0x09)]

def FourHex (h : Bytes) : Prop := h.length = 4 ∧ ∀ b ∈ h, isHexDigit b = true

/-- Quotes, backslashes and control bytes stand in a string as escapes only. Any four hexadecimal
digits may follow `\u`, also those of a surrogate. -/
inductive Escaped : Bytes → Prop
  | nil : Escaped []
  | raw {b : UInt8} {s : Bytes} (printable : 0x20 ≤ b) (hquote : b ≠ quote)
    (hbackslash : b ≠ backslash) (rest : Escaped s) : Escaped (b :: s)
  | short {e c : UInt8} {s : Bytes} (letter : (e, c) ∈ shortEscapes) (rest : Escaped s) :
    Escaped (backslash :: e :: s)
  | unit {h s : Bytes} (hex : FourHex h) (rest : Escaped s) :
    Escaped (backslash :: 'u'.toUInt8 :: (h ++ s))

structure Body where
  bytes : Bytes
  escaped : Escaped bytes
  text : ∃ t : String, utf8 t = bytes

def Body.quoted (body : Body) : Bytes := quote :: body.bytes ++ [quote]

inductive Scalar where
  | null
  | bool (b : Bool)
  | number (n : Numeral) (legal : LegalNumeral n)
  | string (body : Body)

namespace Scalar

def text : Scalar → Bytes
  | null => utf8 "null"
  | bool true => utf8 "true"
  | bool false => utf8 "false"
  | number n _ => n.text
  | string body => body.quoted

def token : Scalar → Token
  | null => .null
  | bool b => .bool b
  | number n _ => .number n
  | string body => .string body.bytes

end Scalar

/-- What stands before a value in a container. -/
inductive Label : Container → Type
  | absent : Label .array
  | name (body : Body) (behind lead : Blank) : Label .object

namespace Label

def text {c : Container} : Label c → Bytes
  | absent => []
  | name body behind lead => body.quoted ++ behind.bytes ++ ':'.toUInt8 :: lead.bytes

def tokens {c : Container} : Label c → List Token
  | absent => []
  | name body _ _ => [.name body.bytes]

end Label

mutual

inductive Value : Type
  | scalar (s : Scalar)
  | empty (c : Container) (inside : Blank)
  | filled (c : Container) (items : Items c)

inductive Item : Container → Type
  | mk {c : Container} (before : Blank) (label : Label c) (value : Value) (behind : Blank) : Item c

inductive Items : Container → Type
  | last {c : Container} (item : Item c) : Items c
  | more {c : Container} (item : Item c) (rest : Items c) : Items c

end

mutual

def Value.text : Value → Bytes
  | .scalar s => s.text
  | .empty c inside => c.opening :: inside.bytes ++ [c.closing]
  | .filled c items => c.opening :: items.text ++ [c.closing]

def Item.text {c : Container} : Item c → Bytes
  | .mk before label value behind => before.bytes ++ label.text ++ value.text ++ behind.bytes

def Items.text {c : Container} : Items c → Bytes
  | .last item => item.text
  | .more item rest => item.text ++ ','.toUInt8 :: rest.text

end

mutual

def Value.tokens : Value → List Token
  | .scalar s => [s.token]
  | .empty c _ => [.opened c, .closed c]
  | .filled c items => .opened c :: items.tokens ++ [.closed c]

def Item.tokens {c : Container} : Item c → List Token
  | .mk _ label value _ => label.tokens ++ value.tokens

def Items.tokens {c : Container} : Items c → List Token
  | .last item => item.tokens
  | .more item rest => item.tokens ++ rest.tokens

end

mutual

/-- How many containers stand one in the other. -/
def Value.height : Value → Nat
  | .scalar _ => 0
  | .empty _ _ => 1
  | .filled _ items => items.height + 1

def Item.height {c : Container} : Item c → Nat
  | .mk _ _ value _ => value.height

def Items.height {c : Container} : Items c → Nat
  | .last item => item.height
  | .more item rest => max item.height rest.height

end

def Value.isObject : Value → Bool
  | .empty .object _ => true
  | .filled .object _ => true
  | _ => false

structure Document where
  before : Blank
  root : Value
  behind : Blank

namespace Document

def text (d : Document) : Bytes := d.before.bytes ++ d.root.text ++ d.behind.bytes

def tokens (d : Document) : List Token := d.root.tokens

def height (d : Document) : Nat := d.root.height

end Document

end HubDevice.Grammar
