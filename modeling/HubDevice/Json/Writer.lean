import HubDevice.Buffer
import HubDevice.Json.Datum
import HubDevice.Json.Token
import HubDevice.Text.Quoted

set_option autoImplicit false

/-!
# A JSON writer

The writer appends a document to a buffer and puts commas between items. What a failing call wrote
stays in the buffer, while the place in the document and the depth change only when a call succeeds.
-/
namespace HubDevice

/-- What the writer has just written. -/
inductive Place where
  | start
  | opened
  | name
  | value
  deriving DecidableEq, Repr

structure Writer where
  buffer : Buffer
  place : Place := .start
  depth : Nat := 0
  deriving Repr

namespace Writer

abbrev Action := EStateM Error Writer

def ofBuffer (b : Buffer) : Writer := { buffer := b }

def ofCapacity (n : Nat) : Writer := ofBuffer (.ofCapacity n)

def bytes (w : Writer) : Bytes := w.buffer.written

def length (w : Writer) : Nat := w.buffer.length

def isEmpty (w : Writer) : Bool := w.length == 0

/-- The document so far, or the empty text while a character is incomplete. -/
def text (w : Writer) : String := textOrEmpty w.bytes

def separator (w : Writer) : List Bytes :=
  if w.place = .value then [[','.toUInt8]] else []

def append (chunks : List Bytes) (place : Place) (depth : Nat) : Action Unit := fun w =>
  match w.buffer.pushAll chunks with
  | (buffer, true) => .ok () { buffer, place, depth }
  | (buffer, false) => .error .bufferTooSmall { w with buffer }

def item (chunks : List Bytes) (place : Place) : Action Unit := fun w =>
  append (w.separator ++ chunks) place w.depth w

def beginContainer (c : Container) : Action Unit := fun w =>
  append (w.separator ++ [[c.opening]]) .opened (w.depth + 1) w

/-- Nothing can be closed at depth zero or behind a name. -/
def endContainer (c : Container) : Action Unit := fun w =>
  if w.depth = 0 || w.place = .name then .error .invalidArgument w
  else append [[c.closing]] .value (w.depth - 1) w

def beginObject : Action Unit := beginContainer .object

def endObject : Action Unit := endContainer .object

def beginArray : Action Unit := beginContainer .array

def endArray : Action Unit := endContainer .array

def name (s : String) : Action Unit := item (StringBody.quoted s ++ [[':'.toUInt8]]) .name

def string (s : String) : Action Unit := item (StringBody.quoted s) .value

def uint32 (n : UInt32) : Action Unit := item [Decimal.digits n.toNat] .value

def int32 (n : Int32) : Action Unit :=
  item ((if n < 0 then [['-'.toUInt8]] else []) ++ [Decimal.digits n.toInt.natAbs]) .value

def maxPlaces : Nat := 15

def trimFraction (b : Bytes) : Bytes :=
  let kept := (b.reverse.dropWhile (· == '0'.toUInt8)).reverse
  if kept.getLast? = some '.'.toUInt8 then kept.dropLast else kept

/-- From `10 ^ 17` on a number is laid out with an exponent, below it with at most `places` decimal
places. -/
def laidOut (l : NumberText.Layout) (x : Float) (b : Binary) (places : Nat) : Bytes :=
  if x.abs ≥ 1e17 then l.scientific b else l.fixed b (min places maxPlaces)

/-- A fraction is trimmed unless an exponent follows, and zero has no sign. -/
def tidy (text : Bytes) : Bytes :=
  let trimmed :=
    if '.'.toUInt8 ∈ text ∧ 'e'.toUInt8 ∉ text then trimFraction text else text
  if trimmed = utf8 "-0" then utf8 "0" else trimmed

def numberText (x : Float) (b : Binary) (places : Nat) : Bytes :=
  tidy (laidOut .rounded x b places)

def scratchSize : Nat := 48

/-- Infinite and undefined values are refused. -/
def floatBy (l : NumberText.Layout) (x : Float) (places : Nat) : Action Unit := fun w =>
  match Binary.ofFloat? x with
  | none => .error .invalidArgument w
  | some b =>
    let text := laidOut l x b places
    if scratchSize < text.length then .error .bufferTooSmall w
    else item [tidy text] .value w

def float : Float → Nat → Action Unit := floatBy .rounded

def bool (b : Bool) : Action Unit := item [utf8 (if b then "true" else "false")] .value

def null : Action Unit := item [utf8 "null"] .value

def raw (json : Bytes) : Action Unit := fun w =>
  if json.isEmpty then .error .invalidArgument w else item [json] .value w

def datum (d : Datum) : Action Unit := item [d.render] .value

def describe (w : Writer) : String :=
  "JsonWriter \x7b json: " ++ Quoted.encode w.text ++ ", depth: " ++ Decimal.text w.depth ++ " \x7d"

end Writer

end HubDevice
