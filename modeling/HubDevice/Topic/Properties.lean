import HubDevice.Buffer
import HubDevice.Text.Quoted
import HubDevice.Topic.Query

set_option autoImplicit false

namespace HubDevice

structure Properties where
  buffer : Buffer
  deriving Repr

namespace Properties

def empty (buffer : Buffer) : Properties := ⟨⟨[], buffer.contents⟩⟩

def ofEncoded (memory : Bytes) (length : Nat) : Except Error Properties :=
  if memory.length < length then .error .invalidArgument
  else
    match text? (memory.take length) with
    | some _ => .ok ⟨⟨memory.take length, memory.drop length⟩⟩
    | none => .error .invalidArgument

def text (p : Properties) : String := textOrEmpty p.buffer.written

def length (p : Properties) : Nat := p.buffer.length

def isEmpty (p : Properties) : Bool := p.length == 0

def append (p : Properties) (name value : String) : Except Error Properties :=
  if name.isEmpty || value.isEmpty then .error .invalidArgument
  else
    let joint := if p.length = 0 then [] else [utf8 "&"]
    (p.buffer.fill (joint ++ [utf8 name, utf8 "=", utf8 value])).map Properties.mk

def segment (s : List Char) : List Char × List Char := (Split.cut? ['&'] s).getD (s, [])

theorem length_segment {s : List Char} (h : s ≠ []) : (segment s).2.length < s.length := by
  unfold segment
  cases hc : Split.cut? ['&'] s with
  | none => simpa using List.length_pos_iff.2 h
  | some parts =>
    obtain ⟨before, behind⟩ := parts
    exact Split.length_cut? (by simp) hc

/-- The pairs of a text in order; segments without `=` are passed over. -/
def pairs (s : List Char) : List (List Char × List Char) :=
  if h : s = [] then []
  else
    have := length_segment h
    match Query.pair? (segment s).1 with
    | some pair => pair :: pairs (segment s).2
    | none => pairs (segment s).2
termination_by s.length

def toList (p : Properties) : List (String × String) :=
  (pairs p.text.toList).map fun (name, value) => (String.ofList name, String.ofList value)

def find? (p : Properties) (name : String) : Option String :=
  (p.toList.find? fun pair => pair.1 = name).map Prod.snd

def describe (p : Properties) : String := "MessageProperties(" ++ Quoted.encode p.text ++ ")"

end Properties

end HubDevice
