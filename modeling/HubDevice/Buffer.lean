import HubDevice.Bytes
import HubDevice.Error

set_option autoImplicit false

/-!
# A buffer of fixed capacity

A buffer holds what was written and, behind it, the bytes not yet used. A chunk is appended whole
or not at all. `pushAll` appends chunks in order and stops at the first that does not fit, keeping
the earlier ones.
-/
namespace HubDevice

structure Buffer where
  written : Bytes
  free : Bytes
  deriving Repr

namespace Buffer

def ofCapacity (n : Nat) : Buffer := ⟨[], List.replicate n 0⟩

def length (b : Buffer) : Nat := b.written.length

def capacity (b : Buffer) : Nat := b.written.length + b.free.length

def contents (b : Buffer) : Bytes := b.written ++ b.free

def push? (b : Buffer) (chunk : Bytes) : Option Buffer :=
  if chunk.length ≤ b.free.length then
    some ⟨b.written ++ chunk, b.free.drop chunk.length⟩
  else none

/-- Appends the chunks up to the first that does not fit, and tells whether all did. -/
def pushAll (b : Buffer) : List Bytes → Buffer × Bool
  | [] => (b, true)
  | chunk :: rest =>
    match b.push? chunk with
    | some next => next.pushAll rest
    | none => (b, false)

def fill (b : Buffer) (chunks : List Bytes) : Except Error Buffer :=
  match b.pushAll chunks with
  | (full, true) => .ok full
  | (_, false) => .error .bufferTooSmall

theorem capacity_push? {b next : Buffer} {chunk : Bytes} (h : b.push? chunk = some next) :
    next.capacity = b.capacity := by
  unfold push? at h
  split at h
  · cases h
    simp only [capacity, List.length_append, List.length_drop]
    omega
  · cases h

end Buffer

end HubDevice
