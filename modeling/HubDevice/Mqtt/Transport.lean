import HubDevice.Bytes
import HubDevice.Mqtt.Error

set_option autoImplicit false

/-!
# A byte connection

The inbox holds what reads will meet: data, spells without data, failures. A read gives bytes of one
data item only. The outlet says how writes are taken: each call may be cut short, take nothing, or
fail. `readExact` and `writeAll` are built on single reads and writes; an empty read is repeated, but
not more than `patience` times in a row.
-/
namespace HubDevice.Mqtt

inductive Arrival where
  | data (b : Bytes)
  /-- So many reads find nothing. -/
  | idle (reads : Nat)
  /-- One read fails. -/
  | failure
  deriving DecidableEq, Repr

/-- How writes and flushes are taken, counted from the first one on. -/
structure Outlet where
  /-- The most bytes that a write call takes. -/
  limit : Nat → Option Nat := fun _ => none
  /-- Whether a write call fails. -/
  refuses : Nat → Bool := fun _ => false
  /-- The bytes still taken altogether. -/
  budget : Option Nat := none
  /-- Whether a write past the budget takes nothing instead of failing. -/
  zeroWhenSpent : Bool := false
  /-- Whether a flush fails. -/
  flushFails : Nat → Bool := fun _ => false
  closeFails : Bool := false

def atMost (limit : Option Nat) (n : Nat) : Nat :=
  match limit with
  | some m => min m n
  | none => n

namespace Outlet

def takes (o : Outlet) (call length : Nat) : Option Nat :=
  if o.refuses call then none
  else
    match o.budget with
    | some 0 => if o.zeroWhenSpent then some 0 else none
    | budget => some (atMost budget (atMost (o.limit call) length))

def spend (o : Outlet) (n : Nat) : Outlet := { o with budget := o.budget.map (· - n) }

end Outlet

structure Transport where
  inbox : List Arrival := []
  /-- The most bytes that one read gives. -/
  readLimit : Option Nat := none
  /-- Whether a read of an empty inbox fails; otherwise it finds nothing. -/
  endFails : Bool := false
  outlet : Outlet := {}
  /-- Every byte that was taken. -/
  sent : Bytes := []
  writeCalls : Nat := 0
  flushCalls : Nat := 0
  /-- The flushes that succeeded. -/
  flushes : Nat := 0
  closed : Bool := false

abbrev Wire := EStateM LinkError Transport

def receive (endFails : Bool) (n : Nat) : List Arrival → Option Bytes × List Arrival
  | [] => (if endFails then none else some [], [])
  | .data b :: inbox =>
    (some (b.take n), if b.length ≤ n then inbox else .data (b.drop n) :: inbox)
  | .idle 0 :: inbox => receive endFails n inbox
  | .idle (reads + 1) :: inbox => (some [], .idle reads :: inbox)
  | .failure :: inbox => (none, inbox)

def dataLength : List Arrival → Nat
  | [] => 0
  | .data b :: inbox => b.length + dataLength inbox
  | _ :: inbox => dataLength inbox

namespace Transport

def dataLength (t : Transport) : Nat := Mqtt.dataLength t.inbox

def read (n : Nat) : Wire Bytes := fun t =>
  if t.closed then .error .readError t
  else
    match receive t.endFails (atMost t.readLimit n) t.inbox with
    | (some b, inbox) => .ok b { t with inbox }
    | (none, inbox) => .error .readError { t with inbox }

/-- The number of empty reads in a row that are put up with. -/
def patience : Nat := 16

/-- Reads until some bytes arrive, through at most `left` empty reads. -/
def await (n : Nat) : Nat → Wire (UInt8 × Bytes)
  | 0 => fun t =>
    match read n t with
    | .ok (b :: more) t => .ok (b, more) t
    | .ok [] t => .error .connectionClosed t
    | .error e t => .error e t
  | left + 1 => fun t =>
    match read n t with
    | .ok (b :: more) t => .ok (b, more) t
    | .ok [] t => await n left t
    | .error e t => .error e t

def readExact (n : Nat) : Wire Bytes := fun t =>
  if n = 0 then .ok [] t
  else
    match await n patience t with
    | .error e t => .error e t
    | .ok (b, more) t =>
      match readExact (n - (more.length + 1)) t with
      | .error e t => .error e t
      | .ok rest t => .ok (b :: more ++ rest) t
termination_by n

def discardCapacity : Nat := 64

def discard (n : Nat) : Wire Unit := fun t =>
  if n = 0 then .ok () t
  else
    match readExact (min n discardCapacity) t with
    | .error e t => .error e t
    | .ok _ t => discard (n - min n discardCapacity) t
termination_by n
decreasing_by
  unfold discardCapacity
  omega

def write (b : Bytes) : Wire Nat := fun t =>
  if t.closed then .error .writeError t
  else
    match t.outlet.takes t.writeCalls b.length with
    | none => .error .writeError { t with writeCalls := t.writeCalls + 1 }
    | some n =>
      .ok n { t with
        outlet := t.outlet.spend n
        sent := t.sent ++ b.take n
        writeCalls := t.writeCalls + 1 }

/-- Writes all bytes; a write that takes nothing is a failure. -/
def writeAll (b : Bytes) : Wire Unit := fun t =>
  if b.isEmpty then .ok () t
  else
    match write b t with
    | .error e t => .error e t
    | .ok 0 t => .error .writeError t
    | .ok (n + 1) t => writeAll (b.drop (n + 1)) t
termination_by b.length
decreasing_by
  have : 0 < b.length := List.length_pos_iff.2 (by simpa using ‹¬b.isEmpty = true›)
  simp only [List.length_drop]
  omega

def flush : Wire Unit := fun t =>
  let t' := { t with flushCalls := t.flushCalls + 1 }
  if t.outlet.flushFails t.flushCalls then .error .writeError t'
  else .ok () { t' with flushes := t.flushes + 1 }

def close : Wire Unit := fun t =>
  if t.closed || t.outlet.closeFails then .error .notOpen t
  else .ok () { t with closed := true }

def readLength : Nat → Wire Nat
  | 0 => throw .protocolError
  | left + 1 => do
    let group ← readExact 1
    let b := group.headD 0
    if b < 128 then return b.toNat
    else
      let more ← readLength left
      return b.toNat - 128 + 128 * more

end Transport

end HubDevice.Mqtt
