import HubDevice.Json.Reader
import HubDevice.Twin.Report

set_option autoImplicit false

namespace HubDevice

structure Thermostat where
  name : String
  current : Float
  lowest : Float
  highest : Float
  sum : Float
  count : UInt32
  reportDue : Bool
  deriving Repr

namespace Thermostat

def targetName : String := "targetTemperature"

def highestName : String := "maxTempSinceLastReboot"

def reportCommand : String := "getMaxMinReport"

def temperatureName : String := "temperature"

def places : Nat := 2

def emptyObject : Bytes := utf8 "\x7b\x7d"

def start (name : String) (initial : Float) : Thermostat :=
  { name, current := initial, lowest := initial, highest := initial, sum := initial, count := 1,
    reportDue := true }

def average (t : Thermostat) : Float := t.sum / t.count.toFloat

def setTemperature (t : Thermostat) (v : Float) : Thermostat :=
  { t with
    current := v
    lowest := if v < t.lowest then v else t.lowest
    highest := if v > t.highest then v else t.highest
    reportDue := t.reportDue || v > t.highest
    sum := t.sum + v
    count := t.count + 1 }

def acknowledgeTarget (name : String) (version : UInt32) (target : Float) :
    Writer.Action Unit := do
  Writer.beginObject
  Twin.beginAcknowledgement {
    component := some name
    name := targetName
    status := .ok
    version
    description := some "success" }
  Writer.float target places
  Twin.endAcknowledgement (some name)
  Writer.endObject

/-- Takes over a desired property and writes the acknowledgement. Other names are left alone. The
temperature is set before anything is written. -/
def update (t : Thermostat) (name value : Token) (version : UInt32) (w : Writer) :
    Except Error Bool × Thermostat × Writer :=
  if !name.isText targetName then (.ok false, t, w)
  else
    match value.float with
    | .error e => (.error e, t, w)
    | .ok target =>
      match acknowledgeTarget t.name version target w with
      | .ok _ w => (.ok true, t.setTemperature target, w)
      | .error e w => (.error e, t.setTemperature target, w)

def writeTelemetry (t : Thermostat) : Writer.Action Unit := do
  Writer.beginObject
  Writer.name temperatureName
  Writer.float t.current places
  Writer.endObject

def highestReport (t : Thermostat) : Writer.Action Unit := do
  Writer.beginObject
  Twin.beginComponent t.name
  Writer.name highestName
  Writer.float t.highest places
  Twin.endComponent
  Writer.endObject

/-- Writes the report of the maximum; once written it is no longer due. -/
def writeHighest (t : Thermostat) (w : Writer) : Except Error Unit × Thermostat × Writer :=
  match t.highestReport w with
  | .ok _ w => (.ok (), { t with reportDue := false }, w)
  | .error e w => (.error e, t, w)

/-- The start time of a report: a string that is not empty and takes at most 32 bytes. -/
def since (payload : Bytes) : Except Error String :=
  match Reader.next (.ofBytes payload) with
  | .error e _ => .error (.json e)
  | .ok _ r =>
    match r.token.text 32 with
    | .error e => .error e
    | .ok text => if text.isEmpty then .error .itemNotFound else .ok text

def writeReport (t : Thermostat) (startTime endTime : String) : Writer.Action Unit := do
  Writer.beginObject
  Writer.name "maxTemp"
  Writer.float t.highest places
  Writer.name "minTemp"
  Writer.float t.lowest places
  Writer.name "avgTemp"
  Writer.float t.average places
  Writer.name "startTime"
  Writer.string startTime
  Writer.name "endTime"
  Writer.string endTime
  Writer.endObject

def process (t : Thermostat) (now command : String) (payload : Bytes) : Writer.Action Status :=
  if command ≠ reportCommand then do
    Writer.raw emptyObject
    return .notFound
  else
    match since payload with
    | .ok startTime => do
      t.writeReport startTime now
      return .ok
    | .error _ => do
      Writer.raw emptyObject
      return .badRequest

end Thermostat

end HubDevice
