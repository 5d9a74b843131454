import HubDevice.Device.Session
import Std.Time.Format

set_option autoImplicit false

/-!
# The program

The device talks to its broker over standard input and output; settings come from the environment. As
every session is a function of what has arrived, the program runs it anew on each arrival and writes
what has not been written yet. The answer to the first part of an input is the first part of the
answer, so nothing written has to be taken back.
-/
namespace HubDevice

def environment : IO (String → Option String) := do
  let found ← Config.entries.mapM fun name => do return (name, ← IO.getEnv name)
  return fun name => (found.lookup name).join

def clock : IO String := do
  let now ← Std.Time.DateTime.now
  return now.format "uuuu-MM-dd" ++ "T" ++ now.format "HH:mm:ssxx"

/-- Behind what has arrived one read finds nothing, which is when a reboot takes place, and a further
one fails, which is when more has to arrive. -/
partial def converse (entry : String → Option String) (arrived : Bytes) (written : Nat) :
    IO UInt32 := do
  let outcome := Session.run entry (← clock) fun _ =>
    .ok { inbox := [.data arrived, .idle 1], endFails := true }
  let sent := (outcome.transport.map Mqtt.Transport.sent).getD []
  let stdout ← IO.getStdout
  stdout.write (sent.drop written).toByteArray
  stdout.flush
  match outcome.ending with
  | .rebooted => return 0
  | .failed (.link .readError) | .listening =>
    let more ← (← IO.getStdin).read 4096
    if more.isEmpty then
      IO.eprintln LinkError.connectionClosed.message
      return 1
    converse entry (arrived ++ more.toList) sent.length
  | .failed cause =>
    IO.eprintln cause.message
    return 1

end HubDevice

def main : IO UInt32 := do
  HubDevice.converse (← HubDevice.environment) [] 0
