import HubDevice.Text.Decimal

set_option autoImplicit false

namespace HubDevice

inductive LinkError where
  | notOpen
  | writeError
  | readError
  /-- The broker turned the connection down, with a return code. -/
  | connectionRefused (code : UInt8)
  | timeout
  | connectionClosed
  | invalidAddress
  | protocolError
  | packetTooLarge
  deriving DecidableEq, Repr

namespace LinkError

def message : LinkError → String
  | notOpen => "connection not open"
  | writeError => "write failed"
  | readError => "read failed"
  | connectionRefused code => "connection refused (" ++ Decimal.text code.toNat ++ ")"
  | timeout => "timed out"
  | connectionClosed => "connection closed"
  | invalidAddress => "invalid address"
  | protocolError => "protocol error"
  | packetTooLarge => "packet too large"

end LinkError

end HubDevice
