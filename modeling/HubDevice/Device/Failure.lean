import HubDevice.Device.Config
import HubDevice.Error
import HubDevice.Mqtt.Error

set_option autoImplicit false

namespace HubDevice

inductive Failure where
  | config (cause : ConfigError)
  | device (cause : Error)
  | link (cause : LinkError)
  deriving DecidableEq, Repr

def Failure.message : Failure → String
  | config cause => cause.message
  | device cause => cause.message
  | link cause => cause.message

end HubDevice
