import HubDevice.Text.Decimal

set_option autoImplicit false

namespace HubDevice

inductive ConfigError where
  | missing (name : String)
  | invalid (name : String)
  deriving DecidableEq, Repr

def ConfigError.message : ConfigError → String
  | missing name => name ++ " is not set"
  | invalid name => name ++ " is not valid"

structure Credentials where
  signature : String
  expiry : UInt64
  deriving DecidableEq, Repr

structure Config where
  hostname : String
  deviceId : String
  endpoint : String
  credentials : Option Credentials
  deriving DecidableEq, Repr

namespace Config

def hostnameEntry : String := "AZ_IOT_HUB_HOSTNAME"

def deviceEntry : String := "AZ_IOT_DEVICE_ID"

def endpointEntry : String := "AZ_IOT_MQTT_ENDPOINT"

def signatureEntry : String := "AZ_IOT_DEVICE_SAS_SIGNATURE"

def expiryEntry : String := "AZ_IOT_DEVICE_SAS_EXPIRY"

def entries : List String :=
  [hostnameEntry, deviceEntry, endpointEntry, signatureEntry, expiryEntry]

def defaultPort : Nat := 8883

/-- An unsigned number, perhaps with a plus in front. -/
def expiry? (s : String) : Option UInt64 :=
  let ds := match s.toList with
    | '+' :: ds => ds
    | ds => ds
  (Decimal.read? UInt64.size ds).map Nat.toUInt64

def required (lookup : String → Option String) (name : String) : Except ConfigError String :=
  match lookup name with
  | some value => .ok value
  | none => .error (.missing name)

/-- Reads the settings; credentials are optional, but a signature needs an expiry. -/
def ofEntries (entry : String → Option String) : Except ConfigError Config := do
  let lookup := fun name => (entry name).filter fun value => !value.isEmpty
  let hostname ← required lookup hostnameEntry
  let deviceId ← required lookup deviceEntry
  let endpoint := (lookup endpointEntry).getD (hostname ++ ":" ++ Decimal.text defaultPort)
  let credentials ← match lookup signatureEntry with
    | none => pure none
    | some signature => do
      let text ← required lookup expiryEntry
      match expiry? text with
      | some expiry => pure (some ⟨signature, expiry⟩)
      | none => .error (.invalid expiryEntry)
  return { hostname, deviceId, endpoint, credentials }

end Config

end HubDevice
