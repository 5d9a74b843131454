import HubDevice.Buffer
import HubDevice.Text.Decimal
import HubDevice.Text.Percent

set_option autoImplicit false

namespace HubDevice

def apiVersion : String := "2020-09-30"

def webSocketPath : String := "/$iothub/websocket"

def webSocketPathWithoutCertificate : String := "/$iothub/websocket?iothub-no-client-cert=true"

structure Identity where
  hostname : String
  deviceId : String
  moduleId : Option String
  userAgent : Option String
  modelId : Option String
  deriving DecidableEq, Repr

namespace Identity

def nonEmpty (s : Option String) : Option String := s.filter fun t => !t.isEmpty

/-- Host and device are required; an empty option counts as absent. -/
def create (hostname deviceId : String) (moduleId userAgent modelId : Option String) :
    Except Error Identity :=
  if hostname.isEmpty || deviceId.isEmpty then .error .invalidArgument
  else
    .ok {
      hostname
      deviceId
      moduleId := nonEmpty moduleId
      userAgent := nonEmpty userAgent
      modelId := nonEmpty modelId }

def plugAndPlay (hostname deviceId modelId : String) (moduleId userAgent : Option String) :
    Except Error Identity :=
  if modelId.isEmpty then .error .invalidArgument
  else create hostname deviceId moduleId userAgent (some modelId)

def optional (part : Option String) (chunks : String → List Bytes) : List Bytes :=
  match part with
  | some s => chunks s
  | none => []

def clientIdChunks (i : Identity) : List Bytes :=
  utf8 i.deviceId :: optional i.moduleId fun m => [utf8 "/", utf8 m]

def userNameChunks (i : Identity) : List Bytes :=
  [utf8 i.hostname, utf8 "/", utf8 i.deviceId] ++
    (optional i.moduleId fun m => [utf8 "/", utf8 m]) ++
    [utf8 "/?api-version=", utf8 apiVersion] ++
    (optional i.userAgent fun a => [utf8 "&", utf8 a]) ++
    optional i.modelId fun m => utf8 "&model-id=" :: Percent.chunks (utf8 m)

def resource (i : Identity) : String :=
  i.hostname ++ "/devices/" ++ i.deviceId ++
    match i.moduleId with
    | some m => "/modules/" ++ m
    | none => ""

def resourceChunks (i : Identity) : List Bytes := Percent.chunks (utf8 i.resource)

def signatureChunks (i : Identity) (expiry : UInt64) : List Bytes :=
  i.resourceChunks ++ [utf8 "\n", Decimal.digits expiry.toNat]

def passwordChunks (i : Identity) (signature : String) (expiry : UInt64)
    (keyName : Option String) : List Bytes :=
  utf8 "SharedAccessSignature sr=" :: i.resourceChunks ++
    utf8 "&sig=" :: Percent.chunks (utf8 signature) ++
    [utf8 "&se=", Decimal.digits expiry.toNat] ++
    optional (nonEmpty keyName) fun k => [utf8 "&skn=", utf8 k]

def clientId (i : Identity) (b : Buffer) : Except Error Buffer := b.fill i.clientIdChunks

def userName (i : Identity) (b : Buffer) : Except Error Buffer := b.fill i.userNameChunks

def textToSign (i : Identity) (expiry : UInt64) (b : Buffer) : Except Error Buffer :=
  b.fill (i.signatureChunks expiry)

def password (i : Identity) (signature : String) (expiry : UInt64) (keyName : Option String)
    (b : Buffer) : Except Error Buffer :=
  if signature.isEmpty then .error .invalidArgument
  else b.fill (i.passwordChunks signature expiry keyName)

end Identity

end HubDevice
