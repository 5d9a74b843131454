import HubDevice.Text.Decimal

set_option autoImplicit false

namespace HubDevice

structure Status where
  code : UInt16
  deriving DecidableEq, Repr

namespace Status

def ok : Status := ⟨200⟩

def noContent : Status := ⟨204⟩

def badRequest : Status := ⟨400⟩

def notFound : Status := ⟨404⟩

def throttled : Status := ⟨429⟩

def named : List Status :=
  [200, 202, 204, 400, 401, 403, 404, 405, 409, 412, 413, 415, 429, 499, 500, 502, 503, 504].map
    Status.mk

def isSuccess (s : Status) : Bool := 200 ≤ s.code && s.code < 300

def isRetriable (s : Status) : Bool := s == throttled || 500 ≤ s.code

def digits (s : Status) : Bytes := Decimal.digits s.code.toNat

def text (s : Status) : String := Decimal.text s.code.toNat

end Status

end HubDevice
