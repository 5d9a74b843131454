import HubDevice.Twin.Report

set_option autoImplicit false

namespace HubDevice.Information

def componentName : String := "deviceInformation"

def texts : List (String × String) :=
  [("manufacturer", "Contoso Device Corporation"),
    ("model", "Contoso 4762B-turbo"),
    ("swVersion", "3.1"),
    ("osName", "linux"),
    ("processorArchitecture", "x86_64"),
    ("processorManufacturer", "Contoso Foundries")]

def sizes : List (String × Float) := [("totalStorage", 64000), ("totalMemory", 640)]

def write : Writer.Action Unit := do
  Writer.beginObject
  Twin.beginComponent componentName
  for (name, value) in texts do
    Writer.name name
    Writer.string value
  for (name, value) in sizes do
    Writer.name name
    Writer.float value 0
  Twin.endComponent
  Writer.endObject

end HubDevice.Information
