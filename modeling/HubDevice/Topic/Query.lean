import HubDevice.Text.Split

set_option autoImplicit false

namespace HubDevice.Query

/-- The pair of a segment, parted at its first `=`. -/
def pair? (segment : List Char) : Option (List Char × List Char) := Split.cut? ['='] segment

def value? (key query : List Char) : Option (List Char) :=
  (Split.segments '&' query).findSome? fun segment =>
    match pair? segment with
    | some (k, v) => if k = key then some v else none
    | none => none

end HubDevice.Query
