import Mathlib.Algebra.Field.Rat
import Mathlib.Algebra.Order.Field.Basic
import HubDevice.Proofs.Json.Acceptance
import HubDevice.Proofs.Json.NumberTexts
import HubDevice.Proofs.Json.Writing

set_option autoImplicit false

namespace HubDevice
open Grammar

namespace Numeral

def value (n : Numeral) : ℚ :=
  (if n.negative then -1 else 1) * n.significand * 10 ^ n.scale

variable {n : Numeral}

end Numeral

namespace Writer
open NumberText (Layout)

end Writer

end HubDevice
