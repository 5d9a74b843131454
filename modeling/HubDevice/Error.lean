set_option autoImplicit false

namespace HubDevice

inductive JsonError where
  | unexpectedEnd
  | unexpectedChar
  /-- A well formed token of another kind than the one asked for. -/
  | unexpectedToken
  /-- A numeral outside the type it is read as. -/
  | invalidNumber
  | invalidEscape
  | invalidUtf8
  | depthExceeded
  | trailingCharacters
  /-- The root value is complete and nothing is left. -/
  | readerDone
  deriving DecidableEq, Repr

namespace JsonError

def message : JsonError → String
  | unexpectedEnd => "unexpected end of input"
  | unexpectedChar => "unexpected character"
  | unexpectedToken => "unexpected token"
  | invalidNumber => "invalid number"
  | invalidEscape => "invalid escape sequence"
  | invalidUtf8 => "invalid utf-8"
  | depthExceeded => "nesting too deep"
  | trailingCharacters => "trailing characters"
  | readerDone => "reader done"

def all : List JsonError :=
  [unexpectedEnd, unexpectedChar, unexpectedToken, invalidNumber, invalidEscape, invalidUtf8,
    depthExceeded, trailingCharacters, readerDone]

end JsonError

inductive Error where
  | bufferTooSmall
  | topicNoMatch
  | json (cause : JsonError)
  /-- A well formed document lacks a required member. -/
  | itemNotFound
  /-- An input is empty or otherwise of no use. -/
  | invalidArgument
  deriving DecidableEq, Repr

namespace Error

def message : Error → String
  | bufferTooSmall => "buffer too small"
  | topicNoMatch => "topic does not match"
  | json cause => "json: " ++ cause.message
  | itemNotFound => "item not found"
  | invalidArgument => "invalid argument"

end Error

theorem bind_eq_ok {ε α β : Type} {x : Except ε α} {f : α → Except ε β} {b : β}
    (h : x >>= f = .ok b) : ∃ a, x = .ok a ∧ f a = .ok b := by
  cases x with
  | error e => cases h
  | ok a => exact ⟨a, rfl, h⟩

theorem bind_eq_error {ε α β : Type} {x : Except ε α} {f : α → Except ε β} {e : ε}
    (h : x >>= f = .error e) : x = .error e ∨ ∃ a, x = .ok a ∧ f a = .error e := by
  cases x with
  | error e' =>
    cases h
    exact .inl rfl
  | ok a => exact .inr ⟨a, rfl, h⟩

section State

variable {ε σ α β : Type} {first : EStateM ε σ α} {second : α → EStateM ε σ β} {s s' : σ}

theorem bind_of_ok {a : α} (h : first s = .ok a s') : (first >>= second) s = second a s' := by
  change EStateM.bind first second s = _
  rw [EStateM.bind, h]

theorem bind_of_error {e : ε} (h : first s = .error e s') :
    (first >>= second) s = .error e s' := by
  change EStateM.bind first second s = _
  rw [EStateM.bind, h]

theorem bind_eq_ok_state {b : β} (h : (first >>= second) s = .ok b s') :
    ∃ a s1, first s = .ok a s1 ∧ second a s1 = .ok b s' := by
  cases hfirst : first s with
  | ok a s1 =>
    rw [bind_of_ok hfirst] at h
    exact ⟨a, s1, rfl, h⟩
  | error e s1 =>
    rw [bind_of_error hfirst] at h
    cases h

theorem bind_eq_error_state {e : ε} (h : (first >>= second) s = .error e s') :
    first s = .error e s' ∨ ∃ a s1, first s = .ok a s1 ∧ second a s1 = .error e s' := by
  cases hfirst : first s with
  | ok a s1 =>
    rw [bind_of_ok hfirst] at h
    exact .inr ⟨a, s1, rfl, h⟩
  | error e1 s1 =>
    rw [bind_of_error hfirst] at h
    cases h
    exact .inl rfl

variable {f : α → EStateM ε σ Unit} {a : α} {as : List α}

theorem forM_cons_of_ok (h : f a s = .ok () s') :
    (forM (a :: as) f : EStateM ε σ Unit) s = (forM as f : EStateM ε σ Unit) s' := by
  rw [List.forM_cons]
  exact bind_of_ok h

theorem forM_cons_of_error {e : ε} (h : f a s = .error e s') :
    (forM (a :: as) f : EStateM ε σ Unit) s = .error e s' := by
  rw [List.forM_cons]
  exact bind_of_error h

end State

end HubDevice
