set_option autoImplicit false

namespace HubDevice.Split

variable {α : Type} [DecidableEq α]

def after? (lead s : List α) : Option (List α) :=
  if lead.isPrefixOf s then some (s.drop lead.length) else none

/-- The parts before and behind the first occurrence of `sep`. -/
def cut? (sep : List α) : List α → Option (List α × List α)
  | [] => none
  | c :: s =>
    match after? sep (c :: s) with
    | some rest => some ([], rest)
    | none => (cut? sep s).map fun parts => (c :: parts.1, parts.2)

/-- The text between the occurrences of `sep`; there is always at least one segment. -/
def segments (sep : α) : List α → List (List α)
  | [] => [[]]
  | c :: s =>
    if c = sep then [] :: segments sep s
    else
      match segments sep s with
      | first :: others => (c :: first) :: others
      | [] => [[c]]

theorem length_cut? {sep s before behind : List α} (hsep : sep ≠ [])
    (h : cut? sep s = some (before, behind)) : behind.length < s.length := by
  induction s generalizing before with
  | nil => simp [cut?] at h
  | cons c s ih =>
    unfold cut? at h
    split at h
    · next rest hrest =>
      unfold after? at hrest
      split at hrest
      · cases hrest
        cases h
        have : 0 < sep.length := List.length_pos_iff.2 hsep
        simp only [List.length_drop, List.length_cons]
        omega
      · cases hrest
    · cases hc : cut? sep s with
      | none => simp [hc] at h
      | some parts =>
        obtain ⟨front, back⟩ := parts
        simp only [hc, Option.map_some, Option.some.injEq, Prod.mk.injEq] at h
        obtain ⟨-, rfl⟩ := h
        have := ih hc
        simp only [List.length_cons]
        omega

end HubDevice.Split
