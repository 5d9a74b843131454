import HubDevice.Proofs.Json.Reading

set_option autoImplicit false

namespace HubDevice

theorem map_ne_readerDone {α β : Type} {x : Except JsonError α} (f : α → β)
    (h : x ≠ .error .readerDone) : x.map f ≠ .error .readerDone := by
  cases x with
  | ok a => simp [Except.map]
  | error e =>
    simp only [Except.map, ne_eq, Except.error.injEq]
    rintro rfl
    exact h rfl

namespace StringBody

theorem escapeLength_ne_readerDone (s : Bytes) : escapeLength s ≠ .error .readerDone := by
  unfold escapeLength
  repeat' split
  all_goals simp

theorem bodyLength_ne_readerDone (s : Bytes) : bodyLength s ≠ .error .readerDone := by
  fun_induction bodyLength s with
  | case1 => simp
  | case2 => simp
  | case3 s e he =>
    intro h
    injection h with h
    exact escapeLength_ne_readerDone s (by rw [he, h])
  | case4 _ _ _ _ ih => exact map_ne_readerDone _ ih
  | case5 => simp
  | case6 _ _ _ _ _ ih => exact map_ne_readerDone _ ih

theorem scan_ne_readerDone (s : Bytes) : scan s ≠ .error .readerDone := by
  unfold scan
  split
  · next e he =>
    intro h
    injection h with h
    exact bodyLength_ne_readerDone s (by rw [he, h])
  · split <;> simp

end StringBody

namespace Numeral

theorem someDigits_ne_readerDone (s : Bytes) : someDigits s ≠ .error .readerDone := by
  unfold someDigits
  repeat' split
  all_goals simp

theorem scanWhole_ne_readerDone (s : Bytes) : scanWhole s ≠ .error .readerDone := by
  unfold scanWhole
  split
  · simp
  · split
    · simp
    · exact someDigits_ne_readerDone _

theorem scanFraction_ne_readerDone (s : Bytes) : scanFraction s ≠ .error .readerDone := by
  unfold scanFraction
  split
  · simp
  · split
    · exact map_ne_readerDone _ (someDigits_ne_readerDone _)
    · simp

theorem scanExponent_ne_readerDone (s : Bytes) : scanExponent s ≠ .error .readerDone := by
  unfold scanExponent
  split
  · simp
  · split
    · exact map_ne_readerDone _ (someDigits_ne_readerDone _)
    · simp

theorem scan_ne_readerDone (s : Bytes) : scan s ≠ .error .readerDone := by
  simp only [scan, bind, Except.bind]
  split
  · next e he =>
    intro h
    injection h with h
    exact scanWhole_ne_readerDone _ (by rw [he, h])
  · split
    · next e he =>
      intro h
      injection h with h
      exact scanFraction_ne_readerDone _ (by rw [he, h])
    · split
      · next e he =>
        intro h
        injection h with h
        exact scanExponent_ne_readerDone _ (by rw [he, h])
      · simp [pure, Except.pure]

end Numeral

namespace Reader
open Grammar

theorem takeLiteral_ne_readerDone (word s : Bytes) (token : Token) :
    takeLiteral word token s ≠ .error .readerDone := by
  unfold takeLiteral
  repeat' split
  all_goals simp

theorem takeScalar_ne_readerDone (s : Bytes) : takeScalar s ≠ .error .readerDone := by
  unfold takeScalar
  split
  · simp
  · next b s =>
    split
    · exact map_ne_readerDone _ (StringBody.scan_ne_readerDone s)
    · split
      · exact takeLiteral_ne_readerDone _ _ _
      · split
        · exact takeLiteral_ne_readerDone _ _ _
        · split
          · exact takeLiteral_ne_readerDone _ _ _
          · split
            · exact map_ne_readerDone _ (Numeral.scan_ne_readerDone _)
            · simp

theorem takeName_ne_readerDone (s : Bytes) : takeName s ≠ .error .readerDone := by
  unfold takeName
  split
  · simp
  · split
    · exact map_ne_readerDone _ (StringBody.scan_ne_readerDone _)
    · simp

theorem take_ne_readerDone (nesting : List Container) (wanted : Wanted) (s : Bytes) :
    take nesting wanted s ≠ .error .readerDone := by
  unfold take
  split
  · simp
  · exact map_ne_readerDone _ (takeName_ne_readerDone s)
  · split
    · split <;> simp
    · exact map_ne_readerDone _ (takeScalar_ne_readerDone s)

/-- At the end of the document the root value is complete and only blanks are left. -/
theorem end_of_readerDone {r r' : Reader} (h : next r = .error .readerDone r') :
    r.Settled ∧ r.nesting = [] ∧ skipSpace r.rest = [] := by
  unfold next at h
  split at h
  · next s e hseek =>
    injection h with he
    subst he
    unfold seek at hseek
    split at hseek
    · cases hseek
    · unfold seekFirst at hseek
      split at hseek <;> cases hseek
    · unfold seekMember at hseek
      repeat' split at hseek
      all_goals cases hseek
    · next hstart hopened hname =>
      refine ⟨?_, ?_⟩
      · unfold Settled
        split <;> simp_all
      · cases hn : r.nesting with
        | nil =>
          cases hs : skipSpace r.rest with
          | nil => exact ⟨rfl, rfl⟩
          | cons b t => simp [hn, hs, seekNext] at hseek
        | cons c outer =>
          rw [hn] at hseek
          unfold seekNext at hseek
          repeat' split at hseek
          all_goals simp_all
  · next hseek =>
    split at h
    · next e he =>
      injection h with h
      exact absurd (he.trans (by rw [h])) (take_ne_readerDone _ _ _)
    · cases h

theorem readerDone_of_end {r : Reader} (settled : r.Settled) (nesting : r.nesting = [])
    (hrest : skipSpace r.rest = []) : ∃ r', next r = .error .readerDone r' := by
  have hseek := seek_of_settled settled
  rw [nesting, hrest] at hseek
  refine ⟨{ r with rest := [] }, ?_⟩
  rw [next, hseek]
  rfl

theorem stuck_of_root {r : Reader} (settled : r.Settled) (nesting : r.nesting = []) :
    ∃ c r', next r = .error c r' := by
  have hseek := seek_of_settled settled
  rw [nesting] at hseek
  cases hs : skipSpace r.rest with
  | nil =>
    obtain ⟨r', hr'⟩ := readerDone_of_end settled nesting hs
    exact ⟨_, r', hr'⟩
  | cons b s =>
    rw [hs] at hseek
    exact ⟨.trailingCharacters, { r with rest := b :: s }, by rw [next, hseek]; rfl⟩

end Reader

end HubDevice
