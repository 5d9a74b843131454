import HubDevice.Proofs.Json.Grammar

set_option autoImplicit false

namespace HubDevice.StringBody
open Grammar

theorem shortEscape?_eq_some_iff {e c : UInt8} :
    shortEscape? e = some c ↔ (e, c) ∈ shortEscapes := by
  constructor
  · intro h
    unfold shortEscape? at h
    split at h
    · next he =>
      injection h with h
      subst h
      simp only [Bool.or_eq_true, decide_eq_true_eq] at he
      rcases he with (rfl | rfl) | rfl <;> simp [shortEscapes, quote, backslash]
    · repeat (split at h; · next he => (injection h with h; subst he h; simp [shortEscapes]))
      cases h
  · simp only [shortEscapes, List.mem_cons, List.not_mem_nil, or_false, Prod.mk.injEq]
    intro h
    rcases h with ⟨rfl, rfl⟩ | ⟨rfl, rfl⟩ | ⟨rfl, rfl⟩ | ⟨rfl, rfl⟩ | ⟨rfl, rfl⟩ | ⟨rfl, rfl⟩ |
      ⟨rfl, rfl⟩ | ⟨rfl, rfl⟩ <;> rfl

theorem shortEscape_ne_unit {e c : UInt8} (h : (e, c) ∈ shortEscapes) : e ≠ 'u'.toUInt8 := by
  rintro rfl
  simp only [shortEscapes, List.mem_cons, List.not_mem_nil, or_false, Prod.mk.injEq] at h
  rcases h with ⟨h, -⟩ | ⟨h, -⟩ | ⟨h, -⟩ | ⟨h, -⟩ | ⟨h, -⟩ | ⟨h, -⟩ | ⟨h, -⟩ | ⟨h, -⟩ <;>
    exact absurd h (by decide)

theorem escapeLength_short {e c : UInt8} (h : (e, c) ∈ shortEscapes) (s : Bytes) :
    escapeLength (e :: s) = .ok 1 := by
  rw [escapeLength, if_neg (shortEscape_ne_unit h), shortEscape?_eq_some_iff.2 h]
  rfl

theorem escapeLength_unit {h : Bytes} (hex : FourHex h) (s : Bytes) :
    escapeLength ('u'.toUInt8 :: (h ++ s)) = .ok 5 := by
  obtain ⟨four, hall⟩ := hex
  have hlong : ¬ (h ++ s).length < 4 := by
    rw [List.length_append]
    omega
  have htake : (h ++ s).take 4 = h := by rw [← four, List.take_left]
  rw [escapeLength, if_pos rfl, if_neg hlong, htake, if_pos (List.all_eq_true.2 hall)]

/-- A legal escape is a letter or four digits, and its length says which. -/
theorem escapeLength_sound {s : Bytes} {n : Nat} (h : escapeLength s = .ok n) :
    (∃ e c rest, (e, c) ∈ shortEscapes ∧ s = e :: rest ∧ n = 1) ∨
      ∃ hex rest, FourHex hex ∧ s = 'u'.toUInt8 :: (hex ++ rest) ∧ n = 5 := by
  match s, h with
  | e :: s, h =>
    simp only [escapeLength] at h
    split at h
    · next he =>
      split at h
      · cases h
      · next hlong =>
        split at h
        · next hall =>
          injection h with h
          refine .inr ⟨s.take 4, s.drop 4, ⟨?_, List.all_eq_true.1 hall⟩, ?_, h.symm⟩
          · rw [List.length_take]
            omega
          · rw [he, List.take_append_drop]
        · cases h
    · split at h
      · next hsome =>
        injection h with h
        obtain ⟨c, hc⟩ := Option.isSome_iff_exists.1 hsome
        exact .inl ⟨e, c, s, shortEscape?_eq_some_iff.1 hc, rfl, h.symm⟩
      · cases h

theorem bodyLength_append {body : Bytes} (h : Escaped body) (rest : Bytes) :
    bodyLength (body ++ quote :: rest) = .ok body.length := by
  induction h with
  | nil =>
    rw [List.nil_append, bodyLength, if_pos rfl]
    rfl
  | raw printable hquote hbackslash _ ih =>
    rw [List.cons_append, bodyLength, if_neg hquote, if_neg hbackslash,
      if_neg (UInt8.not_lt.2 printable), ih]
    rfl
  | short letter _ ih =>
    rw [List.cons_append, bodyLength, if_neg (by decide), if_pos rfl, List.cons_append,
      escapeLength_short letter]
    simp only [List.drop_succ_cons, List.drop_zero, ih]
    rfl
  | @unit h s hex _ ih =>
    have hdrop : ('u'.toUInt8 :: (h ++ s) ++ quote :: rest).drop 5 = s ++ quote :: rest := by
      rw [List.cons_append, List.drop_succ_cons, List.append_assoc, ← hex.1, List.drop_left]
    rw [List.cons_append, bodyLength, if_neg (by decide), if_pos rfl]
    have hlength : escapeLength ('u'.toUInt8 :: (h ++ s) ++ quote :: rest) = .ok 5 := by
      rw [List.cons_append, List.append_assoc]
      exact escapeLength_unit hex _
    simp only [hlength, hdrop, ih, Except.map, List.length_cons, List.length_append, hex.1]
    congr 1
    omega

theorem bodyLength_sound {s : Bytes} {n : Nat} (h : bodyLength s = .ok n) :
    ∃ body rest, Escaped body ∧ body.length = n ∧ s = body ++ quote :: rest := by
  fun_induction bodyLength s generalizing n with
  | case1 => cases h
  | case2 s =>
    cases h
    exact ⟨[], s, .nil, rfl, rfl⟩
  | case3 => cases h
  | case4 s k hk _ ih =>
    cases hb : bodyLength (s.drop k) with
    | error e => simp [hb, Except.map] at h
    | ok m =>
      simp only [hb, Except.map, Except.ok.injEq] at h
      obtain ⟨body, rest, hbody, hlength, hs⟩ := ih hb
      rcases escapeLength_sound hk with ⟨e, c, tail, letter, rfl, rfl⟩ | ⟨hex, tail, four, rfl, rfl⟩
      · refine ⟨_, rest, .short letter hbody, ?_, ?_⟩
        · simp only [List.length_cons]
          omega
        · simp only [List.drop_succ_cons, List.drop_zero] at hs
          rw [hs]
          rfl
      · refine ⟨_, rest, .unit four hbody, ?_, ?_⟩
        · simp only [List.length_cons, List.length_append, four.1]
          omega
        · rw [List.drop_succ_cons, ← four.1, List.drop_left] at hs
          rw [hs]
          simp
  | case5 => cases h
  | case6 b s hquote hbackslash hprintable ih =>
    cases hb : bodyLength s with
    | error e => simp [hb, Except.map] at h
    | ok m =>
      simp only [hb, Except.map, Except.ok.injEq] at h
      obtain ⟨body, rest, hbody, hlength, rfl⟩ := ih hb
      refine ⟨b :: body, rest, .raw (UInt8.not_lt.1 hprintable) hquote hbackslash hbody, ?_, rfl⟩
      rw [List.length_cons, hlength, h]

theorem scan_sound {s bytes rest : Bytes} (h : scan s = .ok (bytes, rest)) :
    ∃ body : Body, body.bytes = bytes ∧ s = bytes ++ quote :: rest := by
  unfold scan at h
  split at h
  · cases h
  · next n hn =>
    obtain ⟨body, tail, hbody, rfl, rfl⟩ := bodyLength_sound hn
    have htake : (body ++ quote :: tail).take body.length = body := List.take_left
    have hdrop : (body ++ quote :: tail).drop (body.length + 1) = tail := by
      rw [← List.drop_drop, List.drop_left]
      rfl
    rw [htake, hdrop] at h
    split at h
    · next htext =>
      simp only [Except.ok.injEq, Prod.mk.injEq] at h
      obtain ⟨rfl, rfl⟩ := h
      obtain ⟨t, ht⟩ := Option.isSome_iff_exists.1 htext
      exact ⟨⟨body, hbody, t, text?_eq_some_iff.1 ht⟩, rfl, rfl⟩
    · cases h

theorem scan_body (body : Body) (rest : Bytes) :
    scan (body.bytes ++ quote :: rest) = .ok (body.bytes, rest) := by
  obtain ⟨t, ht⟩ := body.text
  have hdrop : (body.bytes ++ quote :: rest).drop (body.bytes.length + 1) = rest := by
    rw [← List.drop_drop, List.drop_left]
    rfl
  simp only [scan, bodyLength_append body.escaped, List.take_left, hdrop,
    text?_eq_some_iff.2 ht, Option.isSome_some, if_true]

end HubDevice.StringBody
