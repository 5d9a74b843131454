import HubDevice.Text.Split

set_option autoImplicit false

namespace HubDevice.Split

variable {α : Type}

/-- No part of the separator stands both at its beginning and at its end. -/
def Unbordered (sep : List α) : Prop :=
  ∀ n < sep.length, 0 < n → sep.take n ≠ sep.drop (sep.length - n)

theorem unbordered_singleton (c : α) : Unbordered [c] := by
  intro n hn hpos
  rw [List.length_singleton] at hn
  omega

/-- Where an unbordered separator comes up, no other occurrence of it begins inside what stands
before unless it lies there as a whole. -/
theorem Unbordered.not_prefix {sep before behind : List α} (free : Unbordered sep)
    (hbefore : before ≠ []) (absent : ¬ sep <+: before) : ¬ sep <+: before ++ (sep ++ behind) := by
  intro h
  rcases Nat.le_total sep.length before.length with hle | hle
  · exact absent (List.prefix_of_prefix_length_le h (List.prefix_append _ _) hle)
  -- The occurrence ends behind `before`, so its end is a beginning of the separator.
  · obtain ⟨t, rfl⟩ := List.prefix_of_prefix_length_le (List.prefix_append _ _) h hle
    have ht : t <+: before ++ t ++ behind := (List.prefix_append_right_inj before).1 h
    have hpos := List.length_pos_iff.2 hbefore
    have hlength : (before ++ t).length - t.length = before.length := by
      rw [List.length_append, Nat.add_sub_cancel]
    by_cases hnil : t = []
    · subst hnil
      rw [List.append_nil] at absent
      exact absent (List.prefix_refl before)
    · refine free t.length ?_ (List.length_pos_iff.2 hnil) ?_
      · rw [List.length_append]
        omega
      · rw [hlength, List.drop_left]
        have htake := List.prefix_of_prefix_length_le ht (List.prefix_append (before ++ t) behind)
          (by rw [List.length_append]; omega)
        exact (List.prefix_iff_eq_take.1 htake).symm

theorem singleton_infix_iff {c : α} {s : List α} : [c] <:+: s ↔ c ∈ s := by
  constructor
  · rintro ⟨before, behind, rfl⟩
    simp
  · intro h
    obtain ⟨before, behind, rfl⟩ := List.append_of_mem h
    exact ⟨before, behind, by simp⟩

def join (sep : α) (parts : List (List α)) : List α := List.intercalate [sep] parts

theorem join_cons {sep : α} (part : List α) {parts : List (List α)} (h : parts ≠ []) :
    join sep (part :: parts) = part ++ sep :: join sep parts := by
  cases parts with
  | nil => exact absurd rfl h
  | cons next parts =>
    unfold join
    rw [List.intercalate_cons_cons, List.append_assoc]
    rfl

theorem infix_join (sep : α) (before behind : List (List α)) (part : List α) :
    part <:+: join sep (before ++ part :: behind) := by
  induction before with
  | nil =>
    cases behind with
    | nil =>
      have halone : join sep [part] = part := by rw [join, List.intercalate_singleton]
      exact ⟨[], [], by rw [List.nil_append, List.nil_append, List.append_nil, halone]⟩
    | cons next behind =>
      rw [List.nil_append, join_cons _ (List.cons_ne_nil _ _)]
      exact (List.prefix_append _ _).isInfix
  | cons first before ih =>
    rw [List.cons_append, join_cons _ (by simp)]
    exact ih.trans ((List.suffix_cons _ _).trans (List.suffix_append _ _)).isInfix

variable [DecidableEq α]

theorem after?_eq_some_iff {lead s rest : List α} :
    after? lead s = some rest ↔ s = lead ++ rest := by
  unfold after?
  constructor
  · intro h
    split at h
    · next hlead =>
      obtain ⟨t, rfl⟩ := List.isPrefixOf_iff_prefix.1 hlead
      rw [List.drop_left] at h
      rw [Option.some.inj h]
    · cases h
  · rintro rfl
    rw [if_pos (List.isPrefixOf_iff_prefix.2 (List.prefix_append lead rest)), List.drop_left]

theorem after?_eq_none_iff {lead s : List α} : after? lead s = none ↔ ¬ lead <+: s := by
  rw [Option.eq_none_iff_forall_ne_some]
  constructor
  · rintro h ⟨rest, rfl⟩
    exact h rest (after?_eq_some_iff.2 rfl)
  · intro h rest hrest
    exact h ⟨rest, (after?_eq_some_iff.1 hrest).symm⟩

instance (sep : List α) : Decidable (Unbordered sep) :=
  inferInstanceAs (Decidable (∀ n < sep.length, 0 < n → sep.take n ≠ sep.drop (sep.length - n)))

/-- The text is cut at the first occurrence of the separator. -/
theorem cut?_eq_some_iff {sep s before behind : List α} (hsep : sep ≠ [])
    (free : Unbordered sep) :
    cut? sep s = some (before, behind) ↔
      s = before ++ (sep ++ behind) ∧ ¬ sep <:+: before := by
  induction s generalizing before with
  | nil =>
    constructor
    · intro h
      cases h
    · rintro ⟨h, -⟩
      exact absurd (List.append_eq_nil_iff.1 (List.append_eq_nil_iff.1 h.symm).2).1 hsep
  | cons c s ih =>
    rw [cut?]
    cases hafter : after? sep (c :: s) with
    | some rest =>
      have hs := after?_eq_some_iff.1 hafter
      constructor
      · intro h
        cases h
        exact ⟨hs, fun h => hsep (List.infix_nil.1 h)⟩
      · rintro ⟨hcut, absent⟩
        cases before with
        | nil =>
          rw [hs] at hcut
          rw [List.append_cancel_left hcut]
        | cons d before =>
          have hlead : sep <+: d :: before ++ (sep ++ behind) := hcut ▸ ⟨rest, hs.symm⟩
          have hnot : ¬ sep <+: d :: before := fun h => absent h.isInfix
          exact absurd hlead (free.not_prefix (List.cons_ne_nil d before) hnot)
    | none =>
      have hnone := after?_eq_none_iff.1 hafter
      constructor
      · intro h
        obtain ⟨⟨front, back⟩, hrest, hparts⟩ := Option.map_eq_some_iff.1 h
        cases hparts
        obtain ⟨hs, absent⟩ := ih.1 hrest
        refine ⟨congrArg (c :: ·) hs, fun h => ?_⟩
        rcases List.infix_cons_iff.1 h with hlead | hinside
        · rw [hs] at hnone
          exact hnone (hlead.trans (List.prefix_append (c :: front) (sep ++ back)))
        · exact absent hinside
      · rintro ⟨hcut, absent⟩
        cases before with
        | nil => exact absurd ⟨behind, hcut.symm⟩ hnone
        | cons d before =>
          obtain ⟨rfl, hs⟩ := List.cons.inj hcut
          have hrest := ih.2 ⟨hs, fun h => absent (List.infix_cons h)⟩
          rw [hrest]
          rfl

theorem cut?_singleton_eq_some_iff {c : α} {s before behind : List α} :
    cut? [c] s = some (before, behind) ↔ s = before ++ c :: behind ∧ c ∉ before := by
  rw [cut?_eq_some_iff (List.cons_ne_nil c []) (unbordered_singleton c), singleton_infix_iff]
  rfl

theorem cut?_singleton_eq_none_iff {c : α} {s : List α} : cut? [c] s = none ↔ c ∉ s := by
  rw [Option.eq_none_iff_forall_ne_some]
  constructor
  · intro h hmem
    obtain ⟨before, behind, rfl, absent⟩ := List.eq_append_cons_of_mem hmem
    exact h (before, behind) (cut?_singleton_eq_some_iff.2 ⟨rfl, absent⟩)
  · rintro absent ⟨before, behind⟩ h
    obtain ⟨rfl, -⟩ := cut?_singleton_eq_some_iff.1 h
    exact absent (by simp)

theorem segments_ne_nil (sep : α) (s : List α) : segments sep s ≠ [] := by
  cases s with
  | nil => exact List.cons_ne_nil _ _
  | cons c s =>
    rw [segments]
    split
    · exact List.cons_ne_nil _ _
    · split <;> exact List.cons_ne_nil _ _

theorem segments_of_not_mem {sep : α} {part : List α} (h : sep ∉ part) :
    segments sep part = [part] := by
  induction part with
  | nil => rfl
  | cons c part ih =>
    obtain ⟨hc, hpart⟩ := List.ne_and_not_mem_of_not_mem_cons h
    rw [segments, if_neg hc.symm, ih hpart]

theorem segments_append {sep : α} {part : List α} (h : sep ∉ part) (s : List α) :
    segments sep (part ++ sep :: s) = part :: segments sep s := by
  induction part with
  | nil => rw [List.nil_append, segments, if_pos rfl]
  | cons c part ih =>
    obtain ⟨hc, hpart⟩ := List.ne_and_not_mem_of_not_mem_cons h
    rw [List.cons_append, segments, if_neg hc.symm, ih hpart]

/-- Text put together at a separator has the segments of both parts. -/
theorem segments_parted (sep : α) (s t : List α) :
    segments sep (s ++ sep :: t) = segments sep s ++ segments sep t := by
  induction s with
  | nil => exact segments_append List.not_mem_nil t
  | cons c s ih =>
    rw [List.cons_append, segments, segments, ih]
    split
    · rfl
    · cases hparts : segments sep s with
      | nil => exact absurd hparts (segments_ne_nil sep s)
      | cons first others => rfl

theorem segments_join {sep : α} {parts : List (List α)} (hne : parts ≠ [])
    (h : ∀ part ∈ parts, sep ∉ part) : segments sep (join sep parts) = parts := by
  induction parts with
  | nil => exact absurd rfl hne
  | cons part parts ih =>
    have hpart := h part List.mem_cons_self
    by_cases hnil : parts = []
    · subst hnil
      rw [join, List.intercalate_singleton]
      exact segments_of_not_mem hpart
    · rw [join_cons part hnil, segments_append hpart,
        ih hnil fun next hnext => h next (List.mem_cons_of_mem part hnext)]

/-- A text is its segments put together, and no segment holds a separator. -/
theorem join_segments (sep : α) (s : List α) :
    join sep (segments sep s) = s ∧ ∀ part ∈ segments sep s, sep ∉ part := by
  induction s with
  | nil => exact ⟨rfl, by simp [segments]⟩
  | cons c s ih =>
    obtain ⟨hjoin, habsent⟩ := ih
    have hne := segments_ne_nil sep s
    rw [segments]
    split
    · next hc =>
      refine ⟨?_, by simpa using habsent⟩
      rw [join_cons [] hne, hjoin, hc]
      rfl
    · next hc =>
      cases hparts : segments sep s with
      | nil => exact absurd hparts hne
      | cons first others =>
        rw [hparts] at hjoin habsent
        obtain ⟨hfirst, hothers⟩ := List.forall_mem_cons.1 habsent
        refine ⟨?_, List.forall_mem_cons.2 ⟨?_, hothers⟩⟩
        · rw [← hjoin]
          cases others with
          | nil => rfl
          | cons next others =>
            rw [join_cons _ (List.cons_ne_nil _ _), join_cons _ (List.cons_ne_nil _ _)]
            rfl
        · rw [List.mem_cons, not_or]
          exact ⟨fun h => hc h.symm, hfirst⟩

theorem segments_eq_iff {sep : α} {s : List α} {parts : List (List α)} :
    segments sep s = parts ↔
      parts ≠ [] ∧ (∀ part ∈ parts, sep ∉ part) ∧ s = join sep parts := by
  constructor
  · rintro rfl
    obtain ⟨hjoin, habsent⟩ := join_segments sep s
    exact ⟨segments_ne_nil sep s, habsent, hjoin.symm⟩
  · rintro ⟨hne, habsent, rfl⟩
    exact segments_join hne habsent

end HubDevice.Split
