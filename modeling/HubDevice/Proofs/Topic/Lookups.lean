import HubDevice.Proofs.Topic.Lists
import HubDevice.Proofs.Topic.Queries

set_option autoImplicit false

namespace HubDevice

namespace Properties

/-- Among the pairs of the segments a name has the value that the first segment with it has. -/
theorem lookup_pairs (key : String) (segments : List (List Char)) :
    (((segments.filterMap Query.pair?).map fun (name, value) =>
        (String.ofList name, String.ofList value)).lookup key).map String.toList =
      segments.findSome? (Query.valueIn key.toList) := by
  induction segments with
  | nil => rfl
  | cons segment segments ih =>
    cases hpair : Query.pair? segment with
    | none =>
      rw [List.filterMap_cons_none hpair, List.findSome?_cons, Query.valueIn_of_none hpair]
      exact ih
    | some pair =>
      obtain ⟨name, value⟩ := pair
      rw [List.filterMap_cons_some hpair, List.map_cons, List.lookup_cons, List.findSome?_cons,
        Query.valueIn_of_isPair (Query.pair?_eq_some_iff.1 hpair)]
      by_cases hname : name = key.toList
      · have hkey : key = String.ofList name := by rw [hname, String.ofList_toList]
        rw [if_pos hname, beq_iff_eq.2 hkey]
        exact congrArg some (String.toList_ofList)
      · have hkey : key ≠ String.ofList name := by
          rintro rfl
          exact hname String.toList_ofList.symm
        rw [if_neg hname, beq_eq_false_iff_ne.2 hkey]
        exact ih

theorem find?_eq_value? (p : Properties) (key : String) :
    (p.find? key).map String.toList = Query.value? key.toList p.text.toList := by
  rw [find?_eq, toList_eq, pairsOf, pairs_eq, lookup_pairs, Query.value?_eq]

theorem find?_eq_some_iff {p : Properties} {key value : String} :
    p.find? key = some value ↔
      Query.value? key.toList p.text.toList = some value.toList := by
  rw [← find?_eq_value?, Option.map_eq_some_iff]
  constructor
  · intro h
    exact ⟨value, h, rfl⟩
  · rintro ⟨found, h, hvalue⟩
    rw [← String.toList_inj.1 hvalue]
    exact h

theorem find?_eq_none_iff {p : Properties} {key : String} :
    p.find? key = none ↔ Query.value? key.toList p.text.toList = none := by
  rw [← find?_eq_value?, Option.map_eq_none_iff]

/-- Every text can be wrapped as a list. Whatever its segments, a key is found in both or in
neither, with the same value: that of the first segment whose part before the first `=` it is. -/
theorem lookups_agree (query : String) (rest : Bytes) :
    (∃ p, ofEncoded (utf8 query ++ rest) (utf8 query).length = .ok p ∧ p.text = query) ∧
    ∃ segments, segments ≠ [] ∧ (∀ segment ∈ segments, '&' ∉ segment) ∧
      query.toList = Split.join '&' segments ∧
      ∀ p : Properties, p.text = query → ∀ key : String,
        Query.value? key.toList query.toList = (p.find? key).map String.toList ∧
        (∀ value : String, p.find? key = some value ↔
          ∃ before segment behind, segments = before ++ segment :: behind ∧
            Query.IsPair key.toList value.toList segment ∧
            ∀ other ∈ before, ∀ v, ¬ Query.IsPair key.toList v other) ∧
        (p.find? key = none ↔
          ∀ segment ∈ segments, ∀ v, ¬ Query.IsPair key.toList v segment) := by
  obtain ⟨hjoin, habsent⟩ := Split.join_segments '&' query.toList
  refine ⟨⟨_, ofEncoded_leading query rest, text_of_written rfl⟩, Split.segments '&' query.toList,
    Split.segments_ne_nil _ _, habsent, hjoin.symm, ?_⟩
  rintro p rfl key
  refine ⟨(find?_eq_value? p key).symm, fun value => ?_, ?_⟩
  · rw [find?_eq_some_iff, Query.value?_eq, List.findSome?_eq_some_iff]
    simp only [Query.valueIn_isPair_iff, Query.valueIn_eq_none_iff_forall]
  · rw [find?_eq_none_iff, Query.value?_eq, List.findSome?_eq_none_iff]
    simp only [Query.valueIn_eq_none_iff_forall]

end Properties

end HubDevice
