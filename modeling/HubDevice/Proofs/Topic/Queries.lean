import HubDevice.Proofs.Text.Cutting
import HubDevice.Topic.Incoming

set_option autoImplicit false

namespace HubDevice

namespace Query

/-- The segment is the key, its first `=` and the value. -/
def IsPair (key value segment : List Char) : Prop := segment = key ++ '=' :: value ∧ '=' ∉ key

def First (key query value : List Char) : Prop :=
  ∃ before behind : List (List Char),
    query = Split.join '&' (before ++ (key ++ '=' :: value) :: behind) ∧
    (∀ segment ∈ before ++ (key ++ '=' :: value) :: behind, '&' ∉ segment) ∧
    ∀ segment ∈ before, ¬ key ++ ['='] <+: segment

def valueIn (key segment : List Char) : Option (List Char) :=
  match pair? segment with
  | some (k, v) => if k = key then some v else none
  | none => none

theorem value?_eq (key query : List Char) :
    value? key query = (Split.segments '&' query).findSome? (valueIn key) := rfl

theorem pair?_eq_some_iff {segment key value : List Char} :
    pair? segment = some (key, value) ↔ IsPair key value segment :=
  Split.cut?_singleton_eq_some_iff

theorem valueIn_of_isPair {key name value segment : List Char} (h : IsPair name value segment) :
    valueIn key segment = if name = key then some value else none := by
  rw [valueIn, pair?_eq_some_iff.2 h]

theorem valueIn_of_none {key segment : List Char} (h : pair? segment = none) :
    valueIn key segment = none := by
  rw [valueIn, h]

theorem valueIn_isPair_iff {key value segment : List Char} :
    valueIn key segment = some value ↔ IsPair key value segment := by
  constructor
  · intro h
    cases hpair : pair? segment with
    | none =>
      rw [valueIn_of_none hpair] at h
      cases h
    | some pair =>
      obtain ⟨name, found⟩ := pair
      have his := pair?_eq_some_iff.1 hpair
      rw [valueIn_of_isPair his] at h
      split at h
      · next hname =>
        cases h
        rwa [hname] at his
      · cases h
  · intro h
    rw [valueIn_of_isPair h, if_pos rfl]

theorem valueIn_eq_none_iff_forall {key segment : List Char} :
    valueIn key segment = none ↔ ∀ value, ¬ IsPair key value segment := by
  rw [Option.eq_none_iff_forall_ne_some]
  exact forall_congr' fun value => not_congr valueIn_isPair_iff

theorem valueIn_eq_some_iff {key segment value : List Char} (hkey : '=' ∉ key) :
    valueIn key segment = some value ↔ segment = key ++ '=' :: value := by
  rw [valueIn_isPair_iff]
  exact and_iff_left hkey

theorem valueIn_eq_none_iff {key segment : List Char} (hkey : '=' ∉ key) :
    valueIn key segment = none ↔ ¬ key ++ ['='] <+: segment := by
  rw [Option.eq_none_iff_forall_ne_some]
  constructor
  · rintro h ⟨value, rfl⟩
    refine h value ((valueIn_eq_some_iff hkey).2 ?_)
    rw [List.append_assoc, List.singleton_append]
  · intro h value hvalue
    refine h ⟨value, ?_⟩
    rw [(valueIn_eq_some_iff hkey).1 hvalue, List.append_assoc, List.singleton_append]

theorem value?_eq_some_iff {key query value : List Char} (hkey : '=' ∉ key) :
    value? key query = some value ↔ First key query value := by
  rw [value?_eq, List.findSome?_eq_some_iff]
  constructor
  · rintro ⟨before, segment, behind, hsegments, hvalue, hbefore⟩
    obtain rfl := (valueIn_eq_some_iff hkey).1 hvalue
    obtain ⟨-, habsent, hquery⟩ := Split.segments_eq_iff.1 hsegments
    exact ⟨before, behind, hquery, habsent,
      fun part hpart => (valueIn_eq_none_iff hkey).1 (hbefore part hpart)⟩
  · rintro ⟨before, behind, hquery, habsent, hbefore⟩
    have hne : before ++ (key ++ '=' :: value) :: behind ≠ [] := by simp
    exact ⟨before, key ++ '=' :: value, behind, Split.segments_eq_iff.2 ⟨hne, habsent, hquery⟩,
      (valueIn_eq_some_iff hkey).2 rfl,
      fun part hpart => (valueIn_eq_none_iff hkey).2 (hbefore part hpart)⟩

theorem value?_eq_none_iff {key query : List Char} (hkey : '=' ∉ key) :
    value? key query = none ↔ ∀ value, ¬ First key query value := by
  rw [Option.eq_none_iff_forall_ne_some]
  exact forall_congr' fun value => not_congr (value?_eq_some_iff hkey)

theorem value?_of_not_mem {key segment : List Char} (h : '&' ∉ segment) :
    value? key segment = valueIn key segment := by
  rw [value?_eq, Split.segments_of_not_mem h, List.findSome?_singleton]

/-- The segments of a query are looked at one after the other. -/
theorem value?_append {key segment : List Char} (h : '&' ∉ segment) (query : List Char) :
    value? key (segment ++ '&' :: query) = (valueIn key segment).or (value? key query) := by
  rw [value?_eq, Split.segments_append h, List.findSome?_cons]
  cases valueIn key segment <;> rfl

theorem first_alone {key value : List Char} (hkey : '=' ∉ key) (h : '&' ∉ key ++ '=' :: value) :
    First key (key ++ '=' :: value) value := by
  rw [← value?_eq_some_iff hkey, value?_of_not_mem h]
  exact (valueIn_eq_some_iff hkey).2 rfl

theorem first_leading {key value : List Char} (hkey : '=' ∉ key) (h : '&' ∉ key ++ '=' :: value)
    (query : List Char) : First key (key ++ '=' :: value ++ '&' :: query) value := by
  rw [← value?_eq_some_iff hkey, value?_append h, (valueIn_eq_some_iff hkey).2 rfl]
  rfl

theorem First.skip {key segment query value : List Char} (hkey : '=' ∉ key)
    (hother : ¬ key ++ ['='] <+: segment) (h : '&' ∉ segment) (hfirst : First key query value) :
    First key (segment ++ '&' :: query) value := by
  rw [← value?_eq_some_iff hkey] at hfirst ⊢
  rw [value?_append h, (valueIn_eq_none_iff hkey).2 hother, hfirst]
  rfl

theorem not_first_alone {key segment : List Char} (hkey : '=' ∉ key)
    (hother : ¬ key ++ ['='] <+: segment) (h : '&' ∉ segment) (value : List Char) :
    ¬ First key segment value := by
  revert value
  rw [← value?_eq_none_iff hkey, value?_of_not_mem h]
  exact (valueIn_eq_none_iff hkey).2 hother

end Query

namespace Decimal

def Denotes (text : List Char) (n : Nat) : Prop :=
  text ≠ [] ∧ (∀ c ∈ text, c.isDigit = true) ∧ Nat.ofDigitChars 10 text 0 = n

theorem read?_eq_some_iff {bound n : Nat} {text : List Char} :
    read? bound text = some n ↔ Denotes text n ∧ n < bound := by
  unfold read? Denotes
  by_cases hnil : text = []
  · simp [hnil]
  by_cases hdigits : text.all Char.isDigit = true
  · have hall := List.all_eq_true.1 hdigits
    rw [if_neg (by simp [hnil, hdigits])]
    dsimp only
    constructor
    · intro h
      split at h
      · next hbound =>
        cases h
        exact ⟨⟨hnil, hall, rfl⟩, hbound⟩
      · cases h
    · rintro ⟨⟨-, -, rfl⟩, hbound⟩
      exact if_pos hbound
  · rw [if_pos (by simp [hdigits])]
    constructor
    · intro h
      cases h
    · rintro ⟨⟨-, hall, -⟩, -⟩
      exact absurd (List.all_eq_true.2 hall) hdigits

theorem denotes_toDigits (n : Nat) : Denotes (Nat.toDigits 10 n) n :=
  (read?_eq_some_iff.1 (read?_toDigits (Nat.lt_succ_self n))).1

theorem Denotes.not_mem {text : List Char} {n : Nat} (h : Denotes text n) {c : Char}
    (hc : c.isDigit = false) : c ∉ text := by
  intro hmem
  rw [h.2.1 c hmem] at hc
  cases hc

end Decimal

namespace Topic

/-- Query texts begin behind the first mark. -/
theorem cut?_mark {s before behind : List Char} :
    Split.cut? ['/', '?'] s = some (before, behind) ↔
      s = before ++ ('/' :: '?' :: behind) ∧ ¬ ['/', '?'] <:+: before :=
  Split.cut?_eq_some_iff (by decide) (by decide)

theorem toList_marked (lead name query : String) :
    (lead ++ name ++ "/?" ++ query).toList =
      lead.toList ++ (name.toList ++ '/' :: '?' :: query.toList) := by
  have hmark : "/?".toList = ['/', '?'] := by decide
  rw [String.toList_append, String.toList_append, String.toList_append, hmark, List.append_assoc,
    List.append_assoc]
  rfl

theorem toList_identified (requestId : String) :
    ("$rid=" ++ requestId).toList = requestKey ++ '=' :: requestId.toList := by
  have hkey : "$rid=".toList = requestKey ++ ['='] := by decide
  rw [String.toList_append, hkey, List.append_assoc]
  rfl

theorem not_mem_identified {requestId : List Char} (joined : '&' ∉ requestId) :
    '&' ∉ requestKey ++ '=' :: requestId := by
  have hkey : '&' ∉ requestKey := by decide
  simp [hkey, joined]

/-- A text with one lead has no other, where neither begins the other. -/
theorem lead_differs {lead s : List Char} (other : List Char) (h : lead <+: s)
    (hlead : ¬ other <+: lead) (hother : ¬ lead <+: other) : ¬ other <+: s := by
  intro h'
  rcases Nat.le_total lead.length other.length with hle | hle
  · exact hother (List.prefix_of_prefix_length_le h h' hle)
  · exact hlead (List.prefix_of_prefix_length_le h' h hle)

theorem required_eq_some_iff {key query value : List Char} (hkey : '=' ∉ key) :
    required key query = some value ↔ Query.First key query value ∧ value ≠ [] := by
  unfold required
  rw [Option.filter_eq_some_iff, Query.value?_eq_some_iff hkey]
  simp

theorem orNoMatch_eq_ok_iff {α : Type} {parsed : Option α} {a : α} :
    orNoMatch parsed = .ok a ↔ parsed = some a := by
  cases parsed <;> simp [orNoMatch]

theorem orNoMatch_eq_error_of_ne {α : Type} {parsed : Option α}
    (h : ∀ a, orNoMatch parsed ≠ .ok a) : orNoMatch parsed = .error .topicNoMatch := by
  cases parsed with
  | none => rfl
  | some a => exact absurd rfl (h a)

end Topic

end HubDevice
