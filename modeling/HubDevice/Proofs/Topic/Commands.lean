import HubDevice.Proofs.Topic.Queries

set_option autoImplicit false

namespace HubDevice.Topic

/-- The name stands for a command, of a component or of the device itself. -/
inductive Addresses : String → Option String → String → Prop
  | device {command : String} (plain : '*' ∉ command.toList) : Addresses command none command
  | component {component command : String} (hcomponent : component ≠ "") (hcommand : command ≠ "")
    (plain : '*' ∉ component.toList) :
    Addresses (component ++ "*" ++ command) (some component) command

structure IsMethod (topic name requestId : String) : Prop where
  named : name ≠ ""
  bounded : ¬ ['/', '?'] <:+: name.toList
  identified : requestId ≠ ""
  form : ∃ query : String, topic = "$iothub/methods/POST/" ++ name ++ "/?" ++ query ∧
    Query.First requestKey query.toList requestId.toList

def IsCommand (topic : String) (request : CommandRequest) : Prop :=
  ∃ name, IsMethod topic name request.requestId ∧
    Addresses name request.component request.command

def methodTopic (name requestId : String) : String :=
  "$iothub/methods/POST/" ++ name ++ "/?" ++ ("$rid=" ++ requestId)

theorem toList_method (name query : String) :
    ("$iothub/methods/POST/" ++ name ++ "/?" ++ query).toList =
      methodLead ++ (name.toList ++ '/' :: '?' :: query.toList) :=
  toList_marked _ name query

theorem methodRequest?_eq_some_iff {topic : String} {request : MethodRequest} :
    methodRequest? topic = some request ↔ IsMethod topic request.name request.requestId := by
  unfold methodRequest?
  constructor
  · intro h
    obtain ⟨rest, hrest, h⟩ := Option.bind_eq_some_iff.1 h
    obtain ⟨⟨name, query⟩, hcut, h⟩ := Option.bind_eq_some_iff.1 h
    dsimp only at h
    split at h
    · cases h
    next hname =>
    obtain ⟨requestId, hrequired, h⟩ := Option.bind_eq_some_iff.1 h
    cases h
    obtain ⟨hrest', hbounded⟩ := cut?_mark.1 hcut
    obtain ⟨hfirst, hne⟩ := (required_eq_some_iff (by decide)).1 hrequired
    refine ⟨?_, ?_, mt String.ofList_eq_empty_iff.1 hne, String.ofList query, ?_, ?_⟩
    · rw [Bool.not_eq_true, List.isEmpty_eq_false_iff] at hname
      exact mt String.ofList_eq_empty_iff.1 hname
    · rw [String.toList_ofList]
      exact hbounded
    · rw [← String.toList_inj, toList_method, Split.after?_eq_some_iff.1 hrest, hrest',
        String.toList_ofList, String.toList_ofList]
    · rw [String.toList_ofList, String.toList_ofList]
      exact hfirst
  · rintro ⟨hnamed, hbounded, hidentified, query, rfl, hfirst⟩
    have hlead := Split.after?_eq_some_iff.2 (toList_method request.name query)
    have hcut := cut?_mark.2 ⟨@rfl _ (request.name.toList ++ '/' :: '?' :: query.toList), hbounded⟩
    have hname : request.name.toList.isEmpty = false :=
      List.isEmpty_eq_false_iff.2 (mt String.toList_eq_nil_iff.1 hnamed)
    have hkey : '=' ∉ requestKey := by decide
    have hrequired := (required_eq_some_iff hkey).2
      ⟨hfirst, mt String.toList_eq_nil_iff.1 hidentified⟩
    simp only [hlead, hcut, hname, hrequired, Option.bind_eq_bind, Option.bind_some,
      String.ofList_toList]
    rfl

theorem toList_component (component command : String) :
    (component ++ "*" ++ command).toList = component.toList ++ '*' :: command.toList := by
  have hmark : "*".toList = ['*'] := by decide
  rw [String.toList_append, String.toList_append, hmark, List.append_assoc]
  rfl

theorem addresses_plain {name command : String} {component : Option String}
    (plain : '*' ∉ name.toList) :
    Addresses name component command ↔ component = none ∧ command = name := by
  constructor
  · intro h
    cases h with
    | device _ => exact ⟨rfl, rfl⟩
    | component _ _ _ =>
      rw [toList_component] at plain
      simp at plain
  · rintro ⟨rfl, rfl⟩
    exact .device plain

/-- A name with separators is parted at the first of them. -/
theorem addresses_parted {name command : String} {component : Option String}
    {front back : List Char} (parted : name.toList = front ++ '*' :: back)
    (plain : '*' ∉ front) :
    Addresses name component command ↔
      front ≠ [] ∧ back ≠ [] ∧ component = some (String.ofList front) ∧
        command = String.ofList back := by
  have hcut := Split.cut?_singleton_eq_some_iff.2 ⟨parted, plain⟩
  constructor
  · intro h
    cases h with
    | device hplain => simp [parted] at hplain
    | @component c _ hc hcommand hplain =>
      have hcut' := Split.cut?_singleton_eq_some_iff.2 ⟨toList_component c command, hplain⟩
      rw [hcut] at hcut'
      cases hcut'
      exact ⟨mt String.toList_eq_nil_iff.1 hc, mt String.toList_eq_nil_iff.1 hcommand,
        by rw [String.ofList_toList], by rw [String.ofList_toList]⟩
  · rintro ⟨hfront, hback, rfl, rfl⟩
    have hname : name = String.ofList front ++ "*" ++ String.ofList back := by
      rw [← String.toList_inj, toList_component, parted, String.toList_ofList,
        String.toList_ofList]
    rw [hname]
    apply Addresses.component
    · exact mt String.ofList_eq_empty_iff.1 hfront
    · exact mt String.ofList_eq_empty_iff.1 hback
    · rwa [String.toList_ofList]

/-- The addressee that a name is read as. -/
theorem commandRequest?_of_method {topic : String} {method : MethodRequest}
    {request : CommandRequest} (h : methodRequest? topic = some method) :
    commandRequest? topic = some request ↔
      Addresses method.name request.component request.command ∧
        request.requestId = method.requestId := by
  unfold commandRequest? commandSeparator
  rw [h, Option.bind_eq_bind, Option.bind_some]
  cases hcut : Split.cut? ['*'] method.name.toList with
  | none =>
    rw [addresses_plain (Split.cut?_singleton_eq_none_iff.1 hcut)]
    constructor
    · intro h
      cases h
      exact ⟨⟨rfl, rfl⟩, rfl⟩
    · rintro ⟨⟨hcomponent, hcommand⟩, hid⟩
      rw [← hcomponent, ← hcommand, ← hid]
      rfl
  | some parts =>
    obtain ⟨front, back⟩ := parts
    obtain ⟨parted, plain⟩ := Split.cut?_singleton_eq_some_iff.1 hcut
    rw [addresses_parted parted plain]
    dsimp only
    split
    · next hempty =>
      constructor
      · intro h
        cases h
      · rintro ⟨⟨hfront, hback, -⟩, -⟩
        simp [hfront, hback] at hempty
    · next hempty =>
      rw [Bool.not_eq_true, Bool.or_eq_false_iff, List.isEmpty_eq_false_iff,
        List.isEmpty_eq_false_iff] at hempty
      constructor
      · intro h
        cases h
        exact ⟨⟨hempty.1, hempty.2, rfl, rfl⟩, rfl⟩
      · rintro ⟨⟨-, -, hcomponent, hcommand⟩, hid⟩
        rw [← hcomponent, ← hcommand, ← hid]
        rfl

theorem commandRequest?_eq_some_iff {topic : String} {request : CommandRequest} :
    commandRequest? topic = some request ↔ IsCommand topic request := by
  constructor
  · intro h
    obtain ⟨method, hmethod, -⟩ := Option.bind_eq_some_iff.1 h
    obtain ⟨haddresses, hid⟩ := (commandRequest?_of_method hmethod).1 h
    rw [IsCommand, hid]
    exact ⟨method.name, methodRequest?_eq_some_iff.1 hmethod, haddresses⟩
  · rintro ⟨name, hmethod, haddresses⟩
    have hrequest : methodRequest? topic = some ⟨name, request.requestId⟩ :=
      methodRequest?_eq_some_iff.2 hmethod
    exact (commandRequest?_of_method hrequest).2 ⟨haddresses, rfl⟩

theorem isMethod_methodTopic {name requestId : String} (named : name ≠ "")
    (bounded : ¬ ['/', '?'] <:+: name.toList) (identified : requestId ≠ "")
    (joined : '&' ∉ requestId.toList) : IsMethod (methodTopic name requestId) name requestId := by
  have hfirst : Query.First requestKey ("$rid=" ++ requestId).toList requestId.toList := by
    rw [toList_identified]
    exact Query.first_alone (by decide) (not_mem_identified joined)
  exact ⟨named, bounded, identified, "$rid=" ++ requestId, rfl, hfirst⟩

/-- No answer about the twin comes on a method topic. -/
theorem twinResponse?_method {topic name requestId : String}
    (h : IsMethod topic name requestId) : twinResponse? topic = none := by
  obtain ⟨-, -, -, query, rfl, -⟩ := h
  have hlead : methodLead <+: ("$iothub/methods/POST/" ++ name ++ "/?" ++ query).toList :=
    ⟨_, (toList_method name query).symm⟩
  have hresponse := Split.after?_eq_none_iff.2
    (lead_differs twinResponseLead hlead (by decide) (by decide))
  have hpatch := Split.after?_eq_none_iff.2
    (lead_differs twinPatchLead hlead (by decide) (by decide))
  rw [twinResponse?, hresponse, hpatch]
  rfl

/-- Reading a command gives a request exactly where the topic has the form of one, and this request;
it fails in one way only. A topic made for a request is read back, and no command topic is taken for
an answer about the twin. -/
theorem parseCommand_exact (topic : String) :
    (∀ request, parseCommand topic = .ok request ↔ IsCommand topic request) ∧
    ((∀ request, ¬ IsCommand topic request) → parseCommand topic = .error .topicNoMatch) ∧
    (∀ name component command requestId, Addresses name component command → name ≠ "" →
      ¬ ['/', '?'] <:+: name.toList → requestId ≠ "" → '&' ∉ requestId.toList →
      parseCommand (methodTopic name requestId) = .ok ⟨component, command, requestId⟩) ∧
    (∀ request, parseCommand topic = .ok request →
      parseTwin topic = .error .topicNoMatch) := by
  have hexact : ∀ topic request, parseCommand topic = .ok request ↔ IsCommand topic request :=
    fun topic request => orNoMatch_eq_ok_iff.trans commandRequest?_eq_some_iff
  refine ⟨hexact topic, fun h => ?_, ?_, fun request h => ?_⟩
  · exact orNoMatch_eq_error_of_ne fun request hok => h request ((hexact topic request).1 hok)
  · intro name component command requestId haddresses named bounded identified joined
    refine (hexact _ ⟨component, command, requestId⟩).2 ⟨name, ?_, haddresses⟩
    exact isMethod_methodTopic named bounded identified joined
  · obtain ⟨name, hmethod, -⟩ := (hexact topic request).1 h
    rw [parseTwin, twinResponse?_method hmethod]
    rfl

end HubDevice.Topic
