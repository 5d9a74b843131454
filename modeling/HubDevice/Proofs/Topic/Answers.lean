import HubDevice.Proofs.Topic.Queries

set_option autoImplicit false

namespace HubDevice.Topic

/-- What the query says about the version of the twin. The first version is the one that counts,
and it is a number. -/
def Versioned (query : List Char) : Option UInt32 → Prop
  | none => ∀ text, ¬ Query.First versionKey query text
  | some version => ∃ text, Query.First versionKey query text ∧ Decimal.Denotes text version.toNat

def answerOf (status : Status) : TwinAnswer :=
  if status = .noContent then .reported else .document

/-- The topic of an answer to a request. A code has no slash in it, so the first mark stands right
behind it. -/
structure IsAnswer (topic : String) (response : TwinResponse) : Prop where
  kind : response.answer = answerOf response.status
  identified : response.requestId ≠ ""
  form : ∃ code query : String, topic = "$iothub/twin/res/" ++ code ++ "/?" ++ query ∧
    Decimal.Denotes code.toList response.status.code.toNat ∧
    Query.First requestKey query.toList response.requestId.toList ∧
    Versioned query.toList response.version

def IsPatch (topic : String) (response : TwinResponse) : Prop :=
  ∃ (query : String) (version : UInt32),
    topic = "$iothub/twin/PATCH/properties/desired/" ++ "?" ++ query ∧
    Versioned query.toList (some version) ∧ response = ⟨.desired, .ok, "", some version⟩

def answerQuery (requestId : String) : Option UInt32 → String
  | none => "$rid=" ++ requestId
  | some version => "$rid=" ++ requestId ++ "&$version=" ++ Decimal.text version.toNat

def answerTopic (status : Status) (requestId : String) (version : Option UInt32) : String :=
  "$iothub/twin/res/" ++ status.text ++ "/?" ++ answerQuery requestId version

def patchTopic (version : UInt32) : String :=
  "$iothub/twin/PATCH/properties/desired/" ++ "?" ++ ("$version=" ++ Decimal.text version.toNat)

theorem version?_eq_some_iff {text : List Char} {version : UInt32} :
    version? text = some version ↔ Decimal.Denotes text version.toNat := by
  unfold version?
  rw [Option.map_eq_some_iff]
  constructor
  · rintro ⟨n, hread, rfl⟩
    obtain ⟨hdenotes, hbound⟩ := Decimal.read?_eq_some_iff.1 hread
    rwa [Nat.toUInt32, UInt32.toNat_ofNat_of_lt' hbound]
  · intro h
    exact ⟨version.toNat, Decimal.read?_eq_some_iff.2 ⟨h, version.toNat_lt⟩, UInt32.ofNat_toNat⟩

def versionOf (query : List Char) : Option (Option UInt32) :=
  match Query.value? versionKey query with
  | none => some none
  | some text => (version? text).map some

theorem versionOf_eq_some_iff {query : List Char} {version : Option UInt32} :
    versionOf query = some version ↔ Versioned query version := by
  have hkey : '=' ∉ versionKey := by decide
  unfold versionOf
  cases hvalue : Query.value? versionKey query with
  | none =>
    have habsent := (Query.value?_eq_none_iff hkey).1 hvalue
    cases version with
    | none => exact iff_of_true rfl habsent
    | some v =>
      refine iff_of_false (by simp) ?_
      rintro ⟨text, hfirst, -⟩
      exact habsent text hfirst
  | some text =>
    have hfirst := (Query.value?_eq_some_iff hkey).1 hvalue
    cases version with
    | none => exact iff_of_false (by simp) fun h => h text hfirst
    | some v =>
      dsimp only
      rw [Option.map_eq_some_iff]
      constructor
      · rintro ⟨w, hw, hwv⟩
        cases hwv
        exact ⟨text, hfirst, version?_eq_some_iff.1 hw⟩
      · rintro ⟨other, hother, hdenotes⟩
        rw [(Query.value?_eq_some_iff hkey).2 hother] at hvalue
        cases hvalue
        exact ⟨v, version?_eq_some_iff.2 hdenotes, rfl⟩

/-- The parts of an answer are read from its code and its query. -/
theorem twinAnswer?_marked {rest code query : List Char}
    (hcut : Split.cut? ['/', '?'] rest = some (code, query)) :
    twinAnswer? rest = (Decimal.read? UInt16.size code).bind fun n =>
      (required requestKey query).bind fun requestId =>
        (versionOf query).map fun version =>
          ⟨answerOf ⟨n.toUInt16⟩, ⟨n.toUInt16⟩, String.ofList requestId, version⟩ := by
  unfold twinAnswer? versionOf
  rw [hcut, Option.bind_eq_bind, Option.bind_some]
  apply Option.bind_congr
  intro n _
  apply Option.bind_congr
  intro requestId _
  cases Query.value? versionKey query with
  | none => rfl
  | some text =>
    dsimp only
    cases version? text <;> rfl

theorem twinAnswer?_eq_some_iff {rest : List Char} {response : TwinResponse} :
    twinAnswer? rest = some response ↔ ∃ code query, rest = code ++ '/' :: '?' :: query ∧
      Decimal.Denotes code response.status.code.toNat ∧
      Query.First requestKey query response.requestId.toList ∧ response.requestId ≠ "" ∧
      Versioned query response.version ∧ response.answer = answerOf response.status := by
  constructor
  · intro h
    obtain ⟨⟨code, query⟩, hcut, -⟩ := Option.bind_eq_some_iff.1 h
    rw [twinAnswer?_marked hcut] at h
    obtain ⟨n, hread, h⟩ := Option.bind_eq_some_iff.1 h
    obtain ⟨requestId, hrequired, h⟩ := Option.bind_eq_some_iff.1 h
    obtain ⟨version, hversion, rfl⟩ := Option.map_eq_some_iff.1 h
    obtain ⟨hdenotes, hbound⟩ := Decimal.read?_eq_some_iff.1 hread
    obtain ⟨hfirst, hne⟩ := (required_eq_some_iff (by decide)).1 hrequired
    refine ⟨code, query, (cut?_mark.1 hcut).1, ?_, ?_, mt String.ofList_eq_empty_iff.1 hne,
      versionOf_eq_some_iff.1 hversion, rfl⟩
    · rwa [Nat.toUInt16, UInt16.toNat_ofNat_of_lt' hbound]
    · rwa [String.toList_ofList]
  · rintro ⟨code, query, hrest, hdenotes, hfirst, hne, hversion, hkind⟩
    have hcode : ¬ ['/', '?'] <:+: code := fun h =>
      hdenotes.not_mem (c := '/') rfl (h.subset (by simp))
    have hread := Decimal.read?_eq_some_iff.2 ⟨hdenotes, response.status.code.toNat_lt⟩
    have hkey : '=' ∉ requestKey := by decide
    have hrequired := (required_eq_some_iff hkey).2
      ⟨hfirst, mt String.toList_eq_nil_iff.1 hne⟩
    rw [twinAnswer?_marked (cut?_mark.2 ⟨hrest, hcode⟩), hread, hrequired,
      versionOf_eq_some_iff.2 hversion, Option.bind_some, Option.bind_some, Option.map_some,
      String.ofList_toList, Nat.toUInt16, UInt16.ofNat_toNat, ← hkind]

theorem twinPatch?_eq_some_iff {rest : List Char} {response : TwinResponse} :
    twinPatch? rest = some response ↔ ∃ query version, rest = '?' :: query ∧
      Versioned query (some version) ∧ response = ⟨.desired, .ok, "", some version⟩ := by
  have hkey : '=' ∉ versionKey := by decide
  constructor
  · intro h
    obtain ⟨query, hquery, h⟩ := Option.bind_eq_some_iff.1 h
    obtain ⟨version, hversion, h⟩ := Option.bind_eq_some_iff.1 h
    obtain ⟨text, htext, hversion⟩ := Option.bind_eq_some_iff.1 hversion
    cases h
    exact ⟨query, version, Split.after?_eq_some_iff.1 hquery,
      ⟨text, (Query.value?_eq_some_iff hkey).1 htext, version?_eq_some_iff.1 hversion⟩, rfl⟩
  · rintro ⟨query, version, hrest, ⟨text, hfirst, hdenotes⟩, rfl⟩
    have hquery : Split.after? ['?'] rest = some query := Split.after?_eq_some_iff.2 hrest
    have hversion : (Query.value? versionKey query).bind version? = some version := by
      rw [(Query.value?_eq_some_iff hkey).2 hfirst]
      exact version?_eq_some_iff.2 hdenotes
    rw [twinPatch?, hquery, Option.bind_eq_bind, Option.bind_some, hversion]
    rfl

theorem toList_answer (code query : String) :
    ("$iothub/twin/res/" ++ code ++ "/?" ++ query).toList =
      twinResponseLead ++ (code.toList ++ '/' :: '?' :: query.toList) :=
  toList_marked _ code query

theorem toList_patch (query : String) :
    ("$iothub/twin/PATCH/properties/desired/" ++ "?" ++ query).toList =
      twinPatchLead ++ '?' :: query.toList := by
  have hmark : "?".toList = ['?'] := by decide
  rw [String.toList_append, String.toList_append, hmark, List.append_assoc]
  rfl

/-- Topics with the stem of an answer are read as answers. -/
theorem twinResponse?_answer {topic : String} {rest : List Char}
    (h : topic.toList = twinResponseLead ++ rest) : twinResponse? topic = twinAnswer? rest := by
  rw [twinResponse?, Split.after?_eq_some_iff.2 h]

/-- Topics with the stem of a patch do not have the stem of an answer. -/
theorem twinResponse?_patch {topic : String} {rest : List Char}
    (h : topic.toList = twinPatchLead ++ rest) : twinResponse? topic = twinPatch? rest := by
  have hlead : twinPatchLead <+: topic.toList := ⟨rest, h.symm⟩
  have hresponse := Split.after?_eq_none_iff.2
    (lead_differs twinResponseLead hlead (by decide) (by decide))
  rw [twinResponse?, hresponse, Split.after?_eq_some_iff.2 h]
  rfl

theorem twinResponse?_eq_some_iff {topic : String} {response : TwinResponse} :
    twinResponse? topic = some response ↔ IsAnswer topic response ∨ IsPatch topic response := by
  constructor
  · intro h
    cases hresponse : Split.after? twinResponseLead topic.toList with
    | some rest =>
      have hrest := Split.after?_eq_some_iff.1 hresponse
      rw [twinResponse?_answer hrest] at h
      obtain ⟨code, query, rfl, hdenotes, hfirst, hne, hversion, hkind⟩ :=
        twinAnswer?_eq_some_iff.1 h
      refine .inl ⟨hkind, hne, String.ofList code, String.ofList query, ?_, ?_, ?_, ?_⟩
      · rw [← String.toList_inj, toList_answer, hrest, String.toList_ofList, String.toList_ofList]
      · rwa [String.toList_ofList]
      · rwa [String.toList_ofList]
      · rwa [String.toList_ofList]
    | none =>
      rw [twinResponse?, hresponse] at h
      obtain ⟨rest, hpatch, h⟩ := Option.bind_eq_some_iff.1 h
      obtain ⟨query, version, rfl, hversion, hresponse⟩ := twinPatch?_eq_some_iff.1 h
      refine .inr ⟨String.ofList query, version, ?_, ?_, hresponse⟩
      · rw [← String.toList_inj, toList_patch, Split.after?_eq_some_iff.1 hpatch,
          String.toList_ofList]
      · rwa [String.toList_ofList]
  · rintro (⟨hkind, hne, code, query, rfl, hdenotes, hfirst, hversion⟩ |
      ⟨query, version, rfl, hversion, hresponse⟩)
    · rw [twinResponse?_answer (toList_answer code query)]
      exact twinAnswer?_eq_some_iff.2 ⟨_, _, rfl, hdenotes, hfirst, hne, hversion, hkind⟩
    · rw [twinResponse?_patch (toList_patch query)]
      exact twinPatch?_eq_some_iff.2 ⟨_, version, rfl, hversion, hresponse⟩

theorem toList_versioned (version : UInt32) :
    ("$version=" ++ Decimal.text version.toNat).toList =
      versionKey ++ '=' :: Nat.toDigits 10 version.toNat := by
  have hkey : "$version=".toList = versionKey ++ ['='] := by decide
  rw [String.toList_append, hkey, List.append_assoc, Decimal.text, String.toList_ofList]
  rfl

/-- A version written down is the version of the query, behind a request identifier or alone. -/
theorem versioned_alone (version : UInt32) :
    Versioned (versionKey ++ '=' :: Nat.toDigits 10 version.toNat) (some version) := by
  have hdenotes := Decimal.denotes_toDigits version.toNat
  have hkey : '&' ∉ versionKey := by decide
  have hdigits : '&' ∉ Nat.toDigits 10 version.toNat := hdenotes.not_mem rfl
  exact ⟨_, Query.first_alone (by decide) (by simp [hkey, hdigits]), hdenotes⟩

theorem toList_answerQuery_some (requestId : String) (version : UInt32) :
    (answerQuery requestId (some version)).toList =
      requestKey ++ '=' :: requestId.toList ++
        '&' :: (versionKey ++ '=' :: Nat.toDigits 10 version.toNat) := by
  have hkey : "&$version=".toList = '&' :: (versionKey ++ ['=']) := by decide
  rw [answerQuery, String.toList_append, String.toList_append, toList_identified, hkey,
    Decimal.text, String.toList_ofList]
  simp only [List.append_assoc, List.cons_append, List.nil_append]

/-- The request identifier is not taken for a version. -/
theorem not_version_identified (requestId : List Char) :
    ¬ versionKey ++ ['='] <+: requestKey ++ '=' :: requestId := by
  have hlead : requestKey <+: requestKey ++ '=' :: requestId := List.prefix_append _ _
  exact lead_differs _ hlead (by decide) (by decide)

theorem first_answerQuery {requestId : String} (joined : '&' ∉ requestId.toList)
    (version : Option UInt32) :
    Query.First requestKey (answerQuery requestId version).toList requestId.toList := by
  cases version with
  | none =>
    rw [answerQuery, toList_identified]
    exact Query.first_alone (by decide) (not_mem_identified joined)
  | some v =>
    rw [toList_answerQuery_some]
    exact Query.first_leading (by decide) (not_mem_identified joined) _

theorem versioned_answerQuery {requestId : String} (joined : '&' ∉ requestId.toList)
    (version : Option UInt32) : Versioned (answerQuery requestId version).toList version := by
  cases version with
  | none =>
    rw [answerQuery, toList_identified]
    exact Query.not_first_alone (by decide) (not_version_identified _) (not_mem_identified joined)
  | some v =>
    obtain ⟨text, hfirst, hdenotes⟩ := versioned_alone v
    rw [toList_answerQuery_some]
    exact ⟨text, hfirst.skip (by decide) (not_version_identified _) (not_mem_identified joined),
      hdenotes⟩

theorem isAnswer_answerTopic {status : Status} {requestId : String} (version : Option UInt32)
    (identified : requestId ≠ "") (joined : '&' ∉ requestId.toList) :
    IsAnswer (answerTopic status requestId version)
      ⟨answerOf status, status, requestId, version⟩ := by
  have hcode : Decimal.Denotes status.text.toList status.code.toNat := by
    rw [Status.text, Decimal.text, String.toList_ofList]
    exact Decimal.denotes_toDigits _
  exact ⟨rfl, identified, status.text, answerQuery requestId version, rfl, hcode,
    first_answerQuery joined version, versioned_answerQuery joined version⟩

theorem isPatch_patchTopic (version : UInt32) :
    IsPatch (patchTopic version) ⟨.desired, .ok, "", some version⟩ := by
  refine ⟨"$version=" ++ Decimal.text version.toNat, version, rfl, ?_, rfl⟩
  rw [toList_versioned]
  exact versioned_alone version

/-- Reading an answer gives a response exactly where the topic has the form of an answer or of a
patch, and this response; it fails in one way only. The topics made for an answer and for a patch
are read back. -/
theorem parseTwin_exact :
    (∀ topic response,
      parseTwin topic = .ok response ↔ IsAnswer topic response ∨ IsPatch topic response) ∧
    (∀ topic, (∀ response, ¬ IsAnswer topic response ∧ ¬ IsPatch topic response) →
      parseTwin topic = .error .topicNoMatch) ∧
    (∀ status requestId version, requestId ≠ "" → '&' ∉ requestId.toList →
      parseTwin (answerTopic status requestId version) =
        .ok ⟨if status = .noContent then .reported else .document, status, requestId, version⟩) ∧
    (∀ version, parseTwin (patchTopic version) = .ok ⟨.desired, .ok, "", some version⟩) := by
  have hexact : ∀ topic response,
      parseTwin topic = .ok response ↔ IsAnswer topic response ∨ IsPatch topic response :=
    fun topic response => orNoMatch_eq_ok_iff.trans twinResponse?_eq_some_iff
  refine ⟨hexact, fun topic h => ?_, fun status requestId version identified joined => ?_,
    fun version => ?_⟩
  · refine orNoMatch_eq_error_of_ne fun response hok => ?_
    exact ((hexact topic response).1 hok).elim (h response).1 (h response).2
  · exact (hexact _ _).2 (.inl (isAnswer_answerTopic version identified joined))
  · exact (hexact _ _).2 (.inr (isPatch_patchTopic version))

end HubDevice.Topic
