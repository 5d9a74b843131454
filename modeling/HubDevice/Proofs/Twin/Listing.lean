import HubDevice.Proofs.Json.Tree
import HubDevice.Proofs.Twin.Calls
import HubDevice.Proofs.Twin.Sections

set_option autoImplicit false

namespace HubDevice.Twin
open Grammar
open Items (following)
open Reader (Ahead AtMember)

def property (component : Option String) (m : Item .object) : Property where
  component
  name := .name m.name
  value := m.value.first
  raw := m.value.text

def component? (components : List String) (m : Item .object) : Option String :=
  if m.value.isObject then components.find? (m.Named ·) else none

def listed (components : List String) (m : Item .object) : List Property :=
  if m.Named versionName then []
  else
    match component? components m with
    | some c => (m.value.members.filter (¬ ·.Named markerName)).map (property (some c))
    | none => [property none m]

def listing (components : List String) (v : Value) : List Property :=
  v.members.flatMap (listed components)

namespace Walk

variable {payload : Payload} {components : List String}

def fromName (payload : Payload) (components : List String) (component : Option String)
    (s : Reader) : Except Error (Found × Option String × Reader) :=
  if s.token.isText (reserved component) then
    (read Reader.skipValue s).bind (advance payload components component)
  else
    (read Reader.next s).bind fun first =>
      match if component.isNone && first.token = .opened .object then
          registered? components s.token else none with
      | some c => advance payload components (some c) first
      | none => (read Reader.skipValue first).map fun s' =>
        (.property ⟨component, s.token, first.token, Reader.between first s'⟩, component, s')

theorem advance_eq (component : Option String) (r : Reader) :
    advance payload components component r = (read Reader.next r).bind fun s =>
      if s.token = .closed .object then
        match component with
        | some _ => advance payload components none s
        | none => (close payload s).map fun e => (.finished, none, e)
      else if !s.token.isName then .error (.json .unexpectedToken)
      else fromName payload components component s := by
  rw [advance]
  cases read Reader.next r with
  | error e => rfl
  | ok s =>
    simp only [Except.bind]
    split
    · rfl
    split
    · rfl
    unfold fromName
    split
    · cases read Reader.skipValue s <;> rfl
    · cases read Reader.next s with
      | error e => rfl
      | ok first =>
        simp only [Except.bind]
        generalize (if component.isNone && first.token = .opened .object then
          registered? components s.token else none) = entered
        cases entered with
        | some c => rfl
        | none => cases read Reader.skipValue first <;> rfl

theorem advance_leave {r s : Reader} {c : String} (step : Reader.next r = .ok () s)
    (token : s.token = .closed .object) :
    advance payload components (some c) r = advance payload components none s := by
  rw [advance_eq, read_of_ok step, Except.bind, if_pos token]

theorem advance_finish {r s e : Reader} (step : Reader.next r = .ok () s)
    (token : s.token = .closed .object) (hclose : close payload s = .ok e) :
    advance payload components none r = .ok (.finished, none, e) := by
  rw [advance_eq, read_of_ok step, Except.bind, if_pos token, hclose]
  rfl

section AtName

variable {component : Option String} {r s : Reader}

theorem advance_at_name (step : Reader.next r = .ok () s) (hname : s.token.isName = true) :
    advance payload components component r = fromName payload components component s := by
  have hopen : s.token ≠ .closed .object := by
    intro token
    rw [token] at hname
    cases hname
  rw [advance_eq, read_of_ok step, Except.bind, if_neg hopen, hname, Bool.not_true,
    if_neg Bool.false_ne_true]

theorem advance_skip {s' : Reader} (step : Reader.next r = .ok () s)
    (hname : s.token.isName = true) (hreserved : s.token.isText (reserved component) = true)
    (skip : Reader.skipValue s = .ok () s') :
    advance payload components component r = advance payload components component s' := by
  rw [advance_at_name step hname, fromName, if_pos hreserved, read_of_ok skip, Except.bind]

theorem advance_inside {first : Reader} {c : String} (step : Reader.next r = .ok () s)
    (hname : s.token.isName = true) (hreserved : s.token.isText versionName = false)
    (step' : Reader.next s = .ok () first) (token : first.token = .opened .object)
    (hregistered : registered? components s.token = some c) :
    advance payload components none r = advance payload components (some c) first := by
  rw [advance_at_name step hname, fromName, reserved, hreserved, if_neg Bool.false_ne_true,
    read_of_ok step', Except.bind, token, hregistered]
  rfl

theorem advance_value {first s' : Reader} (step : Reader.next r = .ok () s)
    (hname : s.token.isName = true) (hreserved : s.token.isText (reserved component) = false)
    (step' : Reader.next s = .ok () first)
    (hplain : component = none → first.token = .opened .object →
      registered? components s.token = none)
    (skip : Reader.skipValue first = .ok () s') :
    advance payload components component r =
      .ok (.property ⟨component, s.token, first.token, Reader.between first s'⟩, component, s')
    := by
  have hnone : (if component.isNone && first.token = .opened .object then
      registered? components s.token else none) = none := by
    split
    · next h =>
      simp only [Bool.and_eq_true, Option.isNone_iff_eq_none, decide_eq_true_eq] at h
      exact hplain h.1 h.2
    · rfl
  rw [advance_at_name step hname, fromName, hreserved, if_neg Bool.false_ne_true, read_of_ok step',
    Except.bind, hnone, read_of_ok skip]
  rfl

end AtName

section Members

variable (payload : Payload) (components : List String) (component : Option String)
  {outer : List Container} {rest : Bytes} {m : Item .object} {more : List (Item .object)}
  {r : Reader}

theorem registered?_name (m : Item .object) :
    registered? components (.name m.name) = components.find? (m.Named ·) := by
  unfold registered?
  congr 1
  funext t
  exact m.isText_name t

theorem advance_reserved (h : Ahead r (m :: more) outer rest)
    (hm : m.Named (reserved component)) :
    ∃ r', advance payload components component r = advance payload components component r' ∧
      Ahead r' more outer rest := by
  obtain ⟨s, step, hs⟩ := Reader.member_step h
  obtain ⟨r', passes, hr'⟩ := hs.passes
  have hreserved : s.token.isText (reserved component) = true := by
    rw [hs.token, m.isText_name]
    exact decide_eq_true hm
  exact ⟨r', advance_skip step hs.isName hreserved (passes.skipValue_name hs.isName), hr'⟩

theorem advance_property (h : Ahead r (m :: more) outer rest)
    (hm : ¬ m.Named (reserved component))
    (hplain : component = none → component? components m = none) :
    ∃ r', advance payload components component r =
        .ok (.property (property component m), component, r') ∧ Ahead r' more outer rest := by
  obtain ⟨s, step, hs⟩ := Reader.member_step h
  obtain ⟨r', passes, hr'⟩ := hs.passes
  obtain ⟨first, step', token, skip, hbetween⟩ := passes.first
  have hreserved : s.token.isText (reserved component) = false := by
    rw [hs.token, m.isText_name]
    exact decide_eq_false hm
  have hregistered : component = none → first.token = .opened .object →
      registered? components s.token = none := by
    intro hcomponent hfirst
    rw [token] at hfirst
    have hnone := hplain hcomponent
    rw [component?, if_pos (Value.isObject_iff.2 hfirst)] at hnone
    rw [hs.token, registered?_name]
    exact hnone
  refine ⟨r', ?_, hr'⟩
  rw [advance_value step hs.isName hreserved step' hregistered skip, hs.token, token, hbetween,
    property]

/-- The walk enters the object of a component, and leaves it behind its last member. -/
theorem advance_enter {c : String} (h : Ahead r (m :: more) outer rest)
    (hm : ¬ m.Named versionName) (hc : component? components m = some c) :
    ∃ first, advance payload components none r = advance payload components (some c) first ∧
      Ahead first m.value.members (.object :: outer) (m.behind.bytes ++ following rest more) ∧
      ∀ {s : Reader}, Ahead (c := .object) s [] (.object :: outer)
          (m.behind.bytes ++ following rest more) →
        ∃ s', advance payload components (some c) s = advance payload components none s' ∧
          Ahead s' more outer rest := by
  obtain ⟨s, step, hs⟩ := Reader.member_step h
  unfold component? at hc
  split at hc
  · next hobject =>
    obtain ⟨first, step', token, hfirst⟩ := hs.enters hobject
    have hreserved : s.token.isText versionName = false := by
      rw [hs.token, m.isText_name]
      exact decide_eq_false hm
    have hregistered : registered? components s.token = some c := by
      rw [hs.token, registered?_name]
      exact hc
    refine ⟨first, advance_inside step hs.isName hreserved step' token hregistered, hfirst, ?_⟩
    intro e he
    obtain ⟨e', leave, closed, he'⟩ := hs.leaves he
    exact ⟨e', advance_leave leave closed, he'⟩
  · cases hc

end Members

/-- From here the walk gives these properties and comes to its end. -/
inductive Yields (payload : Payload) (components : List String) :
    Option String → Reader → List Property → Prop where
  | finished {component component' : Option String} {r r' : Reader}
    (h : advance payload components component r = .ok (.finished, component', r')) :
    Yields payload components component r []
  | property {component component' : Option String} {r r' : Reader} {p : Property}
    {ps : List Property}
    (h : advance payload components component r = .ok (.property p, component', r'))
    (more : Yields payload components component' r' ps) :
    Yields payload components component r (p :: ps)

theorem Yields.of_advance {component component' : Option String} {r r' : Reader}
    {ps : List Property} (h : Yields payload components component' r' ps)
    (heq : advance payload components component r = advance payload components component' r') :
    Yields payload components component r ps := by
  cases h with
  | finished h => exact .finished (heq.trans h)
  | property h more => exact .property (heq.trans h) more

theorem Yields.answers {component : Option String} {r : Reader} {ps : List Property}
    (h : Yields payload components component r ps) {w : Walk} (hpayload : w.payload = payload)
    (hcomponents : w.components = components) (hcomponent : w.component = component)
    (hreader : w.reader = r) (walking : w.progress = .walking) (n : Nat) :
    w.answers (ps.length + n) = ps.map (fun p => .ok (some p)) ++ List.replicate n (.ok none) := by
  induction h generalizing w with
  | finished h =>
    rw [← hpayload, ← hcomponents, ← hcomponent, ← hreader] at h
    have hnext := next_of_finished walking h
    rw [List.length_nil, Nat.zero_add, answers_again (by rw [hnext]; simp), hnext]
    rfl
  | @property _ component' _ r' p ps h _ ih =>
    rw [← hpayload, ← hcomponents, ← hcomponent, ← hreader] at h
    have hmore := ih (w := { w with component := component', reader := r' }) hpayload hcomponents
      rfl rfl walking
    rw [List.length_cons, Nat.add_right_comm, Walk.answers, next_of_property walking h]
    exact congrArg (.ok (some p) :: ·) hmore

theorem Yields.collect {component : Option String} {r : Reader} {ps : List Property}
    (h : Yields payload components component r ps) {w : Walk} (hpayload : w.payload = payload)
    (hcomponents : w.components = components) (hcomponent : w.component = component)
    (hreader : w.reader = r) (walking : w.progress = .walking) :
    w.collect.1 = ps ∧ w.collect.2.progress = .done := by
  induction h generalizing w with
  | finished h =>
    rw [← hpayload, ← hcomponents, ← hcomponent, ← hreader] at h
    have hnext := next_of_finished walking h
    rw [Walk.collect, hnext]
    exact ⟨rfl, rfl⟩
  | @property _ component' _ r' p ps h _ ih =>
    rw [← hpayload, ← hcomponents, ← hcomponent, ← hreader] at h
    have hnext := next_of_property walking h
    obtain ⟨hps, hdone⟩ := ih (w := { w with component := component', reader := r' }) hpayload
      hcomponents rfl rfl walking
    rw [Walk.collect, hnext]
    exact ⟨congrArg (p :: ·) hps, hdone⟩

section Members

variable {outer : List Container} {rest : Bytes} {ps : List Property} {c : String}

/-- Inside a component each member is given with its tag, but for the mark. -/
theorem yields_component {items : List (Item .object)} {r : Reader}
    (h : Ahead r items (.object :: outer) rest)
    (hend : ∀ {s : Reader}, Ahead (c := .object) s [] (.object :: outer) rest →
      Yields payload components (some c) s ps) :
    Yields payload components (some c) r
      ((items.filter (¬ ·.Named markerName)).map (Twin.property (some c)) ++ ps) := by
  induction items generalizing r with
  | nil => exact hend h
  | cons m items ih =>
    by_cases hm : m.Named markerName
    · obtain ⟨r', hadvance, hr'⟩ := advance_reserved payload components (some c) h hm
      rw [List.filter_cons_of_neg (by simpa using hm)]
      exact (ih hr').of_advance hadvance
    · obtain ⟨r', hadvance, hr'⟩ := advance_property payload components (some c) h hm
        (fun h => by cases h)
      rw [List.filter_cons_of_pos (by simpa using hm)]
      exact .property hadvance (ih hr')

theorem yields_section {items : List (Item .object)} {r : Reader} (h : Ahead r items outer rest)
    (hend : ∀ {s : Reader}, Ahead (c := .object) s [] outer rest →
      Yields payload components none s []) :
    Yields payload components none r (items.flatMap (listed components)) := by
  induction items generalizing r with
  | nil => exact hend h
  | cons m items ih =>
    rw [List.flatMap_cons, listed]
    by_cases hm : m.Named versionName
    · obtain ⟨r', hadvance, hr'⟩ := advance_reserved payload components none h hm
      rw [if_pos hm]
      exact (ih hr').of_advance hadvance
    rw [if_neg hm]
    cases hc : component? components m with
    | none =>
      obtain ⟨r', hadvance, hr'⟩ := advance_property payload components none h hm (fun _ => hc)
      exact .property hadvance (ih hr')
    | some c =>
      obtain ⟨first, hadvance, hfirst, hleave⟩ := advance_enter payload components h hm hc
      refine (yields_component hfirst fun hs => ?_).of_advance hadvance
      obtain ⟨s', hadvance', hs'⟩ := hleave hs
      exact (ih hs').of_advance hadvance'

end Members

/-- From the start of a section the walk gives its properties. -/
theorem openPart_yields {d : Document} {payload : Payload} {part : Part} {v : Value}
    {version : Option UInt32} (components : List String) (height : d.height ≤ maxNesting)
    (hsection : Section d payload part v) (hversion : Versioned v version) :
    ∃ r, openPart d.text payload part = .ok (r, version) ∧
      Yields payload components none r (listing components v) := by
  obtain ⟨r, outer, rest, hopen, hahead, hcloses⟩ := openPart_ahead height hsection hversion
  refine ⟨r, hopen, yields_section hahead fun hs => ?_⟩
  obtain ⟨s', step, token, nesting, hrest⟩ := Reader.close_step hs
  obtain ⟨e, hclose⟩ := hcloses s' (Reader.settled_closed token) nesting hrest
  exact .finished (advance_finish step token hclose)

/-- Opening a section, at any time, gives its version and then its properties in the order of the
document, and nothing more. -/
theorem opens_lists {d : Document} {payload : Payload} {part : Part} {components : List String}
    {v : Value} {version : Option UInt32} {result : Except Error Walk}
    (height : d.height ≤ maxNesting) (hsection : Section d payload part v)
    (hversion : Versioned v version) (hopens : Opens d.text payload components part result) :
    ∃ w, result = .ok w ∧ w.part = part ∧ w.version = version ∧
      ∀ n, w.answers ((listing components v).length + n) =
        (listing components v).map (fun p => .ok (some p)) ++ List.replicate n (.ok none) := by
  obtain ⟨r, outer, rest, hopen, hahead, hcloses⟩ := openPart_ahead height hsection hversion
  have hend : ∀ {s : Reader}, Ahead (c := .object) s [] outer rest →
      Yields payload components none s [] := by
    intro s hs
    obtain ⟨s', step, token, nesting, hrest⟩ := Reader.close_step hs
    obtain ⟨e, hclose⟩ := hcloses s' (Reader.settled_closed token) nesting hrest
    exact .finished (advance_finish step token hclose)
  have hyields := yields_section hahead hend
  rw [hopens.eq_openAt, openAt, hopen]
  exact ⟨_, rfl, rfl, rfl, hyields.answers rfl rfl rfl rfl rfl⟩

def componentSection : Tree :=
  .object [("c", .object [("__t", .string "c"), ("x", .int32 1)]), ("$version", .uint32 5)]

def componentTwin : Document :=
  (Tree.object [("desired", componentSection), ("reported", .object [])]).document

theorem component_listed :
    listing ["c"] componentSection.value =
        [⟨some "c", .name (utf8 "x"), .number ⟨false, utf8 "1", none, none⟩, utf8 "1"⟩] ∧
      ∃ w, Walk.start componentTwin.text .document ["c"] = .ok w ∧ w.part = .desired ∧
        w.version = some 5 ∧ ∀ n, w.answers ((listing ["c"] componentSection.value).length + n) =
          (listing ["c"] componentSection.value).map (fun p => .ok (some p)) ++
            List.replicate n (.ok none) := by
  have height : componentTwin.height ≤ maxNesting := by decide
  have hsection : Section componentTwin .document .desired componentSection.value :=
    ⟨rfl, _, List.find?_cons_of_pos (decide_eq_true (StringBody.spells_written "desired")), rfl,
      rfl⟩
  have hversion : Versioned componentSection.value (some 5) := by
    have hfind : (componentSection.value.members.find? (·.Named versionName)).map
        (fun m => m.value.text) = some (Decimal.digits 5) := by
      decide +kernel
    obtain ⟨m, hm, htext⟩ := Option.map_eq_some_iff.1 hfind
    unfold Versioned
    rw [hm]
    exact ⟨5, rfl, htext⟩
  exact ⟨by decide +kernel, opens_lists height hsection hversion .start⟩

end Walk

end HubDevice.Twin
