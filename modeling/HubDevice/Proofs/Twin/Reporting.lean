import HubDevice.Proofs.Json.Written
import HubDevice.Proofs.Twin.Listing

set_option autoImplicit false

namespace HubDevice.Twin
open Grammar
open Written (writeMembers object_action text_object text_uint32 text_string height_object
  isObject_object members_object named_member)

inductive Entry where
  | property (name : String) (value : Written)
  | component (name : String) (properties : List (String × Written))
  | acknowledgement (a : Acknowledgement) (value : Written)

structure Reported where
  component : Option String
  name : String
  /-- The first token of the value. -/
  value : Token
  raw : Bytes
  deriving DecidableEq, Repr

/-- The property is this one; its name decodes to the name that was written. -/
structure Reported.MatchedBy (e : Reported) (p : Property) : Prop where
  component : p.component = e.component
  isName : p.name.isName = true
  name : p.name.StandsFor e.name
  value : p.value = e.value
  raw : p.raw = e.raw

namespace Acknowledgement

def text (a : Acknowledgement) (value : Bytes) : Bytes :=
  utf8 "\x7b\"ac\":" ++ Decimal.digits a.status.code.toNat ++
    utf8 ",\"av\":" ++ Decimal.digits a.version.toNat ++
    (match a.description with
      | some description => utf8 ",\"ad\":" ++ (StringBody.quoted description).flatten
      | none => []) ++
    utf8 ",\"value\":" ++ value ++ utf8 "\x7d"

end Acknowledgement

namespace Entry

def write : Entry → Writer.Action Unit
  | property name value => do
    Writer.name name
    value.action
  | component name properties => do
    beginComponent name
    writeMembers properties
    endComponent
  | acknowledgement a value => do
    beginAcknowledgement a
    value.action
    endAcknowledgement a.component

def reported : Entry → List Reported
  | property name value => [⟨none, name, value.value.first, value.text⟩]
  | component c properties => properties.map fun p => ⟨some c, p.1, p.2.value.first, p.2.text⟩
  | acknowledgement a value => [⟨a.component, a.name, .opened .object, a.text value.text⟩]

def height : Entry → Nat
  | property _ value => value.value.height
  | component _ properties => properties.foldr (fun p h => max p.2.value.height h) 0 + 1
  | acknowledgement a value => value.value.height + 1 + if a.component.isSome then 1 else 0

/-- At the root no other entry has the name of a component or of the version, and inside a component
nothing has that of the mark. -/
def Admissible (components : List String) : Entry → Prop
  | property name _ => name ∉ components ∧ name ≠ versionName
  | component c properties => c ∈ components ∧ c ≠ "" ∧ c ≠ versionName ∧
      ∀ p ∈ properties, p.1 ≠ markerName
  | acknowledgement a _ => a.name ≠ "" ∧
      match a.component with
      | none => a.name ∉ components ∧ a.name ≠ versionName
      | some c => c ∈ components ∧ c ≠ "" ∧ c ≠ versionName ∧ a.name ≠ markerName

instance (components : List String) : DecidablePred (Admissible components)
  | property _ _ => inferInstanceAs (Decidable (_ ∧ _))
  | component _ properties => inferInstanceAs (Decidable (_ ∧ _ ∧ _ ∧ ∀ p ∈ properties, _))
  | acknowledgement ⟨none, _, _, _, _⟩ _ => inferInstanceAs (Decidable (_ ∧ _ ∧ _))
  | acknowledgement ⟨some _, _, _, _, _⟩ _ => inferInstanceAs (Decidable (_ ∧ _ ∧ _ ∧ _ ∧ _))

end Entry

def writeEntries : List Entry → Writer.Action Unit
  | [] => pure ()
  | entry :: entries => do
    entry.write
    writeEntries entries

def writeReport (entries : List Entry) : Writer.Action Unit := do
  Writer.beginObject
  writeEntries entries
  Writer.endObject

def reportHeight (entries : List Entry) : Nat :=
  entries.foldr (fun e h => max e.height h) 0 + 1

namespace Entry

def marked (members : List (String × Written)) : Written :=
  .object ((markerName, .tree (.string markerValue)) :: members)

def acknowledged (a : Acknowledgement) (value : Written) : Written :=
  .object <|
    [(codeName, .tree (.uint32 a.status.code.toUInt32)),
      (ackVersionName, .tree (.uint32 a.version))] ++
    (a.description.map fun d => (descriptionName, .tree (.string d))).toList ++ [(valueName, value)]

def member : Entry → String × Written
  | property name value => (name, value)
  | component name properties => (name, marked properties)
  | acknowledgement a value =>
    match a.component with
    | none => (a.name, acknowledged a value)
    | some c => (c, marked [(a.name, acknowledged a value)])

theorem marked_action (members : List (String × Written)) :
    (marked members).action =
      (do
        Writer.beginObject
        Writer.name markerName
        Writer.string markerValue
        writeMembers members
        Writer.endObject) := by
  simp only [marked, object_action, writeMembers, bind_assoc]
  rfl

theorem acknowledged_action (a : Acknowledgement) (value : Written) :
    (acknowledged a value).action =
      (do
        Writer.beginObject
        Writer.name codeName
        Writer.uint32 a.status.code.toUInt32
        Writer.name ackVersionName
        Writer.uint32 a.version
        match a.description with
        | some description =>
          Writer.name descriptionName
          Writer.string description
        | none => pure ()
        Writer.name valueName
        value.action
        Writer.endObject) := by
  unfold acknowledged
  cases a.description with
  | none =>
    simp only [object_action, Option.map_none, Option.toList_none, List.append_nil,
      List.cons_append, List.nil_append, writeMembers, bind_assoc, pure_bind]
    rfl
  | some d =>
    simp only [object_action, Option.map_some, Option.toList_some, List.cons_append,
      List.nil_append, writeMembers, bind_assoc, pure_bind]
    rfl

def Named : Entry → Prop
  | property _ _ => True
  | component c _ => c ≠ ""
  | acknowledgement a _ => a.name ≠ "" ∧ ∀ c ∈ a.component, c ≠ ""

theorem Admissible.named {components : List String} {entry : Entry}
    (h : entry.Admissible components) : entry.Named := by
  cases entry with
  | property name value => trivial
  | component c properties => exact h.2.1
  | acknowledgement a value =>
    obtain ⟨hempty, h⟩ := h
    refine ⟨hempty, fun c hc => ?_⟩
    rw [hc] at h
    exact h.2.1

/-- The calls for an entry write it as the member that it is. -/
theorem write_eq {entry : Entry} (h : entry.Named) :
    entry.write = (do Writer.name entry.member.1; entry.member.2.action) := by
  cases entry with
  | property name value => rfl
  | component c properties =>
    have hname : ¬ c.isEmpty = true := by simpa [Named] using h
    simp only [write, member, marked_action, beginComponent, endComponent, if_neg hname,
      bind_assoc]
  | acknowledgement a value =>
    obtain ⟨hempty, h⟩ := h
    have hname : ¬ a.name.isEmpty = true := by simpa using hempty
    cases hcomponent : a.component with
    | none =>
      cases hdescription : a.description <;>
        simp only [write, member, beginAcknowledgement, endAcknowledgement, acknowledged_action,
          hcomponent, hdescription, if_neg hname, bind_assoc, bind_pure_unit]
    | some c =>
      have hmark : ¬ c.isEmpty = true := by simpa using h c hcomponent
      cases hdescription : a.description <;>
        simp only [write, member, beginAcknowledgement, beginComponent, endAcknowledgement,
          marked_action, acknowledged_action, writeMembers, hcomponent, hdescription,
          if_neg hname, if_neg hmark, bind_assoc, pure_bind]

end Entry

theorem writeEntries_eq {entries : List Entry} (h : ∀ e ∈ entries, e.Named) :
    writeEntries entries = writeMembers (entries.map Entry.member) := by
  induction entries with
  | nil => rfl
  | cons entry entries ih =>
    rw [writeEntries, Entry.write_eq (h entry List.mem_cons_self),
      ih fun e he => h e (List.mem_cons_of_mem entry he)]
    simp only [List.map_cons, writeMembers, bind_assoc]

section Found

variable {components : List String}

theorem find?_named {c : String} (hc : c ∈ components) (value : Written) :
    components.find? ((Written.member c value).Named ·) = some c := by
  have hfind : components.find? (fun t => decide (t = c)) = some c := by
    rw [List.find?_eq_some_iff_append]
    obtain ⟨before, after, rfl, hbefore⟩ := List.eq_append_cons_of_mem hc
    refine ⟨decide_eq_true rfl, before, after, rfl, fun t ht => ?_⟩
    have hne : t ≠ c := fun h => hbefore (h ▸ ht)
    simpa using hne
  simp only [named_member]
  exact hfind

theorem find?_unnamed {name : String} (h : name ∉ components) (value : Written) :
    components.find? ((Written.member name value).Named ·) = none := by
  rw [List.find?_eq_none]
  intro t ht
  have hne : t ≠ name := fun heq => h (heq ▸ ht)
  simpa [named_member] using hne

theorem listed_property {name : String} (hname : name ∉ components ∧ name ≠ versionName)
    (value : Written) :
    listed components (Written.member name value) =
      [property none (Written.member name value)] := by
  have hversion : ¬ (Written.member name value).Named versionName := by
    rw [named_member]
    exact fun h => hname.2 h.symm
  have hcomponent : component? components (Written.member name value) = none := by
    unfold component?
    rw [find?_unnamed hname.1, ite_self]
  rw [listed, if_neg hversion, hcomponent]

theorem listed_component {c : String} (hc : c ∈ components) (hname : c ≠ versionName)
    {properties : List (String × Written)} (hproperties : ∀ p ∈ properties, p.1 ≠ markerName) :
    listed components (Written.member c (Entry.marked properties)) =
      properties.map fun p => property (some c) (Written.member p.1 p.2) := by
  have hversion : ¬ (Written.member c (Entry.marked properties)).Named versionName := by
    rw [named_member]
    exact fun h => hname h.symm
  have hcomponent :
      component? components (Written.member c (Entry.marked properties)) = some c := by
    have hobject : (Written.member c (Entry.marked properties)).value.isObject = true := rfl
    rw [component?, if_pos hobject, find?_named hc]
  have hmark : (Written.member markerName (.tree (.string markerValue))).Named markerName :=
    (named_member _ _ _).2 rfl
  have hfilter : (properties.map fun p => Written.member p.1 p.2).filter (¬ ·.Named markerName) =
      properties.map fun p => Written.member p.1 p.2 := by
    rw [List.filter_eq_self]
    intro m hm
    obtain ⟨p, hp, rfl⟩ := List.mem_map.1 hm
    have hne : markerName ≠ p.1 := fun h => hproperties p hp h.symm
    simpa [named_member] using hne
  have hmembers : (Written.member c (Entry.marked properties)).value.members =
      Written.member markerName (.tree (.string markerValue)) ::
        properties.map fun p => Written.member p.1 p.2 := members_object (_ :: properties)
  rw [listed, if_neg hversion, hcomponent]
  dsimp only
  rw [hmembers, List.filter_cons_of_neg (by simpa using hmark), hfilter, List.map_map]
  rfl

theorem matched_property (component : Option String) (name : String) (value : Written) :
    Reported.MatchedBy ⟨component, name, value.value.first, value.text⟩
      (property component (Written.member name value)) where
  component := rfl
  isName := rfl
  name := Token.standsFor_of_spells rfl (StringBody.spells_written name)
  value := rfl
  raw := rfl

theorem text_acknowledged (a : Acknowledgement) (value : Written) :
    (Entry.acknowledged a value).text = a.text value.text := by
  have hcode : utf8 "\x7b\"ac\":" =
      Container.object.opening ::
        ((StringBody.quoted codeName).flatten ++ [':'.toUInt8]) := by decide
  have hversion : utf8 ",\"av\":" =
      ','.toUInt8 :: ((StringBody.quoted ackVersionName).flatten ++ [':'.toUInt8]) := by decide
  have hdescription : utf8 ",\"ad\":" =
      ','.toUInt8 :: ((StringBody.quoted descriptionName).flatten ++ [':'.toUInt8]) := by decide
  have hvalue : utf8 ",\"value\":" =
      ','.toUInt8 :: ((StringBody.quoted valueName).flatten ++ [':'.toUInt8]) := by decide
  have hend : utf8 "\x7d" = [Container.object.closing] := by decide
  have hstatus : a.status.code.toUInt32.toNat = a.status.code.toNat := UInt16.toNat_toUInt32 _
  unfold Entry.acknowledged Acknowledgement.text
  rw [text_object, hcode, hversion, hdescription, hvalue, hend]
  cases a.description with
  | none =>
    simp [joined, text_uint32, hstatus]
  | some d =>
    simp [joined, text_uint32, text_string, hstatus]

theorem listed_entry {entry : Entry} (h : entry.Admissible components) :
    List.Forall₂ Reported.MatchedBy entry.reported
      (listed components (Written.member entry.member.1 entry.member.2)) := by
  cases entry with
  | property name value =>
    rw [Entry.member, listed_property h]
    exact .cons (matched_property none name value) .nil
  | component c properties =>
    obtain ⟨hc, -, hversion, hproperties⟩ := h
    rw [Entry.member, listed_component hc hversion hproperties, Entry.reported,
      List.forall₂_map_left_iff, List.forall₂_map_right_iff]
    exact List.forall₂_same.2 fun p _ => matched_property (some c) p.1 p.2
  | acknowledgement a value =>
    obtain ⟨-, h⟩ := h
    have hmatched : ∀ component : Option String,
        Reported.MatchedBy ⟨component, a.name, .opened .object, a.text value.text⟩
          (property component (Written.member a.name (Entry.acknowledged a value))) := by
      intro component
      rw [← text_acknowledged]
      exact matched_property component a.name (Entry.acknowledged a value)
    cases hcomponent : a.component with
    | none =>
      rw [hcomponent] at h
      simp only [Entry.member, Entry.reported, hcomponent]
      rw [listed_property h]
      exact .cons (hmatched none) .nil
    | some c =>
      rw [hcomponent] at h
      obtain ⟨hc, -, hversion, hname⟩ := h
      simp only [Entry.member, Entry.reported, hcomponent]
      rw [listed_component hc hversion (by simpa using hname)]
      exact .cons (hmatched (some c)) .nil

end Found

def root (entries : List Entry) : Written := .object (entries.map Entry.member)

theorem height_member (entry : Entry) : entry.member.2.value.height = entry.height := by
  cases entry with
  | property name value => rfl
  | component c properties =>
    change (Entry.marked properties).value.height = _
    rw [Entry.marked, height_object, List.foldr_cons]
    exact congrArg (· + 1) (Nat.zero_max _)
  | acknowledgement a value =>
    have hvalue : (Entry.acknowledged a value).value.height = value.value.height + 1 := by
      rw [Entry.acknowledged, height_object]
      cases a.description <;> simp [Written.tree, Tree.height_value, Tree.height]
    cases hcomponent : a.component with
    | none =>
      simp only [Entry.member, Entry.height, hcomponent]
      exact hvalue
    | some c =>
      simp only [Entry.member, Entry.height, hcomponent, Entry.marked, height_object]
      simp [Written.tree, Tree.height_value, Tree.height, hvalue]

theorem height_root (entries : List Entry) :
    (root entries).value.height = reportHeight entries := by
  rw [root, height_object, reportHeight, List.foldr_map]
  simp only [height_member]

theorem root_action {entries : List Entry} (h : ∀ e ∈ entries, e.Named) :
    (root entries).action = writeReport entries := by
  rw [writeReport, writeEntries_eq h]
  rfl

theorem writeReport_eq {components : List String} {entries : List Entry}
    (h : ∀ e ∈ entries, e.Admissible components) : writeReport entries = (root entries).action :=
  (root_action fun e he => (h e he).named).symm

theorem name_ne_version {components : List String} {entry : Entry}
    (h : entry.Admissible components) : entry.member.1 ≠ versionName := by
  cases entry with
  | property name value => exact h.2
  | component c properties => exact h.2.2.1
  | acknowledgement a value =>
    obtain ⟨-, h⟩ := h
    cases hcomponent : a.component with
    | none =>
      rw [hcomponent] at h
      simp only [Entry.member, hcomponent]
      exact h.2
    | some c =>
      rw [hcomponent] at h
      simp only [Entry.member, hcomponent]
      exact h.2.2.1

theorem unversioned_root {components : List String} {entries : List Entry}
    (h : ∀ e ∈ entries, e.Admissible components) : Versioned (root entries).value none := by
  have hfind : (root entries).value.members.find? (·.Named versionName) = none := by
    rw [root, members_object, List.map_map, List.find?_eq_none]
    intro m hm
    obtain ⟨e, he, rfl⟩ := List.mem_map.1 hm
    have hne := (name_ne_version (h e he)).symm
    simpa [named_member] using hne
  unfold Versioned
  rw [hfind]

theorem listing_matched {components : List String} {entries : List Entry}
    (h : ∀ e ∈ entries, e.Admissible components) :
    List.Forall₂ Reported.MatchedBy (entries.flatMap Entry.reported)
      (listing components (root entries).value) := by
  rw [listing, root, members_object, List.map_map]
  induction entries with
  | nil => exact .nil
  | cons entry entries ih =>
    rw [List.map_cons, List.flatMap_cons, List.flatMap_cons]
    exact List.rel_append (listed_entry (h entry List.mem_cons_self))
      (ih fun e he => h e (List.mem_cons_of_mem entry he))

/-- A report that is not too high is written if there is room. A walk over it as a patch finds no
version and the properties that were written, in order, and nothing more. -/
theorem report_reads_back (components : List String) (entries : List Entry)
    (admissible : ∀ e ∈ entries, e.Admissible components)
    (height : reportHeight entries ≤ maxNesting) :
    ∃ (b : Bytes) (w : Walk) (ps : List Property),
      (∀ capacity, b.length ≤ capacity →
        ∃ v, writeReport entries (Writer.ofCapacity capacity) = .ok () v ∧ v.bytes = b) ∧
      Walk.start b .patch components = .ok w ∧ w.version = none ∧
      List.Forall₂ Reported.MatchedBy (entries.flatMap Entry.reported) ps ∧
      ∀ n, w.answers (ps.length + n) =
        ps.map (fun p => .ok (some p)) ++ List.replicate n (.ok none) := by
  let d : Document := ⟨.none, (root entries).value, .none⟩
  have htext : d.text = (root entries).text := by
    simp [d, Document.text, Written.text, Blank.none]
  have hheight : d.height ≤ maxNesting := by
    rw [← height_root] at height
    exact height
  have hsection : Section d .patch .desired (root entries).value := ⟨isObject_object _, rfl⟩
  obtain ⟨r, hopen, hyields⟩ := Walk.openPart_yields components hheight hsection
    (unversioned_root admissible)
  rw [htext] at hopen
  have hstart : Walk.start (root entries).text .patch components = .ok {
      json := (root entries).text, payload := .patch, part := .desired, components, reader := r
      component := none, version := none, progress := .walking } := by
    unfold Walk.start Walk.openAt
    rw [hopen]
    rfl
  refine ⟨(root entries).text, _, listing components (root entries).value,
    fun capacity hcapacity => ?_, hstart, rfl, listing_matched admissible,
    hyields.answers rfl rfl rfl rfl rfl⟩
  rw [writeReport_eq admissible]
  have hroom : (Writer.comma .start ++ (root entries).text).length ≤
      (Writer.ofCapacity capacity).room := by
    simpa [Writer.room, Writer.ofCapacity, Writer.ofBuffer, Buffer.ofCapacity, Writer.comma]
      using hcapacity
  obtain ⟨v, hwrite, hbytes, -⟩ := (root entries).writes .start 0 (Writer.ofCapacity capacity)
    rfl rfl hroom
  exact ⟨v, hwrite, hbytes⟩

def thermostatReport : List Entry :=
  [.acknowledgement ⟨some "t", "target", .ok, 4, some "\""⟩ (.tree (.int32 (-20))),
    .component "t" [("x", .array [.tree .null, .verbatim (.empty .object .none)])],
    .property "" (.tree (.uint32 360))]

def thermostatReported : List Reported :=
  [⟨some "t", "target", .opened .object,
      utf8 "\x7b\"ac\":200,\"av\":4,\"ad\":\"\\\"\",\"value\":-20\x7d"⟩,
    ⟨some "t", "x", .opened .array, utf8 "[null,\x7b\x7d]"⟩,
    ⟨none, "", .number ⟨false, utf8 "360", none, none⟩, utf8 "360"⟩]

theorem thermostat_report :
    (∀ e ∈ thermostatReport, e.Admissible ["t"]) ∧ reportHeight thermostatReport ≤ maxNesting ∧
      ∃ (b : Bytes) (w : Walk) (ps : List Property),
        (∀ capacity, b.length ≤ capacity → ∃ v,
          writeReport thermostatReport (Writer.ofCapacity capacity) = .ok () v ∧ v.bytes = b) ∧
        Walk.start b .patch ["t"] = .ok w ∧ w.version = none ∧
        List.Forall₂ Reported.MatchedBy thermostatReported ps ∧
        ∀ n, w.answers (ps.length + n) =
          ps.map (fun p => .ok (some p)) ++ List.replicate n (.ok none) := by
  have admissible : ∀ e ∈ thermostatReport, e.Admissible ["t"] := by decide
  have height : reportHeight thermostatReport ≤ maxNesting := by decide
  have hreported : thermostatReport.flatMap Entry.reported = thermostatReported := by
    decide +kernel
  obtain ⟨b, w, ps, hwrite, hstart, hversion, hmatched, hanswers⟩ :=
    report_reads_back ["t"] thermostatReport admissible height
  rw [hreported] at hmatched
  exact ⟨admissible, height, b, w, ps, hwrite, hstart, hversion, hmatched, hanswers⟩

end HubDevice.Twin
