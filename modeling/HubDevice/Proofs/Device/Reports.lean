import HubDevice.Device.Thermostat
import HubDevice.Proofs.Json.Room
import HubDevice.Proofs.Json.Written

set_option autoImplicit false

namespace HubDevice.Thermostat
open Grammar Writer
open StringBody (written)

/-- The request starts with a string that stands for this text. What follows is not looked at. -/
def Asks (payload : Bytes) (text : String) : Prop :=
  ∃ (first : Reader) (body : Bytes), Reader.next (.ofBytes payload) = .ok () first ∧
    first.token = .string body ∧ Spells body (utf8 text) ∧ (utf8 text).length ≤ 32 ∧ text ≠ ""

def Shows (n : Numeral) (x : Float) : Prop :=
  ∃ b, Binary.ofFloat? x = some b ∧ n.text = numberText x b places

/-- The bytes are read to the end as an object of these members. -/
def Reports (response : Bytes) (t : Thermostat) (startTime endTime : String) : Prop :=
  ∃ (highest lowest average : Numeral) (first last : Bytes),
    (Reader.ofBytes response).tokens =
      ([.opened .object, .name (utf8 "maxTemp"), .number highest, .name (utf8 "minTemp"),
        .number lowest, .name (utf8 "avgTemp"), .number average, .name (utf8 "startTime"),
        .string first, .name (utf8 "endTime"), .string last, .closed .object], .readerDone) ∧
    Shows highest t.highest ∧ Shows lowest t.lowest ∧ Shows average t.average ∧
    (Token.string first).StandsFor startTime ∧ (Token.string last).StandsFor endTime

theorem first_is_value {payload : Bytes} {first : Reader}
    (step : Reader.next (.ofBytes payload) = .ok () first) : first.token.isName = false := by
  obtain ⟨wanted, hwants, htake⟩ := Reader.next_sound step
  obtain ⟨-, hwanted⟩ := Prod.mk.inj hwants
  cases hwanted
  rcases Reader.take_value_sound htake with ⟨x, token, -, -⟩ | ⟨c, token, -, -, -⟩
  · rw [token]
    cases x <;> rfl
  · rw [token]
    rfl

theorem asks_of_since {payload : Bytes} {text : String} (h : since payload = .ok text) :
    Asks payload text := by
  unfold since at h
  split at h
  · cases h
  · next first step =>
    split at h
    · cases h
    · next t htext =>
      split at h
      · cases h
      · next hempty =>
        cases h
        have hname := first_is_value step
        obtain ⟨body, hbody, hspells, hlength⟩ := Token.spells_of_text htext
        have token : first.token = .string body := by
          cases htoken : first.token <;> simp_all [Token.body?, Token.isName]
        exact ⟨first, body, step, token, hspells, hlength, by simpa using hempty⟩

theorem finite_of_ok {x : Float} {w w' : Writer} {u : Unit}
    (h : Writer.float x places w = .ok u w') : ∃ b, Binary.ofFloat? x = some b := by
  cases hnumber : Binary.ofFloat? x with
  | none =>
    rw [float_eq_error hnumber] at h
    cases h
  | some b => exact ⟨b, rfl⟩

variable {t : Thermostat} {startTime endTime : String}

theorem writeReport_finite {w w' : Writer} {u : Unit}
    (h : t.writeReport startTime endTime w = .ok u w') :
    (∃ b, Binary.ofFloat? t.highest = some b) ∧ (∃ b, Binary.ofFloat? t.lowest = some b) ∧
      ∃ b, Binary.ofFloat? t.average = some b := by
  unfold writeReport at h
  obtain ⟨_, _, -, h⟩ := bind_eq_ok_state h
  obtain ⟨_, _, -, h⟩ := bind_eq_ok_state h
  obtain ⟨_, _, highest, h⟩ := bind_eq_ok_state h
  obtain ⟨_, _, -, h⟩ := bind_eq_ok_state h
  obtain ⟨_, _, lowest, h⟩ := bind_eq_ok_state h
  obtain ⟨_, _, -, h⟩ := bind_eq_ok_state h
  obtain ⟨_, _, average, h⟩ := bind_eq_ok_state h
  exact ⟨finite_of_ok highest, finite_of_ok lowest, finite_of_ok average⟩

theorem scripted_writeReport : Scripted (t.writeReport startTime endTime) :=
  (scripted_primitive (.opening .object)).bind <| (scripted_primitive (.name _)).bind <|
    (scripted_primitive (.float _ _)).bind <| (scripted_primitive (.name _)).bind <|
    (scripted_primitive (.float _ _)).bind <| (scripted_primitive (.name _)).bind <|
    (scripted_primitive (.float _ _)).bind <| (scripted_primitive (.name _)).bind <|
    (scripted_primitive (.string _)).bind <| (scripted_primitive (.name _)).bind <|
    (scripted_primitive (.string _)).bind <| scripted_primitive (.closing .object)

/-- A report of finite numbers is the object that its calls write. -/
theorem exists_report (highest : ∃ b, Binary.ofFloat? t.highest = some b)
    (lowest : ∃ b, Binary.ofFloat? t.lowest = some b)
    (average : ∃ b, Binary.ofFloat? t.average = some b) :
    ∃ w : Written, w.action = t.writeReport startTime endTime ∧
      Reports w.text t startTime endTime := by
  obtain ⟨b, hb⟩ := highest
  obtain ⟨b', hb'⟩ := lowest
  obtain ⟨b'', hb''⟩ := average
  obtain ⟨n, legal, w, haction, hvalue, htext⟩ := Written.exists_number hb places
  obtain ⟨n', legal', w', haction', hvalue', htext'⟩ := Written.exists_number hb' places
  obtain ⟨n'', legal'', w'', haction'', hvalue'', htext''⟩ := Written.exists_number hb'' places
  let members : List (String × Written) :=
    [("maxTemp", w), ("minTemp", w'), ("avgTemp", w''), ("startTime", .tree (.string startTime)),
      ("endTime", .tree (.string endTime))]
  refine ⟨.object members, ?_, n, n', n'', written startTime, written endTime, ?_, ⟨b, hb, htext⟩,
    ⟨b', hb', htext'⟩, ⟨b'', hb'', htext''⟩,
    Token.standsFor_of_spells rfl (StringBody.spells_written startTime),
    Token.standsFor_of_spells rfl (StringBody.spells_written endTime)⟩
  · simp only [members, Written.object_action, Written.writeMembers, bind_assoc, pure_bind, haction,
      haction', haction'']
    rfl
  · have htree (s : String) : (Written.tree (.string s)).value =
        .scalar (.string (StringBody.ofText s)) := by
      change (Tree.string s).value = _
      rw [Tree.value]
    let d : Document := ⟨.none, (Written.object members).value, .none⟩
    have hdocument : d.text = (Written.object members).text := List.append_nil _
    have height : d.height ≤ maxNesting := by
      change (Written.object members).value.height ≤ _
      rw [Written.height_object]
      simp only [members, List.foldr_cons, List.foldr_nil, hvalue, hvalue', hvalue'', htree,
        Value.height]
      decide
    rw [← hdocument, Reader.tokens_document d height]
    change ((Written.object members).value.tokens, _) = _
    rw [Written.object, Value.tokens_ofItems]
    simp only [members, List.map_cons, List.map_nil, List.flatMap_cons, List.flatMap_nil,
      Written.member, Item.tokens, Label.tokens, hvalue, hvalue', hvalue'', htree, Value.tokens,
      Scalar.token]
    rfl

theorem reports_of_ok {w : Writer} {u : Unit}
    (h : t.writeReport startTime endTime (.ofCapacity 512) = .ok u w) :
    Reports w.bytes t startTime endTime := by
  obtain ⟨highest, lowest, average⟩ := writeReport_finite h
  obtain ⟨report, haction, hreports⟩ := exists_report highest lowest average
  have hwrites := report.writes .start 0
  rw [haction] at hwrites
  have hbytes := scripted_writeReport.bytes_of_ok hwrites rfl rfl h
  rw [hbytes]
  exact hreports

end HubDevice.Thermostat
