import HubDevice.Device.Controller
import HubDevice.Proofs.Device.Reports
import HubDevice.Proofs.Number.Lengths
import HubDevice.Proofs.Twin.Reporting

set_option autoImplicit false

namespace HubDevice

theorem Written.runs (w : Written) (fits : w.text.length ≤ 512) :
    ∃ v, w.action Controller.payloadRoom = .ok () v ∧ v.bytes = w.text := by
  have hroom : Controller.payloadRoom.room = 512 := List.length_replicate
  obtain ⟨v, hok, hbytes, -⟩ := w.writes .start 0 Controller.payloadRoom rfl rfl
    (by rw [hroom]; exact fits)
  exact ⟨v, hok, hbytes⟩

theorem StringBody.length_quoted (s : String) :
    (quoted s).flatten.length ≤ 6 * (utf8 s).length + 2 := by
  have hbyte (b : UInt8) : (quoteByte hexDigitLower b).length ≤ 6 := by
    rcases quoteByte_cases b with ⟨hb, -⟩ | ⟨e, hb, -⟩ | ⟨h, hb, hhex, -⟩ <;> rw [hb]
    · exact Nat.le_add_left 1 5
    · exact Nat.le_add_left 2 4
    · exact Nat.le_of_eq (by rw [List.length_cons, List.length_cons, hhex.1])
  have hwritten : (written s).length ≤ 6 * (utf8 s).length := by
    rw [written]
    induction utf8 s with
    | nil => exact Nat.le_refl 0
    | cons b bytes ih =>
      have hfirst := hbyte b
      rw [List.flatMap_cons, List.length_append, List.length_cons]
      omega
  rw [flatten_quoted, List.length_append, List.length_cons, List.length_singleton]
  omega

namespace Thermostat
open Controller (payloadRoom thermostatNames)

def shown (x : Float) : Bytes := (Binary.ofFloat? x).elim [] (Writer.numberText x · places)

theorem shown_eq {x : Float} {b : Binary} (h : Binary.ofFloat? x = some b) :
    shown x = Writer.numberText x b places := by
  rw [shown, h]
  rfl

theorem length_shown (x : Float) : (shown x).length ≤ 24 := by
  cases h : Binary.ofFloat? x with
  | none =>
    rw [shown, h]
    exact Nat.zero_le 24
  | some b =>
    rw [shown_eq h]
    exact Writer.length_numberText h (by decide)

theorem exists_shown {x : Float} (h : x.isFinite = true) :
    ∃ w : Written, w.action = Writer.float x places ∧ w.text = shown x := by
  obtain ⟨b, hb⟩ := (Binary.isFinite_iff x).1 h
  rw [shown_eq hb]
  exact Written.exists_float hb places

def targetText (name : String) (version : UInt32) (target : Float) : Bytes :=
  utf8 "\x7b" ++ (StringBody.quoted name).flatten ++
    utf8 ":\x7b\"__t\":\"c\",\"targetTemperature\":\x7b\"ac\":200,\"av\":" ++
    Decimal.digits version.toNat ++ utf8 ",\"ad\":\"success\",\"value\":" ++ shown target ++
    utf8 "\x7d\x7d\x7d"

def highestText (name : String) (highest : Float) : Bytes :=
  utf8 "\x7b" ++ (StringBody.quoted name).flatten ++
    utf8 ":\x7b\"__t\":\"c\",\"maxTempSinceLastReboot\":" ++ shown highest ++ utf8 "\x7d\x7d"

def telemetryText (current : Float) : Bytes :=
  utf8 "\x7b\"temperature\":" ++ shown current ++ utf8 "\x7d"

section Calls

variable {name : String}

theorem utf8_open : utf8 "\x7b" = [Container.object.opening] := by decide

theorem utf8_colon : utf8 ":" = [':'.toUInt8] := by decide

theorem utf8_close : utf8 "\x7d" = [Container.object.closing] := by decide

theorem exists_telemetry {t : Thermostat} (h : t.current.isFinite = true) :
    ∃ w : Written, w.action = t.writeTelemetry ∧ w.text = telemetryText t.current := by
  obtain ⟨w, haction, htext⟩ := exists_shown h
  refine ⟨.object [(temperatureName, w)], ?_, ?_⟩
  · simp only [Written.object_action, Written.writeMembers, haction, bind_assoc, pure_bind]
    rfl
  · have hname : utf8 "\x7b\"temperature\":" = Container.object.opening ::
        ((StringBody.quoted temperatureName).flatten ++ [':'.toUInt8]) := by decide
    rw [Written.text_object, telemetryText, ← htext, hname, utf8_close]
    simp [Grammar.joined]

theorem utf8_mark : utf8 "\x7b\"__t\":\"c\"," = Container.object.opening ::
    ((StringBody.quoted Twin.markerName).flatten ++ [':'.toUInt8] ++
      (StringBody.quoted Twin.markerValue).flatten ++ [','.toUInt8]) := by decide

/-- A report with one entry is the object with the member for it. -/
theorem exists_report_of {entry : Twin.Entry} (h : entry.Named) :
    ∃ w : Written, w.action = Twin.writeReport [entry] ∧
      w.text = utf8 "\x7b" ++ (StringBody.quoted entry.member.1).flatten ++ utf8 ":" ++
        entry.member.2.text ++ utf8 "\x7d" := by
  have hall : ∀ e ∈ [entry], e.Named := by simpa using h
  refine ⟨Twin.root [entry], Twin.root_action hall, ?_⟩
  rw [Twin.root, Written.text_object, utf8_open, utf8_colon, utf8_close]
  simp [Grammar.joined]

theorem text_marked (name : String) (w : Written) :
    (Twin.Entry.marked [(name, w)]).text =
      utf8 "\x7b\"__t\":\"c\"," ++ (StringBody.quoted name).flatten ++ utf8 ":" ++ w.text ++
        utf8 "\x7d" := by
  rw [Twin.Entry.marked, Written.text_object, utf8_mark, utf8_colon, utf8_close]
  simp [Grammar.joined, Written.text_string]

theorem ne_of_mem {other : String} (hname : name ∈ thermostatNames)
    (hother : other ∉ thermostatNames) : name ≠ other := by
  rintro rfl
  exact hother hname

theorem exists_highest {t : Thermostat} (hname : t.name ≠ "")
    (h : t.highest.isFinite = true) :
    ∃ w : Written, w.action = t.highestReport ∧ w.text = highestText t.name t.highest := by
  obtain ⟨w, haction, htext⟩ := exists_shown h
  have hnamed : (Twin.Entry.component t.name [(highestName, w)]).Named := hname
  obtain ⟨report, hreport, hbytes⟩ := exists_report_of hnamed
  refine ⟨report, ?_, ?_⟩
  · rw [hreport]
    simp only [Twin.writeReport, Twin.writeEntries, Twin.Entry.write, Written.writeMembers,
      haction, bind_assoc, pure_bind]
    rfl
  · have hmark : utf8 ":\x7b\"__t\":\"c\",\"maxTempSinceLastReboot\":" =
        utf8 ":" ++ utf8 "\x7b\"__t\":\"c\"," ++ (StringBody.quoted highestName).flatten ++
          utf8 ":" := by decide +kernel
    have hclose : utf8 "\x7d\x7d" = utf8 "\x7d" ++ utf8 "\x7d" := by decide
    rw [hbytes, Twin.Entry.member, text_marked, htext, highestText, hmark, hclose]
    simp only [List.append_assoc]

theorem exists_target (hname : name ≠ "") (version : UInt32) {target : Float}
    (h : target.isFinite = true) :
    ∃ w : Written, w.action = acknowledgeTarget name version target ∧
      w.text = targetText name version target := by
  obtain ⟨w, haction, htext⟩ := exists_shown h
  let a : Twin.Acknowledgement := ⟨some name, targetName, .ok, version, some "success"⟩
  have htarget : targetName ≠ "" := by decide
  have hnamed : (Twin.Entry.acknowledgement a w).Named :=
    ⟨htarget, fun c hc => by rwa [← Option.some.inj hc]⟩
  obtain ⟨report, hreport, hbytes⟩ := exists_report_of hnamed
  refine ⟨report, ?_, ?_⟩
  · rw [hreport]
    simp only [Twin.writeReport, Twin.writeEntries, Twin.Entry.write, haction, bind_assoc,
      pure_bind]
    rfl
  · have hmark : utf8 ":\x7b\"__t\":\"c\",\"targetTemperature\":\x7b\"ac\":200,\"av\":" =
        utf8 ":" ++ utf8 "\x7b\"__t\":\"c\"," ++ (StringBody.quoted targetName).flatten ++
          utf8 ":" ++ utf8 "\x7b\"ac\":" ++ Decimal.digits 200 ++ utf8 ",\"av\":" := by
      decide +kernel
    have hdescription : utf8 ",\"ad\":\"success\",\"value\":" =
        utf8 ",\"ad\":" ++ (StringBody.quoted "success").flatten ++ utf8 ",\"value\":" := by
      decide +kernel
    have hclose : utf8 "\x7d\x7d\x7d" = utf8 "\x7d" ++ utf8 "\x7d" ++ utf8 "\x7d" := by decide
    change report.text = utf8 "\x7b" ++ (StringBody.quoted name).flatten ++ utf8 ":" ++
      (Twin.Entry.marked [(targetName, Twin.Entry.acknowledged a w)]).text ++ utf8 "\x7d" at hbytes
    rw [hbytes, text_marked, Twin.text_acknowledged, htext, targetText, hmark, hdescription, hclose]
    simp only [Twin.Acknowledgement.text, a, List.append_assoc]
    rfl

theorem exists_bounded_report {t : Thermostat} (startTime endTime : String)
    (highest : t.highest.isFinite = true) (lowest : t.lowest.isFinite = true)
    (average : t.average.isFinite = true) :
    ∃ w : Written, w.action = t.writeReport startTime endTime ∧
      w.text.length ≤ 134 + 6 * (utf8 startTime).length + 6 * (utf8 endTime).length := by
  obtain ⟨w, haction, htext⟩ := exists_shown highest
  obtain ⟨w', haction', htext'⟩ := exists_shown lowest
  obtain ⟨w'', haction'', htext''⟩ := exists_shown average
  refine ⟨.object [("maxTemp", w), ("minTemp", w'), ("avgTemp", w''),
    ("startTime", .tree (.string startTime)), ("endTime", .tree (.string endTime))], ?_, ?_⟩
  · simp only [Written.object_action, Written.writeMembers, haction, haction', haction'',
      bind_assoc, pure_bind]
    rfl
  · have hmax : (StringBody.quoted "maxTemp").flatten.length = 9 := by decide
    have hmin : (StringBody.quoted "minTemp").flatten.length = 9 := by decide
    have havg : (StringBody.quoted "avgTemp").flatten.length = 9 := by decide
    have hfrom : (StringBody.quoted "startTime").flatten.length = 11 := by decide
    have hto : (StringBody.quoted "endTime").flatten.length = 9 := by decide
    have hlengths := And.intro (length_shown t.highest)
      (And.intro (length_shown t.lowest) (length_shown t.average))
    have hquoted := StringBody.length_quoted startTime
    have hquoted' := StringBody.length_quoted endTime
    rw [Written.text_object]
    simp only [List.map_cons, List.map_nil, Grammar.joined, List.length_append, List.length_cons,
      List.length_nil, htext, htext', htext'', Written.text_string, hmax, hmin, havg, hfrom, hto]
    omega

/-- A report over a start time that was taken from a request, up to a time of at most 30 bytes. -/
theorem exists_fitting_report {t : Thermostat} {startTime endTime : String}
    (highest : t.highest.isFinite = true) (lowest : t.lowest.isFinite = true)
    (average : t.average.isFinite = true) (hstart : (utf8 startTime).length ≤ 32)
    (hend : (utf8 endTime).length ≤ 30) :
    ∃ w : Written, w.action = t.writeReport startTime endTime ∧ w.text.length ≤ 512 := by
  obtain ⟨w, haction, hlength⟩ := exists_bounded_report startTime endTime highest lowest average
  exact ⟨w, haction, by omega⟩

end Calls

theorem length_quoted_name {name : String} (hname : name ∈ thermostatNames) :
    (StringBody.quoted name).flatten.length = 13 := by
  have hall : ∀ name ∈ thermostatNames, (StringBody.quoted name).flatten.length = 13 := by decide
  exact hall name hname

theorem length_targetText {name : String} (hname : name ∈ thermostatNames) (version : UInt32)
    (target : Float) : (targetText name version target).length ≤ 512 := by
  have hversion : (Decimal.digits version.toNat).length ≤ 10 :=
    Decimal.length_digits_le (by decide) (Nat.lt_trans version.toNat_lt (by decide))
  have hshown := length_shown target
  have hmark :
      (utf8 ":\x7b\"__t\":\"c\",\"targetTemperature\":\x7b\"ac\":200,\"av\":").length = 47 := by
    decide +kernel
  have hdescription : (utf8 ",\"ad\":\"success\",\"value\":").length = 24 := by decide +kernel
  have hopen : (utf8 "\x7b").length = 1 := by decide
  have hclose : (utf8 "\x7d\x7d\x7d").length = 3 := by decide
  simp only [targetText, List.length_append, length_quoted_name hname, hmark, hdescription, hopen,
    hclose]
  omega

theorem length_highestText {name : String} (hname : name ∈ thermostatNames) (highest : Float) :
    (highestText name highest).length ≤ 512 := by
  have hshown := length_shown highest
  have hmark : (utf8 ":\x7b\"__t\":\"c\",\"maxTempSinceLastReboot\":").length = 37 := by
    decide +kernel
  have hopen : (utf8 "\x7b").length = 1 := by decide
  have hclose : (utf8 "\x7d\x7d").length = 2 := by decide
  simp only [highestText, List.length_append, length_quoted_name hname, hmark, hopen, hclose]
  omega

theorem length_telemetryText (current : Float) : (telemetryText current).length ≤ 512 := by
  have hshown := length_shown current
  have hname : (utf8 "\x7b\"temperature\":").length = 15 := by decide
  have hclose : (utf8 "\x7d").length = 1 := by decide
  simp only [telemetryText, List.length_append, hname, hclose]
  omega

theorem acknowledgeTarget_runs {name : String} (hname : name ∈ thermostatNames) (version : UInt32)
    {target : Float} (h : target.isFinite = true) :
    ∃ w, acknowledgeTarget name version target payloadRoom = .ok () w ∧
      w.bytes = targetText name version target := by
  obtain ⟨w, haction, htext⟩ := exists_target (ne_of_mem hname (by decide)) version h
  rw [← haction, ← htext]
  exact w.runs (by rw [htext]; exact length_targetText hname version target)

theorem highestReport_runs {t : Thermostat} (hname : t.name ∈ thermostatNames)
    (h : t.highest.isFinite = true) :
    ∃ w, t.highestReport payloadRoom = .ok () w ∧ w.bytes = highestText t.name t.highest := by
  obtain ⟨w, haction, htext⟩ := exists_highest (ne_of_mem hname (by decide)) h
  rw [← haction, ← htext]
  exact w.runs (by rw [htext]; exact length_highestText hname t.highest)

theorem finite_of_highestReport {t : Thermostat} {w w' : Writer} {u : Unit}
    (h : t.highestReport w = .ok u w') : t.highest.isFinite = true := by
  obtain ⟨_, _, -, h⟩ := bind_eq_ok_state h
  obtain ⟨_, _, -, h⟩ := bind_eq_ok_state h
  obtain ⟨_, _, -, h⟩ := bind_eq_ok_state h
  obtain ⟨_, _, highest, -⟩ := bind_eq_ok_state h
  exact (Binary.isFinite_iff _).2 (finite_of_ok highest)

theorem finite_of_acknowledgeTarget {name : String} {version : UInt32} {target : Float}
    {w w' : Writer} {u : Unit} (h : acknowledgeTarget name version target w = .ok u w') :
    target.isFinite = true := by
  obtain ⟨_, _, -, h⟩ := bind_eq_ok_state h
  obtain ⟨_, _, -, h⟩ := bind_eq_ok_state h
  obtain ⟨_, _, hvalue, -⟩ := bind_eq_ok_state h
  exact (Binary.isFinite_iff _).2 (finite_of_ok hvalue)

theorem finite_of_writeTelemetry {t : Thermostat} {w w' : Writer} {u : Unit}
    (h : t.writeTelemetry w = .ok u w') : t.current.isFinite = true := by
  obtain ⟨_, _, -, h⟩ := bind_eq_ok_state h
  obtain ⟨_, _, -, h⟩ := bind_eq_ok_state h
  obtain ⟨_, _, current, -⟩ := bind_eq_ok_state h
  exact (Binary.isFinite_iff _).2 (finite_of_ok current)

theorem writeTelemetry_runs {t : Thermostat} (h : t.current.isFinite = true) :
    ∃ w, t.writeTelemetry payloadRoom = .ok () w ∧ w.bytes = telemetryText t.current := by
  obtain ⟨w, haction, htext⟩ := exists_telemetry h
  rw [← haction, ← htext]
  exact w.runs (by rw [htext]; exact length_telemetryText t.current)

end Thermostat

end HubDevice
