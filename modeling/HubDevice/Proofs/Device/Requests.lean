import HubDevice.Proofs.Device.Payloads

set_option autoImplicit false

namespace HubDevice
open Grammar

/-- Behind the closing quote of a string anything may follow. -/
theorem Reader.take_string (nesting : List Container) (body : Body) (rest : Bytes) :
    take nesting .value (body.quoted ++ rest) = .ok (.string body.bytes, nesting, rest) := by
  have hscan := StringBody.scan_body body rest
  simp only [take, Body.quoted, List.cons_append, List.append_assoc, List.nil_append,
    takeScalar, if_true, hscan]
  rfl

namespace Thermostat
open Writer (comma)

/-- The document is a string that may stand for a start time. -/
structure StartTime (d : Document) (text : String) : Prop where
  string : ∃ body : Body, d.root = .scalar (.string body) ∧ Spells body.bytes (utf8 text)
  given : text ≠ ""
  short : (utf8 text).length ≤ 32

/-- The payload begins with such a document. -/
def RequestsSince (payload : Bytes) (text : String) : Prop :=
  ∃ (d : Document) (rest : Bytes), payload = d.text ++ rest ∧ StartTime d text

theorem requestsSince_of_asks {payload : Bytes} {text : String} (h : Asks payload text) :
    RequestsSince payload text := by
  obtain ⟨first, bytes, step, token, hspells, hshort, hgiven⟩ := h
  obtain ⟨wanted, hwants, htake⟩ := Reader.next_sound step
  obtain ⟨horigin, hwanted⟩ := Prod.mk.inj hwants
  cases hwanted
  obtain ⟨before, hbefore⟩ := Reader.exists_blank payload
  rcases Reader.take_value_sound htake with ⟨x, hx, -, htext⟩ | ⟨c, hopened, -⟩
  · rw [token] at hx
    cases x with
    | string body =>
      cases hx
      refine ⟨⟨before, .scalar (.string body), .none⟩, first.rest, ?_, ⟨body, rfl, hspells⟩,
        hgiven, hshort⟩
      change payload = before.bytes ++ body.quoted ++ [] ++ first.rest
      have hpayload : payload = before.bytes ++ first.origin :=
        hbefore.trans (by rw [← horigin]; rfl)
      rw [hpayload, htext, List.append_nil, List.append_assoc]
      rfl
    | _ => cases hx
  · rw [token] at hopened
    cases hopened

theorem since_of_requestsSince {payload : Bytes} {text : String} (h : RequestsSince payload text) :
    since payload = .ok text := by
  obtain ⟨⟨before, root, behind⟩, rest, rfl, ⟨body, hroot, hspells⟩, hgiven, hshort⟩ := h
  dsimp only at hroot
  subst hroot
  have hseek : (Reader.ofBytes ((before.bytes ++ body.quoted ++ behind.bytes) ++ rest)).Wants .value
      (body.quoted ++ (behind.bytes ++ rest)) := by
    have hspace := Reader.skipSpace_value (.scalar (.string body)) (behind.bytes ++ rest)
    change (Reader.skipSpace (before.bytes ++ body.quoted ++ behind.bytes ++ rest), _) = _
    rw [List.append_assoc, List.append_assoc, Reader.skipSpace_blank]
    exact congrArg (·, Except.ok Reader.Wanted.value) hspace
  have step := Reader.next_of_take hseek (Reader.take_string [] body (behind.bytes ++ rest))
  have hstands : (Token.string body.bytes).StandsFor text := Token.standsFor_of_spells rfl hspells
  have hempty : text.isEmpty = false := by simpa using hgiven
  change since ((before.bytes ++ body.quoted ++ behind.bytes) ++ rest) = _
  rw [since, step]
  dsimp only
  rw [hstands.1 32 hshort]
  dsimp only
  rw [hempty]
  rfl

/-- Exactly the requests that begin with a start time are accepted. -/
theorem since_eq_ok_iff {payload : Bytes} {text : String} :
    since payload = .ok text ↔ RequestsSince payload text :=
  ⟨fun h => requestsSince_of_asks (asks_of_since h), since_of_requestsSince⟩

variable {t : Thermostat} {now : String} {w : Writer}

theorem writeReport_reports (text now : String) (highest : t.highest.isFinite = true)
    (lowest : t.lowest.isFinite = true) (average : t.average.isFinite = true)
    (room : 135 + 6 * (utf8 text).length + 6 * (utf8 now).length ≤ w.room) :
    ∃ w' response, t.writeReport text now w = .ok () w' ∧
      w'.bytes = w.bytes ++ (comma w.place ++ response) ∧ Reports response t text now := by
  obtain ⟨report, haction, hlength⟩ := exists_bounded_report text now highest lowest average
  have hread : ∃ read : Written, read.action = t.writeReport text now ∧
      Reports read.text t text now :=
    exists_report ((Binary.isFinite_iff _).1 highest) ((Binary.isFinite_iff _).1 lowest)
      ((Binary.isFinite_iff _).1 average)
  obtain ⟨read, haction', hreports⟩ := hread
  have hcomma := Writer.length_comma w.place
  unfold Written.text at hlength
  obtain ⟨w', hok, -⟩ := report.writes w.place w.depth w rfl rfl
    (by rw [List.length_append]; omega)
  rw [haction] at hok
  have hwrites := read.writes w.place w.depth
  rw [haction'] at hwrites
  exact ⟨w', read.text, hok, scripted_writeReport.bytes_of_ok hwrites rfl rfl hok, hreports⟩

theorem rawEmpty_writes (room : 3 ≤ w.room) :
    ∃ w', Writer.raw emptyObject w = .ok () w' ∧
      w'.bytes = w.bytes ++ (comma w.place ++ utf8 "\x7b\x7d") := by
  have hcomma := Writer.length_comma w.place
  have hlength : emptyObject.length = 2 := by decide
  have hitem := Writer.item_writes [emptyObject] w.place .value w.depth
  rw [List.flatten_singleton] at hitem
  obtain ⟨w', hok, hbytes, -⟩ := hitem w rfl rfl (by rw [List.length_append]; omega)
  exact ⟨w', hok, hbytes⟩

/-- Asked for its report, a thermostat of finite numbers answers with one if the payload begins with
a start time, whatever follows, and otherwise with an empty object. -/
theorem report_accepted_iff (highest : t.highest.isFinite = true)
    (lowest : t.lowest.isFinite = true) (average : t.average.isFinite = true) (payload : Bytes)
    (room : 327 + 6 * (utf8 now).length ≤ w.room) :
    ∃ status w' response, t.process now "getMaxMinReport" payload w = .ok status w' ∧
      w'.bytes = w.bytes ++ (comma w.place ++ response) ∧
      (status = ⟨200⟩ ↔ ∃ text, RequestsSince payload text) ∧
      (∀ text, RequestsSince payload text → Reports response t text now) ∧
      ((∀ text, ¬ RequestsSince payload text) → status = ⟨400⟩ ∧ response = utf8 "\x7b\x7d") := by
  have hasks : ¬ "getMaxMinReport" ≠ reportCommand := fun h => h rfl
  unfold process
  rw [if_neg hasks]
  cases hsince : since payload with
  | ok text =>
    have hsame (text' : String) (h : RequestsSince payload text') : text' = text := by
      rw [since_of_requestsSince h] at hsince
      exact Except.ok.inj hsince
    obtain ⟨_, _, -, hstart⟩ := since_eq_ok_iff.1 hsince
    have hshort := hstart.short
    obtain ⟨w', response, hok, hbytes, hreports⟩ :=
      writeReport_reports text now (w := w) highest lowest average (by omega)
    refine ⟨.ok, w', response, bind_of_ok hok, hbytes, ⟨fun _ => ⟨text, ?_⟩, fun _ => rfl⟩,
      fun text' h => ?_, fun h => ?_⟩
    · exact since_eq_ok_iff.1 hsince
    · rw [hsame text' h]
      exact hreports
    · exact absurd (since_eq_ok_iff.1 hsince) (h text)
  | error e =>
    have hrefused (text : String) : ¬ RequestsSince payload text := by
      intro h
      rw [since_of_requestsSince h] at hsince
      cases hsince
    obtain ⟨w', hok, hbytes⟩ := rawEmpty_writes (w := w) (by omega)
    exact ⟨.badRequest, w', _, bind_of_ok hok, hbytes,
      ⟨fun h => absurd h (by decide), fun ⟨text, h⟩ => absurd h (hrefused text)⟩,
      fun text h => absurd h (hrefused text), fun _ => ⟨rfl, rfl⟩⟩

theorem plain_report_accepted :
    let t := Thermostat.start "thermostat1" 22
    let w := Writer.ofCapacity 512
    let payload := utf8 "\"2024\""
    t.highest.isFinite = true ∧ t.lowest.isFinite = true ∧ t.average.isFinite = true ∧
      327 + 6 * (utf8 "now").length ≤ w.room ∧
      ∃ status w' response, t.process "now" "getMaxMinReport" payload w = .ok status w' ∧
        w'.bytes = w.bytes ++ (comma w.place ++ response) ∧
        (status = ⟨200⟩ ↔ ∃ text, RequestsSince payload text) ∧
        (∀ text, RequestsSince payload text → Reports response t text "now") ∧
        ((∀ text, ¬ RequestsSince payload text) →
          status = ⟨400⟩ ∧ response = utf8 "\x7b\x7d") := by
  have highest : (Thermostat.start "thermostat1" 22).highest.isFinite = true := by decide +kernel
  have lowest : (Thermostat.start "thermostat1" 22).lowest.isFinite = true := by decide +kernel
  have average : (Thermostat.start "thermostat1" 22).average.isFinite = true := by decide +kernel
  have room : 327 + 6 * (utf8 "now").length ≤ (Writer.ofCapacity 512).room := by decide +kernel
  exact ⟨highest, lowest, average, room,
    report_accepted_iff highest lowest average (utf8 "\"2024\"") room⟩

def trailing : Bytes := utf8 "\"2024\" x"

theorem trailing_accepted :
    (∃ w, (Thermostat.start "thermostat1" 22).process "now" "getMaxMinReport" trailing
      (.ofCapacity 256) = .ok ⟨200⟩ w) ∧
    ∀ d text, StartTime d text → trailing ≠ d.text := by
  constructor
  · have hsince : since trailing = .ok "2024" := by decide +kernel
    have hasks : ¬ "getMaxMinReport" ≠ reportCommand := fun h => h rfl
    obtain ⟨w, -, hok, -⟩ := writeReport_reports (t := .start "thermostat1" 22)
      (w := .ofCapacity 256) "2024" "now"
      (by decide +kernel) (by decide +kernel) (by decide +kernel) (by decide +kernel)
    refine ⟨w, ?_⟩
    rw [process, if_neg hasks, hsince]
    exact bind_of_ok hok
  · rintro d text ⟨⟨body, hroot, -⟩, -, -⟩ htrailing
    have height : d.height ≤ maxNesting := by
      rw [Document.height, hroot]
      exact Nat.zero_le _
    have htokens := Reader.tokens_document d height
    have hend : (Reader.ofBytes trailing).tokens.2 = .trailingCharacters := by decide +kernel
    rw [htrailing, htokens] at hend
    cases hend

end Thermostat

end HubDevice
