import HubDevice.Proofs.Topic.Lists
import HubDevice.Proofs.Topic.Signing

set_option autoImplicit false

namespace HubDevice.Draft

def part (lead : String) (s : Option String) : String := s.elim "" (lead ++ ·)

def resource (i : Identity) : String :=
  i.hostname ++ "/devices/" ++ i.deviceId ++ part "/modules/" i.moduleId

def propertyText (properties : Option Properties) (component : Option String) : String :=
  match properties.filter fun p => !p.isEmpty, component with
  | none, none => ""
  | none, some c => "$.sub=" ++ c
  | some p, none => p.text
  | some p, some c => p.text ++ "&$.sub=" ++ c

def eventsTopic (i : Identity) : String :=
  "devices/" ++ i.deviceId ++ part "/modules/" i.moduleId ++ "/messages/events/"

def template (i : Identity) : Draft → Bytes
  | clientId => utf8 (i.deviceId ++ part "/" i.moduleId)
  | userName =>
    utf8 (i.hostname ++ "/" ++ i.deviceId ++ part "/" i.moduleId ++ "/?api-version=2020-09-30" ++
      part "&" i.userAgent) ++
    i.modelId.elim [] fun model => utf8 "&model-id=" ++ Percent.encode (utf8 model)
  | textToSign expiry =>
    Percent.encode (utf8 (resource i)) ++ utf8 ("\n" ++ Decimal.text expiry.toNat)
  | password signature expiry keyName =>
    utf8 "SharedAccessSignature sr=" ++ Percent.encode (utf8 (resource i)) ++
      utf8 "&sig=" ++ Percent.encode (utf8 signature) ++
      utf8 ("&se=" ++ Decimal.text expiry.toNat ++ part "&skn=" (keyName.filter (· ≠ "")))
  | telemetry properties component => utf8 (eventsTopic i ++ propertyText properties component)
  | twinGet requestId => utf8 ("$iothub/twin/GET/?$rid=" ++ requestId)
  | twinPatch requestId => utf8 ("$iothub/twin/PATCH/properties/reported/?$rid=" ++ requestId)
  | response requestId status =>
    utf8 ("$iothub/methods/res/" ++ Decimal.text status.code.toNat ++ "/?$rid=" ++ requestId)

theorem flatten_optional (lead : String) (s : Option String) :
    (Identity.optional s fun t => [utf8 lead, utf8 t]).flatten = utf8 (part lead s) := by
  cases s with
  | none => rfl
  | some t => simp [Identity.optional, part, utf8_append]

theorem resource_eq (i : Identity) : i.resource = resource i := by
  unfold Identity.resource resource part
  cases i.moduleId <;> rfl

theorem nonEmpty_eq (s : Option String) : Identity.nonEmpty s = s.filter (· ≠ "") := by
  cases s <;> simp [Identity.nonEmpty, Option.filter]

theorem flatten_telemetryChunks (i : Identity) (properties : Option Properties)
    (component : Option String) :
    (Topic.telemetryChunks i properties component).flatten =
      utf8 (eventsTopic i ++ propertyText properties component) := by
  have hname : utf8 "$.sub=" = utf8 "$.sub" ++ utf8 "=" := by decide
  have hjoint : utf8 "&$.sub=" = utf8 "&" ++ (utf8 "$.sub" ++ utf8 "=") := by decide
  unfold Topic.telemetryChunks eventsTopic propertyText Topic.componentProperty
  dsimp only
  generalize properties.filter (fun p => !p.isEmpty) = listed
  rw [List.flatten_append, List.flatten_append, List.flatten_append, List.flatten_append,
    flatten_optional]
  cases listed <;> cases component <;>
    simp [Identity.optional, utf8_append, hname, hjoint]

theorem flatten_userNameChunks (i : Identity) : i.userNameChunks.flatten = userName.template i := by
  have hversion : utf8 "/?api-version=2020-09-30" =
      utf8 "/?api-version=" ++ utf8 "2020-09-30" := by decide
  unfold Identity.userNameChunks template apiVersion
  rw [List.flatten_append, List.flatten_append, List.flatten_append, List.flatten_append,
    flatten_optional, flatten_optional]
  cases i.modelId <;>
    simp [Identity.optional, utf8_append, hversion, Percent.flatten_chunks]

theorem flatten_passwordChunks (i : Identity) (signature : String) (expiry : UInt64)
    (keyName : Option String) : (i.passwordChunks signature expiry keyName).flatten =
      (password signature expiry keyName).template i := by
  unfold Identity.passwordChunks Identity.resourceChunks template
  rw [List.flatten_append, flatten_optional, nonEmpty_eq, resource_eq]
  simp [utf8_append, Percent.flatten_chunks, Decimal.utf8_text]

/-- The chunks of a text make up its template. -/
theorem flatten_chunks (i : Identity) (d : Draft) : (d.chunks i).flatten = d.template i := by
  cases d with
  | clientId =>
    rw [chunks, Identity.clientIdChunks, List.flatten_cons, flatten_optional, ← utf8_append]
    rfl
  | userName => exact flatten_userNameChunks i
  | textToSign expiry =>
    rw [chunks, Identity.flatten_signatureChunks, resource_eq, template, utf8_append,
      Decimal.utf8_text, List.append_assoc]
  | password signature expiry keyName => exact flatten_passwordChunks i signature expiry keyName
  | telemetry properties component => exact flatten_telemetryChunks i properties component
  | twinGet requestId => simp [chunks, template, Topic.twinGetStem, utf8_append]
  | twinPatch requestId => simp [chunks, template, Topic.twinPatchStem, utf8_append]
  | response requestId status =>
    simp [chunks, template, Status.digits, utf8_append, Decimal.utf8_text]

variable {i : Identity} {d : Draft} {memory : Bytes}

/-- What a text needs is checked before anything is written. -/
theorem form_eq (i : Identity) (d : Draft) (b : Buffer) :
    d.form i b = if d.admissible then b.fill (d.chunks i) else .error .invalidArgument := by
  have hchecked (s : String) (r : Except Error Buffer) :
      (if s.isEmpty then .error .invalidArgument else r) =
        if !s.isEmpty then r else .error .invalidArgument := by
    cases s.isEmpty <;> rfl
  cases d with
  | clientId => rfl
  | userName => rfl
  | textToSign expiry => rfl
  | password signature expiry keyName => exact hchecked signature _
  | telemetry properties component =>
    unfold form Topic.telemetry admissible
    by_cases hempty : component = some "" <;> simp [hempty, chunks]
  | twinGet requestId => exact hchecked requestId _
  | twinPatch requestId => exact hchecked requestId _
  | response requestId status => exact hchecked requestId _

theorem write_of_not_admissible (h : d.admissible = false) :
    d.write i memory = .error .invalidArgument memory := by
  rw [write, h]
  rfl

theorem write_of_fits (h : d.admissible = true) (hfits : (d.template i).length ≤ memory.length) :
    d.write i memory =
      .ok (d.template i).length (d.template i ++ memory.drop (d.template i).length) := by
  rw [← flatten_chunks] at hfits ⊢
  rcases Buffer.put_cases (d.chunks i) ⟨[], memory⟩ with ⟨-, hput⟩ | ⟨hover, -⟩
  · rw [write, h, if_pos rfl, hput]
    rfl
  · exact absurd hfits (Nat.not_le_of_lt hover)

theorem write_of_overflow (h : d.admissible = true)
    (hover : memory.length < (d.template i).length) :
    ∃ front, front <+: d.template i ∧ front.length ≤ memory.length ∧
      d.write i memory = .error .bufferTooSmall (front ++ memory.drop front.length) := by
  rw [← flatten_chunks] at hover ⊢
  rcases Buffer.put_cases (d.chunks i) ⟨[], memory⟩ with
    ⟨hfits, -⟩ | ⟨-, front, hfront, hroom, hput⟩
  · exact absurd hover (Nat.not_lt_of_le hfits)
  · refine ⟨front, hfront, hroom, ?_⟩
    rw [write, h, if_pos rfl, hput]
    rfl

/-- The text in the memory is the text in the buffer. -/
theorem form_onMemory (i : Identity) (d : Draft) (memory : Bytes) :
    d.form i ⟨[], memory⟩ =
      match d.write i memory with
      | .ok n whole => .ok ⟨whole.take n, whole.drop n⟩
      | .error e _ => .error e := by
  rw [form_eq, write]
  split
  · rw [Buffer.fill_eq_put]
    cases Buffer.put (d.chunks i) ⟨[], memory⟩ with
    | ok _ full => simp [Buffer.length, Buffer.contents]
    | error e full => rfl
  · rfl

/-- A text is written as a whole exactly where there is room for its template, behind which nothing
changes. Where there is not, a beginning of it may stand in memory, and nothing where an argument is
refused. So a text that was written is written in every larger memory, and is the same one. -/
theorem written_whole (i : Identity) (d : Draft) :
    (d.admissible = false → ∀ memory, d.write i memory = .error .invalidArgument memory) ∧
    (d.admissible = true → ∀ memory : Bytes,
      ((d.template i).length ≤ memory.length →
        d.write i memory =
          .ok (d.template i).length (d.template i ++ memory.drop (d.template i).length)) ∧
      (memory.length < (d.template i).length →
        ∃ front, front <+: d.template i ∧ front.length ≤ memory.length ∧
          d.write i memory = .error .bufferTooSmall (front ++ memory.drop front.length))) ∧
    (∀ (small large : Bytes) (n : Nat) (written : Bytes), d.write i small = .ok n written →
      small.length ≤ large.length →
        ∃ more, d.write i large = .ok n more ∧ more.take n = written.take n) ∧
    ∀ memory, d.form i ⟨[], memory⟩ =
      match d.write i memory with
      | .ok n whole => .ok ⟨whole.take n, whole.drop n⟩
      | .error e _ => .error e := by
  refine ⟨fun h memory => write_of_not_admissible h, fun h memory => ⟨write_of_fits h,
    write_of_overflow h⟩, fun small large n written hwrite hlarge => ?_, form_onMemory i d⟩
  cases h : d.admissible with
  | false =>
    rw [write_of_not_admissible h] at hwrite
    cases hwrite
  | true =>
    by_cases hfits : (d.template i).length ≤ small.length
    · rw [write_of_fits h hfits] at hwrite
      cases hwrite
      exact ⟨_, write_of_fits h (Nat.le_trans hfits hlarge), by rw [List.take_left, List.take_left]⟩
    · obtain ⟨front, -, -, herror⟩ := write_of_overflow h (Nat.lt_of_not_le hfits)
      rw [herror] at hwrite
      cases hwrite

/-- The last character but one of this user name takes three bytes, and the memory may end within
them. -/
def sensorName : Bytes :=
  utf8 "contoso.net/gate way/s&n=1/?api-version=2020-09-30&os=a&b&model-id=dtmi%3Ax%3B1"

theorem sensor_name_written :
    userName.write Identity.sensor (List.replicate 90 7) =
      .ok 79 (sensorName ++ List.replicate 11 7) ∧
    (∃ front : Bytes, userName.write Identity.sensor (List.replicate 77 7) =
      .error .bufferTooSmall (front ++ (List.replicate 77 7).drop front.length)) ∧
    (twinGet "").write Identity.sensor [7, 7] = .error .invalidArgument [7, 7] := by
  have htemplate : userName.template Identity.sensor = sensorName := by decide
  have hlength : sensorName.length = 79 := by decide
  obtain ⟨-, hroom, -⟩ := written_whole Identity.sensor userName
  obtain ⟨hrefused, -⟩ := written_whole Identity.sensor (twinGet "")
  rw [htemplate, hlength] at hroom
  refine ⟨?_, ?_, hrefused (by decide) _⟩
  · exact (hroom rfl (List.replicate 90 7)).1 (by decide)
  · obtain ⟨front, -, -, herror⟩ := (hroom rfl (List.replicate 77 7)).2 (by decide)
    exact ⟨front, herror⟩

end HubDevice.Draft
