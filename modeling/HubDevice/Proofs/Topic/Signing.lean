import HubDevice.Proofs.Json.Writing
import HubDevice.Proofs.Text.Escaping
import HubDevice.Topic.Identity

set_option autoImplicit false

namespace HubDevice.Identity

/-- With room for it the text is written behind what stands in the buffer. -/
def Fills (write : Buffer → Except Error Buffer) (text : Bytes) : Prop :=
  ∀ b : Buffer, text.length ≤ b.free.length →
    write b = .ok ⟨b.written ++ text, b.free.drop text.length⟩

theorem fills_of_flatten {write : Buffer → Except Error Buffer} {chunks : List Bytes} {text : Bytes}
    (hwrite : ∀ b, write b = b.fill chunks) (htext : chunks.flatten = text) : Fills write text := by
  subst htext
  intro b hroom
  rw [hwrite, Buffer.fill, Buffer.pushAll_of_fits hroom]

def credentials (i : Identity) (signature : String) (expiry : UInt64) (keyName : Option String) :
    List (Bytes × Bytes) :=
  [(utf8 "sr", Percent.encode (utf8 i.resource)), (utf8 "sig", Percent.encode (utf8 signature)),
    (utf8 "se", Decimal.digits expiry.toNat)] ++
    (nonEmpty keyName).toList.map fun k => (utf8 "skn", utf8 k)

variable (i : Identity) (signature : String) (expiry : UInt64) (keyName : Option String)

theorem flatten_passwordChunks :
    (i.passwordChunks signature expiry keyName).flatten =
      utf8 "SharedAccessSignature " ++
        Split.query '='.toUInt8 '&'.toUInt8 (i.credentials signature expiry keyName) := by
  have hlead : utf8 "SharedAccessSignature sr=" =
      utf8 "SharedAccessSignature " ++ (utf8 "sr" ++ ['='.toUInt8]) := by decide
  have hsig : utf8 "&sig=" = '&'.toUInt8 :: (utf8 "sig" ++ ['='.toUInt8]) := by decide
  have hse : utf8 "&se=" = '&'.toUInt8 :: (utf8 "se" ++ ['='.toUInt8]) := by decide
  have hskn : utf8 "&skn=" = '&'.toUInt8 :: (utf8 "skn" ++ ['='.toUInt8]) := by decide
  unfold passwordChunks resourceChunks Split.query credentials
  rw [hlead, hsig, hse, hskn]
  cases nonEmpty keyName with
  | none => simp [optional, Split.join, Percent.flatten_chunks]
  | some k => simp [optional, Split.join, Percent.flatten_chunks]

theorem flatten_signatureChunks :
    (i.signatureChunks expiry).flatten =
      Percent.encode (utf8 i.resource) ++ utf8 "\n" ++ Decimal.digits expiry.toNat := by
  simp [signatureChunks, resourceChunks, Percent.flatten_chunks]

variable {keyName}

theorem credentials_keys : ∀ pair ∈ i.credentials signature expiry keyName,
    '='.toUInt8 ∉ pair.1 ∧ '&'.toUInt8 ∉ pair.1 := by
  intro pair hpair
  have hall : ∀ key ∈ [utf8 "sr", utf8 "sig", utf8 "se", utf8 "skn"],
      '='.toUInt8 ∉ key ∧ '&'.toUInt8 ∉ key := by decide
  refine hall pair.1 ?_
  unfold credentials at hpair
  rcases List.mem_append.1 hpair with hfirst | hname
  · simp only [List.mem_cons, List.not_mem_nil, or_false] at hfirst
    rcases hfirst with rfl | rfl | rfl <;> simp
  · obtain ⟨k, -, rfl⟩ := List.mem_map.1 hname
    simp

theorem credentials_values (hkey : ∀ k, keyName = some k → '&' ∉ k.toList) :
    ∀ pair ∈ i.credentials signature expiry keyName, '&'.toUInt8 ∉ pair.2 := by
  intro pair hpair
  have hencoded (s : Bytes) : '&'.toUInt8 ∉ Percent.encode s :=
    Percent.not_mem_encode (by decide) (by decide) s
  unfold credentials at hpair
  rcases List.mem_append.1 hpair with hfirst | hname
  · simp only [List.mem_cons, List.not_mem_nil, or_false] at hfirst
    rcases hfirst with rfl | rfl | rfl
    · exact hencoded _
    · exact hencoded _
    · exact not_mem_digits (by decide) _
  · obtain ⟨k, hk, rfl⟩ := List.mem_map.1 hname
    have hsome : keyName = some k := (Option.filter_eq_some_iff.1 (Option.mem_toList.1 hk)).1
    exact fun hmem => hkey k hsome (mem_of_mem_utf8 (by decide) hmem)

theorem fills_userName {modelId : String} (h : i.modelId = some modelId) :
    ∃ before, Fills i.userName
      (before ++ (utf8 "&model-id=" ++ Percent.encode (utf8 modelId))) := by
  refine ⟨([utf8 i.hostname, utf8 "/", utf8 i.deviceId] ++
    (optional i.moduleId fun m => [utf8 "/", utf8 m]) ++
    [utf8 "/?api-version=", utf8 apiVersion] ++
    (optional i.userAgent fun a => [utf8 "&", utf8 a])).flatten,
    fills_of_flatten (fun _ => rfl) ?_⟩
  rw [userNameChunks, List.flatten_append, h]
  simp [optional, Percent.flatten_chunks]

theorem model_after_mark (modelId : String) (before : Bytes) :
    (Split.afterLast? (utf8 "&model-id=")
      (before ++ (utf8 "&model-id=" ++ Percent.encode (utf8 modelId)))).bind Percent.decode? =
        some (utf8 modelId) := by
  have habsent : ¬ utf8 "&model-id=" <:+: Percent.encode (utf8 modelId) := fun h =>
    Percent.not_mem_encode (by decide) (by decide) _ (h.subset (a := '&'.toUInt8) (by decide))
  rw [Split.afterLast?_append before (by decide) (by decide) habsent]
  exact Percent.decode?_encode _

variable (keyName)

/-- The query of the password names the resource, the signature, the expiry and the key, and the
text to sign is the same resource and expiry. -/
theorem password_names_signed (hsig : signature ≠ "")
    (hkey : ∀ k, keyName = some k → '&' ∉ k.toList) :
    (∃ query sr sig se : Bytes,
      Fills (i.password signature expiry keyName) (utf8 "SharedAccessSignature " ++ query) ∧
      (Split.segments '&'.toUInt8 query).map (Split.cut? ['='.toUInt8]) =
        [some (utf8 "sr", sr), some (utf8 "sig", sig), some (utf8 "se", se)] ++
          (nonEmpty keyName).toList.map (fun k => some (utf8 "skn", utf8 k)) ∧
      Percent.decode? sr = some (utf8 i.resource) ∧ Percent.decode? sig = some (utf8 signature) ∧
      sr = Percent.encode (utf8 i.resource) ∧ se = Decimal.digits expiry.toNat ∧
      Fills (i.textToSign expiry) (sr ++ utf8 "\n" ++ se)) ∧
    (∀ s : String, Percent.Encoded (Percent.encode (utf8 s)) ∧
      Percent.decode? (Percent.encode (utf8 s)) = some (utf8 s)) ∧
    (∀ s t : String, Percent.encode (utf8 s) = Percent.encode (utf8 t) → s = t) ∧
    ∀ modelId, i.modelId = some modelId → ∃ name, Fills i.userName name ∧
      (Split.afterLast? (utf8 "&model-id=") name).bind Percent.decode? = some (utf8 modelId) := by
  have hnonempty : signature.isEmpty = false := by simpa using hsig
  refine ⟨⟨Split.query '='.toUInt8 '&'.toUInt8 (i.credentials signature expiry keyName), _, _, _,
    ?_, ?_, Percent.decode?_encode _, Percent.decode?_encode _, rfl, rfl, ?_⟩, fun s =>
    ⟨Percent.encoded_encode _, Percent.decode?_encode _⟩,
    fun s t h => utf8_injective (Percent.encode_injective h), fun modelId h => ?_⟩
  · refine fills_of_flatten (fun b => ?_) (flatten_passwordChunks i signature expiry keyName)
    rw [password, hnonempty, if_neg Bool.false_ne_true]
  · rw [Split.pairs_of_query (by decide) (by simp [credentials])
      (credentials_keys i signature expiry) (credentials_values i signature expiry hkey)]
    simp [credentials]
  · exact fills_of_flatten (fun _ => rfl) (flatten_signatureChunks i expiry)
  · obtain ⟨before, hname⟩ := fills_userName i h
    exact ⟨_, hname, model_after_mark modelId before⟩

def sensor : Identity := ⟨"contoso.net", "gate way", some "s&n=1", some "os=a&b", some "dtmi:x;1"⟩

theorem sensor_password :
    ∃ query sr sig : Bytes,
      Fills (sensor.password "ab+c/d=" 42 (some "device"))
        (utf8 "SharedAccessSignature " ++ query) ∧
      (Split.segments '&'.toUInt8 query).map (Split.cut? ['='.toUInt8]) =
        [some (utf8 "sr", sr), some (utf8 "sig", sig), some (utf8 "se", utf8 "42"),
          some (utf8 "skn", utf8 "device")] ∧
      Percent.decode? sr = some (utf8 "contoso.net/devices/gate way/modules/s&n=1") ∧
      Percent.decode? sig = some (utf8 "ab+c/d=") ∧
      Fills (sensor.textToSign 42) (sr ++ utf8 "\n42") := by
  obtain ⟨⟨query, sr, sig, se, hpassword, hpairs, hsr, hsig, -, hse, hsigned⟩, -⟩ :=
    password_names_signed sensor "ab+c/d=" 42 (some "device") (by decide) (by simp)
  have hdigits : se = utf8 "42" := hse.trans (by decide)
  have hresource : sensor.resource = "contoso.net/devices/gate way/modules/s&n=1" := by decide
  rw [hdigits] at hpairs hsigned
  rw [hresource] at hsr
  rw [List.append_assoc] at hsigned
  exact ⟨query, sr, sig, hpassword, hpairs, hsr, hsig, hsigned⟩

end HubDevice.Identity
