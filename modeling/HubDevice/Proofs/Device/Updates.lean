import HubDevice.Proofs.Device.Payloads

set_option autoImplicit false

namespace HubDevice.Thermostat
open Writer

/-- The acknowledgement can be written: there is a name to write, the number has a text, and there
is room. -/
structure Acknowledgeable (name : String) (version : UInt32) (target : Float) (w : Writer) :
    Prop where
  named : name ≠ ""
  finite : target.isFinite = true
  fits : (comma w.place ++ targetText name version target).length ≤ w.room

theorem composed_acknowledgeTarget (name : String) (version : UInt32) (target : Float) :
    Composed (fun _ => True) (acknowledgeTarget name version target) :=
  .sequence (.primitive (p := .opening .object) trivial) <|
    .sequence (.beginAcknowledgement fun _ _ => trivial) <|
    .sequence (.primitive (p := .float target places) trivial) <|
    .sequence (.endAcknowledgement (some name) fun _ _ => trivial)
      (.primitive (p := .closing .object) trivial)

theorem named_of_acknowledgeTarget {name : String} {version : UInt32} {target : Float}
    {w w' : Writer} {u : Unit} (h : acknowledgeTarget name version target w = .ok u w') :
    name ≠ "" := by
  rintro rfl
  obtain ⟨_, v, -, h⟩ := bind_eq_ok_state h
  obtain ⟨_, _, hopening, -⟩ := bind_eq_ok_state h
  have hrefused : Twin.beginAcknowledgement
      ⟨some "", targetName, .ok, version, some "success"⟩ v = .error .invalidArgument v := rfl
  rw [hrefused] at hopening
  cases hopening

theorem acknowledgeTarget_writes {name : String} (hname : name ≠ "") (version : UInt32)
    {target : Float} (h : target.isFinite = true) (place : Place) (depth : Nat) :
    Writes (acknowledgeTarget name version target) place depth
      (comma place ++ targetText name version target) .value depth := by
  obtain ⟨w, haction, htext⟩ := exists_target hname version h
  rw [← haction, ← htext]
  exact w.writes place depth

theorem acknowledgeTarget_ok_iff {name : String} {version : UInt32} {target : Float} {w : Writer} :
    (∃ w', acknowledgeTarget name version target w = .ok () w') ↔
      Acknowledgeable name version target w := by
  have scripted := scripted_composed (composed_acknowledgeTarget name version target)
  constructor
  · rintro ⟨w', hok⟩
    have hname := named_of_acknowledgeTarget hok
    have hfinite := finite_of_acknowledgeTarget hok
    have hwrites := acknowledgeTarget_writes hname version hfinite w.place w.depth
    exact ⟨hname, hfinite, (scripted.ok_iff hwrites rfl rfl).1 ⟨w', hok⟩⟩
  · rintro ⟨hname, hfinite, hfits⟩
    have hwrites := acknowledgeTarget_writes hname version hfinite w.place w.depth
    exact (scripted.ok_iff hwrites rfl rfl).2 hfits

def target? (name value : Token) : Option Float :=
  if name.isText targetName then value.float.toOption else none

theorem setTemperature_ne (t : Thermostat) (v : Float) : t.setTemperature v ≠ t := by
  intro h
  have hcount : t.count + 1 = t.count := congrArg Thermostat.count h
  have hnat := congrArg UInt32.toNat hcount
  have hlt := t.count.toNat_lt
  rw [UInt32.toNat_add] at hnat
  have hone : (1 : UInt32).toNat = 1 := rfl
  omega

variable {t : Thermostat} {name value : Token} {version : UInt32} {w : Writer}

theorem update_of_none (h : target? name value = none) :
    (t.update name value version w).2 = (t, w) := by
  unfold target? at h
  unfold update
  by_cases hname : name.isText targetName = true
  · rw [if_pos hname] at h
    rw [hname]
    cases hvalue : value.float with
    | error e => rfl
    | ok target =>
      rw [hvalue] at h
      cases h
  · rw [Bool.not_eq_true] at hname
    rw [hname]
    rfl

theorem update_of_some {target : Float} (h : target? name value = some target) :
    t.update name value version w =
      match acknowledgeTarget t.name version target w with
      | .ok _ w' => (.ok true, t.setTemperature target, w')
      | .error e w' => (.error e, t.setTemperature target, w') := by
  unfold target? at h
  split at h
  · next hname =>
    cases hvalue : value.float with
    | error e =>
      rw [hvalue] at h
      cases h
    | ok x =>
      rw [hvalue] at h
      cases h
      rw [update, hname, hvalue]
      rfl
  · cases h

structure Acknowledges (t : Thermostat) (version : UInt32) (target : Float) (w : Writer)
    (done : Except Error Bool × Thermostat × Writer) : Prop where
  taken : done.2.1 = t.setTemperature target
  succeeds_iff : done.1 = .ok true ↔ Acknowledgeable t.name version target w
  written : done.1 = .ok true → done.2.2.bytes = w.bytes ++ (comma w.place ++
    targetText t.name version target)
  fails : ¬ Acknowledgeable t.name version target w →
    done.1 = .error .invalidArgument ∨ done.1 = .error .bufferTooSmall

theorem update_acknowledges {target : Float} (h : target? name value = some target) :
    Acknowledges t version target w (t.update name value version w) := by
  have hiff : (∃ w', acknowledgeTarget t.name version target w = .ok () w') ↔
      Acknowledgeable t.name version target w := acknowledgeTarget_ok_iff
  have hcomposed := composed_acknowledgeTarget t.name version target
  rw [update_of_some h]
  cases hresult : acknowledgeTarget t.name version target w with
  | ok u w' =>
    have able := hiff.1 ⟨w', hresult⟩
    have hwrites := acknowledgeTarget_writes able.named version able.finite w.place w.depth
    have hbytes := (scripted_composed hcomposed).bytes_of_ok hwrites rfl rfl hresult
    exact ⟨rfl, ⟨fun _ => able, fun _ => rfl⟩, fun _ => hbytes, fun h => absurd able h⟩
  | error e w' =>
    have unable : ¬ Acknowledgeable t.name version target w := by
      intro able
      obtain ⟨w'', hok⟩ := hiff.2 able
      rw [hresult] at hok
      cases hok
    refine ⟨rfl, ⟨nofun, fun able => absurd able unable⟩, nofun, fun _ => ?_⟩
    obtain rfl | rfl := hcomposed.error_cases hresult
    · exact .inl rfl
    · exact .inr rfl

/-- An update that fails leaves the thermostat as it was exactly if it was given no target. A target
is taken over in any case; the update succeeds exactly if the acknowledgement can be written. -/
theorem failed_update_kept_iff (t : Thermostat) (name value : Token) (version : UInt32)
    (w : Writer) :
    (∀ e, (t.update name value version w).1 = .error e →
      ((t.update name value version w).2.1 = t ↔ target? name value = none)) ∧
    (target? name value = none → (t.update name value version w).2 = (t, w)) ∧
    ∀ target, target? name value = some target →
      Acknowledges t version target w (t.update name value version w) := by
  refine ⟨fun e _ => ⟨fun hkept => ?_, fun hnone => ?_⟩, update_of_none, fun _ =>
    update_acknowledges⟩
  · cases htarget : target? name value with
    | none => rfl
    | some target =>
      have htaken : (t.update name value version w).2.1 = t.setTemperature target :=
        (update_acknowledges htarget).taken
      exact absurd (htaken.symm.trans hkept) (t.setTemperature_ne target)
  · rw [update_of_none hnone]

theorem mild_target_acknowledged :
    let value : Token := .number ⟨false, utf8 "23", some (utf8 "5"), none⟩
    let done := (Thermostat.start "thermostat1" 22).update (.name (utf8 targetName)) value 7
      (.ofCapacity 256)
    target? (.name (utf8 targetName)) value = some 23.5 ∧
      Acknowledges (.start "thermostat1" 22) 7 23.5 (.ofCapacity 256) done := by
  have htarget : target? (.name (utf8 targetName))
      (.number ⟨false, utf8 "23", some (utf8 "5"), none⟩) = some 23.5 := by decide +kernel
  exact ⟨htarget, (failed_update_kept_iff _ _ _ 7 (.ofCapacity 256)).2.2 23.5 htarget⟩

/-- The number is legal but has no finite value, so it cannot be acknowledged. -/
def endless : Token := .number ⟨false, utf8 "1", none, some ⟨false, none, utf8 "999"⟩⟩

theorem endless_target_kept :
    let t := Thermostat.start "thermostat1" 22
    let done := t.update (.name (utf8 targetName)) endless 7 (.ofCapacity 256)
    done.1 = .error .invalidArgument ∧ done.2.1.current.isFinite = false ∧ done.2.1 ≠ t := by
  have hcount : ((Thermostat.start "thermostat1" 22).update (.name (utf8 targetName)) endless 7
      (.ofCapacity 256)).2.1.count = 2 := by decide +kernel
  refine ⟨by decide +kernel, by decide +kernel, fun h => ?_⟩
  rw [h] at hcount
  exact absurd hcount (by decide)

end HubDevice.Thermostat
