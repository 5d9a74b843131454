import HubDevice.Proofs.Device.Targets

set_option autoImplicit false

namespace HubDevice.Controller
open Thermostat (targetText)

def Reboots (topic : String) : Prop :=
  ∃ request, Topic.commandRequest? topic = some request ∧ request.component = none ∧
    request.command = "reboot"

theorem reboots_of_asks {topic : String} {request : Topic.CommandRequest}
    (hrequest : Topic.commandRequest? topic = some request) (h : asksReboot request = true) :
    Reboots topic := by
  simp only [asksReboot, Bool.and_eq_true, Option.isNone_iff_eq_none, beq_iff_eq] at h
  exact ⟨request, hrequest, h.1, h.2⟩

/-- What the handling of a message with this topic is made of keeps `I`, also where it fails. -/
structure Handles (topic : String) (I : Controller → Prop) : Prop where
  equipped : ∀ c, I c → Equipped c
  replaces : ∀ t c, I c → I (c.replace t)
  reports : ∀ patch, patch.length ≤ Mqtt.payloadCapacity →
    Maintains I (fun _ => I) (report patch)
  responds : ∀ requestId status payload, Maintains I (fun _ => I)
    (publish (Topic.response requestId status topicRoom) payload)
  reboots : Reboots topic → ∀ c, I c → I { c with rebooting := true }

theorem update_fits {t t' : Thermostat} {name value : Token} {version : UInt32} {w : Writer}
    (known : t.name ∈ thermostatNames)
    (h : t.update name value version payloadRoom = (.ok true, t', w)) :
    w.bytes.length ≤ Mqtt.payloadCapacity := by
  unfold Thermostat.update at h
  split at h
  · cases h
  split at h
  · cases h
  next target hvalue =>
  split at h
  · next hwrite =>
    cases h
    have finite := Thermostat.finite_of_acknowledgeTarget hwrite
    obtain ⟨w', hok, hbytes⟩ := Thermostat.acknowledgeTarget_runs known version finite
    rw [hwrite] at hok
    cases hok
    rw [hbytes]
    exact Nat.le_trans (Thermostat.length_targetText known version target) (by decide)
  · cases h

namespace Handles

variable {topic : String} {I : Controller → Prop} (handles : Handles topic I)
include handles

theorem accept (version : UInt32) (p : Twin.Property) :
    Maintains I (fun _ => I) (Controller.accept version p) :=
  maintains_accept (fun _ _ h => h) (fun c _ _ _ h _ _ => handles.replaces _ c h) version
    fun c _ _ _ h ht hupdate =>
      handles.reports _ (update_fits ((handles.equipped c h).known ht) hupdate)

theorem sendHighestOf {t : Thermostat} (known : t.name ∈ thermostatNames) :
    Maintains I (fun _ => I) (Controller.sendHighestOf t) := by
  refine maintains_of_eq fun c h => ?_
  have hfits := Nat.le_trans (Thermostat.length_highestText known t.highest)
    (show 512 ≤ Mqtt.payloadCapacity by decide)
  rcases sendHighestOf_cases known c with hnone | ⟨e, herror⟩ | hreport
  · exact ⟨pure (), c, h, maintains_pure (), hnone⟩
  · exact ⟨throw (.device e), c, h, maintains_throw fun _ h => h, herror⟩
  · exact ⟨_, c.replace t.reported, handles.replaces _ c h, handles.reports _ hfits, hreport⟩

theorem handleCommand (now : String) {request : Topic.CommandRequest} (payload : Bytes)
    (hrequest : Topic.commandRequest? topic = some request) :
    Maintains I (fun _ => I) (Controller.handleCommand now request payload) := by
  refine maintains_of_eq fun c h => ?_
  rw [handleCommand_eq]
  cases c.answer now request payload payloadRoom with
  | error e w => exact ⟨throw (.device e), c, h, maintains_throw fun _ h => h, rfl⟩
  | ok status w =>
    have hasked : I { c with rebooting := c.rebooting || asksReboot request } := by
      cases hasks : asksReboot request with
      | true =>
        rw [Bool.or_true]
        exact handles.reboots (reboots_of_asks hrequest hasks) c h
      | false =>
        rw [Bool.or_false]
        exact h
    exact ⟨_, _, hasked, handles.responds request.requestId status w.bytes, rfl⟩

theorem handle (now : String) (payload : Bytes) :
    Maintains I (fun _ => I) (Controller.handle now topic payload) := by
  have highest : Maintains I (fun _ => I) sendHighest :=
    maintains_sendHighest fun c h _ ht => handles.sendHighestOf ((handles.equipped c h).known ht)
  unfold Controller.handle
  cases hrequest : Topic.commandRequest? topic with
  | some request => exact handles.handleCommand now payload hrequest
  | none =>
    cases Topic.twinResponse? topic with
    | none => exact maintains_pure ()
    | some response =>
      exact maintains_handleTwin (fun _ _ h => h) highest fun _ _ _ _ p _ version =>
        handles.accept version p

end Handles

end HubDevice.Controller
