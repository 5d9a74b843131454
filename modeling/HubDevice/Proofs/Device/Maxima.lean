import HubDevice.Proofs.Device.Targets
import Mathlib.Data.List.Induction

set_option autoImplicit false

/-!
# Maxima that count as reported

The flag of a thermostat goes down before the report of its maximum is out. So the report has been
sent as a whole packet, or the link failed in the call that took the flag down, and then it is not
made again.
-/
namespace HubDevice.Controller
open Mqtt (outcome Packet)
open Thermostat (highestText)

variable {c c' : Controller} {name : String} {highest : Float}

/-- There is no need to report this maximum of the thermostat. -/
def Settled (c : Controller) (name : String) (highest : Float) : Prop :=
  ∃ t ∈ c.thermostats, t.name = name ∧ t.highest = highest ∧ t.reportDue = false

/-- The report of this maximum is among the bytes that were sent. -/
def Reported (sent : Bytes) (name : String) (highest : Float) : Prop :=
  ∃ (requestId : UInt32) (p : Packet) (before behind : Bytes),
    p.Carries (patchMessage requestId (highestText name highest)) ∧
      sent = before ++ p.bytes ++ behind

theorem Reported.grows {sent sent' : Bytes} (h : Reported sent name highest)
    (grows : sent <+: sent') : Reported sent' name highest := by
  obtain ⟨requestId, p, before, behind, carries, rfl⟩ := h
  obtain ⟨more, rfl⟩ := grows
  exact ⟨requestId, p, before, behind ++ more, carries, by rw [List.append_assoc]⟩

/-- What holds on the way from the first state on: names stay, nothing sent is lost, and what
counts as reported did so before or was reported. -/
structure Since (c c' : Controller) : Prop where
  equipped : Equipped c'
  grows : c.client.transport.sent <+: c'.client.transport.sent
  settled : ∀ name highest, Settled c' name highest →
    Settled c name highest ∨ Reported c'.client.transport.sent name highest

structure FailedSince (c : Controller) (e : Failure) (c' : Controller) : Prop where
  equipped : Equipped c'
  grows : c.client.transport.sent <+: c'.client.transport.sent
  settled : e = .link .writeError ∨ Since c c'

theorem Since.refl (h : Equipped c) : Since c c := ⟨h, List.prefix_refl _, fun _ _ => .inl⟩

theorem Since.fails (h : Since c c') (e : Failure) : FailedSince c e c' :=
  ⟨h.equipped, h.grows, .inr h⟩

theorem Since.of_same {c'' : Controller} (h : Since c c')
    (same : c''.thermostats = c'.thermostats)
    (grows : c'.client.transport.sent <+: c''.client.transport.sent) : Since c c'' := by
  refine ⟨?_, h.grows.trans grows, fun name highest settled => ?_⟩
  · rw [Equipped, same]
    exact h.equipped
  · rw [Settled, same] at settled
    exact (h.settled name highest settled).imp_right (·.grows grows)

theorem stable_since (c : Controller) : Stable (Since c) (FailedSince c) where
  fails e _ h := h.fails (.device e)
  publishes topic payload := maintains_onLink
    (fun _ h => h.of_same rfl (Mqtt.Client.publish_grows topic payload _))
    fun _ _ h => h.fails _
  counts _ _ h := h.of_same rfl (List.prefix_refl _)
  reboots _ h := h.of_same rfl (List.prefix_refl _)

/-- A temperature that leaves the flag down is no new maximum. -/
theorem highest_of_setTemperature {t : Thermostat} {v : Float}
    (h : (t.setTemperature v).reportDue = false) :
    t.reportDue = false ∧ (t.setTemperature v).highest = t.highest := by
  obtain ⟨hdue, hv⟩ := Bool.or_eq_false_iff.1 h
  exact ⟨hdue, if_neg (of_decide_eq_false hv)⟩

theorem takes_since (c : Controller) (p : Twin.Property) : Takes (Since c) p := by
  intro c' name t version h _ thermostat
  refine ⟨h.equipped.replace _, h.grows, fun name highest settled => ?_⟩
  obtain ⟨t', ht', hname, hhighest, hdue⟩ := settled
  have hmem : t ∈ c'.thermostats := List.mem_of_find?_eq_some thermostat
  refine h.settled name highest ?_
  rcases mem_replace ht' with hold | rfl
  · exact ⟨t', hold, hname, hhighest, hdue⟩
  rcases update_thermostat t p.name p.value version payloadRoom with hsame | ⟨-, v, -, hset⟩
  · rw [hsame] at hname hhighest hdue
    exact ⟨t, hmem, hname, hhighest, hdue⟩
  · rw [hset] at hname hhighest hdue
    obtain ⟨hflag, hkept⟩ := highest_of_setTemperature hdue
    exact ⟨t, hmem, hname, hkept.symm.trans hhighest, hflag⟩

/-- A report that is made settles the maximum that it carries; one that fails with the link settles
it as well. -/
theorem report_settles (h : Since c c') {t : Thermostat} (hname : t.name ∈ thermostatNames) :
    (∀ u c2, report (highestText t.name t.highest) (c'.replace t.reported) = .ok u c2 →
      Since c c2) ∧
    ∀ e c2, report (highestText t.name t.highest) (c'.replace t.reported) = .error e c2 →
      FailedSince c e c2 := by
  have hequipped := h.equipped.replace t.reported
  have hkeeps := (stable_since (c'.replace t.reported)).report (highestText t.name t.highest)
  have hfits := Nat.le_trans (Thermostat.length_highestText hname t.highest)
    (show 512 ≤ Mqtt.payloadCapacity by decide)
  obtain ⟨p, carries, hreport⟩ := report_fitting (c := c'.replace t.reported) hfits
  constructor
  · intro u c2 hresult
    have hsince := hkeeps.ok (.refl hequipped) hresult
    rw [hresult] at hreport
    obtain ⟨hframe, hsent⟩ := hreport
    have hthermostats : c2.thermostats = (c'.replace t.reported).thermostats := by rw [hframe]
    refine ⟨hsince.equipped, h.grows.trans hsince.grows, fun name highest settled => ?_⟩
    obtain ⟨t', ht', hname, hhighest, hdue⟩ := settled
    rw [hthermostats] at ht'
    rcases mem_replace ht' with hold | rfl
    · exact (h.settled name highest ⟨t', hold, hname, hhighest, hdue⟩).imp_right
        (·.grows hsince.grows)
    · subst hname hhighest
      refine .inr ⟨_, p, c'.client.transport.sent, [], carries, ?_⟩
      rw [List.append_nil]
      exact hsent
  · intro e c2 hresult
    have hfailed := hkeeps.error (.refl hequipped) hresult
    rw [hresult] at hreport
    obtain ⟨-, rfl⟩ := hreport
    exact ⟨hfailed.equipped, h.grows.trans hfailed.grows, .inl rfl⟩

theorem maintains_sendHighestOf (c : Controller) {t : Thermostat}
    (hname : t.name ∈ thermostatNames) :
    Maintains (Since c) (FailedSince c) (sendHighestOf t) := by
  constructor
  · intro c' u c2 h hresult
    rcases sendHighestOf_cases hname c' with hnone | ⟨e, hfailed⟩ | hreport
    · rw [hnone] at hresult
      cases hresult
      exact h
    · rw [hfailed] at hresult
      cases hresult
    · exact (report_settles h hname).1 u c2 (hreport.symm.trans hresult)
  · intro c' e c2 h hresult
    rcases sendHighestOf_cases hname c' with hnone | ⟨e, hfailed⟩ | hreport
    · rw [hnone] at hresult
      cases hresult
    · rw [hfailed] at hresult
      cases hresult
      exact h.fails _
    · exact (report_settles h hname).2 e c2 (hreport.symm.trans hresult)

theorem maintains_since (c : Controller) (call : Call) :
    Maintains (Since c) (FailedSince c) call.action :=
  maintains_call (stable_since c)
    (fun _ h _ ht => maintains_sendHighestOf c (h.equipped.known ht)) fun p _ => takes_since c p

/-- What is settled after a call was settled before or has been reported, or the link failed. -/
theorem call_settles (h : Equipped c) (call : Call) :
    let result := outcome (call.action c)
    Equipped result.2 ∧ c.client.transport.sent <+: result.2.client.transport.sent ∧
      ∀ name highest, Settled result.2 name highest →
        Settled c name highest ∨ Reported result.2.client.transport.sent name highest ∨
          result.1 = .error (.link .writeError) := by
  have hcall := maintains_since c call
  cases hresult : call.action c with
  | ok u c' =>
    have hsince := hcall.ok (.refl h) hresult
    exact ⟨hsince.equipped, hsince.grows, fun name highest settled =>
      (hsince.settled name highest settled).imp_right .inl⟩
  | error e c' =>
    have hfailed := hcall.error (.refl h) hresult
    refine ⟨hfailed.equipped, hfailed.grows, fun name highest settled => ?_⟩
    rcases hfailed.settled with rfl | hsince
    · exact .inr (.inr rfl)
    · exact (hsince.settled name highest settled).imp_right .inl

theorem equipped_after {c : Controller} (h : Equipped c) (calls : List Call) :
    Equipped (after calls c) := by
  induction calls using List.reverseRecOn with
  | nil => exact h
  | append_singleton calls call ih =>
    rw [after_concat]
    exact (call_settles ih call).1

theorem start_unsettled (identity : Identity) (client : Mqtt.Client) (name : String)
    (highest : Float) : ¬ Settled (start identity client) name highest := by
  rintro ⟨t, ht, -, -, hdue⟩
  obtain ⟨name, -, rfl⟩ := List.mem_map.1 ht
  cases hdue

/-- A maximum that counts as reported has been sent as a whole report, or the link failed in the
call that settled it. -/
theorem settled_of_calls (identity : Identity) (client : Mqtt.Client) (calls : List Call)
    (settled : Settled (after calls (start identity client)) name highest) :
    Reported (after calls (start identity client)).client.transport.sent name highest ∨
      ∃ before call behind, calls = before ++ call :: behind ∧
        let c := after before (start identity client)
        let result := outcome (call.action c)
        ¬ Settled c name highest ∧ Settled result.2 name highest ∧
          result.1 = .error (.link .writeError) := by
  induction calls using List.reverseRecOn with
  | nil => exact absurd settled (start_unsettled identity client name highest)
  | append_singleton calls call ih =>
    rw [after_concat] at settled ⊢
    have hequipped := equipped_after (c := start identity client) rfl calls
    obtain ⟨-, grows, hsettles⟩ := call_settles hequipped call
    by_cases hbefore : Settled (after calls (start identity client)) name highest
    · rcases ih hbefore with hreported | ⟨before, earlier, behind, rfl, hlost⟩
      · exact .inl (hreported.grows grows)
      · exact .inr ⟨before, earlier, behind ++ [call], by simp, hlost⟩
    · rcases hsettles name highest settled with hkept | hreported | hfailed
      · exact absurd hkept hbefore
      · exact .inl hreported
      · exact .inr ⟨calls, call, [], rfl, hbefore, settled, hfailed⟩

/-- A client whose first write is refused, and no other. -/
def faltering : Mqtt.Client := .ofTransport { outlet := { refuses := fun n => n == 0 } }

def retried : Controller :=
  after [.highest, .highest] (start ⟨"hub", "d", none, none, none⟩ faltering)

theorem retried_settled : Settled retried "thermostat1" 22 := by
  unfold Settled
  decide +kernel

theorem refused_report_lost :
    Settled retried "thermostat1" 22 ∧
      ¬ Reported retried.client.transport.sent "thermostat1" 22 := by
  refine ⟨retried_settled, ?_⟩
  rintro ⟨requestId, p, before, behind, carries, hsent⟩
  have habsent : ¬ utf8 "thermostat1" <:+: retried.client.transport.sent := by decide +kernel
  have hname : utf8 "thermostat1" <:+: highestText "thermostat1" 22 := by decide +kernel
  have hpacket : p.bytes <:+: before ++ p.bytes ++ behind := ⟨before, behind, rfl⟩
  rw [hsent] at habsent
  exact habsent (hname.trans (carries.payload_infix.trans hpacket))

theorem lost_at_refusal :
    Settled retried "thermostat1" 22 ∧
      (Reported retried.client.transport.sent "thermostat1" 22 ∨
        ∃ before call behind, [Call.highest, .highest] = before ++ call :: behind ∧
          let c := after before (start ⟨"hub", "d", none, none, none⟩ faltering)
          let result := outcome (call.action c)
          ¬ Settled c "thermostat1" 22 ∧ Settled result.2 "thermostat1" 22 ∧
            result.1 = .error (.link .writeError)) := by
  have hsettled := retried_settled
  unfold retried at hsettled ⊢
  exact ⟨hsettled, settled_of_calls _ faltering [.highest, .highest] hsettled⟩

end HubDevice.Controller
