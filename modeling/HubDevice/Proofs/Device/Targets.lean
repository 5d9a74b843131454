import HubDevice.Proofs.Device.Commands
import HubDevice.Proofs.Device.Invariants
import HubDevice.Proofs.Device.Payloads
import HubDevice.Proofs.Device.Posting
import HubDevice.Proofs.Topic.Answers
import HubDevice.Proofs.Topic.Commands
import HubDevice.Proofs.Twin.Listing
import Mathlib.Data.List.Nodup

set_option autoImplicit false

namespace HubDevice

namespace Thermostat

/-- The thermostat behind the targets that are for it. -/
def following (t : Thermostat) (targets : List (String × Float)) : Thermostat :=
  ((targets.filter (·.1 = t.name)).map Prod.snd).foldl setTemperature t

def reported (t : Thermostat) : Thermostat := { t with reportDue := false }

end Thermostat

namespace Controller
open Thermostat (targetText highestText targetName)
open Mqtt (outcome)

/-- The properties that are targets of a thermostat, each a finite number, are these, in order. -/
inductive Targets : List Twin.Property → List (String × Float) → Prop where
  | nil : Targets [] []
  | target {p : Twin.Property} {name : String} {target : Float} {ps : List Twin.Property}
    {targets : List (String × Float)} (component : p.component = some name)
    (known : name ∈ thermostatNames) (named : p.name.isText targetName = true)
    (value : p.value.float = .ok target) (finite : target.isFinite = true)
    (more : Targets ps targets) : Targets (p :: ps) ((name, target) :: targets)
  | other {p : Twin.Property} {ps : List Twin.Property} {targets : List (String × Float)}
    (other : ∀ name ∈ thermostatNames, p.component = some name → p.name.isText targetName = false)
    (more : Targets ps targets) : Targets (p :: ps) targets

theorem Targets.known {ps : List Twin.Property} {targets : List (String × Float)}
    (h : Targets ps targets) :
    ∀ target ∈ targets, target.1 ∈ thermostatNames ∧ target.2.isFinite = true := by
  induction h with
  | nil => nofun
  | target _ known _ _ finite _ ih => exact List.forall_mem_cons.2 ⟨⟨known, finite⟩, ih⟩
  | other _ _ ih => exact ih

variable {c : Controller}

def Equipped (c : Controller) : Prop := c.thermostats.map Thermostat.name = thermostatNames

theorem Equipped.of_map (h : Equipped c) {c' : Controller} {f : Thermostat → Thermostat}
    (hname : ∀ t, (f t).name = t.name) (hmap : c'.thermostats = c.thermostats.map f) :
    Equipped c' := by
  rw [Equipped, hmap, List.map_map, ← h]
  exact List.map_congr_left fun t _ => hname t

theorem Equipped.known (h : Equipped c) {t : Thermostat} (ht : t ∈ c.thermostats) :
    t.name ∈ thermostatNames := by
  rw [← h]
  exact List.mem_map_of_mem ht

theorem Equipped.replace (h : Equipped c) (t : Thermostat) : Equipped (c.replace t) := by
  have hnames (old : Thermostat) : (if old.name = t.name then t else old).name = old.name := by
    split
    · next hsame => exact hsame.symm
    · rfl
  exact h.of_map (f := fun old => if old.name = t.name then t else old) hnames rfl

theorem thermostat?_name {name : String} {t : Thermostat} (h : c.thermostat? name = some t) :
    t.name = name := by
  have := List.find?_some h
  simpa using this

theorem sendHighestOf_eq (t : Thermostat) (c : Controller) :
    sendHighestOf t c =
      if t.reportDue then
        match t.writeHighest payloadRoom with
        | (.ok _, t', w) => report w.bytes (c.replace t')
        | (.error e, _, _) => .error (.device e) c
      else .ok () c := by
  unfold sendHighestOf
  split
  · rcases t.writeHighest payloadRoom with ⟨_ | _, t', w⟩ <;> rfl
  · rfl

theorem writeHighest_cases {t : Thermostat} (hname : t.name ∈ thermostatNames) :
    (∃ e w, t.writeHighest payloadRoom = (.error e, t, w)) ∨
      ∃ w, t.writeHighest payloadRoom = (.ok (), t.reported, w) ∧
        w.bytes = highestText t.name t.highest := by
  unfold Thermostat.writeHighest
  cases hwrite : t.highestReport payloadRoom with
  | error e w => exact .inl ⟨e, w, rfl⟩
  | ok u w =>
    obtain ⟨w', hok, hbytes⟩ :=
      Thermostat.highestReport_runs hname (Thermostat.finite_of_highestReport hwrite)
    rw [hwrite] at hok
    cases hok
    exact .inr ⟨w, rfl, hbytes⟩

theorem sendHighestOf_cases {t : Thermostat} (hname : t.name ∈ thermostatNames)
    (c : Controller) :
    sendHighestOf t c = .ok () c ∨ (∃ e, sendHighestOf t c = .error (.device e) c) ∨
      sendHighestOf t c = report (highestText t.name t.highest) (c.replace t.reported) := by
  rw [sendHighestOf_eq]
  by_cases due : t.reportDue = true
  · rw [if_pos due]
    rcases writeHighest_cases hname with ⟨e, w, hwrite⟩ | ⟨w, hwrite, hbytes⟩
    · rw [hwrite]
      exact .inr (.inl ⟨e, rfl⟩)
    · rw [hwrite, ← hbytes]
      exact .inr (.inr rfl)
  · rw [if_neg due]
    exact .inl rfl

def targetSection : Tree :=
  .object [("thermostat1", .object [("__t", .string "c"), ("targetTemperature", .int32 30)]),
    ("$version", .uint32 7)]

end Controller
end HubDevice
