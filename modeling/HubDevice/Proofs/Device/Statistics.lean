import HubDevice.Device.Thermostat
import HubDevice.Proofs.Number.Order
import Mathlib.Algebra.Group.Nat.Defs

set_option autoImplicit false

namespace HubDevice.Thermostat

inductive Event where
  | set (v : Float)
  /-- The maximum is to be written into this writer. -/
  | report (w : Writer)

def Event.value? : Event → Option Float
  | set v => some v
  | report _ => none

def handle (t : Thermostat) : Event → Thermostat
  | .set v => t.setTemperature v
  | .report w => (t.writeHighest w).2.1

def after (t : Thermostat) (events : List Event) : Thermostat := events.foldl handle t

def settings (events : List Event) : List Float := events.filterMap Event.value?

def writes? (t : Thermostat) : Event → Option Float
  | .set _ => none
  | .report w =>
    match (t.writeHighest w).1 with
    | .ok _ => some t.highest
    | .error _ => none

/-- The maximum as it was written last. -/
def written? (t : Thermostat) : List Event → Option Float
  | [] => none
  | e :: events => (written? (t.handle e) events).or (t.writes? e)

variable {t : Thermostat} {values : List Float}

theorem handle_set (t : Thermostat) (v : Float) : t.handle (.set v) = t.setTemperature v := rfl

/-- A report succeeds and takes the flag down, or it fails and changes nothing. -/
theorem handle_report (t : Thermostat) (w : Writer) :
    (t.writes? (.report w) = some t.highest ∧
      t.handle (.report w) = { t with reportDue := false }) ∨
    (t.writes? (.report w) = none ∧ t.handle (.report w) = t) := by
  unfold writes? handle writeHighest
  dsimp only
  cases t.highestReport w with
  | ok u w' => exact .inl ⟨rfl, rfl⟩
  | error e w' => exact .inr ⟨rfl, rfl⟩

theorem highest_setTemperature (t : Thermostat) (v : Float) :
    (t.highest < v ∧ (t.setTemperature v).highest = v ∧ (t.setTemperature v).reportDue = true) ∨
    (¬ t.highest < v ∧ (t.setTemperature v).highest = t.highest ∧
      (t.setTemperature v).reportDue = t.reportDue) := by
  by_cases h : t.highest < v
  · refine .inl ⟨h, if_pos h, ?_⟩
    change (t.reportDue || decide (t.highest < v)) = true
    rw [decide_eq_true h, Bool.or_true]
  · refine .inr ⟨h, if_neg h, ?_⟩
    change (t.reportDue || decide (t.highest < v)) = t.reportDue
    rw [decide_eq_false h, Bool.or_false]

theorem lowest_setTemperature (t : Thermostat) (v : Float) :
    (v < t.lowest ∧ (t.setTemperature v).lowest = v) ∨
    (¬ v < t.lowest ∧ (t.setTemperature v).lowest = t.lowest) := by
  by_cases h : v < t.lowest
  · exact .inl ⟨h, if_pos h⟩
  · exact .inr ⟨h, if_neg h⟩

/-- The thermostat has had these temperatures, in this order. -/
structure Knows (t : Thermostat) (values : List Float) : Prop where
  highest_mem : t.highest ∈ values
  lowest_mem : t.lowest ∈ values
  highest : ∀ v ∈ values, ¬ t.highest < v
  lowest : ∀ v ∈ values, ¬ v < t.lowest
  current : values.getLast? = some t.current
  count : t.count = UInt32.ofNat values.length

theorem knows_start (name : String) (initial : Float) : Knows (start name initial) [initial] where
  highest_mem := List.mem_singleton_self initial
  lowest_mem := List.mem_singleton_self initial
  highest v hv := by
    rw [List.mem_singleton.1 hv]
    exact Double.lt_irrefl initial
  lowest v hv := by
    rw [List.mem_singleton.1 hv]
    exact Double.lt_irrefl initial
  current := rfl
  count := rfl

theorem Knows.set (h : Knows t values) (v : Float) :
    Knows (t.setTemperature v) (values ++ [v]) := by
  have hlast : v ∈ values ++ [v] := List.mem_append_right values (List.mem_singleton_self v)
  constructor
  · rcases highest_setTemperature t v with ⟨-, hhighest, -⟩ | ⟨-, hhighest, -⟩ <;> rw [hhighest]
    · exact hlast
    · exact List.mem_append_left [v] h.highest_mem
  · rcases lowest_setTemperature t v with ⟨-, hlowest⟩ | ⟨-, hlowest⟩ <;> rw [hlowest]
    · exact hlast
    · exact List.mem_append_left [v] h.lowest_mem
  · intro u hu
    rcases highest_setTemperature t v with ⟨hv, hhighest, -⟩ | ⟨hv, hhighest, -⟩ <;> rw [hhighest]
    · rcases List.mem_append.1 hu with hold | hnew
      · exact fun hlt => h.highest u hold (Double.lt_trans hv hlt)
      · rw [List.mem_singleton.1 hnew]
        exact Double.lt_irrefl v
    · rcases List.mem_append.1 hu with hold | hnew
      · exact h.highest u hold
      · rwa [List.mem_singleton.1 hnew]
  · intro u hu
    rcases lowest_setTemperature t v with ⟨hv, hlowest⟩ | ⟨hv, hlowest⟩ <;> rw [hlowest]
    · rcases List.mem_append.1 hu with hold | hnew
      · exact fun hlt => h.lowest u hold (Double.lt_trans hlt hv)
      · rw [List.mem_singleton.1 hnew]
        exact Double.lt_irrefl v
    · rcases List.mem_append.1 hu with hold | hnew
      · exact h.lowest u hold
      · rwa [List.mem_singleton.1 hnew]
  · exact List.getLast?_concat
  · change t.count + 1 = _
    rw [h.count, List.length_append, List.length_singleton, UInt32.ofNat_add]
    rfl

theorem Knows.report (h : Knows t values) (w : Writer) : Knows (t.handle (.report w)) values := by
  rcases handle_report t w with ⟨-, hreport⟩ | ⟨-, hreport⟩ <;> rw [hreport]
  · exact ⟨h.highest_mem, h.lowest_mem, h.highest, h.lowest, h.current, h.count⟩
  · exact h

theorem Knows.after (h : Knows t values) (events : List Event) :
    Knows (t.after events) (values ++ settings events) := by
  induction events generalizing t values with
  | nil =>
    rw [settings, List.filterMap_nil, List.append_nil]
    exact h
  | cons e events ih =>
    cases e with
    | set v =>
      have hsettings : settings (.set v :: events) = [v] ++ settings events := rfl
      rw [hsettings, ← List.append_assoc]
      exact ih (h.set v)
    | report w => exact ih (h.report w)

theorem highest_after (t : Thermostat) (events : List Event) :
    t.highest = (t.after events).highest ∨ t.highest < (t.after events).highest := by
  induction events generalizing t with
  | nil => exact .inl rfl
  | cons e events ih =>
    have hrest := ih (t.handle e)
    change t.highest = ((t.handle e).after events).highest ∨ _
    cases e with
    | set v =>
      rw [handle_set] at hrest ⊢
      rcases highest_setTemperature t v with ⟨hv, hhighest, -⟩ | ⟨-, hhighest, -⟩
      · rw [hhighest] at hrest
        rcases hrest with hsame | hrisen
        · exact .inr (hsame ▸ hv)
        · exact .inr (Double.lt_trans hv hrisen)
      · rwa [hhighest] at hrest
    | report w =>
      have hhighest : (t.handle (.report w)).highest = t.highest := by
        rcases handle_report t w with ⟨-, hreport⟩ | ⟨-, hreport⟩ <;> rw [hreport]
      rwa [hhighest] at hrest

/-- The flag goes up where the maximum rises, and is down where it has not risen since it was
written. -/
theorem reportDue_after (t : Thermostat) (events : List Event) :
    (t.after events).reportDue = true ↔
      match t.written? events with
      | none => t.reportDue = true ∨ t.highest < (t.after events).highest
      | some highest => highest < (t.after events).highest := by
  induction events generalizing t with
  | nil =>
    change t.reportDue = true ↔ t.reportDue = true ∨ t.highest < t.highest
    rw [or_iff_left (Double.lt_irrefl t.highest)]
  | cons e events ih =>
    have hrest := ih (t.handle e)
    change ((t.handle e).after events).reportDue = true ↔ _
    rw [hrest, written?]
    change _ ↔ match ((t.handle e).written? events).or (t.writes? e) with
      | none => t.reportDue = true ∨ t.highest < ((t.handle e).after events).highest
      | some highest => highest < ((t.handle e).after events).highest
    cases hwritten : (t.handle e).written? events with
    | some highest => rw [Option.some_or]
    | none =>
      rw [Option.none_or]
      cases e with
      | set v =>
        have hrisen := highest_after (t.setTemperature v) events
        rw [handle_set]
        change _ ↔ t.reportDue = true ∨ _
        rcases highest_setTemperature t v with ⟨hv, hhighest, hdue⟩ | ⟨-, hhighest, hdue⟩
        · rw [hhighest] at hrisen
          rw [hdue]
          refine iff_of_true (.inl rfl) (.inr ?_)
          rcases hrisen with hsame | hrisen
          · exact hsame ▸ hv
          · exact Double.lt_trans hv hrisen
        · rw [hhighest, hdue]
      | report w =>
        rcases handle_report t w with ⟨hwrites, hreport⟩ | ⟨hwrites, hreport⟩
        · rw [hwrites, hreport]
          exact or_iff_right Bool.false_ne_true
        · rw [hwrites, hreport]

/-- Whatever was set and written, the extremes are among the temperatures that the thermostat has
had and none of these goes beyond them; where all are numbers, the first one too, they lie between
the extremes, as does the current one, which is the last. The count is that of the settings and the
first temperature. The maximum is due if it has never been written or has risen since. -/
theorem statistics_kept (name : String) (initial : Float) (events : List Event)
    (numbers : ∀ v ∈ settings events, v.isNaN = false)
    (few : (settings events).length < 2 ^ 32 - 1) :
    let t := (start name initial).after events
    let values := initial :: settings events
    (t.highest ∈ values ∧ t.lowest ∈ values ∧ ∀ v ∈ values, ¬ t.highest < v ∧ ¬ v < t.lowest) ∧
    (initial.isNaN = false →
      (∀ v ∈ values, t.lowest ≤ v ∧ v ≤ t.highest) ∧
        t.lowest ≤ t.current ∧ t.current ≤ t.highest) ∧
    values.getLast? = some t.current ∧
    t.count.toNat = (settings events).length + 1 ∧
    (t.reportDue = true ↔
      ∀ highest, (start name initial).written? events = some highest → highest < t.highest) := by
  intro t values
  have knows : Knows t values := (knows_start name initial).after events
  refine ⟨⟨knows.highest_mem, knows.lowest_mem,
    fun v hv => ⟨knows.highest v hv, knows.lowest v hv⟩⟩, fun hinitial => ?_, knows.current, ?_, ?_⟩
  · have hvalues : ∀ v ∈ values, v.isNaN = false := List.forall_mem_cons.2 ⟨hinitial, numbers⟩
    have between (v : Float) (hv : v ∈ values) : t.lowest ≤ v ∧ v ≤ t.highest :=
      ⟨Double.le_of_not_lt (hvalues _ knows.lowest_mem) (hvalues v hv) (knows.lowest v hv),
        Double.le_of_not_lt (hvalues v hv) (hvalues _ knows.highest_mem) (knows.highest v hv)⟩
    exact ⟨between, between t.current (List.mem_of_getLast? knows.current)⟩
  · have hlength : values.length < UInt32.size := by
      change (settings events).length + 1 < 2 ^ 32
      omega
    rw [knows.count, UInt32.toNat_ofNat_of_lt' hlength]
    rfl
  · rw [reportDue_after]
    cases (start name initial).written? events with
    | none => exact iff_of_true (.inl rfl) nofun
    | some highest => exact ⟨fun h _ hsame => Option.some.inj hsame ▸ h, fun h => h highest rfl⟩

def day : List Event := [.report (.ofCapacity 128), .set 18, .set 26, .report (.ofCapacity 8)]

theorem day_statistics :
    let t := (start "thermostat1" 22).after day
    (∀ v ∈ settings day, v.isNaN = false) ∧ (settings day).length < 2 ^ 32 - 1 ∧
      (start "thermostat1" 22).written? day = some 22 ∧ t.highest = 26 ∧ t.reportDue = true ∧
      t.lowest ≤ t.current ∧ t.current ≤ t.highest ∧ t.count.toNat = 3 := by
  have numbers : ∀ v ∈ settings day, v.isNaN = false := by decide +kernel
  have few : (settings day).length < 2 ^ 32 - 1 := by decide
  have hwritten : (start "thermostat1" 22).written? day = some 22 := by decide +kernel
  have hhighest : ((start "thermostat1" 22).after day).highest = 26 := by decide +kernel
  have hrisen : (22 : Float) < 26 := by decide +kernel
  obtain ⟨-, hbetween, -, hcount, hdue⟩ := statistics_kept "thermostat1" 22 day numbers few
  refine ⟨numbers, few, hwritten, hhighest, hdue.2 fun highest h => ?_,
    (hbetween (by decide +kernel)).2.1, (hbetween (by decide +kernel)).2.2, hcount⟩
  rw [hwritten] at h
  rw [← Option.some.inj h, hhighest]
  exact hrisen

end HubDevice.Thermostat
