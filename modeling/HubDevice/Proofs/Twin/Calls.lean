import HubDevice.Twin.Walk

set_option autoImplicit false

namespace HubDevice.Twin.Walk

def answers : Nat → Walk → List (Except Error (Option Property))
  | 0, _ => []
  | n + 1, w => w.next.1 :: answers n w.next.2

inductive Reached (json : Bytes) (payload : Payload) (components : List String) : Walk → Prop where
  | start {w : Walk} (h : Walk.start json payload components = .ok w) :
    Reached json payload components w
  | next {w : Walk} (h : Reached json payload components w) :
    Reached json payload components w.next.2
  | restart {w w' : Walk} {part : Part} (h : Reached json payload components w)
    (h' : w.restart part = .ok w') : Reached json payload components w'

/-- The calls that open a section, each with its result. -/
inductive Opens (json : Bytes) (payload : Payload) (components : List String) :
    Part → Except Error Walk → Prop where
  | start : Opens json payload components .desired (Walk.start json payload components)
  | restart {w : Walk} (h : Reached json payload components w) (part : Part)
    (allowed : payload = .patch → part = .desired) :
    Opens json payload components part (w.restart part)

theorem openAt_eq_ok {json : Bytes} {payload : Payload} {part : Part} {components : List String}
    {w : Walk} (h : openAt json payload part components = .ok w) :
    w.json = json ∧ w.payload = payload ∧ w.components = components := by
  unfold openAt at h
  obtain ⟨opened, _, h⟩ := bind_eq_ok h
  cases h
  exact ⟨rfl, rfl, rfl⟩

theorem next_frame (w : Walk) :
    w.next.2.json = w.json ∧ w.next.2.payload = w.payload ∧ w.next.2.components = w.components := by
  unfold next
  split
  · exact ⟨rfl, rfl, rfl⟩
  · exact ⟨rfl, rfl, rfl⟩
  · split <;> exact ⟨rfl, rfl, rfl⟩

variable {json : Bytes} {payload : Payload} {components : List String}

theorem restart_eq_ok {w w' : Walk} {part : Part} (h : w.restart part = .ok w') :
    openAt w.json w.payload part w.components = .ok w' := by
  unfold restart at h
  split at h
  · cases h
  · exact h

theorem Reached.frame {w : Walk} (h : Reached json payload components w) :
    w.json = json ∧ w.payload = payload ∧ w.components = components := by
  induction h with
  | start h => exact openAt_eq_ok h
  | @next w _ ih =>
    obtain ⟨hjson, hpayload, hcomponents⟩ := w.next_frame
    rw [hjson, hpayload, hcomponents]
    exact ih
  | restart _ h' ih =>
    obtain ⟨hjson, hpayload, hcomponents⟩ := ih
    have hopen := restart_eq_ok h'
    rw [hjson, hpayload, hcomponents] at hopen
    exact openAt_eq_ok hopen

/-- Opening a section starts from the beginning, whatever was read before. -/
theorem Opens.eq_openAt {part : Part} {result : Except Error Walk}
    (h : Opens json payload components part result) :
    result = openAt json payload part components := by
  cases h with
  | start => rfl
  | @restart w h part allowed =>
    obtain ⟨hjson, hpayload, hcomponents⟩ := h.frame
    have hguard : ¬ (payload = .patch ∧ part = .reported) := by
      rintro ⟨hpatch, hreported⟩
      rw [allowed hpatch] at hreported
      cases hreported
    unfold Walk.restart
    rw [hjson, hpayload, hcomponents, if_neg (by simpa using hguard)]

theorem next_of_error {w : Walk} {e : Error} (walking : w.progress = .walking)
    (h : advance w.payload w.components w.component w.reader = .error e) :
    w.next = (.error e, { w with progress := .failed e }) := by
  unfold next
  rw [walking, h]

theorem next_of_finished {w : Walk} {component : Option String} {r : Reader}
    (walking : w.progress = .walking)
    (h : advance w.payload w.components w.component w.reader = .ok (.finished, component, r)) :
    w.next = (.ok none, { w with component, reader := r, progress := .done }) := by
  unfold next
  rw [walking, h]

theorem next_of_property {w : Walk} {p : Property} {component : Option String} {r : Reader}
    (walking : w.progress = .walking)
    (h : advance w.payload w.components w.component w.reader = .ok (.property p, component, r)) :
    w.next = (.ok (some p), { w with component, reader := r }) := by
  unfold next
  rw [walking, h]

theorem next_of_done {w : Walk} (done : w.progress = .done) : w.next = (.ok none, w) := by
  unfold next
  rw [done]

theorem next_of_failed {w : Walk} {e : Error} (failed : w.progress = .failed e) :
    w.next = (.error e, w) := by
  unfold next
  rw [failed]

theorem progress_of_none {w : Walk} (h : w.next.1 = .ok none) : w.next.2.progress = .done := by
  unfold next at h ⊢
  split at h
  · next hdone => exact hdone
  · cases h
  · split at h
    · cases h
    · rfl
    · cases h

theorem progress_of_error {w : Walk} {e : Error} (h : w.next.1 = .error e) :
    w.next.2.progress = .failed e := by
  unfold next at h ⊢
  split at h
  · cases h
  · next hfailed =>
    cases h
    exact hfailed
  · split at h
    · cases h
      rfl
    · cases h
    · cases h

/-- The end and a failure are given again. -/
theorem next_again {w : Walk} (h : ∀ p, w.next.1 ≠ .ok (some p)) : w.next.2.next = w.next := by
  cases hprogress : w.progress with
  | done => rw [next_of_done hprogress, next_of_done hprogress]
  | failed e => rw [next_of_failed hprogress, next_of_failed hprogress]
  | walking =>
    cases hadvance : advance w.payload w.components w.component w.reader with
    | error e =>
      rw [next_of_error hprogress hadvance]
      exact next_of_failed rfl
    | ok found =>
      obtain ⟨found, component, r⟩ := found
      cases found with
      | property p =>
        rw [next_of_property hprogress hadvance] at h
        exact absurd rfl (h p)
      | finished =>
        rw [next_of_finished hprogress hadvance]
        exact next_of_done rfl

theorem answers_again {w : Walk} (h : ∀ p, w.next.1 ≠ .ok (some p)) (n : Nat) :
    w.answers n = List.replicate n w.next.1 := by
  induction n generalizing w with
  | zero => rfl
  | succ n ih =>
    have hagain := next_again h
    rw [answers, ih (by rw [hagain]; exact h), hagain]
    rfl

theorem answers_collect (w : Walk) (n : Nat) :
    w.answers (w.collect.1.length + n) =
      w.collect.1.map (fun p => .ok (some p)) ++ List.replicate n w.collect.2.next.1 := by
  fun_induction collect w with
  | case1 w p w' hnext more ih =>
    rw [List.length_cons, Nat.add_right_comm, answers, hnext, ih]
    rfl
  | case2 w answer w' hnot hnext =>
    have h : ∀ p, w.next.1 ≠ .ok (some p) := by
      rw [hnext]
      exact hnot
    have hagain := next_again h
    rw [hnext] at hagain
    rw [List.length_nil, Nat.zero_add, answers_again h, hagain, hnext]
    rfl

theorem collect_last (w : Walk) (p : Property) : w.collect.2.next.1 ≠ .ok (some p) := by
  fun_induction collect w with
  | case1 _ _ _ _ _ ih => exact ih
  | case2 w answer w' hnot hnext =>
    have h : ∀ p, w.next.1 ≠ .ok (some p) := by
      rw [hnext]
      exact hnot
    have hagain := next_again h
    rw [hnext] at hagain
    rw [hagain]
    exact hnot p

end HubDevice.Twin.Walk
