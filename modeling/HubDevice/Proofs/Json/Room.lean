import HubDevice.Proofs.Json.Calls
import HubDevice.Proofs.Json.NumberTexts
import HubDevice.Proofs.Json.Writing

set_option autoImplicit false

namespace HubDevice

namespace Buffer

theorem pushAll_append (b : Buffer) (chunks more : List Bytes) :
    b.pushAll (chunks ++ more) =
      match b.pushAll chunks with
      | (next, true) => next.pushAll more
      | (full, false) => (full, false) := by
  induction chunks generalizing b with
  | nil => rfl
  | cons chunk chunks ih =>
    rw [List.cons_append, pushAll, pushAll]
    cases b.push? chunk with
    | none => rfl
    | some next => exact ih next

/-- Of chunks that do not all fit a beginning is written. -/
theorem pushAll_of_overflow {chunks : List Bytes} {b : Buffer}
    (h : b.free.length < chunks.flatten.length) :
    ∃ full, b.pushAll chunks = (full, false) ∧ full.capacity = b.capacity ∧
      b.written <+: full.written ∧ full.written <+: b.written ++ chunks.flatten := by
  induction chunks generalizing b with
  | nil => exact absurd h (Nat.not_lt_zero _)
  | cons chunk chunks ih =>
    rw [List.flatten_cons, List.length_append] at h
    rw [pushAll]
    cases hpush : b.push? chunk with
    | none => exact ⟨b, rfl, rfl, List.prefix_refl _, List.prefix_append _ _⟩
    | some next =>
      have hcapacity := capacity_push? hpush
      unfold push? at hpush
      split at hpush
      · cases hpush
        obtain ⟨full, hfull, hsame, hold, hnew⟩ := ih (b := ⟨b.written ++ chunk,
          b.free.drop chunk.length⟩) (by rw [List.length_drop]; omega)
        refine ⟨full, hfull, hsame.trans hcapacity, ?_, ?_⟩
        · exact (List.prefix_append b.written chunk).trans hold
        · rw [List.flatten_cons, ← List.append_assoc]
          exact hnew
      · cases hpush

theorem written_of_fill {b full : Buffer} {chunks : List Bytes} (h : b.fill chunks = .ok full) :
    full.written = b.written ++ chunks.flatten := by
  unfold fill at h
  by_cases hfits : chunks.flatten.length ≤ b.free.length
  · rw [pushAll_of_fits hfits] at h
    cases h
    rfl
  · obtain ⟨part, hpart, -⟩ := pushAll_of_overflow (Nat.lt_of_not_le hfits)
    rw [hpart] at h
    cases h

end Buffer

namespace Writer

variable {place place' : Place} {depth depth' : Nat} {action : Action Unit}

theorem item_eq_append (chunks : List Bytes) (place' : Place) (b : Buffer) (place : Place)
    (depth : Nat) :
    item chunks place' ⟨b, place, depth⟩ =
      append (separatorAt place ++ chunks) place' depth ⟨b, place, depth⟩ :=
  rfl

/-- Over whatever buffer a primitive is refused as it stands, or it appends its chunks. -/
theorem Primitive.refuses_or_appends (p : Primitive) (place : Place) (depth : Nat) :
    (∀ b, p.action ⟨b, place, depth⟩ = .error .invalidArgument ⟨b, place, depth⟩) ∨
      ∃ place' depth', ∀ b,
        p.action ⟨b, place, depth⟩ = append (p.chunks place) place' depth' ⟨b, place, depth⟩ := by
  have hitem (chunks : List Bytes) (last : Place) : ∃ place' depth', ∀ b,
      item chunks last ⟨b, place, depth⟩ =
        append (separatorAt place ++ chunks) place' depth' ⟨b, place, depth⟩ :=
    ⟨_, _, fun b => item_eq_append chunks last b place depth⟩
  cases p with
  | opening c => exact .inr ⟨.opened, depth + 1, fun _ => rfl⟩
  | closing c =>
    by_cases h : (depth = 0 || place = .name) = true
    · exact .inl fun b => if_pos h
    · exact .inr ⟨.value, depth - 1, fun b => if_neg h⟩
  | float x places =>
    change (∀ b, Writer.float x places _ = _) ∨ ∃ place' depth', ∀ b,
      Writer.float x places _ = append (separatorAt place ++ floatChunks x places) place' depth' _
    cases hnumber : Binary.ofFloat? x with
    | none => exact .inl fun b => float_eq_error hnumber places _
    | some number =>
      rw [float_eq hnumber places, floatChunks, hnumber]
      exact .inr (hitem _ _)
  | raw json =>
    by_cases h : json.isEmpty = true
    · exact .inl fun b => if_pos h
    · obtain ⟨place', depth', hbuffer⟩ := hitem [json] .value
      exact .inr ⟨place', depth', fun b => (if_neg h).trans (hbuffer b)⟩
  | _ => exact .inr (hitem _ _)

/-- A primitive that fails leaves the place and the depth, and one that is refused everything. -/
theorem Primitive.failure_keeps {p : Primitive} {w w' : Writer} {e : Error}
    (h : p.action w = .error e w') :
    w'.place = w.place ∧ w'.depth = w.depth ∧ (e = .invalidArgument → w' = w) := by
  obtain hrefused | ⟨place', depth', happends⟩ := p.refuses_or_appends w.place w.depth
  · rw [hrefused w.buffer] at h
    cases h
    exact ⟨rfl, rfl, fun _ => rfl⟩
  · rw [happends w.buffer, append] at h
    split at h
    · cases h
    · cases h
      exact ⟨rfl, rfl, fun h => Error.noConfusion h⟩

/-- What an action appends where there is room, and how it ends. -/
structure Script where
  chunks : List Bytes
  result : Except Error Unit
  place : Place
  depth : Nat

/-- The action appends the chunks of the script up to the first that does not fit, and there it
fails. -/
def Plays (action : Action Unit) (s : Script) (w : Writer) : Prop :=
  match w.buffer.pushAll s.chunks with
  | (buffer, true) => ends action w = (s.result, { buffer, place := s.place, depth := s.depth })
  | (buffer, false) =>
    ∃ place depth, ends action w = (.error .bufferTooSmall, { buffer, place, depth })

def Scripted (action : Action Unit) : Prop :=
  ∀ place depth, ∃ s : Script, s.result ≠ .error .bufferTooSmall ∧
    ∀ b, Plays action s ⟨b, place, depth⟩

theorem plays_append {chunks : List Bytes} {b : Buffer}
    (h : action ⟨b, place, depth⟩ = append chunks place' depth' ⟨b, place, depth⟩) :
    Plays action ⟨chunks, .ok (), place', depth'⟩ ⟨b, place, depth⟩ := by
  unfold Plays ends
  rw [h, append]
  dsimp only
  rcases b.pushAll chunks with ⟨full, _ | _⟩
  · exact ⟨_, _, rfl⟩
  · rfl

theorem scripted_primitive (p : Primitive) : Scripted p.action := by
  intro place depth
  obtain hrefused | ⟨place', depth', happends⟩ := p.refuses_or_appends place depth
  · exact ⟨⟨[], .error .invalidArgument, place, depth⟩, by simp, fun b =>
      ends_eq_error (hrefused b)⟩
  · exact ⟨⟨p.chunks place, .ok (), place', depth'⟩, nofun, fun b => plays_append (happends b)⟩

theorem scripted_pure : Scripted (pure ()) := fun place depth =>
  ⟨⟨[], .ok (), place, depth⟩, nofun, fun _ => rfl⟩

theorem scripted_throw {e : Error} (h : e ≠ .bufferTooSmall) : Scripted (throw e) :=
  fun place depth => ⟨⟨[], .error e, place, depth⟩, by simpa using h, fun _ => rfl⟩

theorem Plays.bind_error {first : Action Unit} {second : Unit → Action Unit} {s : Script}
    {w : Writer} {e : Error} (h : Plays first s w) (hs : s.result = .error e) :
    Plays (first >>= second) s w := by
  unfold Plays at h ⊢
  rcases hpush : w.buffer.pushAll s.chunks with ⟨full, _ | _⟩
  · rw [hpush] at h
    obtain ⟨place', depth', hends⟩ := h
    exact ⟨place', depth', by rw [ends_bind, hends]⟩
  · rw [hpush] at h
    dsimp only at h ⊢
    rw [ends_bind, h, hs]

theorem Plays.bind_ok {first : Action Unit} {second : Unit → Action Unit} {s s' : Script}
    {w : Writer} (h : Plays first s w) (hs : s.result = .ok ())
    (h' : ∀ b, Plays (second ()) s' ⟨b, s.place, s.depth⟩) :
    Plays (first >>= second) ⟨s.chunks ++ s'.chunks, s'.result, s'.place, s'.depth⟩ w := by
  unfold Plays at h ⊢
  rw [Buffer.pushAll_append]
  rcases hpush : w.buffer.pushAll s.chunks with ⟨full, _ | _⟩
  · rw [hpush] at h
    obtain ⟨place', depth', hends⟩ := h
    exact ⟨place', depth', by rw [ends_bind, hends]⟩
  · rw [hpush] at h
    dsimp only at h ⊢
    rw [ends_bind, h, hs]
    exact h' full

theorem Scripted.bind {first : Action Unit} {second : Unit → Action Unit} (h : Scripted first)
    (h' : Scripted (second ())) : Scripted (first >>= second) := by
  intro place depth
  obtain ⟨s, hs, hfirst⟩ := h place depth
  cases hresult : s.result with
  | error e => exact ⟨s, hs, fun b => (hfirst b).bind_error hresult⟩
  | ok _ =>
    obtain ⟨s', hs', hsecond⟩ := h' s.place s.depth
    exact ⟨⟨s.chunks ++ s'.chunks, s'.result, s'.place, s'.depth⟩, hs', fun b =>
      (hfirst b).bind_ok hresult hsecond⟩

theorem scripted_composed {allowed : Primitive → Prop} (h : Composed allowed action) :
    Scripted action := by
  induction h with
  | primitive _ => exact scripted_primitive _
  | done => exact scripted_pure
  | refused => exact scripted_throw (by decide)
  | sequence _ _ ih ih' => exact ih.bind ih'

theorem scripted_call (call : Call) : Scripted call.action := scripted_composed (.call call)

theorem Plays.of_fits {s : Script} {text free : Bytes}
    (h : Plays action s ⟨⟨text, free⟩, place, depth⟩)
    (hfits : s.chunks.flatten.length ≤ free.length) :
    ends action ⟨⟨text, free⟩, place, depth⟩ = (s.result,
      ⟨⟨text ++ s.chunks.flatten, free.drop s.chunks.flatten.length⟩, s.place, s.depth⟩) := by
  unfold Plays at h
  rw [Buffer.pushAll_of_fits hfits] at h
  exact h

theorem Plays.of_overflow {s : Script} {w : Writer} (h : Plays action s w)
    (hover : w.buffer.free.length < s.chunks.flatten.length) :
    ∃ w', ends action w = (.error .bufferTooSmall, w') ∧
      w'.buffer.capacity = w.buffer.capacity ∧ w.bytes <+: w'.bytes ∧
      w'.bytes <+: w.bytes ++ s.chunks.flatten := by
  obtain ⟨full, hpush, hcapacity, hold, hnew⟩ := Buffer.pushAll_of_overflow hover
  unfold Plays at h
  rw [hpush] at h
  obtain ⟨place', depth', hends⟩ := h
  exact ⟨_, hends, hcapacity, hold, hnew⟩

/-- What an action appends where there is room is all that it ever appends when it succeeds. -/
theorem Scripted.bytes_of_ok {s : Bytes} (h : Scripted action)
    (hwrites : Writes action place depth s place' depth') {w w' : Writer} (hplace : w.place = place)
    (hdepth : w.depth = depth) (hok : action w = .ok () w') : w'.bytes = w.bytes ++ s := by
  obtain ⟨⟨text, free⟩, here, below⟩ := w
  dsimp only at hplace hdepth
  subst hplace hdepth
  obtain ⟨t, -, hplays⟩ := h here below
  have hchunks : t.chunks.flatten = s := by
    let large : Bytes := List.replicate (t.chunks.flatten.length + s.length) 0
    have hlarge : large.length = t.chunks.flatten.length + s.length := List.length_replicate
    have hends := (hplays ⟨[], large⟩).of_fits (by rw [hlarge]; exact Nat.le_add_right _ _)
    obtain ⟨v, hv, hbytes, -⟩ := hwrites ⟨⟨[], large⟩, here, below⟩ rfl rfl
      (by rw [room, hlarge]; exact Nat.le_add_left _ _)
    rw [ends, hv] at hends
    rw [(Prod.mk.inj hends).2] at hbytes
    exact hbytes
  rw [← hchunks]
  by_cases hfits : t.chunks.flatten.length ≤ free.length
  · have hends := (hplays ⟨text, free⟩).of_fits hfits
    rw [ends, hok] at hends
    rw [(Prod.mk.inj hends).2]
    rfl
  · obtain ⟨v, hends, -⟩ := (hplays ⟨text, free⟩).of_overflow (Nat.lt_of_not_le hfits)
    rw [ends, hok] at hends
    cases (Prod.mk.inj hends).1

theorem Scripted.keeps (h : Scripted action) (w : Writer) :
    (ends action w).2.buffer.capacity = w.buffer.capacity ∧
      w.bytes <+: (ends action w).2.bytes := by
  obtain ⟨⟨text, free⟩, place, depth⟩ := w
  obtain ⟨s, -, hplays⟩ := h place depth
  by_cases hfits : s.chunks.flatten.length ≤ free.length
  · rw [(hplays ⟨text, free⟩).of_fits hfits]
    refine ⟨?_, List.prefix_append _ _⟩
    simp only [Buffer.capacity, List.length_append, List.length_drop]
    omega
  · obtain ⟨w', hends, hcapacity, hold, -⟩ :=
      (hplays ⟨text, free⟩).of_overflow (Nat.lt_of_not_le hfits)
    rw [hends]
    exact ⟨hcapacity, hold⟩

/-- An action that writes `s` where there is room succeeds only there. -/
theorem Scripted.ok_iff {s : Bytes} (h : Scripted action)
    (hwrites : Writes action place depth s place' depth') {w : Writer} (hplace : w.place = place)
    (hdepth : w.depth = depth) : (∃ w', action w = .ok () w') ↔ s.length ≤ w.room := by
  constructor
  · rintro ⟨w', hok⟩
    have hbytes := congrArg List.length (h.bytes_of_ok hwrites hplace hdepth hok)
    have hcapacity := (h.keeps w).1
    rw [ends, hok] at hcapacity
    unfold Buffer.capacity at hcapacity
    unfold bytes at hbytes
    unfold room
    rw [List.length_append] at hbytes
    dsimp only at hcapacity
    omega
  · intro hroom
    obtain ⟨w', hok, -⟩ := hwrites w hplace hdepth hroom
    exact ⟨w', hok⟩

theorem ends_keeps (call : Call) (w : Writer) :
    (ends call.action w).2.buffer.capacity = w.buffer.capacity ∧
      w.bytes <+: (ends call.action w).2.bytes :=
  (scripted_call call).keeps w

/-- An action is refused for what it is asked to write, or it fails for want of room. -/
theorem Composed.error_cases {allowed : Primitive → Prop} (h : Composed allowed action)
    {w w' : Writer} {e : Error} (herror : action w = .error e w') :
    e = .invalidArgument ∨ e = .bufferTooSmall := by
  induction h generalizing w with
  | @primitive p _ =>
    obtain hrefused | ⟨place', depth', happends⟩ := p.refuses_or_appends w.place w.depth
    · rw [hrefused w.buffer] at herror
      cases herror
      exact .inl rfl
    · rw [happends w.buffer, append] at herror
      split at herror
      · cases herror
      · cases herror
        exact .inr rfl
  | done => cases herror
  | refused =>
    cases herror
    exact .inl rfl
  | sequence _ _ ih ih' =>
    obtain hfirst | ⟨_, v, -, hsecond⟩ := bind_eq_error_state herror
    · exact ih hfirst
    · exact ih' hsecond

def Grows (text : Bytes) (ms : List Seen) : Prop :=
  (text :: ms.map Seen.bytes).Pairwise (· <+: ·)

theorem Grows.cons {text : Bytes} {m : Seen} {ms : List Seen} (h : text <+: m.bytes)
    (h' : Grows m.bytes ms) : Grows text (m :: ms) := by
  refine List.Pairwise.cons (fun bytes hmem => ?_) h'
  obtain rfl | hlater := List.mem_cons.1 hmem
  · exact h
  · exact h.trans ((List.pairwise_cons.1 h').1 bytes hlater)

theorem Grows.prefix_final {text : Bytes} {ms : List Seen} (h : Grows text ms) :
    text <+: final text ms := by
  induction ms generalizing text with
  | nil => exact List.prefix_refl text
  | cons m ms ih =>
    obtain ⟨hfirst, hrest⟩ := List.pairwise_cons.1 h
    exact (hfirst m.bytes List.mem_cons_self).trans (ih hrest)

theorem seen_grows (calls : List Call) (w : Writer) : Grows w.bytes (seen calls w) := by
  induction calls generalizing w with
  | nil => exact List.pairwise_singleton _ _
  | cons call calls ih => exact .cons (ends_keeps call w).2 (ih _)

theorem seen_within (calls : List Call) (w : Writer) {m : Seen} (hmem : m ∈ seen calls w) :
    m.bytes.length ≤ w.buffer.capacity := by
  induction calls generalizing w with
  | nil => cases hmem
  | cons call calls ih =>
    rw [← (ends_keeps call w).1]
    obtain rfl | hlater := List.mem_cons.1 hmem
    · exact Nat.le_add_right _ _
    · exact ih _ hlater

/-- What is seen over a small memory, starting behind `text`, beside what is seen over a large one:
the same up to the first call whose bytes do not fit, which fails and leaves a beginning of them
behind those before. -/
inductive Agrees (capacity : Nat) : Bytes → List Seen → List Seen → Prop where
  | done {text : Bytes} : Agrees capacity text [] []
  | same {text : Bytes} {m : Seen} {small full : List Seen} (fits : m.bytes.length ≤ capacity)
    (more : Agrees capacity m.bytes small full) : Agrees capacity text (m :: small) (m :: full)
  | overflow {text : Bytes} {m m' : Seen} {small full : List Seen}
    (exceeds : capacity < m.bytes.length) (fails : m'.result = .error .bufferTooSmall)
    (old : text <+: m'.bytes) (new : m'.bytes <+: m.bytes) :
    Agrees capacity text (m' :: small) (m :: full)

theorem Agrees.eq_of_fits {capacity : Nat} {text : Bytes} {small full : List Seen}
    (h : Agrees capacity text small full) (hgrows : Grows text full)
    (hfits : (final text full).length ≤ capacity) : small = full := by
  induction h with
  | done => rfl
  | same _ _ ih => rw [ih (List.pairwise_cons.1 hgrows).2 hfits]
  | overflow exceeds _ _ _ =>
    have hlast : Grows _ _ := (List.pairwise_cons.1 hgrows).2
    exact absurd (Nat.le_trans hlast.prefix_final.length_le hfits) (Nat.not_le_of_lt exceeds)

theorem Agrees.exists_failure {capacity : Nat} {text : Bytes} {small full : List Seen}
    (h : Agrees capacity text small full) (htext : text.length ≤ capacity)
    (hover : capacity < (final text full).length) :
    ∃ m ∈ small, m.result = .error .bufferTooSmall := by
  induction h with
  | done => exact absurd htext (Nat.not_le_of_lt hover)
  | same fits _ ih =>
    obtain ⟨m, hmem, hresult⟩ := ih fits hover
    exact ⟨m, List.mem_cons_of_mem _ hmem, hresult⟩
  | overflow _ fails _ _ => exact ⟨_, List.mem_cons_self, fails⟩

theorem exists_agrees (calls : List Call) (place : Place) (depth : Nat) (text : Bytes) :
    ∃ full, (∀ m ∈ full, m.result ≠ .error .bufferTooSmall) ∧ Grows text full ∧
      ∀ free : Bytes, Agrees (text.length + free.length) text
        (seen calls ⟨⟨text, free⟩, place, depth⟩) full := by
  induction calls generalizing place depth text with
  | nil => exact ⟨[], nofun, List.pairwise_singleton _ _, fun _ => .done⟩
  | cons call calls ih =>
    obtain ⟨s, hs, hplays⟩ := scripted_call call place depth
    obtain ⟨full, hfull, hgrows, hagrees⟩ := ih s.place s.depth (text ++ s.chunks.flatten)
    refine ⟨⟨s.result, text ++ s.chunks.flatten⟩ :: full, ?_, .cons (List.prefix_append _ _) hgrows,
      fun free => ?_⟩
    · exact List.forall_mem_cons.2 ⟨hs, hfull⟩
    rw [seen]
    by_cases hfits : s.chunks.flatten.length ≤ free.length
    · rw [(hplays ⟨text, free⟩).of_fits hfits]
      have hcapacity : text.length + free.length =
          (text ++ s.chunks.flatten).length + (free.drop s.chunks.flatten.length).length := by
        rw [List.length_append, List.length_drop]
        omega
      refine .same ?_ ?_
      · rw [hcapacity]
        exact Nat.le_add_right _ _
      · rw [hcapacity]
        exact hagrees _
    · obtain ⟨w', hends, -, hold, hnew⟩ :=
        (hplays ⟨text, free⟩).of_overflow (Nat.lt_of_not_le hfits)
      rw [hends]
      refine .overflow ?_ rfl hold hnew
      rw [List.length_append]
      omega

/-- Over a small memory calls go as over an unlimited one until their bytes no longer fit, and all
succeed or fail alike exactly if everything fits. Whatever fails, nothing written is lost, and a
primitive leaves the place and the depth. -/
theorem room_decides :
    (∀ calls : List Call, ∃ full : List Seen,
      Unlimited calls full ∧ (∀ m ∈ full, m.result ≠ .error .bufferTooSmall) ∧
      ∀ memory : Bytes,
        Agrees memory.length [] (seen calls (onMemory memory)) full ∧
        ((∀ m ∈ seen calls (onMemory memory), m.result ≠ .error .bufferTooSmall) ↔
          (final [] full).length ≤ memory.length) ∧
        ((final [] full).length ≤ memory.length → seen calls (onMemory memory) = full) ∧
        (∀ m ∈ seen calls (onMemory memory), m.bytes.length ≤ memory.length) ∧
        Grows [] (seen calls (onMemory memory))) ∧
    ∀ (p : Primitive) (w w' : Writer) (e : Error), p.action w = .error e w' →
      w'.place = w.place ∧ w'.depth = w.depth ∧ (e = .invalidArgument → w' = w) := by
  refine ⟨fun calls => ?_, fun p w w' e h => p.failure_keeps h⟩
  obtain ⟨full, hfull, hgrows, hagrees⟩ := exists_agrees calls .start 0 []
  have hmemory (memory : Bytes) : Agrees memory.length [] (seen calls (onMemory memory)) full := by
    rw [← Nat.zero_add memory.length]
    exact hagrees memory
  have hsame (memory : Bytes) (hfits : (final [] full).length ≤ memory.length) :
      seen calls (onMemory memory) = full := (hmemory memory).eq_of_fits hgrows hfits
  refine ⟨full, ⟨_, hsame⟩, hfull, fun memory => ⟨hmemory memory, ⟨fun hall => ?_, fun hfits => ?_⟩,
    hsame memory, fun m hmem => ?_, seen_grows calls (onMemory memory)⟩⟩
  · refine Nat.le_of_not_lt fun hover => ?_
    obtain ⟨m, hmem, hresult⟩ := (hmemory memory).exists_failure (Nat.zero_le _) hover
    exact hall m hmem hresult
  · rw [hsame memory hfits]
    exact hfull
  · have hlength := seen_within calls (onMemory memory) hmem
    unfold onMemory ofBuffer Buffer.capacity at hlength
    simpa using hlength

end Writer

end HubDevice
