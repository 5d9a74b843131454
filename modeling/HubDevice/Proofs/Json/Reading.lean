import HubDevice.Proofs.Json.Runs

set_option autoImplicit false

namespace HubDevice

namespace Grammar

def Value.first : Value → Token
  | .scalar s => s.token
  | .empty c _ => .opened c
  | .filled c _ => .opened c

theorem Value.isObject_iff {v : Value} : v.isObject = true ↔ v.first = .opened .object := by
  cases v with
  | scalar x => cases x <;> simp [isObject, first, Scalar.token]
  | empty c _ => cases c <;> simp [isObject, first]
  | filled c _ => cases c <;> simp [isObject, first]

theorem Value.head?_tokens (v : Value) : v.tokens.head? = some v.first := by
  cases v <;> rfl

namespace Item

def trimmed {c : Container} : Item c → Bytes
  | .mk _ label value behind => label.text ++ (value.text ++ behind.bytes)

def before {c : Container} : Item c → Blank
  | .mk before _ _ _ => before

theorem text_eq {c : Container} (item : Item c) :
    item.text = item.before.bytes ++ item.trimmed := by
  obtain ⟨before, label, value, behind⟩ := item
  simp only [text, Item.before, trimmed, List.append_assoc]

end Item

namespace Items

def toList {c : Container} : Items c → List (Item c)
  | last item => [item]
  | more item rest => item :: rest.toList

def following {c : Container} (rest : Bytes) : List (Item c) → Bytes
  | [] => c.closing :: rest
  | item :: items => ','.toUInt8 :: (item.text ++ following rest items)

theorem text_append {c : Container} (items : Items c) (rest : Bytes) :
    ∃ item more, items.toList = item :: more ∧
      items.text ++ c.closing :: rest = item.text ++ following rest more := by
  match items with
  | .last item => exact ⟨item, [], rfl, rfl⟩
  | .more item others =>
    obtain ⟨next, more, hlist, htext⟩ := others.text_append rest
    refine ⟨item, others.toList, rfl, ?_⟩
    rw [text, List.append_assoc, List.cons_append, htext, hlist]
    rfl

theorem height_le {c : Container} (items : Items c) :
    ∀ item ∈ items.toList, item.height ≤ items.height := by
  match items with
  | .last item =>
    intro i hi
    rw [toList, List.mem_singleton] at hi
    rw [hi]
    exact Nat.le_refl _
  | .more item others =>
    intro i hi
    rcases List.mem_cons.1 hi with rfl | hi
    · exact Nat.le_max_left _ _
    · exact Nat.le_trans (others.height_le i hi) (Nat.le_max_right _ _)

end Items

end Grammar

namespace Reader
open Grammar
open Items (following)

theorem head_value (v : Value) : ∃ b s, v.text = b :: s ∧ begins b = true := by
  cases v with
  | scalar x =>
    obtain ⟨b, s, hs, hb, -⟩ := head_scalar x
    exact ⟨b, s, hs, hb⟩
  | empty c inside => exact ⟨c.opening, _, rfl, by cases c <;> decide⟩
  | filled c items => exact ⟨c.opening, _, rfl, by cases c <;> decide⟩

theorem head_trimmed {c : Container} (item : Item c) :
    ∃ b s, item.trimmed = b :: s ∧ begins b = true := by
  obtain ⟨before, label, value, behind⟩ := item
  cases label with
  | absent =>
    obtain ⟨b, s, hs, hb⟩ := head_value value
    refine ⟨b, s ++ behind.bytes, ?_, hb⟩
    rw [Item.trimmed, hs]
    rfl
  | name body gap lead => exact ⟨StringBody.quote, _, rfl, by decide⟩

theorem skipSpace_value (v : Value) (s : Bytes) : skipSpace (v.text ++ s) = v.text ++ s := by
  obtain ⟨b, t, ht, hb⟩ := head_value v
  rw [ht, List.cons_append, skipSpace_begins hb]

theorem skipSpace_item {c : Container} (item : Item c) (s : Bytes) :
    skipSpace (item.text ++ s) = item.trimmed ++ s := by
  obtain ⟨b, t, ht, hb⟩ := head_trimmed item
  rw [item.text_eq, List.append_assoc, skipSpace_blank, ht, List.cons_append, skipSpace_begins hb]

theorem ends_following {c : Container} (w : Blank) (rest : Bytes) (items : List (Item c)) :
    Numeral.Ends (w.bytes ++ following rest items) := by
  intro b hb
  obtain ⟨bytes, blank⟩ := w
  cases bytes with
  | nil =>
    cases items with
    | nil =>
      injection hb with hb
      subst hb
      cases c <;> decide
    | cons item items =>
      injection hb with hb
      subst hb
      decide
  | cons d ds =>
    injection hb with hb
    subst hb
    rcases blank d List.mem_cons_self with rfl | rfl | rfl | rfl <;> decide

theorem ends_blank (w : Blank) : Numeral.Ends w.bytes := by
  intro b hb
  rcases w.blank b (List.mem_of_mem_head? hb) with rfl | rfl | rfl | rfl <;> decide

/-- The reader stands before these items of its innermost container, and `rest` follows it. -/
structure Ahead {c : Container} (r : Reader) (items : List (Item c)) (outer : List Container)
    (rest : Bytes) : Prop where
  nesting : r.nesting = c :: outer
  wants : match items with
    | [] => r.Wants (.close c) (c.closing :: rest)
    | next :: more => r.Wants (item c) (next.trimmed ++ following rest more)
  height : ∀ item ∈ items, outer.length + 1 + item.height ≤ maxNesting

theorem ahead_empty {r : Reader} {c : Container} {outer : List Container} {rest : Bytes}
    (w : Blank) (token : r.token = .opened c) (nesting : r.nesting = c :: outer)
    (hrest : r.rest = w.bytes ++ c.closing :: rest) : Ahead (c := c) r [] outer rest := by
  refine ⟨nesting, ?_, by simp⟩
  have hspace : skipSpace r.rest = c.closing :: rest := by
    rw [hrest, skipSpace_blank, skipSpace_closing]
  change r.seek = _
  unfold seek
  rw [token, hspace]
  simp [seekFirst]

theorem ahead_filled {r : Reader} {c : Container} {outer : List Container} {rest : Bytes}
    (items : Items c) (token : r.token = .opened c) (nesting : r.nesting = c :: outer)
    (height : outer.length + 1 + items.height ≤ maxNesting)
    (hrest : r.rest = items.text ++ c.closing :: rest) : Ahead r items.toList outer rest := by
  obtain ⟨next, more, hlist, htext⟩ := items.text_append rest
  refine ⟨nesting, ?_, fun i hi => ?_⟩
  · rw [hlist]
    obtain ⟨b, s, hs, hb⟩ := head_trimmed next
    have hspace : skipSpace r.rest = next.trimmed ++ following rest more := by
      rw [hrest, htext, skipSpace_item]
    change r.seek = _
    unfold seek
    rw [token, hspace, hs]
    simp [seekFirst, ne_closing_of_begins hb]
  · have := items.height_le i hi
    omega

theorem ahead_settled {r : Reader} {c : Container} {items : List (Item c)}
    {outer : List Container} {rest : Bytes} (w : Blank) (settled : r.Settled)
    (nesting : r.nesting = c :: outer)
    (height : ∀ item ∈ items, outer.length + 1 + item.height ≤ maxNesting)
    (hrest : r.rest = w.bytes ++ following rest items) : Ahead r items outer rest := by
  refine ⟨nesting, ?_, height⟩
  have hseek := seek_of_settled settled
  rw [nesting, hrest, skipSpace_blank] at hseek
  cases items with
  | nil =>
    have hcomma : c.closing ≠ ','.toUInt8 := by cases c <;> decide
    rw [following, skipSpace_closing] at hseek
    simp only [seekNext, if_neg hcomma, if_true] at hseek
    exact hseek
  | cons next more =>
    rw [following, skipSpace_cons (by decide)] at hseek
    simp only [seekNext, if_true, skipSpace_item] at hseek
    exact hseek

theorem open_step {r : Reader} {s : Bytes} (c : Container)
    (wants : r.Wants .value (c.opening :: s)) (hdepth : r.depth < maxNesting) :
    ∃ first, next r = .ok () first ∧ first.token = .opened c ∧ first.nesting = c :: r.nesting ∧
      first.rest = s ∧ first.origin = c.opening :: s :=
  ⟨_, next_of_take wants (take_opening c s hdepth), rfl, rfl, rfl, rfl⟩

theorem open_empty {r : Reader} {c : Container} {inside : Blank} {rest : Bytes}
    (wants : r.Wants .value ((Value.empty c inside).text ++ rest))
    (height : r.depth + (Value.empty c inside).height ≤ maxNesting) :
    ∃ first, next r = .ok () first ∧ first.token = .opened c ∧ first.nesting = c :: r.nesting ∧
      first.origin = (Value.empty c inside).text ++ rest ∧
      Ahead (c := c) first [] r.nesting rest := by
  rw [Value.height] at height
  obtain ⟨first, step, token, nesting, hinside, origin⟩ :=
    open_step c wants (Nat.lt_of_succ_le height)
  refine ⟨first, step, token, nesting, origin, ahead_empty inside token nesting ?_⟩
  rw [hinside]
  exact List.append_assoc inside.bytes [c.closing] rest

theorem open_filled {r : Reader} {c : Container} {items : Items c} {rest : Bytes}
    (wants : r.Wants .value ((Value.filled c items).text ++ rest))
    (height : r.depth + (Value.filled c items).height ≤ maxNesting) :
    ∃ first, next r = .ok () first ∧ first.token = .opened c ∧ first.nesting = c :: r.nesting ∧
      first.origin = (Value.filled c items).text ++ rest ∧
      Ahead first items.toList r.nesting rest := by
  rw [Value.height] at height
  obtain ⟨first, step, token, nesting, hitems, origin⟩ := open_step c wants (by omega)
  refine ⟨first, step, token, nesting, origin, ahead_filled items token nesting ?_ ?_⟩
  · rw [depth] at height
    omega
  · rw [hitems]
    exact List.append_assoc items.text [c.closing] rest

theorem close_step {r : Reader} {c : Container} {outer : List Container} {rest : Bytes}
    (h : Ahead (c := c) r [] outer rest) :
    ∃ r', next r = .ok () r' ∧ r'.token = .closed c ∧ r'.nesting = outer ∧ r'.rest = rest := by
  refine ⟨_, next_of_take h.wants (take_close _ _ _), rfl, ?_, rfl⟩
  rw [h.nesting]
  rfl

theorem name_step {r : Reader} (body : Body) (gap lead : Blank) (v : Value) {s : Bytes}
    (wants : r.Wants .name ((Label.name body gap lead).text ++ (v.text ++ s))) :
    ∃ r', next r = .ok () r' ∧ r'.token = .name body.bytes ∧ r'.nesting = r.nesting ∧
      r'.Wants .value (v.text ++ s) := by
  simp only [Label.text, List.append_assoc, List.cons_append] at wants
  refine ⟨_, next_of_take wants (take_name r.nesting body _), rfl, rfl, ?_⟩
  change seekMember _ = _
  rw [skipSpace_blank, skipSpace_cons (by decide)]
  simp only [seekMember, if_true, skipSpace_blank, skipSpace_value]

theorem label_runs {r : Reader} {c : Container} {outer : List Container} (label : Label c)
    (v : Value) {s : Bytes} (nesting : r.nesting = c :: outer)
    (wants : r.Wants (item c) (label.text ++ (v.text ++ s))) :
    ∃ r', Runs r.depth r label.tokens r' ∧ r'.Wants .value (v.text ++ s) ∧
      r'.nesting = r.nesting := by
  cases label with
  | absent => exact ⟨r, .refl r, wants, rfl⟩
  | name body gap lead =>
    obtain ⟨r', step, token, hnesting, hvalue⟩ := name_step body gap lead v wants
    have hdepth : r'.depth = r.depth := by rw [depth, hnesting, depth]
    refine ⟨r', ?_, hvalue, hnesting⟩
    rw [Label.tokens, ← token]
    exact .one step (Nat.le_of_eq hdepth.symm)

/-- Reading a value has led from `r` to `r'`, and so does skipping from its first token. -/
structure Passes (v : Value) (r r' : Reader) : Prop where
  settled : r'.Settled
  nesting : r'.nesting = r.nesting
  runs : Runs r.depth r v.tokens r'
  skips : ∃ first, next r = .ok () first ∧ first.token = v.first ∧
    first.origin = v.text ++ r'.rest ∧ skipOpened first = .ok () r'

theorem skipOpened_opened {r : Reader} {c : Container} (token : r.token = .opened c) :
    skipOpened r = leave (r.depth - 1) r := by
  unfold skipOpened
  rw [token]

theorem scalar_passes {r : Reader} (x : Scalar) {rest : Bytes}
    (wants : r.Wants .value (x.text ++ rest)) (hrest : Numeral.Ends rest) :
    ∃ r', Passes (.scalar x) r r' ∧ r'.rest = rest := by
  let r' : Reader := { rest, token := x.token, origin := x.text ++ rest, nesting := r.nesting }
  have step : next r = .ok () r' := next_of_take wants (take_scalar r.nesting x hrest)
  have skips : skipOpened r' = .ok () r' := by cases x <;> rfl
  exact ⟨r', ⟨settled_scalar rfl, rfl, .one step (Nat.le_refl _), r', step, rfl, rfl, skips⟩, rfl⟩

/-- An opening bracket, a run over the items and a closing bracket make a container. -/
theorem container_passes {r first last : Reader} {c : Container} {v : Value} {ts : List Token}
    {rest : Bytes} (step : next r = .ok () first) (hfirst : first.token = .opened c)
    (origin : first.origin = v.text ++ rest) (nesting : first.nesting = c :: r.nesting)
    (runs : Runs first.depth first ts last)
    (hlast : Ahead (c := c) last [] r.nesting rest) (value : v.first = .opened c)
    (tokens : v.tokens = .opened c :: ts ++ [.closed c]) :
    ∃ r', Passes v r r' ∧ r'.rest = rest := by
  obtain ⟨r', hclose, htoken, hnesting, hrest⟩ := close_step hlast
  have hdepth : first.depth = r.depth + 1 := by
    rw [depth, nesting]
    rfl
  have hdepth' : r'.depth = r.depth := by rw [depth, hnesting, depth]
  refine ⟨r', ⟨settled_closed htoken, hnesting, ?_, first, step, ?_, ?_, ?_⟩, hrest⟩
  · rw [tokens, ← hfirst, ← htoken]
    have hend : Runs r.depth last [r'.token] r' := .one hclose (by omega)
    exact .next step (by omega) ((runs.mono (by omega)).trans hend)
  · rw [hfirst, value]
  · rw [origin, hrest]
  · rw [hdepth] at runs
    rw [skipOpened_opened hfirst, hdepth, Nat.add_sub_cancel, leave_of_runs runs]
    exact leave_closed hclose htoken hdepth'

mutual

theorem value_passes (v : Value) {r : Reader} {rest : Bytes}
    (wants : r.Wants .value (v.text ++ rest)) (hrest : Numeral.Ends rest)
    (height : r.depth + v.height ≤ maxNesting) : ∃ r', Passes v r r' ∧ r'.rest = rest := by
  match v with
  | .scalar x => exact scalar_passes x wants hrest
  | .empty c inside =>
    obtain ⟨first, step, token, nesting, origin, hahead⟩ := open_empty wants height
    exact container_passes step token origin nesting (.refl first) hahead rfl rfl
  | .filled c items =>
    obtain ⟨first, step, token, nesting, origin, hahead⟩ := open_filled wants height
    obtain ⟨last, runs, hlast⟩ := items_run items hahead
    exact container_passes step token origin nesting runs hlast rfl rfl

theorem item_runs {c : Container} (i : Item c) {r : Reader} {outer : List Container}
    {rest : Bytes} {more : List (Item c)} (nesting : r.nesting = c :: outer)
    (wants : r.Wants (item c) (i.trimmed ++ following rest more))
    (height : r.depth + i.height ≤ maxNesting)
    (hmore : ∀ item ∈ more, outer.length + 1 + item.height ≤ maxNesting) :
    ∃ r', Runs r.depth r i.tokens r' ∧ Ahead r' more outer rest := by
  match i with
  | .mk before label value behind =>
    simp only [Item.trimmed, List.append_assoc] at wants
    obtain ⟨s, hlabel, hvalue, hnesting⟩ := label_runs label value nesting wants
    have hdepth : s.depth = r.depth := by rw [depth, hnesting, depth]
    obtain ⟨r', passes, hrest⟩ := value_passes value hvalue (ends_following behind rest more)
      (by rw [hdepth]; exact height)
    refine ⟨r', hlabel.trans (hdepth ▸ passes.runs), ?_⟩
    exact ahead_settled behind passes.settled (by rw [passes.nesting, hnesting, nesting]) hmore
      hrest

theorem items_run {c : Container} (items : Items c) {r : Reader} {outer : List Container}
    {rest : Bytes} (h : Ahead r items.toList outer rest) :
    ∃ r', Runs r.depth r items.tokens r' ∧ Ahead (c := c) r' [] outer rest := by
  have hdepth : r.depth = outer.length + 1 := by
    rw [depth, h.nesting]
    rfl
  match items with
  | .last i =>
    have hi := h.height i List.mem_cons_self
    exact item_runs i h.nesting h.wants (by omega) (by simp)
  | .more i others =>
    have hi := h.height i List.mem_cons_self
    obtain ⟨s, hruns, hs⟩ := item_runs i h.nesting h.wants (by omega)
      fun j hj => h.height j (List.mem_cons_of_mem _ hj)
    obtain ⟨r', hruns', hr'⟩ := items_run others hs
    have hsame : s.depth = r.depth := by
      rw [hdepth, depth, hs.nesting]
      rfl
    exact ⟨r', hruns.trans (hsame ▸ hruns'), hr'⟩

end

end Reader

end HubDevice
