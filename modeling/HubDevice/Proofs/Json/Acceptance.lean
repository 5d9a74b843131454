import HubDevice.Proofs.Json.Ending

set_option autoImplicit false

/-!
# Which documents are accepted

A run that leaves the depth at which a value is wanted has passed over the text of a value. So the
reader comes to the end of a document exactly on the texts of parse trees that are not too high, and
what it reads are the tokens of the tree.
-/
namespace HubDevice.Reader
open Grammar

theorem opened_sound {r s : Reader} {c : Container} (token : r.token = .opened c)
    (step : next r = .ok () s) :
    (∃ w : Blank, r.rest = w.bytes ++ c.closing :: s.rest ∧ s.token = .closed c ∧
      s.nesting = r.nesting.tail) ∨
    ∃ (w : Blank) (t : Bytes), r.rest = w.bytes ++ t ∧ r.Wants (item c) t := by
  obtain ⟨w, hw⟩ := exists_blank r.rest
  obtain ⟨wanted, hwants, htake⟩ := next_sound step
  have hseek : r.seek = seekFirst c (item c) (skipSpace r.rest) := by
    unfold seek
    rw [token]
  generalize skipSpace r.rest = t at hw hseek
  cases t with
  | nil => simp [Wants, hseek, seekFirst] at hwants
  | cons b t =>
    by_cases hb : b = c.closing
    · subst hb
      simp only [Wants, hseek, seekFirst, if_true, Prod.mk.injEq, Except.ok.injEq] at hwants
      obtain ⟨horigin, rfl⟩ := hwants
      rw [← horigin] at htake
      simp only [take, List.tail_cons, Except.ok.injEq, Prod.mk.injEq] at htake
      obtain ⟨htoken, hnesting, hrest⟩ := htake
      exact .inl ⟨w, by rw [hw, hrest], htoken.symm, hnesting.symm⟩
    · refine .inr ⟨w, b :: t, hw, ?_⟩
      rw [Wants, hseek, seekFirst, if_neg hb]

theorem name_sound {r s : Reader} {body : Bytes} (token : r.token = .name body)
    (step : next r = .ok () s) :
    ∃ (w v : Blank) (t : Bytes), r.rest = w.bytes ++ ':'.toUInt8 :: (v.bytes ++ t) ∧
      r.Wants .value t := by
  obtain ⟨w, hw⟩ := exists_blank r.rest
  obtain ⟨wanted, hwants, -⟩ := next_sound step
  have hseek : r.seek = seekMember (skipSpace r.rest) := by
    unfold seek
    rw [token]
  generalize skipSpace r.rest = t at hw hseek
  cases t with
  | nil => simp [Wants, hseek, seekMember] at hwants
  | cons b t =>
    by_cases hb : b = ':'.toUInt8
    · obtain ⟨v, hv⟩ := exists_blank t
      refine ⟨w, v, skipSpace t, by rw [hw, hb, ← hv], ?_⟩
      rw [Wants, hseek, seekMember, if_pos hb]
    · simp [Wants, hseek, seekMember, hb] at hwants

theorem settled_sound {r s : Reader} {c : Container} {outer : List Container}
    (settled : r.Settled) (nesting : r.nesting = c :: outer) (step : next r = .ok () s) :
    (∃ w : Blank, r.rest = w.bytes ++ c.closing :: s.rest ∧ s.token = .closed c ∧
      s.nesting = outer) ∨
    ∃ (w v : Blank) (t : Bytes), r.rest = w.bytes ++ ','.toUInt8 :: (v.bytes ++ t) ∧
      r.Wants (item c) t := by
  obtain ⟨w, hw⟩ := exists_blank r.rest
  obtain ⟨wanted, hwants, htake⟩ := next_sound step
  have hseek := seek_of_settled settled
  rw [nesting] at hseek htake
  generalize skipSpace r.rest = t at hw hseek
  cases t with
  | nil => simp [Wants, hseek, seekNext] at hwants
  | cons b t =>
    by_cases hcomma : b = ','.toUInt8
    · obtain ⟨v, hv⟩ := exists_blank t
      refine .inr ⟨w, v, skipSpace t, by rw [hw, hcomma, ← hv], ?_⟩
      rw [Wants, hseek, seekNext, if_pos hcomma]
    · by_cases hb : b = c.closing
      · subst hb
        simp only [Wants, hseek, seekNext, if_neg hcomma, if_true, Prod.mk.injEq,
          Except.ok.injEq] at hwants
        obtain ⟨horigin, rfl⟩ := hwants
        rw [← horigin] at htake
        simp only [take, List.tail_cons, Except.ok.injEq, Prod.mk.injEq] at htake
        obtain ⟨htoken, hnesting, hrest⟩ := htake
        exact .inl ⟨w, by rw [hw, hrest], htoken.symm, hnesting.symm⟩
      · simp [Wants, hseek, seekNext, hcomma, hb] at hwants

theorem tokens_ne_nil (v : Value) : v.tokens ≠ [] := by
  cases v <;> simp [Value.tokens]

structure Resumes (r e : Reader) (ts : List Token) (nesting : List Container) : Prop where
  runs : Runs 0 r ts e
  settled : r.Settled
  nesting : r.nesting = nesting

/-- A run from where a value is wanted back to this depth has passed over a value. -/
def PassesValue (ts : List Token) : Prop :=
  ∀ {r e : Reader} {s : Bytes}, Runs 0 r ts e → e.Settled → e.depth ≤ r.depth →
    r.depth ≤ maxNesting → ts ≠ [] → r.Wants .value s →
    ∃ (v : Value) (r' : Reader) (us : List Token), ts = v.tokens ++ us ∧
      Resumes r' e us r.nesting ∧ s = v.text ++ r'.rest ∧ r.depth + v.height ≤ maxNesting

/-- A run from where an item is wanted out of the container has passed over its last items, here
with any blanks in front. -/
def PassesItems (ts : List Token) : Prop :=
  ∀ {r e : Reader} {c : Container} {outer : List Container} {s : Bytes}, Runs 0 r ts e →
    e.Settled → e.depth ≤ outer.length → r.nesting = c :: outer → outer.length < maxNesting →
    r.Wants (item c) s → ∀ w : Blank, ∃ (items : Items c) (r' : Reader) (us : List Token),
      ts = items.tokens ++ .closed c :: us ∧ Resumes r' e us outer ∧
        w.bytes ++ s = items.text ++ c.closing :: r'.rest ∧
        outer.length + 1 + items.height ≤ maxNesting

theorem ne_of_depth {r e : Reader} (h : e.depth < r.depth) : r ≠ e := by
  rintro rfl
  exact Nat.lt_irrefl _ h

theorem depth_cons {r : Reader} {c : Container} {outer : List Container}
    (h : r.nesting = c :: outer) : r.depth = outer.length + 1 := by
  rw [depth, h]
  rfl

theorem passesValue {ts : List Token}
    (ih : ∀ us : List Token, us.length < ts.length → PassesItems us) : PassesValue ts := by
  intro r e s runs hsettled hdepth hmax hne wants
  obtain ⟨first, us, step, rfl, tail⟩ := runs.step hne
  obtain ⟨wanted, hwants, htake⟩ := next_sound step
  rw [Wants, wants] at hwants
  simp only [Prod.mk.injEq, Except.ok.injEq] at hwants
  obtain ⟨horigin, rfl⟩ := hwants
  rw [← horigin] at htake
  rcases take_value_sound htake with ⟨x, token, nesting, hs⟩ | ⟨c, token, nesting, hs, hlt⟩
  · refine ⟨.scalar x, first, us, ?_, ⟨tail, settled_scalar token, nesting⟩, hs, hmax⟩
    rw [token]
    rfl
  · have hfirst : first.depth = r.depth + 1 := depth_cons nesting
    obtain ⟨second, vs, step', rfl, tail'⟩ := tail.step (tail.ne_nil (ne_of_depth (by omega)))
    rcases opened_sound token step' with ⟨w, hrest, hclosed, hnesting⟩ | ⟨w, t, hrest, hitem⟩
    · refine ⟨.empty c w, second, vs, ?_, ⟨tail', settled_closed hclosed, ?_⟩, ?_, ?_⟩
      · rw [token, hclosed]
        rfl
      · rw [hnesting, nesting]
        rfl
      · rw [hs, hrest]
        exact congrArg _ (List.append_assoc w.bytes [c.closing] second.rest).symm
      · exact hlt
    · obtain ⟨items, r', ws, htokens, resumes, htext, hheight⟩ :=
        ih _ (by simp) tail hsettled hdepth nesting hlt hitem w
      refine ⟨.filled c items, r', ws, ?_, resumes, ?_, ?_⟩
      · rw [token, htokens]
        simp [Value.tokens]
      · rw [hs, hrest, htext]
        exact congrArg _ (List.append_assoc items.text [c.closing] r'.rest).symm
      · rw [Value.height, depth]
        omega

theorem passesLabel {ts : List Token} {r e : Reader} {c : Container} {outer : List Container}
    {s : Bytes} (runs : Runs 0 r ts e) (hdepth : e.depth ≤ outer.length)
    (nesting : r.nesting = c :: outer) (wants : r.Wants (item c) s) :
    ∃ (label : Label c) (r' : Reader) (us : List Token) (t : Bytes),
      ts = label.tokens ++ us ∧ Runs 0 r' us e ∧ us ≠ [] ∧ r'.Wants .value t ∧
        r'.nesting = r.nesting ∧ s = label.text ++ t := by
  have hr := depth_cons nesting
  have hne := runs.ne_nil (ne_of_depth (by omega))
  cases c with
  | array => exact ⟨.absent, r, ts, s, rfl, runs, hne, wants, rfl, rfl⟩
  | object =>
    obtain ⟨first, us, step, rfl, tail⟩ := runs.step hne
    obtain ⟨wanted, hwants, htake⟩ := next_sound step
    rw [Wants, wants] at hwants
    simp only [Prod.mk.injEq, Except.ok.injEq] at hwants
    obtain ⟨horigin, rfl⟩ := hwants
    rw [← horigin] at htake
    obtain ⟨body, token, hnesting, hs⟩ := take_name_sound htake
    have hfirst := depth_cons (hnesting.trans nesting)
    have hne' := tail.ne_nil (ne_of_depth (by omega))
    obtain ⟨second, vs, step', rfl, tail'⟩ := tail.step hne'
    obtain ⟨w, v, t, hrest, hvalue⟩ := name_sound token step'
    refine ⟨.name body w v, first, _, t, ?_, tail, hne', hvalue, hnesting, ?_⟩
    · rw [token]
      rfl
    · rw [hs, hrest]
      simp only [Label.text, List.append_assoc, List.cons_append]

theorem passesItems {ts : List Token}
    (hvalue : ∀ us : List Token, us.length ≤ ts.length → PassesValue us)
    (ih : ∀ us : List Token, us.length < ts.length → PassesItems us) : PassesItems ts := by
  intro r e c outer s runs hsettled hdepth nesting hlt wants w
  obtain ⟨label, r1, us, t, rfl, runs1, hne, wants1, nesting1, rfl⟩ :=
    passesLabel runs hdepth nesting wants
  have hr1 := depth_cons (nesting1.trans nesting)
  obtain ⟨v, r2, vs, rfl, resumes, rfl, hheight⟩ :=
    hvalue us (by simp) runs1 hsettled (by omega) (by omega) hne wants1
  -- Behind the value the container is closed, or a comma stands and the next item is wanted.
  have nesting2 := resumes.nesting.trans (nesting1.trans nesting)
  have hr2 := depth_cons nesting2
  have hne2 := resumes.runs.ne_nil (ne_of_depth (by omega))
  obtain ⟨r3, ws, step, rfl, tail⟩ := resumes.runs.step hne2
  rcases settled_sound resumes.settled nesting2 step with
    ⟨b, hrest, token, nesting3⟩ | ⟨b, lead, t, hrest, wants2⟩
  · refine ⟨.last (.mk w label v b), r3, ws, ?_, ⟨tail, settled_closed token, nesting3⟩, ?_, ?_⟩
    · rw [token]
      simp [Items.tokens, Item.tokens]
    · rw [hrest]
      simp [Items.text, Item.text]
    · rw [Items.height, Item.height]
      omega
  · have hshorter : (r3.token :: ws).length <
        (label.tokens ++ (v.tokens ++ r3.token :: ws)).length := by
      have := List.length_pos_iff.2 (tokens_ne_nil v)
      simp only [List.length_append, List.length_cons]
      omega
    obtain ⟨items, r', xs, htokens, resumes', htext, hheight'⟩ :=
      ih _ hshorter resumes.runs hsettled hdepth nesting2 hlt wants2 lead
    refine ⟨.more (.mk w label v b) items, r', xs, ?_, resumes', ?_, ?_⟩
    · rw [htokens]
      simp [Items.tokens, Item.tokens]
    · rw [hrest, htext]
      simp [Items.text, Item.text]
    · rw [Items.height, Item.height]
      omega

/-- Both statements by induction on the length of the run, items after values of the same length. -/
theorem passes_of_runs (ts : List Token) : PassesValue ts ∧ PassesItems ts := by
  have ih : ∀ us : List Token, us.length < ts.length → PassesItems us :=
    fun us _ => (passes_of_runs us).2
  have hvalue : ∀ us : List Token, us.length ≤ ts.length → PassesValue us :=
    fun us hus => passesValue fun vs hvs => ih vs (Nat.lt_of_lt_of_le hvs hus)
  exact ⟨hvalue ts (Nat.le_refl _), passesItems hvalue ih⟩
termination_by ts.length

theorem seek_ofBytes (b : Bytes) : (ofBytes b).Wants .value (skipSpace b) := rfl

theorem wants_root (d : Document) :
    (ofBytes d.text).Wants .value (d.root.text ++ d.behind.bytes) := by
  have wants := seek_ofBytes d.text
  rw [Document.text, List.append_assoc, skipSpace_blank, skipSpace_value, ← List.append_assoc]
    at wants
  exact wants

/-- A run over a whole document, which ends where the root value is complete. -/
theorem runs_document (d : Document) (height : d.height ≤ maxNesting) :
    ∃ e, Runs 0 (ofBytes d.text) d.tokens e ∧ e.Settled ∧ e.nesting = [] ∧
      e.rest = d.behind.bytes := by
  obtain ⟨e, passes, hrest⟩ := value_passes d.root (wants_root d) (ends_blank d.behind)
    (by change 0 + d.height ≤ _; omega)
  exact ⟨e, passes.runs, passes.settled, passes.nesting, hrest⟩

theorem tokens_document (d : Document) (height : d.height ≤ maxNesting) :
    (ofBytes d.text).tokens = (d.tokens, .readerDone) := by
  obtain ⟨e, runs, settled, nesting, hrest⟩ := runs_document d height
  obtain ⟨e', hend⟩ := readerDone_of_end settled nesting
    (by rw [hrest]; exact skipSpace_blank_nil d.behind)
  exact tokens_of_runs runs hend

theorem document_of_runs {b : Bytes} {ts : List Token} {e : Reader}
    (runs : Runs 0 (ofBytes b) ts e) (settled : e.Settled) (nesting : e.nesting = [])
    (hrest : skipSpace e.rest = []) :
    ∃ d : Document, d.text = b ∧ d.height ≤ maxNesting ∧ d.tokens = ts := by
  have hdepth : e.depth = 0 := by
    rw [depth, nesting]
    rfl
  have hne : ts ≠ [] := runs.ne_nil fun h => by
    rw [← h] at settled
    exact settled
  obtain ⟨v, r', us, rfl, resumes, hs, hheight⟩ :=
    (passes_of_runs ts).1 runs settled (by omega) (Nat.zero_le _) hne (seek_ofBytes b)
  obtain ⟨c, r'', hstuck⟩ := stuck_of_root resumes.settled resumes.nesting
  obtain ⟨rfl, rfl⟩ := resumes.runs.eq_nil hstuck
  obtain ⟨before, hbefore⟩ := exists_blank b
  obtain ⟨behind, hbehind⟩ := exists_blank e.rest
  rw [hrest, List.append_nil] at hbehind
  refine ⟨⟨before, v, behind⟩, ?_, ?_, (List.append_nil _).symm⟩
  · rw [Document.text, List.append_assoc, ← hbehind, ← hs, ← hbefore]
  · change 0 + v.height ≤ _ at hheight
    rw [Nat.zero_add] at hheight
    exact hheight

/-- The reader comes to the end of a document exactly on the texts of parse trees that are not too
high, and it has read the tokens of the tree then. -/
theorem tokens_eq_readerDone_iff {b : Bytes} {ts : List Token} :
    (ofBytes b).tokens = (ts, .readerDone) ↔
      ∃ d : Document, d.text = b ∧ d.height ≤ maxNesting ∧ d.tokens = ts := by
  constructor
  · intro h
    obtain ⟨e, e', runs, hend⟩ := runs_of_tokens h
    obtain ⟨settled, nesting, hrest⟩ := end_of_readerDone hend
    exact document_of_runs runs settled nesting hrest
  · rintro ⟨d, rfl, height, rfl⟩
    exact tokens_document d height

end HubDevice.Reader
