import HubDevice.Proofs.Json.Numerals
import HubDevice.Proofs.Json.Strings

set_option autoImplicit false

namespace HubDevice.Reader
open Grammar
open StringBody (quote scan_body)
open Numeral (Ends head?_whole scan_text)

theorem skipSpace_blank (w : Blank) (s : Bytes) : skipSpace (w.bytes ++ s) = skipSpace s := by
  apply List.dropWhile_append_of_pos
  intro b hb
  rcases w.blank b hb with rfl | rfl | rfl | rfl <;> rfl

theorem skipSpace_blank_nil (w : Blank) : skipSpace w.bytes = [] := by
  rw [← List.append_nil w.bytes, skipSpace_blank]
  rfl

theorem skipSpace_cons {b : UInt8} (h : isSpace b = false) (s : Bytes) :
    skipSpace (b :: s) = b :: s := by
  rw [skipSpace, List.dropWhile_cons, h]
  rfl

theorem exists_blank (s : Bytes) : ∃ w : Blank, s = w.bytes ++ skipSpace s := by
  refine ⟨⟨s.takeWhile isSpace, ?_⟩, List.takeWhile_append_dropWhile.symm⟩
  intro b hb
  have h := List.all_eq_true.1 List.all_takeWhile b hb
  simp only [isSpace, Bool.or_eq_true, beq_iff_eq] at h
  rcases h with ((h | h) | h) | h <;> simp [h]

theorem isDigit_ne {b c : UInt8} (hb : isDigit b = true) (hc : isDigit c = false) : b ≠ c := by
  rintro rfl
  rw [hb] at hc
  cases hc

def begins (b : UInt8) : Bool :=
  !isSpace b && b != ','.toUInt8 && b != Container.object.closing && b != Container.array.closing

theorem begins_of_isDigit {b : UInt8} (h : isDigit b = true) : begins b = true := by
  have hspace : isSpace b = false := by
    simp only [isSpace, Bool.or_eq_false_iff, beq_eq_false_iff_ne]
    exact ⟨⟨⟨isDigit_ne h (by decide), isDigit_ne h (by decide)⟩, isDigit_ne h (by decide)⟩,
      isDigit_ne h (by decide)⟩
  simp only [begins, hspace, Bool.and_eq_true, bne_iff_ne, ne_eq]
  exact ⟨⟨⟨rfl, isDigit_ne h (by decide)⟩, isDigit_ne h (by decide)⟩, isDigit_ne h (by decide)⟩

theorem isSpace_of_begins {b : UInt8} (h : begins b = true) : isSpace b = false := by
  simp only [begins, Bool.and_eq_true, Bool.not_eq_true'] at h
  exact h.1.1.1

theorem ne_closing_of_begins {b : UInt8} (h : begins b = true) (c : Container) :
    b ≠ c.closing := by
  simp only [begins, Bool.and_eq_true, bne_iff_ne, ne_eq] at h
  cases c
  · exact h.1.2
  · exact h.2

theorem skipSpace_begins {b : UInt8} (h : begins b = true) (s : Bytes) :
    skipSpace (b :: s) = b :: s :=
  skipSpace_cons (isSpace_of_begins h) s

theorem skipSpace_closing (c : Container) (s : Bytes) :
    skipSpace (c.closing :: s) = c.closing :: s := by
  cases c <;> exact skipSpace_cons (by decide) s

theorem takeName_sound {s rest : Bytes} {token : Token} (h : takeName s = .ok (token, rest)) :
    ∃ body : Body, token = .name body.bytes ∧ s = body.quoted ++ rest := by
  match s, h with
  | b :: s, h =>
    simp only [takeName] at h
    split at h
    · next hb =>
      cases hs : StringBody.scan s with
      | error e => simp [hs, Except.map] at h
      | ok r =>
        obtain ⟨body, hbody, rfl⟩ := StringBody.scan_sound hs
        simp only [hs, Except.map, Except.ok.injEq, Prod.mk.injEq] at h
        refine ⟨body, by rw [hbody, ← h.1], ?_⟩
        rw [hb, Body.quoted, hbody, ← h.2]
        simp
    · cases h

theorem takeName_text (body : Body) (rest : Bytes) :
    takeName (body.quoted ++ rest) = .ok (.name body.bytes, rest) := by
  have h := scan_body body rest
  simp only [Body.quoted, List.cons_append, List.append_assoc, List.nil_append, takeName, if_true,
    h]
  rfl

theorem takeLiteral_sound {word s rest : Bytes} {token token' : Token}
    (h : takeLiteral word token s = .ok (token', rest)) : token' = token ∧ s = word ++ rest := by
  unfold takeLiteral at h
  split at h
  · next hp =>
    obtain ⟨t, rfl⟩ := List.isPrefixOf_iff_prefix.1 hp
    simp only [List.drop_left, Except.ok.injEq, Prod.mk.injEq] at h
    obtain ⟨rfl, rfl⟩ := h
    exact ⟨rfl, rfl⟩
  · split at h <;> cases h

theorem takeLiteral_text (word rest : Bytes) (token : Token) :
    takeLiteral word token (word ++ rest) = .ok (token, rest) := by
  have hp : word.isPrefixOf (word ++ rest) = true :=
    List.isPrefixOf_iff_prefix.2 (List.prefix_append word rest)
  rw [takeLiteral, if_pos hp, List.drop_left]

theorem takeScalar_sound {s rest : Bytes} {token : Token}
    (h : takeScalar s = .ok (token, rest)) :
    ∃ x : Scalar, token = x.token ∧ s = x.text ++ rest := by
  match s, h with
  | b :: s, h =>
    simp only [takeScalar] at h
    split at h
    · next hb =>
      cases hs : StringBody.scan s with
      | error e => simp [hs, Except.map] at h
      | ok r =>
        obtain ⟨body, hbody, rfl⟩ := StringBody.scan_sound hs
        simp only [hs, Except.map, Except.ok.injEq, Prod.mk.injEq] at h
        refine ⟨.string body, by rw [Scalar.token, hbody, ← h.1], ?_⟩
        rw [hb, Scalar.text, Body.quoted, hbody, ← h.2]
        simp
    · split at h
      · obtain ⟨rfl, hs⟩ := takeLiteral_sound h
        exact ⟨.bool true, rfl, hs⟩
      · split at h
        · obtain ⟨rfl, hs⟩ := takeLiteral_sound h
          exact ⟨.bool false, rfl, hs⟩
        · split at h
          · obtain ⟨rfl, hs⟩ := takeLiteral_sound h
            exact ⟨.null, rfl, hs⟩
          · split at h
            · cases hs : Numeral.scan (b :: s) with
              | error e => simp [hs, Except.map] at h
              | ok r =>
                obtain ⟨n, tail⟩ := r
                obtain ⟨legal, htext⟩ := Numeral.scan_sound hs
                simp only [hs, Except.map, Except.ok.injEq, Prod.mk.injEq] at h
                obtain ⟨rfl, rfl⟩ := h
                exact ⟨.number n legal, rfl, htext⟩
            · cases h

theorem head_numeral {n : Numeral} (legal : LegalNumeral n) :
    ∃ b s, n.text = b :: s ∧ (b = '-'.toUInt8 ∨ isDigit b = true) := by
  obtain ⟨d, ds, hwhole, hd⟩ := head?_whole legal
  rw [Numeral.text_eq, hwhole]
  cases n.negative
  · exact ⟨d, _, rfl, .inr hd⟩
  · exact ⟨'-'.toUInt8, _, rfl, .inl rfl⟩

theorem head_scalar (x : Scalar) :
    ∃ b s, x.text = b :: s ∧ begins b = true ∧ opening? b = none := by
  cases x with
  | null => exact ⟨_, _, rfl, by decide, by decide⟩
  | bool b => cases b <;> exact ⟨_, _, rfl, by decide, by decide⟩
  | string body => exact ⟨quote, _, rfl, by decide, by decide⟩
  | number n legal =>
    obtain ⟨b, s, hs, hb⟩ := head_numeral legal
    refine ⟨b, s, hs, ?_⟩
    rcases hb with rfl | hb
    · exact ⟨by decide, by decide⟩
    · refine ⟨begins_of_isDigit hb, ?_⟩
      rw [opening?, if_neg (isDigit_ne hb (by decide)), if_neg (isDigit_ne hb (by decide))]

theorem takeScalar_text (x : Scalar) {rest : Bytes} (hrest : Ends rest) :
    takeScalar (x.text ++ rest) = .ok (x.token, rest) := by
  cases x with
  | null => exact takeLiteral_text (utf8 "null") rest .null
  | bool b =>
    cases b
    · exact takeLiteral_text (utf8 "false") rest (.bool false)
    · exact takeLiteral_text (utf8 "true") rest (.bool true)
  | string body =>
    have h := scan_body body rest
    simp only [Scalar.text, Body.quoted, List.cons_append, List.append_assoc, List.nil_append,
      takeScalar, if_true, h]
    rfl
  | number n legal =>
    have hscan := scan_text legal hrest
    obtain ⟨b, s, hs, hb⟩ := head_numeral legal
    have hdispatch : b ≠ quote ∧ b ≠ 't'.toUInt8 ∧ b ≠ 'f'.toUInt8 ∧ b ≠ 'n'.toUInt8 := by
      rcases hb with rfl | hb
      · decide
      · exact ⟨isDigit_ne hb (by decide), isDigit_ne hb (by decide), isDigit_ne hb (by decide),
          isDigit_ne hb (by decide)⟩
    have hnumber : (b = '-'.toUInt8 || isDigit b) = true := by simpa using hb
    obtain ⟨hquote, ht, hf, hn⟩ := hdispatch
    rw [hs, List.cons_append] at hscan
    simp only [Scalar.text, hs, List.cons_append, takeScalar, if_neg hquote, if_neg ht, if_neg hf,
      if_neg hn, if_pos hnumber, hscan]
    rfl

def Wants (r : Reader) (wanted : Wanted) (s : Bytes) : Prop := r.seek = (s, .ok wanted)

theorem next_of_take {r : Reader} {wanted : Wanted} {s rest : Bytes} {token : Token}
    {nesting : List Container} (hseek : r.Wants wanted s)
    (htake : take r.nesting wanted s = .ok (token, nesting, rest)) :
    next r = .ok () { rest, token, origin := s, nesting } := by
  rw [next, hseek]
  simp only [htake]

theorem next_sound {r r' : Reader} {u : Unit} (h : next r = .ok u r') :
    ∃ wanted, r.Wants wanted r'.origin ∧
      take r.nesting wanted r'.origin = .ok (r'.token, r'.nesting, r'.rest) := by
  unfold next at h
  split at h
  · cases h
  · next s wanted hseek =>
    split at h
    · cases h
    · next htake =>
      injection h with _ h
      subst h
      exact ⟨wanted, hseek, htake⟩

theorem take_close (nesting : List Container) (c : Container) (s : Bytes) :
    take nesting (.close c) (c.closing :: s) = .ok (.closed c, nesting.tail, s) := rfl

theorem take_name (nesting : List Container) (body : Body) (rest : Bytes) :
    take nesting .name (body.quoted ++ rest) = .ok (.name body.bytes, nesting, rest) := by
  rw [take, takeName_text]
  rfl

theorem take_scalar (nesting : List Container) (x : Scalar) {rest : Bytes} (hrest : Ends rest) :
    take nesting .value (x.text ++ rest) = .ok (x.token, nesting, rest) := by
  obtain ⟨b, s, hs, -, hopening⟩ := head_scalar x
  have hhead : (x.text ++ rest).head?.bind opening? = none := by rw [hs]; exact hopening
  simp only [take, hhead, takeScalar_text x hrest]
  rfl

theorem opening?_opening (c : Container) : opening? c.opening = some c := by
  cases c <;> rfl

theorem opening?_eq_some {b : UInt8} {c : Container} (h : opening? b = some c) :
    b = c.opening := by
  unfold opening? at h
  split at h
  · next hb =>
    injection h with h
    rw [hb, h]
  · split at h
    · next hb =>
      injection h with h
      rw [hb, h]
    · cases h

theorem take_opening {nesting : List Container} (c : Container) (s : Bytes)
    (hdepth : nesting.length < maxNesting) :
    take nesting .value (c.opening :: s) = .ok (.opened c, c :: nesting, s) := by
  have hhead : (c.opening :: s).head?.bind opening? = some c := opening?_opening c
  simp only [take, hhead, if_neg (Nat.not_le.2 hdepth)]
  rfl

theorem take_name_sound {nesting nesting' : List Container} {s rest : Bytes} {token : Token}
    (h : take nesting .name s = .ok (token, nesting', rest)) :
    ∃ body : Body, token = .name body.bytes ∧ nesting' = nesting ∧
      s = body.quoted ++ rest := by
  cases hn : takeName s with
  | error e => simp [take, hn, Except.map] at h
  | ok r =>
    obtain ⟨body, htoken, hs⟩ := takeName_sound hn
    simp only [take, hn, Except.map, Except.ok.injEq, Prod.mk.injEq] at h
    obtain ⟨rfl, rfl, rfl⟩ := h
    exact ⟨body, htoken, rfl, hs⟩

/-- Where a value is wanted a scalar is read or a container opened, not too deep. -/
theorem take_value_sound {nesting nesting' : List Container} {s rest : Bytes} {token : Token}
    (h : take nesting .value s = .ok (token, nesting', rest)) :
    (∃ x : Scalar, token = x.token ∧ nesting' = nesting ∧ s = x.text ++ rest) ∨
      ∃ c : Container, token = .opened c ∧ nesting' = c :: nesting ∧ s = c.opening :: rest ∧
        nesting.length < maxNesting := by
  unfold take at h
  simp only at h
  split at h
  · next c hc =>
    split at h
    · cases h
    · next hdepth =>
      simp only [Except.ok.injEq, Prod.mk.injEq] at h
      obtain ⟨rfl, rfl, rfl⟩ := h
      cases s with
      | nil => cases hc
      | cons b s =>
        exact .inr ⟨c, rfl, rfl, by rw [opening?_eq_some hc]; rfl, Nat.not_le.1 hdepth⟩
  · cases hs : takeScalar s with
    | error e => simp [hs, Except.map] at h
    | ok r =>
      obtain ⟨x, htoken, htext⟩ := takeScalar_sound hs
      simp only [hs, Except.map, Except.ok.injEq, Prod.mk.injEq] at h
      obtain ⟨rfl, rfl, rfl⟩ := h
      exact .inl ⟨x, htoken, rfl, htext⟩

end HubDevice.Reader
