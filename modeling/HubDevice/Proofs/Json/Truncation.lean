import HubDevice.Proofs.Json.Acceptance

set_option autoImplicit false

/-!
# Documents that are cut short

What is read from the beginning of a document is what is read from the whole of it, until the cut is
met. There the reader finds that something is missing, wherever the cut falls. Only a numeral may
run up to the cut and be read short.
-/
namespace HubDevice

/-- How a taker ends on a text that the rest `t` was cut off, and how on the whole text. -/
inductive CutShort {α : Type} (t : Bytes) :
    Except JsonError (α × Bytes) → Except JsonError (α × Bytes) → Prop
  | missing {whole : Except JsonError (α × Bytes)} : CutShort t (.error .unexpectedEnd) whole
  | same {a : α} {rest : Bytes} : CutShort t (.ok (a, rest)) (.ok (a, rest ++ t))
  /-- All that is there was taken. -/
  | upTo {a : α} {whole : Except JsonError (α × Bytes)} : CutShort t (.ok (a, [])) whole

namespace CutShort

variable {α β : Type} {t : Bytes} {cut whole : Except JsonError (α × Bytes)}

theorem map (f : α → β) (h : CutShort t cut whole) :
    CutShort t (cut.map fun (a, rest) => (f a, rest)) (whole.map fun (a, rest) => (f a, rest)) := by
  cases h with
  | missing => exact .missing
  | same => exact .same
  | upTo => exact .upTo

theorem bind {f : α × Bytes → Except JsonError (β × Bytes)} (h : CutShort t cut whole)
    (after : ∀ a rest, whole = .ok (a, rest ++ t) → CutShort t (f (a, rest)) (f (a, rest ++ t)))
    (atEnd : ∀ a, ∃ b, f (a, []) = .ok (b, [])) : CutShort t (cut >>= f) (whole >>= f) := by
  cases h with
  | missing => exact .missing
  | @same a rest => exact after a rest rfl
  | @upTo a =>
    obtain ⟨b, hb⟩ := atEnd a
    have hcut : ((.ok (a, []) : Except JsonError (α × Bytes)) >>= f) = .ok (b, []) := hb
    rw [hcut]
    exact .upTo

end CutShort

namespace StringBody

theorem escapeLength_cut {s t : Bytes} {n : Nat} (h : escapeLength (s ++ t) = .ok n) :
    escapeLength s = .error .unexpectedEnd ∨ escapeLength s = .ok n ∧ n ≤ s.length := by
  cases s with
  | nil => exact .inl rfl
  | cons b s =>
    rw [List.cons_append, escapeLength] at h
    rw [escapeLength]
    split
    · next hb =>
      rw [if_pos hb] at h
      by_cases hshort : s.length < 4
      · exact .inl (if_pos hshort)
      have hlong : ¬ (s ++ t).length < 4 := by
        rw [List.length_append]
        omega
      have htake : (s ++ t).take 4 = s.take 4 := List.take_append_of_le_length (by omega)
      rw [if_neg hlong, htake] at h
      rw [if_neg hshort]
      refine .inr ⟨h, ?_⟩
      split at h
      · cases h
        rw [List.length_cons]
        omega
      · cases h
    · next hb =>
      rw [if_neg hb] at h
      refine .inr ⟨h, ?_⟩
      split at h
      · cases h
        exact Nat.succ_le_succ (Nat.zero_le _)
      · cases h

/-- The closing quote stands in the part that is there, or it is missing. -/
theorem bodyLength_cut {s t : Bytes} {n : Nat} (h : bodyLength (s ++ t) = .ok n) :
    bodyLength s = .error .unexpectedEnd ∨ bodyLength s = .ok n ∧ n < s.length := by
  fun_induction bodyLength s generalizing n with
  | case1 => exact .inl rfl
  | case2 s =>
    rw [List.cons_append, bodyLength, if_pos rfl] at h
    cases h
    exact .inr ⟨rfl, Nat.succ_pos _⟩
  | case3 s e he =>
    rw [List.cons_append, bodyLength, if_neg (by decide), if_pos rfl] at h
    cases hwhole : escapeLength (s ++ t) with
    | error e' =>
      rw [hwhole] at h
      cases h
    | ok k =>
      rcases escapeLength_cut hwhole with hcut | ⟨hcut, -⟩
      · rw [he] at hcut
        exact .inl hcut
      · rw [he] at hcut
        cases hcut
  | case4 s k hk hquote ih =>
    rw [List.cons_append, bodyLength, if_neg (by decide), if_pos rfl] at h
    cases hwhole : escapeLength (s ++ t) with
    | error e' =>
      rw [hwhole] at h
      cases h
    | ok k' =>
      rcases escapeLength_cut hwhole with hcut | ⟨hcut, hle⟩
      · rw [hk] at hcut
        cases hcut
      rw [hk] at hcut
      cases hcut
      rw [hwhole] at h
      dsimp only at h
      rw [List.drop_append_of_le_length hle] at h
      cases hbody : bodyLength (s.drop k ++ t) with
      | error e' =>
        rw [hbody] at h
        cases h
      | ok m =>
        rw [hbody] at h
        cases h
        rcases ih hbody with hcut' | ⟨hcut', hlt⟩
        · rw [hcut']
          exact .inl rfl
        · rw [hcut']
          refine .inr ⟨rfl, ?_⟩
          rw [List.length_drop] at hlt
          dsimp only [List.length_cons]
          omega
  | case5 b s hquote hbackslash hcontrol =>
    rw [List.cons_append, bodyLength, if_neg hquote, if_neg hbackslash, if_pos hcontrol] at h
    cases h
  | case6 b s hquote hbackslash hprintable ih =>
    rw [List.cons_append, bodyLength, if_neg hquote, if_neg hbackslash, if_neg hprintable] at h
    cases hbody : bodyLength (s ++ t) with
    | error e' =>
      rw [hbody] at h
      cases h
    | ok m =>
      rw [hbody] at h
      cases h
      rcases ih hbody with hcut | ⟨hcut, hlt⟩
      · rw [hcut]
        exact .inl rfl
      · rw [hcut]
        exact .inr ⟨rfl, Nat.succ_lt_succ hlt⟩

/-- Whether the bytes of a string are text is asked for behind its closing quote only. -/
theorem scan_cut {s t : Bytes} {r : Bytes × Bytes} (h : scan (s ++ t) = .ok r) :
    CutShort t (scan s) (scan (s ++ t)) := by
  cases hwhole : bodyLength (s ++ t) with
  | error e =>
    rw [scan, hwhole] at h
    cases h
  | ok n =>
    rcases bodyLength_cut hwhole with hcut | ⟨hcut, hlt⟩
    · rw [scan, hcut]
      exact .missing
    · have htake : (s ++ t).take n = s.take n := List.take_append_of_le_length (by omega)
      have hdrop : (s ++ t).drop (n + 1) = s.drop (n + 1) ++ t :=
        List.drop_append_of_le_length hlt
      rw [scan, hwhole] at h
      rw [scan, scan, hwhole, hcut]
      dsimp only at h ⊢
      rw [htake] at h
      rw [htake, hdrop]
      split at h
      · next htext =>
        rw [if_pos htext, if_pos htext]
        exact .same
      · cases h

end StringBody

namespace Numeral

theorem someDigits_cut {s t : Bytes} {r : Bytes × Bytes} (h : someDigits (s ++ t) = .ok r) :
    CutShort t (someDigits s) (someDigits (s ++ t)) := by
  cases s with
  | nil => exact .missing
  | cons b s =>
    rw [List.cons_append, someDigits] at h ⊢
    rw [someDigits]
    split at h
    · next hb =>
      rw [if_pos hb, if_pos hb, List.takeWhile_append, List.dropWhile_append]
      cases hrest : s.dropWhile isDigit with
      | nil => exact .upTo
      | cons c rest =>
        have hsome : (s.takeWhile isDigit).length ≠ s.length := by
          have hsplit : s.takeWhile isDigit ++ c :: rest = s := by
            rw [← hrest, List.takeWhile_append_dropWhile]
          have hlength := congrArg List.length hsplit
          rw [List.length_append, List.length_cons] at hlength
          omega
        rw [if_neg hsome]
        exact .same
    · cases h

theorem scanWhole_cut {s t : Bytes} {r : Bytes × Bytes} (h : scanWhole (s ++ t) = .ok r) :
    CutShort t (scanWhole s) (scanWhole (s ++ t)) := by
  cases s with
  | nil => exact .missing
  | cons b s =>
    rw [List.cons_append, scanWhole] at h ⊢
    rw [scanWhole]
    split at h
    · next hb =>
      rw [if_pos hb, if_pos hb]
      exact .same
    · next hb =>
      rw [if_neg hb, if_neg hb]
      exact someDigits_cut h

theorem scanFraction_cut {s t : Bytes} {r : Option Bytes × Bytes}
    (h : scanFraction (s ++ t) = .ok r) : CutShort t (scanFraction s) (scanFraction (s ++ t)) := by
  cases s with
  | nil => exact .upTo
  | cons b s =>
    rw [List.cons_append, scanFraction] at h ⊢
    rw [scanFraction]
    split at h
    · next hb =>
      rw [if_pos hb, if_pos hb]
      cases hdigits : someDigits (s ++ t) with
      | error e =>
        rw [hdigits] at h
        cases h
      | ok r =>
        rw [← hdigits]
        exact (someDigits_cut hdigits).map some
    · next hb =>
      rw [if_neg hb, if_neg hb]
      exact .same

theorem scanSign_cut {s t : Bytes} (hs : (scanSign s).2 ≠ []) :
    scanSign (s ++ t) = ((scanSign s).1, (scanSign s).2 ++ t) := by
  cases s with
  | nil => exact absurd rfl hs
  | cons b s =>
    rw [List.cons_append, scanSign, scanSign]
    split
    · rfl
    · split <;> rfl

theorem scanExponent_cut {s t : Bytes} {r : Option Exponent × Bytes}
    (h : scanExponent (s ++ t) = .ok r) : CutShort t (scanExponent s) (scanExponent (s ++ t)) := by
  cases s with
  | nil => exact .upTo
  | cons b s =>
    rw [List.cons_append, scanExponent] at h ⊢
    rw [scanExponent]
    split at h
    · next hb =>
      rw [if_pos hb, if_pos hb]
      by_cases hs : (scanSign s).2 = []
      · rw [hs]
        exact .missing
      rw [scanSign_cut hs] at h ⊢
      dsimp only at h ⊢
      cases hdigits : someDigits ((scanSign s).2 ++ t) with
      | error e =>
        rw [hdigits] at h
        cases h
      | ok r =>
        rw [← hdigits]
        exact (someDigits_cut hdigits).map fun ds =>
          some (Exponent.mk (b = 'E'.toUInt8) (scanSign s).1 ds)
    · next hb =>
      rw [if_neg hb, if_neg hb]
      exact .same

theorem scanMinus_cut {s t : Bytes} (hs : s ≠ []) :
    scanMinus (s ++ t) = ((scanMinus s).1, (scanMinus s).2 ++ t) := by
  cases s with
  | nil => exact absurd rfl hs
  | cons b s =>
    rw [List.cons_append, scanMinus, scanMinus]
    split <;> rfl

/-- The parts behind the sign, one after the other. -/
theorem scan_eq (s : Bytes) :
    scan s = (scanWhole (scanMinus s).2 >>= fun w => scanFraction w.2 >>= fun f =>
      scanExponent f.2 >>= fun e => .ok (⟨(scanMinus s).1, w.1, f.1, e.1⟩, e.2)) := rfl

theorem scan_cut {s t : Bytes} {r : Numeral × Bytes} (h : scan (s ++ t) = .ok r) :
    CutShort t (scan s) (scan (s ++ t)) := by
  by_cases hs : s = []
  · subst hs
    exact .missing
  have hsplit := scanMinus_cut (t := t) hs
  rw [scan_eq, hsplit] at h
  rw [scan_eq, scan_eq, hsplit]
  generalize (scanMinus s).1 = negative at h
  generalize (scanMinus s).2 = s at h
  obtain ⟨w, hwhole, h⟩ := bind_eq_ok h
  refine (scanWhole_cut hwhole).bind (fun w' rest hw => ?_) fun w' => ⟨_, rfl⟩
  rw [hwhole] at hw
  cases hw
  obtain ⟨f, hfraction, h⟩ := bind_eq_ok h
  refine (scanFraction_cut hfraction).bind (fun f' rest' hf => ?_) fun f' => ⟨_, rfl⟩
  rw [hfraction] at hf
  cases hf
  obtain ⟨e, hexponent, -⟩ := bind_eq_ok h
  exact (scanExponent_cut hexponent).bind (fun _ _ _ => .same) fun e => ⟨_, rfl⟩

end Numeral

namespace Reader
open Grammar

theorem takeLiteral_cut {word s t : Bytes} {token : Token} {r : Token × Bytes}
    (h : takeLiteral word token (s ++ t) = .ok r) :
    CutShort t (takeLiteral word token s) (takeLiteral word token (s ++ t)) := by
  obtain ⟨token', rest⟩ := r
  obtain ⟨rfl, hword⟩ := takeLiteral_sound h
  rcases List.prefix_or_prefix_of_prefix (List.prefix_append s t) ⟨rest, hword.symm⟩ with
    hshort | ⟨more, rfl⟩
  · by_cases hwhole : word.isPrefixOf s = true
    · have hsame := hshort.eq_of_length_le (List.isPrefixOf_iff_prefix.1 hwhole).length_le
      subst hsame
      have hlone := takeLiteral_text s [] token'
      rw [List.append_nil] at hlone
      rw [hlone]
      exact .upTo
    · rw [takeLiteral, if_neg hwhole, if_pos (List.isPrefixOf_iff_prefix.2 hshort)]
      exact .missing
  · rw [List.append_assoc, takeLiteral_text, takeLiteral_text]
    exact .same

theorem quoted_cut {s t : Bytes} {r : Token × Bytes} (f : Bytes → Token)
    (h : ((StringBody.scan (s ++ t)).map fun (body, rest) => (f body, rest)) = .ok r) :
    CutShort t ((StringBody.scan s).map fun (body, rest) => (f body, rest))
      ((StringBody.scan (s ++ t)).map fun (body, rest) => (f body, rest)) := by
  cases hscan : StringBody.scan (s ++ t) with
  | error e =>
    rw [hscan] at h
    cases h
  | ok r =>
    rw [← hscan]
    exact (StringBody.scan_cut hscan).map f

theorem takeName_cut {s t : Bytes} {r : Token × Bytes} (h : takeName (s ++ t) = .ok r) :
    CutShort t (takeName s) (takeName (s ++ t)) := by
  cases s with
  | nil => exact .missing
  | cons b s =>
    rw [List.cons_append, takeName] at h ⊢
    rw [takeName]
    split at h
    · next hb =>
      rw [if_pos hb, if_pos hb]
      exact quoted_cut .name h
    · cases h

theorem takeScalar_cut {s t : Bytes} {r : Token × Bytes} (h : takeScalar (s ++ t) = .ok r) :
    CutShort t (takeScalar s) (takeScalar (s ++ t)) := by
  cases s with
  | nil => exact .missing
  | cons b s =>
    rw [List.cons_append, takeScalar] at h ⊢
    rw [takeScalar]
    -- The first byte says what is read, and it is there.
    split at h
    · next hb =>
      rw [if_pos hb, if_pos hb]
      exact quoted_cut .string h
    next hquote =>
    rw [if_neg hquote, if_neg hquote]
    split at h
    · next hb =>
      rw [if_pos hb, if_pos hb]
      exact takeLiteral_cut h
    next ht =>
    rw [if_neg ht, if_neg ht]
    split at h
    · next hb =>
      rw [if_pos hb, if_pos hb]
      exact takeLiteral_cut h
    next hf =>
    rw [if_neg hf, if_neg hf]
    split at h
    · next hb =>
      rw [if_pos hb, if_pos hb]
      exact takeLiteral_cut h
    next hn =>
    rw [if_neg hn, if_neg hn]
    split at h
    · next hb =>
      rw [if_pos hb, if_pos hb]
      cases hscan : Numeral.scan (b :: (s ++ t)) with
      | error e =>
        rw [hscan] at h
        cases h
      | ok r =>
        rw [← hscan]
        exact (Numeral.scan_cut hscan).map Token.number
    · cases h

theorem take_nil {nesting : List Container} {wanted : Wanted} (h : ∀ c, wanted ≠ .close c) :
    take nesting wanted [] = .error .unexpectedEnd := by
  cases wanted with
  | value => rfl
  | name => rfl
  | close c => exact absurd rfl (h c)

theorem take_cut {nesting nesting' : List Container} {wanted : Wanted} {s t rest : Bytes}
    {token : Token} (there : ∀ c, wanted = .close c → s ≠ [])
    (h : take nesting wanted (s ++ t) = .ok (token, nesting', rest)) :
    take nesting wanted s = .error .unexpectedEnd ∨
      (∃ left, take nesting wanted s = .ok (token, nesting', left) ∧ rest = left ++ t) ∨
      ∃ short opened, take nesting wanted s = .ok (short, opened, []) := by
  -- A name or a scalar leaves the containers open that were, so its taker alone decides.
  have taken {cut whole : Except JsonError (Token × Bytes)} (hcut : CutShort t cut whole)
      (hwhole : (whole.map fun taken => (taken.1, nesting, taken.2)) =
        .ok (token, nesting', rest)) :
      (cut.map fun taken => (taken.1, nesting, taken.2)) = .error .unexpectedEnd ∨
        (∃ left, (cut.map fun taken => (taken.1, nesting, taken.2)) =
          .ok (token, nesting', left) ∧ rest = left ++ t) ∨
        ∃ short opened, (cut.map fun taken => (taken.1, nesting, taken.2)) =
          .ok (short, opened, []) := by
    cases hcut with
    | missing => exact .inl rfl
    | same =>
      cases hwhole
      exact .inr (.inl ⟨_, rfl, rfl⟩)
    | upTo => exact .inr (.inr ⟨_, _, rfl⟩)
  cases s with
  | nil => exact .inl (take_nil fun c hc => there c hc rfl)
  | cons b s =>
    cases wanted with
    | close c =>
      cases h
      exact .inr (.inl ⟨s, rfl, rfl⟩)
    | name =>
      cases hname : takeName (b :: s ++ t) with
      | error e =>
        rw [take, hname] at h
        cases h
      | ok r => exact taken (takeName_cut hname) h
    | value =>
      have hhead : (b :: s).head?.bind opening? = opening? b := rfl
      have hhead' : (b :: s ++ t).head?.bind opening? = opening? b := rfl
      unfold take at h ⊢
      dsimp only at h ⊢
      rw [hhead'] at h
      rw [hhead]
      cases hopening : opening? b with
      | some c =>
        rw [hopening] at h
        dsimp only at h ⊢
        split at h
        · cases h
        · next hdepth =>
          rw [if_neg hdepth]
          cases h
          exact .inr (.inl ⟨s, rfl, rfl⟩)
      | none =>
        rw [hopening] at h
        dsimp only at h ⊢
        cases hscalar : takeScalar (b :: s ++ t) with
        | error e =>
          rw [hscalar] at h
          cases h
        | ok r => exact taken (takeScalar_cut hscalar) h

def RunsOut (r : Reader) : Prop := r.tokens.2 = .unexpectedEnd ∨ r.tokens.2 = .readerDone

theorem runsOut_of_missing {r r' : Reader} (h : next r = .error .unexpectedEnd r') :
    r.RunsOut := by
  refine .inl ?_
  rw [tokens_of_error h]

theorem RunsOut.before {r r' : Reader} (step : next r = .ok () r') (h : r'.RunsOut) :
    r.RunsOut := by
  unfold RunsOut
  rw [tokens_of_ok step]
  exact h

theorem next_of_missing {r : Reader} {wanted : Wanted} (hseek : r.Wants wanted [])
    (h : ∀ c, wanted ≠ .close c) : next r = .error .unexpectedEnd { r with rest := [] } := by
  rw [next, hseek]
  simp only [take_nil h]

/-- What was read last says where the next token is looked for. -/
theorem token_cases (r : Reader) :
    r.token = .start ∨ (∃ c, r.token = .opened c) ∨ (∃ body, r.token = .name body) ∨
      r.Settled := by
  unfold Settled
  cases r.token <;> simp

/-- Where only blanks are left the reader has come to the end. -/
theorem runsOut_of_blank {r : Reader} (h : skipSpace r.rest = []) : r.RunsOut := by
  have missing (hseek : r.seek = ([], .error .unexpectedEnd)) : r.RunsOut := by
    refine @runsOut_of_missing r { r with rest := [] } ?_
    rw [next, hseek]
  rcases r.token_cases with htoken | ⟨c, htoken⟩ | ⟨body, htoken⟩ | settled
  · have hseek : r.Wants .value [] := by rw [Wants, seek, htoken, h]
    exact runsOut_of_missing (next_of_missing hseek fun _ h => by cases h)
  · exact missing (by rw [seek, htoken, h]; rfl)
  · exact missing (by rw [seek, htoken, h]; rfl)
  · have hseek := seek_of_settled settled
    rw [h] at hseek
    cases hnesting : r.nesting with
    | nil =>
      obtain ⟨r', hend⟩ := readerDone_of_end settled hnesting h
      refine .inr ?_
      rw [tokens_of_error hend]
    | cons c outer =>
      rw [hnesting] at hseek
      exact missing hseek

/-- The reader stands where one on the whole document stands, and `t` was cut off. -/
structure Follows (t : Bytes) (r whole : Reader) : Prop where
  rest : whole.rest = r.rest ++ t
  token : whole.token = r.token
  nesting : whole.nesting = r.nesting

theorem skipSpace_append {s : Bytes} (h : skipSpace s ≠ []) (t : Bytes) :
    skipSpace (s ++ t) = skipSpace s ++ t := by
  have hsome : (skipSpace s).isEmpty = false := by simpa using h
  unfold skipSpace at hsome ⊢
  rw [List.dropWhile_append, hsome, if_neg Bool.false_ne_true]

variable {t : Bytes} {r whole whole' : Reader}

/-- Both look for the same thing, unless there is none in the part that is there. -/
theorem seek_cut {wanted : Wanted} {s : Bytes} (follows : Follows t r whole)
    (some : skipSpace r.rest ≠ []) (wants : whole.Wants wanted s) :
    (∃ lost, r.Wants lost [] ∧ ∀ c, lost ≠ .close c) ∨
      ∃ left, r.Wants wanted left ∧ s = left ++ t ∧ ∀ c, wanted = .close c → left ≠ [] := by
  have hspace : skipSpace whole.rest = skipSpace r.rest ++ t := by
    rw [follows.rest, skipSpace_append some]
  unfold Wants at wants ⊢
  -- Behind a colon or a comma there may be nothing but blanks.
  have behind {lost : Wanted} {u : Bytes} (hlost : ∀ c, lost ≠ .close c)
      (hseek : r.seek = (skipSpace u, .ok lost))
      (hwhole : whole.seek = (skipSpace (u ++ t), .ok lost)) :
      (∃ lost, r.seek = ([], .ok lost) ∧ ∀ c, lost ≠ .close c) ∨
        ∃ left, r.seek = (left, .ok wanted) ∧ s = left ++ t ∧
          ∀ c, wanted = .close c → left ≠ [] := by
    by_cases hu : skipSpace u = []
    · rw [hu] at hseek
      exact .inl ⟨lost, hseek, hlost⟩
    · rw [hwhole, skipSpace_append hu] at wants
      cases wants
      exact .inr ⟨_, hseek, rfl, fun c hc => absurd hc (hlost c)⟩
  cases hs : skipSpace r.rest with
  | nil => exact absurd hs some
  | cons b u =>
    rw [hs] at hspace
    rcases r.token_cases with htoken | ⟨c, htoken⟩ | ⟨body, htoken⟩ | settled
    · have hwhole : whole.seek = (b :: u ++ t, .ok .value) := by
        rw [seek, follows.token, htoken, hspace]
      rw [hwhole] at wants
      cases wants
      refine .inr ⟨b :: u, ?_, rfl, fun _ h => by cases h⟩
      rw [seek, htoken, hs]
    · have hwhole : whole.seek = (b :: u ++ t, .ok (if b = c.closing then .close c else item c)) := by
        rw [seek, follows.token, htoken, hspace]
        rfl
      rw [hwhole] at wants
      cases wants
      refine .inr ⟨b :: u, ?_, rfl, fun _ _ => List.cons_ne_nil b u⟩
      rw [seek, htoken, hs]
      rfl
    · have hseek : r.seek = seekMember (b :: u) := by rw [seek, htoken, hs]
      have hwhole : whole.seek = seekMember (b :: (u ++ t)) := by
        rw [seek, follows.token, htoken, hspace]
        rfl
      by_cases hb : b = ':'.toUInt8
      · rw [seekMember, if_pos hb] at hseek hwhole
        have hvalue : ∀ c, Wanted.value ≠ .close c := fun _ h => by cases h
        exact behind hvalue hseek hwhole
      · rw [hwhole, seekMember, if_neg hb] at wants
        cases wants
    · have settled' : whole.Settled := by
        unfold Settled at settled ⊢
        rw [follows.token]
        exact settled
      have hseek := seek_of_settled settled
      have hwhole := seek_of_settled settled'
      rw [hs] at hseek
      rw [follows.nesting, hspace, List.cons_append] at hwhole
      cases hnesting : r.nesting with
      | nil =>
        rw [hwhole, hnesting] at wants
        cases wants
      | cons c outer =>
        rw [hnesting, seekNext] at hseek hwhole
        by_cases hcomma : b = ','.toUInt8
        · rw [if_pos hcomma] at hseek hwhole
          exact behind (fun _ h => by cases c <;> cases h) hseek hwhole
        · rw [if_neg hcomma] at hseek hwhole
          by_cases hclose : b = c.closing
          · rw [if_pos hclose] at hseek hwhole
            rw [hwhole] at wants
            cases wants
            exact .inr ⟨b :: u, hseek, rfl, fun _ _ => List.cons_ne_nil b u⟩
          · rw [hwhole, if_neg hclose] at wants
            cases wants

/-- The next token is the same, or the reader comes to the end. -/
theorem next_cut (follows : Follows t r whole) (step : next whole = .ok () whole') :
    r.RunsOut ∨ ∃ r', next r = .ok () r' ∧ Follows t r' whole' := by
  by_cases hblank : skipSpace r.rest = []
  · exact .inl (runsOut_of_blank hblank)
  obtain ⟨wanted, hwants, htake⟩ := next_sound step
  rcases seek_cut follows hblank hwants with ⟨lost, hlost, hclose⟩ | ⟨left, hleft, horigin, there⟩
  · exact .inl (runsOut_of_missing (next_of_missing hlost hclose))
  rw [horigin, follows.nesting] at htake
  rcases take_cut there htake with hmissing | ⟨rest, hsame, hrest⟩ | ⟨short, opened, hshort⟩
  · refine .inl (@runsOut_of_missing r { r with rest := left } ?_)
    rw [next, hleft]
    simp only [hmissing]
  · exact .inr ⟨_, next_of_take hleft hsame, hrest, rfl, rfl⟩
  · have hend : RunsOut { rest := [], token := short, origin := left, nesting := opened } :=
      runsOut_of_blank rfl
    exact .inl (hend.before (next_of_take hleft hshort))

/-- Where the whole document ends well, the part of it that is there runs out. -/
theorem runsOut_of_runs {ts : List Token} {e e' : Reader} (runs : Runs 0 whole ts e)
    (hend : next e = .error .readerDone e') (follows : Follows t r whole) : r.RunsOut := by
  induction runs generalizing r with
  | refl whole =>
    obtain ⟨-, -, hrest⟩ := end_of_readerDone hend
    by_cases hblank : skipSpace r.rest = []
    · exact runsOut_of_blank hblank
    · rw [follows.rest, skipSpace_append hblank] at hrest
      exact absurd (List.append_eq_nil_iff.1 hrest).1 hblank
  | next step _ _ ih =>
    rcases next_cut follows step with hout | ⟨r', step', follows'⟩
    · exact hout
    · exact (ih hend follows').before step'

/-- A part of an accepted document, from its beginning on, is accepted itself or is refused for what
it misses, and for no other cause, wherever the cut falls. -/
theorem unexpectedEnd_of_cut (whole p : Bytes) (accepted : (ofBytes whole).tokens.2 = .readerDone)
    (cut : p <+: whole) (refused : (ofBytes p).tokens.2 ≠ .readerDone) :
    (ofBytes p).tokens.2 = .unexpectedEnd := by
  obtain ⟨t, htext⟩ := cut
  obtain ⟨e, e', runs, hend⟩ := runs_of_tokens (c := .readerDone)
    (Prod.ext rfl accepted : (ofBytes whole).tokens = ((ofBytes whole).tokens.1, .readerDone))
  have follows : Follows t (ofBytes p) (ofBytes whole) := ⟨htext.symm, rfl, rfl⟩
  rcases runsOut_of_runs runs hend follows with hmissing | hdone
  · exact hmissing
  · exact absurd hdone refused

/-- The cut falls between the two bytes of one character. -/
theorem unexpectedEnd_within_character :
    (ofBytes (utf8 "[1, \"a°\"]")).tokens.2 = .readerDone ∧
      (utf8 "[1, \"a°\"]").take 7 <+: utf8 "[1, \"a°\"]" ∧
      (ofBytes ((utf8 "[1, \"a°\"]").take 7)).tokens.2 ≠ .readerDone ∧
      (ofBytes ((utf8 "[1, \"a°\"]").take 7)).tokens.2 = .unexpectedEnd := by
  have accepted : (ofBytes (utf8 "[1, \"a°\"]")).tokens.2 = .readerDone := by decide +kernel
  have refused : (ofBytes ((utf8 "[1, \"a°\"]").take 7)).tokens.2 ≠ .readerDone := by
    decide +kernel
  have cut : (utf8 "[1, \"a°\"]").take 7 <+: utf8 "[1, \"a°\"]" := List.take_prefix _ _
  exact ⟨accepted, cut, refused, unexpectedEnd_of_cut _ _ accepted cut refused⟩

end Reader

end HubDevice
