import HubDevice.Json.Streaming
import HubDevice.Proofs.Json.Legality
import HubDevice.Proofs.Json.Surrogates

set_option autoImplicit false

namespace HubDevice

namespace StringBody

variable {σ : Type}

/-- A sink is handed all bytes up to the first escape that stands for nothing. -/
theorem stream_eq (sink : Sink σ) (s : Bytes) :
    stream sink s = (do
      forM (unescape s).1 sink
      if (unescape s).2 then pure () else throw (.json .invalidEscape)) := by
  induction s using unescape.induct with
  | case1 =>
    rw [stream, unescape]
    rfl
  | case2 rest he =>
    rw [stream, unescape, if_pos rfl, if_pos rfl, he]
    rfl
  | case3 rest out n he ih =>
    rw [stream, unescape, if_pos rfl, if_pos rfl, he]
    dsimp only
    rw [ih, List.forM_append, bind_assoc]
  | case4 b rest hb ih =>
    rw [stream, unescape, if_neg hb, if_neg hb, ih]
    dsimp only
    rw [List.forM_cons, bind_assoc]

theorem unescape_plain {s : Bytes} (plain : hasEscape s = false) : unescape s = (s, true) := by
  induction s with
  | nil => rw [unescape]
  | cons b s ih =>
    simp only [hasEscape, List.contains_cons, Bool.or_eq_false_iff, beq_eq_false_iff_ne] at plain
    rw [unescape, if_neg plain.1.symm, ih plain.2]

end StringBody

namespace Sink

open Cursor (matching store)

variable {σ : Type} {sink : Sink σ} {b : UInt8} {out : Bytes} {s s' : σ}

theorem forM_matching (expected out : Bytes) (position : Nat) :
    (out <+: expected.drop position ∧
      (forM out (matching expected) : EStateM Error Nat Unit) position =
        .ok () (position + out.length)) ∨
    (¬ out <+: expected.drop position ∧ ∃ stop,
      (forM out (matching expected) : EStateM Error Nat Unit) position =
        .error .itemNotFound stop) := by
  induction out generalizing position with
  | nil => exact .inl ⟨List.nil_prefix, rfl⟩
  | cons b out ih =>
    by_cases hb : expected[position]? = some b
    · have hstep : matching expected b position = .ok () (position + 1) := if_pos hb
      obtain ⟨hlt, rfl⟩ := List.getElem?_eq_some_iff.1 hb
      rw [forM_cons_of_ok hstep, List.drop_eq_getElem_cons hlt, List.prefix_cons_inj]
      rcases ih (position + 1) with ⟨hfront, hrest⟩ | ⟨hfront, stop, hrest⟩
      · refine .inl ⟨hfront, hrest.trans ?_⟩
        rw [List.length_cons, Nat.add_assoc, Nat.add_comm 1]
      · exact .inr ⟨hfront, stop, hrest⟩
    · have hstep : matching expected b position = .error .itemNotFound position := if_neg hb
      rw [forM_cons_of_error hstep]
      refine .inr ⟨?_, position, rfl⟩
      rintro ⟨rest, hrest⟩
      refine hb ?_
      rw [← List.head?_drop, ← hrest]
      rfl

theorem forM_store (out : Bytes) (b : Buffer) :
    (out.length ≤ b.free.length ∧
      (forM out store : EStateM Error Buffer Unit) b =
        .ok () ⟨b.written ++ out, b.free.drop out.length⟩) ∨
    (b.free.length < out.length ∧ ∃ full,
      (forM out store : EStateM Error Buffer Unit) b = .error .bufferTooSmall full) := by
  induction out generalizing b with
  | nil =>
    refine .inl ⟨Nat.zero_le _, ?_⟩
    rw [List.append_nil]
    rfl
  | cons x out ih =>
    by_cases hroom : 1 ≤ b.free.length
    · have hstep : store x b = .ok () ⟨b.written ++ [x], b.free.drop 1⟩ := by
        unfold store Buffer.push?
        rw [List.length_singleton, if_pos hroom]
      have hrest := ih ⟨b.written ++ [x], b.free.drop 1⟩
      rw [forM_cons_of_ok hstep]
      rw [List.length_drop, List.drop_drop, List.append_assoc, List.singleton_append,
        Nat.add_comm 1] at hrest
      rw [List.length_cons]
      exact hrest.imp (And.imp_left (by omega)) (And.imp_left (by omega))
    · have hstep : store x b = .error .bufferTooSmall b := by
        unfold store Buffer.push?
        rw [List.length_singleton, if_neg hroom]
      rw [forM_cons_of_error hstep, List.length_cons]
      exact .inr ⟨by omega, b, rfl⟩

end Sink

namespace Cursor

open StringBody (stream stream_eq unescape unescape_plain)

variable {c : Cursor} {r : Reader}

theorem Packs.isString (h : Packs c r) : c.isString = r.token.body?.isSome := by
  unfold Cursor.isString
  rw [h.kind]
  cases r.token <;> rfl

/-- At a name or string the cursor has its body at hand and knows whether there are escapes. -/
theorem Packs.body {body : Bytes} (h : Packs c r) (hbody : r.token.body? = some body) :
    c.isString = true ∧ c.slice = body ∧ c.escaped = hasEscape body := by
  refine ⟨by rw [h.isString, hbody]; rfl, ?_, ?_⟩
  · rw [h.slice]
    cases htoken : r.token <;> rw [htoken] at hbody <;> cases hbody <;> rfl
  · rw [h.escaped, Token.escaped, hbody]
    rfl

theorem stream_matching (body : Bytes) (t : String) :
    (match stream (matching (utf8 t)) body 0 with
    | .ok () position => decide (position = (utf8 t).length)
    | .error _ _ => false) = (unescape body == (utf8 t, true)) := by
  rw [stream_eq]
  generalize unescape body = unescaped
  obtain ⟨out, whole⟩ := unescaped
  rcases Sink.forM_matching (utf8 t) out 0 with ⟨hfront, hout⟩ | ⟨hfront, stop, hout⟩
  · rw [bind_of_ok hout]
    rw [List.drop_zero] at hfront
    cases whole with
    | false =>
      have hdiffer : ((out, false) == (utf8 t, true)) = false := by simp
      rw [hdiffer]
      rfl
    | true =>
      have hlength : 0 + out.length = (utf8 t).length ↔ out = utf8 t := by
        rw [Nat.zero_add]
        exact ⟨hfront.eq_of_length, congrArg List.length⟩
      change decide (0 + out.length = (utf8 t).length) = _
      rw [Bool.eq_iff_iff, decide_eq_true_iff, hlength]
      simp
  · have hdiffer : out ≠ utf8 t := by
      rintro rfl
      exact hfront (List.prefix_refl _)
    rw [bind_of_error hout]
    simp [hdiffer]

theorem Packs.isText (h : Packs c r) (t : String) : c.isText t = r.token.isText t := by
  unfold Cursor.isText Token.isText
  cases hbody : r.token.body? with
  | none =>
    rw [h.isString, hbody]
    rfl
  | some body =>
    obtain ⟨hstring, hslice, hescaped⟩ := h.body hbody
    rw [hstring, hslice, hescaped]
    dsimp only
    cases hplain : hasEscape body with
    | true => exact stream_matching body t
    | false =>
      rw [unescape_plain hplain]
      change decide (body = utf8 t) = _
      rw [Bool.eq_iff_iff]
      simp

theorem Packs.text (h : Packs c r) (memory : Bytes) :
    c.text memory = r.token.text memory.length := by
  unfold Cursor.text Token.text
  cases hbody : r.token.body? with
  | none =>
    rw [h.isString, hbody]
    rfl
  | some body =>
    obtain ⟨hstring, hslice, -⟩ := h.body hbody
    rw [hstring, hslice, stream_eq]
    dsimp only
    generalize unescape body = unescaped
    obtain ⟨out, whole⟩ := unescaped
    dsimp only
    rcases Sink.forM_store out ⟨[], memory⟩ with ⟨hfits, hout⟩ | ⟨hlong, full, hout⟩
    · rw [bind_of_ok hout, if_neg (Nat.not_lt.2 hfits)]
      cases whole <;> rfl
    · rw [bind_of_error hout, if_pos hlong]
      rfl

end Cursor

open Grammar in
/-- A body is decoded and compared by what it stands for. One with an unpaired surrogate stands for
nothing, which a buffer as long as the body always brings to light. -/
structure Decodes (body : Bytes) (decode : Bytes → Except Error String) (isText : String → Bool) :
    Prop where
  paired : ¬ Unpaired (units body) → ∃ t : String, Spells body (utf8 t) ∧
    (utf8 t).length ≤ body.length ∧
    (∀ memory, decode memory =
      if (utf8 t).length ≤ memory.length then .ok t else .error .bufferTooSmall) ∧
    ∀ s, isText s = true ↔ s = t
  unpaired : Unpaired (units body) →
    (∀ memory, body.length ≤ memory.length → decode memory = .error (.json .invalidEscape)) ∧
    ∀ s, isText s = false
  readable : ∀ memory, decode memory ≠ .error (.json .invalidUtf8)

namespace Token

open Grammar StringBody

variable {token : Token} {body : Bytes}

theorem text_eq (hbody : token.body? = some body) (capacity : Nat) :
    token.text capacity =
      if capacity < (unescape body).1.length then .error .bufferTooSmall
      else if !(unescape body).2 then .error (.json .invalidEscape)
      else
        match text? (unescape body).1 with
        | some t => .ok t
        | none => .error (.json .invalidUtf8) := by
  cases token <;> cases hbody <;> rfl

theorem isText_eq (hbody : token.body? = some body) (t : String) :
    token.isText t = (unescape body == (utf8 t, true)) := by
  cases token <;> cases hbody <;> rfl

theorem decodes (legal : Body) (hbody : token.body? = some legal.bytes) :
    Decodes legal.bytes (fun memory => token.text memory.length) token.isText := by
  by_cases hunpaired : Unpaired (units legal.bytes)
  · have hbroken : (unescape legal.bytes).2 = false := by
      rw [← Bool.not_eq_true]
      intro hwhole
      exact not_unpaired_of_spells (spells_of_unescape (Prod.ext rfl hwhole)) hunpaired
    have hlength := length_unescape legal.bytes
    refine ⟨fun h => absurd hunpaired h, fun _ => ⟨fun memory hroom => ?_, fun s => ?_⟩,
      fun memory => ?_⟩
    · rw [text_eq hbody, if_neg (by omega), hbroken]
      rfl
    · rw [isText_eq hbody]
      generalize unescape legal.bytes = unescaped at hbroken
      obtain ⟨out, whole⟩ := unescaped
      dsimp only at hbroken
      rw [hbroken]
      simp
    · rw [text_eq hbody, hbroken]
      split <;> simp
  · obtain ⟨out, hspells⟩ := exists_spells legal.escaped hunpaired
    obtain ⟨t, rfl⟩ := Body.exists_text hspells
    have hout := unescape_of_spells hspells
    have hlength := length_unescape legal.bytes
    have htext : ∀ capacity, token.text capacity =
        if (utf8 t).length ≤ capacity then .ok t else .error .bufferTooSmall := by
      intro capacity
      rw [text_eq hbody, hout]
      dsimp only
      by_cases hfits : (utf8 t).length ≤ capacity
      · rw [if_neg (Nat.not_lt.2 hfits), if_pos hfits, text?_utf8]
        rfl
      · rw [if_pos (Nat.not_le.1 hfits), if_neg hfits]
    rw [hout] at hlength
    refine ⟨fun _ => ⟨t, hspells, hlength, fun memory => htext _, fun s => ?_⟩,
      fun h => absurd h hunpaired, fun memory => ?_⟩
    · rw [isText_eq hbody, hout]
      simp only [beq_iff_eq, Prod.mk.injEq, and_true]
      exact ⟨fun h => (utf8_injective h).symm, fun h => by rw [h]⟩
    · rw [htext]
      split <;> simp

/-- How a text is spelled makes no difference. -/
theorem alike {other : Token} {body' t : Bytes} (hbody : token.body? = some body)
    (hother : other.body? = some body') (h : Spells body t) (h' : Spells body' t) :
    other.text = token.text ∧ other.isText = token.isText := by
  refine ⟨funext fun capacity => ?_, funext fun s => ?_⟩
  · rw [text_eq hother, text_eq hbody, unescape_of_spells h, unescape_of_spells h']
  · rw [isText_eq hother, isText_eq hbody, unescape_of_spells h, unescape_of_spells h']

end Token

namespace Tour

/-- Whatever calls were made on a document, a name or string is decoded and compared by what it
stands for, by the token of a reader and by a cursor that streams its bytes. Two that stand for the
same are not told apart. -/
theorem strings_decode (document : Bytes) (moves : List Move) (body : Bytes)
    (hbody : (run Reader.answer moves ⟨.ofBytes document, []⟩).2.current.token.body? = some body) :
    let r := (run Reader.answer moves ⟨.ofBytes document, []⟩).2.current
    let c := (run Cursor.answer moves ⟨.ofBytes document, []⟩).2.current
    c.slice = body ∧ Decodes body (fun memory => r.token.text memory.length) r.token.isText ∧
      Decodes body c.text c.isText ∧
      ∀ (other : Token) (body' t : Bytes), other.body? = some body' → Grammar.Spells body t →
        Grammar.Spells body' t → other.text = r.token.text ∧ other.isText = r.token.isText := by
  intro r c
  obtain ⟨-, habreast, -⟩ := run_abreast (abreast_start document) moves
  have tracks : Cursor.Tracks document c r := habreast.current
  obtain ⟨-, hslice, -⟩ := tracks.packs.body hbody
  obtain ⟨legal, rfl⟩ := (run_legal document moves).1.exists_body hbody
  have hdecodes : Decodes legal.bytes (fun memory => r.token.text memory.length) r.token.isText :=
    Token.decodes legal hbody
  have htext : c.text = fun memory => r.token.text memory.length := funext tracks.packs.text
  have hisText : c.isText = r.token.isText := funext tracks.packs.isText
  refine ⟨hslice, hdecodes, ?_, fun other body' t => Token.alike hbody⟩
  rw [htext, hisText]
  exact hdecodes

def spelled : Bytes := utf8 "[\"\\u0061\\uD83D\\ude00\"]"

theorem spelled_decodes :
    let body := utf8 "\\u0061\\uD83D\\ude00"
    let r := (run Reader.answer [.call .next, .call .next] ⟨.ofBytes spelled, []⟩).2.current
    let c := (run Cursor.answer [.call .next, .call .next] ⟨.ofBytes spelled, []⟩).2.current
    r.token.body? = some body ∧ c.slice = body ∧
      Decodes body (fun memory => r.token.text memory.length) r.token.isText ∧
      Decodes body c.text c.isText ∧
      ∀ (other : Token) (body' t : Bytes), other.body? = some body' → Grammar.Spells body t →
        Grammar.Spells body' t → other.text = r.token.text ∧ other.isText = r.token.isText := by
  intro body r c
  have hbody : r.token.body? = some body := by decide +kernel
  exact ⟨hbody, strings_decode spelled [.call .next, .call .next] body hbody⟩

end Tour

end HubDevice
