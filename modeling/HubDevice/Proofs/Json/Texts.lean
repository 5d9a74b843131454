import HubDevice.Proofs.Json.Room
import HubDevice.Proofs.Json.Surrogates
import HubDevice.Proofs.Text.Characters

set_option autoImplicit false

/-!
# What the writer holds is text

The chunks of a primitive are texts, but for the characters of names and strings, whose bytes are
chunks of their own. So what is written is text as long as no such character is cut where the memory
ends. A writer whose memory ends within a character stays as it is.
-/
namespace HubDevice
open Grammar

def Ascii (s : Bytes) : Prop := ∀ b ∈ s, b.toNat < 0x80

instance (s : Bytes) : Decidable (Ascii s) :=
  inferInstanceAs (Decidable (∀ b ∈ s, b.toNat < 0x80))

theorem Ascii.isText {s : Bytes} (h : Ascii s) : IsText s := StringBody.exists_utf8_of_ascii h

theorem Ascii.append {s t : Bytes} (h : Ascii s) (h' : Ascii t) : Ascii (s ++ t) :=
  List.forall_mem_append.2 ⟨h, h'⟩

theorem Ascii.cons {b : UInt8} {s : Bytes} (hb : b.toNat < 0x80) (h : Ascii s) : Ascii (b :: s) :=
  List.forall_mem_cons.2 ⟨hb, h⟩

theorem Ascii.of_subset {s t : Bytes} (h : Ascii t) (hs : s ⊆ t) : Ascii s :=
  fun b hb => h b (hs hb)

theorem ascii_nil : Ascii [] := nofun

theorem isText_singleton {b : UInt8} (h : b.toNat < 0x80) : IsText [b] :=
  Ascii.isText (.cons h ascii_nil)

theorem ascii_of_digits {ds : Bytes} (h : ∀ d ∈ ds, isDigit d = true) : Ascii ds :=
  fun d hd => ascii_of_isHexDigit (by simp [isHexDigit, h d hd])

theorem ascii_digits (n : Nat) : Ascii (Decimal.digits n) :=
  ascii_of_digits fun _ h => Decimal.isDigit_of_mem_digits h

theorem Numeral.ascii_text {n : Numeral} (legal : LegalNumeral n) : Ascii n.text := by
  obtain ⟨negative, whole, fraction, exponent⟩ := n
  have hminus : Ascii (minusText negative) := by
    cases negative
    · exact ascii_nil
    · exact .cons (by decide) ascii_nil
  have hfraction : Ascii (fractionText fraction) := by
    cases fraction with
    | none => exact ascii_nil
    | some ds => exact .cons (by decide) (ascii_of_digits (legal.fraction ds rfl).2)
  have hexponent : Ascii (exponentText exponent) := by
    cases exponent with
    | none => exact ascii_nil
    | some e =>
      have hdigits := ascii_of_digits (legal.exponent e rfl).2
      have hsign : Ascii (signText e.sign) := by
        unfold signText
        split
        · exact ascii_nil
        · exact .cons (by decide) ascii_nil
        · exact .cons (by decide) ascii_nil
      have hletter : Ascii [(if e.upper then 'E' else 'e').toUInt8] := by
        cases e.upper <;> exact .cons (by decide) ascii_nil
      rw [exponentText, exponent_text_eq]
      exact hletter.append (hsign.append hdigits)
  rw [text_eq]
  exact hminus.append ((ascii_of_digits (digit_of_mem_whole legal)).append
    (hfraction.append hexponent))

namespace NumberText

theorem ascii_sign (negative : Bool) : Ascii (sign negative) := by
  cases negative
  · exact ascii_nil
  · exact .cons (by decide) ascii_nil

theorem ascii_zeros (n : Nat) : Ascii (zeros n) := by
  intro b hb
  rw [List.eq_of_mem_replicate hb]
  decide

theorem ascii_integer (n : Int) : Ascii (integer n) :=
  (ascii_sign _).append (ascii_digits _)

theorem ascii_withExponent (d : DecimalPoint) : Ascii (withExponent d) := by
  have hdigits := ascii_digits d.coefficient
  unfold withExponent
  refine .append ?_ (.cons (by decide) (ascii_integer _))
  split
  · next hds =>
    rw [hds] at hdigits
    obtain ⟨hfirst, hothers⟩ := List.forall_mem_cons.1 hdigits
    exact .cons hfirst (.cons (by decide) hothers)
  · exact hdigits

theorem ascii_shortest (p : Positional) (b : Binary) : Ascii (shortest p b) := by
  have hdigits := ascii_digits (Shortest.decimal b).coefficient
  have hpoint : Ascii (utf8 ".0") := by decide +kernel
  have hlead : Ascii (utf8 "0.") := by decide +kernel
  unfold shortest
  refine (ascii_sign _).append ?_
  split
  · decide +kernel
  · dsimp only
    split
    · exact (hdigits.append (ascii_zeros _)).append hpoint
    · split
      · exact (hdigits.of_subset (List.take_subset _ _)).append
          (.cons (by decide) (hdigits.of_subset (List.drop_subset _ _)))
      · split
        · exact (hlead.append (ascii_zeros _)).append hdigits
        · exact ascii_withExponent _

end NumberText

theorem isText_intercalate {sep : Bytes} {parts : List Bytes} (hsep : IsText sep)
    (h : ∀ part ∈ parts, IsText part) : IsText (sep.intercalate parts) := by
  induction parts with
  | nil => exact ⟨"", rfl⟩
  | cons part parts ih =>
    obtain ⟨hpart, hparts⟩ := List.forall_mem_cons.1 h
    cases parts with
    | nil =>
      rw [List.intercalate_singleton]
      exact hpart
    | cons next parts =>
      rw [List.intercalate_cons_cons]
      exact isText_append (isText_append hpart hsep) (ih hparts)

namespace Datum

theorem isText_escaped (s : String) : IsText (escaped s) :=
  StringBody.exists_utf8_quoteBytes StringBody.asciiDigits_upper s

theorem isText_plain (s : String) : IsText (plain s) := ⟨s, rfl⟩

theorem isText_bracketed {c : UInt8 × UInt8} {items : List Bytes} (hopening : c.1.toNat < 0x80)
    (hclosing : c.2.toNat < 0x80) (h : ∀ item ∈ items, IsText item) :
    IsText (bracketed c items) := by
  have hitems := isText_intercalate (isText_singleton (b := ','.toUInt8) (by decide)) h
  exact isText_append (isText_append (isText_singleton hopening) hitems)
    (isText_singleton hclosing)

theorem isText_inQuotes {body : Bytes} (h : IsText body) : IsText (inQuotes body) :=
  have hquote := isText_singleton (b := StringBody.quote) (by decide)
  isText_append (isText_append hquote h) hquote

theorem isText_member {body value : Bytes} (hbody : IsText body) (hvalue : IsText value) :
    IsText (member body value) :=
  have hcolon := isText_singleton (b := ':'.toUInt8) (by decide)
  isText_append (isText_inQuotes hbody) (isText_append hcolon hvalue)

theorem isText_number (p : NumberText.Positional) (b : Option Binary) : IsText (number p b) := by
  cases b with
  | none => exact ⟨"null", rfl⟩
  | some b => exact (NumberText.ascii_shortest p b).isText

mutual

theorem isText_render (d : Datum) : IsText d.render := by
  have hbraces {items : List Bytes} (h : ∀ item ∈ items, IsText item) :
      IsText (bracketed braces items) := isText_bracketed (by decide) (by decide) h
  match d with
  | .null => exact ⟨"null", rfl⟩
  | .bool true => exact ⟨"true", rfl⟩
  | .bool false => exact ⟨"false", rfl⟩
  | .integer n => exact (NumberText.ascii_integer n).isText
  | .single x => exact isText_number .single _
  | .double x => exact isText_number .double _
  | .text s => exact isText_inQuotes (isText_escaped s)
  | .list items => exact isText_bracketed (by decide) (by decide) (isText_renderItems items)
  | .record fields => exact hbraces (isText_renderMembers isText_plain fields)
  | .map entries => exact hbraces (isText_renderMembers isText_escaped entries)
  | .wrapped variant payload =>
    have hmember := isText_member (isText_plain variant) (isText_render payload)
    exact hbraces (by simpa using hmember)
  | .tagged variant fields =>
    have hfields := hbraces (isText_renderMembers isText_plain fields)
    have hmember := isText_member (isText_escaped variant) hfields
    exact hbraces (by simpa using hmember)

theorem isText_renderItems (items : List Datum) : ∀ item ∈ renderItems items, IsText item := by
  match items with
  | [] => exact nofun
  | item :: items =>
    exact List.forall_mem_cons.2 ⟨isText_render item, isText_renderItems items⟩

theorem isText_renderMembers {form : String → Bytes} (hform : ∀ s, IsText (form s))
    (members : List (String × Datum)) : ∀ item ∈ renderMembers form members, IsText item := by
  match members with
  | [] => exact nofun
  | (name, value) :: members =>
    exact List.forall_mem_cons.2 ⟨isText_member (hform name) (isText_render value),
      isText_renderMembers hform members⟩

end

end Datum

/-- Chunks that make up a text. Each is a text itself, or it is a byte of a character that may be
split. -/
inductive Textual (split : Char → Prop) : List Bytes → Prop where
  | nil : Textual split []
  | whole {chunk : Bytes} {chunks : List Bytes} (text : IsText chunk)
    (rest : Textual split chunks) : Textual split (chunk :: chunks)
  | bytewise {c : Char} {chunks : List Bytes} (may : split c) (rest : Textual split chunks) :
    Textual split ((String.utf8EncodeChar c).map ([·]) ++ chunks)

namespace Textual

variable {split : Char → Prop} {chunks more : List Bytes}

theorem singleton {chunk : Bytes} (h : IsText chunk) : Textual split [chunk] := .whole h .nil

theorem append (h : Textual split chunks) (h' : Textual split more) :
    Textual split (chunks ++ more) := by
  induction h with
  | nil => exact h'
  | whole text _ ih => exact .whole text ih
  | bytewise may _ ih =>
    rw [List.append_assoc]
    exact .bytewise may ih

theorem encoded {digit : Nat → UInt8} (hdigit : StringBody.AsciiDigits digit) {cs : List Char}
    (may : ∀ c ∈ cs, split c) :
    Textual split ((cs.flatMap String.utf8EncodeChar).map (StringBody.quoteByte digit)) := by
  induction cs with
  | nil => exact .nil
  | cons c cs ih =>
    obtain ⟨hc, hcs⟩ := List.forall_mem_cons.1 may
    rw [List.flatMap_cons, List.map_append]
    by_cases h : c.toNat ≤ 0x7F
    · have hsize : c.toNat.toUInt8.toNat = c.toNat := StringBody.toNat_toUInt8 (by omega)
      have hbyte := StringBody.quoteByte_ascii hdigit (b := c.toNat.toUInt8) (by omega)
      rw [StringBody.encode_ascii h]
      exact .whole (Ascii.isText hbyte) (ih hcs)
    · have hsame : (String.utf8EncodeChar c).map (StringBody.quoteByte digit) =
          (String.utf8EncodeChar c).map ([·]) :=
        List.map_congr_left fun b hb =>
          StringBody.quoteByte_high digit (StringBody.le_of_mem_encode h hb)
      rw [hsame]
      exact .bytewise hc (ih hcs)

theorem quoted {s : String} (may : ∀ c ∈ s.toList, split c) :
    Textual split (StringBody.quoted s) := by
  have hquote : Textual split [[StringBody.quote]] := singleton (isText_singleton (by decide))
  have hbody := encoded StringBody.asciiDigits_lower may
  exact hquote.append (hbody.append hquote)

end Textual

namespace Buffer

theorem pushAll_bytes_of_overflow {s : Bytes} {b : Buffer} (h : b.free.length < s.length) :
    b.pushAll (s.map ([·])) = (⟨b.written ++ s.take b.free.length, []⟩, false) := by
  induction s generalizing b with
  | nil => cases h
  | cons x s ih =>
    rw [List.map_cons, pushAll, push?]
    cases hfree : b.free with
    | nil =>
      have hb : b = ⟨b.written, []⟩ := by rw [← hfree]
      rw [if_neg (by simp), List.length_nil, List.take_zero, List.append_nil, ← hb]
    | cons y free =>
      rw [hfree] at h
      have hrest := ih (b := ⟨b.written ++ [x], free⟩) (by simpa using h)
      rw [if_pos (by simp)]
      exact hrest.trans (by simp)

/-- How a buffer ends that held a text: it still does, or its memory ends within a character. -/
theorem pushAll_textual {split : Char → Prop} {chunks : List Bytes} (h : Textual split chunks)
    {b : Buffer} (hb : IsText b.written) :
    IsText (b.pushAll chunks).1.written ∨
      (b.pushAll chunks).2 = false ∧ (b.pushAll chunks).1.free = [] ∧
        ∃ c, split c ∧ EndsWithin c (b.pushAll chunks).1.written := by
  induction h generalizing b with
  | nil => exact .inl hb
  | @whole chunk chunks text _ ih =>
    rw [pushAll]
    unfold push?
    split
    · next next hnext =>
      split at hnext
      · cases hnext
        exact ih (isText_append hb text)
      · cases hnext
    · exact .inl hb
  | @bytewise c chunks may _ ih =>
    rw [pushAll_append]
    by_cases hfits : (String.utf8EncodeChar c).length ≤ b.free.length
    · have hflat : ((String.utf8EncodeChar c).map ([·])).flatten = String.utf8EncodeChar c := by
        rw [← List.flatMap_def, List.flatMap_singleton']
      rw [pushAll_of_fits (by rw [hflat]; exact hfits), hflat]
      exact ih (isText_append hb (isText_char c))
    · rw [pushAll_bytes_of_overflow (Nat.lt_of_not_le hfits)]
      cases hfree : b.free with
      | nil =>
        left
        rw [List.length_nil, List.take_zero, List.append_nil]
        exact hb
      | cons x free =>
        right
        rw [hfree] at hfits
        obtain ⟨t, ht⟩ := hb
        have hlength : ((String.utf8EncodeChar c).take (x :: free).length).length =
            (x :: free).length := List.length_take_of_le (Nat.le_of_not_le hfits)
        refine ⟨rfl, rfl, c, may, t, _, by rw [ht], ?_, List.take_prefix _ _, fun hsame => ?_⟩
        · exact List.ne_nil_of_length_eq_add_one hlength
        · rw [hsame] at hlength
          exact hfits (Nat.le_of_eq hlength)

end Buffer

namespace Writer

variable {split : Char → Prop} {action : Action Unit}

theorem textual_separatorAt (place : Place) : Textual split (separatorAt place) := by
  unfold separatorAt
  split
  · exact .singleton (isText_singleton (by decide))
  · exact .nil

theorem textual_floatChunks (x : Float) (places : Nat) : Textual split (floatChunks x places) := by
  unfold floatChunks
  cases hnumber : Binary.ofFloat? x with
  | none => exact .nil
  | some b =>
    obtain ⟨n, legal, htext⟩ := exists_numberText hnumber places
    have hascii := Numeral.ascii_text legal
    rw [htext] at hascii
    exact .singleton hascii.isText

theorem Primitive.textual_chunks {p : Primitive} (composed : ∀ json, p ≠ .raw json)
    (may : ∀ s ∈ p.text?, ∀ c ∈ s.toList, split c) (place : Place) :
    Textual split (p.chunks place) := by
  have hitem {chunks : List Bytes} (h : Textual split chunks) :
      Textual split (separatorAt place ++ chunks) := (textual_separatorAt place).append h
  cases p with
  | opening c => exact hitem (.singleton (isText_singleton (by cases c <;> decide)))
  | closing c => exact .singleton (isText_singleton (by cases c <;> decide))
  | name s =>
    have hcolon : Textual split [[':'.toUInt8]] := .singleton (isText_singleton (by decide))
    exact hitem ((Textual.quoted (may s rfl)).append hcolon)
  | string s => exact hitem (.quoted (may s rfl))
  | int32 n =>
    have hdigits : Textual split [Decimal.digits n.toInt.natAbs] :=
      .singleton (ascii_digits _).isText
    refine hitem (.append ?_ hdigits)
    split
    · exact .singleton (isText_singleton (by decide))
    · exact .nil
  | uint32 n => exact hitem (.singleton (ascii_digits _).isText)
  | float x places => exact hitem (textual_floatChunks x places)
  | bool b => exact hitem (.singleton ⟨_, rfl⟩)
  | null => exact hitem (.singleton ⟨_, rfl⟩)
  | raw json => exact absurd rfl (composed json)
  | datum d => exact hitem (.singleton d.isText_render)

/-- How an action ends that began behind a text: behind a text again, or for want of room within a
character. -/
inductive EndsIn (split : Char → Prop) : Except Error Unit × Writer → Prop where
  | text {result : Except Error Unit} {w : Writer} (h : IsText w.bytes) : EndsIn split (result, w)
  | cut {w : Writer} {c : Char} (may : split c) (full : w.buffer.free = [])
    (within : EndsWithin c w.bytes) : EndsIn split (.error .bufferTooSmall, w)

theorem endsIn_primitive {p : Primitive} (composed : ∀ json, p ≠ .raw json)
    (may : ∀ s ∈ p.text?, ∀ c ∈ s.toList, split c) {w : Writer} (hw : IsText w.bytes) :
    EndsIn split (ends p.action w) := by
  obtain hrefused | ⟨place, depth, happends⟩ := p.refuses_or_appends w.place w.depth
  · rw [ends_eq_error (hrefused w.buffer)]
    exact .text hw
  · have hbuffer := Buffer.pushAll_textual (p.textual_chunks composed may w.place) hw
    rw [ends, happends w.buffer, append]
    rcases hpush : w.buffer.pushAll (p.chunks w.place) with ⟨full, _ | _⟩
    · rw [hpush] at hbuffer
      obtain htext | ⟨-, hfull, c, hc, hwithin⟩ := hbuffer
      · exact .text htext
      · exact .cut hc hfull hwithin
    · rw [hpush] at hbuffer
      obtain htext | ⟨hfailed, -⟩ := hbuffer
      · exact .text htext
      · cases hfailed

theorem endsIn_composed {allowed : Primitive → Prop} (h : Composed allowed action)
    (composed : ∀ p, allowed p → ∀ json, p ≠ .raw json)
    (may : ∀ p, allowed p → ∀ s ∈ p.text?, ∀ c ∈ s.toList, split c) {w : Writer}
    (hw : IsText w.bytes) : EndsIn split (ends action w) := by
  induction h generalizing w with
  | primitive hp => exact endsIn_primitive (composed _ hp) (may _ hp) hw
  | done => exact .text hw
  | refused => exact .text hw
  | @sequence first second _ _ ih ih' =>
    rw [ends_bind]
    have hfirst := ih hw
    rcases hends : ends first w with ⟨_ | _, w'⟩
    · rw [hends] at hfirst
      exact hfirst
    · rw [hends] at hfirst
      cases hfirst with
      | text hw' => exact ih' hw'

def after : List Call → Writer → Writer
  | [], w => w
  | call :: calls, w => after calls (ends call.action w).2

/-- Only a call for it writes a value that is written out already. -/
theorem Call.eq_raw_of_mem_parts {call : Call} {json : Bytes} (h : .raw json ∈ call.parts) :
    call = .primitive (.raw json) := by
  have hcomponent (component : String) : .raw json ∉ componentParts component := by
    simp [componentParts]
  cases call with
  | primitive p => rw [List.mem_singleton.1 h]
  | beginComponent component => exact absurd h (hcomponent component)
  | endComponent => simp [parts] at h
  | beginAcknowledgement a =>
    obtain ⟨component, name, status, version, description⟩ := a
    cases component <;> cases description <;> simp [parts, hcomponent] at h
  | endAcknowledgement component => cases component <;> simp [parts] at h

/-- A call that finds a text is stopped by the end of the memory, within a character of a name or a
string that it writes. -/
structure CutBy (call : Call) (found : Writer) (rest : Bytes) : Prop where
  text : IsText found.bytes
  failed : (ends call.action found).1 = .error .bufferTooSmall
  left : (ends call.action found).2.bytes = rest
  full : rest.length = found.buffer.capacity
  within : ∃ p ∈ call.parts, ∃ s ∈ p.text?, ∃ c ∈ s.toList, EndsWithin c rest

/-- One of the calls was cut, and the others have changed nothing since. -/
def WasCut (calls : List Call) (w : Writer) : Prop :=
  ∃ before call behind, calls = before ++ call :: behind ∧
    CutBy call (after before w) (after calls w).bytes

theorem bytes_after_of_full (calls : List Call) {w : Writer} (h : w.buffer.free = []) :
    (after calls w).bytes = w.bytes := by
  induction calls generalizing w with
  | nil => rfl
  | cons call calls ih =>
    obtain ⟨hcapacity, hbegins⟩ := ends_keeps call w
    have hlength := hbegins.length_le
    unfold Buffer.capacity at hcapacity
    unfold bytes at hlength
    rw [h, List.length_nil] at hcapacity
    have hfree : (ends call.action w).2.buffer.free = [] := List.length_eq_zero_iff.1 (by omega)
    have hsame : w.bytes = (ends call.action w).2.bytes :=
      hbegins.eq_of_length_le (by unfold bytes; omega)
    rw [after, ih hfree, hsame]

theorem endsIn_call {call : Call} (composed : ∀ json, call ≠ .primitive (.raw json)) {w : Writer}
    (hw : IsText w.bytes) :
    EndsIn (fun c => ∃ p ∈ call.parts, ∃ s ∈ p.text?, c ∈ s.toList) (ends call.action w) := by
  refine endsIn_composed (.call call) (fun p hp json hraw => ?_) (fun p hp s hs c hc => ?_) hw
  · rw [hraw] at hp
    exact composed json (Call.eq_raw_of_mem_parts hp)
  · exact ⟨p, hp, s, hs, hc⟩

theorem isText_or_wasCut {calls : List Call}
    (composed : ∀ call ∈ calls, ∀ json, call ≠ .primitive (.raw json)) {w : Writer}
    (hw : IsText w.bytes) : IsText (after calls w).bytes ∨ WasCut calls w := by
  induction calls generalizing w with
  | nil => exact .inl hw
  | cons call calls ih =>
    obtain ⟨hcall, hcalls⟩ := List.forall_mem_cons.1 composed
    have hends := endsIn_call hcall hw
    rcases hresult : ends call.action w with ⟨result, w'⟩
    have hafter : after (call :: calls) w = after calls w' := by rw [after, hresult]
    rw [hresult] at hends
    rw [hafter]
    cases hends with
    | text htext =>
      obtain htext | ⟨before, cutting, behind, rfl, hcut⟩ := ih hcalls htext
      · exact .inl htext
      · refine .inr ⟨call :: before, cutting, behind, rfl, ?_⟩
        rw [hafter, after, hresult]
        exact hcut
    | @cut _ c may full within =>
      obtain ⟨p, hp, s, hs, hc⟩ := may
      have hleft : (after calls w').bytes = w'.bytes := bytes_after_of_full calls full
      have hcapacity := (ends_keeps call w).1
      rw [hresult, Buffer.capacity, full, List.length_nil] at hcapacity
      refine .inr ⟨[], call, calls, rfl, ?_⟩
      rw [hafter, hleft]
      exact {
        text := hw
        failed := congrArg Prod.fst hresult
        left := congrArg (fun ended => ended.2.bytes) hresult
        full := hcapacity
        within := ⟨p, hp, s, hs, c, hc, within⟩ }

/-- Calls that write ASCII texts only leave a text, however little room there is. -/
theorem isText_of_ascii {calls : List Call}
    (composed : ∀ call ∈ calls, ∀ json, call ≠ .primitive (.raw json))
    (ascii : ∀ call ∈ calls, ∀ p ∈ call.parts, ∀ s ∈ p.text?, ∀ c ∈ s.toList, c.toNat ≤ 0x7F)
    (memory : Bytes) : IsText (after calls (onMemory memory)).bytes := by
  obtain htext | ⟨before, call, behind, rfl, hcut⟩ :=
    isText_or_wasCut (w := onMemory memory) composed ⟨"", rfl⟩
  · exact htext
  · obtain ⟨p, hp, s, hs, c, hc, hwithin⟩ := hcut.within
    exact absurd (ascii call (by simp) p hp s hs c hc) hwithin.not_ascii

/-- The text of a writer is what is written, unless the memory ended within a character of a name or
a string; then it is empty from there on. Values that are written out already are left aside. -/
theorem text_exact_iff {calls : List Call}
    (composed : ∀ call ∈ calls, ∀ json, call ≠ .primitive (.raw json)) (memory : Bytes) :
    (utf8 (after calls (onMemory memory)).text = (after calls (onMemory memory)).bytes ↔
      ¬ WasCut calls (onMemory memory)) ∧
    (WasCut calls (onMemory memory) → (after calls (onMemory memory)).text = "") := by
  have hcut (h : WasCut calls (onMemory memory)) :
      ¬ IsText (after calls (onMemory memory)).bytes := by
    obtain ⟨before, call, behind, -, hcut⟩ := h
    obtain ⟨p, hp, s, hs, c, hc, hwithin⟩ := hcut.within
    exact hwithin.not_isText
  refine ⟨utf8_textOrEmpty_iff.trans ⟨fun htext h => hcut h htext, fun h => ?_⟩,
    fun h => textOrEmpty_of_not_isText (hcut h)⟩
  obtain htext | h' := isText_or_wasCut (w := onMemory memory) composed ⟨"", rfl⟩
  · exact htext
  · exact absurd h' h

/-- Two calls find room up to the quote that ends the string. -/
theorem degree_text_exact :
    let calls := [Call.primitive (.string "°"), .primitive .null]
    let w := after calls (onMemory [0, 0, 0])
    (∀ call ∈ calls, ∀ json, call ≠ .primitive (.raw json)) ∧
      (utf8 w.text = w.bytes ↔ ¬ WasCut calls (onMemory [0, 0, 0])) ∧
      (WasCut calls (onMemory [0, 0, 0]) → w.text = "") := by
  have composed : ∀ call ∈ [Call.primitive (.string "°"), .primitive .null], ∀ json,
      call ≠ .primitive (.raw json) := by simp
  exact ⟨composed, text_exact_iff composed [0, 0, 0]⟩

/-- The memory ends within the only character of a string. -/
theorem degree_cut :
    (after [.primitive (.string "°")] (onMemory [0, 0])).bytes = [0x22, 0xC2] ∧
      text? (after [.primitive (.string "°")] (onMemory [0, 0])).bytes = none ∧
      (after [.primitive (.string "°")] (onMemory [0, 0])).text = "" := by
  decide +kernel

end Writer

end HubDevice
