import HubDevice.Proofs.Json.Packing
import HubDevice.Proofs.Json.Runs

set_option autoImplicit false

/-!
# Cursor and reader

A cursor stands for a reader: same token, same unread bytes, the containers noted in its word. Then
their calls agree, and the calls of the cursor end in no fault.
-/
namespace HubDevice

namespace Reader

def place (taken : Except JsonError (Token × Bytes)) : EStateM JsonError Reader Unit := fun r =>
  match taken with
  | .error e => .error e r
  | .ok (token, rest) => .ok () { r with rest, token, origin := r.rest }

def settle (wanted : Wanted) : EStateM JsonError Reader Unit := fun r =>
  match take r.nesting wanted r.rest with
  | .error e => .error e r
  | .ok (token, nesting, rest) => .ok () { rest, token, origin := r.rest, nesting }

def proceed (sought : Bytes × Except JsonError Wanted) : EStateM JsonError Reader Unit := fun r =>
  match sought with
  | (s, .error e) => .error e { r with rest := s }
  | (s, .ok wanted) => settle wanted { r with rest := s }

def seekHere (r : Reader) : Bytes × Except JsonError Wanted :=
  match r.token with
  | .start => (r.rest, .ok .value)
  | .opened k => seekFirst k (item k) r.rest
  | .name _ => seekMember r.rest
  | _ => seekNext r.nesting r.rest

theorem next_eq (r : Reader) :
    next r = proceed (seekHere { r with rest := skipSpace r.rest })
      { r with rest := skipSpace r.rest } := by
  have hseek : r.seek = seekHere { r with rest := skipSpace r.rest } := by
    unfold seek seekHere
    cases r.token <;> rfl
  unfold next proceed
  rw [← hseek]
  obtain ⟨s, _ | wanted⟩ := r.seek
  · rfl
  · rfl

theorem settle_name (r : Reader) : settle .name r = place (takeName r.rest) r := by
  unfold settle place take
  cases takeName r.rest <;> rfl

theorem settle_scalar {r : Reader} (h : r.rest.head?.bind opening? = none) :
    settle .value r = place (takeScalar r.rest) r := by
  unfold settle place take
  dsimp only
  rw [h]
  cases takeScalar r.rest <;> rfl

theorem settle_opened {r : Reader} {k : Container} {b : UInt8} {s : Bytes} (hrest : r.rest = b :: s)
    (hopening : opening? b = some k) :
    settle .value r =
      if maxNesting ≤ r.nesting.length then .error .depthExceeded r
      else .ok () ⟨s, .opened k, r.rest, k :: r.nesting⟩ := by
  have hhead : r.rest.head?.bind opening? = some k := by rw [hrest]; exact hopening
  unfold settle take
  dsimp only
  rw [hhead]
  dsimp only
  by_cases hdepth : maxNesting ≤ r.nesting.length
  · rw [if_pos hdepth, if_pos hdepth]
  · rw [if_neg hdepth, if_neg hdepth, hrest]
    rfl

/-- What the current token says about the open containers. -/
structure Poised (r : Reader) : Prop where
  opened : ∀ k, r.token = .opened k → r.nesting.head? = some k
  named : ∀ body, r.token = .name body → r.nesting.head? = some .object

end Reader

namespace Cursor

open Reader (settle place)

/-- The cursor stands for the reader. -/
structure Packs (c : Cursor) (r : Reader) : Prop where
  bounded : c.position ≤ c.document.length
  unread : c.unread = r.rest
  kind : c.kind = r.token.kind
  slice : c.slice = r.token.slice
  escaped : c.escaped = r.token.escaped
  origin : c.document.drop c.start = r.origin
  depth : c.depth = r.nesting.length
  notes : Notes c.containers r.nesting.reverse
  shallow : r.nesting.length ≤ maxNesting

/-- A call of a cursor and a call of a reader give the same. If they fail, the cursor keeps all but
its position. -/
inductive Agrees (c : Cursor) :
    EStateM.Result Stop Cursor Unit → EStateM.Result JsonError Reader Unit → Prop
  | ok {c' : Cursor} {r' : Reader} (document : c'.document = c.document)
    (behind : c.position ≤ c'.position) (packs : Packs c' r') : Agrees c (.ok () c') (.ok () r')
  | refused {e : JsonError} {position : Nat} {r' : Reader} (behind : c.position ≤ position)
    (packs : Packs { c with position } r') :
    Agrees c (.error (.refused e) { c with position }) (.error e r')

variable {c : Cursor} {r : Reader}

theorem Agrees.refuse (h : Packs c r) (e : JsonError) :
    Agrees c (refuse e c) (.error e r) :=
  .refused (Nat.le_refl _) h

theorem Agrees.of_position {position : Nat} {x : EStateM.Result Stop Cursor Unit}
    {y : EStateM.Result JsonError Reader Unit} (behind : c.position ≤ position)
    (h : Agrees { c with position } x y) : Agrees c x y := by
  cases h with
  | ok document behind' packs => exact .ok document (Nat.le_trans behind behind') packs
  | refused behind' packs => exact .refused (Nat.le_trans behind behind') packs

theorem Packs.length_rest (h : Packs c r) : c.position + r.rest.length = c.document.length := by
  have hbounded := h.bounded
  rw [← h.unread, Cursor.unread, List.length_drop]
  omega

theorem Packs.peek? (h : Packs c r) : c.peek? = r.rest.head? := by
  rw [← h.unread]
  exact List.head?_drop.symm

theorem Packs.move {before rest : Bytes} (h : Packs c r) (hrest : r.rest = before ++ rest) :
    Packs (c.move before.length) { r with rest } where
  bounded := by
    have hlength := h.length_rest
    rw [hrest, List.length_append] at hlength
    rw [Cursor.move]
    dsimp only
    omega
  unread := by
    rw [Cursor.unread, Cursor.move, ← List.drop_drop]
    change c.unread.drop before.length = rest
    rw [h.unread, hrest, List.drop_left]
  kind := h.kind
  slice := h.slice
  escaped := h.escaped
  origin := h.origin
  depth := h.depth
  notes := h.notes
  shallow := h.shallow

theorem Packs.skipSpace (h : Packs c r) :
    Packs c.skipSpace { r with rest := Reader.skipSpace r.rest } := by
  rw [Cursor.skipSpace, h.unread]
  exact h.move List.takeWhile_append_dropWhile.symm

theorem cut?_of_le {first n : Nat} (h : first + n ≤ c.document.length) :
    c.cut? first (first + n) = some ((c.document.drop first).take n) := by
  rw [cut?, if_pos ⟨Nat.le_add_right _ _, h⟩, Nat.add_sub_cancel_left]

/-- The cursor behind a token that stood in front of the unread bytes. -/
theorem Packs.take {c' : Cursor} {token : Token} {nesting : List Container} {text rest : Bytes}
    (h : Packs c r) (hrest : r.rest = text ++ rest) (document : c'.document = c.document)
    (position : c'.position = c.position + text.length) (kind : c'.kind = token.kind)
    (slice : c'.slice = token.slice) (escaped : c'.escaped = token.escaped)
    (start : c'.start = c.position) (depth : c'.depth = nesting.length)
    (notes : Notes c'.containers nesting.reverse) (shallow : nesting.length ≤ maxNesting) :
    Packs c' ⟨rest, token, r.rest, nesting⟩ where
  bounded := by
    have hmoved := (h.move hrest).bounded
    rw [document, position]
    exact hmoved
  unread := by
    have hmoved := (h.move hrest).unread
    rw [Cursor.unread, document, position]
    exact hmoved
  kind := kind
  slice := slice
  escaped := escaped
  origin := by
    rw [document, start]
    exact h.unread
  depth := depth
  notes := notes
  shallow := shallow

theorem setToken_agrees {d : Cursor} {nesting : List Container} {rest : Bytes} {last : Nat}
    (token : Token) (h : Packs c r) (plain : token.escaped = false)
    (hrest : r.rest = token.slice ++ rest) (hlast : last = c.position + token.slice.length)
    (document : d.document = c.document) (position : d.position = last)
    (depth : d.depth = nesting.length) (notes : Notes d.containers nesting.reverse)
    (shallow : nesting.length ≤ maxNesting) :
    Agrees c (setToken token.kind c.position last d)
      (.ok () ⟨rest, token, r.rest, nesting⟩) := by
  have hlength := h.length_rest
  rw [hrest, List.length_append] at hlength
  have hcut : d.cut? c.position last = some token.slice := by
    have hunread : c.document.drop c.position = token.slice ++ rest := h.unread.trans hrest
    rw [hlast, cut?_of_le (by rw [document]; omega), document, hunread, List.take_left]
  unfold setToken
  rw [hcut]
  refine .ok document ?_ (h.take hrest document ?_ rfl rfl plain.symm rfl depth notes shallow)
  · dsimp only
    omega
  · dsimp only
    rw [position, hlast]

theorem beginContainer_agrees {k : Container} {b : UInt8} {s : Bytes} (h : Packs c r)
    (hrest : r.rest = b :: s) (hopening : Reader.opening? b = some k) :
    Agrees c (beginContainer k c) (settle .value r) := by
  have hb : b = k.opening := Reader.opening?_eq_some hopening
  rw [Reader.settle_opened hrest hopening]
  unfold beginContainer
  rw [h.depth]
  by_cases hdeep : maxNesting ≤ r.nesting.length
  · rw [if_pos hdeep, if_pos hdeep]
    exact .refuse h _
  · rw [if_neg hdeep, if_neg hdeep]
    have hroom : r.nesting.length < 64 := Nat.not_le.1 hdeep
    obtain ⟨mask, hmask, hvalue⟩ := mask?_of_lt hroom
    rw [hmask]
    -- A reader has the innermost container in front, the word has it in its highest bit.
    have hnotes : Notes (note c.containers mask k) (k :: r.nesting).reverse := by
      rw [List.reverse_cons]
      refine h.notes.opened k ?_ ?_
      · rwa [List.length_reverse]
      · rwa [List.length_reverse]
    rw [hb] at hrest
    exact setToken_agrees (.opened k) h rfl hrest rfl rfl rfl rfl hnotes hroom

theorem endContainer_agrees {k k' : Container} {nesting : List Container} {s : Bytes}
    (h : Packs c r) (hrest : r.rest = k.closing :: s) (hnesting : r.nesting = k' :: nesting) :
    Agrees c (endContainer k c) (settle (.close k) r) := by
  have hsettle : settle (.close k) r = .ok () ⟨s, .closed k, r.rest, nesting⟩ := by
    unfold settle
    rw [hrest, hnesting]
    rfl
  have hdepth : c.depth = nesting.length + 1 := by rw [h.depth, hnesting, List.length_cons]
  have hnotes : Notes c.containers nesting.reverse := by
    have hall := h.notes
    rw [hnesting, List.reverse_cons] at hall
    exact hall.of_append
  have hshallow : nesting.length ≤ maxNesting := by
    have hall := h.shallow
    rw [hnesting, List.length_cons] at hall
    omega
  rw [hsettle]
  unfold endContainer
  rw [hdepth]
  exact setToken_agrees (.closed k) h rfl hrest rfl rfl rfl rfl hnotes hshallow

theorem readString_agrees {kind : Kind} {token : Bytes → Token} {s : Bytes} (h : Packs c r)
    (hrest : r.rest = StringBody.quote :: s) (hkind : ∀ body, (token body).kind = kind)
    (hbody : ∀ body, (token body).slice = body ∧ (token body).escaped = hasEscape body) :
    Agrees c (readString kind c)
      (place ((StringBody.scan s).map fun (body, rest) => (token body, rest)) r) := by
  have hbehind : c.document.drop (c.position + 1) = s := by
    rw [← List.drop_drop]
    change c.unread.drop 1 = s
    rw [h.unread, hrest]
    rfl
  have hlength := h.length_rest
  rw [hrest, List.length_cons] at hlength
  unfold readString StringBody.scan
  dsimp only
  rw [hbehind]
  cases hscan : StringBody.bodyLength s with
  | error e => exact .refuse h e
  | ok n =>
    obtain ⟨body, rest, -, rfl, rfl⟩ := StringBody.bodyLength_sound hscan
    rw [List.length_append, List.length_cons] at hlength
    have hcut : c.cut? (c.position + 1) (c.position + 1 + body.length) = some body := by
      rw [cut?_of_le (by omega), hbehind, List.take_left]
    dsimp only
    rw [hcut, List.take_left]
    dsimp only
    split
    · have htext : r.rest = (StringBody.quote :: body ++ [StringBody.quote]) ++ rest := by
        rw [hrest]
        simp
      have hdrop : (body ++ StringBody.quote :: rest).drop (body.length + 1) = rest := by
        rw [← List.drop_drop, List.drop_left]
        rfl
      rw [hdrop]
      refine .ok rfl ?_ (h.take htext rfl ?_ (hkind body).symm (hbody body).1.symm
        (hbody body).2.symm rfl h.depth h.notes h.shallow)
      · dsimp only
        omega
      · simp only [List.length_append, List.length_cons, List.length_nil]
        omega
    · exact .refuse h _

theorem readLiteral_agrees {word : Bytes} {token : Token} (h : Packs c r)
    (plain : token.escaped = false) (hslice : token.slice = word) :
    Agrees c (readLiteral word token.kind c) (place (Reader.takeLiteral word token r.rest) r) := by
  subst hslice
  have hlength := h.length_rest
  have hcut : c.cut? c.position c.document.length = some r.rest := by
    rw [← hlength, cut?_of_le (by omega)]
    change some (c.unread.take r.rest.length) = _
    rw [h.unread, List.take_length]
  unfold readLiteral Reader.takeLiteral
  rw [hcut]
  dsimp only
  split
  · next hprefix =>
    obtain ⟨rest, hrest⟩ := List.isPrefixOf_iff_prefix.1 hprefix
    have hdrop : r.rest.drop token.slice.length = rest := by rw [← hrest, List.drop_left]
    rw [hdrop]
    exact setToken_agrees token h plain hrest.symm rfl rfl rfl h.depth h.notes h.shallow
  · split <;> exact .refuse h _

theorem readNumber_agrees (h : Packs c r) :
    Agrees c (readNumber c)
      (place ((Numeral.scan r.rest).map fun (n, rest) => (.number n, rest)) r) := by
  have hlength := h.length_rest
  unfold readNumber
  rw [h.unread]
  cases hscan : Numeral.scan r.rest with
  | error e => exact .refuse h e
  | ok taken =>
    obtain ⟨n, rest⟩ := taken
    obtain ⟨-, hrest⟩ := Numeral.scan_sound hscan
    have hlast : c.document.length - rest.length = c.position + n.text.length := by
      rw [hrest, List.length_append] at hlength
      omega
    exact setToken_agrees (.number n) h rfl hrest hlast rfl rfl h.depth h.notes h.shallow

theorem readScalar_agrees {b : UInt8} {s : Bytes} (h : Packs c r) (hrest : r.rest = b :: s) :
    Agrees c (readScalar b c) (place (Reader.takeScalar r.rest) r) := by
  have hliteral : ∀ word token, token.escaped = false → token.slice = word →
      Agrees c (readLiteral word token.kind c)
        (place (Reader.takeLiteral word token (b :: s)) r) := by
    intro word token plain hslice
    rw [← hrest]
    exact readLiteral_agrees h plain hslice
  have hnumber := readNumber_agrees h
  rw [hrest] at hnumber ⊢
  unfold readScalar Reader.takeScalar
  by_cases hquote : b = StringBody.quote
  · rw [if_pos hquote]
    dsimp only
    rw [if_pos hquote]
    rw [hquote] at hrest
    exact readString_agrees h hrest (fun _ => rfl) fun _ => ⟨rfl, rfl⟩
  rw [if_neg hquote]
  dsimp only
  rw [if_neg hquote]
  split
  · exact hliteral _ (.bool true) rfl rfl
  split
  · exact hliteral _ (.bool false) rfl rfl
  split
  · exact hliteral _ .null rfl rfl
  split
  · exact hnumber
  · exact .refuse h _

theorem readValue_agrees (h : Packs c r) : Agrees c (readValue c) (settle .value r) := by
  unfold readValue
  rw [h.peek?]
  cases hrest : r.rest with
  | nil =>
    have hsettle : settle .value r = .error .unexpectedEnd r := by
      rw [Reader.settle_scalar (by rw [hrest]; rfl), hrest]
      rfl
    rw [hsettle]
    exact .refuse h _
  | cons b s =>
    rw [List.head?_cons]
    dsimp only
    cases hopening : Reader.opening? b with
    | some k => exact beginContainer_agrees h hrest hopening
    | none =>
      rw [Reader.settle_scalar (by rw [hrest]; exact hopening)]
      exact readScalar_agrees h hrest

theorem readName_agrees (h : Packs c r) : Agrees c (readName c) (settle .name r) := by
  rw [Reader.settle_name]
  unfold readName
  rw [h.peek?]
  cases hrest : r.rest with
  | nil => exact .refuse h _
  | cons b s =>
    rw [List.head?_cons, Reader.takeName]
    dsimp only
    by_cases hquote : b = StringBody.quote
    · rw [if_pos hquote, if_pos hquote]
      rw [hquote] at hrest
      exact readString_agrees h hrest (fun _ => rfl) fun _ => ⟨rfl, rfl⟩
    · rw [if_neg hquote, if_neg hquote]
      exact .refuse h _

theorem readItem_agrees (h : Packs c r) (k : Container) :
    Agrees c (readItem k c) (settle (Reader.item k) r) := by
  cases k with
  | object => exact readName_agrees h
  | array => exact readValue_agrees h

theorem Packs.moveSpace {b : UInt8} {s : Bytes} (h : Packs c r) (hrest : r.rest = b :: s) :
    Packs (c.move 1).skipSpace { r with rest := Reader.skipSpace s } :=
  Packs.skipSpace (h.move (show r.rest = [b] ++ s from hrest))

theorem afterValue_agrees (h : Packs c r) :
    Agrees c (afterValue c) (Reader.proceed (Reader.seekNext r.nesting r.rest) r) := by
  have hlength := h.length_rest
  have hdepth := h.depth
  unfold afterValue
  cases hnesting : r.nesting with
  | nil =>
    rw [hnesting] at hdepth
    rw [hdepth, List.length_nil]
    dsimp only
    cases hrest : r.rest with
    | nil =>
      rw [hrest, List.length_nil] at hlength
      have hend : c.position = c.document.length := hlength
      rw [if_pos hend, Reader.seekNext, ← hrest]
      exact .refuse h _
    | cons b s =>
      rw [hrest, List.length_cons] at hlength
      have hend : ¬ c.position = c.document.length := by omega
      rw [if_neg hend, Reader.seekNext, ← hrest]
      exact .refuse h _
  | cons k nesting =>
    have hnotes := h.notes
    have hshallow := h.shallow
    rw [hnesting, List.reverse_cons] at hnotes
    rw [hnesting, List.length_cons] at hdepth hshallow
    -- The depth counts the innermost container too, so its bit is that of the one below.
    have hinnermost : c.innermost? nesting.length = some k := by
      rw [← List.length_reverse]
      refine innermost?_of_notes hnotes ?_
      rw [List.length_reverse]
      exact hshallow
    rw [hdepth]
    dsimp only
    rw [hinnermost]
    dsimp only
    rw [h.peek?]
    cases hrest : r.rest with
    | nil =>
      rw [List.head?_nil, Reader.seekNext, ← hrest]
      exact .refuse h _
    | cons b s =>
      rw [List.head?_cons, Reader.seekNext]
      dsimp only
      by_cases hcomma : b = ','.toUInt8
      · rw [if_pos hcomma, if_pos hcomma]
        exact .of_position (position_behind c) (readItem_agrees (h.moveSpace hrest) k)
      rw [if_neg hcomma, if_neg hcomma]
      by_cases hclose : b = k.closing
      · rw [if_pos hclose, if_pos hclose, ← hrest]
        rw [hclose] at hrest
        exact endContainer_agrees h hrest hnesting
      · rw [if_neg hclose, if_neg hclose, ← hrest]
        exact .refuse h _

theorem opened_agrees {k : Container} (h : Packs c r) (hnesting : r.nesting.head? = some k) :
    Agrees c
      (match c.peek? with
      | none => refuse .unexpectedEnd c
      | some b => if b = k.closing then endContainer k c else readItem k c)
      (Reader.proceed (Reader.seekFirst k (Reader.item k) r.rest) r) := by
  obtain ⟨nesting, hnesting⟩ := List.head?_eq_some_iff.1 hnesting
  rw [h.peek?]
  cases hrest : r.rest with
  | nil =>
    rw [List.head?_nil, Reader.seekFirst, ← hrest]
    exact .refuse h _
  | cons b s =>
    rw [List.head?_cons, Reader.seekFirst, ← hrest]
    dsimp only
    by_cases hclose : b = k.closing
    · rw [if_pos hclose, if_pos hclose]
      rw [hclose] at hrest
      exact endContainer_agrees h hrest hnesting
    · rw [if_neg hclose, if_neg hclose]
      exact readItem_agrees h k

theorem name_agrees (h : Packs c r) :
    Agrees c
      (match c.peek? with
      | none => refuse .unexpectedEnd c
      | some b =>
        if b = ':'.toUInt8 then readValue (c.move 1).skipSpace else refuse .unexpectedChar c)
      (Reader.proceed (Reader.seekMember r.rest) r) := by
  rw [h.peek?]
  cases hrest : r.rest with
  | nil =>
    rw [List.head?_nil, Reader.seekMember, ← hrest]
    exact .refuse h _
  | cons b s =>
    rw [List.head?_cons, Reader.seekMember]
    dsimp only
    by_cases hcolon : b = ':'.toUInt8
    · rw [if_pos hcolon, if_pos hcolon]
      exact .of_position (position_behind c) (readValue_agrees (h.moveSpace hrest))
    · rw [if_neg hcolon, if_neg hcolon, ← hrest]
      exact .refuse h _

theorem step_agrees (h : Packs c r) (poised : r.Poised) :
    Agrees c (step c) (Reader.proceed r.seekHere r) := by
  unfold step Reader.seekHere
  rw [h.kind]
  cases htoken : r.token with
  | start => exact readValue_agrees h
  | opened k => exact opened_agrees h (poised.opened k htoken)
  | name body => exact name_agrees h
  | closed _ => exact afterValue_agrees h
  | string _ => exact afterValue_agrees h
  | number _ => exact afterValue_agrees h
  | bool _ => exact afterValue_agrees h
  | null => exact afterValue_agrees h

theorem next_agrees (h : Packs c r) (poised : r.Poised) : Agrees c (next c) (Reader.next r) := by
  rw [Reader.next_eq]
  exact .of_position (Nat.le_add_right _ _)
    (step_agrees h.skipSpace ⟨poised.opened, poised.named⟩)

end Cursor

end HubDevice
