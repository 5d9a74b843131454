import HubDevice.Json.Token

set_option autoImplicit false

/-!
# A JSON reader

The reader moves over a document one token at a time. `seek` finds the place of the next token and
what may stand there; `take` reads it. A failing `next` keeps the token and the open containers, and
only the position reached by `seek` is lost. Every successful `next` takes at least one byte, so
skipping a value ends.
-/
namespace HubDevice

def maxNesting : Nat := 64

structure Reader where
  rest : Bytes
  token : Token := .start
  /-- The document from the first byte of the current token on. -/
  origin : Bytes
  /-- The open containers, the innermost first. -/
  nesting : List Container := []
  deriving Repr

namespace Reader

def ofBytes (document : Bytes) : Reader :=
  { rest := document, origin := document }

def depth (r : Reader) : Nat := r.nesting.length

def isSpace (b : UInt8) : Bool := b == 32 || b == 9 || b == 10 || b == 13

def skipSpace (s : Bytes) : Bytes := s.dropWhile isSpace

inductive Wanted where
  | value
  | name
  | close (c : Container)
  deriving DecidableEq, Repr

def seekFirst (c : Container) (item : Wanted) (s : Bytes) : Bytes × Except JsonError Wanted :=
  match s with
  | [] => (s, .error .unexpectedEnd)
  | b :: _ => (s, .ok (if b = c.closing then .close c else item))

def seekMember (s : Bytes) : Bytes × Except JsonError Wanted :=
  match s with
  | [] => (s, .error .unexpectedEnd)
  | b :: t => if b = ':'.toUInt8 then (skipSpace t, .ok .value) else (s, .error .unexpectedChar)

def item : Container → Wanted
  | .object => .name
  | .array => .value

def seekNext (nesting : List Container) (s : Bytes) : Bytes × Except JsonError Wanted :=
  match nesting, s with
  | [], [] => (s, .error .readerDone)
  | [], _ :: _ => (s, .error .trailingCharacters)
  | _ :: _, [] => (s, .error .unexpectedEnd)
  | c :: _, b :: t =>
    if b = ','.toUInt8 then (skipSpace t, .ok (item c))
    else if b = c.closing then (s, .ok (.close c))
    else (s, .error .unexpectedChar)

def seek (r : Reader) : Bytes × Except JsonError Wanted :=
  match r.token with
  | .start => (skipSpace r.rest, .ok .value)
  | .opened c => seekFirst c (item c) (skipSpace r.rest)
  | .name _ => seekMember (skipSpace r.rest)
  | _ => seekNext r.nesting (skipSpace r.rest)

def takeLiteral (word : Bytes) (token : Token) (s : Bytes) : Except JsonError (Token × Bytes) :=
  if word.isPrefixOf s then .ok (token, s.drop word.length)
  else if s.isPrefixOf word then .error .unexpectedEnd
  else .error .unexpectedChar

def takeScalar (s : Bytes) : Except JsonError (Token × Bytes) :=
  match s with
  | [] => .error .unexpectedEnd
  | b :: t =>
    if b = StringBody.quote then (StringBody.scan t).map fun (body, rest) => (.string body, rest)
    else if b = 't'.toUInt8 then takeLiteral (utf8 "true") (.bool true) s
    else if b = 'f'.toUInt8 then takeLiteral (utf8 "false") (.bool false) s
    else if b = 'n'.toUInt8 then takeLiteral (utf8 "null") .null s
    else if b = '-'.toUInt8 || isDigit b then
      (Numeral.scan s).map fun (n, rest) => (.number n, rest)
    else .error .unexpectedChar

def takeName (s : Bytes) : Except JsonError (Token × Bytes) :=
  match s with
  | [] => .error .unexpectedEnd
  | b :: t =>
    if b = StringBody.quote then (StringBody.scan t).map fun (body, rest) => (.name body, rest)
    else .error .unexpectedChar

def opening? (b : UInt8) : Option Container :=
  if b = Container.object.opening then some .object
  else if b = Container.array.opening then some .array
  else none

def take (nesting : List Container) (wanted : Wanted) (s : Bytes) :
    Except JsonError (Token × List Container × Bytes) :=
  match wanted with
  | .close c => .ok (.closed c, nesting.tail, s.tail)
  | .name => (takeName s).map fun (token, rest) => (token, nesting, rest)
  | .value =>
    match s.head?.bind opening? with
    | some c =>
      if maxNesting ≤ nesting.length then .error .depthExceeded
      else .ok (.opened c, c :: nesting, s.tail)
    | none => (takeScalar s).map fun (token, rest) => (token, nesting, rest)

def next : EStateM JsonError Reader Unit := fun r =>
  match r.seek with
  | (s, .error e) => .error e { r with rest := s }
  | (s, .ok wanted) =>
    match take r.nesting wanted s with
    | .error e => .error e { r with rest := s }
    | .ok (token, nesting, rest) => .ok () { rest, token, origin := s, nesting }

theorem length_skipSpace (s : Bytes) : (skipSpace s).length ≤ s.length :=
  (List.dropWhile_suffix isSpace).length_le

theorem length_seekMember (s : Bytes) : (seekMember s).1.length ≤ s.length := by
  unfold seekMember
  split
  · simp
  · next b t =>
    have := length_skipSpace t
    split <;> simp only [List.length_cons] <;> omega

theorem length_seekNext (nesting : List Container) (s : Bytes) :
    (seekNext nesting s).1.length ≤ s.length := by
  unfold seekNext
  split <;> try exact Nat.le_refl _
  next b t =>
    have := length_skipSpace t
    split
    · simp only [List.length_cons]
      omega
    · split <;> exact Nat.le_refl _

theorem length_seek (r : Reader) : r.seek.1.length ≤ r.rest.length := by
  have h := length_skipSpace r.rest
  unfold seek
  split
  · exact h
  · unfold seekFirst
    split <;> exact h
  · exact Nat.le_trans (length_seekMember _) h
  · exact Nat.le_trans (length_seekNext _ _) h

theorem seekMember_ne_close (s : Bytes) (c : Container) : (seekMember s).2 ≠ .ok (.close c) := by
  unfold seekMember
  split
  · simp
  · split <;> simp

theorem seekNext_close {nesting : List Container} {s : Bytes} {c : Container}
    (h : (seekNext nesting s).2 = .ok (.close c)) : (seekNext nesting s).1 ≠ [] := by
  match nesting, s with
  | [], [] => simp [seekNext] at h
  | [], _ :: _ => simp [seekNext] at h
  | _ :: _, [] => simp [seekNext] at h
  | d :: _, b :: t =>
    simp only [seekNext] at h ⊢
    split at h
    · cases d <;> simp [item] at h
    · split at h
      · next hcomma hclose =>
        rw [if_neg hcomma, if_pos hclose]
        simp
      · simp at h

/-- A closing bracket is wanted only where some byte stands. -/
theorem seek_close {r : Reader} {c : Container} (h : r.seek.2 = .ok (.close c)) :
    r.seek.1 ≠ [] := by
  unfold seek at h ⊢
  split at h
  · simp at h
  · generalize skipSpace r.rest = s at h ⊢
    cases s with
    | nil => simp [seekFirst] at h
    | cons b t => simp [seekFirst]
  · exact absurd h (seekMember_ne_close _ _)
  · exact seekNext_close h

theorem length_takeLiteral {word s rest : Bytes} {token token' : Token} (hw : word ≠ [])
    (h : takeLiteral word token s = .ok (token', rest)) : rest.length < s.length := by
  unfold takeLiteral at h
  split at h
  · next hp =>
    simp only [Except.ok.injEq, Prod.mk.injEq] at h
    have := (List.isPrefixOf_iff_prefix.1 hp).length_le
    have := List.length_pos_iff.2 hw
    simp only [← h.2, List.length_drop]
    omega
  · split at h <;> cases h

theorem length_takeScalar {s rest : Bytes} {token : Token}
    (h : takeScalar s = .ok (token, rest)) : rest.length < s.length := by
  match s, h with
  | b :: t, h =>
    simp only [takeScalar] at h
    split at h
    · cases hs : StringBody.scan t with
      | error e => simp [hs, Except.map] at h
      | ok r =>
        obtain ⟨body, behind⟩ := r
        have := StringBody.length_scan hs
        simp only [hs, Except.map, Except.ok.injEq, Prod.mk.injEq] at h
        simp only [← h.2, List.length_cons]
        omega
    · split at h
      · exact length_takeLiteral (by decide) h
      · split at h
        · exact length_takeLiteral (by decide) h
        · split at h
          · exact length_takeLiteral (by decide) h
          · split at h
            · cases hs : Numeral.scan (b :: t) with
              | error e => simp [hs, Except.map] at h
              | ok r =>
                obtain ⟨n, behind⟩ := r
                have := Numeral.length_scan hs
                simp only [hs, Except.map, Except.ok.injEq, Prod.mk.injEq] at h
                rw [← h.2]
                exact this
            · cases h

theorem length_takeName {s rest : Bytes} {token : Token}
    (h : takeName s = .ok (token, rest)) : rest.length < s.length := by
  match s, h with
  | b :: t, h =>
    simp only [takeName] at h
    split at h
    · cases hs : StringBody.scan t with
      | error e => simp [hs, Except.map] at h
      | ok r =>
        obtain ⟨body, behind⟩ := r
        have := StringBody.length_scan hs
        simp only [hs, Except.map, Except.ok.injEq, Prod.mk.injEq] at h
        simp only [← h.2, List.length_cons]
        omega
    · cases h

theorem length_take {nesting nesting' : List Container} {wanted : Wanted} {s rest : Bytes}
    {token : Token} (hs : ∀ c, wanted = .close c → s ≠ [])
    (h : take nesting wanted s = .ok (token, nesting', rest)) : rest.length < s.length := by
  have shorter : ∀ {t : Bytes}, t ≠ [] → t.tail.length < t.length := by
    intro t ht
    have := List.length_pos_iff.2 ht
    simp only [List.length_tail]
    omega
  unfold take at h
  split at h
  · next c =>
    simp only [Except.ok.injEq, Prod.mk.injEq] at h
    rw [← h.2.2]
    exact shorter (hs c rfl)
  · cases hn : takeName s with
    | error e => simp [hn, Except.map] at h
    | ok r =>
      obtain ⟨token', behind⟩ := r
      have := length_takeName hn
      simp only [hn, Except.map, Except.ok.injEq, Prod.mk.injEq] at h
      rw [← h.2.2]
      exact this
  · split at h
    · next c hc =>
      split at h
      · cases h
      · simp only [Except.ok.injEq, Prod.mk.injEq] at h
        rw [← h.2.2]
        apply shorter
        intro hnil
        simp [hnil] at hc
    · cases hn : takeScalar s with
      | error e => simp [hn, Except.map] at h
      | ok r =>
        obtain ⟨token', behind⟩ := r
        have := length_takeScalar hn
        simp only [hn, Except.map, Except.ok.injEq, Prod.mk.injEq] at h
        rw [← h.2.2]
        exact this

theorem length_next {r r' : Reader} {u : Unit} (h : next r = .ok u r') :
    r'.rest.length < r.rest.length := by
  unfold next at h
  have hseek := length_seek r
  split at h
  · cases h
  · next s wanted hs =>
    split at h
    · cases h
    · next token nesting rest ht =>
      have := length_take (fun c hc => by
        have := seek_close (r := r) (c := c) (by rw [hs, hc])
        rwa [hs] at this) ht
      rw [hs] at hseek
      injection h with _ h
      rw [← h]
      exact Nat.lt_of_lt_of_le this hseek

/-- Moves on until a closing bracket leaves `depth` containers open. -/
def leave (depth : Nat) (r : Reader) : EStateM.Result JsonError Reader Unit :=
  match _h : next r with
  | .error e r' => .error e r'
  | .ok () r' =>
    if r'.token.isClosed && r'.depth = depth then .ok () r' else leave depth r'
termination_by r.rest.length
decreasing_by exact length_next _h

/-- From an opening bracket to the closing one; other tokens stay. -/
def skipOpened (r : Reader) : EStateM.Result JsonError Reader Unit :=
  match r.token with
  | .opened _ => leave (r.depth - 1) r
  | _ => .ok () r

/-- Moves over the value at hand; from a name first to its value. -/
def skipValue : EStateM JsonError Reader Unit := fun r =>
  if r.token.isName then
    match next r with
    | .error e r' => .error e r'
    | .ok () r' => skipOpened r'
  else skipOpened r

def finish : EStateM JsonError Reader Unit := fun r =>
  if r.depth ≠ 0 || r.token = .start then .error .unexpectedEnd r
  else
    let s := skipSpace r.rest
    if s.isEmpty then .ok () { r with rest := s }
    else .error .trailingCharacters { r with rest := s }

def between (first r : Reader) : Bytes :=
  first.origin.take (first.origin.length - r.rest.length)

theorem length_leave {depth : Nat} {r r' : Reader} {u : Unit} (h : leave depth r = .ok u r') :
    r'.rest.length < r.rest.length := by
  fun_induction leave depth r with
  | case1 => cases h
  | case2 r s hs =>
    cases h
    exact length_next hs
  | case3 r s hs _ ih => exact Nat.lt_trans (ih h) (length_next hs)

theorem length_skipOpened {r r' : Reader} {u : Unit} (h : skipOpened r = .ok u r') :
    r'.rest.length ≤ r.rest.length := by
  unfold skipOpened at h
  split at h
  · exact Nat.le_of_lt (length_leave h)
  · cases h
    exact Nat.le_refl _

theorem length_skipValue {r r' : Reader} {u : Unit} (h : skipValue r = .ok u r') :
    r'.rest.length ≤ r.rest.length := by
  unfold skipValue at h
  split at h
  · split at h
    · cases h
    · next hnext =>
      exact Nat.le_trans (length_skipOpened h) (Nat.le_of_lt (length_next hnext))
  · exact length_skipOpened h

end Reader

end HubDevice
