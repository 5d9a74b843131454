import HubDevice.Proofs.Json.Room
import HubDevice.Proofs.Text.Characters
import HubDevice.Proofs.Text.Cutting
import HubDevice.Topic.Memory

set_option autoImplicit false

/-!
# Lists of properties

A list holds the pairs among the segments of its text. Whatever is entered, the text stays within
its memory, and a pair that was not taken in leaves no trace in it. The pairs taken in stand behind
those of the first text, whatever that was.
-/
namespace HubDevice

namespace Buffer

theorem free_pushAll (b : Buffer) (chunks : List Bytes) :
    (b.pushAll chunks).1.free <:+ b.free := by
  induction chunks generalizing b with
  | nil => exact List.suffix_refl _
  | cons chunk chunks ih =>
    rw [pushAll]
    cases hpush : b.push? chunk with
    | none => exact List.suffix_refl _
    | some next =>
      unfold push? at hpush
      split at hpush
      · cases hpush
        exact (ih _).trans (List.drop_suffix _ _)
      · cases hpush

/-- All chunks are appended, or a beginning of them if there is not room for all. -/
theorem put_cases (chunks : List Bytes) (b : Buffer) :
    (chunks.flatten.length ≤ b.free.length ∧ put chunks b =
      .ok () ⟨b.written ++ chunks.flatten, b.free.drop chunks.flatten.length⟩) ∨
    (b.free.length < chunks.flatten.length ∧ ∃ front, front <+: chunks.flatten ∧
      front.length ≤ b.free.length ∧
      put chunks b = .error .bufferTooSmall ⟨b.written ++ front, b.free.drop front.length⟩) := by
  unfold put
  by_cases hfits : chunks.flatten.length ≤ b.free.length
  · rw [pushAll_of_fits hfits]
    exact .inl ⟨hfits, rfl⟩
  · obtain ⟨⟨written, free⟩, hpush, hcapacity, ⟨front, rfl⟩, hfront⟩ :=
      pushAll_of_overflow (Nat.lt_of_not_le hfits)
    have hfree : free <:+ b.free := by
      have hsuffix := free_pushAll b chunks
      rwa [hpush] at hsuffix
    have hlength : front.length + free.length = b.free.length := by
      simp only [capacity, List.length_append] at hcapacity
      omega
    have hrest : free = b.free.drop front.length := by
      rw [List.suffix_iff_eq_drop.1 hfree, ← hlength, Nat.add_sub_cancel]
    rw [hpush]
    refine .inr ⟨Nat.lt_of_not_le hfits, front, (List.prefix_append_right_inj _).1 hfront,
      by omega, ?_⟩
    rw [← hrest]

/-- Filling a buffer puts the chunks into it and gives up what was begun. -/
theorem fill_eq_put (b : Buffer) (chunks : List Bytes) :
    b.fill chunks =
      match put chunks b with
      | .ok _ full => .ok full
      | .error e _ => .error e := by
  unfold fill put
  generalize b.pushAll chunks = pushed
  obtain ⟨full, whole⟩ := pushed
  cases whole <;> rfl

theorem length_contents (b : Buffer) : b.contents.length = b.capacity := List.length_append

end Buffer

namespace Properties

/-- The first segment and those behind it. Behind the last one there is no pair. -/
theorem exists_segments (s : List Char) : ∃ others,
    Split.segments '&' s = (segment s).1 :: others ∧
      others.filterMap Query.pair? =
        (Split.segments '&' (segment s).2).filterMap Query.pair? := by
  unfold segment
  cases hcut : Split.cut? ['&'] s with
  | some parts =>
    obtain ⟨before, behind⟩ := parts
    obtain ⟨rfl, absent⟩ := Split.cut?_singleton_eq_some_iff.1 hcut
    exact ⟨_, Split.segments_append absent behind, rfl⟩
  | none =>
    exact ⟨[], Split.segments_of_not_mem (Split.cut?_singleton_eq_none_iff.1 hcut), rfl⟩

/-- The segments that are pairs, in order. -/
theorem pairs_eq (s : List Char) : pairs s = (Split.segments '&' s).filterMap Query.pair? := by
  induction s using pairs.induct with
  | case1 =>
    rw [pairs, dif_pos rfl]
    rfl
  | case2 s h _ pair hpair ih =>
    obtain ⟨others, hsegments, hothers⟩ := exists_segments s
    rw [pairs, dif_neg h, hpair, hsegments, List.filterMap_cons_some hpair, hothers, ← ih]
  | case3 s h _ hpair ih =>
    obtain ⟨others, hsegments, hothers⟩ := exists_segments s
    rw [pairs, dif_neg h, hpair, hsegments, List.filterMap_cons_none hpair, hothers, ← ih]

theorem pairs_parted (s t : List Char) : pairs (s ++ '&' :: t) = pairs s ++ pairs t := by
  rw [pairs_eq, pairs_eq, pairs_eq, Split.segments_parted, List.filterMap_append]

theorem pairs_single {name value : List Char} (hname : '=' ∉ name ∧ '&' ∉ name)
    (hvalue : '&' ∉ value) : pairs (name ++ '=' :: value) = [(name, value)] := by
  have hplain : '&' ∉ name ++ '=' :: value := by simp [hname.2, hvalue]
  have hpair : Query.pair? (name ++ '=' :: value) = some (name, value) :=
    Split.cut?_singleton_eq_some_iff.2 ⟨rfl, hname.1⟩
  rw [pairs_eq, Split.segments_of_not_mem hplain, List.filterMap_cons, hpair]
  rfl

def pairsOf (s : String) : List (String × String) :=
  (pairs s.toList).map fun (name, value) => (String.ofList name, String.ofList value)

theorem toList_eq (p : Properties) : p.toList = pairsOf p.text := rfl

def joined (s t : String) : String := if s = "" then t else s ++ "&" ++ t

def pairText (name value : String) : String := name ++ "=" ++ value

theorem pairsOf_joined (s t : String) : pairsOf (joined s t) = pairsOf s ++ pairsOf t := by
  unfold joined
  split
  · next h =>
    have hempty : pairsOf "" = [] := by
      rw [pairsOf, String.toList_empty, pairs, dif_pos rfl]
      rfl
    rw [h, hempty]
    rfl
  · have hmark : "&".toList = ['&'] := by decide
    rw [pairsOf, String.toList_append, String.toList_append, hmark, List.append_assoc,
      List.singleton_append, pairs_parted, List.map_append]
    rfl

theorem pairsOf_pairText {name value : String} (hname : '=' ∉ name.toList ∧ '&' ∉ name.toList)
    (hvalue : '&' ∉ value.toList) : pairsOf (pairText name value) = [(name, value)] := by
  have hmark : "=".toList = ['='] := by decide
  rw [pairsOf, pairText, String.toList_append, String.toList_append, hmark, List.append_assoc,
    List.singleton_append, pairs_single hname hvalue, List.map_singleton]
  dsimp only
  rw [String.ofList_toList, String.ofList_toList]

/-- The list lies in a memory of this size and is a text. -/
structure Sound (size : Nat) (p : Properties) : Prop where
  capacity : p.buffer.capacity = size
  isText : IsText p.buffer.written

variable {size : Nat} {p q : Properties} {name value : String}

theorem Sound.utf8_text (h : p.Sound size) : utf8 p.text = p.buffer.written :=
  utf8_textOrEmpty_iff.2 h.isText

theorem Sound.length_eq_zero_iff (h : p.Sound size) : p.length = 0 ↔ p.text = "" := by
  have hwritten : p.length = (utf8 p.text).length := congrArg List.length h.utf8_text.symm
  rw [hwritten, List.length_eq_zero_iff]
  exact ⟨fun hnil => utf8_injective hnil, fun htext => by rw [htext]; rfl⟩

theorem Sound.length_le (h : p.Sound size) : p.length ≤ size := by
  rw [← h.capacity]
  exact Nat.le_add_right _ _

theorem Sound.take_contents (h : p.Sound size) :
    p.buffer.contents.take p.length = utf8 p.text := by
  rw [h.utf8_text]
  exact List.take_left

/-- Behind a list a pair is written as joined to its text. -/
theorem Sound.flatten_pieces (h : p.Sound size) (name value : String) :
    p.buffer.written ++ (p.pieces name value).flatten =
      utf8 (joined p.text (pairText name value)) := by
  unfold pieces joined pairText
  by_cases hempty : p.length = 0
  · rw [if_pos hempty, if_pos (h.length_eq_zero_iff.1 hempty), List.length_eq_zero_iff.1 hempty,
      utf8_append, utf8_append]
    simp
  · rw [if_neg hempty, if_neg (mt h.length_eq_zero_iff.2 hempty), ← h.utf8_text]
    simp [utf8_append]

def space (p : Properties) (name value : String) : Nat :=
  (if p.length = 0 then 0 else 1) + (utf8 name).length + 1 + (utf8 value).length

theorem length_pieces (p : Properties) (name value : String) :
    (p.pieces name value).flatten.length = p.space name value := by
  have hjoint : (utf8 "&").length = 1 := by decide
  have hmark : (utf8 "=").length = 1 := by decide
  unfold pieces space
  split
  · simp [hmark]
    omega
  · simp [hjoint, hmark]
    omega

/-- All that entering a pair can do. -/
theorem enter_cases (name value : String) (p : Properties) :
    ((name = "" ∨ value = "") ∧ enter name value p = .error .invalidArgument p) ∨
    (name ≠ "" ∧ value ≠ "" ∧ p.space name value ≤ p.buffer.free.length ∧
      enter name value p = .ok () ⟨⟨p.buffer.written ++ (p.pieces name value).flatten,
        p.buffer.free.drop (p.space name value)⟩⟩) ∨
    (p.buffer.free.length < p.space name value ∧
      ∃ q, enter name value p = .error .bufferTooSmall q ∧
        q.buffer.written = p.buffer.written ∧ q.buffer.capacity = p.buffer.capacity) := by
  unfold enter
  by_cases hempty : name = "" ∨ value = ""
  · have hcheck : (name.isEmpty || value.isEmpty) = true := by simpa using hempty
    rw [if_pos hcheck]
    exact .inl ⟨hempty, rfl⟩
  · have hcheck : ¬ (name.isEmpty || value.isEmpty) = true := by simpa using hempty
    rw [not_or] at hempty
    rw [if_neg hcheck]
    rcases Buffer.put_cases (p.pieces name value) p.buffer with
      ⟨hfits, hput⟩ | ⟨hover, front, -, hroom, hput⟩
    · rw [hput, length_pieces]
      rw [length_pieces] at hfits
      exact .inr (.inl ⟨hempty.1, hempty.2, hfits, rfl⟩)
    · rw [hput]
      rw [length_pieces] at hover
      -- What was begun lies behind the list, which has kept its length.
      refine .inr (.inr ⟨hover, _, rfl, ?_, ?_⟩)
      · change ((p.buffer.written ++ front) ++ _).take p.buffer.written.length = _
        rw [List.append_assoc, List.take_left]
      · simp only [onMemory, Buffer.contents, Buffer.capacity, List.length_take, List.length_drop,
          List.length_append, length, Buffer.length]
        omega

/-- A pair that is refused changes nothing that can be read. -/
theorem written_of_enter_error {e : Error} (h : enter name value p = .error e q) :
    q.buffer.written = p.buffer.written ∧ q.buffer.capacity = p.buffer.capacity := by
  rcases enter_cases name value p with
    ⟨-, hrefused⟩ | ⟨-, -, -, hok⟩ | ⟨-, q', hover, hwritten, hcapacity⟩
  · rw [hrefused] at h
    cases h
    exact ⟨rfl, rfl⟩
  · rw [hok] at h
    cases h
  · rw [hover] at h
    cases h
    exact ⟨hwritten, hcapacity⟩

theorem written_of_enter_ok (hsound : p.Sound size) (h : enter name value p = .ok () q) :
    q.buffer.written = utf8 (joined p.text (pairText name value)) ∧
      q.buffer.capacity = p.buffer.capacity := by
  rcases enter_cases name value p with ⟨-, hrefused⟩ | ⟨-, -, hfits, hok⟩ | ⟨-, q', hover, -⟩
  · rw [hrefused] at h
    cases h
  · rw [hok] at h
    cases h
    refine ⟨hsound.flatten_pieces name value, ?_⟩
    simp only [Buffer.capacity, List.length_append, List.length_drop, length_pieces]
    omega
  · rw [hover] at h
    cases h

theorem enter_ok_iff (hsound : p.Sound size) (name value : String) :
    (∃ q, enter name value p = .ok () q) ↔
      name ≠ "" ∧ value ≠ "" ∧ p.length + p.space name value ≤ size := by
  have hfree : p.length + p.buffer.free.length = size := hsound.capacity
  rcases enter_cases name value p with ⟨hempty, hrefused⟩ | ⟨hname, hvalue, hfits, hok⟩ |
    ⟨hover, q', herror, -⟩
  · rw [hrefused]
    refine iff_of_false nofun ?_
    rintro ⟨hname, hvalue, -⟩
    exact hempty.elim hname hvalue
  · rw [hok]
    exact iff_of_true ⟨_, rfl⟩ ⟨hname, hvalue, by omega⟩
  · rw [herror]
    exact iff_of_false nofun fun h => by omega

theorem text_of_written {t : String} (h : p.buffer.written = utf8 t) : p.text = t := by
  rw [text, h, textOrEmpty, text?_utf8]
  rfl

/-- A text at the beginning of a memory can be taken for a list. -/
theorem ofEncoded_leading (s : String) (rest : Bytes) :
    ofEncoded (utf8 s ++ rest) (utf8 s).length = .ok ⟨⟨utf8 s, rest⟩⟩ := by
  have hroom : ¬ (utf8 s ++ rest).length < (utf8 s).length := by
    rw [List.length_append]
    omega
  rw [ofEncoded, if_neg hroom, List.take_left, text?_utf8, List.drop_left]

theorem append_eq (p : Properties) (name value : String) :
    p.append name value =
      match enter name value p with
      | .ok _ q => .ok q
      | .error e _ => .error e := by
  unfold append enter
  split
  · rfl
  · change (p.buffer.fill (p.pieces name value)).map Properties.mk = _
    rw [Buffer.fill_eq_put]
    cases Buffer.put (p.pieces name value) p.buffer <;> rfl

/-- Looking for a name finds the first pair with it. -/
theorem find?_eq (p : Properties) (name : String) : p.find? name = p.toList.lookup name := by
  unfold find?
  induction p.toList with
  | nil => rfl
  | cons pair pairs ih =>
    obtain ⟨key, value⟩ := pair
    rw [List.find?_cons, List.lookup_cons]
    by_cases hkey : key = name
    · rw [decide_eq_true hkey, beq_iff_eq.2 hkey.symm]
      rfl
    · rw [decide_eq_false hkey, beq_eq_false_iff_ne.2 (Ne.symm hkey)]
      exact ih

/-- The lists to begin with over a memory: an empty one, or the text that stands in it already. -/
inductive Starts (memory : Bytes) : Properties → Prop
  | empty : Starts memory (empty ⟨[], memory⟩)
  | encoded {length : Nat} {p : Properties} (h : ofEncoded memory length = .ok p) : Starts memory p

theorem Starts.sound {memory : Bytes} (h : Starts memory p) : p.Sound memory.length := by
  cases h with
  | empty => exact ⟨Nat.zero_add _, ⟨"", rfl⟩⟩
  | @encoded length _ h =>
    unfold ofEncoded at h
    split at h
    · cases h
    · split at h
      · next t ht =>
        cases h
        refine ⟨?_, t, text?_eq_some_iff.1 ht⟩
        change (memory.take length).length + (memory.drop length).length = _
        rw [← List.length_append, List.take_append_drop]
      · cases h

/-- One more pair leaves the list sound, be it taken in or not. -/
theorem Sound.after (h : p.Sound size) (pair : String × String) : (p.after pair).Sound size := by
  unfold Properties.after
  cases henter : enter pair.1 pair.2 p with
  | ok _ q =>
    obtain ⟨hwritten, hcapacity⟩ := written_of_enter_ok h henter
    exact ⟨hcapacity.trans h.capacity, _, hwritten.symm⟩
  | error e q =>
    obtain ⟨hwritten, hcapacity⟩ := written_of_enter_error henter
    refine ⟨hcapacity.trans h.capacity, ?_⟩
    dsimp only
    rw [hwritten]
    exact h.isText

theorem Sound.entered (h : p.Sound size) (calls : List (String × String)) :
    (calls.foldl Properties.after p).Sound size := by
  induction calls generalizing p with
  | nil => exact h
  | cons pair calls ih => exact ih (h.after pair)

/-- The separators of a list do not stand where they would be taken for such. -/
def Parted (pair : String × String) : Prop :=
  ('=' ∉ pair.1.toList ∧ '&' ∉ pair.1.toList) ∧ '&' ∉ pair.2.toList

/-- A pair that is refused leaves the pairs alone, one that is taken in comes last. -/
theorem toList_entered (h : p.Sound size) {calls : List (String × String)}
    (parted : ∀ pair ∈ calls, Parted pair) :
    (calls.foldl Properties.after p).toList = p.toList ++ p.taken calls := by
  induction calls generalizing p with
  | nil => exact (List.append_nil _).symm
  | cons pair calls ih =>
    obtain ⟨hpair, hcalls⟩ := List.forall_mem_cons.1 parted
    have hsound := h.after pair
    have hrest := ih hsound hcalls
    rw [List.foldl_cons, hrest, taken]
    unfold Properties.after
    cases henter : enter pair.1 pair.2 p with
    | ok _ q =>
      have htext := text_of_written (written_of_enter_ok h henter).1
      dsimp only
      rw [toList_eq q, htext, pairsOf_joined, pairsOf_pairText hpair.1 hpair.2, ← toList_eq,
        List.append_assoc]
      rfl
    | error e q =>
      have hwritten := (written_of_enter_error henter).1
      dsimp only
      rw [toList_eq q, text, hwritten]
      rfl

/-- Whatever list one begins with and whatever is entered, the list is the text at the front of its
memory. A pair is taken in if it has a name and a value and there is room for it, and else nothing
that can be read changes. Pairs whose parts can be told apart stand in the list behind those that it
began with, in the order in which they were taken in. -/
theorem entries_kept {memory : Bytes} {start : Properties} (h : Starts memory start)
    (calls : List (String × String)) :
    let p := calls.foldl after start
    (p.length ≤ memory.length ∧ p.buffer.contents.length = memory.length ∧
      p.buffer.contents.take p.length = utf8 p.text) ∧
    (∀ name value,
      (p.append name value =
        match enter name value p with
        | .ok _ q => .ok q
        | .error e _ => .error e) ∧
      (∀ e q, enter name value p = .error e q →
        q.length = p.length ∧ q.text = p.text ∧ q.toList = p.toList ∧ q.find? = p.find?) ∧
      ((∃ q, enter name value p = .ok () q) ↔
        name ≠ "" ∧ value ≠ "" ∧ p.length + p.space name value ≤ memory.length)) ∧
    ((∀ pair ∈ calls, Parted pair) →
      p.toList = start.toList ++ start.taken calls ∧
      ∀ name, p.find? name = (start.toList ++ start.taken calls).lookup name) := by
  intro p
  have hsound : p.Sound memory.length := h.sound.entered calls
  refine ⟨⟨hsound.length_le, ?_, hsound.take_contents⟩, fun name value =>
    ⟨append_eq p name value, fun e q herror => ?_, enter_ok_iff hsound name value⟩,
    fun parted => ?_⟩
  · rw [Buffer.length_contents, hsound.capacity]
  · have hwritten := (written_of_enter_error herror).1
    have htext : q.text = p.text := congrArg textOrEmpty hwritten
    have hlist : q.toList = p.toList := congrArg pairsOf htext
    refine ⟨congrArg List.length hwritten, htext, hlist, funext fun key => ?_⟩
    rw [find?_eq, find?_eq, hlist]
  · have hlist := toList_entered h.sound parted
    refine ⟨hlist, fun name => ?_⟩
    rw [find?_eq, hlist]

def ragged : Properties := ⟨⟨utf8 "x&&a=1&", List.replicate 6 0⟩⟩

theorem ragged_starts : Starts ragged.buffer.contents ragged := by
  have hlength : ragged.buffer.contents.length = 13 := by decide
  have hfront : ragged.buffer.contents.take 7 = utf8 "x&&a=1&" := by decide
  refine @Starts.encoded _ 7 _ ?_
  rw [ofEncoded, hlength, if_neg (by decide), hfront, text?_utf8]
  rfl

theorem ragged_pairs : ragged.toList = [("a", "1")] := by
  have htext : ragged.text = "x&&a=1&" := text_of_written rfl
  rw [toList_eq, htext, pairsOf, pairs_eq]
  decide

/-- One pair fits, the second does not, and the third has no value. -/
def attempts : List (String × String) := [("a", "2"), ("long", "value"), ("c", "")]

theorem ragged_entered :
    Starts ragged.buffer.contents ragged ∧ (∀ pair ∈ attempts, Parted pair) ∧
      (attempts.foldl after ragged).toList = [("a", "1"), ("a", "2")] ∧
      (attempts.foldl after ragged).find? "a" = some "1" := by
  have parted : ∀ pair ∈ attempts, Parted pair := by
    unfold Parted
    decide
  obtain ⟨-, -, hpairs⟩ := entries_kept ragged_starts attempts
  obtain ⟨hlist, hfind⟩ := hpairs parted
  have htaken : ragged.taken attempts = [("a", "2")] := by decide +kernel
  rw [ragged_pairs, htaken] at hlist hfind
  exact ⟨ragged_starts, parted, hlist, hfind "a"⟩

end Properties

end HubDevice
