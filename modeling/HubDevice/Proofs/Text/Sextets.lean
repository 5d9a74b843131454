import HubDevice.Base64
import Mathlib.Data.Nat.Digits.Defs

set_option autoImplicit false

namespace HubDevice.Base64

def alphabet : Bytes := utf8 "ABCDEFGHIJKLMNOPQRSTUVWXYZabcdefghijklmnopqrstuvwxyz0123456789+/"

def number (base : Nat) (digits : List Nat) : Nat := digits.foldl (fun n d => base * n + d) 0

def short (b : Bytes) : Nat := (3 - b.length % 3) % 3

/-- The text consists of the bits of the bytes in groups of six, filled up with zeros, and of
padding in place of the groups that the last four are short of. -/
def Regroups (b text : Bytes) : Prop :=
  ∃ (groups : List Nat) (fill : Nat), (∀ g ∈ groups, g < 64) ∧ fill < 3 ∧
    3 * groups.length = 4 * b.length + fill ∧
    number 64 groups = 4 ^ fill * number 256 (b.map UInt8.toNat) ∧
    text = groups.map (alphabet.getD · 0) ++ List.replicate fill pad

theorem value?_symbol : ∀ n < 64, value? (symbol n) = some n := by decide

theorem symbol_ne_pad : ∀ n < 64, symbol n ≠ pad := by decide

theorem symbol_eq : ∀ n < 64, symbol n = alphabet.getD n 0 := by decide

theorem value?_eq_some_iff {b : UInt8} {n : Nat} : value? b = some n ↔ n < 64 ∧ b = symbol n := by
  have hall : ∀ k < 256, ∀ m ∈ value? (UInt8.ofNat k), m < 64 ∧ UInt8.ofNat k = symbol m := by
    decide +kernel
  constructor
  · intro h
    have hb := hall b.toNat b.toNat_lt
    rw [UInt8.ofNat_toNat] at hb
    exact hb n h
  · rintro ⟨hn, rfl⟩
    exact value?_symbol n hn

theorem eq_toUInt8 {b : UInt8} {n : Nat} (h : n = b.toNat) : n.toUInt8 = b := by
  rw [h]
  exact UInt8.ofNat_toNat

theorem toNat_toUInt8 {n : Nat} (h : n < 256) : n.toUInt8.toNat = n := Nat.mod_eq_of_lt h

theorem whole?_symbols (x y z : UInt8) :
    whole? (symbol (x.toNat / 4)) (symbol (x.toNat % 4 * 16 + y.toNat / 16))
      (symbol (y.toNat % 16 * 4 + z.toNat / 64)) (symbol (z.toNat % 64)) = some [x, y, z] := by
  have hx := x.toNat_lt
  have hy := y.toNat_lt
  have hz := z.toNat_lt
  rw [whole?, value?_symbol _ (by omega), value?_symbol _ (by omega), value?_symbol _ (by omega),
    value?_symbol _ (by omega)]
  dsimp only [Option.bind_eq_bind, Option.bind_some]
  rw [eq_toUInt8 (b := x) (by omega), eq_toUInt8 (b := y) (by omega),
    eq_toUInt8 (b := z) (by omega)]
  rfl

theorem eq_encode_of_whole? {a b c d : UInt8} {out : Bytes} (h : whole? a b c d = some out) :
    out.length = 3 ∧ [a, b, c, d] = encode out := by
  simp only [whole?, Option.bind_eq_bind, Option.bind_eq_some_iff, value?_eq_some_iff] at h
  obtain ⟨w, ⟨hw, rfl⟩, x, ⟨hx, rfl⟩, y, ⟨hy, rfl⟩, z, ⟨hz, rfl⟩, h⟩ := h
  cases h
  have first : (w * 4 + x / 16) / 4 = w := by omega
  have second : (w * 4 + x / 16) % 4 * 16 + (x % 16 * 16 + y / 4) / 16 = x := by omega
  have third : (x % 16 * 16 + y / 4) % 16 * 4 + (y % 4 * 64 + z) / 64 = y := by omega
  have fourth : (y % 4 * 64 + z) % 64 = z := by omega
  refine ⟨rfl, ?_⟩
  rw [encode, toNat_toUInt8 (by omega), toNat_toUInt8 (by omega), toNat_toUInt8 (by omega), encode,
    first, second, third, fourth]

theorem eq_encode_of_last? {a b c d : UInt8} {out : Bytes} (h : last? a b c d = some out) :
    [a, b, c, d] = encode out := by
  rw [last?] at h
  split at h
  · exact (eq_encode_of_whole? h).2
  · next hd =>
    split at h
    · simp only [Option.bind_eq_bind, Option.bind_eq_some_iff, value?_eq_some_iff] at h
      obtain ⟨w, ⟨hw, rfl⟩, x, ⟨hx, rfl⟩, y, ⟨hy, rfl⟩, h⟩ := h
      obtain ⟨zero, h⟩ := Option.ite_none_right_eq_some.1 h
      cases h
      have first : (w * 4 + x / 16) / 4 = w := by omega
      have second : (w * 4 + x / 16) % 4 * 16 + (x % 16 * 16 + y / 4) / 16 = x := by omega
      have third : (x % 16 * 16 + y / 4) % 16 * 4 = y := by omega
      rw [encode, toNat_toUInt8 (by omega), toNat_toUInt8 (by omega), first, second, third,
        Decidable.of_not_not hd]
    · next hc =>
      simp only [Option.bind_eq_bind, Option.bind_eq_some_iff, value?_eq_some_iff] at h
      obtain ⟨w, ⟨hw, rfl⟩, x, ⟨hx, rfl⟩, h⟩ := h
      obtain ⟨zero, h⟩ := Option.ite_none_right_eq_some.1 h
      cases h
      have first : (w * 4 + x / 16) / 4 = w := by omega
      have second : (w * 4 + x / 16) % 4 * 16 = x := by omega
      rw [encode, toNat_toUInt8 (by omega), first, second, Decidable.of_not_not hc,
        Decidable.of_not_not hd]

theorem last?_one (x : UInt8) :
    last? (symbol (x.toNat / 4)) (symbol (x.toNat % 4 * 16)) pad pad = some [x] := by
  have hx := x.toNat_lt
  rw [last?, if_neg (not_not_intro rfl), if_neg (not_not_intro rfl), value?_symbol _ (by omega),
    value?_symbol _ (by omega)]
  dsimp only [Option.bind_eq_bind, Option.bind_some]
  rw [if_pos (by omega), eq_toUInt8 (b := x) (by omega)]

theorem last?_two (x y : UInt8) :
    last? (symbol (x.toNat / 4)) (symbol (x.toNat % 4 * 16 + y.toNat / 16))
      (symbol (y.toNat % 16 * 4)) pad = some [x, y] := by
  have hx := x.toNat_lt
  have hy := y.toNat_lt
  rw [last?, if_neg (not_not_intro rfl), if_pos (symbol_ne_pad _ (by omega)),
    value?_symbol _ (by omega), value?_symbol _ (by omega), value?_symbol _ (by omega)]
  dsimp only [Option.bind_eq_bind, Option.bind_some]
  rw [if_pos (by omega), eq_toUInt8 (b := x) (by omega), eq_toUInt8 (b := y) (by omega)]

theorem last?_symbols (x y z : UInt8) :
    last? (symbol (x.toNat / 4)) (symbol (x.toNat % 4 * 16 + y.toNat / 16))
      (symbol (y.toNat % 16 * 4 + z.toNat / 64)) (symbol (z.toNat % 64)) = some [x, y, z] := by
  rw [last?, if_pos (symbol_ne_pad _ (by omega)), whole?_symbols]

theorem encode_append {b : Bytes} (hb : b.length = 3) (rest : Bytes) :
    encode (b ++ rest) = encode b ++ encode rest := by
  match b, hb with
  | [x, y, z], _ => rfl

theorem eq_encode_of_decode? {text b : Bytes} (h : decode? text = some b) : text = encode b := by
  induction text using decode?.induct generalizing b with
  | case1 =>
    cases h
    rfl
  | case2 a b c d =>
    exact eq_encode_of_last? h
  | case3 a b c d rest hrest ih =>
    rw [decode?] at h
    · obtain ⟨first, hfirst, more, hmore, h⟩ := by
        simpa only [Option.bind_eq_bind, Option.bind_eq_some_iff] using h
      cases h
      obtain ⟨hlen, heq⟩ := eq_encode_of_whole? hfirst
      rw [encode_append hlen, ← heq, ← ih hmore]
      rfl
    · exact hrest
  | case4 => simp_all [decode?]

theorem decode?_encode (b : Bytes) : decode? (encode b) = some b := by
  induction b using encode.induct with
  | case1 => rfl
  | case2 x => exact last?_one x
  | case3 x y => exact last?_two x y
  | case4 x y z rest ih =>
    rw [encode]
    cases hrest : encode rest with
    | nil =>
      rw [hrest] at ih
      cases ih
      exact last?_symbols x y z
    | cons c more =>
      rw [decode?, whole?_symbols, ← hrest, ih]
      · rfl
      · exact List.cons_ne_nil c more

theorem decode?_eq_some_iff {text b : Bytes} : decode? text = some b ↔ text = encode b :=
  ⟨eq_encode_of_decode?, fun h => h ▸ decode?_encode b⟩

theorem length_encode (b : Bytes) : (encode b).length = 4 * ((b.length + 2) / 3) := by
  induction b using encode.induct with
  | case1 => rfl
  | case2 x => simp [encode]
  | case3 x y => simp [encode]
  | case4 x y z rest ih =>
    rw [encode]
    simp only [List.length_cons, ih]
    omega

def sextets : Bytes → List Nat
  | [] => []
  | [x] => [x.toNat / 4, x.toNat % 4 * 16]
  | [x, y] => [x.toNat / 4, x.toNat % 4 * 16 + y.toNat / 16, y.toNat % 16 * 4]
  | x :: y :: z :: rest =>
    x.toNat / 4 :: (x.toNat % 4 * 16 + y.toNat / 16) :: (y.toNat % 16 * 4 + z.toNat / 64) ::
      (z.toNat % 64) :: sextets rest

theorem sextets_lt (b : Bytes) : ∀ g ∈ sextets b, g < 64 := by
  induction b using sextets.induct with
  | case1 => exact List.forall_mem_nil _
  | case2 x =>
    have hx := x.toNat_lt
    simp only [sextets, List.forall_mem_cons]
    exact ⟨by omega, by omega, List.forall_mem_nil _⟩
  | case3 x y =>
    have hx := x.toNat_lt
    have hy := y.toNat_lt
    simp only [sextets, List.forall_mem_cons]
    exact ⟨by omega, by omega, by omega, List.forall_mem_nil _⟩
  | case4 x y z rest ih =>
    have hx := x.toNat_lt
    have hy := y.toNat_lt
    have hz := z.toNat_lt
    simp only [sextets, List.forall_mem_cons]
    exact ⟨by omega, by omega, by omega, by omega, ih⟩

theorem short_step (x y z : UInt8) (rest : Bytes) : short (x :: y :: z :: rest) = short rest := by
  simp only [short, List.length_cons]
  omega

theorem length_sextets (b : Bytes) : 3 * (sextets b).length = 4 * b.length + short b := by
  induction b using sextets.induct with
  | case1 => rfl
  | case2 x => rfl
  | case3 x y => rfl
  | case4 x y z rest ih =>
    rw [sextets, short_step]
    simp only [List.length_cons]
    omega

theorem foldl_sextets (b : Bytes) (n : Nat) :
    (sextets b).foldl (fun n d => 64 * n + d) n =
      4 ^ short b * (b.map UInt8.toNat).foldl (fun n d => 256 * n + d) n := by
  induction b using sextets.induct generalizing n with
  | case1 => exact (Nat.one_mul n).symm
  | case2 x =>
    show 64 * (64 * n + x.toNat / 4) + x.toNat % 4 * 16 = 16 * (256 * n + x.toNat)
    omega
  | case3 x y =>
    show 64 * (64 * (64 * n + x.toNat / 4) + (x.toNat % 4 * 16 + y.toNat / 16)) +
      y.toNat % 16 * 4 = 4 * (256 * (256 * n + x.toNat) + y.toNat)
    omega
  | case4 x y z rest ih =>
    rw [sextets, short_step]
    simp only [List.map_cons, List.foldl_cons, ih]
    congr 2
    omega

theorem encode_eq_sextets (b : Bytes) :
    encode b = (sextets b).map symbol ++ List.replicate (short b) pad := by
  induction b using sextets.induct with
  | case1 => rfl
  | case2 x => rfl
  | case3 x y => rfl
  | case4 x y z rest ih =>
    rw [encode, sextets, short_step, ih]
    rfl

theorem map_symbol {groups : List Nat} (h : ∀ g ∈ groups, g < 64) :
    groups.map symbol = groups.map (alphabet.getD · 0) :=
  List.map_congr_left fun g hg => symbol_eq g (h g hg)

theorem regroups_encode (b : Bytes) : Regroups b (encode b) := by
  refine ⟨sextets b, short b, sextets_lt b, Nat.mod_lt _ (by decide), length_sextets b,
    foldl_sextets b 0, ?_⟩
  rw [encode_eq_sextets, map_symbol (sextets_lt b)]

theorem number_eq_ofDigits (base : Nat) (digits : List Nat) :
    number base digits = Nat.ofDigits base digits.reverse := by
  rw [number, Nat.ofDigits_eq_foldr, List.foldr_reverse]
  simp only [Nat.cast_id, Nat.add_comm]

theorem number_inj {base : Nat} {l m : List Nat} (hbase : 1 < base) (hlen : l.length = m.length)
    (hl : ∀ d ∈ l, d < base) (hm : ∀ d ∈ m, d < base) (h : number base l = number base m) :
    l = m := by
  rw [number_eq_ofDigits, number_eq_ofDigits] at h
  exact List.reverse_inj.1 (Nat.ofDigits_inj_of_len_eq hbase (by simpa using hlen)
    (by simpa using hl) (by simpa using hm) h)

theorem regroups_iff {b text : Bytes} : Regroups b text ↔ text = encode b := by
  constructor
  · rintro ⟨groups, fill, hlt, hfill, hlen, hnum, rfl⟩
    have hshort : fill = short b := by
      have := length_sextets b
      unfold short
      omega
    subst hshort
    have hgroups : groups = sextets b := by
      refine number_inj (by decide) ?_ hlt (sextets_lt b) (hnum.trans (foldl_sextets b 0).symm)
      have := length_sextets b
      omega
    rw [hgroups, encode_eq_sextets, map_symbol (sextets_lt b)]
  · rintro rfl
    exact regroups_encode b

theorem padding_append (front : Bytes) {text : Bytes} (h : 2 ≤ text.length) :
    padding (front ++ text) = padding text := by
  have hlen : (front ++ text).length - 2 = front.length + (text.length - 2) := by
    rw [List.length_append]
    omega
  rw [padding, padding, hlen, List.drop_length_add_append]

theorem padding_encode (b : Bytes) : padding (encode b) = short b := by
  induction b using encode.induct with
  | case1 => rfl
  | case2 x => rfl
  | case3 x y =>
    have hy := symbol_ne_pad (y.toNat % 16 * 4) (by omega)
    exact List.count_cons_of_ne hy
  | case4 x y z rest ih =>
    rw [short_step, ← ih]
    cases rest with
    | nil =>
      have := z.toNat_lt
      have hy := symbol_ne_pad (y.toNat % 16 * 4 + z.toNat / 64) (by omega)
      have hz := symbol_ne_pad (z.toNat % 64) (by omega)
      exact (List.count_cons_of_ne hy).trans (List.count_cons_of_ne hz)
    | cons c more =>
      refine padding_append (encode [x, y, z]) ?_
      rw [length_encode, List.length_cons]
      omega

theorem promised_encode (b : Bytes) : promised (encode b) = b.length := by
  rw [promised, padding_encode, length_encode, short]
  omega

theorem encodeInto_eq (room : Nat) (b : Bytes) :
    encodeInto room b =
      if 4 * ((b.length + 2) / 3) ≤ room then .ok (encode b) else .error .bufferTooSmall := by
  simp only [encodeInto, length_encode]

theorem decodeInto_encode (room : Nat) (b : Bytes) :
    decodeInto room (encode b) = if b.length ≤ room then .ok b else .error .bufferTooSmall := by
  have hlen : ¬ (encode b).length % 4 ≠ 0 := by
    rw [length_encode]
    omega
  rw [decodeInto, if_neg hlen, promised_encode, decode?_encode]
  split
  · rw [if_neg (by omega)]
  · rw [if_pos (by omega)]

theorem decodeInto_eq_ok_iff {room : Nat} {key b : Bytes} :
    decodeInto room key = .ok b ↔ key = encode b ∧ b.length ≤ room := by
  constructor
  · intro h
    have hkey : decode? key = some b := by
      unfold decodeInto at h
      split at h
      · cases h
      · split at h
        · cases h
        · split at h
          · cases h
            assumption
          · cases h
    have heq := decode?_eq_some_iff.1 hkey
    rw [heq, decodeInto_encode] at h
    split at h
    · exact ⟨heq, ‹_›⟩
    · cases h
  · rintro ⟨rfl, hroom⟩
    rw [decodeInto_encode, if_pos hroom]

/-- What is no encoding at all. The room that it promises to need is looked at before its digits
are. -/
theorem decodeInto_other {room : Nat} {key : Bytes} (hkey : ∀ b, ¬ Regroups b key) :
    decodeInto room key = .error
      (if key.length % 4 = 0 ∧ room < promised key then .bufferTooSmall else .invalidArgument) := by
  have hnone : decode? key = none := by
    refine Option.eq_none_iff_forall_ne_some.2 fun b hb => hkey b ?_
    exact regroups_iff.2 (decode?_eq_some_iff.1 hb)
  rw [decodeInto, hnone]
  split
  · next hlen =>
    rw [if_neg fun h => hlen h.1]
  · next hlen =>
    have hzero := Decidable.of_not_not hlen
    split
    · next hroom =>
      rw [if_pos ⟨hzero, hroom⟩]
    · next hroom =>
      rw [if_neg fun h => hroom h.2]

/-- A digest is written exactly where its text fits and read back exactly where it fits itself. A
key that is read is the one text of its bytes, and every other text is refused for what it says
wherever there is room. -/
theorem transcoding_exact :
    (∀ digest : Bytes, ∃ text, Regroups digest text ∧
      (∀ room, encodeInto room digest =
        if 4 * ((digest.length + 2) / 3) ≤ room then .ok text else .error .bufferTooSmall) ∧
      ∀ room, decodeInto room text =
        if digest.length ≤ room then .ok digest else .error .bufferTooSmall) ∧
    (∀ room key b, decodeInto room key = .ok b ↔ Regroups b key ∧ b.length ≤ room) ∧
    (∀ room key b, decodeInto room key = .ok b →
      ∀ space, key.length ≤ space → encodeInto space b = .ok key) ∧
    (∀ room space key other b, decodeInto room key = .ok b → decodeInto space other = .ok b →
      key = other) ∧
    ∀ room key, (∀ b, ¬ Regroups b key) →
      decodeInto room key = .error
        (if key.length % 4 = 0 ∧ room < promised key then .bufferTooSmall
          else .invalidArgument) := by
  refine ⟨fun digest => ⟨encode digest, regroups_encode digest,
    fun room => encodeInto_eq room digest, fun room => decodeInto_encode room digest⟩,
    ?_, ?_, ?_, fun _ _ => decodeInto_other⟩
  · intro room key b
    rw [decodeInto_eq_ok_iff, regroups_iff]
  · intro room key b h space hspace
    obtain ⟨rfl, -⟩ := decodeInto_eq_ok_iff.1 h
    rw [length_encode] at hspace
    rw [encodeInto_eq, if_pos hspace]
  · intro room space key other b h h'
    rw [(decodeInto_eq_ok_iff.1 h).1, (decodeInto_eq_ok_iff.1 h').1]

/-- The bits behind the last byte are looked at. -/
example : decodeInto 2 (utf8 "YWI=") = .ok (utf8 "ab") ∧
    decodeInto 2 (utf8 "YWJ=") = .error .invalidArgument := ⟨by cbv, by cbv⟩

end HubDevice.Base64
