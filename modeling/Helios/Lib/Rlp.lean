import Mathlib

/-!
# Recursive length prefix encoding

The RLP format over an arbitrary tree of byte strings.

* `Item` — a byte string or a list of items; `Item.encode` — its canonical encoding.
* `natBytes` — the shortest big-endian form of a number, as RLP writes lengths and integers.
* `decodeItem` — a fuel-bounded prefix decoder (the fuel `2 * length` always suffices).
* `decodeItem_encode` — **round trip**: an encoding shorter than `2 ^ 64` bytes is read back
  exactly, whatever follows it.
* `encode_injective` — two items with the same encoding, shorter than `2 ^ 64` bytes, are equal.
* `encode_list_ne_cons` — no list is a byte in front of another one that is long.

The bound is the format's own: a payload of `2 ^ 64` bytes or more has no length prefix.
-/

set_option autoImplicit false

namespace Rlp

/-- What RLP serializes: a byte string, or a list of items. -/
inductive Item where
  | str (bytes : List UInt8)
  | list (items : List Item)

/-- The shortest big-endian form of a number (no bytes for zero). -/
def natBytes (n : Nat) : List UInt8 := (Nat.digits 256 n).reverse.map UInt8.ofNat

/-- The number a big-endian byte string denotes. -/
def bytesNat (bs : List UInt8) : Nat := Nat.ofDigits 256 (bs.reverse.map UInt8.toNat)

theorem bytesNat_natBytes (n : Nat) : bytesNat (natBytes n) = n := by
  have hmap : ((Nat.digits 256 n).map UInt8.ofNat).map UInt8.toNat = Nat.digits 256 n := by
    rw [List.map_map]
    conv_rhs => rw [← List.map_id (Nat.digits 256 n)]
    apply List.map_congr_left
    intro d hd
    have := Nat.digits_lt_base (by decide) hd
    simp [UInt8.toNat_ofNat_of_lt' (show d < 256 from this)]
  unfold bytesNat natBytes
  rw [← List.map_reverse, List.reverse_reverse, hmap, Nat.ofDigits_digits]

theorem byteDigits_lt {bs : List UInt8} {d : Nat} (h : d ∈ bs.reverse.map UInt8.toNat) : d < 256 := by
  obtain ⟨byte, _, rfl⟩ := List.mem_map.1 h
  exact byte.toNat_lt

theorem bytesNat_lt (bs : List UInt8) : bytesNat bs < 256 ^ bs.length := by
  have h := Nat.ofDigits_lt_base_pow_length (by decide) (fun _ => @byteDigits_lt bs _)
  rwa [List.length_map, List.length_reverse] at h

/-- Byte strings of one length denote different numbers. -/
theorem bytesNat_injective {as bs : List UInt8} (hlen : as.length = bs.length)
    (h : bytesNat as = bytesNat bs) : as = bs := by
  have hmap : as.reverse.map UInt8.toNat = bs.reverse.map UInt8.toNat := by
    refine Nat.ofDigits_inj_of_len_eq (by decide) ?_ (fun _ => byteDigits_lt)
      (fun _ => byteDigits_lt) h
    rw [List.length_map, List.length_map, List.length_reverse, List.length_reverse, hlen]
  exact List.reverse_injective (List.map_injective_iff.2 (fun _ _ => UInt8.toNat_inj.1) hmap)

theorem natBytes_injective {m n : Nat} (h : natBytes m = natBytes n) : m = n := by
  rw [← bytesNat_natBytes m, h, bytesNat_natBytes]

theorem natBytes_length_le {n k : Nat} (h : n < 256 ^ k) : (natBytes n).length ≤ k := by
  unfold natBytes
  rw [List.length_map, List.length_reverse]
  exact (Nat.digits_length_le_iff (by decide) n).2 h

theorem natBytes_ne_nil {n : Nat} (h : n ≠ 0) : natBytes n ≠ [] := by
  unfold natBytes
  intro he
  rw [List.map_eq_nil_iff, List.reverse_eq_nil_iff, Nat.digits_eq_nil_iff_eq_zero] at he
  exact h he

/-- Prefix of a payload of `n` bytes; `offset` is `0x80` for strings and `0xc0` for lists. -/
def header (offset n : Nat) : List UInt8 :=
  if n < 56 then [UInt8.ofNat (offset + n)]
  else UInt8.ofNat (offset + 55 + (natBytes n).length) :: natBytes n

/-- Encoding of a byte string: a single byte below `0x80` stands for itself. -/
def encodeStr (bytes : List UInt8) : List UInt8 :=
  match bytes with
  | [b] => if b < 0x80 then [b] else header 0x80 1 ++ [b]
  | _ => header 0x80 bytes.length ++ bytes

mutual

/-- The canonical encoding of an item. -/
def Item.encode : Item → List UInt8
  | .str bytes => encodeStr bytes
  | .list items => header 0xc0 (encodeItems items).length ++ encodeItems items

/-- The encodings of a list of items, one after the other. -/
def encodeItems : List Item → List UInt8
  | [] => []
  | x :: xs => x.encode ++ encodeItems xs

end

theorem encode_list (items : List Item) :
    (Item.list items).encode = header 0xc0 (encodeItems items).length ++ encodeItems items := by
  rw [Item.encode]

theorem header_length_pos (offset n : Nat) : 0 < (header offset n).length := by
  unfold header; split <;> simp

theorem encodeStr_length_pos (bytes : List UInt8) : 0 < (encodeStr bytes).length := by
  have := header_length_pos 0x80 1
  have := header_length_pos 0x80 bytes.length
  unfold encodeStr
  split
  · split <;> simp
  · rw [List.length_append]; omega

theorem header_length_le (offset : Nat) {n : Nat} (h : n < 2 ^ 64) : (header offset n).length ≤ 9 := by
  have hlen : (natBytes n).length ≤ 8 := natBytes_length_le (by omega)
  unfold header
  split
  · simp
  · rw [List.length_cons]
    omega

theorem encodeStr_length_le (bytes : List UInt8) (h : bytes.length < 2 ^ 64) :
    (encodeStr bytes).length ≤ bytes.length + 9 := by
  have hone : (header 0x80 1).length ≤ 9 := header_length_le 0x80 (by omega)
  have hlen : (header 0x80 bytes.length).length ≤ 9 := header_length_le 0x80 h
  unfold encodeStr
  split
  · split
    · simp
    · simp only [List.length_append, List.length_singleton]
      omega
  · rw [List.length_append]
    omega

theorem length_le_encodeStr (bytes : List UInt8) : bytes.length ≤ (encodeStr bytes).length := by
  unfold encodeStr
  split
  · split <;> simp
  · rw [List.length_append]; omega

/-- A short byte string has one byte before it, unless it is a single one. -/
theorem encodeStr_length {bytes : List UInt8} (h : bytes.length < 56) (hone : bytes.length ≠ 1) :
    (encodeStr bytes).length = bytes.length + 1 := by
  unfold encodeStr
  split
  · simp at hone
  · rw [List.length_append, header, if_pos h, List.length_singleton, Nat.add_comm]

/-- A number of as many bytes lies between two powers. -/
theorem natBytes_bounds {n k : Nat} (h : (natBytes n).length = k + 1) :
    256 ^ k ≤ n ∧ n < 256 ^ (k + 1) := by
  constructor
  · by_contra hlt
    have hle : (natBytes n).length ≤ k := natBytes_length_le (by omega)
    omega
  · have hlt := bytesNat_lt (natBytes n)
    rwa [bytesNat_natBytes, h] at hlt

theorem encode_length_pos (x : Item) : 0 < x.encode.length := by
  cases x with
  | str bytes => rw [Item.encode]; exact encodeStr_length_pos bytes
  | list items =>
    have := header_length_pos 0xc0 (encodeItems items).length
    rw [encode_list, List.length_append]; omega

/-! ## Decoding -/

/-- Cut a byte string after `n` bytes, if it has that many. -/
def cut (n : Nat) (bs : List UInt8) : Option (List UInt8 × List UInt8) :=
  if n ≤ bs.length then some (bs.take n, bs.drop n) else none

theorem cut_append (a r : List UInt8) : cut a.length (a ++ r) = some (a, r) := by
  unfold cut
  rw [if_pos (by simp), List.take_left, List.drop_left]

/-- A read prefix: is it a list, and how long is its payload. -/
structure Prefix where
  isList : Bool
  length : Nat

/-- Read the prefix of an item that does not stand for itself. -/
def readHeader : List UInt8 → Option (Prefix × List UInt8)
  | [] => none
  | b :: rest =>
    let n := b.toNat
    if n ≤ 0xb7 then some (⟨false, n - 0x80⟩, rest)
    else if n ≤ 0xbf then
      (cut (n - 0xb7) rest).map fun p => (⟨false, bytesNat p.1⟩, p.2)
    else if n ≤ 0xf7 then some (⟨true, n - 0xc0⟩, rest)
    else (cut (n - 0xf7) rest).map fun p => (⟨true, bytesNat p.1⟩, p.2)

theorem readHeader_str {n : Nat} (h : n < 2 ^ 64) (r : List UInt8) :
    readHeader (header 0x80 n ++ r) = some (⟨false, n⟩, r) := by
  unfold header
  split
  · rename_i hn
    have hb : (UInt8.ofNat (0x80 + n)).toNat = 0x80 + n :=
      UInt8.toNat_ofNat_of_lt' (by show 0x80 + n < 256; omega)
    simp only [List.cons_append, List.nil_append, readHeader, hb]
    rw [if_pos (by omega), Nat.add_sub_cancel_left]
  · rename_i hn
    have hlen : (natBytes n).length ≤ 8 := natBytes_length_le (by omega)
    have hpos : 0 < (natBytes n).length := List.length_pos_iff.2 (natBytes_ne_nil (by omega))
    have hb : (UInt8.ofNat (0x80 + 55 + (natBytes n).length)).toNat =
        0x80 + 55 + (natBytes n).length :=
      UInt8.toNat_ofNat_of_lt' (by show _ < 256; omega)
    simp only [List.cons_append, readHeader, hb]
    rw [if_neg (by omega), if_pos (by omega),
      show 0x80 + 55 + (natBytes n).length - 0xb7 = (natBytes n).length by omega, cut_append]
    simp only [Option.map_some, bytesNat_natBytes]

theorem readHeader_list {n : Nat} (h : n < 2 ^ 64) (r : List UInt8) :
    readHeader (header 0xc0 n ++ r) = some (⟨true, n⟩, r) := by
  unfold header
  split
  · rename_i hn
    have hb : (UInt8.ofNat (0xc0 + n)).toNat = 0xc0 + n :=
      UInt8.toNat_ofNat_of_lt' (by show 0xc0 + n < 256; omega)
    simp only [List.cons_append, List.nil_append, readHeader, hb]
    rw [if_neg (by omega), if_neg (by omega), if_pos (by omega), Nat.add_sub_cancel_left]
  · rename_i hn
    have hlen : (natBytes n).length ≤ 8 := natBytes_length_le (by omega)
    have hpos : 0 < (natBytes n).length := List.length_pos_iff.2 (natBytes_ne_nil (by omega))
    have hb : (UInt8.ofNat (0xc0 + 55 + (natBytes n).length)).toNat =
        0xc0 + 55 + (natBytes n).length :=
      UInt8.toNat_ofNat_of_lt' (by show _ < 256; omega)
    simp only [List.cons_append, readHeader, hb]
    rw [if_neg (by omega), if_neg (by omega), if_neg (by omega),
      show 0xc0 + 55 + (natBytes n).length - 0xf7 = (natBytes n).length by omega, cut_append]
    simp only [Option.map_some, bytesNat_natBytes]

mutual

/-- Read one item off the front of a byte string. -/
def decodeItem : Nat → List UInt8 → Option (Item × List UInt8)
  | 0, _ => none
  | _ + 1, [] => none
  | fuel + 1, b :: bs =>
    if b < 0x80 then some (.str [b], bs)
    else
      match readHeader (b :: bs) with
      | none => none
      | some (p, rest) =>
        match cut p.length rest with
        | none => none
        | some (payload, rest) =>
          if p.isList then (decodeItems fuel payload).map fun items => (.list items, rest)
          else some (.str payload, rest)

/-- Read items until the byte string is used up. -/
def decodeItems : Nat → List UInt8 → Option (List Item)
  | 0, _ => none
  | _ + 1, [] => some []
  | fuel + 1, b :: bs =>
    match decodeItem fuel (b :: bs) with
    | none => none
    | some (x, rest) => (decodeItems fuel rest).map (x :: ·)

end

/-- Reading past a prefix: the payload decides the item. -/
theorem decodeItem_header {fuel : Nat} {p : Prefix} {payload r hd : List UInt8} {b : UInt8}
    (hb : ¬ b < 0x80)
    (hread : readHeader (b :: hd ++ (payload ++ r)) = some (p, payload ++ r))
    (hlen : p.length = payload.length) :
    decodeItem (fuel + 1) (b :: hd ++ (payload ++ r)) =
      if p.isList then (decodeItems fuel payload).map fun items => (.list items, r)
      else some (.str payload, r) := by
  rw [List.cons_append] at hread ⊢
  rw [decodeItem, if_neg hb, hread]
  simp only [hlen, cut_append]

/-- The first byte of a prefix is the kind's own or a later one. -/
theorem header_head {offset n : Nat} (ho : offset = 0x80 ∨ offset = 0xc0) (h : n < 2 ^ 64) :
    ∃ b rest, header offset n = b :: rest ∧ offset ≤ b.toNat := by
  have hlen : (natBytes n).length ≤ 8 := natBytes_length_le (by omega)
  unfold header
  split
  · refine ⟨_, _, rfl, ?_⟩
    rw [UInt8.toNat_ofNat_of_lt' (by show _ < 256; omega)]
    exact Nat.le_add_right _ _
  · refine ⟨_, _, rfl, ?_⟩
    rw [UInt8.toNat_ofNat_of_lt' (by show _ < 256; omega)]
    omega

/-- No byte of a prefix's kind stands for itself. -/
theorem not_lt_of_offset {offset : Nat} {b : UInt8} (ho : offset = 0x80 ∨ offset = 0xc0)
    (h : offset ≤ b.toNat) : ¬ b < 0x80 := by
  rw [UInt8.lt_iff_toNat_lt]
  show ¬ b.toNat < 128
  omega

theorem decodeItem_encodeStr {fuel : Nat} (bytes r : List UInt8) (h : bytes.length < 2 ^ 64) :
    decodeItem (fuel + 1) (encodeStr bytes ++ r) = some (.str bytes, r) := by
  have long : decodeItem (fuel + 1) (header 0x80 bytes.length ++ bytes ++ r) =
      some (.str bytes, r) := by
    obtain ⟨b, hd, hb, hge⟩ := header_head (Or.inl rfl) h
    have hread := readHeader_str h (bytes ++ r)
    rw [hb] at hread
    rw [List.append_assoc, hb, decodeItem_header (not_lt_of_offset (Or.inl rfl) hge) hread rfl]
    rfl
  unfold encodeStr
  split
  · rename_i b
    split
    · rename_i hb
      simp [decodeItem, hb]
    · exact long
  · exact long

mutual

/-- **Round trip**: an encoding is read back exactly, whatever follows it. -/
theorem decodeItem_encode : ∀ (x : Item) (fuel : Nat) (r : List UInt8),
    x.encode.length < 2 ^ 64 → 2 * x.encode.length ≤ fuel →
      decodeItem fuel (x.encode ++ r) = some (x, r)
  | .str bytes, fuel, r, hlen, hfuel => by
    rw [Item.encode] at *
    have hpos := encodeStr_length_pos bytes
    have hle := length_le_encodeStr bytes
    obtain ⟨f, rfl⟩ : ∃ f, fuel = f + 1 := ⟨fuel - 1, by omega⟩
    exact decodeItem_encodeStr bytes r (by omega)
  | .list items, fuel, r, hlen, hfuel => by
    rw [encode_list] at *
    rw [List.length_append] at hlen hfuel
    have hpos := header_length_pos 0xc0 (encodeItems items).length
    obtain ⟨f, rfl⟩ : ∃ f, fuel = f + 1 := ⟨fuel - 1, by omega⟩
    have hlt : (encodeItems items).length < 2 ^ 64 := by omega
    obtain ⟨b, hd, hb, hge⟩ := header_head (Or.inr (rfl : 0xc0 = 0xc0)) hlt
    have hread := readHeader_list hlt (encodeItems items ++ r)
    rw [hb] at hread
    rw [List.append_assoc, hb, decodeItem_header (not_lt_of_offset (Or.inr rfl) hge) hread rfl,
      if_pos rfl, decodeItems_encode items f (by omega) (by omega)]
    rfl

theorem decodeItems_encode : ∀ (xs : List Item) (fuel : Nat),
    (encodeItems xs).length < 2 ^ 64 → 2 * (encodeItems xs).length + 1 ≤ fuel →
      decodeItems fuel (encodeItems xs) = some xs
  | [], fuel, _, hfuel => by
    obtain ⟨f, rfl⟩ : ∃ f, fuel = f + 1 := ⟨fuel - 1, by omega⟩
    rw [encodeItems, decodeItems]
  | x :: xs, fuel, hlen, hfuel => by
    rw [encodeItems] at *
    rw [List.length_append] at hlen hfuel
    have hpos := encode_length_pos x
    obtain ⟨f, rfl⟩ : ∃ f, fuel = f + 1 := ⟨fuel - 1, by omega⟩
    have hx := decodeItem_encode x f (encodeItems xs) (by omega) (by omega)
    have hxs := decodeItems_encode xs f (by omega) (by omega)
    cases he : x.encode ++ encodeItems xs with
    | nil =>
      have := congrArg List.length he
      rw [List.length_append, List.length_nil] at this
      omega
    | cons b bs =>
      rw [he] at hx
      rw [decodeItems, hx]
      simp only [hxs, Option.map_some]

end

/-- An encoding on its own is read back with nothing left. -/
theorem decodeItem_encode_self {x : Item} (h : x.encode.length < 2 ^ 64) :
    decodeItem (2 * x.encode.length) x.encode = some (x, []) := by
  have hread := decodeItem_encode x _ [] h (Nat.le_refl _)
  rwa [List.append_nil] at hread

/-- **Injectivity** below the format's length bound. -/
theorem encode_injective {x y : Item} (hx : x.encode.length < 2 ^ 64) (h : x.encode = y.encode) :
    x = y := by
  have h1 := decodeItem_encode_self hx
  have h2 := decodeItem_encode_self (h ▸ hx)
  rw [h, h2] at h1
  simpa using h1.symm

/-! ## A byte in front of a list -/

theorem length_le_encodeItems {x : Item} {items : List Item} (h : x ∈ items) :
    x.encode.length ≤ (encodeItems items).length := by
  induction items with
  | nil => cases h
  | cons y items ih =>
    rw [encodeItems, List.length_append]
    rcases List.mem_cons.1 h with rfl | hmem
    · exact Nat.le_add_right _ _
    · exact Nat.le_trans (ih hmem) (Nat.le_add_left _ _)

theorem natBytes_digit {n : Nat} (h : n ≠ 0) :
    natBytes n = natBytes (n / 256) ++ [UInt8.ofNat (n % 256)] := by
  unfold natBytes
  rw [Nat.digits_def' (by decide) (Nat.pos_of_ne_zero h), List.reverse_cons, List.map_append]
  rfl

theorem natBytes_length_mono {m n : Nat} (h : m ≤ n) :
    (natBytes m).length ≤ (natBytes n).length := by
  unfold natBytes
  rw [List.length_map, List.length_reverse, List.length_map, List.length_reverse]
  exact Nat.le_length_digits_le 256 m n h

theorem encodeStr_head {bytes : List UInt8} (h : bytes.length < 2 ^ 64) :
    ∃ b rest, encodeStr bytes = b :: rest ∧ b.toNat < 0xc0 := by
  have long : ∃ b rest, header 0x80 bytes.length ++ bytes = b :: rest ∧ b.toNat < 0xc0 := by
    have hlen : (natBytes bytes.length).length ≤ 8 := natBytes_length_le (by omega)
    unfold header
    split
    · refine ⟨_, _, rfl, ?_⟩
      rw [UInt8.toNat_ofNat_of_lt' (by show _ < 256; omega)]
      omega
    · refine ⟨_, _, rfl, ?_⟩
      rw [UInt8.toNat_ofNat_of_lt' (by show _ < 256; omega)]
      omega
  unfold encodeStr
  split
  · rename_i b
    split
    · rename_i hb
      rw [UInt8.lt_iff_toNat_lt] at hb
      refine ⟨b, [], rfl, Nat.lt_trans hb (by decide)⟩
    · exact long
  · exact long

/-- A list that is its own rotation by one starts with its last element. -/
theorem head_eq_of_rotation {α : Type} {a b : α} {l : List α} (h : a :: l = l ++ [b]) : a = b := by
  induction l generalizing a with
  | nil => exact (List.cons.inj h).1
  | cons c l ih =>
    obtain ⟨rfl, htail⟩ := List.cons.inj h
    exact ih htail

/-- The shortest form of the number after `n`, in front of what continues it, is never a byte and
    the shortest form of `n`: its digits would all be that byte. -/
theorem natBytes_succ_ne {n : Nat} {c y : UInt8} {p q : List UInt8} (hn : n ≠ 0)
    (hc : 0xc0 < c.toNat) (hy : y.toNat < 0xc0)
    (hlen : (natBytes (n + 1)).length = (natBytes n).length) :
    natBytes (n + 1) ++ y :: p ≠ c :: (natBytes n ++ q) := by
  intro h
  rw [natBytes_digit (show n + 1 ≠ 0 by omega)] at h hlen
  rw [natBytes_digit hn] at h hlen
  simp only [List.length_append, List.length_singleton, Nat.add_right_cancel_iff] at hlen
  simp only [List.append_assoc, List.singleton_append] at h
  rw [← List.cons_append, ← List.singleton_append (l := y :: p), ← List.append_assoc] at h
  obtain ⟨hfront, hback⟩ := List.append_inj h (by simp [hlen])
  obtain ⟨hlast, -⟩ := List.cons.inj hback
  have hmod : n % 256 < 0xc0 := by
    rw [hlast, UInt8.toNat_ofNat_of_lt' (Nat.mod_lt _ (by decide))] at hy
    exact hy
  -- the last digit does not carry, so the other digits of the two numbers are the same
  have hdiv : (n + 1) / 256 = n / 256 := by omega
  rw [hdiv] at hfront
  have hdigit := head_eq_of_rotation hfront.symm
  have hvalue : (UInt8.ofNat ((n + 1) % 256)).toNat = (n + 1) % 256 :=
    UInt8.toNat_ofNat_of_lt' (Nat.mod_lt _ (by decide))
  rw [hdigit, hvalue] at hc
  omega

/-- **No list is a byte in front of another**, when it starts with a string and the other is long. -/
theorem encode_list_ne_cons {xs ys : List Item} {b first : UInt8} {rest : List UInt8}
    (hxs : encodeItems xs = first :: rest) (hfirst : first.toNat < 0xc0)
    (hys : 56 ≤ (encodeItems ys).length) (hlong : (encodeItems ys).length < 2 ^ 64) :
    (Item.list xs).encode ≠ b :: (Item.list ys).encode := by
  intro h
  rw [encode_list, encode_list] at h
  have hk : (natBytes (encodeItems ys).length).length ≤ 8 := natBytes_length_le (by omega)
  have hc : (UInt8.ofNat (0xc0 + 55 + (natBytes (encodeItems ys).length).length)).toNat =
      0xc0 + 55 + (natBytes (encodeItems ys).length).length :=
    UInt8.toNat_ofNat_of_lt' (by show _ < 256; omega)
  have hheader : header 0xc0 (encodeItems ys).length =
      UInt8.ofNat (0xc0 + 55 + (natBytes (encodeItems ys).length).length) ::
        natBytes (encodeItems ys).length := if_neg (by omega)
  rw [hheader] at h
  have hlen := congrArg List.length h
  unfold header at h hlen
  split at h
  · -- the payload of the first list would start with the header of the second
    simp only [List.cons_append, List.nil_append] at h
    have hpayload := (List.cons.inj h).2
    rw [hxs] at hpayload
    rw [(List.cons.inj hpayload).1, hc] at hfirst
    omega
  · rename_i hshort
    rw [if_neg hshort] at hlen
    simp only [List.cons_append, List.length_cons, List.length_append] at hlen
    have hsucc : (encodeItems xs).length = (encodeItems ys).length + 1 := by
      rcases Nat.lt_or_ge (encodeItems ys).length (encodeItems xs).length with hlt | hge
      · have hmono := natBytes_length_mono (Nat.le_of_lt hlt)
        omega
      · have hmono := natBytes_length_mono hge
        omega
    simp only [List.cons_append] at h
    have htail := (List.cons.inj h).2
    rw [hsucc] at htail hlen
    rw [hxs] at htail
    exact natBytes_succ_ne (by omega) (by rw [hc]; omega) hfirst (by omega) htail

end Rlp
