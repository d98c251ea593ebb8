import Mathlib

/-!
# Nibbles and the hex-prefix encoding

* `nibbles` / `pack` — a byte string as half bytes, high half first, and back.
* `hexPrefix leaf path` — a nibble path with its flag nibbles in front (`flags`): bit 1 tells a
  leaf from an extension, bit 0 an odd path from an even one, and an even path is padded.
* `nibbles_pack`, `nibbles_hexPrefix` — packing loses nothing.
* `commonPrefixLength` — how far two lists agree; `commonPrefixLength_longest` — **so far, and no
  further**.
-/

set_option autoImplicit false

namespace Nibble

/-- There are nibbles, so that `0 : Fin 16` is one. -/
instance instNeZeroNibbles : NeZero 16 := ⟨by decide⟩

/-- High half of a byte. -/
def hi (b : UInt8) : Fin 16 := ⟨b.toNat / 16, by have := b.toNat_lt; omega⟩

/-- Low half of a byte. -/
def lo (b : UInt8) : Fin 16 := ⟨b.toNat % 16, by omega⟩

/-- The byte with the given halves. -/
def byte (h l : Fin 16) : UInt8 := UInt8.ofNat (16 * h.val + l.val)

/-- The half bytes of a byte string, high half first. -/
def nibbles : List UInt8 → List (Fin 16)
  | [] => []
  | b :: bs => hi b :: lo b :: nibbles bs

/-- The bytes of an even number of half bytes. -/
def pack : List (Fin 16) → List UInt8
  | h :: l :: rest => byte h l :: pack rest
  | _ => []

theorem byte_toNat (h l : Fin 16) : (byte h l).toNat = 16 * h.val + l.val := by
  have := h.isLt
  have := l.isLt
  exact UInt8.toNat_ofNat_of_lt' (by show _ < 256; omega)

theorem hi_byte (h l : Fin 16) : hi (byte h l) = h := by
  apply Fin.ext
  have := l.isLt
  simp only [hi, byte_toNat]
  omega

theorem lo_byte (h l : Fin 16) : lo (byte h l) = l := by
  apply Fin.ext
  have := l.isLt
  simp only [lo, byte_toNat]
  omega

theorem nibbles_length : ∀ bs : List UInt8, (nibbles bs).length = 2 * bs.length
  | [] => rfl
  | b :: bs => by simp only [nibbles, List.length_cons, nibbles_length bs]; omega

theorem nibbles_append : ∀ a b : List UInt8, nibbles (a ++ b) = nibbles a ++ nibbles b
  | [], _ => rfl
  | x :: a, b => by simp only [List.cons_append, nibbles, nibbles_append a b]

/-- The nibble at an offset is a half of the byte at half the offset. -/
theorem nibbles_getElem? : ∀ (bs : List UInt8) (i : Nat),
    (nibbles bs)[i]? = (bs[i / 2]?).map fun b => if i % 2 = 0 then hi b else lo b
  | [], i => by simp [nibbles]
  | b :: bs, 0 => by simp [nibbles]
  | b :: bs, 1 => by simp [nibbles]
  | b :: bs, i + 2 => by
    have ih := nibbles_getElem? bs i
    have hd : (i + 2) / 2 = i / 2 + 1 := by omega
    have hm : (i + 2) % 2 = i % 2 := by omega
    simp only [nibbles, List.getElem?_cons_succ, ih, hd, hm]

theorem nibbles_pack : ∀ ns : List (Fin 16), ns.length % 2 = 0 → nibbles (pack ns) = ns
  | [], _ => rfl
  | [_], h => by simp at h
  | a :: b :: rest, h => by
    have hr : rest.length % 2 = 0 := by simp only [List.length_cons] at h; omega
    simp only [pack, nibbles, hi_byte, lo_byte, nibbles_pack rest hr]

theorem byte_hi_lo (b : UInt8) : byte (hi b) (lo b) = b := by
  apply UInt8.toNat_inj.1
  rw [byte_toNat]
  show 16 * (b.toNat / 16) + b.toNat % 16 = b.toNat
  omega

theorem pack_nibbles : ∀ bs : List UInt8, pack (nibbles bs) = bs
  | [] => rfl
  | b :: bs => by simp only [nibbles, pack, byte_hi_lo, pack_nibbles bs]

theorem drop_nibbles_length (bs : List UInt8) (k : Nat) :
    ((nibbles bs).drop k).length = 2 * bs.length - k := by
  rw [List.length_drop, nibbles_length]

/-- The flag nibbles in front of a path. -/
def flags (leaf : Bool) (path : List (Fin 16)) : List (Fin 16) :=
  if path.length % 2 = 1 then [if leaf then 3 else 1] else [if leaf then 2 else 0, 0]

/-- The hex-prefix encoding of a path. -/
def hexPrefix (leaf : Bool) (path : List (Fin 16)) : List UInt8 := pack (flags leaf path ++ path)

theorem flags_length (leaf : Bool) (path : List (Fin 16)) :
    (flags leaf path).length = 2 - path.length % 2 := by
  unfold flags
  split
  · simp only [List.length_singleton]; omega
  · simp only [List.length_cons, List.length_nil]; omega

/-- **Packing loses nothing**: the nibbles of a hex-prefix encoding are the flags and the path. -/
theorem nibbles_hexPrefix (leaf : Bool) (path : List (Fin 16)) :
    nibbles (hexPrefix leaf path) = flags leaf path ++ path := by
  refine nibbles_pack _ ?_
  rw [List.length_append, flags_length]
  omega

/-! ## Suffixes -/

section Suffix

variable {α : Type} {as : List α} {k : Nat} {a : α} {rest : List α}

theorem getElem?_of_drop (h : as.drop k = a :: rest) : as[k]? = some a := by
  rw [← List.head?_drop, h, List.head?_cons]

theorem drop_succ_of_drop (h : as.drop k = a :: rest) : as.drop (k + 1) = rest := by
  rw [← List.tail_drop, h, List.tail_cons]

end Suffix

/-! ## Common prefixes -/

section CommonPrefix

variable {α : Type} [DecidableEq α]

/-- Length of the longest common prefix of two lists. -/
def commonPrefixLength : List α → List α → Nat
  | a :: as, b :: bs => if a = b then commonPrefixLength as bs + 1 else 0
  | _, _ => 0

theorem commonPrefixLength_le_left : ∀ as bs : List α, commonPrefixLength as bs ≤ as.length
  | [], bs => by cases bs <;> simp [commonPrefixLength]
  | a :: as, [] => by simp [commonPrefixLength]
  | a :: as, b :: bs => by
    have ih := commonPrefixLength_le_left as bs
    simp only [commonPrefixLength, List.length_cons]
    split <;> omega

theorem commonPrefixLength_le_right : ∀ as bs : List α, commonPrefixLength as bs ≤ bs.length
  | [], bs => by cases bs <;> simp [commonPrefixLength]
  | a :: as, [] => by simp [commonPrefixLength]
  | a :: as, b :: bs => by
    have ih := commonPrefixLength_le_right as bs
    simp only [commonPrefixLength, List.length_cons]
    split <;> omega

/-- A list is exhausted by the common prefix exactly when it is a prefix. -/
theorem commonPrefixLength_eq_length_iff : ∀ as bs : List α,
    commonPrefixLength as bs = bs.length ↔ bs <+: as
  | [], [] => by simp [commonPrefixLength]
  | [], b :: bs => by simp [commonPrefixLength]
  | a :: as, [] => by simp [commonPrefixLength]
  | a :: as, b :: bs => by
    have ih := commonPrefixLength_eq_length_iff as bs
    simp only [commonPrefixLength, List.length_cons, List.cons_prefix_cons, ← ih]
    split
    · rename_i h
      simp [h]
    · rename_i h
      simp [Ne.symm h]

/-- The longest of the common prefixes of two lists. -/
structure IsLongestCommonPrefix (common as bs : List α) : Prop where
  left : common <+: as
  right : common <+: bs
  longest : ∀ other, other <+: as → other <+: bs → other <+: common

/-- **The common prefix ends where the lists differ.** -/
theorem commonPrefixLength_longest : ∀ as bs : List α,
    IsLongestCommonPrefix (as.take (commonPrefixLength as bs)) as bs
  | [], bs => by
    rw [List.take_nil]
    exact ⟨List.prefix_rfl, List.nil_prefix, fun other hleft _ => hleft⟩
  | a :: as, [] => by
    rw [commonPrefixLength, List.take_zero]
    · exact ⟨List.nil_prefix, List.prefix_rfl, fun other _ hright => hright⟩
    · rintro _ _ _ _ _ ⟨⟩
  | a :: as, b :: bs => by
    have ih := commonPrefixLength_longest as bs
    by_cases h : a = b
    · subst h
      rw [commonPrefixLength, if_pos rfl, List.take_succ_cons]
      refine ⟨List.cons_prefix_cons.2 ⟨rfl, ih.left⟩, List.cons_prefix_cons.2 ⟨rfl, ih.right⟩, ?_⟩
      intro other hleft hright
      cases other with
      | nil => exact List.nil_prefix
      | cons o other =>
        obtain ⟨rfl, has⟩ := List.cons_prefix_cons.1 hleft
        have hbs := (List.cons_prefix_cons.1 hright).2
        exact List.cons_prefix_cons.2 ⟨rfl, ih.longest other has hbs⟩
    · rw [commonPrefixLength, if_neg h, List.take_zero]
      refine ⟨List.nil_prefix, List.nil_prefix, ?_⟩
      intro other hleft hright
      cases other with
      | nil => exact List.nil_prefix
      | cons o other =>
        have ha := (List.cons_prefix_cons.1 hleft).1
        have hb := (List.cons_prefix_cons.1 hright).1
        exact absurd (ha.symm.trans hb) h

end CommonPrefix

end Nibble
