import Helios.Client.Rpc
import Helios.Consensus.Wire

/-!
# Block tags and quantities (`common/src/types.rs`, `common/src/utils.rs`)

* `BlockTag.display`, `BlockTag.deserialize` — a block tag as text, and from text: a name, a
  hexadecimal number behind `"0x"`, or a decimal number.
* `ofDigits_beBytes` — the half bytes of a word are the digits of its number.
* `formatHex_eq` — `format_hex` prints the number of the word.
* `quantities_round_trip` — **every encoder is read back**.
-/

set_option autoImplicit false

namespace Helios

open Nibble

namespace BlockTag

def display : BlockTag → List Char
  | .latest => ['l', 'a', 't', 'e', 's', 't']
  | .finalized => ['f', 'i', 'n', 'a', 'l', 'i', 'z', 'e', 'd']
  | .number num => Nat.toDigits 10 num.toNat

/-- `u64::from_str_radix(hex_block, 16)` -/
def fromStrRadix16 (hexBlock : List Char) : Option UInt64 :=
  (Radix.parse Hex.value (2 ^ 64) hexBlock).map UInt64.ofNat

def deserialize (block : List Char) : Result BlockTag :=
  let parseError : Fault := .err (.message "could not parse block tag")
  if block = ['l', 'a', 't', 'e', 's', 't'] then .ok .latest
  else if block = ['f', 'i', 'n', 'a', 'l', 'i', 'z', 'e', 'd'] then .ok .finalized
  else
    match strip0x block with
    | some hexBlock =>
      match fromStrRadix16 hexBlock with
      | some num => .ok (.number num)
      | none => .error parseError
    | none =>
      match parseU64 block with
      | some num => .ok (.number num)
      | none => .error parseError

end BlockTag

/-! ## Words -/

/-- The bytes of a number with one byte more: the quotient's, and the remainder. -/
theorem beBytes_succ (m num : Nat) :
    (beBytes (m + 1) num).toList = (beBytes m (num / 256)).toList ++ [UInt8.ofNat num] := by
  show (List.range (m + 1)).map _ = (List.range m).map _ ++ _
  rw [List.range_succ, List.map_append, List.map_singleton]
  congr 1
  · apply List.map_congr_left
    intro i hi
    rw [List.mem_range] at hi
    have hexp : m + 1 - 1 - i = (m - 1 - i) + 1 := by omega
    rw [hexp, Nat.pow_succ', Nat.div_div_eq_div_mul]
  · rw [Nat.add_sub_cancel, Nat.sub_self, Nat.pow_zero, Nat.div_one]

/-- The half bytes of a word are the digits of its number. -/
theorem ofDigits_beBytes (m : Nat) : ∀ num,
    Radix.ofDigits 0 (nibbles (beBytes m num).toList) = num % 256 ^ m := by
  induction m with
  | zero =>
    intro num
    rw [Nat.pow_zero, Nat.mod_one]
    rfl
  | succ m ih =>
    intro num
    rw [beBytes_succ, nibbles_append, Radix.ofDigits_append, ih]
    show (num / 256 % 256 ^ m * 16 + (UInt8.ofNat num).toNat / 16) * 16 +
      (UInt8.ofNat num).toNat % 16 = _
    have hbyte : (UInt8.ofNat num).toNat = num % 256 := UInt8.toNat_ofNat'
    have hmod : num % 256 ^ (m + 1) = num % 256 + 256 * (num / 256 % 256 ^ m) := by
      rw [Nat.pow_succ', Nat.mod_mul]
    rw [hbyte, hmod]
    omega

/-- `format_hex` prints the number of the word, without zeros in front. -/
theorem formatHex_eq (n : U256) : formatHex n = .ok ('0' :: 'x' :: Nat.toDigits 16 n.toNat) := by
  have hvalue : Radix.ofDigits 0 (nibbles (beBytes 32 n.toNat).toList) = n.toNat := by
    rw [ofDigits_beBytes]
    exact Nat.mod_eq_of_lt n.isLt
  have hprint := Radix.toDigits_dropWhile (by decide) (nibbles (beBytes 32 n.toNat).toList)
  rw [hvalue] at hprint
  have hdigits : Hex.encode (beBytes 32 n.toNat).toList =
      (nibbles (beBytes 32 n.toNat).toList).map fun d => Nat.digitChar d.val := by
    rw [Hex.encode]
    exact List.map_congr_left fun d _ => Hex.digit_eq d
  unfold formatHex encodeHex
  simp only [strip0x, hdigits]
  rw [hprint]

/-! ## Tags -/

namespace BlockTag

theorem fromStrRadix16_toDigits {n : Nat} (h : n < 2 ^ 64) :
    fromStrRadix16 (Nat.toDigits 16 n) = some (UInt64.ofNat n) := by
  rw [fromStrRadix16, Radix.parse_toDigits (by decide) Hex.reads h, Option.map_some]

/-- Hexadecimal digits behind `"0x"`. -/
theorem deserialize_hex {n : Nat} (h : n < 2 ^ 64) :
    deserialize ('0' :: 'x' :: Nat.toDigits 16 n) = .ok (.number (UInt64.ofNat n)) := by
  have hlatest : ¬ '0' :: 'x' :: Nat.toDigits 16 n = ['l', 'a', 't', 'e', 's', 't'] := by
    intro heq
    exact absurd (List.cons.inj heq).1 (by decide)
  have hfinalized : ¬ '0' :: 'x' :: Nat.toDigits 16 n =
      ['f', 'i', 'n', 'a', 'l', 'i', 'z', 'e', 'd'] := by
    intro heq
    exact absurd (List.cons.inj heq).1 (by decide)
  unfold deserialize
  simp only [hlatest, hfinalized, if_false, strip0x, fromStrRadix16_toDigits h]

/-- Text with a character that is no decimal digit is not a printed number. -/
theorem toDigits_ne {n : Nat} {s : List Char} {c : Char} (hc : c ∈ s) (hdigit : c.isDigit = false) :
    Nat.toDigits 10 n ≠ s := by
  rintro rfl
  rw [Nat.isDigit_of_mem_toDigits (by decide) (by decide) hc] at hdigit
  cases hdigit

theorem strip0x_toDigits (n : Nat) : strip0x (Nat.toDigits 10 n) = none := by
  rw [Option.eq_none_iff_forall_ne_some]
  intro digits h
  rw [strip0x_eq_some_iff] at h
  exact toDigits_ne (List.mem_cons_of_mem _ List.mem_cons_self) (by decide : 'x'.isDigit = false) h

/-- Decimal digits. -/
theorem deserialize_decimal (num : UInt64) :
    deserialize (Nat.toDigits 10 num.toNat) = .ok (.number num) := by
  have hlatest : Nat.toDigits 10 num.toNat ≠ ['l', 'a', 't', 'e', 's', 't'] :=
    toDigits_ne List.mem_cons_self (by decide)
  have hfinalized : Nat.toDigits 10 num.toNat ≠ ['f', 'i', 'n', 'a', 'l', 'i', 'z', 'e', 'd'] :=
    toDigits_ne List.mem_cons_self (by decide)
  have hparse : parseU64 (Nat.toDigits 10 num.toNat) = some num := by
    rw [parseU64, Decimal.parse, Radix.parse_toDigits (by decide) Decimal.reads num.toNat_lt,
      Option.map_some, UInt64.ofNat_toNat]
  unfold deserialize
  simp only [hlatest, hfinalized, if_false, strip0x_toDigits, hparse]

/-- A tag is read from its own text. -/
theorem deserialize_display (tag : BlockTag) : deserialize tag.display = .ok tag := by
  cases tag with
  | latest => rfl
  | finalized => rfl
  | number num => exact deserialize_decimal num

end BlockTag

/-- **Block tags and quantities round-trip.**  A number of 64 bits is read from the text of
    `u64_to_hex_string`, a tag from its own text; and `format_hex` prints a word as the digits of its
    number, without a zero in front of them, from which the number is read, as a block tag too when it
    has 64 bits. -/
theorem quantities_round_trip :
    (∀ n : UInt64, BlockTag.deserialize (u64ToHexString n) = .ok (.number n)) ∧
    (∀ tag : BlockTag, BlockTag.deserialize tag.display = .ok tag) ∧
    ∀ n : U256, ∃ digits, formatHex n = .ok ('0' :: 'x' :: digits) ∧
      digits = Nat.toDigits 16 n.toNat ∧ (n.toNat = 0 → digits = ['0']) ∧
      (n.toNat ≠ 0 → digits.head? ≠ some '0') ∧
      Radix.parse Hex.value (2 ^ 256) digits = some n.toNat ∧
      (n.toNat < 2 ^ 64 →
        BlockTag.deserialize ('0' :: 'x' :: digits) = .ok (.number (UInt64.ofNat n.toNat))) := by
  refine ⟨fun n => ?_, BlockTag.deserialize_display, fun n => ?_⟩
  · have h := BlockTag.deserialize_hex n.toNat_lt
    rwa [UInt64.ofNat_toNat] at h
  · refine ⟨_, formatHex_eq n, rfl, ?_, ?_, ?_, ?_⟩
    · intro hzero
      rw [hzero, Nat.toDigits_zero]
    · intro hpos
      exact Radix.head_toDigits (by decide) (Nat.pos_of_ne_zero hpos)
    · exact Radix.parse_toDigits (by decide) Hex.reads n.isLt
    · exact fun hlt => BlockTag.deserialize_hex hlt

example : BlockTag.deserialize ['0', 'x', '1', '0', 'f'] = .ok (.number 271) := by decide

end Helios
