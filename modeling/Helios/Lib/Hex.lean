import Helios.Lib.Nibble
import Helios.Lib.Radix

/-!
# Hexadecimal strings

* `encode` / `decode` — a byte string as lower-case digits, and back; upper-case digits are read
  too.
* `decode_encode` — **round trip**.
* `decode_eq_some_iff`, `decode_isSome_iff` — what is read, and from what.
-/

set_option autoImplicit false

namespace Hex

open Nibble

def digit (n : Fin 16) : Char :=
  if n.val < 10 then Char.ofNat (48 + n.val) else Char.ofNat (87 + n.val)

def value (c : Char) : Option (Fin 16) :=
  let n := c.toNat
  if h : 48 ≤ n ∧ n < 58 then some ⟨n - 48, by omega⟩
  else if h : 97 ≤ n ∧ n < 103 then some ⟨n - 87, by omega⟩
  else if h : 65 ≤ n ∧ n < 71 then some ⟨n - 55, by omega⟩
  else none

def values : List Char → Option (List (Fin 16))
  | [] => some []
  | c :: cs =>
    match value c, values cs with
    | some n, some ns => some (n :: ns)
    | _, _ => none

def encode (bytes : List UInt8) : List Char := (nibbles bytes).map digit

/-- None for a character that is no digit, and for an odd number of digits. -/
def decode (chars : List Char) : Option (List UInt8) :=
  if chars.length % 2 = 0 then (values chars).map pack else none

theorem value_digit (n : Fin 16) : value (digit n) = some n := by
  revert n
  decide

theorem values_map_digit : ∀ ns : List (Fin 16), values (ns.map digit) = some ns
  | [] => rfl
  | n :: ns => by simp only [List.map_cons, values, value_digit, values_map_digit ns]

/-- **Round trip.** -/
theorem decode_encode (bytes : List UInt8) : decode (encode bytes) = some bytes := by
  have hlen : (encode bytes).length % 2 = 0 := by
    rw [encode, List.length_map, nibbles_length]
    omega
  rw [decode, if_pos hlen, encode, values_map_digit, Option.map_some, pack_nibbles]

/-! ## What is read -/

theorem values_eq_some_iff : ∀ {chars : List Char} {ns : List (Fin 16)},
    values chars = some ns ↔ chars.map value = ns.map some
  | [], ns => by cases ns <;> simp [values]
  | c :: cs, ns => by
    unfold values
    cases hc : value c with
    | none => cases ns <;> simp [hc]
    | some m =>
      cases hcs : values cs with
      | none =>
        cases ns with
        | nil => simp
        | cons n ns =>
          have hnone : ¬ cs.map value = ns.map some := by
            rw [← values_eq_some_iff, hcs]
            simp
          simp [hc, hnone]
      | some ms =>
        have hsome := values_eq_some_iff.1 hcs
        cases ns with
        | nil => simp
        | cons n ns =>
          simp only [Option.some.injEq, List.cons.injEq, List.map_cons, hc, hsome]
          rw [List.map_inj_right fun _ _ => Option.some.inj]

/-- **What is read**: the digits are those of the half bytes, in either case. -/
theorem decode_eq_some_iff {chars : List Char} {bytes : List UInt8} :
    decode chars = some bytes ↔ chars.map value = (nibbles bytes).map some := by
  unfold decode
  constructor
  · intro h
    split at h
    · rename_i heven
      obtain ⟨ns, hns, rfl⟩ := Option.map_eq_some_iff.1 h
      rw [values_eq_some_iff] at hns
      have hlen := congrArg List.length hns
      rw [List.length_map, List.length_map] at hlen
      rw [nibbles_pack ns (by omega), hns]
    · cases h
  · intro h
    have hlen := congrArg List.length h
    rw [List.length_map, List.length_map, nibbles_length] at hlen
    rw [if_pos (by omega), values_eq_some_iff.2 h, Option.map_some, pack_nibbles]

/-- A byte string is read from an even number of digits, and from nothing else. -/
theorem decode_isSome_iff {chars : List Char} :
    (∃ bytes, decode chars = some bytes) ↔
      chars.length % 2 = 0 ∧ ∀ c ∈ chars, (value c).isSome := by
  constructor
  · rintro ⟨bytes, h⟩
    rw [decode_eq_some_iff] at h
    have hlen := congrArg List.length h
    rw [List.length_map, List.length_map, nibbles_length] at hlen
    refine ⟨by omega, ?_⟩
    intro c hc
    have hmem : value c ∈ (nibbles bytes).map some := by
      rw [← h]
      exact List.mem_map_of_mem hc
    obtain ⟨n, _, hn⟩ := List.mem_map.1 hmem
    rw [← hn]
    rfl
  · rintro ⟨heven, hall⟩
    have hvalues : ∃ ns, values chars = some ns := by
      refine ⟨chars.map fun c => (value c).getD 0, ?_⟩
      rw [values_eq_some_iff, List.map_map]
      apply List.map_congr_left
      intro c hc
      obtain ⟨n, hn⟩ := Option.isSome_iff_exists.1 (hall c hc)
      simp [hn]
    obtain ⟨ns, hns⟩ := hvalues
    unfold decode
    rw [if_pos heven, hns]
    exact ⟨_, rfl⟩

theorem decode_length {chars : List Char} {bytes : List UInt8} (h : decode chars = some bytes) :
    chars.length = 2 * bytes.length := by
  rw [decode_eq_some_iff] at h
  have hlen := congrArg List.length h
  rw [List.length_map, List.length_map, nibbles_length] at hlen
  exact hlen

/-! ## Numbers -/

theorem digit_eq (n : Fin 16) : digit n = Nat.digitChar n.val := by
  revert n
  decide

theorem reads : Radix.Reads value where
  digitChar := by decide
  plus := by decide
  minus := by decide

end Hex
