import Helios.Execution.Proof

/-!
# The nibble helpers are exact

* `sharedPrefixLength_longest`, `pathsMatch_iff` — what the loops compute on nibble lists.
* `nibble_helpers_exact` — **all of them together, with the flags of a hex-prefix path**; the
  operands of each subtraction are in order, and no index leaves its bounds.
-/

set_option autoImplicit false

namespace Helios

open Nibble

variable {path nodePath p1 p2 : Bytes} {pathOffset s1 s2 : Nat}

/-- `shared_prefix_length` is the length of the longest common prefix of the two suffixes. -/
theorem sharedPrefixLength_longest :
    ∃ common, sharedPrefixLength path pathOffset nodePath = .ok common.length ∧
      IsLongestCommonPrefix common ((nibbles path).drop pathOffset)
        ((nibbles nodePath).drop (skipLength nodePath)) := by
  refine ⟨_, ?_, commonPrefixLength_longest _ _⟩
  have hle := commonPrefixLength_le_left ((nibbles path).drop pathOffset)
    ((nibbles nodePath).drop (skipLength nodePath))
  rw [sharedPrefixLength_eq, List.length_take, Nat.min_eq_left hle]

theorem pathsMatch_iff (h1 : s1 ≤ 2 * p1.length) (h2 : s2 ≤ 2 * p2.length) :
    ∃ isMatch, pathsMatch p1 s1 p2 s2 = .ok isMatch ∧
      (isMatch = true ↔ (nibbles p1).drop s1 = (nibbles p2).drop s2) :=
  ⟨_, pathsMatch_eq h1 h2, decide_eq_true_iff⟩

/-- **The nibble helpers are exact.**  Within its bounds `get_nibble` is a nibble of the path;
    `shared_prefix_length` is the length of the longest common prefix, and what it subtracts from
    the length of the node path fits in it; `paths_match` compares the suffixes; and behind
    `skip_length` stands the list that a hex-prefix path encodes. -/
theorem nibble_helpers_exact :
    (∀ (path : Bytes) (offset : Nat), offset < 2 * path.length →
      ∃ n, (nibbles path)[offset]? = some n ∧ getNibble path offset = .ok (nibbleByte n)) ∧
    (∀ (path nodePath : Bytes) (pathOffset : Nat), pathOffset ≤ 2 * path.length →
      skipLength nodePath ≤ 2 * nodePath.length ∧
      ∃ common, sharedPrefixLength path pathOffset nodePath = .ok common.length ∧
        IsLongestCommonPrefix common ((nibbles path).drop pathOffset)
          ((nibbles nodePath).drop (skipLength nodePath))) ∧
    (∀ (p1 p2 : Bytes) (s1 s2 : Nat), s1 ≤ 2 * p1.length → s2 ≤ 2 * p2.length →
      ∃ isMatch, pathsMatch p1 s1 p2 s2 = .ok isMatch ∧
        (isMatch = true ↔ (nibbles p1).drop s1 = (nibbles p2).drop s2)) ∧
    (∀ (leaf : Bool) (list : List (Fin 16)),
      (nibbles (hexPrefix leaf list)).drop (skipLength (hexPrefix leaf list)) = list) := by
  refine ⟨fun path offset h => getNibble_nibbles h, fun path nodePath pathOffset _ => ?_,
    fun p1 p2 s1 s2 h1 h2 => pathsMatch_iff h1 h2, nibbles_drop_skipLength⟩
  refine ⟨?_, sharedPrefixLength_longest⟩
  rw [Nat.mul_comm]
  exact skipLength_le nodePath

/-- A path from its seventh nibble, against a node path of eight nibbles that agrees in five. -/
theorem nibble_helpers_shared :
    skipLength [0x6f, 0x6c, 0x63, 0x21] ≤ 2 * 4 ∧
    ∃ common, sharedPrefixLength [0x12, 0x13, 0x14, 0x6f, 0x6c, 0x64, 0x21] 6
        [0x6f, 0x6c, 0x63, 0x21] = .ok common.length ∧
      IsLongestCommonPrefix common
        ((nibbles [0x12, 0x13, 0x14, 0x6f, 0x6c, 0x64, 0x21]).drop 6)
        ((nibbles [0x6f, 0x6c, 0x63, 0x21]).drop (skipLength [0x6f, 0x6c, 0x63, 0x21])) :=
  nibble_helpers_exact.2.1 _ _ 6 (by decide)

example : sharedPrefixLength [0x12, 0x13, 0x14, 0x6f, 0x6c, 0x64, 0x21] 6
    [0x6f, 0x6c, 0x63, 0x21] = .ok 5 := by decide

example : sharedPrefixLength [0x12, 0x13, 0x14, 0x6f, 0x6c, 0x64, 0x21] 5
    [0x14, 0x6f, 0x6c, 0x64, 0x11] = .ok 7 := by decide

end Helios
