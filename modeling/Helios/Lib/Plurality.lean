import Mathlib

/-!
# The most common element of a list

Elements are counted in a hash map, and the largest count is looked for in the order in which the
map happens to be iterated.

* `maxByKey` — the last of the elements with the largest key.
* `tally` — the counts; `mem_tally_iff` — what the map holds.
* `IterationOrder` — an order in which a map lists its entries, with the proof that it lists them all.
* `IsPlurality` — an element that no other one exceeds.
* `mostCommon_plurality` — **what is found is one**, in whatever order; `mostCommon_unique` — if there
  is only one, the order does not matter.
-/

set_option autoImplicit false

namespace Plurality

/-! ## Largest keys -/

section MaxByKey

variable {α κ : Type} [LinearOrder κ] {key : α → κ} {xs : List α} {a : α}

/-- The last of the elements with the largest key. -/
def maxByKey (key : α → κ) (xs : List α) : Option α := xs.reverse.argmax key

theorem maxByKey_eq_none : maxByKey key xs = none ↔ xs = [] := by
  rw [maxByKey, List.argmax_eq_none, List.reverse_eq_nil_iff]

theorem maxByKey_mem (h : maxByKey key xs = some a) : a ∈ xs :=
  List.mem_reverse.1 (List.argmax_mem h)

theorem le_of_maxByKey (h : maxByKey key xs = some a) {b : α} (hb : b ∈ xs) : key b ≤ key a :=
  List.le_of_mem_argmax (List.mem_reverse.2 hb) h

end MaxByKey

/-! ## Pluralities -/

section Tally

variable {α : Type} [BEq α]

/-- No other element is more common. -/
structure IsPlurality (xs : List α) (a : α) : Prop where
  mem : a ∈ xs
  most : ∀ b, xs.count b ≤ xs.count a

theorem IsPlurality.perm {xs ys : List α} {a : α} (hperm : xs.Perm ys) (h : IsPlurality xs a) :
    IsPlurality ys a where
  mem := hperm.mem_iff.1 h.mem
  most b := by
    rw [← hperm.count_eq b, ← hperm.count_eq a]
    exact h.most b

/-! ## Counts -/

variable [Hashable α]

/-- One more of an element (`*m.entry(x).or_default() += 1`). -/
def countOne (m : Std.HashMap α Nat) (x : α) : Std.HashMap α Nat := m.insert x (m.getD x 0 + 1)

def tally (xs : List α) : Std.HashMap α Nat := xs.foldl countOne ∅

/-- An order in which the entries of a map are listed. -/
structure IterationOrder (α : Type) [BEq α] [Hashable α] where
  entries : Std.HashMap α Nat → List (α × Nat)
  perm : ∀ m, (entries m).Perm m.toList

/-- The element of the last of the largest counts. -/
def mostCommon (order : IterationOrder α) (xs : List α) : Option α :=
  (maxByKey Prod.snd (order.entries (tally xs))).map Prod.fst

variable [LawfulBEq α] {xs : List α} {a : α} {n : Nat} {order : IterationOrder α}

/-- A fold adds the counts of the list to those of the map. -/
theorem foldl_countOne_getD : ∀ {xs : List α} {m : Std.HashMap α Nat},
    (xs.foldl countOne m).getD a 0 = m.getD a 0 + xs.count a
  | [], m => rfl
  | x :: xs, m => by
    rw [List.foldl_cons, foldl_countOne_getD, countOne, Std.HashMap.getD_insert, List.count_cons]
    by_cases hx : x = a
    · subst hx
      simp only [beq_self_eq_true, if_true]
      omega
    · simp only [beq_eq_false_iff_ne.2 hx, Bool.false_eq_true, if_false]
      omega

theorem mem_foldl_countOne : ∀ {xs : List α} {m : Std.HashMap α Nat},
    a ∈ xs.foldl countOne m ↔ a ∈ m ∨ a ∈ xs
  | [], m => by simp
  | x :: xs, m => by
    rw [List.foldl_cons, mem_foldl_countOne, countOne, Std.HashMap.mem_insert, List.mem_cons,
      beq_iff_eq, eq_comm]
    tauto

/-- The map holds the elements of the list, each with its count. -/
theorem mem_tally_iff : (a, n) ∈ (tally xs).toList ↔ a ∈ xs ∧ xs.count a = n := by
  have hcount : (tally xs).getD a 0 = xs.count a := by
    rw [tally, foldl_countOne_getD, Std.HashMap.getD_empty, Nat.zero_add]
  have hmem : a ∈ tally xs ↔ a ∈ xs := by
    rw [tally, mem_foldl_countOne]
    simp
  rw [Std.HashMap.mem_toList_iff_getElem?_eq_some, ← hmem, ← hcount,
    Std.HashMap.getD_eq_getD_getElem?, Std.HashMap.mem_iff_isSome_getElem?]
  cases (tally xs)[a]? <;> simp

/-! ## The most common element -/

theorem mostCommon_eq_none : mostCommon order xs = none ↔ xs = [] := by
  rw [mostCommon, Option.map_eq_none_iff, maxByKey_eq_none]
  constructor
  · intro h
    rw [List.eq_nil_iff_forall_not_mem]
    intro a ha
    have hentry : (a, xs.count a) ∈ order.entries (tally xs) :=
      (order.perm _).mem_iff.2 (mem_tally_iff.2 ⟨ha, rfl⟩)
    rw [h] at hentry
    cases hentry
  · rintro rfl
    rw [List.eq_nil_iff_forall_not_mem]
    rintro ⟨a, n⟩ hentry
    cases (mem_tally_iff.1 ((order.perm _).mem_iff.1 hentry)).1

/-- **What is found is a plurality**, in whatever order the map is iterated. -/
theorem mostCommon_plurality (h : mostCommon order xs = some a) : IsPlurality xs a := by
  obtain ⟨⟨a, n⟩, hmax, rfl⟩ := Option.map_eq_some_iff.1 h
  obtain ⟨hmem, rfl⟩ := mem_tally_iff.1 ((order.perm _).mem_iff.1 (maxByKey_mem hmax))
  refine ⟨hmem, fun b => ?_⟩
  by_cases hb : b ∈ xs
  · have hentry : (b, xs.count b) ∈ order.entries (tally xs) :=
      (order.perm _).mem_iff.2 (mem_tally_iff.2 ⟨hb, rfl⟩)
    exact le_of_maxByKey hmax hentry
  · rw [List.count_eq_zero_of_not_mem hb]
    exact Nat.zero_le _

/-- A list with elements has a most common one. -/
theorem exists_mostCommon (h : xs ≠ []) : ∃ a, mostCommon order xs = some a := by
  rw [← Option.isSome_iff_exists, Option.isSome_iff_ne_none]
  exact fun hnone => h (mostCommon_eq_none.1 hnone)

/-- **The only plurality is found in every order.** -/
theorem mostCommon_unique (h : IsPlurality xs a) (hunique : ∀ b, IsPlurality xs b → b = a) :
    mostCommon order xs = some a := by
  obtain ⟨b, hb⟩ := @exists_mostCommon _ _ _ _ xs order (List.ne_nil_of_mem h.mem)
  rw [hb, hunique b (mostCommon_plurality hb)]

end Tally

end Plurality
