import Mathlib

/-!
# Quorums among finitely many members

* `inter_of_card` — two sets of members share at least what their sizes exceed the whole by.
* `quorum_meets_iff` — **every set of a size meets a given set exactly when** the rest is too small
  for one.
* `chosen`, `card_chosen` — the members whose bits are set, and how many they are.
-/

set_option autoImplicit false

namespace Quorum

section Members

variable {α : Type} [Fintype α] [DecidableEq α]

theorem inter_of_card (a b : Finset α) : a.card + b.card ≤ (a ∩ b).card + Fintype.card α := by
  have hunion : (a ∪ b).card ≤ Fintype.card α := Finset.card_le_univ _
  have hsum := Finset.card_union_add_card_inter a b
  omega

theorem exists_shared {a b : Finset α} (h : Fintype.card α < a.card + b.card) :
    ∃ i ∈ a, i ∈ b := by
  have hle := inter_of_card a b
  have hpos : 0 < (a ∩ b).card := by omega
  obtain ⟨i, hi⟩ := Finset.card_pos.1 hpos
  exact ⟨i, Finset.mem_inter.1 hi⟩

/-- **When every quorum has a member of a set.** -/
theorem quorum_meets_iff (size : ℕ) (b : Finset α) :
    (∀ a : Finset α, size ≤ a.card → ∃ i ∈ a, i ∈ b) ↔ Fintype.card α < size + b.card := by
  constructor
  · intro h
    by_contra hsmall
    -- the members outside are themselves a quorum
    have hrest : size ≤ bᶜ.card := by
      rw [Finset.card_compl]
      omega
    obtain ⟨i, hi, hib⟩ := h bᶜ hrest
    exact Finset.mem_compl.1 hi hib
  · intro h a ha
    exact exists_shared (by omega)

end Members

variable {n : ℕ}

/-- The members whose bits are set. -/
def chosen (bits : Vector Bool n) : Finset (Fin n) := Finset.univ.filter fun i => bits[i] = true

@[simp] theorem mem_chosen {bits : Vector Bool n} {i : Fin n} :
    i ∈ chosen bits ↔ bits[i] = true := by
  simp [chosen]

theorem card_chosen (bits : Vector Bool n) : (chosen bits).card = bits.toList.count true := by
  have hcount := Fin.card_filter_univ_eq_vector_get_eq_count true
    (⟨bits.toList, bits.length_toList⟩ : List.Vector Bool n)
  refine Eq.trans (congrArg Finset.card ?_) hcount
  ext i
  simp only [mem_chosen, Finset.mem_filter, Finset.mem_univ, true_and]
  rfl

end Quorum
