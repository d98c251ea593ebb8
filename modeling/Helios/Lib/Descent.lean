import Mathlib

/-!
# Lists that go down by one

* `Descends` — each entry is related to the one after it, and its rank is one more.
* `rank_lt` — everything after the first entry ranks below it; `exists_lowest` — some entry ranks
  lowest.
* `rank_between` — **the ranks have no hole**; `related_of_adjacent` — **entries whose ranks differ
  by one are related**.
-/

set_option autoImplicit false

namespace Descent

variable {α : Type} {R : α → α → Prop} {rank : α → Nat} {top p q : α} {below : List α}

/-- The list below an entry: each is related to the one after it and ranks one higher. -/
def Descends (R : α → α → Prop) (rank : α → Nat) : α → List α → Prop
  | _, [] => True
  | top, next :: below => (R top next ∧ rank top = rank next + 1) ∧ Descends R rank next below

theorem rank_lt : ∀ {below : List α} {top : α}, Descends R rank top below → ∀ p ∈ below,
    rank p < rank top
  | next :: below, top, h, p, hp => by
    obtain ⟨⟨_, hrank⟩, hbelow⟩ := h
    rcases List.mem_cons.1 hp with rfl | hp
    · omega
    · have := rank_lt hbelow p hp
      omega

theorem exists_lowest : ∀ {below : List α} {top : α}, Descends R rank top below →
    ∃ p ∈ top :: below, ∀ q ∈ top :: below, rank p ≤ rank q
  | [], top, _ => by
    refine ⟨top, List.mem_cons_self, fun q hq => ?_⟩
    rw [List.mem_singleton.1 hq]
  | next :: below, top, h => by
    obtain ⟨⟨_, hrank⟩, hbelow⟩ := h
    obtain ⟨p, hp, hlowest⟩ := exists_lowest hbelow
    refine ⟨p, List.mem_cons_of_mem _ hp, fun q hq => ?_⟩
    rcases List.mem_cons.1 hq with rfl | hq
    · have := hlowest next List.mem_cons_self
      omega
    · exact hlowest q hq

theorem rank_between : ∀ {below : List α} {top p q : α}, Descends R rank top below →
    p ∈ top :: below → q ∈ top :: below → ∀ n, rank p ≤ n → n ≤ rank q →
      ∃ r ∈ top :: below, rank r = n
  | [], top, p, q, _, hp, hq, n, hpn, hnq => by
    rw [List.mem_singleton.1 hp] at hpn
    rw [List.mem_singleton.1 hq] at hnq
    exact ⟨top, List.mem_cons_self, by omega⟩
  | next :: below, top, p, q, h, hp, hq, n, hpn, hnq => by
    have hlt := rank_lt h
    obtain ⟨⟨_, hrank⟩, hbelow⟩ := h
    by_cases htop : rank top ≤ n
    · refine ⟨top, List.mem_cons_self, ?_⟩
      rcases List.mem_cons.1 hq with rfl | hq
      · omega
      · have := hlt q hq
        omega
    · rcases List.mem_cons.1 hp with rfl | hp
      · omega
      · obtain ⟨r, hr, hrn⟩ : ∃ r ∈ next :: below, rank r = n :=
          rank_between hbelow hp List.mem_cons_self n hpn (by omega)
        exact ⟨r, List.mem_cons_of_mem _ hr, hrn⟩

theorem related_of_adjacent : ∀ {below : List α} {top p q : α}, Descends R rank top below →
    p ∈ top :: below → q ∈ top :: below → rank q = rank p + 1 → R q p
  | [], top, p, q, _, hp, hq, hadj => by
    rw [List.mem_singleton.1 hp, List.mem_singleton.1 hq] at hadj
    omega
  | next :: below, top, p, q, h, hp, hq, hadj => by
    have hlt := rank_lt h
    obtain ⟨⟨hnext, hrank⟩, hbelow⟩ := h
    rcases List.mem_cons.1 hq with rfl | hqbelow
    · rcases List.mem_cons.1 hp with rfl | hpbelow
      · omega
      · -- below the second entry everything ranks lower still
        rcases List.mem_cons.1 hpbelow with rfl | hplower
        · exact hnext
        · have := rank_lt hbelow p hplower
          omega
    · rcases List.mem_cons.1 hp with rfl | hpbelow
      · have := hlt q hqbelow
        omega
      · exact related_of_adjacent hbelow hpbelow hqbelow hadj

end Descent
