import Mathlib
import Std.Data.TreeMap

/-!
# The ends of an ordered map

* `lastValue?`, `lastKey?`, `firstKey?` — the value at the largest key, that key, and the smallest.
* `insertAll` — values go in one after the other, each under its own key.
* `popFirst`, `popWhile` — drop the smallest key, once or until at most so many are left
  (`popWhile_size`: the loop ends there).
* `IsLast` — a key holds a value and no key of the map is larger; kept by inserting below it and by
  dropping smallest keys while one is left.
* `lastValue?_of_isLast` — **the value at the end of the map is the one at its largest key**.
* `Below` — every key of one map has one of another at it or above it; `Below.lastKey?` — so the last
  key of the second is not smaller.
* `popWhile_upper`, `not_mem_popWhile` — dropping smallest keys leaves everything above a key that
  stays, and no key that has the bound's number of keys above it.
-/

set_option autoImplicit false

namespace OrderedMap

open Std

variable {α β γ δ : Type} {cmp : α → α → Ordering}

def lastValue? (m : TreeMap α β cmp) : Option β := m.toList.getLast?.map Prod.snd

def firstKey? (m : TreeMap α β cmp) : Option α := m.toList.head?.map Prod.fst

def lastKey? (m : TreeMap α β cmp) : Option α := m.toList.getLast?.map Prod.fst

def popFirst (m : TreeMap α β cmp) : TreeMap α β cmp :=
  match firstKey? m with
  | some k => m.erase k
  | none => m

/-- `while m.len() > bound { m.pop_first() }`; each pass drops a key, so `m.size` passes do. -/
def popWhile (bound : Nat) : Nat → TreeMap α β cmp → TreeMap α β cmp
  | 0, m => m
  | fuel + 1, m => if bound < m.size then popWhile bound fuel (popFirst m) else m

/-- Values go in one after the other, each under its own key. -/
def insertAll (key : β → α) (m : TreeMap α β cmp) (vs : List β) : TreeMap α β cmp :=
  vs.foldl (fun m v => m.insert (key v) v) m

/-- A key holds a value, and every other key is smaller. -/
structure IsLast (m : TreeMap α β cmp) (k : α) (v : β) : Prop where
  value : m[k]? = some v
  largest : ∀ k', k' ∈ m → k' = k ∨ cmp k' k = .lt

theorem lastKey?_eq_none_iff {m : TreeMap α β cmp} : lastKey? m = none ↔ firstKey? m = none := by
  unfold lastKey? firstKey?
  rw [Option.map_eq_none_iff, Option.map_eq_none_iff, List.getLast?_eq_none_iff,
    List.head?_eq_none_iff]

/-- Every key of the first map has one of the second at it or above it. -/
def Below (m : TreeMap α β cmp) (m' : TreeMap α γ cmp) : Prop :=
  ∀ k, k ∈ m → ∃ k', k' ∈ m' ∧ (k = k' ∨ cmp k k' = .lt)

theorem Below.of_subset {m : TreeMap α β cmp} {m' : TreeMap α γ cmp} (h : ∀ k, k ∈ m → k ∈ m') :
    Below m m' :=
  fun k hk => ⟨k, h k hk, Or.inl rfl⟩

theorem Below.refl (m : TreeMap α β cmp) : Below m m := .of_subset fun _ hk => hk

variable [TransCmp cmp]

theorem mem_of_getElem? {m : TreeMap α β cmp} {k : α} {v : β} (h : m[k]? = some v) : k ∈ m := by
  rw [TreeMap.mem_iff_isSome_getElem?, h]
  rfl

theorem lt_irrefl (k : α) : cmp k k ≠ .lt := by
  have h : cmp k k = .eq := ReflCmp.compare_self
  rw [h]
  simp

theorem lt_asymm {a b : α} (h : cmp a b = .lt) : cmp b a ≠ .lt := by
  have hswap : cmp b a = (cmp a b).swap := OrientedCmp.eq_swap
  rw [hswap, h]
  simp

/-! ## The last value -/

/-- The last entry of the list of a map is at or past every other. -/
theorem getLast?_largest {m : TreeMap α β cmp} {last e : α × β}
    (hlast : m.toList.getLast? = some last) (he : e ∈ m.toList) :
    e = last ∨ cmp e.1 last.1 = .lt := by
  obtain ⟨init, hinit⟩ := List.getLast?_eq_some_iff.1 hlast
  have hord := TreeMap.ordered_keys_toList (t := m)
  rw [hinit] at he hord
  rcases List.mem_append.1 he with h | h
  · right
    exact (List.pairwise_append.1 hord).2.2 e h last (List.mem_singleton.2 rfl)
  · exact Or.inl (List.mem_singleton.1 h)

theorem Below.trans {m : TreeMap α β cmp} {m' : TreeMap α γ cmp} {m'' : TreeMap α δ cmp}
    (h : Below m m') (h' : Below m' m'') : Below m m'' := by
  intro k hk
  obtain ⟨k', hk', hle⟩ := h k hk
  obtain ⟨k'', hk'', hle'⟩ := h' k' hk'
  refine ⟨k'', hk'', ?_⟩
  rcases hle with rfl | hlt
  · exact hle'
  · rcases hle' with rfl | hlt'
    · exact Or.inr hlt
    · exact Or.inr (TransCmp.lt_trans hlt hlt')

variable [LawfulEqCmp cmp]

theorem lastValue?_of_isLast {m : TreeMap α β cmp} {k : α} {v : β} (h : IsLast m k v) :
    lastValue? m = some v := by
  have hmem := TreeMap.mem_toList_iff_getElem?_eq_some.2 h.value
  cases hl : m.toList.getLast? with
  | none =>
    rw [List.getLast?_eq_none_iff] at hl
    rw [hl] at hmem
    cases hmem
  | some last =>
    rw [lastValue?, hl, Option.map_some]
    rcases getLast?_largest hl hmem with heq | hlt
    · rw [← heq]
    · obtain ⟨k', v'⟩ := last
      have hlastmem : (k', v') ∈ m.toList := List.mem_of_getLast? hl
      have hget := TreeMap.mem_toList_iff_getElem?_eq_some.1 hlastmem
      rcases h.largest k' (mem_of_getElem? hget) with rfl | hlt'
      · exact absurd hlt (lt_irrefl k')
      · exact absurd hlt' (lt_asymm hlt)

omit [TransCmp cmp] [LawfulEqCmp cmp] in
theorem lastKey?_eq_none {m : TreeMap α β cmp} : lastKey? m = none ↔ lastValue? m = none := by
  simp [lastKey?, lastValue?]

/-! ## Inserting -/

/-- A value inserted at or past every key is last. -/
theorem isLast_insert_self {m : TreeMap α β cmp} {k : α} {v : β}
    (h : ∀ k', k' ∈ m → k' = k ∨ cmp k' k = .lt) : IsLast (m.insert k v) k v := by
  refine ⟨TreeMap.getElem?_insert_self, fun k' hk' => ?_⟩
  rcases TreeMap.mem_insert.1 hk' with heq | hmem
  · exact Or.inl (LawfulEqCmp.eq_of_compare heq).symm
  · exact h k' hmem

/-- Inserting below the last key, or the same value again, keeps it last. -/
theorem IsLast.insert {m : TreeMap α β cmp} {k k' : α} {v v' : β} (h : IsLast m k v)
    (hlt : cmp k' k = .lt ∨ (k' = k ∧ v' = v)) : IsLast (m.insert k' v') k v := by
  rcases hlt with hlt | ⟨rfl, rfl⟩
  · refine ⟨?_, fun a ha => ?_⟩
    · rw [TreeMap.getElem?_insert, if_neg (by rw [hlt]; simp)]
      exact h.value
    · rcases TreeMap.mem_insert.1 ha with heq | hmem
      · rw [← LawfulEqCmp.eq_of_compare heq]
        exact Or.inr hlt
      · exact h.largest a hmem
  · exact isLast_insert_self h.largest

theorem IsLast.insertAll {key : β → α} {k : α} {v : β} :
    ∀ {vs : List β} {m : TreeMap α β cmp}, IsLast m k v →
      (∀ v' ∈ vs, cmp (key v') k = .lt ∨ (key v' = k ∧ v' = v)) →
      IsLast (OrderedMap.insertAll key m vs) k v
  | [], _, h, _ => h
  | v' :: vs, m, h, hvs => by
    rw [OrderedMap.insertAll, List.foldl_cons]
    exact (h.insert (hvs v' List.mem_cons_self)).insertAll
      fun u hu => hvs u (List.mem_cons_of_mem _ hu)

omit [LawfulEqCmp cmp] in
/-- What is in the map afterwards was there before, or went in. -/
theorem insertAll_getElem? {key : β → α} {k : α} {v : β} :
    ∀ {vs : List β} {m : TreeMap α β cmp}, (insertAll key m vs)[k]? = some v →
      m[k]? = some v ∨ v ∈ vs
  | [], _, h => Or.inl h
  | v' :: vs, m, h => by
    rw [insertAll, List.foldl_cons] at h
    rcases insertAll_getElem? h with hm | hmem
    · rw [TreeMap.getElem?_insert] at hm
      split at hm
      · cases hm
        exact Or.inr List.mem_cons_self
      · exact Or.inl hm
    · exact Or.inr (List.mem_cons_of_mem _ hmem)

/-- Nothing that goes in has the key. -/
theorem insertAll_of_not_mem {key : β → α} {k : α} :
    ∀ {vs : List β} {m : TreeMap α β cmp}, (∀ v ∈ vs, key v ≠ k) →
      (insertAll key m vs)[k]? = m[k]?
  | [], _, _ => rfl
  | v :: vs, m, h => by
    have hne : cmp (key v) k ≠ .eq := fun heq =>
      h v List.mem_cons_self (LawfulEqCmp.eq_of_compare heq)
    have hrest : (insertAll key (m.insert (key v) v) vs)[k]? = (m.insert (key v) v)[k]? :=
      insertAll_of_not_mem fun u hu => h u (List.mem_cons_of_mem _ hu)
    rw [insertAll, List.foldl_cons]
    exact hrest.trans (by rw [TreeMap.getElem?_insert, if_neg hne])

/-- A value that goes in is there afterwards, when nothing else goes in under its key. -/
theorem insertAll_of_mem {key : β → α} {v : β} :
    ∀ {vs : List β} {m : TreeMap α β cmp}, v ∈ vs → (∀ u ∈ vs, key u = key v → u = v) →
      (insertAll key m vs)[key v]? = some v
  | u :: vs, m, hv, h => by
    rw [insertAll, List.foldl_cons]
    by_cases hmem : v ∈ vs
    · exact insertAll_of_mem hmem fun x hx => h x (List.mem_cons_of_mem _ hx)
    · obtain rfl : v = u := (List.mem_cons.1 hv).resolve_right hmem
      have hrest : (insertAll key (m.insert (key v) v) vs)[key v]? =
          (m.insert (key v) v)[key v]? := by
        apply insertAll_of_not_mem
        intro x hx heq
        rw [h x (List.mem_cons_of_mem _ hx) heq] at hx
        exact hmem hx
      exact hrest.trans TreeMap.getElem?_insert_self

omit [LawfulEqCmp cmp] in
theorem mem_insertAll {key : β → α} {k : α} :
    ∀ {vs : List β} {m : TreeMap α β cmp}, k ∈ m → k ∈ insertAll key m vs
  | [], _, h => h
  | v :: vs, m, h => by
    rw [insertAll, List.foldl_cons]
    exact mem_insertAll (TreeMap.mem_insert.2 (Or.inr h))

/-- Inserting what is there changes nothing. -/
theorem insert_same {m : TreeMap α β cmp} {k : α} {v : β} (h : m[k]? = some v) :
    (m.insert k v).size = m.size ∧ ∀ k' : α, (m.insert k v)[k']? = m[k']? := by
  constructor
  · rw [TreeMap.size_insert, if_pos (TreeMap.contains_iff_mem.2 (mem_of_getElem? h))]
  · intro k'
    rw [TreeMap.getElem?_insert]
    split
    · rename_i heq
      rw [← LawfulEqCmp.eq_of_compare heq, h]
    · rfl

/-! ## Dropping the smallest keys -/

omit [LawfulEqCmp cmp] in
theorem popFirst_getElem? {m : TreeMap α β cmp} {k : α} {v : β} (h : (popFirst m)[k]? = some v) :
    m[k]? = some v := by
  unfold popFirst at h
  split at h
  · rw [TreeMap.getElem?_erase] at h
    split at h
    · cases h
    · exact h
  · exact h

omit [LawfulEqCmp cmp] in
/-- What is left is what was there. -/
theorem popWhile_getElem? {bound : Nat} {k : α} {v : β} :
    ∀ {fuel : Nat} {m : TreeMap α β cmp}, (popWhile bound fuel m)[k]? = some v → m[k]? = some v
  | 0, _, h => h
  | fuel + 1, m, h => by
    rw [popWhile] at h
    split at h
    · exact popFirst_getElem? (popWhile_getElem? h)
    · exact h

theorem firstKey?_mem {m : TreeMap α β cmp} {k : α} (h : firstKey? m = some k) : k ∈ m := by
  obtain ⟨⟨k', v⟩, hh, rfl⟩ := Option.map_eq_some_iff.1 h
  exact mem_of_getElem? (TreeMap.mem_toList_iff_getElem?_eq_some.1 (List.mem_of_mem_head? hh))

/-- No key is below the first. -/
theorem firstKey?_smallest {m : TreeMap α β cmp} {first k : α} (h : firstKey? m = some first)
    (hk : k ∈ m) : k = first ∨ cmp first k = .lt := by
  obtain ⟨v, hv⟩ := Option.isSome_iff_exists.1 (TreeMap.mem_iff_isSome_getElem?.1 hk)
  have hmem : (k, v) ∈ m.toList := TreeMap.mem_toList_iff_getElem?_eq_some.2 hv
  obtain ⟨entry, hhead, rfl⟩ := Option.map_eq_some_iff.1 h
  obtain ⟨tail, htail⟩ := List.head?_eq_some_iff.1 hhead
  have hord := TreeMap.ordered_keys_toList (t := m)
  rw [htail] at hmem hord
  rcases List.mem_cons.1 hmem with heq | hmem
  · left
    rw [← heq]
  · exact Or.inr ((List.pairwise_cons.1 hord).1 _ hmem)

theorem lastKey?_mem {m : TreeMap α β cmp} {k : α} (h : lastKey? m = some k) : k ∈ m := by
  obtain ⟨⟨k', v⟩, hl, rfl⟩ := Option.map_eq_some_iff.1 h
  exact mem_of_getElem? (TreeMap.mem_toList_iff_getElem?_eq_some.1 (List.mem_of_getLast? hl))

/-- No key is above the last. -/
theorem lastKey?_largest {m : TreeMap α β cmp} {last k : α} (h : lastKey? m = some last)
    (hk : k ∈ m) : k = last ∨ cmp k last = .lt := by
  obtain ⟨v, hv⟩ := Option.isSome_iff_exists.1 (TreeMap.mem_iff_isSome_getElem?.1 hk)
  obtain ⟨entry, hl, rfl⟩ := Option.map_eq_some_iff.1 h
  rcases getLast?_largest hl (TreeMap.mem_toList_iff_getElem?_eq_some.2 hv) with heq | hlt
  · left
    rw [← heq]
  · exact Or.inr hlt

/-- A key is in the list. -/
theorem toList_ne_nil {m : TreeMap α β cmp} {k : α} (h : k ∈ m) : m.toList ≠ [] := by
  obtain ⟨v, hv⟩ := Option.isSome_iff_exists.1 (TreeMap.mem_iff_isSome_getElem?.1 h)
  exact List.ne_nil_of_mem (TreeMap.mem_toList_iff_getElem?_eq_some.2 hv)

/-- A key that no other is below is the first. -/
theorem firstKey?_eq_some {m : TreeMap α β cmp} {first : α} (hmem : first ∈ m)
    (hall : ∀ k, k ∈ m → k = first ∨ cmp first k = .lt) : firstKey? m = some first := by
  cases hfirst : firstKey? m with
  | none =>
    rw [firstKey?, Option.map_eq_none_iff, List.head?_eq_none_iff] at hfirst
    exact absurd hfirst (toList_ne_nil hmem)
  | some k =>
    rcases hall k (firstKey?_mem hfirst) with rfl | hlt
    · rfl
    · rcases firstKey?_smallest hfirst hmem with rfl | hlt'
      · rfl
      · exact absurd hlt' (lt_asymm hlt)

/-- A key that no other is above is the last. -/
theorem lastKey?_eq_some {m : TreeMap α β cmp} {last : α} (hmem : last ∈ m)
    (hall : ∀ k, k ∈ m → k = last ∨ cmp k last = .lt) : lastKey? m = some last := by
  cases hlast : lastKey? m with
  | none =>
    rw [lastKey?, Option.map_eq_none_iff, List.getLast?_eq_none_iff] at hlast
    exact absurd hlast (toList_ne_nil hmem)
  | some k =>
    rcases hall k (lastKey?_mem hlast) with rfl | hlt
    · rfl
    · rcases lastKey?_largest hlast hmem with rfl | hlt'
      · rfl
      · exact absurd hlt' (lt_asymm hlt)

/-- What is above a key that stays is untouched. -/
theorem popFirst_upper {m : TreeMap α β cmp} {k k' : α} (hk : k ∈ popFirst m)
    (hlt : cmp k k' = .lt) : (popFirst m)[k']? = m[k']? := by
  unfold popFirst at hk ⊢
  split
  · rename_i first hfirst
    simp only [hfirst, TreeMap.mem_erase] at hk
    rw [TreeMap.getElem?_erase, if_neg]
    intro heq
    obtain rfl := LawfulEqCmp.eq_of_compare heq
    rcases firstKey?_smallest hfirst hk.2 with rfl | hlt'
    · exact lt_irrefl _ hlt
    · exact lt_asymm hlt hlt'
  · rfl

omit [LawfulEqCmp cmp] in
theorem mem_of_mem_popWhile {bound fuel : Nat} {m : TreeMap α β cmp} {k : α}
    (h : k ∈ popWhile bound fuel m) : k ∈ m := by
  obtain ⟨v, hv⟩ := Option.isSome_iff_exists.1 (TreeMap.mem_iff_isSome_getElem?.1 h)
  exact mem_of_getElem? (popWhile_getElem? hv)

theorem popWhile_upper {bound : Nat} {k k' : α} (hlt : cmp k k' = .lt) :
    ∀ {fuel : Nat} {m : TreeMap α β cmp}, k ∈ popWhile bound fuel m →
      (popWhile bound fuel m)[k']? = m[k']?
  | 0, _, _ => rfl
  | fuel + 1, m, hk => by
    rw [popWhile] at hk ⊢
    split
    · rename_i hsize
      rw [if_pos hsize] at hk
      rw [popWhile_upper hlt hk, popFirst_upper (mem_of_mem_popWhile hk) hlt]
    · rfl

theorem card_le_size {m : TreeMap α β cmp} {ks : Finset α} (h : ∀ k ∈ ks, k ∈ m) :
    ks.card ≤ m.size := by
  rw [← Finset.length_toList, ← TreeMap.length_keys]
  apply List.Subperm.length_le
  apply List.subperm_of_subset ks.nodup_toList
  intro k hk
  exact TreeMap.mem_keys.2 (h k (Finset.mem_toList.1 hk))

theorem popFirst_size {m : TreeMap α β cmp} : (popFirst m).size = m.size - 1 := by
  unfold popFirst
  split
  · rename_i k hk
    rw [TreeMap.size_erase, if_pos (TreeMap.contains_iff_mem.2 (firstKey?_mem hk))]
  · rename_i hk
    have hnil : m.toList = [] := by
      rw [firstKey?, Option.map_eq_none_iff, List.head?_eq_none_iff] at hk
      exact hk
    have hlen := TreeMap.length_toList (t := m)
    rw [hnil, List.length_nil] at hlen
    omega

/-- The loop ends with at most `bound` keys. -/
theorem popWhile_size {bound : Nat} :
    ∀ {fuel : Nat} {m : TreeMap α β cmp}, m.size ≤ fuel → (popWhile bound fuel m).size ≤ bound
  | 0, m, h => by
    rw [popWhile]
    omega
  | fuel + 1, m, h => by
    rw [popWhile]
    split
    · exact popWhile_size (by rw [popFirst_size]; omega)
    · omega

/-- A key with enough keys above it does not stay. -/
theorem not_mem_popWhile {m : TreeMap α β cmp} {bound : Nat} {k : α} {ks : Finset α}
    (hcard : bound ≤ ks.card) (hks : ∀ k' ∈ ks, k' ∈ m ∧ cmp k k' = .lt) :
    k ∉ popWhile bound m.size m := by
  intro hk
  have hnew : k ∉ ks := fun h => lt_irrefl k (hks k h).2
  have hstays : ∀ k' ∈ Finset.cons k ks hnew, k' ∈ popWhile bound m.size m := by
    intro k' hk'
    rcases Finset.mem_cons.1 hk' with rfl | hk'
    · exact hk
    · rw [TreeMap.mem_iff_isSome_getElem?, popWhile_upper (hks k' hk').2 hk,
        ← TreeMap.mem_iff_isSome_getElem?]
      exact (hks k' hk').1
  have hcount := card_le_size hstays
  have hsize := @popWhile_size _ _ _ _ _ bound m.size m le_rfl
  rw [Finset.card_cons] at hcount
  omega

/-- With a second key in the map, the smallest is not the last. -/
theorem IsLast.popFirst {m : TreeMap α β cmp} {k : α} {v : β} (h : IsLast m k v)
    (hsize : 2 ≤ m.size) : IsLast (popFirst m) k v := by
  refine ⟨?_, fun k' hk' => ?_⟩
  · unfold OrderedMap.popFirst
    split
    · rename_i first hfirst
      have hne : cmp first k ≠ .eq := by
        intro heq
        obtain rfl := LawfulEqCmp.eq_of_compare heq
        obtain ⟨⟨first', v'⟩, hhead, rfl⟩ := Option.map_eq_some_iff.1 hfirst
        obtain ⟨tail, htail⟩ := List.head?_eq_some_iff.1 hhead
        have hlen := TreeMap.length_toList (t := m)
        have hord := TreeMap.ordered_keys_toList (t := m)
        rw [htail] at hlen hord
        -- the second entry is larger than the last key
        cases tail with
        | nil => rw [List.length_singleton] at hlen; omega
        | cons second tail =>
          have hlt := (List.pairwise_cons.1 hord).1 second List.mem_cons_self
          have hmem : second ∈ m.toList := by
            rw [htail]
            exact List.mem_cons_of_mem _ List.mem_cons_self
          have hget := TreeMap.mem_toList_iff_getElem?_eq_some.1 hmem
          rcases h.largest second.1 (mem_of_getElem? hget) with heq' | hlt'
          · rw [heq'] at hlt
            exact lt_irrefl _ hlt
          · exact lt_asymm hlt hlt'
      rw [TreeMap.getElem?_erase, if_neg hne]
      exact h.value
    · exact h.value
  · obtain ⟨v', hv'⟩ := Option.isSome_iff_exists.1 (TreeMap.mem_iff_isSome_getElem?.1 hk')
    exact h.largest k' (mem_of_getElem? (popFirst_getElem? hv'))

theorem IsLast.popWhile {bound : Nat} {k : α} {v : β} (hbound : 1 ≤ bound) :
    ∀ {fuel : Nat} {m : TreeMap α β cmp}, IsLast m k v → IsLast (popWhile bound fuel m) k v
  | 0, _, h => h
  | fuel + 1, m, h => by
    rw [OrderedMap.popWhile]
    split
    · exact IsLast.popWhile hbound (h.popFirst (by omega))
    · exact h

/-! ## Maps that grow upwards -/

omit [LawfulEqCmp cmp] in
theorem Below.insertAll {key : β → α} {m : TreeMap α β cmp} {vs : List β} :
    Below m (OrderedMap.insertAll key m vs) :=
  .of_subset fun _ hk => mem_insertAll hk

/-- A larger map on both sides, by one value. -/
theorem Below.insert {m : TreeMap α β cmp} {m' : TreeMap α γ cmp} {k : α} {v : β}
    (h : Below m m') (hk : k ∈ m') : Below (m.insert k v) m' := by
  intro k' hk'
  rcases TreeMap.mem_insert.1 hk' with heq | hmem
  · exact ⟨k, hk, Or.inl (LawfulEqCmp.eq_of_compare heq).symm⟩
  · exact h k' hmem

theorem exists_isLast {m : TreeMap α β cmp} {k : α} (hk : k ∈ m) :
    ∃ last v, IsLast m last v ∧ lastKey? m = some last := by
  cases hlast : lastKey? m with
  | none =>
    rw [lastKey?, Option.map_eq_none_iff, List.getLast?_eq_none_iff] at hlast
    exact absurd hlast (toList_ne_nil hk)
  | some last =>
    obtain ⟨v, hv⟩ := Option.isSome_iff_exists.1
      (TreeMap.mem_iff_isSome_getElem?.1 (lastKey?_mem hlast))
    exact ⟨last, v, ⟨hv, fun k' hk' => lastKey?_largest hlast hk'⟩, rfl⟩

/-- Dropping smallest keys loses none at the top. -/
theorem Below.popWhile {bound fuel : Nat} {m : TreeMap α β cmp} (hbound : 1 ≤ bound) :
    Below m (OrderedMap.popWhile bound fuel m) := by
  intro k hk
  obtain ⟨last, v, hlast, _⟩ := exists_isLast hk
  have hstays : IsLast (OrderedMap.popWhile bound fuel m) last v := hlast.popWhile hbound
  exact ⟨last, mem_of_getElem? hstays.value, hlast.largest k hk⟩

/-- **The last key does not go back.** -/
theorem Below.lastKey? {m : TreeMap α β cmp} {m' : TreeMap α γ cmp} (h : Below m m') {last : α}
    (hlast : OrderedMap.lastKey? m = some last) :
    ∃ last', OrderedMap.lastKey? m' = some last' ∧ (last = last' ∨ cmp last last' = .lt) := by
  obtain ⟨k', hk', hle⟩ := h last (lastKey?_mem hlast)
  obtain ⟨last', v, hlast', hlastKey⟩ := exists_isLast hk'
  refine ⟨last', hlastKey, ?_⟩
  rcases hlast'.largest k' hk' with rfl | hlt
  · exact hle
  · rcases hle with rfl | hle
    · exact Or.inr hlt
    · exact Or.inr (TransCmp.lt_trans hle hlt)

end OrderedMap
