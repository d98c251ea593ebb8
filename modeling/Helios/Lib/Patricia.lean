import Helios.Lib.Rlp
import Helios.Lib.Nibble

/-!
# Hexary Merkle-Patricia tries over keys of one length

* `Node` — an empty slot, a leaf, an extension or a branch.  Keys have one length, so no key
  ends at a branch and the branch's own value slot is always empty.
* `Node.find` — the map a trie stands for; `Node.walk` — the nodes met on the way of a key.
* `Node.WellFormed n` — the canonical shape over keys of `n` nibbles; `Trie n` bundles it.
* `Node.item` / `Node.encode` — the RLP form: a child is its own item when that encodes to less
  than 32 bytes, and the hash of its encoding otherwise (`reference`).
* `Node.Hashed`, `strings_branch` — tries without embedded children, whose branches read as names.
* `Node.proof` — the canonical proof of a key, stored or not.
* `reference_asStr` — a child that reads as a byte string is an empty slot or a hash.
* `walk_find` — a stored key is one whose walk ends at its leaf.
* `Node.fork`, `find_fork` — the trie of two keys that part at their second nibble.
-/

set_option autoImplicit false

namespace Patricia

open Rlp Nibble

inductive Node where
  | empty
  | leaf (path : List (Fin 16)) (value : List UInt8)
  | ext (path : List (Fin 16)) (child : Node)
  | branch (children : Fin 16 → Node)

namespace Node

/-- The value stored under a key. -/
def find : Node → List (Fin 16) → Option (List UInt8)
  | .empty, _ => none
  | .leaf path value, key => if path = key then some value else none
  | .ext path child, key => if path <+: key then child.find (key.drop path.length) else none
  | .branch _, [] => none
  | .branch children, n :: key => (children n).find key

/-- The nodes met from the root on the way of a key. -/
def walk : Node → List (Fin 16) → List Node
  | .empty, _ => []
  | .leaf path value, _ => [.leaf path value]
  | .ext path child, key =>
    .ext path child :: (if path <+: key then child.walk (key.drop path.length) else [])
  | .branch children, [] => [.branch children]
  | .branch children, n :: key => .branch children :: (children n).walk key

def isEmpty : Node → Bool
  | .empty => true
  | _ => false

def isExt : Node → Bool
  | .ext _ _ => true
  | _ => false

def isBranch : Node → Bool
  | .branch _ => true
  | _ => false

/-- Canonical shape over keys of `n` nibbles. -/
def WellFormed : Nat → Node → Prop
  | _, .empty => True
  | n, .leaf path value => path.length = n ∧ value ≠ []
  | n, .ext path child =>
    path ≠ [] ∧ path.length ≤ n ∧ child.isBranch = true ∧ WellFormed (n - path.length) child
  | n, .branch children =>
    0 < n ∧ (∀ i, WellFormed (n - 1) (children i)) ∧
      ∃ i j, i ≠ j ∧ (children i).isEmpty = false ∧ (children j).isEmpty = false

/-- The nodes of a trie. -/
inductive Within : Node → Node → Prop
  | refl (t : Node) : Within t t
  | ext {path : List (Fin 16)} {child t : Node} : Within child t → Within (.ext path child) t
  | branch {children : Fin 16 → Node} {t : Node} (i : Fin 16) :
      Within (children i) t → Within (.branch children) t

/-- A leaf is the only node of its trie. -/
theorem Within.of_leaf {path : List (Fin 16)} {value : List UInt8} {t : Node}
    (h : Within (.leaf path value) t) : t = .leaf path value := by
  cases h
  rfl

end Node

/-- How a parent names a child: by the child's item itself if that is short, else by hash. -/
def reference (hash : List UInt8 → List UInt8) (x : Item) : Item :=
  if x.encode.length < 32 then x else .str (hash x.encode)

namespace Node

variable (hash : List UInt8 → List UInt8)

/-- The RLP item of a node. -/
def item : Node → Item
  | .empty => .str []
  | .leaf path value => .list [.str (hexPrefix true path), .str value]
  | .ext path child => .list [.str (hexPrefix false path), reference hash child.item]
  | .branch children =>
    .list ((List.finRange 16).map (fun i => reference hash (children i).item) ++ [.str []])

def encode (t : Node) : List UInt8 := (t.item hash).encode

/-- The root hash of a trie. -/
def rootHash (t : Node) : List UInt8 := hash (t.encode hash)

/-- No child is embedded: every node below the root encodes to at least 32 bytes. -/
def Hashed : Node → Prop
  | .empty => True
  | .leaf _ _ => True
  | .ext _ child => 32 ≤ (child.encode hash).length ∧ child.Hashed
  | .branch children => ∀ i, ((children i).isEmpty = true ∨
      32 ≤ ((children i).encode hash).length) ∧ (children i).Hashed

/-- The encodings of the nodes met on the way of a key. -/
def proof (t : Node) (key : List (Fin 16)) : List (List UInt8) :=
  (t.walk key).map (Node.encode hash)

end Node

/-- A trie in canonical shape over keys of `n` nibbles. -/
structure Trie (n : Nat) where
  root : Node
  wf : root.WellFormed n

/-! ## Children -/

variable {hash : List UInt8 → List UInt8}

theorem reference_empty : reference hash (Node.empty.item hash) = .str [] := rfl

theorem item_of_not_empty {t : Node} (h : t.isEmpty = false) :
    ∃ items, t.item hash = .list items := by
  cases t with
  | empty => simp [Node.isEmpty] at h
  | leaf path value => exact ⟨_, rfl⟩
  | ext path child => exact ⟨_, rfl⟩
  | branch children => exact ⟨_, rfl⟩

/-- A child that reads as a byte string is an empty slot or named by its hash. -/
theorem reference_asStr {t : Node} {s : List UInt8} (h : reference hash (t.item hash) = .str s) :
    (t.isEmpty = true ∧ s = []) ∨ (t.isEmpty = false ∧ s = t.rootHash hash) := by
  cases hb : t.isEmpty with
  | true =>
    cases t with
    | empty =>
      rw [reference_empty, Item.str.injEq] at h
      exact Or.inl ⟨rfl, h.symm⟩
    | leaf path value => simp [Node.isEmpty] at hb
    | ext path child => simp [Node.isEmpty] at hb
    | branch children => simp [Node.isEmpty] at hb
  | false =>
    obtain ⟨items, hi⟩ : ∃ items, t.item hash = .list items := item_of_not_empty hb
    unfold reference at h
    split at h
    · rw [hi] at h; cases h
    · rw [Item.str.injEq] at h
      exact Or.inr ⟨rfl, h.symm⟩

/-- How a parent names a child that is not embedded. -/
def Node.name (hash : List UInt8 → List UInt8) (t : Node) : List UInt8 :=
  if t.isEmpty then [] else t.rootHash hash

theorem eq_empty {t : Node} (h : t.isEmpty = true) : t = .empty := by
  cases t with
  | empty => rfl
  | leaf path value => cases h
  | ext path child => cases h
  | branch children => cases h

theorem reference_name {t : Node} (h : t.isEmpty = true ∨ 32 ≤ (t.encode hash).length) :
    reference hash (t.item hash) = .str (t.name hash) := by
  unfold Node.name
  cases hb : t.isEmpty with
  | true =>
    rw [eq_empty hb]
    rfl
  | false =>
    have hlen : ¬ (t.item hash).encode.length < 32 :=
      Nat.not_lt.2 (h.resolve_left (by simp [hb]))
    rw [reference, if_neg hlen]
    rfl

/-! ## Byte strings of a list -/

/-- The byte strings of a list of items, if it holds no list. -/
def strings : List Item → Option (List (List UInt8))
  | [] => some []
  | .str b :: xs => (strings xs).map (b :: ·)
  | .list _ :: _ => none

theorem strings_eq_some_iff : ∀ {items : List Item} {bs : List (List UInt8)},
    strings items = some bs ↔ items = bs.map Item.str
  | [], bs => by cases bs <;> simp [strings]
  | .list _ :: _, bs => by cases bs <;> simp [strings]
  | .str b :: xs, bs => by
    cases bs with
    | nil => simp [strings]
    | cons c cs =>
      have ih : strings xs = some cs ↔ xs = cs.map Item.str := strings_eq_some_iff
      simp only [strings, Option.map_eq_some_iff, List.map_cons, List.cons.injEq, Item.str.injEq]
      constructor
      · rintro ⟨ds, hds, rfl, rfl⟩
        exact ⟨rfl, ih.1 hds⟩
      · rintro ⟨rfl, hxs⟩
        exact ⟨cs, ih.2 hxs, rfl, rfl⟩

/-- Reading a branch: sixteen children and an empty slot. -/
theorem branch_strings {children : Fin 16 → Node} {bs : List (List UInt8)}
    (h : (List.finRange 16).map (fun i => reference hash ((children i).item hash)) ++ [.str []] =
      bs.map Item.str) :
    bs.length = 17 ∧
      ∀ i : Fin 16, ∃ s, bs[i.val]? = some s ∧
        reference hash ((children i).item hash) = .str s := by
  have hlen : bs.length = 17 := by
    have := congrArg List.length h
    simpa using this.symm
  refine ⟨hlen, fun i => ?_⟩
  have hi : i.val < bs.length := by omega
  refine ⟨bs[i.val], List.getElem?_eq_getElem hi, ?_⟩
  have hget := congrArg (·[i.val]?) h
  simp only [List.getElem?_map, List.getElem?_eq_getElem hi, Option.map_some] at hget
  rw [List.getElem?_append_left (by simp), List.getElem?_map,
    List.getElem?_eq_getElem (by simp), Option.map_some, Option.some.injEq] at hget
  simpa using hget

/-- A branch without embedded children reads as the names of its children and an empty slot. -/
theorem strings_branch {children : Fin 16 → Node}
    (h : ∀ i, (children i).isEmpty = true ∨ 32 ≤ ((children i).encode hash).length) :
    strings ((List.finRange 16).map (fun i => reference hash ((children i).item hash)) ++
      [.str []]) = some ((List.finRange 16).map (fun i => (children i).name hash) ++ [[]]) := by
  rw [strings_eq_some_iff, List.map_append, List.map_map]
  congr 1
  apply List.map_congr_left
  intro i _
  exact reference_name (h i)

/-! ## Stored keys and walks -/

theorem find_ext_of_path {path key : List (Fin 16)} {child : Node} (h : path <+: key) :
    (Node.ext path child).find key = child.find (key.drop path.length) := by
  simp only [Node.find, if_pos h]

/-- The key of a well-formed extension's child is what is left after its path. -/
theorem length_drop_of_path {path key : List (Fin 16)} {n : Nat} (hlen : key.length = n) :
    (key.drop path.length).length = n - path.length := by
  rw [List.length_drop, hlen]

/-- A stored key ends at a leaf that holds the rest of the key and the value. -/
theorem walk_find : ∀ {t : Node} {key : List (Fin 16)} {w : List UInt8}, t.find key = some w →
    ∃ pre rest, t.walk key = pre ++ [.leaf rest w] ∧ rest <:+ key
  | .empty, _, _, h => by simp [Node.find] at h
  | .leaf path value, key, w, h => by
    simp only [Node.find] at h
    split at h
    · rename_i hp
      cases h
      exact ⟨[], path, rfl, hp ▸ List.suffix_refl _⟩
    · cases h
  | .ext path child, key, w, h => by
    simp only [Node.find] at h
    split at h
    · rename_i hp
      obtain ⟨pre, rest, hw, hs⟩ := walk_find h
      refine ⟨.ext path child :: pre, rest, ?_, hs.trans (List.drop_suffix _ _)⟩
      rw [Node.walk, if_pos hp, hw, List.cons_append]
    · cases h
  | .branch _, [], _, h => by simp [Node.find] at h
  | .branch children, n :: key, w, h => by
    obtain ⟨pre, rest, hw, hs⟩ := walk_find (t := children n) h
    refine ⟨.branch children :: pre, rest, ?_, hs.trans (List.suffix_cons _ _)⟩
    rw [Node.walk, hw, List.cons_append]

theorem walk_ne_nil {t : Node} (h : t.isEmpty = false) (key : List (Fin 16)) :
    t.walk key ≠ [] := by
  cases t with
  | empty => cases h
  | leaf path value => simp [Node.walk]
  | ext path child => simp [Node.walk]
  | branch children => cases key <;> simp [Node.walk]

/-- The walk of a stored key is not empty. -/
theorem walk_cons_of_find {t : Node} {key : List (Fin 16)} {w : List UInt8}
    (h : t.find key = some w) : ∃ s tail, t.walk key = s :: tail := by
  obtain ⟨pre, rest, hw, _⟩ := walk_find h
  cases pre with
  | nil => exact ⟨_, _, hw⟩
  | cons s pre => exact ⟨s, _, hw⟩

theorem isEmpty_of_find {t : Node} {key : List (Fin 16)} {w : List UInt8}
    (h : t.find key = some w) : t.isEmpty = false := by
  cases t with
  | empty => simp [Node.find] at h
  | leaf path value => rfl
  | ext path child => rfl
  | branch children => rfl

theorem within_of_mem_walk : ∀ {t : Node} {key : List (Fin 16)} {s : Node}, s ∈ t.walk key →
    t.Within s
  | .empty, _, _, h => by simp [Node.walk] at h
  | .leaf path value, _, s, h => by
    simp only [Node.walk, List.mem_singleton] at h
    subst h
    exact .refl _
  | .ext path child, key, s, h => by
    simp only [Node.walk, List.mem_cons] at h
    rcases h with rfl | h
    · exact .refl _
    · split at h
      · exact .ext (within_of_mem_walk h)
      · cases h
  | .branch children, [], s, h => by
    simp only [Node.walk, List.mem_singleton] at h
    subst h
    exact .refl _
  | .branch children, n :: key, s, h => by
    simp only [Node.walk, List.mem_cons] at h
    rcases h with rfl | h
    · exact .refl _
    · exact .branch n (within_of_mem_walk h)

/-! ## Two keys -/

/-- A branch with two leaves. -/
def Node.twoLeaves (i j : Fin 16) (p q : List (Fin 16)) (v w : List UInt8) : Node :=
  .branch fun x => if x = i then .leaf p v else if x = j then .leaf q w else .empty

/-- Two leaves behind a common nibble. -/
def Node.fork (n i j : Fin 16) (p q : List (Fin 16)) (v w : List UInt8) : Node :=
  .ext [n] (.twoLeaves i j p q v w)

section Fork

variable {n i j : Fin 16} {p q : List (Fin 16)} {v w : List UInt8}

theorem find_fork (hne : i ≠ j) (key : List (Fin 16)) :
    (Node.fork n i j p q v w).find key =
      if key = n :: i :: p then some v else if key = n :: j :: q then some w else none := by
  cases key with
  | nil => simp [Node.fork, Node.find]
  | cons m key =>
    by_cases hm : n = m
    · subst hm
      have hprefix : [n] <+: n :: key := by simp
      rw [Node.fork, find_ext_of_path hprefix]
      cases key with
      | nil => simp [Node.twoLeaves, Node.find]
      | cons x key =>
        simp only [Node.twoLeaves, List.length_singleton, List.drop_succ_cons, List.drop_zero,
          Node.find, List.cons.injEq, true_and]
        by_cases hi : x = i
        · simp [hi, hne, Node.find, eq_comm]
        · by_cases hj : x = j
          · simp [hj, Ne.symm hne, Node.find, eq_comm]
          · simp [hi, hj, Node.find]
    · have hprefix : ¬ [n] <+: m :: key := by simpa using hm
      simp [Node.fork, Node.find, Ne.symm hm, hm]

theorem wellFormed_fork {k : Nat} (hne : i ≠ j) (hp : p.length = k) (hq : q.length = k)
    (hv : v ≠ []) (hw : w ≠ []) : (Node.fork n i j p q v w).WellFormed (k + 2) := by
  refine ⟨by simp, by simp, rfl, by simp, fun x => ?_, i, j, hne, by simp [Node.isEmpty], ?_⟩
  · by_cases hi : x = i
    · simp [hi, Node.WellFormed, hp, hv]
    · by_cases hj : x = j
      · simp [hj, Ne.symm hne, Node.WellFormed, hq, hw]
      · simp [hi, hj, Node.WellFormed]
  · simp [Ne.symm hne, Node.isEmpty]

/-- The nodes of a fork. -/
theorem within_fork {t : Node} (h : (Node.fork n i j p q v w).Within t) :
    t = .fork n i j p q v w ∨ t = .twoLeaves i j p q v w ∨ t = .leaf p v ∨ t = .leaf q w ∨
      t = .empty := by
  rcases h with _ | h
  · exact Or.inl rfl
  rcases h with _ | _ | ⟨x, h⟩
  · exact Or.inr (Or.inl rfl)
  simp only at h
  split at h
  · cases h
    exact Or.inr (Or.inr (Or.inl rfl))
  · split at h
    · cases h
      exact Or.inr (Or.inr (Or.inr (Or.inl rfl)))
    · cases h
      exact Or.inr (Or.inr (Or.inr (Or.inr rfl)))

/-- A fork embeds no child if its branch and its leaves are long. -/
theorem hashed_fork (hbranch : 32 ≤ ((Node.twoLeaves i j p q v w).encode hash).length)
    (hv : 32 ≤ ((Node.leaf p v).encode hash).length)
    (hw : 32 ≤ ((Node.leaf q w).encode hash).length) :
    (Node.fork n i j p q v w).Hashed hash := by
  refine ⟨hbranch, fun x => ?_⟩
  by_cases hi : x = i
  · simp [hi, Node.Hashed, hv]
  · by_cases hj : x = j
    · by_cases hij : j = i
      · simp [hj, hij, Node.Hashed, hv]
      · simp [hj, hij, Node.Hashed, hw]
    · simp [hi, hj, Node.Hashed, Node.isEmpty]

end Fork

end Patricia
