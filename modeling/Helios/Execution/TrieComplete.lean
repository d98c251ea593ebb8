import Helios.Execution.ProofSound

/-!
# Completeness of `verify_proof`

The canonical proof of a key lists the nodes met on its way from the root.  It needs no assumption
on the hash: every expected hash is the hash of the very node that comes next.

* `Holds` — what the trie says about a key: it stores the value, or nothing and the value is an
  empty one.
* `verifyProofFrom_proof` — the loop accepts from any node on, at any depth.
* `verifyProof_complete` — **canonical proofs are accepted**.
-/

set_option autoImplicit false

namespace Helios

open Nibble Patricia

variable {c : Crates} {path value : Bytes}

/-- The trie holds the value under the key; an absent key holds every empty value. -/
def Holds (t : Node) (key : List (Fin 16)) (value : Bytes) : Prop :=
  t.find key = some value ∨ (t.find key = none ∧ isEmptyValue value = true)

/-- A child that is walked into is named by its hash. -/
theorem name_of_not_empty {t : Node} (h : t.isEmpty = false) :
    t.name c.hash = t.rootHash c.hash := by
  rw [Node.name, h]
  rfl

theorem proof_ne_nil {t : Node} (h : t.isEmpty = false) (key : List (Fin 16)) :
    t.proof c.hash key ≠ [] := by
  intro hnil
  exact walk_ne_nil h key (List.map_eq_nil_iff.1 hnil)

/-! ## The last node -/

/-- A leaf ends the walk, whether its path is the rest of the key or not. -/
theorem leaf_proof {p w : List _} {key : List (Fin 16)} {offset : Nat}
    (hoff : offset ≤ 2 * path.length) (hrest : restOf path offset = key)
    (hread : ReadsNodes c (.leaf p w)) (hv : Holds (.leaf p w) key value) :
    verifyProofFrom c path value ((Node.leaf p w).rootHash c.hash) offset
      ((Node.leaf p w).proof c.hash key) = .ok true := by
  have hdec : c.decodeList ((Node.leaf p w).encode c.hash) = some [hexPrefix true p, w] :=
    hread.list _ _ (.refl _) rfl
  refine (verifyProofFrom_step hoff).2 ⟨rfl, _, hdec, Or.inr ⟨_, _, rfl, ?_⟩⟩
  unfold PairStep
  rw [List.map_nil, if_pos rfl, nodePathOf, nibbles_drop_skipLength, hrest]
  rcases hv with hfind | ⟨hfind, hempty⟩
  · simp only [Node.find] at hfind
    split at hfind
    · rename_i hp
      exact Or.inr ⟨hp, Option.some.inj hfind⟩
    · cases hfind
  · simp only [Node.find] at hfind
    split at hfind
    · cases hfind
    · rename_i hp
      exact Or.inl ⟨hp, hempty⟩

/-! ## Inner nodes -/

/-- What an extension is read as. -/
theorem ext_decoded {p : List (Fin 16)} {child : Node}
    (hhashed : (Node.ext p child).Hashed c.hash) (hread : ReadsNodes c (.ext p child)) :
    c.decodeList ((Node.ext p child).encode c.hash) =
      some [hexPrefix false p, child.name c.hash] := by
  rw [hread.list _ _ (.refl _) rfl, reference_name (Or.inr hhashed.1)]
  rfl

/-- An extension whose path is not the key's ends the walk. -/
theorem ext_proof_diverges {p : List (Fin 16)} {child : Node} {key : List (Fin 16)} {offset : Nat}
    (hoff : offset ≤ 2 * path.length) (hrest : restOf path offset = key) (hp : ¬ p <+: key)
    (hhashed : (Node.ext p child).Hashed c.hash) (hread : ReadsNodes c (.ext p child))
    (hv : Holds (.ext p child) key value) :
    verifyProofFrom c path value ((Node.ext p child).rootHash c.hash) offset
      ((Node.ext p child).proof c.hash key) = .ok true := by
  have hdec := ext_decoded hhashed hread
  rw [Node.proof, Node.walk, if_neg hp]
  refine (verifyProofFrom_step hoff).2 ⟨rfl, _, hdec, Or.inr ⟨_, _, rfl, ?_⟩⟩
  unfold PairStep
  rw [List.map_nil, if_pos rfl, nodePathOf, nibbles_drop_skipLength, hrest]
  have hne : p ≠ key := by
    rintro rfl
    exact hp (List.prefix_refl _)
  rcases hv with hfind | ⟨_, hempty⟩
  · simp only [Node.find, if_neg hp] at hfind
    cases hfind
  · exact Or.inl ⟨hne, hempty⟩

/-- An extension on the way of the key hands on to its child. -/
theorem ext_proof_follows {p : List (Fin 16)} {child : Node} {key : List (Fin 16)} {offset : Nat}
    (hoff : offset ≤ 2 * path.length) (hrest : restOf path offset = key) (hp : p <+: key)
    (hchild : child.isEmpty = false) (hhashed : (Node.ext p child).Hashed c.hash)
    (hread : ReadsNodes c (.ext p child))
    (ih : verifyProofFrom c path value (child.rootHash c.hash) (offset + p.length)
      (child.proof c.hash (key.drop p.length)) = .ok true) :
    verifyProofFrom c path value ((Node.ext p child).rootHash c.hash) offset
      ((Node.ext p child).proof c.hash key) = .ok true := by
  have hdec := ext_decoded hhashed hread
  rw [Node.proof, Node.walk, if_pos hp]
  refine (verifyProofFrom_step hoff).2 ⟨rfl, _, hdec, Or.inr ⟨_, _, rfl, ?_⟩⟩
  unfold PairStep
  rw [if_neg (show List.map _ _ ≠ [] from proof_ne_nil hchild _), nodePathOf, nibbles_drop_skipLength, hrest,
    name_of_not_empty hchild]
  exact ⟨hp, ih⟩

/-- A branch ends the walk at an empty slot, and hands on to a child otherwise. -/
theorem branch_proof {children : Fin 16 → Node} {n : Fin 16} {key : List (Fin 16)} {offset : Nat}
    (hoff : offset ≤ 2 * path.length) (hrest : restOf path offset = n :: key)
    (hhashed : (Node.branch children).Hashed c.hash) (hread : ReadsNodes c (.branch children))
    (hv : Holds (.branch children) (n :: key) value)
    (ih : (children n).isEmpty = false →
      verifyProofFrom c path value ((children n).rootHash c.hash) (offset + 1)
        ((children n).proof c.hash key) = .ok true) :
    verifyProofFrom c path value ((Node.branch children).rootHash c.hash) offset
      ((Node.branch children).proof c.hash (n :: key)) = .ok true := by
  have hdec : c.decodeList ((Node.branch children).encode c.hash) =
      some ((List.finRange 16).map (fun i => (children i).name c.hash) ++ [[]]) := by
    rw [hread.list _ _ (.refl _) rfl, strings_branch fun i => (hhashed i).1]
  have hchild : ((List.finRange 16).map (fun i => (children i).name c.hash) ++ [[]])[n.val]? =
      some ((children n).name c.hash) := by
    rw [List.getElem?_append_left (by simp), List.getElem?_map,
      List.getElem?_eq_getElem (by simp)]
    simp
  refine (verifyProofFrom_step hoff).2 ⟨rfl, _, hdec, Or.inl ⟨by simp, n, key, _, hrest, hchild, ?_⟩⟩
  cases hc : (children n).isEmpty with
  | true =>
    have hnone : (Node.branch children).find (n :: key) = none ∧ (children n).walk key = [] := by
      rw [Node.find, eq_empty hc]
      exact ⟨rfl, rfl⟩
    rw [hnone.2, List.map_nil, if_pos rfl]
    rcases hv with hfind | ⟨_, hempty⟩
    · rw [hnone.1] at hfind
      cases hfind
    · refine ⟨?_, hempty⟩
      rw [Node.name, hc]
      rfl
  | false =>
    rw [if_neg, name_of_not_empty hc]
    · exact ih hc
    · exact proof_ne_nil hc key

/-! ## The whole walk -/

/-- **The loop accepts the rest of a canonical proof**, from any node of the trie on. -/
theorem verifyProofFrom_proof : ∀ {t : Node} {key : List (Fin 16)} {offset : Nat},
    t.isEmpty = false → t.WellFormed key.length → t.Hashed c.hash → ReadsNodes c t →
      offset ≤ 2 * path.length → restOf path offset = key → Holds t key value →
      verifyProofFrom c path value (t.rootHash c.hash) offset (t.proof c.hash key) = .ok true
  | .empty, _, _, hne, _, _, _, _, _, _ => by cases hne
  | .leaf p w, key, offset, _, _, _, hread, hoff, hrest, hv => leaf_proof hoff hrest hread hv
  | .ext p child, key, offset, _, hwf, hhashed, hread, hoff, hrest, hv => by
    obtain ⟨_, hle, hb, hchild⟩ := hwf
    have hne : child.isEmpty = false := by
      cases child with
      | branch children => rfl
      | empty => cases hb
      | leaf p' w => cases hb
      | ext p' ch => cases hb
    by_cases hp : p <+: key
    · apply ext_proof_follows hoff hrest hp hne hhashed hread
      have hlen := congrArg List.length hrest
      rw [drop_nibbles_length] at hlen
      apply verifyProofFrom_proof hne ?_ hhashed.2 (hread.mono fun u hu => .ext hu) (by omega)
      · rw [restOf_add, hrest]
      · rwa [Holds, find_ext_of_path hp] at hv
      · rw [length_drop_of_path rfl]
        exact hchild
    · exact ext_proof_diverges hoff hrest hp hhashed hread hv
  | .branch children, [], _, _, hwf, _, _, _, _, _ => absurd hwf.1 (by simp)
  | .branch children, n :: key, offset, _, hwf, hhashed, hread, hoff, hrest, hv => by
    apply branch_proof hoff hrest hhashed hread hv
    intro hne
    have hlen := congrArg List.length hrest
    rw [drop_nibbles_length, List.length_cons] at hlen
    apply verifyProofFrom_proof hne ?_ (hhashed n).2 (hread.mono fun u hu => .branch n hu)
      (by omega)
    · rw [restOf_add, hrest, List.drop_succ_cons, List.drop_zero]
    · exact hv
    · have hchild := hwf.2.1 n
      rwa [List.length_cons, Nat.add_sub_cancel] at hchild

/-- **Completeness.**  For every trie that is not empty and embeds no child, the canonical proof of
    a key is accepted: for the stored value when the key is stored, and for every empty value when
    it is absent, however its walk ends. -/
theorem verifyProof_complete (c : Crates) (T : Trie 64) (k : Bytes32)
    (hne : T.root.isEmpty = false) (hhashed : T.root.Hashed c.hash)
    (hread : ReadsNodes c T.root) :
    (∀ v, T.root.find (keyPath k) = some v →
      verifyProof c (T.root.proof c.hash (keyPath k)) (T.root.rootHash c.hash) k.toList v =
        .ok true) ∧
    (T.root.find (keyPath k) = none → ∀ v, isEmptyValue v = true →
      verifyProof c (T.root.proof c.hash (keyPath k)) (T.root.rootHash c.hash) k.toList v =
        .ok true) := by
  have hwf : T.root.WellFormed (keyPath k).length := by
    rw [keyPath_length]
    exact T.wf
  have haccept : ∀ v, Holds T.root (keyPath k) v →
      verifyProof c (T.root.proof c.hash (keyPath k)) (T.root.rootHash c.hash) k.toList v =
        .ok true := fun v hv =>
    verifyProofFrom_proof hne hwf hhashed hread (Nat.zero_le _) List.drop_zero hv
  exact ⟨fun v hv => haccept v (Or.inl hv), fun hnone v hv => haccept v (Or.inr ⟨hnone, hv⟩)⟩

/-! ## Two leaves -/

theorem forked_hashed : forkedTrie.root.Hashed forkedCrates.hash := by
  refine ⟨by decide +kernel, fun i => ?_⟩
  fin_cases i <;> exact ⟨by decide +kernel, trivial⟩

/-- The walks of a stored key, and of keys that end at an empty slot and at a diverging
    extension. -/
theorem verifyProof_complete_forked :
    verifyProof forkedCrates (forkedTrie.root.proof forkedCrates.hash (keyPath (zeroBytes 32)))
        (forkedTrie.root.rootHash forkedCrates.hash) (zeroBytes 32).toList [1] = .ok true ∧
      verifyProof forkedCrates
        (forkedTrie.root.proof forkedCrates.hash (keyPath (Vector.replicate 32 0x02)))
        (forkedTrie.root.rootHash forkedCrates.hash) (Vector.replicate 32 (0x02 : UInt8)).toList
        [0x80] = .ok true ∧
      verifyProof forkedCrates
        (forkedTrie.root.proof forkedCrates.hash (keyPath (Vector.replicate 32 0x30)))
        (forkedTrie.root.rootHash forkedCrates.hash) (Vector.replicate 32 (0x30 : UInt8)).toList
        [0x80] = .ok true :=
  ⟨(verifyProof_complete forkedCrates forkedTrie (zeroBytes 32) rfl forked_hashed
      forked_readsNodes).1 [1] (by decide +kernel),
    (verifyProof_complete forkedCrates forkedTrie (Vector.replicate 32 0x02) rfl forked_hashed
      forked_readsNodes).2 (by decide +kernel) [0x80] (by decide +kernel),
    (verifyProof_complete forkedCrates forkedTrie (Vector.replicate 32 0x30) rfl forked_hashed
      forked_readsNodes).2 (by decide +kernel) [0x80] (by decide +kernel)⟩

end Helios
