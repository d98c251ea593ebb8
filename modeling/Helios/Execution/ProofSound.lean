import Helios.Execution.TrieProof

/-!
# Soundness of `verify_proof`

* `verifyProof_exclusion_iff` — an accepted proof of an empty value shows that the key is absent,
  unless the proof is one of two kinds.
* `verifyProof_inclusion_iff` — an accepted proof of another value shows that the key holds it,
  unless the proof goes on behind the key's leaf.
* `forkedTrie`, `loneTrie` — two small tries, with the digests of their nodes, where the exceptions
  are met.
-/

set_option autoImplicit false

namespace Helios

open Nibble Patricia

variable {c : Crates} {value : Bytes}

/-! ## Exclusion -/

/-- The nibble path of a key. -/
def keyPath (k : Bytes32) : List (Fin 16) := nibbles k.toList

theorem keyPath_length (k : Bytes32) : (keyPath k).length = 64 := by
  rw [keyPath, nibbles_length, Vector.length_toList]

/-- **The accepted proofs against the root of a trie.** -/
theorem verifyProof_eq_true_iff (T : Trie 64) (k : Bytes32) {proof : List Bytes}
    (hread : ReadsNodes c T.root) (hcol : NoCollision c T.root proof) :
    verifyProof c proof (T.root.rootHash c.hash) k.toList value = .ok true ↔
      Accepted c value T.root (keyPath k) proof := by
  have hwf : T.root.WellFormed (keyPath k).length := by
    rw [keyPath_length]
    exact T.wf
  exact verifyProofFrom_iff hwf (Nat.zero_le _) List.drop_zero hread hcol

/-- **Exclusion.** An accepted proof of an empty value speaks about the trie, except for two kinds
    of proof of a key that is stored with another value: the walk to it cut short at an
    extension, and the walk with forged nodes behind its leaf. -/
theorem verifyProof_exclusion_iff (T : Trie 64) (k : Bytes32) {proof : List Bytes}
    (hv : isEmptyValue value = true) (hread : ReadsNodes c T.root)
    (hcol : NoCollision c T.root proof) :
    (verifyProof c proof (T.root.rootHash c.hash) k.toList value = .ok true →
        T.root.find (keyPath k) = none ∨ T.root.find (keyPath k) = some value) ↔
      ¬ ∃ w, T.root.find (keyPath k) = some w ∧ w ≠ value ∧
        (StopsAtExtension c (T.root.walk (keyPath k)) proof ∨
          RunsPastLeaf c value w (T.root.walk (keyPath k)) proof) := by
  rw [verifyProof_eq_true_iff T k hread hcol]
  cases hf : T.root.find (keyPath k) with
  | none => simp
  | some w =>
    rw [accepted_iff_of_find hread hf]
    by_cases hw : w = value
    · simp [hw]
    · simp [WalkAccepted, hv, hw]

/-- A leaf whose rest of the key is all zero. -/
def zeroLeaf (n : Nat) (value : Bytes) : Node := .leaf (List.replicate n 0) value

/-- An extension for the common first nibble, a branch, and its two leaves. -/
def forkedTrie : Trie 64 where
  root := .fork 0 0 1 (List.replicate 62 0) (List.replicate 62 0) [1] [2]
  wf := wellFormed_fork (by decide) (by simp) (by simp) (by simp) (by simp)

/-- `keccak256` of the leaf that holds `value`. -/
def forkedLeafHash (value : Bytes) : Bytes32 :=
  if value = [1] then
    beBytes 32 0x94a72b54d84745a6dd306c333da1c9481ca12f3576d491e1030a50da3137c92a
  else beBytes 32 0x5fb02495a793b00a15a7de4480ec2c10db80c8a43fc32bbcc4e87f6812ad931d

def forkedBranchHash : Bytes32 :=
  beBytes 32 0xf290f1dd05ef44400aeb5d92aa26dd9af9d55edf51dec10a9779a66093c42acf

/-- `keccak256` on the nodes of `forkedTrie`. -/
def forkedCrates : Crates where
  keccak256 := digestTable [
    ([0x80], beBytes 32 0x56e81f171bcc55a6ff8345e692c0f86e5b48e01b996cadc001622fb5e363b421),
    ((zeroLeaf 62 [1]).encode fun _ => [], forkedLeafHash [1]),
    ((zeroLeaf 62 [2]).encode fun _ => [], forkedLeafHash [2]),
    ((Rlp.Item.list (.str (forkedLeafHash [1]).toList :: .str (forkedLeafHash [2]).toList ::
      List.replicate 15 (.str []))).encode, forkedBranchHash),
    ((Rlp.Item.list [.str [0x10], .str forkedBranchHash.toList]).encode,
      beBytes 32 0x20d80ca8161164d5aecddfa624e391edd685f7a1ae3bbbc0b36fea85f4ba8f4f)]
  decodeList := readList
  orderedTrieRoot := fun _ => zeroBytes 32
  transactionRlp := Transaction.body

/-- The root node alone: the walk to every key, cut short. -/
def forkedProof : List Bytes := [forkedTrie.root.encode forkedCrates.hash]

theorem forked_readsNodes : ReadsNodes forkedCrates forkedTrie.root := by
  refine readsNodes_of_readList rfl fun s hs => ?_
  rcases within_fork hs with rfl | rfl | rfl | rfl | rfl <;> decide +kernel

theorem forked_noCollision : NoCollision forkedCrates forkedTrie.root forkedProof := by
  intro b hb s hs
  rw [List.mem_singleton.1 hb]
  rcases within_fork hs with rfl | rfl | rfl | rfl | rfl <;> decide +kernel

theorem verifyProof_exclusion_forked :
    (verifyProof forkedCrates forkedProof (forkedTrie.root.rootHash forkedCrates.hash)
        (zeroBytes 32).toList [0x80] = .ok true →
      forkedTrie.root.find (keyPath (zeroBytes 32)) = none ∨
        forkedTrie.root.find (keyPath (zeroBytes 32)) = some [0x80]) ↔
      ¬ ∃ w, forkedTrie.root.find (keyPath (zeroBytes 32)) = some w ∧ w ≠ [0x80] ∧
        (StopsAtExtension forkedCrates (forkedTrie.root.walk (keyPath (zeroBytes 32))) forkedProof ∨
          RunsPastLeaf forkedCrates [0x80] w (forkedTrie.root.walk (keyPath (zeroBytes 32)))
            forkedProof) :=
  verifyProof_exclusion_iff forkedTrie (zeroBytes 32) (by decide) forked_readsNodes
    forked_noCollision

/-- The root node alone proves that the all-zero key is absent, though it holds `1`. -/
theorem verifyProof_exclusion_unsound :
    ¬ ∀ (c : Crates) (T : Trie 64) (k : Bytes32) (proof : List Bytes) (value : Bytes),
      isEmptyValue value = true → ReadsNodes c T.root → NoCollision c T.root proof →
        verifyProof c proof (T.root.rootHash c.hash) k.toList value = .ok true →
          T.root.find (keyPath k) = none ∨ T.root.find (keyPath k) = some value := by
  intro h
  have hbad := h forkedCrates forkedTrie (zeroBytes 32) forkedProof [0x80] (by decide)
    forked_readsNodes forked_noCollision (by decide +kernel)
  revert hbad
  decide +kernel

/-! ## Inclusion -/

/-- **Inclusion.** An accepted proof of a value that is not empty shows that the trie stores it
    under the key, except for the walk to a key stored with another value, with forged nodes
    behind its leaf. -/
theorem verifyProof_inclusion_iff (T : Trie 64) (k : Bytes32) {proof : List Bytes}
    (hv : isEmptyValue value = false) (hread : ReadsNodes c T.root)
    (hcol : NoCollision c T.root proof) :
    (verifyProof c proof (T.root.rootHash c.hash) k.toList value = .ok true →
        T.root.find (keyPath k) = some value) ↔
      ¬ ∃ w, T.root.find (keyPath k) = some w ∧ w ≠ value ∧
        RunsPastLeaf c value w (T.root.walk (keyPath k)) proof := by
  rw [verifyProof_eq_true_iff T k hread hcol]
  cases hf : T.root.find (keyPath k) with
  | none =>
    have hno : ¬ Accepted c value T.root (keyPath k) proof := by
      intro h
      obtain ⟨w, hw⟩ := accepted_find hv h
      rw [hf] at hw
      cases hw
    simp [hno]
  | some w =>
    rw [accepted_iff_of_find hread hf]
    by_cases hw : w = value
    · simp [hw]
    · simp [WalkAccepted, hv, hw]

/-- The RLP of `495`, the value of the forged node. -/
def forgedValue : Bytes := Rlp.encodeStr (Rlp.natBytes 495)

/-- A leaf with an empty path. -/
def forgedNode : Bytes := (Rlp.Item.list [.str [0x20], .str forgedValue]).encode

def forgedHash : Bytes32 :=
  beBytes 32 0x9f23073ec7784a5acc1459ca8f31b19b267d1c515e836174953a383001d78195

/-- One leaf, at the all-zero key.  Its value is the RLP of a 31-byte integer, and the hash of the
    forged node. -/
def loneTrie : Trie 64 where
  root := zeroLeaf 64 forgedHash.toList
  wf := ⟨by simp, by simp⟩

/-- `keccak256` on the root of `loneTrie` and on the forged node. -/
def loneCrates : Crates where
  keccak256 := digestTable [
    (loneTrie.root.encode fun _ => [],
      beBytes 32 0x666d65429fb8bea9d6a5f3a5af02046e9ee0b756b376654f614bd19f5a261783),
    (forgedNode, forgedHash)]
  decodeList := readList
  orderedTrieRoot := fun _ => zeroBytes 32
  transactionRlp := Transaction.body

/-- The leaf, with the forged node behind it. -/
def loneProof : List Bytes := [loneTrie.root.encode loneCrates.hash, forgedNode]

theorem lone_readsNodes : ReadsNodes loneCrates loneTrie.root := by
  refine readsNodes_of_readList rfl fun s hs => ?_
  rw [hs.of_leaf]
  decide +kernel

theorem lone_noCollision : NoCollision loneCrates loneTrie.root loneProof := by
  intro b hb s hs
  rw [hs.of_leaf]
  revert b
  decide +kernel

theorem verifyProof_inclusion_lone :
    (verifyProof loneCrates loneProof (loneTrie.root.rootHash loneCrates.hash)
        (zeroBytes 32).toList forgedValue = .ok true →
      loneTrie.root.find (keyPath (zeroBytes 32)) = some forgedValue) ↔
      ¬ ∃ w, loneTrie.root.find (keyPath (zeroBytes 32)) = some w ∧ w ≠ forgedValue ∧
        RunsPastLeaf loneCrates forgedValue w (loneTrie.root.walk (keyPath (zeroBytes 32)))
          loneProof :=
  verifyProof_inclusion_iff loneTrie (zeroBytes 32) (by decide +kernel) lone_readsNodes
    lone_noCollision

/-- The stored integer is taken for a child hash, and the forged node's value is accepted. -/
theorem verifyProof_inclusion_unsound :
    ¬ ∀ (c : Crates) (T : Trie 64) (k : Bytes32) (proof : List Bytes) (value : Bytes),
      isEmptyValue value = false → ReadsNodes c T.root → NoCollision c T.root proof →
        verifyProof c proof (T.root.rootHash c.hash) k.toList value = .ok true →
          T.root.find (keyPath k) = some value := by
  intro h
  have hbad := h loneCrates loneTrie (zeroBytes 32) loneProof forgedValue (by decide +kernel)
    lone_readsNodes lone_noCollision (by decide +kernel)
  revert hbad
  decide +kernel

end Helios
