import Helios.Execution.ChainState
import Helios.Execution.Account
import Helios.Execution.TrieComplete

/-!
# Account queries answered by an honest server

* `Canonical` — the proofs of EIP-1186; for an empty trie servers send no node, or the empty one.
* `Honest` — the server answers both requests of `get_account` from the state.
* `verifyProof_canonical_iff` — a canonical proof is accepted exactly when the trie is not empty.
* `getAccount_honest_iff` — **the true account is returned exactly when** the state trie is not
  empty, and neither is the storage trie if slots are asked for.
-/

set_option autoImplicit false

namespace Helios

open Nibble Patricia

variable {c : Crates} {address : Address}

def Canonical (c : Crates) (t : Node) (key : List (Fin 16)) (proof : List Bytes) : Prop :=
  if t.isEmpty then proof = [] ∨ proof = [[0x80]] else proof = t.proof c.hash key

instance (t : Node) (key : List (Fin 16)) (proof : List Bytes) :
    Decidable (Canonical c t key proof) :=
  inferInstanceAs (Decidable (if t.isEmpty then proof = [] ∨ proof = [[0x80]]
    else proof = t.proof c.hash key))

/-- The answer for one slot. -/
structure HonestSlot (a : ChainAccount c) (slot : H256) (storageProof : StorageProof) : Prop where
  key : storageProof.key = slot
  value : storageProof.value = a.slot slot
  proof : Canonical c a.storage.root (slotPath c slot) storageProof.proof

/-- The answer for an account and some of its slots. -/
structure HonestProof (state : ChainState c) (address : Address) (slots : List H256)
    (proof : EIP1186ProofResponse) : Prop where
  balance : proof.balance = (state.account address).balance
  nonce : proof.nonce = (state.account address).nonce
  codeHash : proof.codeHash = (state.account address).codeHash
  storageHash : proof.storageHash = (state.account address).storageHash
  accountProof : Canonical c state.trie.root (accountPath c address) proof.accountProof
  storageProof : List.Forall₂ (HonestSlot (state.account address)) slots proof.storageProof

structure Honest (state : ChainState c) (w : ExecutionWorld) (address : Address)
    (slots : List H256) (blockNumber : UInt64) : Prop where
  proof : ∃ proof, (w 0).getProof address slots blockNumber = .ok proof ∧
    HonestProof state address slots proof
  code : (w 1).getCode address blockNumber = .ok (state.account address).code

/-- A trie that embeds no child and whose nodes are read back. -/
structure Plain (c : Crates) (t : Node) : Prop where
  hashed : t.Hashed c.hash
  reads : ReadsNodes c t

/-- The account as it is, with the slots asked for. -/
structure TrueAccount (a : ChainAccount c) (slots : List H256) (account : Account) : Prop where
  balance : account.balance = a.balance
  nonce : account.nonce = a.nonce
  code : account.code = a.code
  slots : ∀ slot ∈ slots, account.slots[slot]? = some (a.slot slot)

/-! ## Canonical proofs -/

/-- No proof against an empty trie is accepted: neither form of it has a node with items. -/
theorem verifyProof_canonical_empty {t : Node} {key : List (Fin 16)} {proof : List Bytes}
    {root path value : Bytes} (ht : t.isEmpty = true) (hread : ReadsNodes c t)
    (h : Canonical c t key proof) : verifyProof c proof root path value ≠ .ok true := by
  rw [Canonical, if_pos ht] at h
  rcases h with rfl | rfl
  · simp [verifyProof, verifyProofFrom]
  · intro haccept
    obtain ⟨_, nodeList, hdecode, hitems⟩ := (verifyProofFrom_step (Nat.zero_le _)).1 haccept
    have hnil : nodeList = [] := hread.empty nodeList hdecode
    rcases hitems with ⟨hlen, _⟩ | ⟨nodePath, item, hpair, _⟩
    · rw [hnil] at hlen
      cases hlen
    · rw [hnil] at hpair
      cases hpair

/-- **A canonical proof is accepted exactly when the trie is not empty.** -/
theorem verifyProof_canonical_iff {T : Trie 64} {k : Bytes32} {proof : List Bytes} {value : Bytes}
    (hplain : Plain c T.root) (h : Canonical c T.root (keyPath k) proof)
    (hv : Holds T.root (keyPath k) value) :
    verifyProof c proof (T.root.rootHash c.hash) k.toList value = .ok true ↔
      T.root.isEmpty = false := by
  cases ht : T.root.isEmpty with
  | true => simp [verifyProof_canonical_empty ht hplain.reads h]
  | false =>
    rw [Canonical, ht] at h
    obtain rfl : proof = T.root.proof c.hash (keyPath k) := h
    obtain ⟨hstored, habsent⟩ := verifyProof_complete c T k ht hplain.hashed hplain.reads
    rcases hv with hfind | ⟨hnone, hempty⟩
    · simp [hstored value hfind]
    · simp [habsent hnone value hempty]

theorem holds_slot (a : ChainAccount c) (slot : H256) :
    Holds a.storage.root (slotPath c slot) (encodeValue (a.slot slot)) := by
  rcases a.stored slot with hfind | ⟨hnone, hzero⟩
  · exact Or.inl hfind
  · exact Or.inr ⟨hnone, isEmptyValue_encodeValue.2 hzero⟩

theorem keccakEmpty_toList : keccakEmpty.toList = emptyCodeHash := by decide +kernel

/-- The hashes of an account that does not exist are the two constants. -/
theorem holds_account (hempty : c.keccak256 [] = keccakEmpty)
    (hzero : c.hash [0x80] = emptyStorageHash) (state : ChainState c) (address : Address) :
    Holds state.trie.root (accountPath c address) (state.account address).rlp := by
  rcases state.stored address with hfind | ⟨hnone, habsent⟩
  · exact Or.inl hfind
  · refine Or.inr ⟨hnone, isEmptyValue_accountRlp.2 ⟨habsent.nonce, habsent.balance, ?_, ?_⟩⟩
    · rw [ChainAccount.storageHash, habsent.storage]
      exact hzero
    · rw [ChainAccount.codeHash, habsent.code, hempty]
      exact keccakEmpty_toList

/-! ## Slots -/

theorem verifySlot_honest_iff {a : ChainAccount c} {slot : H256} {storageProof : StorageProof}
    (hplain : Plain c a.storage.root) (h : HonestSlot a slot storageProof) :
    verifyProof c storageProof.proof a.storageHash.toList
        (c.keccak256 storageProof.key.toList).toList (encodeValue storageProof.value) = .ok true ↔
      a.storage.root.isEmpty = false := by
  rw [h.key, h.value]
  exact verifyProof_canonical_iff hplain h.proof (holds_slot a slot)

/-- Every slot of a storage trie that is not empty passes. -/
theorem verifySlots_honest {a : ChainAccount c} (hplain : Plain c a.storage.root)
    (hne : a.storage.root.isEmpty = false) {slots : List H256} {proofs : List StorageProof}
    (h : List.Forall₂ (HonestSlot a) slots proofs) :
    ∀ slotMap, ∃ result, verifySlots c address a.storageHash proofs slotMap = .ok result := by
  induction h with
  | nil => exact fun slotMap => ⟨slotMap, rfl⟩
  | cons hslot _ ih =>
    intro slotMap
    obtain ⟨result, hresult⟩ := ih (slotMap.insert _ _)
    exact ⟨result, verifySlots_cons_iff.2 ⟨(verifySlot_honest_iff hplain hslot).2 hne, hresult⟩⟩

/-- The first slot of an empty storage trie does not. -/
theorem verifySlots_honest_empty {a : ChainAccount c} (hplain : Plain c a.storage.root)
    {slots : List H256} {proofs : List StorageProof} {slotMap result : Std.HashMap H256 U256}
    (h : List.Forall₂ (HonestSlot a) slots proofs)
    (hok : verifySlots c address a.storageHash proofs slotMap = .ok result) :
    slots = [] ∨ a.storage.root.isEmpty = false := by
  cases h with
  | nil => exact Or.inl rfl
  | cons hslot _ =>
    exact Or.inr ((verifySlot_honest_iff hplain hslot).1 (verifySlots_cons_iff.1 hok).1)

/-- An entry of the map that is true stays so, and every slot asked for becomes one. -/
theorem verifySlots_true {a : ChainAccount c} {storageHash : H256} {slots : List H256}
    {proofs : List StorageProof} (h : List.Forall₂ (HonestSlot a) slots proofs) :
    ∀ {slotMap result : Std.HashMap H256 U256},
      verifySlots c address storageHash proofs slotMap = .ok result →
        ∀ slot, slot ∈ slots ∨ slotMap[slot]? = some (a.slot slot) →
          result[slot]? = some (a.slot slot) := by
  induction h with
  | nil =>
    intro slotMap result hok slot hslot
    cases hok
    exact hslot.resolve_left (by simp)
  | cons hhead _ ih =>
    intro slotMap result hok slot hslot
    obtain ⟨_, hrest⟩ := verifySlots_cons_iff.1 hok
    apply ih hrest
    rw [hhead.key, hhead.value, Std.HashMap.getElem?_insert]
    rcases hslot with hmem | hmap
    · rcases List.mem_cons.1 hmem with rfl | htail
      · simp
      · exact Or.inl htail
    · right
      split
      · rename_i heq
        rw [eq_of_beq heq]
      · exact hmap

/-! ## Accounts -/

/-- The code is fetched, unless its hash says there is none. -/
theorem fetchCode_honest {state : ChainState c} {rpc : ExecutionRpc} {blockNumber : UInt64}
    (hcode : (state.account address).codeHash = keccakEmpty → (state.account address).code = [])
    (h : rpc.getCode address blockNumber = .ok (state.account address).code) :
    fetchCode c rpc address blockNumber (state.account address).codeHash =
      .ok (state.account address).code := by
  unfold fetchCode
  split
  · rename_i hempty
    rw [hcode hempty]
  · rw [h]
    simp [answer, ChainAccount.codeHash]

/-- **An honest server's account is returned exactly when** its state trie is not empty and, if
    slots are asked for, neither is the account's storage trie.  Whatever the account is, present or
    absent, it is returned as it is, with every slot asked for. -/
theorem getAccount_honest_iff (c : Crates) (hempty : c.keccak256 [] = keccakEmpty)
    (hzero : c.hash [0x80] = emptyStorageHash) (state : ChainState c) (w : ExecutionWorld)
    (address : Address) (slots : Option (List H256)) (payload : ExecutionPayload)
    (hroot : payload.stateRoot = state.stateRoot) (hstate : Plain c state.trie.root)
    (hstorage : Plain c (state.account address).storage.root)
    (hcode : (state.account address).codeHash = keccakEmpty → (state.account address).code = [])
    (honest : Honest state w address (slots.getD []) payload.blockNumber) :
    (∃ account, getAccount c w address slots payload = .ok account ∧
        TrueAccount (state.account address) (slots.getD []) account) ↔
      state.trie.root.isEmpty = false ∧
        (slots.getD [] = [] ∨ (state.account address).storage.root.isEmpty = false) := by
  obtain ⟨⟨proof, hproof, hp⟩, hgetCode⟩ := honest
  have hfields : verifyProof c proof.accountProof payload.stateRoot.toList
      (c.keccak256 address.toList).toList (encodeAccount proof) = .ok true ↔
        state.trie.root.isEmpty = false := by
    rw [hroot, encodeAccount, hp.nonce, hp.balance, hp.storageHash, hp.codeHash]
    exact verifyProof_canonical_iff hstate hp.accountProof (holds_account hempty hzero state address)
  constructor
  · rintro ⟨account, hok, _⟩
    obtain ⟨found, slotMap, code, hfound, hvalid, hslots, _⟩ := getAccount_ok_iff.1 hok
    rw [hproof] at hfound
    obtain rfl : proof = found := Except.ok.inj hfound
    rw [hp.storageHash] at hslots
    exact ⟨hfields.1 hvalid, verifySlots_honest_empty hstorage hp.storageProof hslots⟩
  · rintro ⟨hne, hslots⟩
    have hmap : ∃ slotMap, verifySlots c address proof.storageHash proof.storageProof ∅ =
        .ok slotMap := by
      rcases hslots with hnone | hfull
      · have hnil := hp.storageProof
        rw [hnone, List.forall₂_nil_left_iff] at hnil
        rw [hnil]
        exact ⟨∅, rfl⟩
      · rw [hp.storageHash]
        exact verifySlots_honest hstorage hfull hp.storageProof ∅
    obtain ⟨slotMap, hslotMap⟩ := hmap
    have hfetch := fetchCode_honest hcode hgetCode
    rw [← hp.codeHash] at hfetch
    refine ⟨_, getAccount_ok_iff.2 ⟨proof, slotMap, _, ?_, hfields.2 hne, hslotMap, hfetch, rfl⟩,
      hp.balance, hp.nonce, rfl, ?_⟩
    · rw [hproof]
      rfl
    · intro slot hslot
      exact verifySlots_true hp.storageProof hslotMap slot (Or.inl hslot)

/-! ## One account -/

theorem sampleState_plain : Plain stateCrates sampleState.trie.root ∧
    Plain stateCrates (sampleState.account sampleAddress).storage.root :=
  ⟨⟨trivial, leaf_readsNodes (by decide +kernel)⟩, ⟨trivial, leaf_readsNodes (by decide +kernel)⟩⟩

theorem plainState_plain : Plain stateCrates plainState.trie.root ∧
    Plain stateCrates (plainState.account sampleAddress).storage.root := by
  refine ⟨⟨trivial, leaf_readsNodes (by decide +kernel)⟩, trivial, ?_⟩
  refine readsNodes_of_readList rfl fun s hs => ?_
  cases hs
  decide +kernel

/-- A server that answers for the account, its slot and the unset one after it. -/
def honestRpc : ExecutionRpc where
  getProof := fun _ _ _ => .ok
    { address := sampleAddress, balance := 1000000000000000000, codeHash := keccakEmpty
      nonce := 1, storageHash := sampleStorageHash, accountProof := [sampleAccountLeaf]
      storageProof := [⟨sampleSlot, [sampleSlotLeaf], 5⟩, ⟨beBytes 32 2, [sampleSlotLeaf], 0⟩] }
  createAccessList := fun _ _ => .error (.rpc "create_access_list")
  getCode := fun _ _ => .ok []
  getTransactionReceipt := fun _ => .ok none
  getTransaction := fun _ => .ok none

/-- A server of the state where the account has no storage, with no node in the proof of a slot. -/
def plainRpc : ExecutionRpc where
  getProof := fun _ _ _ => .ok
    { address := sampleAddress, balance := 1000000000000000000, codeHash := keccakEmpty
      nonce := 1, storageHash := emptyTrieHash
      accountProof := [plainState.trie.root.encode stateCrates.hash]
      storageProof := [⟨sampleSlot, [], 0⟩] }
  createAccessList := fun _ _ => .error (.rpc "create_access_list")
  getCode := fun _ _ => .ok []
  getTransactionReceipt := fun _ => .ok none
  getTransaction := fun _ => .ok none

theorem honestRpc_honest : Honest sampleState (fun _ => honestRpc) sampleAddress
    [sampleSlot, beBytes 32 2] 0 := by
  refine ⟨⟨_, rfl, rfl, rfl, by decide +kernel, by decide +kernel, by decide +kernel, ?_⟩, rfl⟩
  refine .cons ⟨rfl, by decide +kernel, by decide +kernel⟩ (.cons ⟨rfl, ?_, ?_⟩ .nil)
  · decide +kernel
  · decide +kernel

theorem plainRpc_honest : Honest plainState (fun _ => plainRpc) sampleAddress [sampleSlot] 0 := by
  refine ⟨⟨_, rfl, rfl, rfl, by decide +kernel, by decide +kernel, by decide +kernel, ?_⟩, rfl⟩
  exact .cons ⟨rfl, by decide +kernel, Or.inl rfl⟩ .nil

/-- A stored slot and an unset one are answered. -/
theorem getAccount_honest_sample :
    ∃ account, getAccount stateCrates (fun _ => honestRpc) sampleAddress
        (some [sampleSlot, beBytes 32 2])
        { (default : ExecutionPayload) with stateRoot := sampleStateRoot } = .ok account ∧
      TrueAccount (sampleState.account sampleAddress) [sampleSlot, beBytes 32 2] account :=
  (getAccount_honest_iff stateCrates (by decide +kernel) (by decide +kernel) sampleState
    (fun _ => honestRpc) sampleAddress (some [sampleSlot, beBytes 32 2])
    { (default : ExecutionPayload) with stateRoot := sampleStateRoot } (by decide +kernel)
    sampleState_plain.1 sampleState_plain.2 (fun _ => rfl) honestRpc_honest).2 ⟨rfl, Or.inr rfl⟩

/-- An unset slot of an account without storage is rejected. -/
theorem getAccount_honest_rejected :
    ¬ ∀ (c : Crates) (state : ChainState c) (w : ExecutionWorld) (address : Address)
        (slots : Option (List H256)) (payload : ExecutionPayload),
      c.keccak256 [] = keccakEmpty → c.hash [0x80] = emptyStorageHash →
        payload.stateRoot = state.stateRoot → Plain c state.trie.root →
        Plain c (state.account address).storage.root →
        ((state.account address).codeHash = keccakEmpty → (state.account address).code = []) →
        Honest state w address (slots.getD []) payload.blockNumber →
          ∃ account, getAccount c w address slots payload = .ok account ∧
            TrueAccount (state.account address) (slots.getD []) account := by
  intro h
  obtain ⟨account, hok, _⟩ := h stateCrates plainState (fun _ => plainRpc) sampleAddress
    (some [sampleSlot]) { (default : ExecutionPayload) with stateRoot := samplePlainRoot }
    (by decide +kernel) (by decide +kernel) (by decide +kernel) plainState_plain.1
    plainState_plain.2 (fun _ => rfl) plainRpc_honest
  obtain ⟨proof, slotMap, _, hproof, _, hslots, _⟩ := getAccount_ok_iff.1 hok
  cases hproof
  have hreject := (verifySlots_cons_iff.1 hslots).1
  simp [verifyProof, verifyProofFrom] at hreject

end Helios
