import Helios.Execution.ProofSound
import Helios.Execution.Client

/-!
# The state of the chain

* `ChainAccount` — an account with its code and its storage trie; a slot that the trie does not
  hold is zero.
* `ChainState` — a state trie with the account of every address; an account that the trie does not
  hold is empty.
* `ChainAccount.lone`, `ChainState.lone` — an account with one slot, a state with one account;
  `ChainAccount.fork`, `ChainState.fork` — the same with two.
* `accountRlp_injective`, `encodeValue_injective`, `isEmptyValue_accountRlp`,
  `isEmptyValue_encodeValue` — what the encodings tell apart.
-/

set_option autoImplicit false

namespace Helios

open Nibble Patricia

variable {c : Crates}

/-- The path of an account in the state trie. -/
def accountPath (c : Crates) (address : Address) : List (Fin 16) :=
  keyPath (c.keccak256 address.toList)

/-- The path of a slot in a storage trie. -/
def slotPath (c : Crates) (slot : H256) : List (Fin 16) := keyPath (c.keccak256 slot.toList)

structure ChainAccount (c : Crates) where
  nonce : UInt64
  balance : U256
  code : Bytes
  storage : Trie 64
  slot : H256 → U256
  stored : ∀ key, storage.root.find (slotPath c key) = some (encodeValue (slot key)) ∨
    (storage.root.find (slotPath c key) = none ∧ slot key = 0)

namespace ChainAccount

def storageHash (a : ChainAccount c) : H256 := c.keccak256 (a.storage.root.encode c.hash)

def codeHash (a : ChainAccount c) : H256 := c.keccak256 a.code

def rlp (a : ChainAccount c) : Bytes := accountRlp a.nonce a.balance a.storageHash a.codeHash

/-- Nothing is left of an account that does not exist. -/
structure Absent (a : ChainAccount c) : Prop where
  nonce : a.nonce = 0
  balance : a.balance = 0
  code : a.code = []
  storage : a.storage.root = .empty

end ChainAccount

structure ChainState (c : Crates) where
  trie : Trie 64
  account : Address → ChainAccount c
  stored : ∀ address, trie.root.find (accountPath c address) = some (account address).rlp ∨
    (trie.root.find (accountPath c address) = none ∧ (account address).Absent)

namespace ChainState

def stateRoot (state : ChainState c) : H256 := c.keccak256 (state.trie.root.encode c.hash)

end ChainState

/-! ## Encodings -/

theorem natBytes_word_length (value : U256) : (Rlp.natBytes value.toNat).length ≤ 32 :=
  Rlp.natBytes_length_le (value.isLt.trans_eq (by norm_num))

theorem natBytes_nonce_length (nonce : UInt64) : (Rlp.natBytes nonce.toNat).length ≤ 8 :=
  Rlp.natBytes_length_le (nonce.toNat_lt.trans_eq (by norm_num))

theorem encodeValue_length (value : U256) : (encodeValue value).length ≤ 41 := by
  have hlen := natBytes_word_length value
  have henc : (encodeValue value).length ≤ (Rlp.natBytes value.toNat).length + 9 :=
    Rlp.encodeStr_length_le _ (by omega)
  omega

theorem encodeValue_ne_nil (value : U256) : encodeValue value ≠ [] :=
  List.ne_nil_of_length_pos (Rlp.encodeStr_length_pos _)

theorem encodeValue_injective {v w : U256} (h : encodeValue v = encodeValue w) : v = w := by
  have hlen := encodeValue_length v
  have hitem : Rlp.Item.str (Rlp.natBytes v.toNat) = .str (Rlp.natBytes w.toNat) := by
    apply Rlp.encode_injective
    · rw [Rlp.Item.encode]
      exact Nat.lt_of_le_of_lt hlen (by norm_num)
    · rw [Rlp.Item.encode, Rlp.Item.encode]
      exact h
  rw [Rlp.Item.str.injEq] at hitem
  exact BitVec.eq_of_toNat_eq (Rlp.natBytes_injective hitem)

/-- The one empty slot value is zero. -/
theorem isEmptyValue_encodeValue {value : U256} :
    isEmptyValue (encodeValue value) = true ↔ value = 0 := by
  have hzero : encodeValue 0 = [0x80] := by decide +kernel
  constructor
  · intro h
    simp only [isEmptyValue, Bool.or_eq_true, beq_iff_eq] at h
    rcases h with h | h
    · exact encodeValue_injective (h.trans hzero.symm)
    · have hlen := encodeValue_length value
      have hempty : emptyAccount.length = 70 := by decide +kernel
      rw [h, hempty] at hlen
      omega
  · rintro rfl
    rw [hzero]
    rfl

/-- The items of an account. -/
def accountItems (nonce : UInt64) (balance : U256) (storageHash codeHash : H256) :
    List Rlp.Item :=
  [.str (Rlp.natBytes nonce.toNat), .str (Rlp.natBytes balance.toNat), .str storageHash.toList,
    .str codeHash.toList]

theorem accountItems_length (nonce : UInt64) (balance : U256) (storageHash codeHash : H256) :
    (Rlp.encodeItems (accountItems nonce balance storageHash codeHash)).length ≤ 140 ∧
      64 ≤ (Rlp.encodeItems (accountItems nonce balance storageHash codeHash)).length := by
  have hnonce := natBytes_nonce_length nonce
  have hbalance := natBytes_word_length balance
  have hs : storageHash.toList.length = 32 := Vector.length_toList
  have hc : codeHash.toList.length = 32 := Vector.length_toList
  have h1 := Rlp.encodeStr_length_le (Rlp.natBytes nonce.toNat) (by omega)
  have h2 := Rlp.encodeStr_length_le (Rlp.natBytes balance.toNat) (by omega)
  have h3 := Rlp.encodeStr_length_le storageHash.toList (by omega)
  have h4 := Rlp.encodeStr_length_le codeHash.toList (by omega)
  have h3' := Rlp.length_le_encodeStr storageHash.toList
  have h4' := Rlp.length_le_encodeStr codeHash.toList
  simp only [accountItems, Rlp.encodeItems, Rlp.Item.encode, List.length_append, List.length_nil]
  omega

theorem accountRlp_items (nonce : UInt64) (balance : U256) (storageHash codeHash : H256) :
    accountRlp nonce balance storageHash codeHash =
      (Rlp.Item.list (accountItems nonce balance storageHash codeHash)).encode := rfl

theorem accountRlp_length (nonce : UInt64) (balance : U256) (storageHash codeHash : H256) :
    (accountRlp nonce balance storageHash codeHash).length ≤ 149 ∧
      64 ≤ (accountRlp nonce balance storageHash codeHash).length := by
  obtain ⟨hle, hge⟩ := accountItems_length nonce balance storageHash codeHash
  have hheader : (Rlp.header 0xc0
      (Rlp.encodeItems (accountItems nonce balance storageHash codeHash)).length).length ≤ 9 :=
    Rlp.header_length_le 0xc0 (by omega)
  rw [accountRlp_items, Rlp.encode_list, List.length_append]
  omega

/-- The encoding of an account tells its four fields. -/
theorem accountItems_of_encode {nonce : UInt64} {balance : U256} {storageHash codeHash : H256}
    {items : List Rlp.Item}
    (h : accountRlp nonce balance storageHash codeHash = (Rlp.Item.list items).encode) :
    accountItems nonce balance storageHash codeHash = items := by
  have hlen := (accountRlp_length nonce balance storageHash codeHash).1
  rw [accountRlp_items] at h hlen
  have hitem := Rlp.encode_injective (Nat.lt_of_le_of_lt hlen (by norm_num)) h
  rwa [Rlp.Item.list.injEq] at hitem

theorem accountRlp_injective {nonce nonce' : UInt64} {balance balance' : U256}
    {storageHash storageHash' codeHash codeHash' : H256}
    (h : accountRlp nonce balance storageHash codeHash =
      accountRlp nonce' balance' storageHash' codeHash') :
    nonce = nonce' ∧ balance = balance' ∧ storageHash = storageHash' ∧ codeHash = codeHash' := by
  have hitems := accountItems_of_encode h
  simp only [accountItems, List.cons.injEq, Rlp.Item.str.injEq, and_true] at hitems
  obtain ⟨hnonce, hbalance, hstorage, hcode⟩ := hitems
  exact ⟨UInt64.toNat_inj.1 (Rlp.natBytes_injective hnonce),
    BitVec.eq_of_toNat_eq (Rlp.natBytes_injective hbalance), Vector.toList_inj.1 hstorage,
    Vector.toList_inj.1 hcode⟩

/-- The one empty account value is the one of an account that does not exist. -/
theorem isEmptyValue_accountRlp {nonce : UInt64} {balance : U256} {storageHash codeHash : H256} :
    isEmptyValue (accountRlp nonce balance storageHash codeHash) = true ↔
      nonce = 0 ∧ balance = 0 ∧ storageHash.toList = emptyStorageHash ∧
        codeHash.toList = emptyCodeHash := by
  have hzero : Rlp.natBytes 0 = [] := by decide +kernel
  simp only [isEmptyValue, Bool.or_eq_true, beq_iff_eq]
  constructor
  · rintro (h | h)
    · have hlen := (accountRlp_length nonce balance storageHash codeHash).2
      rw [h] at hlen
      exact absurd hlen (by simp)
    · have hitems := accountItems_of_encode h
      simp only [accountItems, List.cons.injEq, Rlp.Item.str.injEq, and_true] at hitems
      obtain ⟨hnonce, hbalance, hstorage, hcode⟩ := hitems
      exact ⟨UInt64.toNat_inj.1 (Rlp.natBytes_injective (hnonce.trans hzero.symm)),
        BitVec.eq_of_toNat_eq (Rlp.natBytes_injective (hbalance.trans hzero.symm)), hstorage, hcode⟩
  · rintro ⟨rfl, rfl, hstorage, hcode⟩
    right
    rw [accountRlp_items, accountItems, hstorage, hcode]
    rfl

/-! ## One slot, one account -/

theorem keyPath_injective {a b : Bytes32} (h : keyPath a = keyPath b) : a = b := by
  have hpack := congrArg pack h
  rw [keyPath, keyPath, pack_nibbles, pack_nibbles] at hpack
  exact Vector.toList_inj.1 hpack

/-- A digest of the table is that of one of its entries. -/
theorem mem_of_digestTable {table : List (Bytes × Bytes32)} {b : Bytes} {digest : Bytes32}
    (hne : digest ≠ zeroBytes 32) (h : digestTable table b = digest) : (b, digest) ∈ table := by
  unfold digestTable at h
  split at h
  · rename_i entry hentry
    have hb : entry.1 = b := by simpa using List.find?_some hentry
    have hmem := List.mem_of_find?_eq_some hentry
    rw [← hb, ← h]
    exact hmem
  · exact absurd h.symm hne

/-- Where no digest of a table stands twice, equal digests are of equal bytes. -/
theorem digestTable_injective {table : List (Bytes × Bytes32)}
    (htable : (table.map Prod.snd).Nodup) {b bytes : Bytes}
    (hne : digestTable table bytes ≠ zeroBytes 32)
    (h : digestTable table b = digestTable table bytes) : b = bytes := by
  have hb := mem_of_digestTable hne h
  have hbytes := mem_of_digestTable hne rfl
  exact congrArg Prod.fst (List.inj_on_of_nodup_map htable hb hbytes rfl)

/-- An account without code and storage. -/
def ChainAccount.plain (c : Crates) (nonce : UInt64) (balance : U256) : ChainAccount c where
  nonce := nonce
  balance := balance
  code := []
  storage := ⟨.empty, trivial⟩
  slot := fun _ => 0
  stored := fun _ => Or.inr ⟨rfl, rfl⟩

/-- An account with one slot in its storage. -/
def ChainAccount.lone (nonce : UInt64) (balance : U256) (code : Bytes) (key : H256) (value : U256)
    (hfree : ∀ other, c.keccak256 other.toList = c.keccak256 key.toList → other = key) :
    ChainAccount c where
  nonce := nonce
  balance := balance
  code := code
  storage := ⟨.leaf (slotPath c key) (encodeValue value), keyPath_length _, encodeValue_ne_nil _⟩
  slot := fun other => if other = key then value else 0
  stored := by
    intro other
    by_cases h : other = key
    · left
      rw [h, Node.find, if_pos rfl, if_pos rfl]
    · right
      refine ⟨if_neg fun hpath => h ?_, if_neg h⟩
      exact hfree other (keyPath_injective hpath).symm

/-- A state with one account. -/
def ChainState.lone (address : Address) (a : ChainAccount c)
    (hfree : ∀ other, c.keccak256 other.toList = c.keccak256 address.toList → other = address) :
    ChainState c where
  trie := ⟨.leaf (accountPath c address) a.rlp, keyPath_length _,
    List.ne_nil_of_length_pos (Rlp.encode_length_pos _)⟩
  account := fun other => if other = address then a else .plain c 0 0
  stored := by
    intro other
    by_cases h : other = address
    · left
      rw [h, Node.find, if_pos rfl, if_pos rfl]
    · right
      refine ⟨if_neg fun hpath => h ?_, ?_⟩
      · exact hfree other (keyPath_injective hpath).symm
      · rw [if_neg h]
        exact ⟨rfl, rfl, rfl, rfl⟩

/-! ## Two slots, two accounts -/

/-- Two keys whose paths part at the second nibble. -/
structure Parting (a b : Bytes32) where
  common : Fin 16
  left : Fin 16
  right : Fin 16
  parted : left ≠ right
  left_path : keyPath a = common :: left :: (keyPath a).drop 2
  right_path : keyPath b = common :: right :: (keyPath b).drop 2

namespace Parting

variable {a b : Bytes32} {v w : Bytes}

/-- The trie of the two keys. -/
def trie (p : Parting a b) (v w : Bytes) (hv : v ≠ []) (hw : w ≠ []) : Trie 64 where
  root := .fork p.common p.left p.right ((keyPath a).drop 2) ((keyPath b).drop 2) v w
  wf := wellFormed_fork p.parted (by simp [keyPath_length]) (by simp [keyPath_length]) hv hw

theorem find_trie (p : Parting a b) {hv : v ≠ []} {hw : w ≠ []} (key : Bytes32) :
    (p.trie v w hv hw).root.find (keyPath key) =
      if key = a then some v else if key = b then some w else none := by
  have hpath : ∀ other, keyPath key = keyPath other ↔ key = other :=
    fun other => ⟨keyPath_injective, congrArg keyPath⟩
  rw [trie, find_fork p.parted, ← p.left_path, ← p.right_path]
  simp only [hpath]

/-- The same for keys that are hashed, if nothing else has their hashes. -/
theorem find_hashed {n : Nat} {key key' : Vector UInt8 n}
    (p : Parting (c.keccak256 key.toList) (c.keccak256 key'.toList)) {hv : v ≠ []} {hw : w ≠ []}
    (hfree : ∀ other : Vector UInt8 n, c.keccak256 other.toList = c.keccak256 key.toList →
      other = key)
    (hfree' : ∀ other : Vector UInt8 n, c.keccak256 other.toList = c.keccak256 key'.toList →
      other = key') (other : Vector UInt8 n) :
    (p.trie v w hv hw).root.find (keyPath (c.keccak256 other.toList)) =
      if other = key then some v else if other = key' then some w else none := by
  have hkey : c.keccak256 other.toList = c.keccak256 key.toList ↔ other = key :=
    ⟨hfree other, fun h => by rw [h]⟩
  have hkey' : c.keccak256 other.toList = c.keccak256 key'.toList ↔ other = key' :=
    ⟨hfree' other, fun h => by rw [h]⟩
  rw [p.find_trie]
  simp only [hkey, hkey']

end Parting

/-- An account with two slots in its storage. -/
def ChainAccount.fork (nonce : UInt64) (balance : U256) (code : Bytes) (key key' : H256)
    (value value' : U256) (p : Parting (c.keccak256 key.toList) (c.keccak256 key'.toList))
    (hfree : ∀ other, c.keccak256 other.toList = c.keccak256 key.toList → other = key)
    (hfree' : ∀ other, c.keccak256 other.toList = c.keccak256 key'.toList → other = key') :
    ChainAccount c where
  nonce := nonce
  balance := balance
  code := code
  storage := p.trie (encodeValue value) (encodeValue value') (encodeValue_ne_nil _)
    (encodeValue_ne_nil _)
  slot := fun other => if other = key then value else if other = key' then value' else 0
  stored := by
    intro other
    rw [slotPath, p.find_hashed hfree hfree']
    by_cases h : other = key
    · left
      rw [if_pos h, if_pos h]
    · by_cases h' : other = key'
      · left
        rw [if_neg h, if_neg h, if_pos h', if_pos h']
      · right
        rw [if_neg h, if_neg h, if_neg h', if_neg h']
        exact ⟨rfl, rfl⟩

/-- A state with two accounts. -/
def ChainState.fork (address address' : Address) (a a' : ChainAccount c)
    (p : Parting (c.keccak256 address.toList) (c.keccak256 address'.toList))
    (hfree : ∀ other, c.keccak256 other.toList = c.keccak256 address.toList → other = address)
    (hfree' : ∀ other, c.keccak256 other.toList = c.keccak256 address'.toList →
      other = address') : ChainState c where
  trie := p.trie a.rlp a'.rlp (List.ne_nil_of_length_pos (Rlp.encode_length_pos _))
    (List.ne_nil_of_length_pos (Rlp.encode_length_pos _))
  account := fun other =>
    if other = address then a else if other = address' then a' else .plain c 0 0
  stored := by
    intro other
    rw [accountPath, p.find_hashed hfree hfree']
    by_cases h : other = address
    · left
      rw [if_pos h, if_pos h]
    · by_cases h' : other = address'
      · left
        rw [if_neg h, if_neg h, if_pos h', if_pos h']
      · right
        rw [if_neg h, if_neg h, if_neg h', if_neg h']
        exact ⟨rfl, rfl, rfl, rfl, rfl⟩

/-! ## An account with one slot -/

def sampleAddress : Address := Vector.replicate 20 0x11

def sampleSlot : H256 := beBytes 32 1

/-- The path of a key in a trie of one leaf, and that leaf. -/
def loneLeaf (path : H256) (value : Bytes) : Bytes :=
  (Patricia.Node.leaf (keyPath path) value).encode fun _ => []

def sampleAddressHash : H256 := beBytes 32 0xe2c07404b8c1df4c46226425cac68c28d27a766bbddce62309f36724839b22c0

def sampleSlotHash : H256 := beBytes 32 0xb10e2d527612073b26eecdfd717e6a320cf44b4afac2b0732d9fcbe2b7fa0cf6

def sampleStorageHash : H256 := beBytes 32 0x507dc864c12c35fa19f6a8c824601ce2f1bedd1fdf454c2df2f2a7ce411a6d6f

def sampleStateRoot : H256 := beBytes 32 0x1343f51c431a386383193333fab2e1bdd4a938c6fb4b4203f164222f1855996d

def sampleSlotLeaf : Bytes := loneLeaf sampleSlotHash (encodeValue 5)

def sampleAccountLeaf : Bytes :=
  loneLeaf sampleAddressHash (accountRlp 1 1000000000000000000 sampleStorageHash keccakEmpty)

/-- The root of the state where the account has no storage. -/
def samplePlainRoot : H256 := beBytes 32 0xb3e58fdbabd36dfe1519fdc910e208791c4d3fd0153ee4b650be5112ddcf41c6

/-- The hash of the empty trie. -/
def emptyTrieHash : H256 :=
  beBytes 32 0x56e81f171bcc55a6ff8345e692c0f86e5b48e01b996cadc001622fb5e363b421

def stateDigests : List (Bytes × Bytes32) :=
  [([], keccakEmpty), ([0x80], emptyTrieHash), (sampleAddress.toList, sampleAddressHash),
    (sampleSlot.toList, sampleSlotHash),
    ((beBytes 32 2).toList,
      beBytes 32 0x405787fa12a823e0f2b7631cc41b3ba8828b3321ca811111fa75cd3aa3bb5ace),
    (sampleSlotLeaf, sampleStorageHash), (sampleAccountLeaf, sampleStateRoot),
    (loneLeaf sampleAddressHash (accountRlp 1 1000000000000000000 emptyTrieHash keccakEmpty),
      samplePlainRoot)]

/-- `keccak256` on what these states hash. -/
def stateCrates : Crates where
  keccak256 := digestTable stateDigests
  decodeList := readList
  orderedTrieRoot := fun _ => zeroBytes 32
  transactionRlp := Transaction.body

theorem stateDigests_nodup : (stateDigests.map Prod.snd).Nodup := by decide +kernel

theorem stateCrates_slot (other : H256)
    (h : stateCrates.keccak256 other.toList = stateCrates.keccak256 sampleSlot.toList) :
    other = sampleSlot :=
  Vector.toList_inj.1 (digestTable_injective stateDigests_nodup (by decide +kernel) h)

theorem stateCrates_address (other : Address)
    (h : stateCrates.keccak256 other.toList = stateCrates.keccak256 sampleAddress.toList) :
    other = sampleAddress :=
  Vector.toList_inj.1 (digestTable_injective stateDigests_nodup (by decide +kernel) h)

/-- The state with the account. -/
def sampleState : ChainState stateCrates :=
  .lone sampleAddress (.lone 1 1000000000000000000 [] sampleSlot 5 stateCrates_slot)
    stateCrates_address

/-- Every other account of it is absent. -/
theorem sampleState_account (address : Address) :
    sampleState.account address = sampleState.account sampleAddress ∨
      sampleState.account address = .plain stateCrates 0 0 := by
  by_cases h : address = sampleAddress
  · rw [h]
    exact Or.inl rfl
  · exact Or.inr (if_neg h)

/-- The state where it has no storage. -/
def plainState : ChainState stateCrates :=
  .lone sampleAddress (.plain stateCrates 1 1000000000000000000) stateCrates_address

theorem leaf_readsNodes {path : List (Fin 16)} {value : Bytes}
    (h : ((Node.leaf path value).encode stateCrates.hash).length < 2 ^ 64) :
    ReadsNodes stateCrates (.leaf path value) := by
  apply readsNodes_of_readList rfl
  intro s hs
  rw [hs.of_leaf]
  exact h

end Helios
