import Helios.Client.Queries
import Helios.Consensus.Alignment
import Helios.Execution.AccessList

/-!
# What a lying server can make of an account

The server answers what it likes; only the hash is trusted.

* `Sealed` — no byte string collides with a node of the trie.
* `sealed_accepts_iff` — the values for which some proof is accepted: those that the trie holds, and
  two kinds of others.
* `SlotAnswer`, `Deniable` — what that makes of a slot, and of an account.
* `slotProved_iff`, `accountFields_iff` — the same of the checks of `get_account`.
* `account_answers_iff` — **the balance, the nonce and the code that the node can be made to answer
  are those of the state, or those of an account that does not exist**.
* `storage_answers_iff` — **the same for a slot, which can be anything where 31 bytes hold it**.
* `heldState` — two accounts, one of them with two slots: the account can be denied, and its first
  slot denied and replaced.
-/

set_option autoImplicit false

namespace Helios

open Nibble Patricia OrderedMap

variable {c : Crates} {state : ChainState c} {address : Address} {payload : ExecutionPayload}
  {value : Bytes}

/-- A trie whose nodes are read back and named by their hashes, which nothing else has. -/
structure Sealed (c : Crates) (t : Patricia.Node) : Prop where
  plain : Plain c t
  collisions : ∀ b s, t.Within s → c.hash b = c.hash (s.encode c.hash) → b = s.encode c.hash

theorem Sealed.noCollision {t : Patricia.Node} (h : Sealed c t) (proof : List Bytes) :
    NoCollision c t proof :=
  fun b _ s hs heq => h.collisions b s hs heq

/-- A value that the trie does not hold, and a proof of it that is accepted all the same. -/
def Deceives (c : Crates) (t : Patricia.Node) (key : List (Fin 16)) (value : Bytes)
    (proof : List Bytes) : Prop :=
  ∃ w, t.find key = some w ∧
    (isEmptyValue value = true ∧ StopsAtExtension c (t.walk key) proof ∨
      RunsPastLeaf c value w (t.walk key) proof)

/-- **The values that a server can prove.** -/
theorem sealed_accepts_iff {T : Trie 64} (hs : Sealed c T.root) (k : Bytes32) :
    (∃ proof, verifyProof c proof (T.root.rootHash c.hash) k.toList value = .ok true) ↔
      T.root.isEmpty = false ∧ (Holds T.root (keyPath k) value ∨
        ∃ proof, Deceives c T.root (keyPath k) value proof) := by
  have haccepted : ∀ proof, verifyProof c proof (T.root.rootHash c.hash) k.toList value =
      .ok true ↔ Accepted c value T.root (keyPath k) proof :=
    fun proof => verifyProof_eq_true_iff T k hs.plain.reads (hs.noCollision proof)
  constructor
  · rintro ⟨proof, hproof⟩
    rw [haccepted] at hproof
    refine ⟨Bool.eq_false_iff.2 fun hempty => not_accepted_of_isEmpty hempty hproof, ?_⟩
    cases hfind : T.root.find (keyPath k) with
    | none =>
      -- a value that is not empty ends at a stored key
      cases hv : isEmptyValue value with
      | true => exact Or.inl (Or.inr ⟨hfind, hv⟩)
      | false =>
        obtain ⟨w, hw⟩ := accepted_find hv hproof
        rw [hfind] at hw
        cases hw
    | some w =>
      rw [accepted_iff_of_find hs.plain.reads hfind] at hproof
      rcases hproof with hstops | ⟨_, rfl⟩ | hpast
      · exact Or.inr ⟨proof, w, hfind, Or.inl hstops⟩
      · exact Or.inl (Or.inl hfind)
      · exact Or.inr ⟨proof, w, hfind, Or.inr hpast⟩
  · rintro ⟨hne, hholds | ⟨proof, w, hfind, hwalk⟩⟩
    · obtain ⟨hstored, habsent⟩ := verifyProof_complete c T k hne hs.plain.hashed hs.plain.reads
      rcases hholds with hfind | ⟨hnone, hv⟩
      · exact ⟨_, hstored value hfind⟩
      · exact ⟨_, habsent hnone value hv⟩
    · refine ⟨proof, (haccepted proof).2 ((accepted_iff_of_find hs.plain.reads hfind).2 ?_)⟩
      rcases hwalk with hstops | hpast
      · exact Or.inl hstops
      · exact Or.inr (Or.inr hpast)

/-- Nodes behind a leaf hang on a value that is a hash. -/
theorem forged_length {w : Bytes} {proof : List Bytes} (h : Forged c value w proof) :
    w.length = 32 := by
  cases proof with
  | nil => exact absurd h (by simp [Forged])
  | cons node rest =>
    rw [h.1]
    exact c.hash_length node

/-! ## Slots -/

/-- What a server can make the client take for a slot. -/
inductive SlotAnswer (a : ChainAccount c) (slot : H256) : U256 → Prop
  /-- The slot as it is. -/
  | told : SlotAnswer a slot (a.slot slot)
  /-- Zero, by the walk to the slot cut short at an extension. -/
  | denied {proof : List Bytes} :
      StopsAtExtension c (a.storage.root.walk (slotPath c slot)) proof → SlotAnswer a slot 0
  /-- Another value, by nodes behind a leaf whose value takes 31 bytes. -/
  | replaced {value : U256} {proof : List Bytes} : 2 ^ 240 ≤ (a.slot slot).toNat →
      (a.slot slot).toNat < 2 ^ 248 → RunsPastLeaf c (encodeValue value)
        (encodeValue (a.slot slot)) (a.storage.root.walk (slotPath c slot)) proof →
      SlotAnswer a slot value

/-- Only the values of 31 bytes are encoded in as many bytes as a hash. -/
theorem encodeValue_hash {v : U256} (h : (encodeValue v).length = 32) :
    2 ^ 240 ≤ v.toNat ∧ v.toNat < 2 ^ 248 := by
  have hword := natBytes_word_length v
  have hlength : (Rlp.natBytes v.toNat).length = 31 := by
    by_cases hone : (Rlp.natBytes v.toNat).length = 1
    · have hle := Rlp.encodeStr_length_le (Rlp.natBytes v.toNat) (by omega)
      unfold encodeValue at h
      omega
    · have heq := @Rlp.encodeStr_length (Rlp.natBytes v.toNat) (by omega) hone
      unfold encodeValue at h
      omega
  obtain ⟨hlow, hhigh⟩ := Rlp.natBytes_bounds hlength
  exact ⟨by simpa using hlow, by simpa using hhigh⟩

/-- **The slots that a server can prove.** -/
theorem slotProved_iff {a : ChainAccount c} (hs : Sealed c a.storage.root) {slot : H256}
    {value : U256} : SlotProved c a.storageHash slot value ↔
      a.storage.root.isEmpty = false ∧ SlotAnswer a slot value := by
  have hiff := @sealed_accepts_iff c (encodeValue value) a.storage hs (c.keccak256 slot.toList)
  change SlotProved c a.storageHash slot value ↔ _ at hiff
  rw [hiff]
  refine and_congr_right fun _ => ⟨?_, ?_⟩
  · rintro (hholds | ⟨proof, w, hfind, ⟨hv, hstops⟩ | hpast⟩)
    · rw [slot_of_holds hholds]
      exact .told
    · rw [isEmptyValue_encodeValue.1 hv]
      exact .denied hstops
    · rcases a.stored slot with hstored | ⟨hnone, _⟩
      · obtain rfl : encodeValue (a.slot slot) = w := Option.some.inj (hstored.symm.trans hfind)
        obtain ⟨_, _, _, _, hforged⟩ := hpast
        obtain ⟨hlow, hhigh⟩ := encodeValue_hash (forged_length hforged)
        exact .replaced hlow hhigh ⟨_, _, ‹_›, ‹_›, hforged⟩
      · have := hnone.symm.trans hfind
        cases this
  · intro hanswer
    cases hanswer with
    | told => exact Or.inl (holds_slot a slot)
    | @denied proof hstops =>
      rcases a.stored slot with hstored | ⟨hnone, _⟩
      · exact Or.inr ⟨proof, _, hstored, Or.inl ⟨isEmptyValue_encodeValue.2 rfl, hstops⟩⟩
      · exact Or.inl (Or.inr ⟨hnone, isEmptyValue_encodeValue.2 rfl⟩)
    | @replaced value proof hlow _ hpast =>
      rcases a.stored slot with hstored | ⟨_, hzero⟩
      · exact Or.inr ⟨proof, _, hstored, Or.inr hpast⟩
      · rw [hzero] at hlow
        exact absurd hlow (by decide)

/-! ## Accounts -/

/-- What the hash of a state is trusted for. -/
structure SealedState (state : ChainState c) : Prop where
  accounts : Sealed c state.trie.root
  slots : ∀ address, Sealed c (state.account address).storage.root
  codes : ∀ address code, c.keccak256 code = (state.account address).codeHash →
    code = (state.account address).code
  nothing : Sealed c .empty

/-- Some proof is the walk to the account cut short at an extension. -/
def Deniable (state : ChainState c) (address : Address) : Prop :=
  ∃ proof, StopsAtExtension c (state.trie.root.walk (accountPath c address)) proof

/-- What a server can make the client take for the fields of an account: those of the account, or
    those of an account that does not exist. -/
def FieldsAnswer (state : ChainState c) (address : Address) (nonce : UInt64) (balance : U256)
    (storageHash codeHash : H256) : Prop :=
  (nonce = (state.account address).nonce ∧ balance = (state.account address).balance ∧
      storageHash = (state.account address).storageHash ∧
      codeHash = (state.account address).codeHash) ∨
    (Deniable state address ∧ nonce = 0 ∧ balance = 0 ∧ storageHash.toList = emptyStorageHash ∧
      codeHash.toList = emptyCodeHash)

/-- **The fields that a server can prove.**  The RLP of an account is longer than a hash, so nothing
    can be hung behind its leaf. -/
theorem accountFields_iff (hempty : c.keccak256 [] = keccakEmpty)
    (hzero : c.hash [0x80] = emptyStorageHash) (hs : Sealed c state.trie.root) {nonce : UInt64}
    {balance : U256} {storageHash codeHash : H256} :
    (∃ proof, verifyProof c proof state.stateRoot.toList (c.keccak256 address.toList).toList
      (accountRlp nonce balance storageHash codeHash) = .ok true) ↔
      state.trie.root.isEmpty = false ∧
        FieldsAnswer state address nonce balance storageHash codeHash := by
  have hiff := @sealed_accepts_iff c (accountRlp nonce balance storageHash codeHash) state.trie hs
    (c.keccak256 address.toList)
  refine hiff.trans (and_congr_right fun _ => ⟨?_, ?_⟩)
  · rintro (hholds | ⟨proof, w, hfind, ⟨hv, hstops⟩ | hpast⟩)
    · exact Or.inl (account_of_holds hempty hzero hholds)
    · exact Or.inr ⟨⟨proof, hstops⟩, isEmptyValue_accountRlp.1 hv⟩
    · rcases state.stored address with hstored | ⟨hnone, _⟩
      · obtain rfl : (state.account address).rlp = w := Option.some.inj (hstored.symm.trans hfind)
        obtain ⟨_, _, _, _, hforged⟩ := hpast
        have hlong : 64 ≤ (state.account address).rlp.length := (accountRlp_length _ _ _ _).2
        rw [forged_length hforged] at hlong
        omega
      · have := hnone.symm.trans hfind
        cases this
  · rintro (⟨rfl, rfl, rfl, rfl⟩ | ⟨⟨proof, hstops⟩, hfields⟩)
    · exact Or.inl (holds_account hempty hzero state address)
    · have hv := isEmptyValue_accountRlp.2 hfields
      cases hfind : state.trie.root.find (accountPath c address) with
      | none => exact Or.inl (Or.inr ⟨hfind, hv⟩)
      | some w => exact Or.inr ⟨proof, w, hfind, Or.inl ⟨hv, hstops⟩⟩

/-- No slot is proved under the hash of the empty trie. -/
theorem not_slotProved_empty (hs : Sealed c .empty) (hzero : c.hash [0x80] = emptyStorageHash)
    {storageHash : H256} (hstorage : storageHash.toList = emptyStorageHash) {slot : H256}
    {value : U256} : ¬ SlotProved c storageHash slot value := by
  rintro ⟨proof, hproof⟩
  rw [hstorage, ← hzero] at hproof
  have hiff := @sealed_accepts_iff c (encodeValue value) ⟨.empty, trivial⟩ hs
    (c.keccak256 slot.toList)
  have hne := (hiff.1 ⟨proof, hproof⟩).1
  cases hne

/-- A server with one answer to each request. -/
def answering (proof : EIP1186ProofResponse) (code : Bytes) : ExecutionWorld := fun _ =>
  { getProof := fun _ _ _ => .ok proof
    createAccessList := fun _ _ => .error (.rpc "create_access_list")
    getCode := fun _ _ => .ok code
    getTransactionReceipt := fun _ => .ok none
    getTransaction := fun _ => .ok none }

/-- What the checks of an account leave of the answers. -/
theorem getAccount_answer (hempty : c.keccak256 [] = keccakEmpty)
    (hzero : c.hash [0x80] = emptyStorageHash) (hs : SealedState state)
    (hroot : payload.stateRoot = state.stateRoot) {w : ExecutionWorld}
    {slots : Option (List H256)} {account : Account}
    (h : getAccount c w address slots payload = .ok account) :
    state.trie.root.isEmpty = false ∧
      ((account.nonce = (state.account address).nonce ∧
          account.balance = (state.account address).balance ∧
          account.code = (state.account address).code ∧
          account.storageHash = (state.account address).storageHash) ∨
        (account.nonce = 0 ∧ account.balance = 0 ∧ account.code = [] ∧ Deniable state address ∧
          ∀ slot : H256, account.slots[slot]? = none)) := by
  have hproved := getAccount_proved hempty h
  obtain ⟨proof, hproof⟩ := hproved.fields
  rw [hroot] at hproof
  obtain ⟨hne, hfields⟩ := (accountFields_iff hempty hzero hs.accounts).1 ⟨proof, hproof⟩
  obtain ⟨found, slotMap, code, _, _, hslots, hcode, rfl⟩ := getAccount_ok_iff.1 h
  refine ⟨hne, ?_⟩
  rcases hfields with ⟨hnonce, hbalance, hstorage, hcodeHash⟩ |
    ⟨hdeniable, hnonce, hbalance, hstorage, hcodeHash⟩
  · have htrue := hs.codes address code ((fetchCode_hash hempty hcode).trans hcodeHash)
    exact Or.inl ⟨hnonce, hbalance, htrue, hstorage⟩
  · have hkeccak : found.codeHash = keccakEmpty := by
      rw [← keccakEmpty_toList] at hcodeHash
      exact Vector.toList_inj.1 hcodeHash
    unfold fetchCode at hcode
    rw [if_pos hkeccak] at hcode
    refine Or.inr ⟨hnonce, hbalance, (Except.ok.inj hcode).symm, hdeniable, fun slot => ?_⟩
    cases hslot : slotMap[slot]? with
    | none => rfl
    | some value =>
      refine absurd (hproved.slots slot value hslot) ?_
      exact not_slotProved_empty hs.nothing hzero hstorage

/-- A server that has proofs of the fields and of the slots is answered from. -/
theorem getAccount_answering {slots : Option (List H256)} (proof : EIP1186ProofResponse)
    (code : Bytes) (slotMap : Std.HashMap H256 U256)
    (hproof : verifyProof c proof.accountProof payload.stateRoot.toList
      (c.keccak256 address.toList).toList (encodeAccount proof) = .ok true)
    (hslots : verifySlots c address proof.storageHash proof.storageProof ∅ = .ok slotMap)
    (hcode : c.keccak256 code = proof.codeHash) (hnone : proof.codeHash = keccakEmpty → code = []) :
    getAccount c (answering proof code) address slots payload =
      .ok ⟨proof.balance, proof.nonce, proof.codeHash, code, proof.storageHash, slotMap⟩ := by
  refine getAccount_ok_iff.2 ⟨proof, slotMap, code, rfl, hproof, hslots, ?_, rfl⟩
  unfold fetchCode
  split
  · rename_i hkeccak
    rw [hnone hkeccak]
  · simp [answering, answer, hcode]

/-- The account of the state, with a proof of its fields. -/
def truthful (a : ChainAccount c) (address : Address) (accountProof : List Bytes)
    (storageProof : List StorageProof) : EIP1186ProofResponse where
  address := address
  balance := a.balance
  codeHash := a.codeHash
  nonce := a.nonce
  storageHash := a.storageHash
  accountProof := accountProof
  storageProof := storageProof

/-- The account that does not exist. -/
def denying (c : Crates) (address : Address) (accountProof : List Bytes) :
    EIP1186ProofResponse where
  address := address
  balance := 0
  codeHash := keccakEmpty
  nonce := 0
  storageHash := c.keccak256 [0x80]
  accountProof := accountProof
  storageProof := []

/-- The account of the state is answered, with any slots that are proved. -/
theorem getAccount_truthful (hempty : c.keccak256 [] = keccakEmpty)
    (hzero : c.hash [0x80] = emptyStorageHash) (hs : SealedState state)
    (hroot : payload.stateRoot = state.stateRoot) (hne : state.trie.root.isEmpty = false)
    {slots : Option (List H256)} {storageProof : List StorageProof}
    {slotMap : Std.HashMap H256 U256}
    (hslots : verifySlots c address (state.account address).storageHash storageProof ∅ =
      .ok slotMap) :
    ∃ w account, getAccount c w address slots payload = .ok account ∧
      account.nonce = (state.account address).nonce ∧
      account.balance = (state.account address).balance ∧
      account.code = (state.account address).code ∧ account.slots = slotMap := by
  obtain ⟨proof, hproof⟩ := (@accountFields_iff c state address hempty hzero hs.accounts _ _ _
    _).2 ⟨hne, Or.inl ⟨rfl, rfl, rfl, rfl⟩⟩
  rw [← hroot] at hproof
  refine ⟨_, _, getAccount_answering (truthful (state.account address) address proof storageProof)
    (state.account address).code slotMap hproof hslots rfl ?_, rfl, rfl, rfl, rfl⟩
  intro hkeccak
  exact (hs.codes address [] (hempty.trans hkeccak.symm)).symm

/-- The account that does not exist is answered if a walk can be cut short. -/
theorem getAccount_denying (hempty : c.keccak256 [] = keccakEmpty)
    (hzero : c.hash [0x80] = emptyStorageHash) (hs : SealedState state)
    (hroot : payload.stateRoot = state.stateRoot) (hne : state.trie.root.isEmpty = false)
    (hdeniable : Deniable state address) :
    ∃ w account, getAccount c w address none payload = .ok account ∧ account.nonce = 0 ∧
      account.balance = 0 ∧ account.code = [] := by
  obtain ⟨proof, hproof⟩ := (@accountFields_iff c state address hempty hzero hs.accounts 0 0
    (c.keccak256 [0x80]) keccakEmpty).2
      ⟨hne, Or.inr ⟨hdeniable, rfl, rfl, hzero, keccakEmpty_toList⟩⟩
  rw [← hroot] at hproof
  exact ⟨_, _, getAccount_answering (denying c address proof) [] ∅ hproof rfl hempty fun _ => rfl,
    rfl, rfl, rfl⟩

/-- The accounts that a server can make `get_account` answer. -/
theorem getAccount_answers_iff (hempty : c.keccak256 [] = keccakEmpty)
    (hzero : c.hash [0x80] = emptyStorageHash) (hs : SealedState state)
    (hroot : payload.stateRoot = state.stateRoot) {nonce : UInt64} {balance : U256}
    {code : Bytes} :
    (∃ w account, getAccount c w address none payload = .ok account ∧ account.nonce = nonce ∧
        account.balance = balance ∧ account.code = code) ↔
      state.trie.root.isEmpty = false ∧
        ((nonce = (state.account address).nonce ∧ balance = (state.account address).balance ∧
            code = (state.account address).code) ∨
          (nonce = 0 ∧ balance = 0 ∧ code = [] ∧ Deniable state address)) := by
  constructor
  · rintro ⟨w, account, h, rfl, rfl, rfl⟩
    obtain ⟨hne, hanswer⟩ := getAccount_answer hempty hzero hs hroot h
    refine ⟨hne, hanswer.imp ?_ ?_⟩
    · rintro ⟨hnonce, hbalance, hcode, _⟩
      exact ⟨hnonce, hbalance, hcode⟩
    · rintro ⟨hnonce, hbalance, hcode, hdeniable, _⟩
      exact ⟨hnonce, hbalance, hcode, hdeniable⟩
  · rintro ⟨hne, ⟨rfl, rfl, rfl⟩ | ⟨rfl, rfl, rfl, hdeniable⟩⟩
    · obtain ⟨w, account, h, hnonce, hbalance, hcode, _⟩ := @getAccount_truthful c state address
        payload hempty hzero hs hroot hne none [] ∅ rfl
      exact ⟨w, account, h, hnonce, hbalance, hcode⟩
    · exact getAccount_denying hempty hzero hs hroot hne hdeniable

/-- An account whose storage holds something is stored. -/
theorem state_not_empty (h : (state.account address).storage.root.isEmpty = false) :
    state.trie.root.isEmpty = false := by
  rcases state.stored address with hstored | ⟨_, habsent⟩
  · cases hroot : state.trie.root with
    | empty =>
      rw [hroot] at hstored
      cases hstored
    | leaf => rfl
    | ext => rfl
    | branch => rfl
  · rw [habsent.storage] at h
    cases h

/-- The slots that a server can make `get_account` answer. -/
theorem getAccount_slot_iff (hempty : c.keccak256 [] = keccakEmpty)
    (hzero : c.hash [0x80] = emptyStorageHash) (hs : SealedState state)
    (hroot : payload.stateRoot = state.stateRoot) {slot : H256} {value : U256} :
    (∃ w account, getAccount c w address (some [slot]) payload = .ok account ∧
        account.slots[slot]? = some value) ↔
      (state.account address).storage.root.isEmpty = false ∧
        SlotAnswer (state.account address) slot value := by
  rw [← slotProved_iff (hs.slots address)]
  constructor
  · rintro ⟨w, account, h, hslot⟩
    obtain ⟨_, ⟨_, _, _, hstorage⟩ | ⟨_, _, _, _, hnone⟩⟩ :=
      getAccount_answer hempty hzero hs hroot h
    · rw [← hstorage]
      exact (getAccount_proved hempty h).slots slot value hslot
    · rw [hnone slot] at hslot
      cases hslot
  · rintro ⟨proof, hproof⟩
    have hstorage := ((slotProved_iff (hs.slots address)).1 ⟨proof, hproof⟩).1
    have hslots : verifySlots c address (state.account address).storageHash
        [⟨slot, proof, value⟩] ∅ = .ok ((∅ : Std.HashMap H256 U256).insert slot value) :=
      verifySlots_cons_iff.2 ⟨hproof, rfl⟩
    obtain ⟨w, account, h, _, _, _, hmap⟩ := getAccount_truthful hempty hzero hs hroot
      (state_not_empty hstorage) hslots
    exact ⟨w, account, h, by rw [hmap, Std.HashMap.getElem?_insert_self]⟩

/-! ## The queries -/

namespace Node

variable {node : Node} {now : UInt64} {block : BlockTag}

/-- A fresh query at a block that is held answers what `get_account` makes of the server. -/
theorem getAccountField_ok_iff {α : Type} {field : Account → α} {w : ExecutionWorld} {value : α}
    (hage : node.checkBlocktagAge now block = .ok ())
    (hpayload : node.getPayload block = .ok payload) :
    node.getAccountField c field now w address block = .ok value ↔
      ∃ account, getAccount c w address none payload = .ok account ∧ field account = value := by
  unfold getAccountField
  rw [hage, hpayload]
  simp only
  cases getAccount c w address none payload <;> simp

/-- The same of a slot. -/
theorem getStorageAt_ok_iff {w : ExecutionWorld} {slot : H256} {value : U256}
    (hage : node.checkHeadAge now = .ok ()) (hpayload : node.getPayload block = .ok payload) :
    node.getStorageAt c now w address slot block = .ok value ↔
      ∃ account, getAccount c w address (some [slot]) payload = .ok account ∧
        account.slots[slot]? = some value := by
  unfold getStorageAt
  rw [hage, hpayload]
  simp only
  cases getAccount c w address (some [slot]) payload with
  | error e => simp
  | ok account => cases hslot : account.slots[slot]? <;> simp [hslot]

/-- The answers about a field, for a field made of the nonce, the balance and the code. -/
theorem getAccountField_answers_iff (hempty : c.keccak256 [] = keccakEmpty)
    (hzero : c.hash [0x80] = emptyStorageHash) (hs : SealedState state)
    (hage : node.checkBlocktagAge now block = .ok ())
    (hpayload : node.getPayload block = .ok payload)
    (hroot : payload.stateRoot = state.stateRoot) {α : Type} (f : UInt64 → U256 → Bytes → α)
    {value : α} :
    (∃ w, node.getAccountField c (fun a => f a.nonce a.balance a.code) now w address block =
        .ok value) ↔
      state.trie.root.isEmpty = false ∧
        (value = f (state.account address).nonce (state.account address).balance
            (state.account address).code ∨
          value = f 0 0 [] ∧ Deniable state address) := by
  have hiff := @getAccount_answers_iff c state address payload hempty hzero hs hroot
  simp only [getAccountField_ok_iff hage hpayload]
  constructor
  · rintro ⟨w, account, h, rfl⟩
    obtain ⟨hne, ⟨hnonce, hbalance, hcode⟩ | ⟨hnonce, hbalance, hcode, hdeniable⟩⟩ :=
      hiff.1 ⟨w, account, h, rfl, rfl, rfl⟩
    · exact ⟨hne, Or.inl (by rw [hnonce, hbalance, hcode])⟩
    · exact ⟨hne, Or.inr ⟨by rw [hnonce, hbalance, hcode], hdeniable⟩⟩
  · rintro ⟨hne, rfl | ⟨rfl, hdeniable⟩⟩
    · obtain ⟨w, account, h, hnonce, hbalance, hcode⟩ := hiff.2 ⟨hne, Or.inl ⟨rfl, rfl, rfl⟩⟩
      exact ⟨w, account, h, by rw [hnonce, hbalance, hcode]⟩
    · obtain ⟨w, account, h, hnonce, hbalance, hcode⟩ :=
        hiff.2 ⟨hne, Or.inr ⟨rfl, rfl, rfl, hdeniable⟩⟩
      exact ⟨w, account, h, by rw [hnonce, hbalance, hcode]⟩

/-- **What a server can make the node say of an account** at a block whose payload claims the root
    of a state: its balance, nonce and code are those of the state, or zero and nothing, and these
    only where a walk of the trie can be cut short. -/
theorem account_answers_iff (c : Crates) (hempty : c.keccak256 [] = keccakEmpty)
    (hzero : c.hash [0x80] = emptyStorageHash) (state : ChainState c) (hs : SealedState state)
    (node : Node) (now : UInt64) (address : Address) (block : BlockTag)
    (payload : ExecutionPayload) (hage : node.checkBlocktagAge now block = .ok ())
    (hpayload : node.getPayload block = .ok payload)
    (hroot : payload.stateRoot = state.stateRoot) :
    (∀ balance, (∃ w, node.getBalance c now w address block = .ok balance) ↔
      state.trie.root.isEmpty = false ∧ (balance = (state.account address).balance ∨
        balance = 0 ∧ Deniable state address)) ∧
    (∀ nonce, (∃ w, node.getNonce c now w address block = .ok nonce) ↔
      state.trie.root.isEmpty = false ∧ (nonce = (state.account address).nonce ∨
        nonce = 0 ∧ Deniable state address)) ∧
    (∀ code, (∃ w, node.getCode c now w address block = .ok code) ↔
      state.trie.root.isEmpty = false ∧ (code = (state.account address).code ∨
        code = [] ∧ Deniable state address)) := by
  refine ⟨fun balance => ?_, fun nonce => ?_, fun code => ?_⟩
  · exact getAccountField_answers_iff hempty hzero hs hage hpayload hroot fun _ balance _ => balance
  · exact getAccountField_answers_iff hempty hzero hs hage hpayload hroot fun nonce _ _ => nonce
  · exact getAccountField_answers_iff hempty hzero hs hage hpayload hroot fun _ _ code => code

/-- **What a server can make the node say of a slot**: its value, or zero where the walk of the
    storage trie can be cut short, or anything at all where the stored value takes 31 bytes and is
    the hash of a node that the server has.  An account without storage has no answer. -/
theorem storage_answers_iff (c : Crates) (hempty : c.keccak256 [] = keccakEmpty)
    (hzero : c.hash [0x80] = emptyStorageHash) (state : ChainState c) (hs : SealedState state)
    (node : Node) (now : UInt64) (address : Address) (slot : H256) (block : BlockTag)
    (payload : ExecutionPayload) (hage : node.checkHeadAge now = .ok ())
    (hpayload : node.getPayload block = .ok payload)
    (hroot : payload.stateRoot = state.stateRoot) (value : U256) :
    (∃ w, node.getStorageAt c now w address slot block = .ok value) ↔
      (state.account address).storage.root.isEmpty = false ∧
        SlotAnswer (state.account address) slot value := by
  simp only [getStorageAt_ok_iff hage hpayload]
  exact getAccount_slot_iff hempty hzero hs hroot

end Node

/-! ## Two accounts, and two slots of one -/

/-- A walk that begins at an extension can be cut short there. -/
theorem stopsAtExtension_root {t : Patricia.Node} {key : List (Fin 16)} (hext : t.isExt = true)
    (hread : (c.decodeList (t.encode c.hash)).isSome) :
    StopsAtExtension c (t.walk key) [t.encode c.hash] := by
  cases t with
  | ext path child =>
    rw [Patricia.Node.walk]
    exact stopsAtExtension_cons.2 ⟨[], rfl, hread, Or.inl ⟨rfl, rfl⟩⟩
  | empty => cases hext
  | leaf path stored => cases hext
  | branch children => cases hext

/-- The nodes of a fork with their digests, from the leaves up. -/
def forkDigests (n i j : Fin 16) (a b : Bytes32) (v w : Bytes)
    (left right branch root : Bytes32) : List (Bytes × Bytes32) :=
  let p := (keyPath a).drop 2
  let q := (keyPath b).drop 2
  let leaves := [((Patricia.Node.leaf p v).encode fun _ => [], left),
    ((Patricia.Node.leaf q w).encode fun _ => [], right)]
  let below := leaves ++ [((Patricia.Node.twoLeaves i j p q v w).encode
    fun node => (digestTable leaves node).toList, branch)]
  below ++ [((Patricia.Node.fork n i j p q v w).encode
    fun node => (digestTable below node).toList, root)]

def otherAddress : Address := Vector.replicate 20 0x14

def otherAddressHash : H256 :=
  beBytes 32 0xe6d75bbd24d2b898a1d391d874a0e2eef097b7239349c8c5c9b6a86b2a6b625d

def otherSlot : H256 := beBytes 32 14

def otherSlotHash : H256 :=
  beBytes 32 0xbb7b4a454dc3493923482f07822329ed19e8244eff582cc204f8554c3620c3fd

/-- An integer whose RLP is the hash of `forgedNode`. -/
def hashlike : U256 := 0x23073ec7784a5acc1459ca8f31b19b267d1c515e836174953a383001d78195

def heldStorageHash : H256 :=
  beBytes 32 0xec5ced712f1c8457c2c48c2f7956d7d40d257e85756a40f5b2559e22c9c7cd46

def heldStateRoot : H256 :=
  beBytes 32 0x1a0c01cc9a4bb173047e138b06dd0740fbd4953b312cf2df2d906ed5eee9ddb3

def heldDigests : List (Bytes × Bytes32) :=
  [([], keccakEmpty), ([0x80], emptyTrieHash), (sampleAddress.toList, sampleAddressHash),
    (otherAddress.toList, otherAddressHash), (sampleSlot.toList, sampleSlotHash),
    (otherSlot.toList, otherSlotHash), (forgedNode, forgedHash)] ++
  forkDigests 0xb 0x1 0xb sampleSlotHash otherSlotHash (encodeValue hashlike) (encodeValue 7)
    (beBytes 32 0xbaa1857b5fcf61a50f3deac2ac0a727542f39b5c24fa9bdcb7525990e97b3b5b)
    (beBytes 32 0xd1cbaa59871984eeb1e107cac715b6f8c4391fb5ab14376676af23bd2b2292bf)
    (beBytes 32 0xd29f4e335fa37e74a2bdb790d214054afbfb52b6d9ffd310fafd1089e8302508)
    heldStorageHash ++
  forkDigests 0xe 0x2 0x6 sampleAddressHash otherAddressHash
    (accountRlp 1 1000000000000000000 heldStorageHash keccakEmpty)
    (accountRlp 3 2 emptyTrieHash keccakEmpty)
    (beBytes 32 0xb1a6071ffc2e27f407fd127c7ddd8ac4a91de1d464a2195cbf3d4eb501e64893)
    (beBytes 32 0x85e9d34af5da50e71e007f8647e27e97d69a1cf852e3a030d71e64ce60a01218)
    (beBytes 32 0x6adb9723e466ac9fd74c353ddbf9ca6abc0d8ca742c4d6886ab3811bf3828dec)
    heldStateRoot

/-- `keccak256` on what this state hashes, and on the forged node. -/
def heldCrates : Crates where
  keccak256 := digestTable heldDigests
  decodeList := readList
  orderedTrieRoot := fun _ => zeroBytes 32
  transactionRlp := Transaction.body

theorem heldDigests_nodup : (heldDigests.map Prod.snd).Nodup := by decide +kernel

theorem heldCrates_hash {b bytes : Bytes} (hne : heldCrates.keccak256 bytes ≠ zeroBytes 32)
    (h : heldCrates.hash b = heldCrates.hash bytes) : b = bytes :=
  digestTable_injective heldDigests_nodup hne (Vector.toList_inj.1 h)

theorem heldCrates_free {n : Nat} {key : Vector UInt8 n}
    (hne : heldCrates.keccak256 key.toList ≠ zeroBytes 32) (other : Vector UInt8 n)
    (h : heldCrates.keccak256 other.toList = heldCrates.keccak256 key.toList) : other = key :=
  Vector.toList_inj.1 (digestTable_injective heldDigests_nodup hne h)

def heldSlots : Parting (heldCrates.keccak256 sampleSlot.toList)
    (heldCrates.keccak256 otherSlot.toList) :=
  ⟨0xb, 0x1, 0xb, by decide, by decide +kernel, by decide +kernel⟩

def heldAddresses : Parting (heldCrates.keccak256 sampleAddress.toList)
    (heldCrates.keccak256 otherAddress.toList) :=
  ⟨0xe, 0x2, 0x6, by decide, by decide +kernel, by decide +kernel⟩

/-- The account whose first slot holds what reads as a hash. -/
def heldAccount : ChainAccount heldCrates :=
  .fork 1 1000000000000000000 [] sampleSlot otherSlot hashlike 7 heldSlots
    (heldCrates_free (by decide +kernel)) (heldCrates_free (by decide +kernel))

def heldState : ChainState heldCrates :=
  .fork sampleAddress otherAddress heldAccount (.plain heldCrates 3 2) heldAddresses
    (heldCrates_free (by decide +kernel)) (heldCrates_free (by decide +kernel))

theorem heldState_account : heldState.account sampleAddress = heldAccount := by
  simp [heldState, ChainState.fork]

/-- A trie without embedded children whose nodes the table knows. -/
structure Tabled (t : Patricia.Node) : Prop where
  hashed : t.Hashed heldCrates.hash
  nodes : ∀ s, t.Within s → (s.encode heldCrates.hash).length < 2 ^ 64 ∧
    heldCrates.keccak256 (s.encode heldCrates.hash) ≠ zeroBytes 32

theorem Tabled.sealed {t : Patricia.Node} (h : Tabled t) : Sealed heldCrates t :=
  ⟨⟨h.hashed, readsNodes_of_readList rfl fun s hs => (h.nodes s hs).1⟩,
    fun _ s hs => heldCrates_hash (h.nodes s hs).2⟩

theorem tabled_empty : Tabled .empty := by
  refine ⟨trivial, fun s hs => ?_⟩
  cases hs
  decide +kernel

theorem tabled_storage : Tabled heldAccount.storage.root := by
  refine ⟨hashed_fork ?_ ?_ ?_, fun s hs => ?_⟩
  · decide +kernel
  · decide +kernel
  · decide +kernel
  · rcases within_fork hs with rfl | rfl | rfl | rfl | rfl <;> decide +kernel

theorem tabled_accounts : Tabled heldState.trie.root := by
  refine ⟨hashed_fork ?_ ?_ ?_, fun s hs => ?_⟩
  · decide +kernel
  · decide +kernel
  · decide +kernel
  · rcases within_fork hs with rfl | rfl | rfl | rfl | rfl <;> decide +kernel

/-- The accounts of the state: the one with slots, and others without storage and code. -/
theorem heldState_cases (address : Address) : heldState.account address = heldAccount ∨
    ∃ nonce balance, heldState.account address = .plain heldCrates nonce balance := by
  by_cases h : address = sampleAddress
  · exact Or.inl (if_pos h)
  · by_cases h' : address = otherAddress
    · exact Or.inr ⟨3, 2, (if_neg h).trans (if_pos h')⟩
    · exact Or.inr ⟨0, 0, (if_neg h).trans (if_neg h')⟩

theorem heldState_sealed : SealedState heldState where
  accounts := tabled_accounts.sealed
  slots := by
    intro address
    rcases heldState_cases address with h | ⟨nonce, balance, h⟩
    · rw [h]
      exact tabled_storage.sealed
    · rw [h]
      exact tabled_empty.sealed
  codes := by
    intro address code h
    have hcode : (heldState.account address).code = [] := by
      rcases heldState_cases address with ha | ⟨nonce, balance, ha⟩
      · rw [ha]
        rfl
      · rw [ha]
        rfl
    rw [ChainAccount.codeHash, hcode] at h
    rw [hcode]
    exact heldCrates_hash (by decide +kernel) (congrArg Vector.toList h)
  nothing := tabled_empty.sealed

/-- All that can be hung behind the slot is the forged node. -/
theorem heldForged_iff {value : U256} : (∃ proof, Forged heldCrates (encodeValue value)
    (encodeValue hashlike) proof) ↔ value = 495 := by
  have hhash : encodeValue hashlike = heldCrates.hash forgedNode := by decide +kernel
  have hread : heldCrates.decodeList forgedNode = some [[0x20], encodeValue 495] := by
    decide +kernel
  have hpath : nodePathOf [0x20] = [] := by decide +kernel
  constructor
  · rintro ⟨proof, h⟩
    cases proof with
    | nil => cases h
    | cons node rest =>
      obtain ⟨hnode, nodePath, item, hitems, hlast⟩ := h
      obtain rfl : node = forgedNode :=
        heldCrates_hash (by decide +kernel) (hnode.symm.trans hhash)
      rw [hread] at hitems
      cases hitems
      split at hlast
      · rcases hlast with ⟨hpath', _⟩ | ⟨_, hvalue⟩
        · exact absurd hpath hpath'
        · exact (encodeValue_injective hvalue).symm
      · -- its value is no hash
        have hlength := forged_length hlast.2
        exact absurd hlength (by decide +kernel)
  · rintro rfl
    refine ⟨[forgedNode], hhash, [0x20], encodeValue 495, hread, ?_⟩
    rw [if_pos rfl]
    exact Or.inr ⟨hpath, rfl⟩

/-- The slot as it is, zero, and the value of the forged node. -/
theorem heldSlot_answer_iff {value : U256} :
    SlotAnswer heldAccount sampleSlot value ↔ value = hashlike ∨ value = 0 ∨ value = 495 := by
  have hslot : heldAccount.slot sampleSlot = hashlike := by
    simp [heldAccount, ChainAccount.fork]
  constructor
  · intro h
    rcases h with _ | _ | ⟨_, _, honest, extra, _, _, hforged⟩
    · exact Or.inl hslot
    · exact Or.inr (Or.inl rfl)
    · rw [hslot] at hforged
      exact Or.inr (Or.inr (heldForged_iff.1 ⟨extra, hforged⟩))
  · rintro (rfl | rfl | rfl)
    · rw [← hslot]
      exact .told
    · exact .denied (stopsAtExtension_root rfl (by decide +kernel))
    · obtain ⟨extra, hforged⟩ := heldForged_iff.2 rfl
      refine .replaced (by decide +kernel) (by decide +kernel) ⟨_, extra, rfl, ⟨rfl, ?_⟩, ?_⟩
      · decide +kernel
      · rw [hslot]
        exact hforged

namespace Node

/-- A node that holds a block of that state. -/
def holding : Node :=
  (Node.new (zeroBytes 32).toList ConsensusClient.mainnet).insertPayload
    { (default : ExecutionPayload) with stateRoot := heldStateRoot }

theorem holding_getPayload : holding.getPayload .latest =
    .ok { (default : ExecutionPayload) with stateRoot := heldStateRoot } := by
  have hlast : IsLast holding.payloads 0
      { (default : ExecutionPayload) with stateRoot := heldStateRoot } := by
    refine isLast_insert_self fun key hkey => ?_
    simp [Node.new] at hkey
  unfold getPayload
  simp only [lastValue?_of_isLast hlast]

theorem holding_inSync : holding.checkHeadAge 1606824023 = .ok () := by
  decide +kernel

/-- The balance of the account can be told as it is, or denied. -/
theorem account_answers_holding : {balance | ∃ w, holding.getBalance heldCrates 1606824023 w
    sampleAddress .latest = .ok balance} = {1000000000000000000, 0} := by
  ext balance
  rw [Set.mem_ofPred_eq, Set.mem_insert_iff, Set.mem_singleton_iff,
    (account_answers_iff heldCrates (by decide +kernel) (by decide +kernel) heldState
      heldState_sealed holding 1606824023 sampleAddress .latest _ holding_inSync
      holding_getPayload (by decide +kernel)).1 balance, heldState_account]
  constructor
  · rintro ⟨_, h | ⟨h, _⟩⟩
    · exact Or.inl h
    · exact Or.inr h
  · rintro (rfl | rfl)
    · exact ⟨rfl, Or.inl rfl⟩
    · exact ⟨rfl, Or.inr ⟨rfl, _, stopsAtExtension_root rfl (by decide +kernel)⟩⟩

/-- Its slot can be told as it is, denied, or replaced. -/
theorem storage_answers_holding : {value | ∃ w, holding.getStorageAt heldCrates 1606824023 w
    sampleAddress sampleSlot .latest = .ok value} = {hashlike, 0, 495} := by
  ext value
  rw [Set.mem_ofPred_eq, Set.mem_insert_iff, Set.mem_insert_iff, Set.mem_singleton_iff,
    storage_answers_iff heldCrates (by decide +kernel) (by decide +kernel) heldState
      heldState_sealed holding 1606824023 sampleAddress sampleSlot .latest _ holding_inSync
      holding_getPayload (by decide +kernel) value, heldState_account, heldSlot_answer_iff]
  exact and_iff_right rfl

end Node

end Helios
