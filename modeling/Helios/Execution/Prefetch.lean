import Helios.Execution.Honest
import Helios.Execution.Evm

/-!
# What the prefetch keeps of an access list

Three entries without keys are appended to the access list, and the account of a later entry
replaces that of an earlier one.

* `HonestServer`, `PlainState` — a server that answers for every account and slot, and a state whose
  tries it can prove.
* `Fetches`, `getAccount_fetches`, `getAccount_skips` — when an entry is fetched, and with what.
* `lastOf`, `fetchAccounts_last` — **what the map holds: for each address the last entry fetched**.
* `prefetch_complete_iff` — **when nothing of the list is lost**.
* `prefetch_loses` — a slot of the callee.
-/

set_option autoImplicit false

namespace Helios

open Nibble Patricia

variable {c : Crates} {state : ChainState c} {payload : ExecutionPayload} {w : ExecutionWorld}
  {address : Address} {keys : List H256}

/-- At every moment the server answers both requests for every account, whatever slots are asked. -/
structure HonestServer (state : ChainState c) (blockNumber : UInt64) (rpc : ExecutionRpc) : Prop where
  proof : ∀ address slots, ∃ proof, rpc.getProof address slots blockNumber = .ok proof ∧
    HonestProof state address slots proof
  code : ∀ address, rpc.getCode address blockNumber = .ok (state.account address).code

/-- The tries of a state embed no child and are read back, and only no code has its hash. -/
structure PlainState (state : ChainState c) : Prop where
  accounts : Plain c state.trie.root
  slots : ∀ address, Plain c (state.account address).storage.root
  codes : ∀ address, (state.account address).codeHash = keccakEmpty →
    (state.account address).code = []

/-- The functions of the other crates on the inputs that stand for nothing. -/
structure EmptyInputs (c : Crates) : Prop where
  code : c.keccak256 [] = keccakEmpty
  trie : c.hash [0x80] = emptyStorageHash
  list : c.decodeList [0x80] = some []

theorem HonestServer.honest (h : ∀ i, HonestServer state payload.blockNumber (w i)) :
    Honest state w address keys payload.blockNumber :=
  ⟨(h 0).proof address keys, (h 1).code address⟩

/-! ## One entry -/

/-- The trie of the accounts is not empty, and neither is that of the slots if there are keys. -/
def Fetches (state : ChainState c) (address : Address) (keys : List H256) : Prop :=
  state.trie.root.isEmpty = false ∧
    (keys = [] ∨ (state.account address).storage.root.isEmpty = false)

instance : Decidable (Fetches state address keys) :=
  inferInstanceAs (Decidable (_ ∧ _))

/-- The map of the slots holds what was asked for, and nothing else. -/
theorem verifySlots_keys {a : ChainAccount c} {storageHash : H256} {slots : List H256}
    {proofs : List StorageProof} (h : List.Forall₂ (HonestSlot a) slots proofs) :
    ∀ {slotMap result : Std.HashMap H256 U256},
      verifySlots c address storageHash proofs slotMap = .ok result →
        ∀ slot, slot ∈ result → slot ∈ slots ∨ slot ∈ slotMap := by
  induction h with
  | nil =>
    intro slotMap result hok slot hslot
    cases hok
    exact Or.inr hslot
  | cons hhead _ ih =>
    intro slotMap result hok slot hslot
    obtain ⟨_, hrest⟩ := verifySlots_cons_iff.1 hok
    rcases ih hrest slot hslot with hmem | hmap
    · exact Or.inl (List.mem_cons_of_mem _ hmem)
    · rw [Std.HashMap.mem_insert, hhead.key, beq_iff_eq] at hmap
      rcases hmap with rfl | hold
      · exact Or.inl List.mem_cons_self
      · exact Or.inr hold

/-- A fetched entry has exactly its own keys. -/
theorem getAccount_fetches (hin : EmptyInputs c) (hplain : PlainState state)
    (hroot : payload.stateRoot = state.stateRoot)
    (hw : ∀ i, HonestServer state payload.blockNumber (w i)) (h : Fetches state address keys) :
    ∃ account, getAccount c w address (some keys) payload = .ok account ∧
      ∀ key, key ∈ account.slots ↔ key ∈ keys := by
  have honest : Honest state w address ((some keys).getD []) payload.blockNumber :=
    HonestServer.honest hw
  obtain ⟨account, hok, htrue⟩ := (getAccount_honest_iff c hin.code hin.trie state w address
    (some keys) payload hroot hplain.accounts (hplain.slots address) (hplain.codes address)
    honest).2 h
  refine ⟨account, hok, fun key => ⟨?_, fun hkey => ?_⟩⟩
  · obtain ⟨proof, slotMap, code, hproof, _, hslots, _, rfl⟩ := getAccount_ok_iff.1 hok
    obtain ⟨found, hfound, hhonest⟩ := honest.proof
    rw [hfound] at hproof
    cases hproof
    intro hkey
    exact (verifySlots_keys hhonest.storageProof hslots key hkey).resolve_right (by simp)
  · rw [Std.HashMap.mem_iff_isSome_getElem?, htrue.slots key hkey]
    rfl

/-- A canonical proof against an empty trie is refused, and its reader does not panic. -/
theorem verifyProof_refuses (hin : EmptyInputs c) {t : Patricia.Node} {key : List (Fin 16)}
    {proof : List Bytes} {root path value : Bytes} (ht : t.isEmpty = true)
    (h : Canonical c t key proof) : verifyProof c proof root path value = .ok false := by
  rw [Canonical, if_pos ht] at h
  unfold verifyProof
  rcases h with rfl | rfl
  · rw [verifyProofFrom]
  · rw [verifyProofFrom]
    split
    · rfl
    · rw [hin.list]
      rfl

/-- An entry that is not fetched is skipped with an error. -/
theorem getAccount_skips (hin : EmptyInputs c) (hplain : PlainState state)
    (hroot : payload.stateRoot = state.stateRoot)
    (hw : ∀ i, HonestServer state payload.blockNumber (w i)) (h : ¬ Fetches state address keys) :
    ∃ e, getAccount c w address (some keys) payload = .error (.err e) := by
  obtain ⟨proof, hproof, hp⟩ := (hw 0).proof address keys
  unfold getAccount
  simp only [Option.getD_some, hproof, answer]
  cases hstate : state.trie.root.isEmpty with
  | true =>
    rw [verifyProof_refuses hin hstate hp.accountProof]
    exact ⟨_, rfl⟩
  | false =>
    have hfields : verifyProof c proof.accountProof payload.stateRoot.toList
        (c.keccak256 address.toList).toList (encodeAccount proof) = .ok true := by
      rw [hroot, encodeAccount, hp.nonce, hp.balance, hp.storageHash, hp.codeHash]
      exact (verifyProof_canonical_iff hplain.accounts hp.accountProof
        (holds_account hin.code hin.trie state address)).2 hstate
    have hkeys : keys ≠ [] ∧ (state.account address).storage.root.isEmpty = true := by
      unfold Fetches at h
      simpa [hstate] using h
    rw [hfields]
    have hslots := hp.storageProof
    generalize proof.storageProof = proofs at hslots
    cases hslots with
    | nil => exact absurd rfl hkeys.1
    | cons hhead hrest =>
      simp only [Bool.true_eq_false, if_false]
      rw [verifySlots, hexStrToBytes_encodeHex]
      simp only [verifyProof_refuses hin hkeys.2 hhead.proof, if_true]
      exact ⟨_, rfl⟩

/-! ## The whole list -/

/-- The last entry of a list for an address, of those that meet a condition. -/
def lastOf (P : List H256 → Bool) (address : Address) (list : List AccessListItem) :
    Option AccessListItem :=
  (list.filter fun item => decide (item.address = address) && P item.storageKeys).getLast?

/-- What the map holds for an address: nothing, or an account with the keys of an entry. -/
def HoldsKeys (accountMap : Std.HashMap Address Account) (address : Address)
    (found : Option AccessListItem) : Prop :=
  match found with
  | none => accountMap[address]? = none
  | some item => ∃ account, accountMap[address]? = some account ∧
      ∀ key, key ∈ account.slots ↔ key ∈ item.storageKeys

/-- The last of a list with one more entry in front. -/
theorem getLast?_filter_cons {α : Type} {p : α → Bool} {a : α} {as : List α} {found : Option α} :
    ((a :: as).filter p).getLast?.or found =
      (as.filter p).getLast?.or (if p a then some a else found) := by
  rw [List.filter_cons]
  split
  · rw [List.getLast?_cons]
    cases (as.filter p).getLast? <;> simp
  · rfl

/-- **The map holds for each address the last entry that was fetched**, if there is one. -/
theorem fetchAccounts_last (hin : EmptyInputs c) (hplain : PlainState state)
    (hroot : payload.stateRoot = state.stateRoot) (list : List AccessListItem) :
    ∀ {w : ExecutionWorld} {accountMap : Std.HashMap Address Account}
      (found : Address → Option AccessListItem),
      (∀ i, HonestServer state payload.blockNumber (w i)) →
      (∀ address, HoldsKeys accountMap address (found address)) →
      ∃ result, fetchAccounts c payload w list accountMap = .ok result ∧
        ∀ address, HoldsKeys result address
          ((lastOf (fun keys => decide (Fetches state address keys)) address list).or
            (found address)) := by
  induction list with
  | nil =>
    intro w accountMap found _ hmap
    exact ⟨accountMap, rfl, hmap⟩
  | cons item rest ih =>
    intro w accountMap found hw hmap
    have hw' : ∀ i, HonestServer state payload.blockNumber (w.drop 2 i) := fun i => hw (i + 2)
    simp only [lastOf, getLast?_filter_cons]
    rw [fetchAccounts]
    by_cases hfetch : Fetches state item.address item.storageKeys
    · obtain ⟨account, hok, hkeys⟩ := getAccount_fetches hin hplain hroot hw hfetch
      rw [hok]
      apply ih _ hw'
      intro address
      by_cases haddress : item.address = address
      · subst haddress
        rw [if_pos (by simp [hfetch])]
        exact ⟨account, by simp, hkeys⟩
      · rw [if_neg (by simp [haddress])]
        have hold := hmap address
        unfold HoldsKeys at hold ⊢
        rw [Std.HashMap.getElem?_insert, if_neg (by simpa using haddress)]
        exact hold
    · obtain ⟨e, herr⟩ := getAccount_skips hin hplain hroot hw hfetch
      rw [herr]
      apply ih _ hw'
      intro address
      by_cases haddress : item.address = address
      · subst haddress
        rw [if_neg (by simp [hfetch])]
        exact hmap item.address
      · rw [if_neg (by simp [haddress])]
        exact hmap address

/-! ## Nothing lost -/

theorem lastOf_some {P : List H256 → Bool} {list : List AccessListItem} {last : AccessListItem}
    (h : lastOf P address list = some last) : P last.storageKeys = true := by
  have hmem := List.mem_of_getLast? h
  rw [List.mem_filter, Bool.and_eq_true] at hmem
  exact hmem.2.2

theorem lastOf_of_mem {P : List H256 → Bool} {list : List AccessListItem} {e : AccessListItem}
    (he : e ∈ list) (hP : P e.storageKeys = true) :
    ∃ last, lastOf P e.address list = some last := by
  have hmem : e ∈ list.filter fun item =>
      decide (item.address = e.address) && P item.storageKeys := by
    rw [List.mem_filter]
    exact ⟨he, by simp [hP]⟩
  exact ⟨_, List.getLast?_eq_some_getLast (List.ne_nil_of_mem hmem)⟩

/-- The map has the account of an entry, with every key of the entry. -/
def Kept (accountMap : Std.HashMap Address Account) (e : AccessListItem) : Prop :=
  ∃ account, accountMap[e.address]? = some account ∧ ∀ key ∈ e.storageKeys, key ∈ account.slots

theorem kept_iff {accountMap : Std.HashMap Address Account} {e : AccessListItem}
    {found : Option AccessListItem} (h : HoldsKeys accountMap e.address found) :
    Kept accountMap e ↔ ∃ last, found = some last ∧
      ∀ key ∈ e.storageKeys, key ∈ last.storageKeys := by
  unfold Kept
  cases found with
  | none =>
    have hnone : accountMap[e.address]? = none := h
    simp [hnone]
  | some last =>
    obtain ⟨account, haccount, hkeys⟩ := h
    simp [haccount, hkeys]

/-- A slot that an account of the database has is served without a request. -/
theorem storage_at_hand {db : ProofDB} {account : Account} {slot : U256}
    (haccount : db.accounts[address]? = some account)
    (hslot : ProofDB.slotOf slot ∈ account.slots) :
    ∃ value, ∀ w, db.storage c w address slot = .ok value := by
  rw [Std.HashMap.mem_iff_isSome_getElem?] at hslot
  obtain ⟨value, hvalue⟩ := Option.isSome_iff_exists.1 hslot
  refine ⟨value, fun w => ?_⟩
  unfold ProofDB.storage
  simp only [haccount, hvalue]

/-- The batch of a list keeps every entry of it, and `ProofDB::storage` serves its slots from what
    was kept, whatever the server answers later. -/
def LosesNothing (c : Crates) (w : ExecutionWorld) (db : ProofDB) (opts : CallOpts)
    (list : List AccessListItem) : Prop :=
  ∃ accountMap, batchFetchAccounts c w db opts = .ok accountMap ∧
    ∀ e ∈ list, Kept accountMap e ∧
      ∀ slot : U256, ProofDB.slotOf slot ∈ e.storageKeys →
        ∃ value, ∀ w', (db.setAccounts accountMap).storage c w' e.address slot = .ok value

/-- An entry that the batch keeps: the state trie is not empty and, if the entry has keys, neither is
    the storage trie, and the last entry for its address has them all. -/
def Fits (state : ChainState c) (list : List AccessListItem) (e : AccessListItem) : Prop :=
  state.trie.root.isEmpty = false ∧ (e.storageKeys = [] ∨
    (state.account e.address).storage.root.isEmpty = false ∧
      ∃ last, lastOf (fun _ => true) e.address list = some last ∧
        ∀ key ∈ e.storageKeys, key ∈ last.storageKeys)

/-- The last entry fetched has the keys of an entry exactly when the entry fits. -/
theorem last_fetched_iff {list : List AccessListItem} {e : AccessListItem} (he : e ∈ list) :
    (∃ last, lastOf (fun keys => decide (Fetches state e.address keys)) e.address list = some last ∧
      ∀ key ∈ e.storageKeys, key ∈ last.storageKeys) ↔ Fits state list e := by
  cases hstate : state.trie.root.isEmpty with
  | true =>
    refine iff_of_false ?_ fun hfits => by simp [Fits, hstate] at hfits
    rintro ⟨last, hlast, _⟩
    have hfetch := lastOf_some hlast
    simp [Fetches, hstate] at hfetch
  | false =>
    cases hstorage : (state.account e.address).storage.root.isEmpty with
    | true =>
      -- only an entry without keys is fetched
      have hfetches : ∀ keys, Fetches state e.address keys ↔ keys = [] := by
        simp [Fetches, hstate, hstorage]
      simp only [Fits, hstate, hstorage, Bool.true_eq_false, false_and, or_false, true_and]
      constructor
      · rintro ⟨last, hlast, hkeys⟩
        have hnil : last.storageKeys = [] := (hfetches _).1 (of_decide_eq_true (lastOf_some hlast))
        rw [hnil] at hkeys
        exact List.eq_nil_iff_forall_not_mem.2 fun key hkey => absurd (hkeys key hkey) (by simp)
      · intro hnil
        obtain ⟨last, hlast⟩ := lastOf_of_mem
          (P := fun keys => decide (Fetches state e.address keys)) he
          (decide_eq_true ((hfetches _).2 hnil))
        exact ⟨last, hlast, by simp [hnil]⟩
    | false =>
      -- every entry for the address is fetched
      have hfetches : ∀ keys, decide (Fetches state e.address keys) = true := by
        simp [Fetches, hstate, hstorage]
      simp only [Fits, hstate, hstorage, hfetches, true_and]
      refine ⟨Or.inr, ?_⟩
      rintro (hnil | hlast)
      · obtain ⟨last, hlast⟩ := lastOf_of_mem (P := fun _ => true) he rfl
        exact ⟨last, hlast, by simp [hnil]⟩
      · exact hlast

/-- The batch answers, and keeps the entries that fit. -/
theorem batch_kept (hin : EmptyInputs c) (hplain : PlainState state) {db : ProofDB}
    (opts : CallOpts) (hroot : db.currentPayload.stateRoot = state.stateRoot)
    (hw : ∀ i, HonestServer state db.currentPayload.blockNumber (w i))
    {list : List AccessListItem}
    (hlist : (w 0).createAccessList opts db.currentPayload.blockNumber = .ok list) :
    ∃ accountMap, batchFetchAccounts c w db opts = .ok accountMap ∧ ∀ e ∈ list,
      (Kept accountMap e ↔ Fits state (accessList list opts db.currentPayload) e) := by
  have hw' : ∀ i, HonestServer state db.currentPayload.blockNumber (w.drop 1 i) :=
    fun i => hw (i + 1)
  have hnone : ∀ address : Address, HoldsKeys ∅ address none := by
    intro address
    exact Std.HashMap.getElem?_empty
  obtain ⟨accountMap, hfetch, hmap⟩ := fetchAccounts_last hin hplain hroot
    (accessList list opts db.currentPayload) (fun _ => none) hw' hnone
  refine ⟨accountMap, ?_, ?_⟩
  · unfold batchFetchAccounts
    simp only [hlist, answer, mapErr]
    exact hfetch
  · intro e he
    have hholds := hmap e.address
    rw [Option.or_none] at hholds
    rw [kept_iff hholds]
    exact last_fetched_iff (List.mem_append_left _ he)

/-- **The prefetch loses nothing exactly when every entry of the list fits** with the list that has
    the sender, the callee and the block producer appended. -/
theorem prefetch_complete_iff (c : Crates) (hin : EmptyInputs c) (state : ChainState c)
    (hplain : PlainState state) (w : ExecutionWorld) (db : ProofDB) (opts : CallOpts)
    (hroot : db.currentPayload.stateRoot = state.stateRoot)
    (hw : ∀ i, HonestServer state db.currentPayload.blockNumber (w i))
    (list : List AccessListItem)
    (hlist : (w 0).createAccessList opts db.currentPayload.blockNumber = .ok list) :
    LosesNothing c w db opts list ↔
      ∀ e ∈ list, Fits state (accessList list opts db.currentPayload) e := by
  obtain ⟨accountMap, hbatch, hkept⟩ := batch_kept hin hplain opts hroot hw hlist
  constructor
  · rintro ⟨found, hfound, hall⟩ e he
    obtain rfl : accountMap = found := Except.ok.inj (hbatch.symm.trans hfound)
    exact (hkept e he).1 (hall e he).1
  · intro hfits
    refine ⟨accountMap, hbatch, ?_⟩
    intro e he
    obtain ⟨account, haccount, hkeys⟩ := (hkept e he).2 (hfits e he)
    refine ⟨⟨account, haccount, hkeys⟩, ?_⟩
    intro slot hslot
    exact storage_at_hand haccount (hkeys _ hslot)

/-! ## A call of the account -/

/-- A server that proves every account and slot of a state, with no node for an empty trie. -/
def honestServer (state : ChainState c) (list : List AccessListItem) : ExecutionRpc where
  getProof := fun address slots _ =>
    let account := state.account address
    let proofOf (t : Patricia.Node) (key : List (Fin 16)) :=
      if t.isEmpty then [] else t.proof c.hash key
    .ok
      { address := address, balance := account.balance, codeHash := account.codeHash
        nonce := account.nonce, storageHash := account.storageHash
        accountProof := proofOf state.trie.root (accountPath c address)
        storageProof := slots.map fun slot =>
          ⟨slot, proofOf account.storage.root (slotPath c slot), account.slot slot⟩ }
  createAccessList := fun _ _ => .ok list
  getCode := fun address _ => .ok (state.account address).code
  getTransactionReceipt := fun _ => .ok none
  getTransaction := fun _ => .ok none

theorem honestServer_honest (state : ChainState c) (list : List AccessListItem)
    (blockNumber : UInt64) : HonestServer state blockNumber (honestServer state list) where
  proof := by
    intro address slots
    have hproof : ∀ (t : Patricia.Node) (key : List (Fin 16)),
        Canonical c t key (if t.isEmpty then [] else t.proof c.hash key) := by
      intro t key
      unfold Canonical
      split
      · exact Or.inl rfl
      · rfl
    refine ⟨_, rfl, rfl, rfl, rfl, rfl, hproof _ _, ?_⟩
    rw [List.forall₂_map_right_iff, List.forall₂_same]
    exact fun slot _ => ⟨rfl, rfl, hproof _ _⟩
  code := fun _ => rfl

theorem stateCrates_empty : EmptyInputs stateCrates where
  code := by decide +kernel
  trie := by decide +kernel
  list := by decide +kernel

theorem sampleState_tries : PlainState sampleState where
  accounts := sampleState_plain.1
  slots := by
    intro address
    rcases sampleState_account address with h | h
    · rw [h]
      exact sampleState_plain.2
    · rw [h]
      exact plainState_plain.2
  codes := by
    intro address _
    rcases sampleState_account address with h | h
    · rw [h]
      rfl
    · rw [h]
      rfl

/-- The account and its slot, for a call of another account. -/
theorem prefetch_complete_sample :
    LosesNothing stateCrates (fun _ => honestServer sampleState [⟨sampleAddress, [sampleSlot]⟩])
      (.new { (default : ExecutionPayload) with stateRoot := sampleStateRoot } ∅)
      ⟨none, none, none, none, none, none⟩ [⟨sampleAddress, [sampleSlot]⟩] := by
  refine (prefetch_complete_iff stateCrates stateCrates_empty sampleState sampleState_tries _ _ _
    (by decide +kernel) (fun _ => honestServer_honest _ _ _) _ rfl).2 ?_
  intro e he
  rw [List.mem_singleton] at he
  subst he
  exact ⟨rfl, Or.inr ⟨rfl, _, by rfl, fun _ h => h⟩⟩

/-- When the account is called, the entry of the callee replaces its own, and its slot is lost. -/
theorem prefetch_loses :
    ¬ ∀ (c : Crates) (state : ChainState c) (w : ExecutionWorld) (db : ProofDB) (opts : CallOpts)
        (list : List AccessListItem),
      EmptyInputs c → PlainState state → db.currentPayload.stateRoot = state.stateRoot →
        (∀ i, HonestServer state db.currentPayload.blockNumber (w i)) →
        (w 0).createAccessList opts db.currentPayload.blockNumber = .ok list →
          LosesNothing c w db opts list := by
  intro h
  let w : ExecutionWorld := fun _ => honestServer sampleState [⟨sampleAddress, [sampleSlot]⟩]
  let db : ProofDB := .new { (default : ExecutionPayload) with stateRoot := sampleStateRoot } ∅
  let opts : CallOpts := ⟨none, some sampleAddress, none, none, none, none⟩
  have hw : ∀ i, HonestServer sampleState db.currentPayload.blockNumber (w i) :=
    fun _ => honestServer_honest _ _ _
  have hroot : db.currentPayload.stateRoot = sampleState.stateRoot := by decide +kernel
  obtain ⟨accountMap, hbatch, hkept⟩ := batch_kept stateCrates_empty sampleState_tries opts hroot hw
    rfl
  obtain ⟨found, hfound, hall⟩ := h stateCrates sampleState w db opts _ stateCrates_empty
    sampleState_tries hroot hw rfl
  obtain rfl : accountMap = found := Except.ok.inj (hbatch.symm.trans hfound)
  have hmem : (⟨sampleAddress, [sampleSlot]⟩ : AccessListItem) ∈
      [(⟨sampleAddress, [sampleSlot]⟩ : AccessListItem)] := List.mem_singleton_self _
  obtain ⟨_, hnil | ⟨_, last, hlast, hkeys⟩⟩ := (hkept _ hmem).1 (hall _ hmem).1
  · cases hnil
  · have hcallee : lastOf (fun _ => true) sampleAddress
        (accessList [⟨sampleAddress, [sampleSlot]⟩] opts db.currentPayload) =
          some ⟨sampleAddress, []⟩ := by rfl
    rw [hcallee] at hlast
    cases hlast
    exact absurd (hkeys sampleSlot List.mem_cons_self) (by simp)

end Helios
