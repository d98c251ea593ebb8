import Helios.Execution.Call
import Helios.Execution.Honest

/-!
# The access list is a hint

* `VerifySound` — `verify_proof` is sound for one trie, key and value.
* `fields_true` — an account that was checked has the fields of the state.
* `Program.handed` — the values that the database hands to the EVM in a run.
* `Handed.Trusted` — what is assumed of one value handed over: that `verify_proof` is sound for it,
  and that no code collides with that of the account.
* `handed_true` — **every such value is that of the state**, wherever it comes from.
* `access_list_hint` — the same of the runs of `Evm`; hence two of them never differ.
-/

set_option autoImplicit false

namespace Helios

open Nibble Patricia

variable {c : Crates} {state : ChainState c} {payload : ExecutionPayload}

/-- An accepted proof of this value speaks about the trie. -/
def VerifySound (c : Crates) (t : Node) (k : Bytes32) (value : Bytes) : Prop :=
  ∀ proof, verifyProof c proof (t.rootHash c.hash) k.toList value = .ok true →
    Holds t (keyPath k) value

/-! ## Accounts -/

/-- A value that a trie holds for an account is that of the account. -/
theorem account_of_holds (hempty : c.keccak256 [] = keccakEmpty)
    (hzero : c.hash [0x80] = emptyStorageHash) {address : Address} {nonce : UInt64}
    {balance : U256} {storageHash codeHash : H256}
    (h : Holds state.trie.root (accountPath c address)
      (accountRlp nonce balance storageHash codeHash)) :
    nonce = (state.account address).nonce ∧ balance = (state.account address).balance ∧
      storageHash = (state.account address).storageHash ∧
      codeHash = (state.account address).codeHash := by
  rcases h with hfind | ⟨hnone, hvalue⟩
  · rcases state.stored address with hstored | ⟨habsent, _⟩
    · rw [hstored] at hfind
      exact accountRlp_injective (Option.some.inj hfind).symm
    · rw [habsent] at hfind
      cases hfind
  · rcases state.stored address with hstored | ⟨_, habsent⟩
    · rw [hstored] at hnone
      cases hnone
    · obtain ⟨rfl, rfl, hstorage, hcode⟩ := isEmptyValue_accountRlp.1 hvalue
      refine ⟨habsent.nonce.symm, habsent.balance.symm, Vector.toList_inj.1 ?_,
        Vector.toList_inj.1 ?_⟩
      · rw [hstorage, ← hzero, ChainAccount.storageHash, habsent.storage]
        rfl
      · rw [hcode, ChainAccount.codeHash, habsent.code, hempty, keccakEmpty_toList]

/-- A value that a storage trie holds for a slot is that of the slot. -/
theorem slot_of_holds {a : ChainAccount c} {slot : H256} {value : U256}
    (h : Holds a.storage.root (slotPath c slot) (encodeValue value)) : value = a.slot slot := by
  rcases h with hfind | ⟨hnone, hvalue⟩
  · rcases a.stored slot with hstored | ⟨habsent, _⟩
    · rw [hstored] at hfind
      exact encodeValue_injective (Option.some.inj hfind).symm
    · rw [habsent] at hfind
      cases hfind
  · rcases a.stored slot with hstored | ⟨_, hslot⟩
    · rw [hstored] at hnone
      cases hnone
    · rw [hslot]
      exact isEmptyValue_encodeValue.1 hvalue

/-- **A checked account has the fields of the state.** -/
theorem fields_true (hempty : c.keccak256 [] = keccakEmpty)
    (hzero : c.hash [0x80] = emptyStorageHash) (hroot : payload.stateRoot = state.stateRoot)
    {address : Address} {account : Account} (h : AccountProved c payload address account)
    (hsound : VerifySound c state.trie.root (c.keccak256 address.toList)
      (accountRlp account.nonce account.balance account.storageHash account.codeHash)) :
    account.nonce = (state.account address).nonce ∧
      account.balance = (state.account address).balance ∧
      account.storageHash = (state.account address).storageHash ∧
      account.codeHash = (state.account address).codeHash := by
  obtain ⟨proof, hproof⟩ := h.fields
  rw [hroot] at hproof
  exact account_of_holds hempty hzero (hsound proof hproof)

/-! ## The values handed over -/

/-- What is assumed of an account handed over: proofs of it are sound, whatever its storage, and its
    code does not collide with the true one. -/
structure AccountTrusted (state : ChainState c) (address : Address) (info : AccountInfo) : Prop where
  proof : ∀ storageHash, VerifySound c state.trie.root (c.keccak256 address.toList)
    (accountRlp info.nonce info.balance storageHash (c.keccak256 info.code))
  code : c.keccak256 info.code = (state.account address).codeHash →
    info.code = (state.account address).code

/-- What is assumed of a slot handed over: proofs of it are sound, and so are those of its account,
    which the storage root comes from. -/
structure SlotTrusted (state : ChainState c) (address : Address) (slot : H256) (value : U256) :
    Prop where
  account : ∀ nonce balance storageHash codeHash, VerifySound c state.trie.root
    (c.keccak256 address.toList) (accountRlp nonce balance storageHash codeHash)
  proof : VerifySound c (state.account address).storage.root (c.keccak256 slot.toList)
    (encodeValue value)

/-- What the EVM is told about an address. -/
def ChainState.info (state : ChainState c) (address : Address) : Option AccountInfo :=
  if isPrecompile address then some ⟨0, 0, []⟩
  else some ⟨(state.account address).balance, (state.account address).nonce,
    (state.account address).code⟩

theorem accountInfo_true (hempty : c.keccak256 [] = keccakEmpty)
    (hzero : c.hash [0x80] = emptyStorageHash) (hroot : payload.stateRoot = state.stateRoot)
    {address : Address} {account : Account} (h : AccountProved c payload address account)
    (htrust : AccountTrusted state address (ProofDB.accountInfo account)) :
    ProofDB.accountInfo account = ⟨(state.account address).balance,
      (state.account address).nonce, (state.account address).code⟩ := by
  have hsound := htrust.proof account.storageHash
  rw [show c.keccak256 (ProofDB.accountInfo account).code = account.codeHash from h.code] at hsound
  obtain ⟨hnonce, hbalance, _, hcodeHash⟩ := fields_true hempty hzero hroot h hsound
  have hcode : account.code = (state.account address).code :=
    htrust.code (h.code.trans hcodeHash)
  rw [ProofDB.accountInfo, hnonce, hbalance, hcode]

/-- `basic` tells the account of the state, from the accounts at hand or from a fresh one. -/
theorem basic_true (hempty : c.keccak256 [] = keccakEmpty)
    (hzero : c.hash [0x80] = emptyStorageHash) {db : ProofDB} (hdb : ProofDB.Built c db)
    (hroot : db.currentPayload.stateRoot = state.stateRoot) {w : ExecutionWorld}
    {address : Address} {info : Option AccountInfo} (h : db.basic c w address = .ok info)
    (htrust : ∀ known, info = some known → AccountTrusted state address known) :
    info = state.info address := by
  unfold ProofDB.basic at h
  unfold ChainState.info
  split at h
  · rename_i hpre
    cases h
    rw [if_pos hpre]
  · rename_i hpre
    rw [if_neg hpre]
    split at h
    · rename_i account haccount
      cases h
      rw [accountInfo_true hempty hzero hroot (built_proved hempty hdb address account haccount)
        (htrust _ rfl)]
    · split at h
      · cases h
      · rename_i account haccount
        cases h
        rw [accountInfo_true hempty hzero hroot (getAccount_proved hempty haccount) (htrust _ rfl)]

/-- `storage` tells the slot of the state. -/
theorem storage_true (hempty : c.keccak256 [] = keccakEmpty)
    (hzero : c.hash [0x80] = emptyStorageHash) {db : ProofDB} (hdb : ProofDB.Built c db)
    (hroot : db.currentPayload.stateRoot = state.stateRoot) {w : ExecutionWorld}
    {address : Address} {slot value : U256} (h : db.storage c w address slot = .ok value)
    (htrust : SlotTrusted state address (ProofDB.slotOf slot) value) :
    value = (state.account address).slot (ProofDB.slotOf slot) := by
  obtain ⟨account, haccount, hslot⟩ := storage_proved hempty hdb h
  obtain ⟨_, _, hstorage, _⟩ := fields_true hempty hzero hroot haccount (htrust.account _ _ _ _)
  obtain ⟨proof, hproof⟩ := haccount.slots _ _ hslot
  rw [hstorage] at hproof
  exact slot_of_holds (htrust.proof proof hproof)

/-- A value that the EVM gets from the database. -/
inductive Handed where
  | account (address : Address) (info : Option AccountInfo)
  | slot (address : Address) (slot value : U256)
  deriving DecidableEq

/-- The value is that of the state. -/
def Handed.TrueIn (state : ChainState c) : Handed → Prop
  | .account address info => info = state.info address
  | .slot address key value => value = (state.account address).slot (ProofDB.slotOf key)

/-- What is assumed of it. -/
def Handed.Trusted (state : ChainState c) : Handed → Prop
  | .account address info => ∀ known, info = some known → AccountTrusted state address known
  | .slot address key value => SlotTrusted state address (ProofDB.slotOf key) value

/-- The value of an answer that is one. -/
def handedOf {α : Type} (f : α → Handed) : Except Report α → List Handed
  | .ok a => [f a]
  | .error _ => []

/-- The values handed over in a run, as `Program.run` meets them. -/
def Program.handed (c : Crates) (db : ProofDB) : ExecutionWorld → Program → List Handed
  | _, .done _ => []
  | w, .basic address next =>
    match asAnswer (db.basic c w address) with
    | .error _ => []
    | .ok answer => handedOf (.account address) answer ++ (next answer).handed c db (w.drop 2)
  | w, .storage address slot next =>
    match asAnswer (db.storage c w address slot) with
    | .error _ => []
    | .ok answer => handedOf (.slot address slot) answer ++ (next answer).handed c db (w.drop 2)
  | w, .blockHash number next =>
    match asAnswer (db.blockHash number) with
    | .error _ => []
    | .ok answer => (next answer).handed c db (w.drop 2)
  | w, .codeByHash codeHash next =>
    match asAnswer (ProofDB.codeByHash codeHash) with
    | .error _ => []
    | .ok answer => (next answer).handed c db (w.drop 2)

theorem asAnswer_ok {α : Type} {r : Result α} {a : α} (h : asAnswer r = .ok (.ok a)) :
    r = .ok a := by
  cases r with
  | ok b =>
    cases h
    rfl
  | error f => cases f <;> cases h

/-- An answer that is a value hands over that value. -/
theorem mem_handedOf {α : Type} {f : α → Handed} {r : Result α} {answer : Except Report α}
    {value : Handed} (hanswer : asAnswer r = .ok answer) (h : value ∈ handedOf f answer) :
    ∃ a, r = .ok a ∧ value = f a := by
  cases answer with
  | error e => cases h
  | ok a => exact ⟨a, asAnswer_ok hanswer, List.mem_singleton.1 h⟩

/-- **Every value handed over is that of the state**, whatever the program asks and whatever the
    server answers.  Induction on the program; the database does not change on the way. -/
theorem handed_true (hempty : c.keccak256 [] = keccakEmpty)
    (hzero : c.hash [0x80] = emptyStorageHash) {db : ProofDB} (hdb : ProofDB.Built c db)
    (hroot : db.currentPayload.stateRoot = state.stateRoot) {program : Program} :
    ∀ {w : ExecutionWorld}, ∀ value ∈ program.handed c db w, value.Trusted state →
      value.TrueIn state := by
  induction program with
  | done result =>
    intro w value h htrust
    cases h
  | basic address next ih =>
    intro w value h htrust
    rw [Program.handed] at h
    split at h
    · cases h
    rename_i answer hanswer
    rcases List.mem_append.1 h with hhead | htail
    · obtain ⟨info, hinfo, rfl⟩ := mem_handedOf hanswer hhead
      exact basic_true hempty hzero hdb hroot hinfo htrust
    · exact ih answer value htail htrust
  | storage address slot next ih =>
    intro w value h htrust
    rw [Program.handed] at h
    split at h
    · cases h
    rename_i answer hanswer
    rcases List.mem_append.1 h with hhead | htail
    · obtain ⟨v, hv, rfl⟩ := mem_handedOf hanswer hhead
      exact storage_true hempty hzero hdb hroot hv htrust
    · exact ih answer value htail htrust
  | blockHash number next ih =>
    intro w value h htrust
    rw [Program.handed] at h
    split at h
    · cases h
    · rename_i answer _
      exact ih answer value h htrust
  | codeByHash codeHash next ih =>
    intro w value h htrust
    rw [Program.handed] at h
    split at h
    · cases h
    · rename_i answer _
      exact ih answer value h htrust

/-- The values handed over in a run of `Evm` for a call: the accounts of the access list are
    fetched, and the program runs; no program runs if the fetching fails. -/
def evmHanded (c : Crates) (w w' : ExecutionWorld) (db : ProofDB) (opts : CallOpts)
    (program : Program) : List Handed :=
  match batchFetchAccounts c w db opts with
  | .error _ => []
  | .ok accountMap => program.handed c (db.setAccounts accountMap) w'

/-- **The access list is only a hint.**  Whatever list the server sends, whichever of its accounts
    fail and whatever it answers afterwards, every value that a call hands to the EVM is that of
    the state, if `verify_proof` is sound for it; hence two runs with different lists never differ
    in such a value. -/
theorem access_list_hint (c : Crates) (hempty : c.keccak256 [] = keccakEmpty)
    (hzero : c.hash [0x80] = emptyStorageHash) (state : ChainState c)
    (payload : ExecutionPayload) (hroot : payload.stateRoot = state.stateRoot)
    (payloads : Payloads) :
    (∀ (w w' : ExecutionWorld) (opts : CallOpts) (program : Program),
      ∀ value ∈ evmHanded c w w' (.new payload payloads) opts program, value.Trusted state →
        value.TrueIn state) ∧
    (∀ (w₁ w₁' w₂ w₂' : ExecutionWorld) (opts₁ opts₂ : CallOpts) (program₁ program₂ : Program),
      (∀ address info₁ info₂,
        .account address info₁ ∈ evmHanded c w₁ w₁' (.new payload payloads) opts₁ program₁ →
        .account address info₂ ∈ evmHanded c w₂ w₂' (.new payload payloads) opts₂ program₂ →
        (Handed.account address info₁).Trusted state →
        (Handed.account address info₂).Trusted state → info₁ = info₂) ∧
      (∀ address slot value₁ value₂,
        .slot address slot value₁ ∈ evmHanded c w₁ w₁' (.new payload payloads) opts₁ program₁ →
        .slot address slot value₂ ∈ evmHanded c w₂ w₂' (.new payload payloads) opts₂ program₂ →
        (Handed.slot address slot value₁).Trusted state →
        (Handed.slot address slot value₂).Trusted state → value₁ = value₂)) := by
  have htrue : ∀ (w w' : ExecutionWorld) (opts : CallOpts) (program : Program),
      ∀ value ∈ evmHanded c w w' (.new payload payloads) opts program, value.Trusted state →
        value.TrueIn state := by
    intro w w' opts program value h htrust
    unfold evmHanded at h
    split at h
    · cases h
    · rename_i accountMap hfetch
      exact handed_true hempty hzero (.set (.new payload payloads) hfetch) hroot value h htrust
  refine ⟨htrue, fun w₁ w₁' w₂ w₂' opts₁ opts₂ program₁ program₂ => ⟨?_, ?_⟩⟩
  · intro address info₁ info₂ h₁ h₂ htrust₁ htrust₂
    exact (htrue w₁ w₁' opts₁ program₁ _ h₁ htrust₁).trans
      (htrue w₂ w₂' opts₂ program₂ _ h₂ htrust₂).symm
  · intro address slot value₁ value₂ h₁ h₂ htrust₁ htrust₂
    exact (htrue w₁ w₁' opts₁ program₁ _ h₁ htrust₁).trans
      (htrue w₂ w₂' opts₂ program₂ _ h₂ htrust₂).symm

/-! ## Tries of one leaf -/

/-- A trie of a single node meets no collision when its root does not. -/
theorem noCollision_of_alone {t : Node} {proof : List Bytes} (halone : ∀ s, t.Within s → s = t)
    (hcol : ∀ b, c.hash b = t.rootHash c.hash → b = t.encode c.hash) : NoCollision c t proof := by
  intro b _ s hs
  rw [halone s hs]
  exact hcol b

/-- `verify_proof` is sound for a trie of one leaf whose value is not a hash. -/
theorem verifySound_leaf (T : Trie 64) {path : List (Fin 16)} {value : Bytes}
    (hT : T.root = .leaf path value) (hlen : value.length ≠ 32) (hread : ReadsNodes c T.root)
    (hcol : ∀ b, c.hash b = T.root.rootHash c.hash → b = T.root.encode c.hash) :
    ∀ k v, VerifySound c T.root k v := by
  intro k v proof h
  have hno : NoCollision c T.root proof := by
    refine noCollision_of_alone (fun s hs => ?_) hcol
    rw [hT] at hs ⊢
    exact hs.of_leaf
  rw [verifyProof_eq_true_iff T k hread hno, hT] at h
  rw [hT]
  cases proof with
  | nil => cases h
  | cons node rest =>
    obtain ⟨_, hlast⟩ := h
    split at hlast
    · rcases hlast with ⟨hpath, hv⟩ | ⟨rfl, rfl⟩
      · exact Or.inr ⟨if_neg hpath, hv⟩
      · exact Or.inl (if_pos rfl)
    · obtain ⟨_, hforged⟩ := hlast
      cases rest with
      | nil => cases hforged
      | cons forged rest =>
        have hhash := congrArg List.length hforged.1
        rw [Crates.hash_length] at hhash
        exact absurd hhash hlen

/-- It is sound for the empty trie. -/
theorem verifySound_empty (T : Trie 64) (hT : T.root = .empty) (hread : ReadsNodes c T.root)
    (hcol : ∀ b, c.hash b = T.root.rootHash c.hash → b = T.root.encode c.hash) :
    ∀ k v, VerifySound c T.root k v := by
  intro k v proof h
  have hno : NoCollision c T.root proof := by
    refine noCollision_of_alone (fun s hs => ?_) hcol
    rw [hT] at hs ⊢
    cases hs
    rfl
  rw [verifyProof_eq_true_iff T k hread hno, hT] at h
  cases proof with
  | nil => cases h
  | cons node rest => cases h

theorem stateCrates_hash {b bytes : Bytes} (hne : stateCrates.keccak256 bytes ≠ zeroBytes 32)
    (h : stateCrates.hash b = stateCrates.hash bytes) : b = bytes :=
  digestTable_injective stateDigests_nodup hne (Vector.toList_inj.1 h)

/-- The tries of one leaf are sound for every key and value. -/
theorem sampleState_sound : (∀ k v, VerifySound stateCrates sampleState.trie.root k v) ∧
    ∀ address k v, VerifySound stateCrates (sampleState.account address).storage.root k v := by
  constructor
  · apply verifySound_leaf sampleState.trie rfl (by decide +kernel) sampleState_plain.1.reads
    exact fun b => stateCrates_hash (by decide +kernel)
  · intro address
    rcases sampleState_account address with h | h
    · rw [h]
      apply verifySound_leaf _ rfl (by decide +kernel) sampleState_plain.2.reads
      exact fun b => stateCrates_hash (by decide +kernel)
    · rw [h]
      apply verifySound_empty _ rfl plainState_plain.2.reads
      exact fun b => stateCrates_hash (by decide +kernel)

theorem sampleState_codes (address : Address) (code : Bytes)
    (h : stateCrates.keccak256 code = (sampleState.account address).codeHash) :
    code = (sampleState.account address).code := by
  have hcode : (sampleState.account address).code = [] := by
    rcases sampleState_account address with ha | ha
    · rw [ha]
      rfl
    · rw [ha]
      rfl
  rw [ChainAccount.codeHash, hcode] at h
  rw [hcode]
  exact stateCrates_hash (by decide +kernel) (congrArg Vector.toList h)

/-- So every value that a call hands over is trusted. -/
theorem sampleState_trusted : ∀ value : Handed, value.Trusted sampleState
  | .account address _ => fun _ _ =>
    ⟨fun _ => sampleState_sound.1 _ _, sampleState_codes address _⟩
  | .slot address _ _ => ⟨fun _ _ _ _ => sampleState_sound.1 _ _, sampleState_sound.2 address _ _⟩

/-! ## A call with a list -/

/-- A block of the state. -/
def statePayload : ExecutionPayload :=
  { (default : ExecutionPayload) with stateRoot := sampleStateRoot }

/-- A server whose list names the account, with one of its slots twice.  It answers for no other
    account. -/
def listingRpc : ExecutionRpc :=
  { honestRpc with
    getProof := fun address _ _ =>
      if address = sampleAddress then
        .ok
          { address := sampleAddress, balance := 1000000000000000000, codeHash := keccakEmpty
            nonce := 1, storageHash := sampleStorageHash, accountProof := [sampleAccountLeaf]
            storageProof := List.replicate 2 ⟨sampleSlot, [sampleSlotLeaf], 5⟩ }
      else .error (.rpc "get_proof")
    createAccessList := fun _ _ => .ok [⟨sampleAddress, [sampleSlot, sampleSlot]⟩] }

/-- The account with these slots. -/
def sampleFetched (slots : Std.HashMap H256 U256) : Account where
  balance := 1000000000000000000
  nonce := 1
  codeHash := keccakEmpty
  code := []
  storageHash := sampleStorageHash
  slots := slots

theorem sampleSlot_proved : verifyProof stateCrates [sampleSlotLeaf] sampleStorageHash.toList
    (stateCrates.keccak256 sampleSlot.toList).toList (encodeValue 5) = .ok true := by
  decide +kernel

theorem drop_const (rpc : ExecutionRpc) (n : Nat) :
    ExecutionWorld.drop (fun _ => rpc) n = fun _ => rpc := rfl

/-- The database of the call: the account was fetched ahead, and the others that belong to the call
    were refused. -/
theorem listing_batch : batchFetchAccounts stateCrates (fun _ => listingRpc)
    (.new statePayload ∅) ⟨none, none, none, none, none, none⟩ =
      .ok ((∅ : Std.HashMap Address Account).insert sampleAddress (sampleFetched
        (((∅ : Std.HashMap H256 U256).insert sampleSlot 5).insert sampleSlot 5))) := by
  have hfetched : getAccount stateCrates (fun _ => listingRpc) sampleAddress
      (some [sampleSlot, sampleSlot]) statePayload = .ok (sampleFetched _) :=
    getAccount_ok_iff.2 ⟨_, _, _, rfl, by decide +kernel, verifySlots_cons_iff.2
      ⟨sampleSlot_proved, verifySlots_cons_iff.2 ⟨sampleSlot_proved, rfl⟩⟩, rfl, rfl⟩
  have hrefused : getAccount stateCrates (fun _ => listingRpc) (zeroBytes 20) (some [])
      statePayload = .error (.err (.rpc "get_proof")) := rfl
  show fetchAccounts stateCrates statePayload (fun _ => listingRpc)
    (⟨sampleAddress, [sampleSlot, sampleSlot]⟩ :: List.replicate 3 ⟨zeroBytes 20, []⟩) ∅ = _
  rw [fetchAccounts, hfetched]
  simp only [drop_const, List.replicate, fetchAccounts, hrefused]

/-- A program that asks for the account and two of its slots. -/
def sampleProgram : Program :=
  .basic sampleAddress fun _ => .storage sampleAddress 1 fun _ => .storage sampleAddress 2 fun _ =>
    .done ⟨.stop, .none, 0⟩

/-- The account and its first slot are at hand; the second slot is fetched when the program asks. -/
theorem listing_handed : evmHanded stateCrates (fun _ => listingRpc) (fun _ => honestRpc)
    (.new statePayload ∅) ⟨none, none, none, none, none, none⟩ sampleProgram =
      [.account sampleAddress (some ⟨1000000000000000000, 1, []⟩), .slot sampleAddress 1 5,
        .slot sampleAddress 2 0] := by
  let db : ProofDB := (ProofDB.new statePayload ∅).setAccounts
    ((∅ : Std.HashMap Address Account).insert sampleAddress
      (sampleFetched (((∅ : Std.HashMap H256 U256).insert sampleSlot 5).insert sampleSlot 5)))
  have hdb : db.accounts = (∅ : Std.HashMap Address Account).insert sampleAddress
      (sampleFetched (((∅ : Std.HashMap H256 U256).insert sampleSlot 5).insert sampleSlot 5)) := rfl
  have hfresh : getAccount stateCrates (fun _ => honestRpc) sampleAddress (some [beBytes 32 2])
      statePayload = .ok (sampleFetched _) :=
    getAccount_ok_iff.2 ⟨_, _, _, rfl, by decide +kernel, verifySlots_cons_iff.2
      ⟨sampleSlot_proved, verifySlots_cons_iff.2 ⟨by decide +kernel, rfl⟩⟩, rfl, rfl⟩
  have hbasic : db.basic stateCrates (fun _ => honestRpc) sampleAddress =
      .ok (some ⟨1000000000000000000, 1, []⟩) := by
    have hpre : isPrecompile sampleAddress = false := by decide +kernel
    rw [ProofDB.basic, hpre, hdb, Std.HashMap.getElem?_insert_self]
    rfl
  have hheld : db.storage stateCrates (fun _ => honestRpc) sampleAddress 1 = .ok 5 := by
    have hslot : ProofDB.slotOf 1 = sampleSlot := rfl
    simp only [ProofDB.storage, hslot, hdb, Std.HashMap.getElem?_insert_self, sampleFetched]
  have hasked : db.storage stateCrates (fun _ => honestRpc) sampleAddress 2 = .ok 0 := by
    have hslot : ProofDB.slotOf 2 = beBytes 32 2 := rfl
    have hne : (sampleSlot == beBytes 32 2) = false := by decide +kernel
    have hfetch : db.fetchSlot stateCrates (fun _ => honestRpc) sampleAddress (beBytes 32 2) =
        .ok 0 := by
      rw [ProofDB.fetchSlot]
      have hget : db.getAccount stateCrates (fun _ => honestRpc) sampleAddress [beBytes 32 2] = _ :=
        hfresh
      rw [hget]
      simp only [sampleFetched, Std.HashMap.getElem?_insert_self]
    simp only [ProofDB.storage, hslot, hdb, Std.HashMap.getElem?_insert_self, sampleFetched,
      Std.HashMap.getElem?_insert, hne, Bool.false_eq_true, if_false, Std.HashMap.getElem?_empty,
      hfetch]
  rw [evmHanded, listing_batch]
  show sampleProgram.handed stateCrates db (fun _ => honestRpc) = _
  simp only [sampleProgram, Program.handed, drop_const, hbasic, hheld, hasked, asAnswer, handedOf]
  rfl

/-- All three are those of the state, wherever they come from. -/
theorem access_list_sample :
    (Handed.account sampleAddress (some ⟨1000000000000000000, 1, []⟩)).TrueIn sampleState ∧
      (Handed.slot sampleAddress 1 5).TrueIn sampleState ∧
      (Handed.slot sampleAddress 2 0).TrueIn sampleState := by
  have htrue := (access_list_hint stateCrates (by decide +kernel) (by decide +kernel) sampleState
    statePayload (by decide +kernel) ∅).1 (fun _ => listingRpc) (fun _ => honestRpc)
    ⟨none, none, none, none, none, none⟩ sampleProgram
  rw [listing_handed] at htrue
  exact ⟨htrue _ (by simp) (sampleState_trusted _), htrue _ (by simp) (sampleState_trusted _),
    htrue _ (by simp) (sampleState_trusted _)⟩

end Helios
