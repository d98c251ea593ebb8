import Helios.Execution.Account

/-!
# The proof database of the EVM (`execution/src/evm.rs`)

* `ProofDB` — the accounts fetched ahead of a call, and the payload they belong to.
* `batchFetchAccounts` — fetches the accounts of an access list; an account that fails is skipped.
* `ProofDB.storage` — a storage slot, from the accounts at hand or fetched anew.
* `ProofDB.Built` — the databases that `Evm` builds; `built_proved` is their invariant.
-/

set_option autoImplicit false

namespace Helios

variable (c : Crates)

structure ProofDB where
  currentPayload : ExecutionPayload
  payloads : Payloads
  accounts : Std.HashMap Address Account

namespace ProofDB

def new (currentPayload : ExecutionPayload) (payloads : Payloads) : ProofDB where
  currentPayload := currentPayload
  payloads := payloads
  accounts := ∅

def setAccounts (db : ProofDB) (accounts : Std.HashMap Address Account) : ProofDB :=
  { db with accounts := accounts }

def getAccount (db : ProofDB) (w : ExecutionWorld) (address : Address) (slots : List H256) :
    Result Account :=
  Helios.getAccount c w address (some slots) db.currentPayload

/-- `H256::from_uint` -/
def slotOf (slot : U256) : H256 := beBytes 32 slot.toNat

/-- A slot of a freshly fetched account. -/
def fetchSlot (db : ProofDB) (w : ExecutionWorld) (address : Address) (slot : H256) :
    Result U256 :=
  match db.getAccount c w address [slot] with
  | .error e => .error e
  | .ok account =>
    match account.slots[slot]? with
    | some value => .ok value
    | none => .error (.err (.slotNotFound slot))

def storage (db : ProofDB) (w : ExecutionWorld) (address : Address) (slot : U256) : Result U256 :=
  let slot := slotOf slot
  match db.accounts[address]? with
  | some account =>
    match account.slots[slot]? with
    | some value => .ok value
    | none => db.fetchSlot c w address slot
  | none => db.fetchSlot c w address slot

end ProofDB

/-- The access list of a call, with the sender, the recipient and the block producer. -/
def accessList (list : List AccessListItem) (opts : CallOpts) (payload : ExecutionPayload) :
    List AccessListItem :=
  list ++ [⟨opts.fromAddress.getD (zeroBytes 20), []⟩, ⟨opts.toAddress.getD (zeroBytes 20), []⟩,
    ⟨payload.feeRecipient, []⟩]

/-- Fetches the accounts one after the other; the chunks of the source only bound how many requests
    are in flight. -/
def fetchAccounts (payload : ExecutionPayload) : ExecutionWorld → List AccessListItem →
    Std.HashMap Address Account → Result (Std.HashMap Address Account)
  | _, [], accountMap => .ok accountMap
  | w, item :: rest, accountMap =>
    match getAccount c w item.address (some item.storageKeys) payload with
    | .error (.panic p) => .error (.panic p)
    | .error (.err _) => fetchAccounts payload (w.drop 2) rest accountMap
    | .ok account => fetchAccounts payload (w.drop 2) rest (accountMap.insert item.address account)

def batchFetchAccounts (w : ExecutionWorld) (db : ProofDB) (opts : CallOpts) :
    Result (Std.HashMap Address Account) :=
  let block := db.currentPayload.blockNumber
  match mapErr .evmRpcError (answer ((w 0).createAccessList opts block)) with
  | .error e => .error e
  | .ok list =>
    fetchAccounts c db.currentPayload (w.drop 1) (accessList list opts db.currentPayload) ∅

/-! ## What the database serves -/

variable {c}

/-- The databases of a run of `Evm`: a new one, and those with a batch of accounts set. -/
inductive ProofDB.Built (c : Crates) : ProofDB → Prop
  | new (currentPayload : ExecutionPayload) (payloads : Payloads) :
      Built c (ProofDB.new currentPayload payloads)
  | set {db : ProofDB} {w : ExecutionWorld} {opts : CallOpts}
      {accounts : Std.HashMap Address Account} : Built c db →
      batchFetchAccounts c w db opts = .ok accounts → Built c (db.setAccounts accounts)

/-- Every account of a map was checked for the address it stands under. -/
def AccountsProved (c : Crates) (payload : ExecutionPayload)
    (accounts : Std.HashMap Address Account) : Prop :=
  ∀ (address : Address) (account : Account), accounts[address]? = some account →
    AccountProved c payload address account

theorem fetchAccounts_proved (hempty : c.keccak256 [] = keccakEmpty)
    {payload : ExecutionPayload} :
    ∀ {list : List AccessListItem} {w : ExecutionWorld}
      {accountMap result : Std.HashMap Address Account},
      AccountsProved c payload accountMap →
        fetchAccounts c payload w list accountMap = .ok result → AccountsProved c payload result
  | [], _, _, _, hmap, h => by
    cases h
    exact hmap
  | item :: rest, w, accountMap, result, hmap, h => by
    rw [fetchAccounts] at h
    split at h
    · cases h
    · exact fetchAccounts_proved hempty hmap h
    · rename_i account haccount
      refine fetchAccounts_proved hempty (fun address found hfound => ?_) h
      rw [Std.HashMap.getElem?_insert] at hfound
      split at hfound
      · rename_i heq
        rw [beq_iff_eq] at heq
        cases hfound
        exact heq ▸ getAccount_proved hempty haccount
      · exact hmap address found hfound

/-- **The accounts of the database are checked**, each under its own address. -/
theorem built_proved (hempty : c.keccak256 [] = keccakEmpty) {db : ProofDB}
    (h : ProofDB.Built c db) : AccountsProved c db.currentPayload db.accounts := by
  cases h with
  | new currentPayload payloads =>
    intro address account h
    simp [ProofDB.new] at h
  | set hdb hfetch =>
    unfold batchFetchAccounts at hfetch
    simp only at hfetch
    split at hfetch
    · cases hfetch
    · exact fetchAccounts_proved hempty (fun address account h => by simp at h) hfetch

/-- A slot that the database serves is an accepted entry for that slot. -/
theorem storage_proved (hempty : c.keccak256 [] = keccakEmpty) {db : ProofDB}
    (hdb : ProofDB.Built c db) {w : ExecutionWorld} {address : Address} {slot value : U256}
    (h : db.storage c w address slot = .ok value) :
    ∃ account, AccountProved c db.currentPayload address account ∧
      account.slots[ProofDB.slotOf slot]? = some value := by
  have hfetch : ∀ {key : H256}, db.fetchSlot c w address key = .ok value →
      ∃ account, AccountProved c db.currentPayload address account ∧
        account.slots[key]? = some value := by
    intro key h
    unfold ProofDB.fetchSlot at h
    split at h
    · cases h
    rename_i account haccount
    split at h
    · rename_i v hv
      cases h
      exact ⟨account, getAccount_proved hempty haccount, hv⟩
    · cases h
  unfold ProofDB.storage at h
  simp only at h
  split at h
  · rename_i account haccount
    split at h
    · rename_i v hv
      cases h
      exact ⟨account, built_proved hempty hdb address account haccount, hv⟩
    · exact hfetch h
  · exact hfetch h

end Helios
