import Helios.Client.Node
import Helios.Execution.ChainState

/-!
# Account and storage answers

* `getStorageAt_proved` — a slot served by the node was accepted for that slot.
* `account_answers_authenticated` — **every account answer, and every slot that the node or the
  proof database serves, is authenticated** under the state root of its payload.
-/

set_option autoImplicit false

namespace Helios

variable {c : Crates}

theorem getStorageAt_proved (hempty : c.keccak256 [] = keccakEmpty) {node : Node} {now : UInt64}
    {w : ExecutionWorld} {address : Address} {slot : H256} {block : BlockTag} {value : U256}
    (h : node.getStorageAt c now w address slot block = .ok value) :
    ∃ payload account, node.getPayload block = .ok payload ∧
      AccountProved c payload address account ∧ account.slots[slot]? = some value := by
  unfold Node.getStorageAt at h
  split at h
  · cases h
  split at h
  · cases h
  rename_i payload hpayload
  split at h
  · cases h
  rename_i account haccount
  split at h
  · rename_i found hfound
    cases h
    exact ⟨payload, account, hpayload, getAccount_proved hempty haccount, hfound⟩
  · cases h

/-- **Account answers are fully authenticated**, whatever the server sends: the account that
    `get_account` returns was accepted in every field, and a slot that `get_storage_at` or the proof
    database returns is an entry of such an account, accepted for the slot that was asked for. -/
theorem account_answers_authenticated (c : Crates) (hempty : c.keccak256 [] = keccakEmpty) :
    (∀ (w : ExecutionWorld) (address : Address) (slots : Option (List H256))
      (payload : ExecutionPayload) (account : Account),
      getAccount c w address slots payload = .ok account →
        AccountProved c payload address account) ∧
    (∀ (node : Node) (now : UInt64) (w : ExecutionWorld) (address : Address) (slot : H256)
      (block : BlockTag) (value : U256),
      node.getStorageAt c now w address slot block = .ok value →
        ∃ payload account, node.getPayload block = .ok payload ∧
          AccountProved c payload address account ∧ account.slots[slot]? = some value ∧
          SlotProved c account.storageHash slot value) ∧
    (∀ (db : ProofDB) (w : ExecutionWorld) (address : Address) (slot value : U256),
      ProofDB.Built c db → db.storage c w address slot = .ok value →
        ∃ account, AccountProved c db.currentPayload address account ∧
          account.slots[ProofDB.slotOf slot]? = some value ∧
          SlotProved c account.storageHash (ProofDB.slotOf slot) value) := by
  refine ⟨fun w address slots payload account => getAccount_proved hempty, ?_, ?_⟩
  · intro node now w address slot block value h
    obtain ⟨payload, account, hpayload, haccount, hslot⟩ := getStorageAt_proved hempty h
    exact ⟨payload, account, hpayload, haccount, hslot, haccount.slots slot value hslot⟩
  · intro db w address slot value hdb h
    obtain ⟨account, haccount, hslot⟩ := storage_proved hempty hdb h
    exact ⟨account, haccount, hslot, haccount.slots _ value hslot⟩

/-! ## An account with one slot -/

/-- `keccak256` on the address, the slot, the two leaves and no code. -/
def sampleCrates : Crates where
  keccak256 := digestTable [([], keccakEmpty), (sampleAddress.toList, sampleAddressHash),
    (sampleSlot.toList, sampleSlotHash), (sampleSlotLeaf, sampleStorageHash),
    (sampleAccountLeaf, sampleStateRoot)]
  decodeList := readList
  orderedTrieRoot := fun _ => zeroBytes 32
  transactionRlp := Transaction.body

def samplePayload : ExecutionPayload :=
  { (default : ExecutionPayload) with stateRoot := sampleStateRoot }

/-- A server that proves the account and its slot, and echoes another address. -/
def sampleRpc : ExecutionRpc where
  getProof := fun _ _ _ => .ok
    { address := zeroBytes 20, balance := 1000000000000000000, codeHash := keccakEmpty
      nonce := 1, storageHash := sampleStorageHash, accountProof := [sampleAccountLeaf]
      storageProof := [⟨sampleSlot, [sampleSlotLeaf], 5⟩] }
  createAccessList := fun _ _ => .error (.rpc "create_access_list")
  getCode := fun _ _ => .error (.rpc "get_code")
  getTransactionReceipt := fun _ => .ok none
  getTransaction := fun _ => .ok none

def sampleAccount : Account where
  balance := 1000000000000000000
  nonce := 1
  codeHash := keccakEmpty
  code := []
  storageHash := sampleStorageHash
  slots := (∅ : Std.HashMap H256 U256).insert sampleSlot 5

theorem sampleAccount_ok :
    getAccount sampleCrates (fun _ => sampleRpc) sampleAddress (some [sampleSlot]) samplePayload =
      .ok sampleAccount := by
  have haccount : verifyProof sampleCrates [sampleAccountLeaf] sampleStateRoot.toList
      (sampleCrates.keccak256 sampleAddress.toList).toList
      (accountRlp 1 1000000000000000000 sampleStorageHash keccakEmpty) = .ok true := by
    decide +kernel
  have hslot : verifyProof sampleCrates [sampleSlotLeaf] sampleStorageHash.toList
      (sampleCrates.keccak256 sampleSlot.toList).toList (encodeValue 5) = .ok true := by
    decide +kernel
  simp only [getAccount, sampleRpc, answer, encodeAccount, samplePayload, haccount,
    Bool.true_eq_false, if_false, verifySlots, hexStrToBytes_encodeHex, hslot, fetchCode, if_true,
    sampleAccount]

theorem sampleCrates_empty : sampleCrates.keccak256 [] = keccakEmpty := by
  decide +kernel

theorem account_answers_sample :
    AccountProved sampleCrates samplePayload sampleAddress sampleAccount :=
  (account_answers_authenticated sampleCrates sampleCrates_empty).1 (fun _ => sampleRpc)
    sampleAddress (some [sampleSlot]) samplePayload sampleAccount sampleAccount_ok

end Helios
