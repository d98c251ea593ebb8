import Helios.Execution.Client

/-!
# What an account answer proves

* `SlotProved`, `AccountProved` — the parts of an account that were checked, and against what.
* `verifySlots_proved` — the loop invariant: whatever the server sends, every entry of the map was
  checked under the one storage hash.
* `getAccount_proved` — **an account answer is checked in every field**.
-/

set_option autoImplicit false

namespace Helios

variable {c : Crates} {address : Address} {payload : ExecutionPayload}

/-- A storage slot was accepted under a storage hash. -/
def SlotProved (c : Crates) (storageHash : H256) (slot : H256) (value : U256) : Prop :=
  ∃ proof, verifyProof c proof storageHash.toList (c.keccak256 slot.toList).toList
    (encodeValue value) = .ok true

/-- Every field of an account was accepted: the four that its RLP holds under the state root of the
    payload, the slots under the account's own storage hash, and the code under its hash. -/
structure AccountProved (c : Crates) (payload : ExecutionPayload) (address : Address)
    (account : Account) : Prop where
  fields : ∃ proof, verifyProof c proof payload.stateRoot.toList
    (c.keccak256 address.toList).toList
    (accountRlp account.nonce account.balance account.storageHash account.codeHash) = .ok true
  slots : ∀ slot value, account.slots[slot]? = some value →
    SlotProved c account.storageHash slot value
  code : c.keccak256 account.code = account.codeHash

/-- The map holds accepted entries only. -/
def SlotsProved (c : Crates) (storageHash : H256) (slotMap : Std.HashMap H256 U256) : Prop :=
  ∀ slot value, slotMap[slot]? = some value → SlotProved c storageHash slot value

theorem SlotsProved.insert {storageHash : H256} {slotMap : Std.HashMap H256 U256}
    (h : SlotsProved c storageHash slotMap) {key : H256} {value : U256}
    (hkey : SlotProved c storageHash key value) :
    SlotsProved c storageHash (slotMap.insert key value) := by
  intro slot v hslot
  rw [Std.HashMap.getElem?_insert] at hslot
  split at hslot
  · rename_i heq
    rw [beq_iff_eq] at heq
    cases hslot
    exact heq ▸ hkey
  · exact h slot v hslot

/-- One pass through the loop: the proof is accepted for the key as sent. -/
theorem verifySlots_cons_iff {storageHash : H256} {storageProof : StorageProof}
    {rest : List StorageProof} {slotMap result : Std.HashMap H256 U256} :
    verifySlots c address storageHash (storageProof :: rest) slotMap = .ok result ↔
      verifyProof c storageProof.proof storageHash.toList
          (c.keccak256 storageProof.key.toList).toList (encodeValue storageProof.value) =
        .ok true ∧
      verifySlots c address storageHash rest
        (slotMap.insert storageProof.key storageProof.value) = .ok result := by
  rw [verifySlots, hexStrToBytes_encodeHex]
  simp only
  split
  · rename_i e hvalid
    simp [hvalid]
  · rename_i isValid hvalid
    cases isValid <;> simp [hvalid]

theorem verifySlots_proved {storageHash : H256} :
    ∀ {proofs : List StorageProof} {slotMap result : Std.HashMap H256 U256},
      SlotsProved c storageHash slotMap →
        verifySlots c address storageHash proofs slotMap = .ok result →
          SlotsProved c storageHash result
  | [], _, _, hmap, h => by
    cases h
    exact hmap
  | _ :: _, _, _, hmap, h => by
    obtain ⟨hslot, hrest⟩ := verifySlots_cons_iff.1 h
    exact verifySlots_proved (hmap.insert ⟨_, hslot⟩) hrest

/-- Code is returned only under its hash; `KECCAK_EMPTY` is the hash of no code. -/
theorem fetchCode_hash (hempty : c.keccak256 [] = keccakEmpty) {rpc : ExecutionRpc}
    {blockNumber : UInt64} {expected : H256} {code : Bytes}
    (h : fetchCode c rpc address blockNumber expected = .ok code) : c.keccak256 code = expected := by
  unfold fetchCode at h
  split at h
  · rename_i he
    cases h
    rw [he, hempty]
  · split at h
    · cases h
    simp only at h
    split at h
    · cases h
    · rename_i hne
      cases h
      exact (not_not.1 hne).symm

/-- The checks of an answer, and the account it becomes. -/
theorem getAccount_ok_iff {w : ExecutionWorld} {slots : Option (List H256)} {account : Account} :
    getAccount c w address slots payload = .ok account ↔
      ∃ proof slotMap code,
        answer ((w 0).getProof address (slots.getD []) payload.blockNumber) = .ok proof ∧
        verifyProof c proof.accountProof payload.stateRoot.toList
          (c.keccak256 address.toList).toList (encodeAccount proof) = .ok true ∧
        verifySlots c address proof.storageHash proof.storageProof ∅ = .ok slotMap ∧
        fetchCode c (w 1) address payload.blockNumber proof.codeHash = .ok code ∧
        account = ⟨proof.balance, proof.nonce, proof.codeHash, code, proof.storageHash, slotMap⟩ := by
  constructor
  · intro h
    unfold getAccount at h
    simp only at h
    split at h
    · cases h
    rename_i proof hproof
    split at h
    · cases h
    rename_i isValid hvalid
    split at h
    · cases h
    rename_i htrue
    rw [Bool.not_eq_false] at htrue
    split at h
    · cases h
    rename_i slotMap hslots
    split at h
    · cases h
    rename_i code hcode
    cases h
    exact ⟨proof, slotMap, code, hproof, htrue ▸ hvalid, hslots, hcode, rfl⟩
  · rintro ⟨proof, slotMap, code, hproof, hvalid, hslots, hcode, rfl⟩
    simp only [getAccount, hproof, hvalid, Bool.true_eq_false, if_false, hslots, hcode]

/-- **Every field of an account answer is checked**, whatever the server sends. -/
theorem getAccount_proved (hempty : c.keccak256 [] = keccakEmpty) {w : ExecutionWorld}
    {slots : Option (List H256)} {account : Account}
    (h : getAccount c w address slots payload = .ok account) :
    AccountProved c payload address account := by
  obtain ⟨proof, slotMap, code, _, hvalid, hslots, hcode, rfl⟩ := getAccount_ok_iff.1 h
  refine ⟨⟨proof.accountProof, hvalid⟩, ?_, fetchCode_hash hempty hcode⟩
  exact verifySlots_proved (fun slot value h => by simp at h) hslots

end Helios
