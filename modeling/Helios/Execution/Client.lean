import Helios.Execution.Proof
import Helios.Lib.Hex

/-!
# The execution client (`execution/src/execution.rs`)

Each request of a call is answered at its own moment.

* `getAccount` — an account with its storage slots and code, each checked against the state root.
* `getTransaction` and the two functions built on it, `getTransactionByBlockHashAndIndex` and
  `getBlock`.
* `getTransactionReceipt`, `encodeReceipt`.
-/

set_option autoImplicit false

namespace Helios

variable (c : Crates)

/-- `"0x"` and the digits (`encode_hex`). -/
def encodeHex (bytes : Bytes) : List Char := '0' :: 'x' :: Hex.encode bytes

/-- `s.strip_prefix("0x")` -/
def strip0x : List Char → Option (List Char)
  | '0' :: 'x' :: rest => some rest
  | _ => none

def hexStrToBytes (s : List Char) : Result Bytes :=
  let stripped := match s with
    | '0' :: 'x' :: rest => rest
    | s => s
  match Hex.decode stripped with
  | some bytes => .ok bytes
  | none => .error (.err .hex)

theorem hexStrToBytes_encodeHex (bytes : Bytes) : hexStrToBytes (encodeHex bytes) = .ok bytes := by
  simp only [hexStrToBytes, encodeHex, Hex.decode_encode]

/-! ## Accounts -/

/-- `KECCAK_EMPTY`, the hash of no code. -/
def keccakEmpty : H256 :=
  beBytes 32 0xc5d2460186f7233c927e7db2dcc703c0e500b653ca82273b7bfad8045d85a470

/-- The RLP of a storage value (`encode(&value)`). -/
def encodeValue (value : U256) : Bytes := Rlp.encodeStr (Rlp.natBytes value.toNat)

/-- The loop of `get_account` over the storage proofs of the response. -/
def verifySlots (address : Address) (storageHash : H256) :
    List StorageProof → Std.HashMap H256 U256 → Result (Std.HashMap H256 U256)
  | [], slotMap => .ok slotMap
  | storageProof :: rest, slotMap =>
    match hexStrToBytes (encodeHex storageProof.key.toList) with
    | .error e => .error e
    | .ok key =>
      let value := encodeValue storageProof.value
      let keyHash := c.keccak256 key
      match verifyProof c storageProof.proof storageHash.toList keyHash.toList value with
      | .error e => .error e
      | .ok isValid =>
        if isValid = false then
          .error (.err (.execution (.invalidStorageProof address storageProof.key)))
        else
          verifySlots address storageHash rest (slotMap.insert storageProof.key storageProof.value)

/-- The code of an account; the request is not made when the response says there is none. -/
def fetchCode (rpc : ExecutionRpc) (address : Address) (blockNumber : UInt64)
    (expected : H256) : Result Bytes :=
  if expected = keccakEmpty then .ok []
  else
    match answer (rpc.getCode address blockNumber) with
    | .error e => .error e
    | .ok code =>
      let codeHash := c.keccak256 code
      if expected ≠ codeHash then
        .error (.err (.execution (.codeHashMismatch address codeHash expected)))
      else .ok code

def getAccount (w : ExecutionWorld) (address : Address) (slots : Option (List H256))
    (payload : ExecutionPayload) : Result Account :=
  let slots := slots.getD []
  match answer ((w 0).getProof address slots payload.blockNumber) with
  | .error e => .error e
  | .ok proof =>
    let accountPath := c.keccak256 address.toList
    let accountEncoded := encodeAccount proof
    match verifyProof c proof.accountProof payload.stateRoot.toList accountPath.toList
        accountEncoded with
    | .error e => .error e
    | .ok isValid =>
      if isValid = false then .error (.err (.execution (.invalidAccountProof address)))
      else
        match verifySlots c address proof.storageHash proof.storageProof ∅ with
        | .error e => .error e
        | .ok slotMap =>
          match fetchCode c (w 1) address payload.blockNumber proof.codeHash with
          | .error e => .error e
          | .ok code =>
            .ok { balance := proof.balance
                  nonce := proof.nonce
                  code := code
                  codeHash := proof.codeHash
                  storageHash := proof.storageHash
                  slots := slotMap }

/-! ## Transactions -/

def getTransaction (rpc : ExecutionRpc) (hash : H256) (payloads : Payloads) :
    Result (Option Transaction) :=
  match answer (rpc.getTransaction hash) with
  | .error e => .error e
  | .ok none => .ok none
  | .ok (some tx) =>
    match tx.blockNumber with
    | none => .ok none
    | some blockNumber =>
      match payloads[blockNumber]? with
      | none => .ok none
      | some payload =>
        let txEncoded := c.transactionRlp tx
        if ¬ payload.transactions.contains txEncoded then
          .error (.err (.execution (.missingTransaction hash)))
        else .ok (some tx)

/-- `ok_or(eyre!("not reachable"))` -/
def orNotReachable {α : Type} : Result (Option α) → Result α
  | .error e => .error e
  | .ok none => .error (.err (.message "not reachable"))
  | .ok (some a) => .ok a

theorem orNotReachable_ok {α : Type} {r : Result (Option α)} {a : α} :
    orNotReachable r = .ok a ↔ r = .ok (some a) := by
  rcases r with e | _ | b <;> simp [orNotReachable]

/-- The map that holds one payload. -/
def singlePayload (payload : ExecutionPayload) : Payloads :=
  (∅ : Payloads).insert payload.blockNumber payload

theorem singlePayload_getElem? {payload found : ExecutionPayload} {blockNumber : UInt64}
    (h : (singlePayload payload)[blockNumber]? = some found) : found = payload := by
  rw [singlePayload, Std.TreeMap.getElem?_insert] at h
  split at h
  · exact (Option.some.inj h).symm
  · simp at h

def getTransactionByBlockHashAndIndex (rpc : ExecutionRpc) (payload : ExecutionPayload)
    (index : Nat) : Result (Option Transaction) :=
  match payload.transactions[index]? with
  | none => .error (.panic .indexOutOfBounds)
  | some tx =>
    let txHash := c.keccak256 tx
    match orNotReachable (getTransaction c rpc txHash (singlePayload payload)) with
    | .error e => .error e
    | .ok tx => .ok (some tx)

/-- The hashes of the transactions of a payload. -/
def txHashes (payload : ExecutionPayload) : List H256 := payload.transactions.map c.keccak256

/-- The transactions of a full block, each asked for at its own moment. -/
def fetchTransactions (w : ExecutionWorld) (payload : ExecutionPayload) :
    Result (List Transaction) :=
  collectResults
    (fun request : Nat × H256 =>
      orNotReachable (getTransaction c (w request.1) request.2 (singlePayload payload)))
    ((txHashes c payload).mapIdx fun i hash => (i, hash))

def emptyUncleHash : H256 :=
  beBytes 32 0x1dcc4de8dec75d7aab85b567b6ccd41ad312451b948a7413f0a142fd40d49347

def getBlock (w : ExecutionWorld) (payload : ExecutionPayload) (fullTx : Bool) :
    Result ExecutionBlock :=
  let txs : Result Transactions :=
    if fullTx then
      match fetchTransactions c w payload with
      | .error e => .error e
      | .ok txs => .ok (.full txs)
    else .ok (.hashes (txHashes c payload))
  match txs with
  | .error e => .error e
  | .ok txs =>
    .ok { number := payload.blockNumber
          baseFeePerGas := payload.baseFeePerGas
          difficulty := 0
          extraData := payload.extraData
          gasLimit := payload.gasLimit
          gasUsed := payload.gasUsed
          hash := payload.blockHash
          logsBloom := payload.logsBloom.toList
          miner := payload.feeRecipient
          parentHash := payload.parentHash
          receiptsRoot := payload.receiptsRoot
          stateRoot := payload.stateRoot
          timestamp := payload.timestamp
          totalDifficulty := 0
          transactions := txs
          mixHash := payload.prevRandao
          nonce := "0x0000000000000000"
          sha3Uncles := emptyUncleHash
          size := 0
          transactionsRoot := zeroBytes 32
          uncles := [] }

/-! ## Receipts -/

/-- The RLP of a log: its address, topics and data. -/
def logItem (log : Log) : Rlp.Item :=
  .list [.str log.address.toList, .list (log.topics.map fun topic => .str topic.toList),
    .str log.data]

/-- The untyped encoding of a receipt. -/
def legacyReceipt (status : UInt64) (receipt : TransactionReceipt) : Rlp.Item :=
  .list [.str (Rlp.natBytes status.toNat), .str (Rlp.natBytes receipt.cumulativeGasUsed.toNat),
    .str receipt.logsBloom.toList, .list (receipt.logs.map logItem)]

/-- `encode_receipt`.  A byte string of `2 ^ 63` bytes or more exceeds what a `Vec` can hold. -/
def encodeReceipt (receipt : TransactionReceipt) : Result Bytes :=
  match receipt.status with
  | none => .error (.panic .receiptFieldUnwrap)
  | some status =>
    let legacyReceiptEncoded := (legacyReceipt status receipt).encode
    if 2 ^ 63 ≤ legacyReceiptEncoded.length then .error (.panic .capacityOverflow)
    else
      match receipt.transactionType with
      | none => .error (.panic .receiptFieldUnwrap)
      | some txType =>
        if txType = 0 then .ok legacyReceiptEncoded
        -- `tx_type.to_be_bytes()[7..8]`, the lowest byte
        else .ok (txType.toUInt8 :: legacyReceiptEncoded)

/-- The receipts of the transactions of a payload, each asked for at its own moment. -/
def fetchReceipts (w : ExecutionWorld) (payload : ExecutionPayload) :
    Result (List TransactionReceipt) :=
  collectResults
    (fun request : Nat × H256 =>
      orNotReachable (answer ((w request.1).getTransactionReceipt request.2)))
    ((txHashes c payload).mapIdx fun i hash => (i, hash))

def getTransactionReceipt (w : ExecutionWorld) (txHash : H256) (payloads : Payloads) :
    Result (Option TransactionReceipt) :=
  match answer ((w 0).getTransactionReceipt txHash) with
  | .error e => .error e
  | .ok none => .ok none
  | .ok (some receipt) =>
    match receipt.blockNumber with
    | none => .error (.panic .receiptFieldUnwrap)
    | some blockNumber =>
      match payloads[blockNumber]? with
      | none => .ok none
      | some payload =>
        match fetchReceipts c (w.drop 1) payload with
        | .error e => .error e
        | .ok receipts =>
          match collectResults encodeReceipt receipts with
          | .error e => .error e
          | .ok receiptsEncoded =>
            let expectedReceiptRoot := c.orderedTrieRoot receiptsEncoded
            let payloadReceiptRoot := payload.receiptsRoot
            if expectedReceiptRoot ≠ payloadReceiptRoot ∨ receipt ∉ receipts then
              .error (.err (.execution (.receiptRootMismatch txHash)))
            else .ok (some receipt)

end Helios
