import Helios.Client.Node
import Helios.Execution.Call
import Helios.Execution.Logs

/-!
# The queries of a node (`client/src/node.rs`)

Each query reads the clock where the source does; a query that fetches takes the moments of the
execution server it meets.

* `Crate` — the EVM of another crate, beside the functions of the execution client.
* `call`, `getBalance`, `getNonce`, `getCode`, `getBlockByNumber`,
  `getBlockTransactionCountByNumber` and, in the module of the node, `getStorageAt` — the queries
  that name a block by a tag.
* `getLogs`, `getFeeHistory`, `getGasPrice`, `syncing`, `getCoinbase`, … — the others.
-/

set_option autoImplicit false

namespace Helios

open OrderedMap

/-- The EVM, and its overestimate of the gas that was used (`(1.10 * gas as f64) as u64`). -/
structure EvmCrate where
  evm : Env → Program
  scaleGas : UInt64 → UInt64

variable (c : Crates) (e : EvmCrate)

namespace Node

def chainId (node : Node) : UInt64 := node.config.chain.chainId

/-- The database of a call on a payload. -/
def proofDB (node : Node) (payload : ExecutionPayload) : ProofDB :=
  ProofDB.new payload node.payloads

/-! ## Queries at a block tag -/

def call (node : Node) (now : UInt64) (w w' : ExecutionWorld) (opts : CallOpts)
    (block : BlockTag) : Result Bytes :=
  match node.checkBlocktagAge now block with
  | .error e => .error e
  | .ok () =>
    match node.getPayload block with
    | .error e => .error e
    | .ok payload => evmCall c e.evm w w' (node.proofDB payload) node.chainId opts

/-- A field of an account at a block. -/
def getAccountField {α : Type} (field : Account → α) (node : Node) (now : UInt64)
    (w : ExecutionWorld) (address : Address) (block : BlockTag) : Result α :=
  match node.checkBlocktagAge now block with
  | .error e => .error e
  | .ok () =>
    match node.getPayload block with
    | .error e => .error e
    | .ok payload =>
      match getAccount c w address none payload with
      | .error e => .error e
      | .ok account => .ok (field account)

def getBalance : Node → UInt64 → ExecutionWorld → Address → BlockTag → Result U256 :=
  getAccountField c Account.balance

def getNonce : Node → UInt64 → ExecutionWorld → Address → BlockTag → Result UInt64 :=
  getAccountField c Account.nonce

def getCode : Node → UInt64 → ExecutionWorld → Address → BlockTag → Result Bytes :=
  getAccountField c Account.code

def getBlockTransactionCountByNumber (node : Node) (block : BlockTag) : Result UInt64 :=
  match node.getPayload block with
  | .error e => .error e
  | .ok payload => .ok (UInt64.ofNat payload.transactions.length)

def getBlockByNumber (node : Node) (now : UInt64) (w : ExecutionWorld) (block : BlockTag)
    (fullTx : Bool) : Result (Option ExecutionBlock) :=
  match node.checkBlocktagAge now block with
  | .error e => .error e
  | .ok () =>
    match node.getPayload block with
    | .error _ => .ok none
    | .ok payload =>
      match getBlock c w payload fullTx with
      | .error e => .error e
      | .ok block => .ok (some block)

/-! ## Queries at a block hash -/

/-- The first payload that claims a hash. -/
def getPayloadByHash (node : Node) (hash : Bytes) : Result (UInt64 × ExecutionPayload) :=
  match node.payloads.toList.find? fun entry => decide (entry.2.blockHash.toList = hash) with
  | some entry => .ok entry
  | none => .error (.err (.message "Block not found by hash"))

def getBlockTransactionCountByHash (node : Node) (hash : Bytes) : Result UInt64 :=
  match node.getPayloadByHash hash with
  | .error e => .error e
  | .ok payload => .ok (UInt64.ofNat payload.2.transactions.length)

def getBlockByHash (node : Node) (w : ExecutionWorld) (hash : Bytes) (fullTx : Bool) :
    Result (Option ExecutionBlock) :=
  match node.getPayloadByHash hash with
  | .error _ => .ok none
  | .ok payload =>
    match getBlock c w payload.2 fullTx with
    | .error e => .error e
    | .ok block => .ok (some block)

def getTransactionByBlockHashAndIndex (node : Node) (rpc : ExecutionRpc) (hash : Bytes)
    (index : Nat) : Result (Option Transaction) :=
  match node.getPayloadByHash hash with
  | .error e => .error e
  | .ok payload => Helios.getTransactionByBlockHashAndIndex c rpc payload.2 index

/-! ## Other queries -/

def estimateGas (node : Node) (now : UInt64) (w w' : ExecutionWorld) (opts : CallOpts) :
    Result UInt64 :=
  match node.checkHeadAge now with
  | .error e => .error e
  | .ok () =>
    match node.getPayload .latest with
    | .error e => .error e
    | .ok payload =>
      Helios.estimateGas c e.evm e.scaleGas w w' (node.proofDB payload) node.chainId opts

def sendRawTransaction (_node : Node) (rpc : ExecutionRpc) (bytes : Bytes) : Result H256 :=
  answer (rpc.sendRawTransaction bytes)

def getTransactionReceipt (node : Node) (w : ExecutionWorld) (txHash : H256) :
    Result (Option TransactionReceipt) :=
  Helios.getTransactionReceipt c w txHash node.payloads

def getTransactionByHash (node : Node) (rpc : ExecutionRpc) (txHash : H256) :
    Result (Option Transaction) :=
  getTransaction c rpc txHash node.payloads

def getLogs (node : Node) (rpc : ExecutionRpc) (ws : Nat → ExecutionWorld) (filter : Filter) :
    Result (List Log) :=
  Helios.getLogs c rpc ws filter node.payloads

def getFeeHistory (node : Node) (blockCount lastBlock : UInt64) : Result (Option FeeHistory) :=
  Helios.getFeeHistory blockCount lastBlock node.payloads

/-- One gwei. -/
def gasTip : U256 := 1000000000

/-- The sum of two words (`U256` panics on overflow, also in the release profile). -/
def addWords (a b : U256) : Result U256 :=
  if a.toNat + b.toNat < 2 ^ 256 then .ok (a + b) else .error (.panic .integerOverflow)

def getGasPrice (node : Node) (now : UInt64) : Result U256 :=
  match node.checkHeadAge now with
  | .error e => .error e
  | .ok () =>
    match node.getPayload .latest with
    | .error e => .error e
    | .ok payload => addWords payload.baseFeePerGas gasTip

def getPriorityFee (_node : Node) : Result U256 := .ok gasTip

def getBlockNumber (node : Node) (now : UInt64) : Result UInt64 :=
  match node.checkHeadAge now with
  | .error e => .error e
  | .ok () =>
    match node.getPayload .latest with
    | .error e => .error e
    | .ok payload => .ok payload.blockNumber

inductive SyncingStatus where
  | isFalse
  | isSyncing (currentBlock highestBlock startingBlock : UInt64)
  deriving DecidableEq

/-- The clock is read up to three times. -/
def syncing (node : Node) (now now' now'' : UInt64) : Result SyncingStatus :=
  match node.checkHeadAge now with
  | .error (.panic p) => .error (.panic p)
  | .ok () => .ok .isFalse
  | .error (.err _) =>
    match node.getBlockNumber now' with
    | .error e => .error e
    | .ok latestSyncedBlock =>
      let oldestSyncedBlock := (firstKey? node.payloads).getD latestSyncedBlock
      match node.consensus.expectedCurrentSlot now'' with
      | .error e => .error e
      | .ok highestBlock => .ok (.isSyncing latestSyncedBlock highestBlock oldestSyncedBlock)

def getCoinbase (node : Node) (now : UInt64) : Result Address :=
  match node.checkHeadAge now with
  | .error e => .error e
  | .ok () =>
    match node.getPayload .latest with
    | .error e => .error e
    | .ok payload => .ok payload.feeRecipient

end Node

end Helios
