import Helios.Consensus.Types
import Std.Data.TreeMap

/-!
# Execution types and the execution RPC (`execution/src/types.rs`, `execution/src/rpc/mod.rs`)

* `Transaction`, `Log`, `TransactionReceipt`, `EIP1186ProofResponse`, `Account`,
  `ExecutionBlock` — the fields that no function here reads are kept as bytes.
* `Filter` — a request for logs, with the getters and setters of its block range.
* `ExecutionRpc` — the answers of the server at one moment; `ExecutionWorld` — the moments met one
  after the other.
* `Crates` — functions of other crates; `digestTable` — a hash function on finitely many inputs.
* `Payloads` — the verified payloads by block number.
-/

set_option autoImplicit false

namespace Helios

structure Transaction where
  hash : H256
  blockNumber : Option UInt64
  /-- The signed content. -/
  body : Bytes
  deriving DecidableEq

structure Log where
  address : Address
  topics : List H256
  data : Bytes
  blockHash : Option H256
  blockNumber : Option UInt64
  transactionHash : Option H256
  logIndex : Option U256
  /-- The other metadata. -/
  rest : Bytes
  deriving DecidableEq

structure TransactionReceipt where
  transactionHash : H256
  blockNumber : Option UInt64
  cumulativeGasUsed : U256
  logs : List Log
  status : Option UInt64
  logsBloom : Vector UInt8 256
  transactionType : Option UInt64
  /-- The other fields. -/
  rest : Bytes
  deriving DecidableEq

structure StorageProof where
  key : H256
  proof : List Bytes
  value : U256

structure EIP1186ProofResponse where
  address : Address
  balance : U256
  codeHash : H256
  nonce : UInt64
  storageHash : H256
  accountProof : List Bytes
  storageProof : List StorageProof

structure Account where
  balance : U256
  nonce : UInt64
  codeHash : H256
  code : Bytes
  storageHash : H256
  slots : Std.HashMap H256 U256

inductive Transactions where
  | hashes (hashes : List H256)
  | full (txs : List Transaction)
  deriving DecidableEq

structure ExecutionBlock where
  number : UInt64
  baseFeePerGas : U256
  difficulty : U256
  extraData : Bytes
  gasLimit : UInt64
  gasUsed : UInt64
  hash : H256
  logsBloom : Bytes
  miner : Address
  mixHash : H256
  nonce : String
  parentHash : H256
  receiptsRoot : H256
  sha3Uncles : H256
  size : UInt64
  stateRoot : H256
  timestamp : UInt64
  totalDifficulty : UInt64
  transactions : Transactions
  transactionsRoot : H256
  uncles : List H256

structure CallOpts where
  fromAddress : Option Address
  toAddress : Option Address
  gas : Option U256
  gasPrice : Option U256
  value : Option U256
  data : Option Bytes

structure AccessListItem where
  address : Address
  storageKeys : List H256

/-! ## Filters -/

inductive BlockNumber where
  | latest
  | finalized
  | safe
  | earliest
  | pending
  | number (num : UInt64)
  deriving DecidableEq

inductive FilterBlockOption where
  | range (fromBlock toBlock : Option BlockNumber)
  | atBlockHash (hash : H256)
  deriving DecidableEq

inductive ValueOrArray (α : Type) where
  | value (a : α)
  | array (as : List α)
  deriving DecidableEq

structure Filter where
  blockOption : FilterBlockOption
  address : Option (ValueOrArray Address)
  topics : Vector (Option (ValueOrArray (Option H256))) 4

namespace Filter

/-- The number of a numeric bound; a tag has none. -/
def blockNumber? : Option BlockNumber → Option UInt64
  | some (.number num) => some num
  | _ => none

def getFromBlock (filter : Filter) : Option UInt64 :=
  match filter.blockOption with
  | .range fromBlock _ => blockNumber? fromBlock
  | .atBlockHash _ => none

def getToBlock (filter : Filter) : Option UInt64 :=
  match filter.blockOption with
  | .range _ toBlock => blockNumber? toBlock
  | .atBlockHash _ => none

def getBlockHash (filter : Filter) : Option H256 :=
  match filter.blockOption with
  | .range _ _ => none
  | .atBlockHash hash => some hash

def toBlock (filter : Filter) (block : UInt64) : Filter :=
  match filter.blockOption with
  | .range fromBlock _ =>
    { filter with blockOption := .range fromBlock (some (.number block)) }
  | .atBlockHash _ => { filter with blockOption := .range none (some (.number block)) }

def fromBlock (filter : Filter) (block : UInt64) : Filter :=
  match filter.blockOption with
  | .range _ toBlock => { filter with blockOption := .range (some (.number block)) toBlock }
  | .atBlockHash _ => { filter with blockOption := .range (some (.number block)) none }

end Filter

/-! ## The outside -/

/-- What the execution server answers at one moment. -/
structure ExecutionRpc where
  getProof : Address → List H256 → UInt64 → Except Report EIP1186ProofResponse
  createAccessList : CallOpts → UInt64 → Except Report (List AccessListItem)
  getCode : Address → UInt64 → Except Report Bytes
  getTransactionReceipt : H256 → Except Report (Option TransactionReceipt)
  getTransaction : H256 → Except Report (Option Transaction)
  getLogs : Filter → Except Report (List Log) := fun _ => .error (.rpc "get_logs")
  sendRawTransaction : Bytes → Except Report H256 := fun _ =>
    .error (.rpc "send_raw_transaction")

/-- The moments met one after the other. -/
abbrev ExecutionWorld := Nat → ExecutionRpc

def ExecutionWorld.drop (w : ExecutionWorld) (n : Nat) : ExecutionWorld := fun i => w (i + n)

/-- Functions of other crates the execution client calls: the hash, the RLP list reader (none is
    its `expect` panicking), the ordered trie root and the encoding of a transaction, which is taken
    to return: it narrows the chain id of a typed transaction to 64 bits. -/
structure Crates where
  keccak256 : Bytes → Bytes32
  decodeList : Bytes → Option (List Bytes)
  orderedTrieRoot : List Bytes → Bytes32
  transactionRlp : Transaction → Bytes

/-- The hash as a byte string. -/
def Crates.hash (c : Crates) (b : Bytes) : Bytes := (c.keccak256 b).toList

theorem Crates.hash_length (c : Crates) (b : Bytes) : (c.hash b).length = 32 := by
  simp [Crates.hash]

/-- A hash function given by the digests of finitely many byte strings. -/
def digestTable (table : List (Bytes × Bytes32)) (b : Bytes) : Bytes32 :=
  match table.find? (fun entry => entry.1 == b) with
  | some entry => entry.2
  | none => zeroBytes 32

abbrev Payloads := Std.TreeMap UInt64 ExecutionPayload

end Helios
