import Helios.Client.Staleness
import Helios.Execution.Panics

/-!
# The JSON-RPC server (`client/src/rpc.rs`)

The handlers of the `eth` namespace, over the queries of the node, and the panics they reach.
`convert_err` only turns a report into text, and is left out.

* `RpcCrate` — the functions of other crates that read the arguments and render a revert.
* `RpcInner.getBalance`, … — the handlers.
* `EthRequest`, `Returns` — a request of the namespace, and that its handler comes back with a value
  or an error.
* `Trips` — a condition on the node, the clock, the request and the server's answers;
  `rpc_returns_iff` — **a request comes back exactly when it does not trip**.
* `requests_crash` — four requests that end the client, two of them before the first sync.
-/

set_option autoImplicit false

namespace Helios

open OrderedMap

/-- `Address::from_str`, and the decoder of strings of the ABI. -/
structure RpcCrate where
  addressFromStr : List Char → Option Address
  decodeString : Bytes → Option String

variable (c : Crates) (e : EvmCrate) (x : RpcCrate)

/-! ## Arguments and answers -/

def parseAddress (address : List Char) : Result Address :=
  match x.addressFromStr address with
  | some address => .ok address
  | none => .error (.err .hex)

/-- `H256::from_slice` -/
def h256FromSlice (bytes : Bytes) : Result H256 :=
  if h : bytes.length = 32 then .ok ⟨bytes.toArray, by rw [List.size_toArray, h]⟩
  else .error (.panic .hashLength)

def u64ToHexString (val : UInt64) : List Char := '0' :: 'x' :: Nat.toDigits 16 val.toNat

def formatHex (num : U256) : Result (List Char) :=
  match strip0x (encodeHex (beBytes 32 num.toNat).toList) with
  | none => .error (.panic .hexPrefixUnwrap)
  | some digits =>
    let stripped := digits.dropWhile (· = '0')
    let stripped := if stripped.isEmpty then ['0'] else stripped
    .ok ('0' :: 'x' :: stripped)

/-- `&data[n..]` -/
def sliceFrom (data : Bytes) (n : Nat) : Result Bytes :=
  if n ≤ data.length then .ok (data.drop n) else .error (.panic .indexOutOfBounds)

def decodeRevertReason (data : Bytes) : Result (Option String) :=
  -- skip function selector
  if data.length < 4 then .ok none
  else (sliceFrom data 4).map x.decodeString

/-- The error of a revert carries its reason and its data; the others are only rendered. -/
def toJsonRpseeError : Fault → Fault
  | .err (.evmRevert (some data)) =>
    match decodeRevertReason x data with
    | .error fault => fault
    | .ok reason => .err (.reverted reason (some data))
  | .err (.evmRevert none) => .err (.reverted none none)
  | fault => fault

/-! ## Handlers -/

namespace RpcInner

/-- A query about the account of an address. -/
def accountQuery {α : Type} (query : Address → Result α) (address : List Char) : Result α :=
  (parseAddress x address).bind query

def getBalance (node : Node) (now : UInt64) (w : ExecutionWorld) (address : List Char)
    (block : BlockTag) : Result (List Char) :=
  (accountQuery x (fun address => node.getBalance c now w address block) address).bind formatHex

def getTransactionCount (node : Node) (now : UInt64) (w : ExecutionWorld) (address : List Char)
    (block : BlockTag) : Result (List Char) :=
  (accountQuery x (fun address => node.getNonce c now w address block) address).map u64ToHexString

def getBlockTransactionCountByHash (node : Node) (hash : List Char) : Result (List Char) :=
  (hexStrToBytes hash).bind fun hash =>
    (node.getBlockTransactionCountByHash hash).map u64ToHexString

def getBlockTransactionCountByNumber (node : Node) (block : BlockTag) : Result (List Char) :=
  (node.getBlockTransactionCountByNumber block).map u64ToHexString

def getCode (node : Node) (now : UInt64) (w : ExecutionWorld) (address : List Char)
    (block : BlockTag) : Result (List Char) :=
  (accountQuery x (fun address => node.getCode c now w address block) address).map encodeHex

def call (node : Node) (now : UInt64) (w w' : ExecutionWorld) (opts : CallOpts)
    (block : BlockTag) : Result (List Char) :=
  ((node.call c e now w w' opts block).mapError (toJsonRpseeError x)).map encodeHex

def estimateGas (node : Node) (now : UInt64) (w w' : ExecutionWorld) (opts : CallOpts) :
    Result (List Char) :=
  ((node.estimateGas c e now w w' opts).mapError (toJsonRpseeError x)).map u64ToHexString

def chainId (node : Node) : Result (List Char) := .ok (u64ToHexString node.chainId)

def gasPrice (node : Node) (now : UInt64) : Result (List Char) :=
  (node.getGasPrice now).bind formatHex

def maxPriorityFeePerGas (node : Node) : Result (List Char) := node.getPriorityFee.bind formatHex

def blockNumber (node : Node) (now : UInt64) : Result (List Char) :=
  (node.getBlockNumber now).map u64ToHexString

def getBlockByNumber (node : Node) (now : UInt64) (w : ExecutionWorld) (block : BlockTag)
    (fullTx : Bool) : Result (Option ExecutionBlock) :=
  node.getBlockByNumber c now w block fullTx

def getBlockByHash (node : Node) (w : ExecutionWorld) (hash : List Char) (fullTx : Bool) :
    Result (Option ExecutionBlock) :=
  (hexStrToBytes hash).bind fun hash => node.getBlockByHash c w hash fullTx

def sendRawTransaction (node : Node) (rpc : ExecutionRpc) (bytes : List Char) :
    Result (List Char) :=
  (hexStrToBytes bytes).bind fun bytes =>
    (node.sendRawTransaction rpc bytes).map fun txHash => Hex.encode txHash.toList

/-- The argument of a handler that reads a transaction hash. -/
def transactionHash (hash : List Char) : Result H256 := (hexStrToBytes hash).bind h256FromSlice

def getTransactionReceipt (node : Node) (w : ExecutionWorld) (hash : List Char) :
    Result (Option TransactionReceipt) :=
  (transactionHash hash).bind fun hash => node.getTransactionReceipt c w hash

def getTransactionByHash (node : Node) (rpc : ExecutionRpc) (hash : List Char) :
    Result (Option Transaction) :=
  (transactionHash hash).bind fun hash => node.getTransactionByHash c rpc hash

def getTransactionByBlockHashAndIndex (node : Node) (rpc : ExecutionRpc) (hash : List Char)
    (index : Nat) : Result (Option Transaction) :=
  (hexStrToBytes hash).bind fun hash => node.getTransactionByBlockHashAndIndex c rpc hash index

/-- The source unwraps the answer of the node. -/
def coinbase (node : Node) (now : UInt64) : Result Address :=
  match node.getCoinbase now with
  | .ok address => .ok address
  | .error (.panic p) => .error (.panic p)
  | .error (.err _) => .error (.panic .coinbaseUnwrap)

def syncing (node : Node) (now now' now'' : UInt64) : Result Node.SyncingStatus :=
  node.syncing now now' now''

def getLogs (node : Node) (rpc : ExecutionRpc) (ws : Nat → ExecutionWorld) (filter : Filter) :
    Result (List Log) :=
  node.getLogs c rpc ws filter

def getStorageAt (node : Node) (now : UInt64) (w : ExecutionWorld) (address : List Char)
    (slot : H256) (block : BlockTag) : Result (List Char) :=
  (accountQuery x (fun address => node.getStorageAt c now w address slot block) address).bind
    formatHex

end RpcInner

/-- The requests of the namespace. -/
inductive EthRequest where
  | getBalance (address : List Char) (block : BlockTag)
  | getTransactionCount (address : List Char) (block : BlockTag)
  | getBlockTransactionCountByHash (hash : List Char)
  | getBlockTransactionCountByNumber (block : BlockTag)
  | getCode (address : List Char) (block : BlockTag)
  | call (opts : CallOpts) (block : BlockTag)
  | estimateGas (opts : CallOpts)
  | chainId
  | gasPrice
  | maxPriorityFeePerGas
  | blockNumber
  | getBlockByNumber (block : BlockTag) (fullTx : Bool)
  | getBlockByHash (hash : List Char) (fullTx : Bool)
  | sendRawTransaction (bytes : List Char)
  | getTransactionReceipt (hash : List Char)
  | getTransactionByHash (hash : List Char)
  | getTransactionByBlockHashAndIndex (hash : List Char) (index : Nat)
  | getLogs (filter : Filter)
  | getStorageAt (address : List Char) (slot : H256) (block : BlockTag)
  | coinbase
  | syncing

/-- What a request meets: the readings of the clock, and the moments of the server, before the EVM
    runs, while it runs, and for each of the logs. -/
structure Surroundings where
  clock : Nat → UInt64
  w : ExecutionWorld
  evm : ExecutionWorld
  logs : Nat → ExecutionWorld

/-- The handler comes back with a value or an error. -/
def Returns (c : Crates) (e : EvmCrate) (x : RpcCrate) (node : Node) (s : Surroundings) :
    EthRequest → Prop
  | .getBalance address block => ¬ Panics (RpcInner.getBalance c x node (s.clock 0) s.w address block)
  | .getTransactionCount address block =>
    ¬ Panics (RpcInner.getTransactionCount c x node (s.clock 0) s.w address block)
  | .getBlockTransactionCountByHash hash =>
    ¬ Panics (RpcInner.getBlockTransactionCountByHash node hash)
  | .getBlockTransactionCountByNumber block =>
    ¬ Panics (RpcInner.getBlockTransactionCountByNumber node block)
  | .getCode address block => ¬ Panics (RpcInner.getCode c x node (s.clock 0) s.w address block)
  | .call opts block => ¬ Panics (RpcInner.call c e x node (s.clock 0) s.w s.evm opts block)
  | .estimateGas opts => ¬ Panics (RpcInner.estimateGas c e x node (s.clock 0) s.w s.evm opts)
  | .chainId => ¬ Panics (RpcInner.chainId node)
  | .gasPrice => ¬ Panics (RpcInner.gasPrice node (s.clock 0))
  | .maxPriorityFeePerGas => ¬ Panics (RpcInner.maxPriorityFeePerGas node)
  | .blockNumber => ¬ Panics (RpcInner.blockNumber node (s.clock 0))
  | .getBlockByNumber block fullTx =>
    ¬ Panics (RpcInner.getBlockByNumber c node (s.clock 0) s.w block fullTx)
  | .getBlockByHash hash fullTx => ¬ Panics (RpcInner.getBlockByHash c node s.w hash fullTx)
  | .sendRawTransaction bytes => ¬ Panics (RpcInner.sendRawTransaction node (s.w 0) bytes)
  | .getTransactionReceipt hash => ¬ Panics (RpcInner.getTransactionReceipt c node s.w hash)
  | .getTransactionByHash hash => ¬ Panics (RpcInner.getTransactionByHash c node (s.w 0) hash)
  | .getTransactionByBlockHashAndIndex hash index =>
    ¬ Panics (RpcInner.getTransactionByBlockHashAndIndex c node (s.w 0) hash index)
  | .getLogs filter => ¬ Panics (RpcInner.getLogs c node (s.w 0) s.logs filter)
  | .getStorageAt address slot block =>
    ¬ Panics (RpcInner.getStorageAt c x node (s.clock 0) s.w address slot block)
  | .coinbase => ¬ Panics (RpcInner.coinbase node (s.clock 0))
  | .syncing => ¬ Panics (RpcInner.syncing node (s.clock 0) (s.clock 1) (s.clock 2))

/-! ## Panics of the queries -/

variable {c e x}

namespace Node

variable {node : Node} {now : UInt64} {w w' : ExecutionWorld} {block : BlockTag}

/-- The clock reads a time before the genesis of the chain. -/
def BeforeGenesis (node : Node) (now : UInt64) : Prop :=
  now < node.consensus.config.chain.genesisTime

/-- The gate of a query is passed, and its payload has a property. -/
def Serves (node : Node) (gate : Result Unit) (block : BlockTag)
    (P : ExecutionPayload → Prop) : Prop :=
  gate = .ok () ∧ ∃ payload, node.getPayload block = .ok payload ∧ P payload

theorem expectedCurrentSlot_panics_iff :
    Panics (node.consensus.expectedCurrentSlot now) ↔ node.BeforeGenesis now := by
  unfold ConsensusClient.expectedCurrentSlot BeforeGenesis
  simp only
  split
  · rename_i h
    simp [h]
  · rename_i h
    simp [h]

theorem checkHeadAge_panics_iff :
    Panics (node.checkHeadAge now) ↔ node.BeforeGenesis now := by
  rw [← expectedCurrentSlot_panics_iff, checkHeadAge]
  simp only
  cases node.consensus.expectedCurrentSlot now with
  | error f => exact panics_error
  | ok expected =>
    simp only [panics_ok, iff_false]
    split <;> simp

theorem checkBlocktagAge_panics_iff :
    Panics (node.checkBlocktagAge now block) ↔ block = .latest ∧ node.BeforeGenesis now := by
  cases block with
  | latest => simp [checkBlocktagAge, checkHeadAge_panics_iff]
  | finalized => simp [checkBlocktagAge]
  | number num => simp [checkBlocktagAge]

theorem not_panics_getPayload : ¬ Panics (node.getPayload block) := by
  unfold getPayload
  simp only
  split <;> simp

/-- A query behind a gate: the gate panics, or the step on its payload does. -/
theorem panics_gate {α : Type} {gate : Result Unit} {step : ExecutionPayload → Result α} :
    Panics (match gate with
      | .error fault => .error fault
      | .ok () =>
        match node.getPayload block with
        | .error fault => .error fault
        | .ok payload => step payload) ↔
      Panics gate ∨ node.Serves gate block fun payload => Panics (step payload) := by
  unfold Serves
  rcases gate with fault | u
  · simp only [reduceCtorEq, false_and, or_false]
    exact panics_error
  · have hpayload := @not_panics_getPayload node block
    simp only [panics_ok, false_or, true_and]
    cases hfound : node.getPayload block with
    | error fault =>
      simp only [reduceCtorEq, false_and, exists_false, iff_false]
      exact not_panics_handed hpayload hfound
    | ok payload => simp

theorem serves_congr {gate : Result Unit} {P Q : ExecutionPayload → Prop}
    (h : ∀ payload, P payload ↔ Q payload) :
    node.Serves gate block P ↔ node.Serves gate block Q := by
  unfold Serves
  simp only [h]

theorem not_serves {gate : Result Unit} {P : ExecutionPayload → Prop}
    (h : ∀ payload, ¬ P payload) : ¬ node.Serves gate block P := by
  rintro ⟨_, payload, _, hp⟩
  exact h payload hp

theorem getAccountField_panics_iff {α : Type} {field : Account → α} {address : Address} :
    Panics (getAccountField c field node now w address block) ↔
      block = .latest ∧ node.BeforeGenesis now ∨
        node.Serves (node.checkBlocktagAge now block) block
          (AccountTrips c (w 0) address []) := by
  rw [← checkBlocktagAge_panics_iff, getAccountField]
  refine panics_gate.trans (or_congr_right (serves_congr fun payload => ?_))
  have haccount := @getAccount_panics_iff c payload w address none
  rw [Option.getD_none] at haccount
  rw [← haccount]
  cases getAccount c w address none payload with
  | error fault => exact panics_error
  | ok account => simp

theorem getStorageAt_panics_iff {address : Address} {slot : H256} :
    Panics (node.getStorageAt c now w address slot block) ↔
      node.BeforeGenesis now ∨
        node.Serves (node.checkHeadAge now) block (AccountTrips c (w 0) address [slot]) := by
  rw [← checkHeadAge_panics_iff, getStorageAt]
  refine panics_gate.trans (or_congr_right (serves_congr fun payload => ?_))
  have haccount := @getAccount_panics_iff c payload w address (some [slot])
  rw [Option.getD_some] at haccount
  rw [← haccount]
  cases getAccount c w address (some [slot]) payload with
  | error fault => exact panics_error
  | ok account =>
    simp only [panics_ok, iff_false]
    split <;> simp

theorem call_panics_iff {opts : CallOpts} :
    Panics (node.call c e now w w' opts block) ↔
      block = .latest ∧ node.BeforeGenesis now ∨
        node.Serves (node.checkBlocktagAge now block) block
          fun payload => CallTrips c e.evm w w' (node.proofDB payload) node.chainId opts := by
  rw [← checkBlocktagAge_panics_iff, call]
  exact panics_gate.trans (or_congr_right (serves_congr fun payload => evmCall_panics_iff))

theorem estimateGas_panics_iff {opts : CallOpts} :
    Panics (node.estimateGas c e now w w' opts) ↔
      node.BeforeGenesis now ∨ node.Serves (node.checkHeadAge now) .latest
        fun payload => CallTrips c e.evm w w' (node.proofDB payload) node.chainId opts := by
  rw [← checkHeadAge_panics_iff, estimateGas]
  exact panics_gate.trans
    (or_congr_right (serves_congr fun payload => Helios.estimateGas_panics_iff))

theorem getGasPrice_panics_iff :
    Panics (node.getGasPrice now) ↔
      node.BeforeGenesis now ∨ node.Serves (node.checkHeadAge now) .latest
        fun payload => 2 ^ 256 ≤ payload.baseFeePerGas.toNat + gasTip.toNat := by
  rw [← checkHeadAge_panics_iff, getGasPrice]
  refine panics_gate.trans (or_congr_right (serves_congr fun payload => ?_))
  unfold addWords
  by_cases h : payload.baseFeePerGas.toNat + gasTip.toNat < 2 ^ 256
  · rw [if_pos h]
    exact iff_of_false panics_ok (not_le.2 h)
  · rw [if_neg h]
    exact iff_of_true panics_panic (not_lt.1 h)

theorem getBlockNumber_panics_iff :
    Panics (node.getBlockNumber now) ↔ node.BeforeGenesis now := by
  rw [← checkHeadAge_panics_iff, getBlockNumber]
  refine panics_gate.trans (or_iff_left (not_serves fun payload => ?_))
  exact panics_ok

theorem getBlockByNumber_panics_iff {fullTx : Bool} :
    Panics (node.getBlockByNumber c now w block fullTx) ↔
      block = .latest ∧ node.BeforeGenesis now := by
  rw [← checkBlocktagAge_panics_iff, getBlockByNumber]
  cases node.checkBlocktagAge now block with
  | error fault => exact panics_error
  | ok u =>
    simp only [panics_ok, iff_false]
    split
    · simp
    · rename_i payload _
      have hblock := @not_panics_getBlock c payload w fullTx
      cases hfound : getBlock c w payload fullTx with
      | error fault =>
        exact not_panics_handed hblock hfound
      | ok block => simp

/-! ## Queries at a block hash -/

theorem not_panics_getPayloadByHash {hash : Bytes} : ¬ Panics (node.getPayloadByHash hash) := by
  unfold getPayloadByHash
  split <;> simp

theorem not_panics_getBlockTransactionCountByHash {hash : Bytes} :
    ¬ Panics (node.getBlockTransactionCountByHash hash) := by
  have hpayload := @not_panics_getPayloadByHash node hash
  unfold getBlockTransactionCountByHash
  cases hfound : node.getPayloadByHash hash with
  | error fault =>
    exact not_panics_handed hpayload hfound
  | ok payload => simp

theorem not_panics_getBlockTransactionCountByNumber :
    ¬ Panics (node.getBlockTransactionCountByNumber block) := by
  have hpayload := @not_panics_getPayload node block
  unfold getBlockTransactionCountByNumber
  cases hfound : node.getPayload block with
  | error fault =>
    exact not_panics_handed hpayload hfound
  | ok payload => simp

theorem not_panics_getBlockByHash {hash : Bytes} {fullTx : Bool} :
    ¬ Panics (node.getBlockByHash c w hash fullTx) := by
  unfold getBlockByHash
  split
  · simp
  · rename_i payload _
    have hblock := @not_panics_getBlock c payload.2 w fullTx
    cases hfound : getBlock c w payload.2 fullTx with
    | error fault =>
      exact not_panics_handed hblock hfound
    | ok block => simp

theorem getTransactionByBlockHashAndIndex_panics_iff {rpc : ExecutionRpc} {hash : Bytes}
    {index : Nat} :
    Panics (node.getTransactionByBlockHashAndIndex c rpc hash index) ↔
      ∃ entry, node.getPayloadByHash hash = .ok entry ∧
        entry.2.transactions.length ≤ index := by
  have hpayload := @not_panics_getPayloadByHash node hash
  unfold getTransactionByBlockHashAndIndex
  cases hfound : node.getPayloadByHash hash with
  | error fault =>
    simp only [reduceCtorEq, false_and, exists_false, iff_false]
    exact not_panics_handed hpayload hfound
  | ok entry => simp [Helios.getTransactionByBlockHashAndIndex_panics_iff]

/-! ## The coinbase and the progress -/

theorem getBlockNumber_ok {number : UInt64} :
    node.getBlockNumber now = .ok number ↔
      node.Serves (node.checkHeadAge now) .latest fun payload => payload.blockNumber = number := by
  unfold getBlockNumber Serves
  cases node.checkHeadAge now with
  | error fault => simp
  | ok u =>
    cases node.getPayload .latest with
    | error fault => simp
    | ok payload => simp

theorem getCoinbase_ok {address : Address} :
    node.getCoinbase now = .ok address ↔
      node.Serves (node.checkHeadAge now) .latest fun payload => payload.feeRecipient = address := by
  unfold getCoinbase Serves
  cases node.checkHeadAge now with
  | error fault => simp
  | ok u =>
    cases node.getPayload .latest with
    | error fault => simp
    | ok payload => simp

/-- The gate of the head passes, panics or refuses. -/
theorem checkHeadAge_cases :
    node.checkHeadAge now = .ok () ∨ Panics (node.checkHeadAge now) ∨
      OutOfSync (node.checkHeadAge now) := by
  unfold checkHeadAge OutOfSync
  simp only
  split
  · rename_i fault h
    unfold ConsensusClient.expectedCurrentSlot at h
    simp only at h
    split at h
    · cases h
      simp
    · cases h
  · split <;> simp

theorem checkHeadAge_ok_iff :
    node.checkHeadAge now = .ok () ↔
      ¬ (node.BeforeGenesis now ∨ node.Behind now ∨ node.Ahead now) := by
  rw [← checkHeadAge_panics_iff, ← checkHeadAge_outOfSync_iff]
  constructor
  · intro h
    rw [h]
    simp [OutOfSync]
  · intro h
    exact checkHeadAge_cases.resolve_right h

/-- The head is not in sync, and one of the readings of the clock is before the genesis. -/
def SyncingTrips (node : Node) (now now' now'' : UInt64) : Prop :=
  node.BeforeGenesis now ∨ (node.Behind now ∨ node.Ahead now) ∧
    (node.BeforeGenesis now' ∨
      node.Serves (node.checkHeadAge now') .latest fun _ => node.BeforeGenesis now'')

theorem syncing_panics_iff {now' now'' : UInt64} :
    Panics (node.syncing now now' now'') ↔ node.SyncingTrips now now' now'' := by
  unfold SyncingTrips syncing
  rw [← checkHeadAge_panics_iff, ← checkHeadAge_outOfSync_iff]
  rcases hage : node.checkHeadAge now with (fault | p) | u
  · have hout : OutOfSync (node.checkHeadAge now) :=
      (checkHeadAge_cases.resolve_left (by simp [hage])).resolve_left (by simp [hage])
    rw [hage] at hout
    simp only [panics_err, false_or, hout, true_and]
    rw [← getBlockNumber_panics_iff]
    cases hnumber : node.getBlockNumber now' with
    | error fault =>
      refine panics_error.trans (or_iff_left ?_).symm
      rintro ⟨hgate, payload, hpayload, _⟩
      rw [getBlockNumber_ok.2 ⟨hgate, payload, hpayload, rfl⟩] at hnumber
      cases hnumber
    | ok latestSyncedBlock =>
      have hserves : node.Serves (node.checkHeadAge now') .latest (fun _ => node.BeforeGenesis now'')
          ↔ node.BeforeGenesis now'' := by
        obtain ⟨hgate, payload, hpayload, _⟩ := getBlockNumber_ok.1 hnumber
        simp [Serves, hgate, hpayload]
      rw [hserves, ← expectedCurrentSlot_panics_iff]
      simp only [panics_ok, false_or]
      cases node.consensus.expectedCurrentSlot now'' with
      | error fault => exact panics_error
      | ok highestBlock => simp
  · simp
  · simp [OutOfSync]

/-- The query that `coinbase` unwraps fails. -/
def CoinbaseTrips (node : Node) (now : UInt64) : Prop :=
  node.BeforeGenesis now ∨ node.Behind now ∨ node.Ahead now ∨ lastKey? node.payloads = none

theorem coinbase_panics_iff :
    Panics (RpcInner.coinbase node now) ↔ node.CoinbaseTrips now := by
  have hgate : node.CoinbaseTrips now ↔
      ¬ (node.checkHeadAge now = .ok () ∧ lastKey? node.payloads ≠ none) := by
    rw [checkHeadAge_ok_iff, CoinbaseTrips]
    tauto
  have hok : (∃ address, node.getCoinbase now = .ok address) ↔
      node.checkHeadAge now = .ok () ∧ lastKey? node.payloads ≠ none := by
    simp only [getCoinbase_ok, Serves, exists_and_left]
    refine and_congr_right fun _ => ?_
    rw [ne_eq, lastKey?_eq_none]
    unfold getPayload
    cases lastValue? node.payloads <;> simp
  rw [hgate, ← hok, RpcInner.coinbase]
  rcases node.getCoinbase now with (fault | p) | address <;> simp

end Node

/-! ## Panics of the handlers -/

section Handlers

variable {node : Node} {now : UInt64} {w w' : ExecutionWorld} {block : BlockTag}

theorem not_panics_hexStrToBytes {s : List Char} : ¬ Panics (hexStrToBytes s) := by
  unfold hexStrToBytes
  simp only
  split <;> simp

theorem not_panics_formatHex {num : U256} : ¬ Panics (formatHex num) := by
  simp [formatHex, encodeHex, strip0x]

theorem h256FromSlice_panics_iff {bytes : Bytes} :
    Panics (h256FromSlice bytes) ↔ bytes.length ≠ 32 := by
  unfold h256FromSlice
  split
  · rename_i h
    simp [h]
  · rename_i h
    simp [h]

theorem h256FromSlice_ok {bytes : Bytes} {hash : H256} :
    h256FromSlice bytes = .ok hash ↔ hash.toList = bytes := by
  unfold h256FromSlice
  split
  · rename_i h
    rw [Except.ok.injEq]
    constructor
    · rintro rfl
      rfl
    · rintro rfl
      apply Vector.toList_inj.1
      rfl
  · rename_i h
    simp only [reduceCtorEq, false_iff]
    rintro rfl
    exact h Vector.length_toList

/-- The guard of the source keeps the slice in range. -/
theorem not_panics_decodeRevertReason {data : Bytes} : ¬ Panics (decodeRevertReason x data) := by
  unfold decodeRevertReason
  split
  · simp
  · rename_i h
    rw [panics_map, sliceFrom, if_pos (not_lt.1 h)]
    exact panics_ok

theorem panics_toJsonRpseeError {α : Type} {r : Result α} :
    Panics (r.mapError (toJsonRpseeError x)) ↔ Panics r := by
  rcases r with fault | a
  · simp only [Except.mapError]
    unfold toJsonRpseeError
    split
    · rename_i data
      have hreason := @not_panics_decodeRevertReason x data
      cases hdecode : decodeRevertReason x data with
      | error fault =>
        simp only [panics_err, iff_false]
        exact not_panics_handed hreason hdecode
      | ok reason => simp
    · simp
    · rfl
  · simp [Except.mapError]

theorem accountQuery_panics_iff {α : Type} {query : Address → Result α} {address : List Char} :
    Panics (RpcInner.accountQuery x query address) ↔
      ∃ a, x.addressFromStr address = some a ∧ Panics (query a) := by
  unfold RpcInner.accountQuery parseAddress
  cases x.addressFromStr address <;> simp [Except.bind]

/-- A query at the bytes of a hexadecimal string. -/
theorem hexQuery_panics_iff {α : Type} {query : Bytes → Result α} {s : List Char} :
    Panics ((hexStrToBytes s).bind query) ↔
      ∃ bytes, hexStrToBytes s = .ok bytes ∧ Panics (query bytes) := by
  rw [panics_bind]
  exact or_iff_right not_panics_hexStrToBytes

/-- A query at the hash that a hexadecimal string spells. -/
theorem hashQuery_panics_iff {α : Type} {query : H256 → Result α} {s : List Char} :
    Panics ((RpcInner.transactionHash s).bind query) ↔
      ∃ bytes, hexStrToBytes s = .ok bytes ∧
        (bytes.length ≠ 32 ∨ ∃ hash : H256, hash.toList = bytes ∧ Panics (query hash)) := by
  have hassoc : (RpcInner.transactionHash s).bind query =
      (hexStrToBytes s).bind fun bytes => (h256FromSlice bytes).bind query := by
    unfold RpcInner.transactionHash
    cases hexStrToBytes s <;> rfl
  rw [hassoc, hexQuery_panics_iff]
  simp only [panics_bind, h256FromSlice_panics_iff, h256FromSlice_ok]

theorem panics_bind_formatHex {r : Result U256} : Panics (r.bind formatHex) ↔ Panics r := by
  rw [panics_bind]
  refine or_iff_left ?_
  rintro ⟨num, _, h⟩
  exact not_panics_formatHex h

end Handlers

/-! ## When a request comes back -/

/-- What makes the handler of a request panic: the clock before the genesis, an answer of the server
    that trips, an argument of the wrong length, or a query that is unwrapped and fails. -/
def Trips (c : Crates) (e : EvmCrate) (x : RpcCrate) (node : Node) (s : Surroundings) :
    EthRequest → Prop
  | .getBalance address block | .getTransactionCount address block | .getCode address block =>
    ∃ a, x.addressFromStr address = some a ∧
      (block = .latest ∧ node.BeforeGenesis (s.clock 0) ∨
        node.Serves (node.checkBlocktagAge (s.clock 0) block) block
          (AccountTrips c (s.w 0) a []))
  | .getStorageAt address slot block =>
    ∃ a, x.addressFromStr address = some a ∧
      (node.BeforeGenesis (s.clock 0) ∨
        node.Serves (node.checkHeadAge (s.clock 0)) block (AccountTrips c (s.w 0) a [slot]))
  | .call opts block =>
    block = .latest ∧ node.BeforeGenesis (s.clock 0) ∨
      node.Serves (node.checkBlocktagAge (s.clock 0) block) block
        fun payload => CallTrips c e.evm s.w s.evm (node.proofDB payload) node.chainId opts
  | .estimateGas opts =>
    node.BeforeGenesis (s.clock 0) ∨
      node.Serves (node.checkHeadAge (s.clock 0)) .latest
        fun payload => CallTrips c e.evm s.w s.evm (node.proofDB payload) node.chainId opts
  | .gasPrice =>
    node.BeforeGenesis (s.clock 0) ∨
      node.Serves (node.checkHeadAge (s.clock 0)) .latest
        fun payload => 2 ^ 256 ≤ payload.baseFeePerGas.toNat + Node.gasTip.toNat
  | .blockNumber => node.BeforeGenesis (s.clock 0)
  | .getBlockByNumber block _ => block = .latest ∧ node.BeforeGenesis (s.clock 0)
  | .getTransactionReceipt hash =>
    ∃ bytes, hexStrToBytes hash = .ok bytes ∧
      (bytes.length ≠ 32 ∨
        ∃ txHash : H256, txHash.toList = bytes ∧ ReceiptTrips c s.w txHash node.payloads)
  | .getTransactionByHash hash => ∃ bytes, hexStrToBytes hash = .ok bytes ∧ bytes.length ≠ 32
  | .getTransactionByBlockHashAndIndex hash index =>
    ∃ bytes, hexStrToBytes hash = .ok bytes ∧
      ∃ entry, node.getPayloadByHash bytes = .ok entry ∧ entry.2.transactions.length ≤ index
  | .getLogs filter => LogsTrip c (s.w 0) s.logs filter node.payloads
  | .coinbase => node.CoinbaseTrips (s.clock 0)
  | .syncing => node.SyncingTrips (s.clock 0) (s.clock 1) (s.clock 2)
  | .getBlockTransactionCountByHash _ | .getBlockTransactionCountByNumber _ | .chainId
  | .maxPriorityFeePerGas | .getBlockByHash _ _ | .sendRawTransaction _ => False

/-- **When a request comes back.**  In every state of a node, at every time, and for every answer
    of the server. -/
theorem rpc_returns_iff (c : Crates) (e : EvmCrate) (x : RpcCrate) (node : Node) (s : Surroundings)
    (request : EthRequest) :
    Returns c e x node s request ↔ ¬ Trips c e x node s request := by
  cases request with
  | getBalance address block =>
    refine not_congr (panics_bind_formatHex.trans (accountQuery_panics_iff.trans ?_))
    simp only [Node.getBalance, Node.getAccountField_panics_iff, Trips]
  | getTransactionCount address block =>
    refine not_congr (panics_map.trans (accountQuery_panics_iff.trans ?_))
    simp only [Node.getNonce, Node.getAccountField_panics_iff, Trips]
  | getCode address block =>
    refine not_congr (panics_map.trans (accountQuery_panics_iff.trans ?_))
    simp only [Node.getCode, Node.getAccountField_panics_iff, Trips]
  | getStorageAt address slot block =>
    refine not_congr (panics_bind_formatHex.trans (accountQuery_panics_iff.trans ?_))
    simp only [Node.getStorageAt_panics_iff, Trips]
  | call opts block =>
    exact not_congr (panics_map.trans (panics_toJsonRpseeError.trans Node.call_panics_iff))
  | estimateGas opts =>
    exact not_congr (panics_map.trans (panics_toJsonRpseeError.trans Node.estimateGas_panics_iff))
  | gasPrice => exact not_congr (panics_bind_formatHex.trans Node.getGasPrice_panics_iff)
  | blockNumber => exact not_congr (panics_map.trans Node.getBlockNumber_panics_iff)
  | getBlockByNumber block fullTx => exact not_congr Node.getBlockByNumber_panics_iff
  | getTransactionReceipt hash =>
    refine not_congr (hashQuery_panics_iff.trans ?_)
    simp only [Node.getTransactionReceipt, getTransactionReceipt_panics_iff, Trips]
  | getTransactionByHash hash =>
    refine not_congr (hashQuery_panics_iff.trans ?_)
    simp only [Node.getTransactionByHash, not_panics_getTransaction, and_false, exists_false,
      or_false, Trips]
  | getTransactionByBlockHashAndIndex hash index =>
    refine not_congr (hexQuery_panics_iff.trans ?_)
    simp only [Node.getTransactionByBlockHashAndIndex_panics_iff, Trips]
  | getLogs filter => exact not_congr getLogs_panics_iff
  | coinbase => exact not_congr Node.coinbase_panics_iff
  | syncing => exact not_congr Node.syncing_panics_iff
  | getBlockTransactionCountByHash hash =>
    refine not_congr (hexQuery_panics_iff.trans ?_)
    simp only [panics_map, Node.not_panics_getBlockTransactionCountByHash, and_false, exists_false,
      Trips]
  | getBlockTransactionCountByNumber block =>
    refine not_congr (panics_map.trans ?_)
    simp only [Node.not_panics_getBlockTransactionCountByNumber, Trips]
  | chainId => exact not_congr (iff_of_false panics_ok id)
  | maxPriorityFeePerGas =>
    exact not_congr (panics_bind_formatHex.trans (iff_of_false panics_ok id))
  | getBlockByHash hash fullTx =>
    refine not_congr (hexQuery_panics_iff.trans ?_)
    simp only [Node.not_panics_getBlockByHash, and_false, exists_false, Trips]
  | sendRawTransaction bytes =>
    refine not_congr (hexQuery_panics_iff.trans ?_)
    simp only [panics_map, Node.sendRawTransaction, not_panics_answer, and_false, exists_false,
      Trips]

/-! ## Requests that end the client -/

namespace Node

open ConsensusClient

/-- All logs, without a bound. -/
def everyLog : Filter where
  blockOption := .range none none
  address := none
  topics := Vector.replicate 4 none

/-- Before the first sync, `eth_coinbase` and an unbounded `eth_getLogs` panic; after it, an index
    past the end of a block and a hash of one byte do. -/
theorem requests_crash :
    (serving chainCrates mainnet checkpointRoot.toList fun _ _ _ _ => True).Reachable
        (Node.new checkpointRoot.toList mainnet) ∧
      RpcInner.coinbase (Node.new checkpointRoot.toList mainnet) hourLater =
        .error (.panic .coinbaseUnwrap) ∧
      RpcInner.getLogs sampleCrates (Node.new checkpointRoot.toList mainnet) sampleRpc
        (fun _ _ => sampleRpc) everyLog = .error (.panic .emptyPayloadsUnwrap) ∧
      (serving chainCrates mainnet checkpointRoot.toList fun _ _ _ _ => True).Reachable
        (afterSync honestBlocks) ∧
      RpcInner.getTransactionByBlockHashAndIndex sampleCrates (afterSync honestBlocks)
        sampleRpc (encodeHex headHash.toList) 0 = .error (.panic .indexOutOfBounds) ∧
      RpcInner.getTransactionReceipt sampleCrates (afterSync honestBlocks)
        (fun _ => sampleRpc) ['0', 'x', '0', '0'] = .error (.panic .hashLength) := by
  refine ⟨.init rfl, ?_, ?_, afterSync_reachable trivial, ?_, ?_⟩
  · decide +kernel
  · decide +kernel
  · decide +kernel
  · decide +kernel

end Node

end Helios
