import Helios.Execution.Receipts
import Helios.Lib.OrderedMap

/-!
# Logs and fee histories (`execution/src/execution.rs`)

* `boundFilter` — a filter without a numeric upper bound is bounded by the newest stored block.
* `checkLog` — a log has to occur in the proven receipt of its transaction.
* `getLogs` — the answer to the bounded filter, when it is short and every log in it is checked.
* `getFeeHistory` — one entry for every block of a range of stored ones.
-/

set_option autoImplicit false

namespace Helios

open OrderedMap

variable (c : Crates)

/-! ## Logs -/

def maxSupportedLogsNumber : Nat := 5

/-- Avoid fetching logs for a block that has not been seen yet. -/
def boundFilter (filter : Filter) (payloads : Payloads) : Result Filter :=
  if filter.getToBlock.isNone && filter.getBlockHash.isNone then
    match lastKey? payloads with
    | none => .error (.panic .emptyPayloadsUnwrap)
    | some block =>
      let filter := filter.toBlock block
      if filter.getFromBlock.isNone then .ok (filter.fromBlock block) else .ok filter
  else .ok filter

/-- `log.rlp_bytes()` -/
def encodeLog (log : Log) : Bytes := (logItem log).encode

/-- The check of one log. -/
def checkLog (w : ExecutionWorld) (payloads : Payloads) (log : Log) : Result Unit :=
  match log.transactionHash with
  | none => .error (.err (.message "tx hash not found in log"))
  | some txHash =>
    match getTransactionReceipt c w txHash payloads with
    | .error e => .error e
    | .ok none => .error (.err (.execution (.noReceiptForTransaction txHash)))
    | .ok (some receipt) =>
      let receiptLogsEncoded := receipt.logs.map encodeLog
      if ¬ receiptLogsEncoded.contains (encodeLog log) then
        match log.logIndex with
        | none => .error (.panic .logIndexUnwrap)
        | some logIndex => .error (.err (.execution (.missingLog txHash logIndex)))
      else .ok ()

/-- The loop over the logs; the moments of the receipt of each are its own. -/
def checkLogs (ws : Nat → ExecutionWorld) (payloads : Payloads) (logs : List Log) :
    Result (List Unit) :=
  collectResults (fun entry : Nat × Log => checkLog c (ws entry.1) payloads entry.2)
    (logs.mapIdx fun pos log => (pos, log))

def getLogs (rpc : ExecutionRpc) (ws : Nat → ExecutionWorld) (filter : Filter)
    (payloads : Payloads) : Result (List Log) :=
  match boundFilter filter payloads with
  | .error e => .error e
  | .ok filter =>
    match answer (rpc.getLogs filter) with
    | .error e => .error e
    | .ok logs =>
      if logs.length > maxSupportedLogsNumber then
        .error (.err (.execution (.tooManyLogsToProve logs.length maxSupportedLogsNumber)))
      else
        match checkLogs c ws payloads logs with
        | .error e => .error e
        | .ok _ => .ok logs

/-! ## Fee histories -/

structure FeeHistory where
  oldestBlock : U256
  baseFeePerGas : List U256
  /-- The numbers whose ratio is taken: the gas used and the gas limit. -/
  gasUsedRatio : List (UInt64 × UInt64)
  reward : List (List U256)
  deriving DecidableEq

/-- `(oldest..=latest)` -/
def blockRange (oldest latest : UInt64) : List UInt64 :=
  (List.range (latest.toNat + 1 - oldest.toNat)).map fun i => oldest + UInt64.ofNat i

/-- The payloads of a range of blocks, stopping at the first that is not stored. -/
def rangePayloads (payloads : Payloads) (range : List UInt64) : Result (List ExecutionPayload) :=
  collectResults
    (fun blockId => match payloads[blockId]? with
      | some payload => .ok payload
      | none => .error (.err (.execution .emptyExecutionPayload)))
    range

def getFeeHistory (blockCount lastBlock : UInt64) (payloads : Payloads) :
    Result (Option FeeHistory) :=
  match lastKey? payloads, firstKey? payloads with
  | some heliosLatest, some heliosOldest =>
    if lastBlock < heliosOldest then
      .error (.err (.execution (.invalidBlockRange lastBlock heliosLatest)))
    else
      let requestLatest := if lastBlock > heliosLatest then heliosLatest else lastBlock
      -- wraps when more blocks are asked for than there are numbers below
      let requestOldest := requestLatest - blockCount
      let requestOldest := if requestOldest < heliosOldest then heliosOldest else requestOldest
      match rangePayloads payloads (blockRange requestOldest requestLatest) with
      | .error e => .error e
      | .ok found =>
        .ok (some
          { oldestBlock := BitVec.ofNat 256 requestOldest.toNat
            baseFeePerGas := found.map ExecutionPayload.baseFeePerGas
            gasUsedRatio := found.map fun payload => (payload.gasUsed, payload.gasLimit)
            reward := payloads.toList.map fun _ => [] })
  | _, _ => .error (.err (.execution .emptyExecutionPayload))

end Helios
