import Helios.Consensus.Steps
import Helios.Execution.Evm
import Helios.Lib.OrderedMap

/-!
# The node (`client/src/node.rs`)

* `Node` — the consensus client, and the payloads of the blocks it follows.
* `updatePayloads` — fetches the head and the finalized payload, backfills between the previous
  head and the new one, and drops what is too old.  A failure keeps what was done before it.
* `sync`, `advance` — the consensus call, and then `updatePayloads`.
* `getPayload`, `checkHeadAge`, `getStorageAt` — queries.
* `serving` — the system of a node's calls, each under a condition on its inputs.
-/

set_option autoImplicit false

namespace Helios

open Attempt OrderedMap

structure Node where
  consensus : ConsensusClient
  config : Config
  payloads : Payloads
  finalizedPayloads : Payloads
  currentSlot : Option UInt64
  historySize : UInt64

variable (k : ConsensusCrates) (c : Crates)

namespace Node

def new (checkpointHash : Bytes) (config : Config) : Node where
  consensus := ConsensusClient.new checkpointHash config
  config := config
  payloads := ∅
  finalizedPayloads := ∅
  currentSlot := none
  historySize := 64

/-! ## Payloads -/

def insertPayload (node : Node) (payload : ExecutionPayload) : Node :=
  { node with payloads := node.payloads.insert payload.blockNumber payload }

def insertFinalized (node : Node) (payload : ExecutionPayload) : Node :=
  { node with
    finalizedPayloads := node.finalizedPayloads.insert payload.blockNumber payload }

/-- The first slot to backfill from. -/
def startSlot (node : Node) : UInt64 :=
  node.currentSlot.getD (node.consensus.getHeader.slot - node.historySize)

/-- Keep `history_size` payloads, and one finalized payload per epoch of history. -/
def prune (node : Node) : Node :=
  { node with
    payloads := popWhile node.historySize.toNat node.payloads.size node.payloads
    finalizedPayloads := popWhile (max (node.historySize.toNat / 32) 1)
      node.finalizedPayloads.size node.finalizedPayloads }

/-- The payload of the optimistic header, as fetched at one moment. -/
def latestPayload (moment : Moment) (node : Node) : Result ExecutionPayload :=
  mapErr .consensusPayloadError
    (node.consensus.getExecutionPayload k moment.rpc (some node.consensus.getHeader.slot))

/-- The payload of the finalized header, as fetched at one moment. -/
def finalizedPayload (moment : Moment) (node : Node) : Result ExecutionPayload :=
  mapErr .consensusPayloadError
    (node.consensus.getExecutionPayload k moment.rpc
      (some node.consensus.getFinalizedHeader.slot))

/-- The two verified payloads go into the maps. -/
def insertHeads (node : Node) (latest finalized : ExecutionPayload) : Node :=
  ((node.insertPayload latest).insertPayload finalized).insertFinalized finalized

/-- The backfilled payloads go into the map, and the new head is where the next backfill starts. -/
def insertBackfill (node : Node) (backfill : List ExecutionPayload) : Node :=
  { backfill.foldl insertPayload node with currentSlot := some node.consensus.getHeader.slot }

def updatePayloads (w : World) (node : Node) : Attempt Fault Node :=
  request (node.latestPayload k (w 0)) node fun latest =>
  request (node.finalizedPayload k (w 1)) node fun finalized =>
  let node := node.insertHeads latest finalized
  request (mapErr .consensusPayloadError
      (ConsensusClient.getPayloads (w.drop 2) node.startSlot node.consensus.getHeader.slot)) node
    fun backfill => (.ok (), (node.insertBackfill backfill).prune)

/-! ## Sync and advance -/

/-- `ExecutionClient::check_rpc` -/
def checkExecutionRpc (w : World) (node : Node) : Result Unit :=
  match answer (w 0).executionChainId with
  | .error e => .error e
  | .ok chainId =>
    if chainId ≠ node.config.chain.chainId then .error (.err (.execution .incorrectRpcNetwork))
    else .ok ()

/-- A consensus call, seen from the node. -/
def withConsensus (node : Node) (wrap : Report → Report) (r : Attempt Fault ConsensusClient) :
    Attempt Fault Node :=
  (mapErr wrap r.1, { node with consensus := r.2 })

/-- The consensus half of `sync`. -/
def syncConsensus (w : World) (node : Node) : Attempt Fault Node :=
  request (mapErr .nodeExecutionError (node.checkExecutionRpc w)) node fun _ =>
  request (mapErr .consensusSyncError (node.consensus.checkRpc (w.drop 1))) node fun _ =>
  node.withConsensus .consensusSyncError (node.consensus.sync k (w.drop 2))

/-- The consensus half of `advance`. -/
def advanceConsensus (w : World) (node : Node) : Attempt Fault Node :=
  node.withConsensus .consensusAdvanceError (node.consensus.advance k w)

/-- The moments of the consensus half are those of `w`, the ones after it those of `w'`. -/
def sync (w w' : World) (node : Node) : Attempt Fault Node :=
  andThen (node.syncConsensus k w) (updatePayloads k w')

def advance (w w' : World) (node : Node) : Attempt Fault Node :=
  andThen (node.advanceConsensus k w) (updatePayloads k w')

/-! ## Queries -/

def getPayload (node : Node) (block : BlockTag) : Result ExecutionPayload :=
  let found := match block with
    | .latest => lastValue? node.payloads
    | .finalized => lastValue? node.finalizedPayloads
    | .number num => node.payloads[num]?
  match found with
  | some payload => .ok payload
  | none => .error (.err (.blockNotFound block))

def checkHeadAge (node : Node) (now : UInt64) : Result Unit :=
  let syncedSlot := node.consensus.getHeader.slot
  match node.consensus.expectedCurrentSlot now with
  | .error e => .error e
  | .ok expectedSlot =>
    let slotDelay := expectedSlot - syncedSlot
    if slotDelay > 10 then .error (.err (.outOfSync slotDelay)) else .ok ()

def checkBlocktagAge (node : Node) (now : UInt64) (block : BlockTag) : Result Unit :=
  match block with
  | .latest => node.checkHeadAge now
  | .finalized => .ok ()
  | .number _ => .ok ()

def getStorageAt (node : Node) (now : UInt64) (w : ExecutionWorld) (address : Address)
    (slot : H256) (block : BlockTag) : Result U256 :=
  match node.checkHeadAge now with
  | .error e => .error e
  | .ok () =>
    match node.getPayload block with
    | .error e => .error e
    | .ok payload =>
      match getAccount c w address (some [slot]) payload with
      | .error e => .error e
      | .ok account =>
        match account.slots[slot]? with
        | some value => .ok value
        | none => .error (.err (.message "slot not found"))

/-! ## Runs -/

/-- The two calls that change a node. -/
inductive Call where
  | sync
  | advance
  deriving DecidableEq

/-- The consensus half of a call. -/
def consensusHalf (call : Call) (w : World) (node : Node) : Attempt Fault Node :=
  match call with
  | .sync => node.syncConsensus k w
  | .advance => node.advanceConsensus k w

/-- A call: its consensus half, and then the payloads. -/
def run (call : Call) (w w' : World) (node : Node) : Attempt Fault Node :=
  andThen (node.consensusHalf k call w) (updatePayloads k w')

theorem run_advance (w w' : World) (node : Node) :
    node.run k .advance w w' = node.advance k w w' := rfl

/-- The states of a node under any sequence of calls, successful or not, that meet a condition. -/
def serving (config : Config) (checkpoint : Bytes)
    (Meets : Node → Call → World → World → Prop) : System Node where
  init node := node = Node.new checkpoint config
  step node node' := ∃ call w w', Meets node call w w' ∧ (node.run k call w w').2 = node'

end Node

end Helios
