import Helios.Client.Database
import Helios.Client.Payloads
import Helios.Config.Checkpoints

/-!
# The client (`client/src/client.rs`)

* `Client` — the node, the database and the ways to a newer checkpoint.
* `Client.new` — the checkpoint is the configured one, or the one that the database loads.
* `start` — syncs the node.  When the checkpoint is refused for its age it is replaced, by that of
  the configured service or, failing that and if asked for, of the public ones, and the node is
  synced again.  Then the last checkpoint is saved.
* `shutdown` — saves it again.

The thread that `start` spawns calls `Node.advance`.  A panic ends the process.
-/

set_option autoImplicit false

namespace Helios

open Attempt Plurality

structure Rpc where
  ip : IpAddr
  port : UInt16

def Rpc.new (ip : Option IpAddr) (port : Option UInt16) : Rpc :=
  ⟨ip.getD .localhost, port.getD 0⟩

structure Client (DB : Type) where
  node : Node
  rpc : Option Rpc
  db : DB
  fallback : Option String
  loadExternalFallback : Bool

/-- What `start` meets, in its order: the server socket, the moments of each `sync`, the services
    that name checkpoints, and the disk. -/
structure StartWorld where
  bind : Rpc → Except Report Unit
  sync : World × World
  api : String → Option RawSlotResponse
  apiSync : World × World
  servicesList : Option ServicesList
  order : IterationOrder H256
  queryService : Nat → String → Option RawSlotResponse
  externalSync : World × World
  save : SaveIo

variable (k : ConsensusCrates) {DB : Type} [Database DB]

namespace Client

/-- `HttpRpc::new` refuses an address that does not parse. -/
def new (parses : String → Bool) (config : ClientConfig) (io : CutWrite.Extent) (disk : Disk) :
    Result (Client DB) :=
  match Database.new config with
  | .error e => .error e
  | .ok (db : DB) =>
    let checkpoint : Result Bytes := match config.checkpoint with
      | some checkpoint => .ok checkpoint
      | none => Database.loadCheckpoint db io disk
    match checkpoint with
    | .error e => .error e
    | .ok checkpoint =>
      if parses config.executionRpc = false then
        .error (.err (.message "execution client creation error"))
      else
        .ok
          { node := Node.new checkpoint config.toConfig
            rpc := if config.rpcBindIp.isSome ∨ config.rpcPort.isSome then
                some (Rpc.new config.rpcBindIp config.rpcPort)
              else none
            db := db
            fallback := config.fallback
            loadExternalFallback := config.loadExternalFallback }

/-! ## A newer checkpoint -/

/-- The consensus client is rebuilt for another checkpoint, and the node synced. -/
def syncFrom (checkpoint : H256) (w : World × World) (node : Node) : Attempt Fault Node :=
  Node.sync k w.1 w.2
    { node with consensus := ConsensusClient.new checkpoint.toList node.config }

def bootFromFallback (world : StartWorld) (fallback : Option String) (node : Node) :
    Attempt Fault Node :=
  match fallback with
  | none => (.error (.err (.message "no explicit fallback specified")), node)
  | some fallback =>
    request (mapErr (fun _ => .message "Failed to fetch checkpoint from fallback")
        (fetchCheckpointFromApi world.api fallback)) node fun checkpoint =>
    syncFrom k checkpoint world.apiSync node

/-- The network whose services are asked. -/
def fallbackNetwork (node : Node) : Network :=
  if node.config.chain.chainId = 5 then .goerli else .mainnet

/-- The checkpoint of the public services. -/
def fetchExternal (world : StartWorld) (network : Network) : Result H256 :=
  match mapErr (fun _ => .message "Failed to construct external checkpoint sync fallbacks")
      (CheckpointFallback.build world.servicesList) with
  | .error e => .error e
  | .ok list =>
    mapErr (fun _ => .message "Failed to fetch latest checkpoint from external fallbacks")
      (list.fetchLatestCheckpoint world.order world.queryService network)

def bootFromExternalFallbacks (world : StartWorld) (node : Node) : Attempt Fault Node :=
  request (fetchExternal world (fallbackNetwork node)) node fun checkpoint =>
  syncFrom k checkpoint world.externalSync node

/-! ## Start and shutdown -/

/-- The first `sync`, and what is tried when the checkpoint is too old. -/
def boot (world : StartWorld) (fallback : Option String) (loadExternalFallback : Bool)
    (node : Node) : Attempt Fault Node :=
  match node.sync k world.sync.1 world.sync.2 with
  | (.ok (), node) => (.ok (), node)
  | (.error (.panic p), node) => (.error (.panic p), node)
  | (.error (.err (.consensusSyncError e)), node) =>
    if e = .consensus .checkpointTooOld then
      match bootFromFallback k world fallback node with
      | (.ok (), node) => (.ok (), node)
      | (.error (.panic p), node) => (.error (.panic p), node)
      | (.error (.err _), node) =>
        if loadExternalFallback then bootFromExternalFallbacks k world node
        else (.error (.err (.consensus .checkpointTooOld)), node)
    else (.error (.err e), node)
  | (.error (.err e), node) => (.error (.err e), node)

/-- A save that fails is only logged. -/
def saveLastCheckpoint (io : SaveIo) (client : Client DB) (disk : Disk) : Disk :=
  match client.node.consensus.lastCheckpoint with
  | some checkpoint => (Database.saveCheckpoint client.db io checkpoint disk).2
  | none => disk

def startRpc (world : StartWorld) (client : Client DB) : Result Unit :=
  match client.rpc with
  | some rpc => answer (world.bind rpc)
  | none => .ok ()

def start (world : StartWorld) (s : Client DB × Disk) : Attempt Fault (Client DB × Disk) :=
  request (s.1.startRpc world) s fun _ =>
  match boot k world s.1.fallback s.1.loadExternalFallback s.1.node with
  | (.error e, node) => (.error e, ({ s.1 with node := node }, s.2))
  | (.ok (), node) =>
    let client : Client DB := { s.1 with node := node }
    (.ok (), (client, client.saveLastCheckpoint world.save s.2))

def shutdown (io : SaveIo) (client : Client DB) (disk : Disk) : Disk :=
  client.saveLastCheckpoint io disk

end Client

end Helios
