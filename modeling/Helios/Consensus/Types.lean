import Helios.Common.Types

/-!
# Consensus types, configuration and the consensus RPC (`consensus/src/types.rs`)

* `Header`, `SyncCommittee`, `SyncAggregate`, `GenericUpdate` and the three kinds of update that
  turn into one (`Update.toGeneric`, …).
* `ExecutionPayload` — both variants in one structure; a Bellatrix payload has no withdrawals.
* `BeaconBlock` — the parts of the body that only its hash tree root reads are kept as bytes.
* `ConsensusRpc` — the answers of the server at one moment; `World` — the answers and clock
  readings met one after the other, each chosen independently.
* `ConsensusCrates` — SSZ hashing and BLS signatures.
-/

set_option autoImplicit false

namespace Helios

abbrev BLSPubKey := Vector UInt8 48
abbrev SignatureBytes := Vector UInt8 96

structure Header where
  slot : UInt64
  proposerIndex : UInt64
  parentRoot : Bytes32
  stateRoot : Bytes32
  bodyRoot : Bytes32
  deriving DecidableEq

instance : Inhabited Header := ⟨⟨0, 0, zeroBytes 32, zeroBytes 32, zeroBytes 32⟩⟩

structure SyncCommittee where
  pubkeys : Vector BLSPubKey 512
  aggregatePubkey : BLSPubKey
  deriving DecidableEq

instance : Inhabited SyncCommittee := ⟨⟨Vector.replicate 512 (zeroBytes 48), zeroBytes 48⟩⟩

structure SyncAggregate where
  syncCommitteeBits : Vector Bool 512
  syncCommitteeSignature : SignatureBytes

/-! ## Updates -/

structure Bootstrap where
  header : Header
  currentSyncCommittee : SyncCommittee
  currentSyncCommitteeBranch : List Bytes32

structure Update where
  attestedHeader : Header
  nextSyncCommittee : SyncCommittee
  nextSyncCommitteeBranch : List Bytes32
  finalizedHeader : Header
  finalityBranch : List Bytes32
  syncAggregate : SyncAggregate
  signatureSlot : UInt64

structure FinalityUpdate where
  attestedHeader : Header
  finalizedHeader : Header
  finalityBranch : List Bytes32
  syncAggregate : SyncAggregate
  signatureSlot : UInt64

structure OptimisticUpdate where
  attestedHeader : Header
  syncAggregate : SyncAggregate
  signatureSlot : UInt64

structure GenericUpdate where
  attestedHeader : Header
  syncAggregate : SyncAggregate
  signatureSlot : UInt64
  nextSyncCommittee : Option SyncCommittee
  nextSyncCommitteeBranch : Option (List Bytes32)
  finalizedHeader : Option Header
  finalityBranch : Option (List Bytes32)

def Update.toGeneric (update : Update) : GenericUpdate where
  attestedHeader := update.attestedHeader
  syncAggregate := update.syncAggregate
  signatureSlot := update.signatureSlot
  nextSyncCommittee := some update.nextSyncCommittee
  nextSyncCommitteeBranch := some update.nextSyncCommitteeBranch
  finalizedHeader := some update.finalizedHeader
  finalityBranch := some update.finalityBranch

def FinalityUpdate.toGeneric (update : FinalityUpdate) : GenericUpdate where
  attestedHeader := update.attestedHeader
  syncAggregate := update.syncAggregate
  signatureSlot := update.signatureSlot
  nextSyncCommittee := none
  nextSyncCommitteeBranch := none
  finalizedHeader := some update.finalizedHeader
  finalityBranch := some update.finalityBranch

def OptimisticUpdate.toGeneric (update : OptimisticUpdate) : GenericUpdate where
  attestedHeader := update.attestedHeader
  syncAggregate := update.syncAggregate
  signatureSlot := update.signatureSlot
  nextSyncCommittee := none
  nextSyncCommitteeBranch := none
  finalizedHeader := none
  finalityBranch := none

/-- A generic update that came from one of the three kinds. -/
inductive GenericUpdate.FromRpc : GenericUpdate → Prop
  | update (u : Update) : FromRpc u.toGeneric
  | finality (u : FinalityUpdate) : FromRpc u.toGeneric
  | optimistic (u : OptimisticUpdate) : FromRpc u.toGeneric

/-- A next sync committee comes with its branch. -/
theorem GenericUpdate.FromRpc.committee_branch {u : GenericUpdate} (h : u.FromRpc)
    {committee : SyncCommittee} (hc : u.nextSyncCommittee = some committee) :
    ∃ branch, u.nextSyncCommitteeBranch = some branch := by
  cases h with
  | update u => exact ⟨_, rfl⟩
  | finality u => cases hc
  | optimistic u => cases hc

/-- A finalized header comes with its branch. -/
theorem GenericUpdate.FromRpc.finality_branch {u : GenericUpdate} (h : u.FromRpc)
    {header : Header} (hf : u.finalizedHeader = some header) :
    ∃ branch, u.finalityBranch = some branch := by
  cases h with
  | update u => exact ⟨_, rfl⟩
  | finality u => exact ⟨_, rfl⟩
  | optimistic u => cases hf

/-! ## Blocks -/

structure Withdrawal where
  index : UInt64
  validatorIndex : UInt64
  address : Address
  amount : UInt64
  deriving DecidableEq

structure ExecutionPayload where
  parentHash : Bytes32
  feeRecipient : Address
  stateRoot : Bytes32
  receiptsRoot : Bytes32
  logsBloom : Vector UInt8 256
  prevRandao : Bytes32
  blockNumber : UInt64
  gasLimit : UInt64
  gasUsed : UInt64
  timestamp : UInt64
  extraData : Bytes
  baseFeePerGas : U256
  blockHash : Bytes32
  transactions : List Bytes
  withdrawals : Option (List Withdrawal)
  deriving DecidableEq

/-- `ExecutionPayload::default()`. -/
instance : Inhabited ExecutionPayload where
  default :=
    { parentHash := zeroBytes 32, feeRecipient := zeroBytes 20, stateRoot := zeroBytes 32
      receiptsRoot := zeroBytes 32, logsBloom := zeroBytes 256, prevRandao := zeroBytes 32
      blockNumber := 0, gasLimit := 0, gasUsed := 0, timestamp := 0, extraData := []
      baseFeePerGas := 0, blockHash := zeroBytes 32, transactions := [], withdrawals := none }

structure BeaconBlockBody where
  executionPayload : ExecutionPayload
  /-- The other fields, serialized. -/
  rest : Bytes
  deriving DecidableEq

structure BeaconBlock where
  slot : UInt64
  proposerIndex : UInt64
  parentRoot : Bytes32
  stateRoot : Bytes32
  body : BeaconBlockBody
  deriving DecidableEq

/-! ## Configuration -/

structure ChainConfig where
  chainId : UInt64
  genesisTime : UInt64
  genesisRoot : Bytes32

structure Fork where
  epoch : UInt64
  forkVersion : Vector UInt8 4

structure Forks where
  genesis : Fork
  altair : Fork
  bellatrix : Fork
  capella : Fork

structure Config where
  chain : ChainConfig
  forks : Forks
  maxCheckpointAge : UInt64
  strictCheckpointAge : Bool

def Config.forkVersion (config : Config) (slot : UInt64) : Vector UInt8 4 :=
  let epoch := slot / 32
  if epoch ≥ config.forks.capella.epoch then config.forks.capella.forkVersion
  else if epoch ≥ config.forks.bellatrix.epoch then config.forks.bellatrix.forkVersion
  else if epoch ≥ config.forks.altair.epoch then config.forks.altair.forkVersion
  else config.forks.genesis.forkVersion

/-! ## The outside -/

/-- What the consensus server answers at one moment. -/
structure ConsensusRpc where
  getBootstrap : Bytes → Except Report Bootstrap
  getUpdates : UInt64 → UInt8 → Except Report (List Update)
  getFinalityUpdate : Except Report FinalityUpdate
  getOptimisticUpdate : Except Report OptimisticUpdate
  getBlock : UInt64 → Except Report BeaconBlock
  chainId : Except Report UInt64

/-- One moment: the clock, in whole seconds since the epoch, and the servers. -/
structure Moment where
  now : UInt64
  rpc : ConsensusRpc
  executionChainId : Except Report UInt64

/-- The moments met one after the other.  A call takes its requests and clock readings from the
    front and hands the rest on. -/
abbrev World := Nat → Moment

def World.drop (w : World) (n : Nat) : World := fun i => w (i + n)

theorem World.drop_const (moment : Moment) (n : Nat) :
    World.drop (fun _ => moment) n = fun _ => moment := rfl

/-- The result of a request (`.await?`). -/
def answer {α : Type} : Except Report α → Result α
  | .ok a => .ok a
  | .error e => .error (.err e)

@[simp] theorem answer_ok {α : Type} {r : Except Report α} {a : α} :
    answer r = .ok a ↔ r = .ok a := by
  cases r <;> simp [answer]

/-- Functions of other crates the consensus client calls: hash tree roots (none is a
    merkleization error), Merkle branches, and BLS keys and signatures (none does not parse). -/
structure ConsensusCrates where
  headerRoot : Header → Option Bytes32
  blockRoot : BeaconBlock → Option Bytes32
  committeeRoot : SyncCommittee → Option Bytes32
  signingDataRoot : Bytes32 → Bytes32 → Option Bytes32
  forkDataRoot : Vector UInt8 4 → Bytes32 → Option Bytes32
  isValidMerkleBranch : Bytes32 → List Bytes32 → Nat → Nat → Bytes32 → Bool
  PublicKey : Type
  publicKey : BLSPubKey → Option PublicKey
  Signature : Type
  signature : SignatureBytes → Option Signature
  fastAggregateVerify : Signature → Bytes → List PublicKey → Bool

/-- A hash tree root, or the merkleization error (`hash_tree_root()?`). -/
def rooted : Option Bytes32 → Result Bytes32
  | some root => .ok root
  | none => .error (.err .merkleization)

@[simp] theorem rooted_ok {r : Option Bytes32} {root : Bytes32} :
    rooted r = .ok root ↔ r = some root := by
  cases r <;> simp [rooted]

end Helios
