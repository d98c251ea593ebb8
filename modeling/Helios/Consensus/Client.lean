import Helios.Consensus.Utils
import Helios.Lib.System

/-!
# The consensus client (`consensus/src/consensus.rs`)

A call takes the moments it meets from the front of a `World`.  `sync` and `advance` return an
`Attempt`: the updates applied before a failure stay applied.

* `verifyGenericUpdate`, `applyGenericUpdate` — the checks on an update, and what it changes.  The
  latter is cut into `raiseParticipants`, `applyOptimistic`, `applyCommittee` and
  `applyFinalized`, in the order of the source.
* `bootstrap`, `sync`, `advance`, `getExecutionPayload`, `getPayloads`.

The log lines are left out; the age they print is kept, since computing it can panic.
-/

set_option autoImplicit false

namespace Helios

structure LightClientStore where
  finalizedHeader : Header
  currentSyncCommittee : SyncCommittee
  nextSyncCommittee : Option SyncCommittee
  optimisticHeader : Header
  previousMaxActiveParticipants : UInt64
  currentMaxActiveParticipants : UInt64
  deriving DecidableEq

/-- `LightClientStore::default()`. -/
instance : Inhabited LightClientStore := ⟨⟨default, default, none, default, 0, 0⟩⟩

structure ConsensusClient where
  store : LightClientStore
  initialCheckpoint : Bytes
  lastCheckpoint : Option Bytes
  config : Config

variable (k : ConsensusCrates)

namespace ConsensusClient

def new (checkpointBlockRoot : Bytes) (config : Config) : ConsensusClient where
  store := default
  initialCheckpoint := checkpointBlockRoot
  lastCheckpoint := none
  config := config

def checkRpc (w : World) (client : ConsensusClient) : Result Unit :=
  match answer (w 0).rpc.chainId with
  | .error e => .error e
  | .ok chainId =>
    if chainId ≠ client.config.chain.chainId then
      .error (.err (.consensus .incorrectRpcNetwork))
    else .ok ()

/-! ## Time -/

def slotTimestamp (client : ConsensusClient) (slot : UInt64) : UInt64 :=
  slot * 12 + client.config.chain.genesisTime

def expectedCurrentSlot (client : ConsensusClient) (now : UInt64) : Result UInt64 :=
  let genesisTime := client.config.chain.genesisTime
  if now < genesisTime then .error (.panic .clockBeforeGenesis)
  else .ok ((now - genesisTime) / 12)

/-- Most seconds a `chrono::Duration` holds. -/
def maxDuration : UInt64 := 9223372036854775

def age (client : ConsensusClient) (now slot : UInt64) : Result UInt64 :=
  let expectedTime := client.slotTimestamp slot
  if now < expectedTime then .error (.panic .durationUnderflow)
  else
    let delay := now - expectedTime
    if maxDuration < delay then .error (.panic .durationOutOfRange) else .ok delay

def isValidCheckpoint (client : ConsensusClient) (now blockhashSlot : UInt64) : Result Bool :=
  match client.expectedCurrentSlot now with
  | .error e => .error e
  | .ok currentSlot =>
    let currentSlotTimestamp := client.slotTimestamp currentSlot
    let blockhashSlotTimestamp := client.slotTimestamp blockhashSlot
    let slotAge := currentSlotTimestamp - blockhashSlotTimestamp
    .ok (decide (slotAge < client.config.maxCheckpointAge))

/-! ## Payloads -/

def getHeader (client : ConsensusClient) : Header := client.store.optimisticHeader

def getFinalizedHeader (client : ConsensusClient) : Header := client.store.finalizedHeader

def getExecutionPayload (client : ConsensusClient) (rpc : ConsensusRpc) (slot : Option UInt64) :
    Result ExecutionPayload :=
  let slot := slot.getD client.store.optimisticHeader.slot
  match answer (rpc.getBlock slot) with
  | .error e => .error e
  | .ok block =>
    match rooted (k.blockRoot block) with
    | .error e => .error e
    | .ok blockHash =>
      let latestSlot := client.store.optimisticHeader.slot
      let finalizedSlot := client.store.finalizedHeader.slot
      let verified : Result Bytes32 :=
        if slot = latestSlot then rooted (k.headerRoot client.store.optimisticHeader)
        else if slot = finalizedSlot then rooted (k.headerRoot client.store.finalizedHeader)
        else .error (.err (.consensus (.payloadNotFound slot)))
      match verified with
      | .error e => .error e
      | .ok verifiedBlockHash =>
        if verifiedBlockHash ≠ blockHash then
          .error (.err (.consensus
            (.invalidHeaderHash blockHash.toList verifiedBlockHash.toList)))
        else .ok block.body.executionPayload

/-- The loop of `get_payloads` over the answers of the backfill requests. -/
def collectPayloads : List (Except Report BeaconBlock) → Bytes32 → List ExecutionPayload
  | [], _ => []
  | .error _ :: rest, prevParentHash => collectPayloads rest prevParentHash
  | .ok block :: rest, prevParentHash =>
    let payload := block.body.executionPayload
    if payload.blockHash ≠ prevParentHash then []
    else payload :: collectPayloads rest payload.parentHash

/-- The slots `(start_slot..end_slot).rev()`. -/
def backfillSlots (startSlot endSlot : UInt64) : List UInt64 :=
  (List.range (endSlot.toNat - startSlot.toNat)).map fun i => endSlot - 1 - UInt64.ofNat i

/-- The answers to the backfill requests, each at its own moment. -/
def backfillAnswers (w : World) (startSlot endSlot : UInt64) : List (Except Report BeaconBlock) :=
  (backfillSlots startSlot endSlot).mapIdx fun i slot => (w i).rpc.getBlock slot

def getPayloads (w : World) (startSlot endSlot : UInt64) : Result (List ExecutionPayload) :=
  match answer ((w 0).rpc.getBlock endSlot) with
  | .error e => .error e
  | .ok endBlock =>
    let prevParentHash := endBlock.body.executionPayload.parentHash
    .ok (collectPayloads (backfillAnswers (w.drop 1) startSlot endSlot) prevParentHash)

/-! ## Verifying an update -/

def updateFinalizedSlot (update : GenericUpdate) : UInt64 :=
  match update.finalizedHeader with
  | some header => header.slot
  | none => 0

/-- Whether the update's finality proof, if it has one, is valid. -/
def finalityProofOk (update : GenericUpdate) : Bool :=
  match update.finalizedHeader, update.finalityBranch with
  | some header, some branch => isFinalityProofValid k update.attestedHeader header branch
  | _, _ => true

/-- Whether the update's next committee proof, if it has one, is valid. -/
def committeeProofOk (update : GenericUpdate) : Bool :=
  match update.nextSyncCommittee, update.nextSyncCommitteeBranch with
  | some committee, some branch => isNextCommitteeProofValid k update.attestedHeader committee branch
  | _, _ => true

def validPeriod (store : LightClientStore) (update : GenericUpdate) : Bool :=
  let storePeriod := calcSyncPeriod store.finalizedHeader.slot
  let updateSigPeriod := calcSyncPeriod update.signatureSlot
  if store.nextSyncCommittee.isSome then
    updateSigPeriod == storePeriod || updateSigPeriod == storePeriod + 1
  else updateSigPeriod == storePeriod

def updateHasNextCommittee (store : LightClientStore) (update : GenericUpdate) : Bool :=
  store.nextSyncCommittee.isNone && update.nextSyncCommittee.isSome &&
    calcSyncPeriod update.attestedHeader.slot == calcSyncPeriod store.finalizedHeader.slot

/-- The committee whose signature is checked. -/
def signingCommittee (store : LightClientStore) (update : GenericUpdate) : Result SyncCommittee :=
  if calcSyncPeriod update.signatureSlot = calcSyncPeriod store.finalizedHeader.slot then
    .ok store.currentSyncCommittee
  else
    match store.nextSyncCommittee with
    | some committee => .ok committee
    | none => .error (.panic .nextSyncCommitteeUnwrap)

def verifyGenericUpdate (client : ConsensusClient) (now : UInt64) (update : GenericUpdate) :
    Result Unit :=
  let bits := getBits update.syncAggregate.syncCommitteeBits
  if bits = 0 then .error (.err (.consensus .insufficientParticipation))
  else
    match client.expectedCurrentSlot now with
    | .error e => .error e
    | .ok currentSlot =>
      let validTime := currentSlot ≥ update.signatureSlot ∧
        update.signatureSlot > update.attestedHeader.slot ∧
        update.attestedHeader.slot ≥ updateFinalizedSlot update
      if ¬ validTime then .error (.err (.consensus .invalidTimestamp))
      else if validPeriod client.store update = false then
        .error (.err (.consensus .invalidPeriod))
      else if update.attestedHeader.slot ≤ client.store.finalizedHeader.slot ∧
          updateHasNextCommittee client.store update = false then
        .error (.err (.consensus .notRelevant))
      else if finalityProofOk k update = false then
        .error (.err (.consensus .invalidFinalityProof))
      else if committeeProofOk k update = false then
        .error (.err (.consensus .invalidNextSyncCommitteeProof))
      else
        match signingCommittee client.store update with
        | .error e => .error e
        | .ok syncCommittee =>
          match getParticipatingKeys k syncCommittee update.syncAggregate.syncCommitteeBits with
          | .error e => .error e
          | .ok pks =>
            let isValidSig := verifySyncCommitteeSignture k client.config pks
              update.attestedHeader update.syncAggregate.syncCommitteeSignature
              update.signatureSlot
            if isValidSig = false then .error (.err (.consensus .invalidSignature)) else .ok ()

/-! ## Applying an update -/

def safetyThreshold (store : LightClientStore) : UInt64 :=
  max store.currentMaxActiveParticipants store.previousMaxActiveParticipants / 2

def hasFinalityUpdate (update : GenericUpdate) : Bool :=
  update.finalizedHeader.isSome && update.finalityBranch.isSome

def hasSyncUpdate (update : GenericUpdate) : Bool :=
  update.nextSyncCommittee.isSome && update.nextSyncCommitteeBranch.isSome

def raiseParticipants (client : ConsensusClient) (committeeBits : UInt64) : ConsensusClient :=
  { client with
    store := { client.store with
      currentMaxActiveParticipants := max client.store.currentMaxActiveParticipants committeeBits } }

/-- The optimistic header moves to a newer attested one with enough participation. -/
def applyOptimistic (client : ConsensusClient) (now : UInt64) (update : GenericUpdate)
    (committeeBits : UInt64) : Result ConsensusClient :=
  let shouldUpdateOptimistic := committeeBits > safetyThreshold client.store ∧
    update.attestedHeader.slot > client.store.optimisticHeader.slot
  if shouldUpdateOptimistic then
    let client := { client with
      store := { client.store with optimisticHeader := update.attestedHeader } }
    -- `log_optimistic_update`
    match client.age now client.store.optimisticHeader.slot with
    | .error e => .error e
    | .ok _ => .ok client
  else .ok client

def shouldApplyUpdate (store : LightClientStore) (update : GenericUpdate)
    (committeeBits : UInt64) : Bool :=
  let updateAttestedPeriod := calcSyncPeriod update.attestedHeader.slot
  let updateFinalizedPeriod := calcSyncPeriod (updateFinalizedSlot update)
  let updateHasFinalizedNextCommittee := store.nextSyncCommittee.isNone &&
    hasSyncUpdate update && hasFinalityUpdate update &&
    updateFinalizedPeriod == updateAttestedPeriod
  let hasMajority := committeeBits * 3 ≥ 512 * 2
  let updateIsNewer := updateFinalizedSlot update > store.finalizedHeader.slot
  hasMajority && (updateIsNewer || updateHasFinalizedNextCommittee)

/-- The next committee is filled in, or the committees rotate. -/
def applyCommittee (client : ConsensusClient) (update : GenericUpdate) : Result ConsensusClient :=
  let storePeriod := calcSyncPeriod client.store.finalizedHeader.slot
  let updateFinalizedPeriod := calcSyncPeriod (updateFinalizedSlot update)
  if client.store.nextSyncCommittee.isNone then
    .ok { client with
      store := { client.store with nextSyncCommittee := update.nextSyncCommittee } }
  else if updateFinalizedPeriod = storePeriod + 1 then
    match client.store.nextSyncCommittee with
    | none => .error (.panic .nextSyncCommitteeUnwrap)
    | some committee =>
      .ok { client with
        store := { client.store with
          currentSyncCommittee := committee
          nextSyncCommittee := update.nextSyncCommittee
          previousMaxActiveParticipants := client.store.currentMaxActiveParticipants
          currentMaxActiveParticipants := 0 } }
  else .ok client

/-- The checkpoint to keep, at an epoch boundary. -/
def checkpointOf (header : Header) (last : Option Bytes) : Option Bytes :=
  if header.slot % 32 = 0 then
    match k.headerRoot header with
    | some checkpoint => some checkpoint.toList
    | none => last
  else last

def applyFinalized (client : ConsensusClient) (now : UInt64) (update : GenericUpdate) :
    Result ConsensusClient :=
  if updateFinalizedSlot update > client.store.finalizedHeader.slot then
    match update.finalizedHeader with
    | none => .error (.panic .finalizedHeaderUnwrap)
    | some header =>
      -- `log_finality_update`
      match client.age now header.slot with
      | .error e => .error e
      | .ok _ =>
        .ok { client with
          store := { client.store with
            finalizedHeader := header
            optimisticHeader :=
              if header.slot > client.store.optimisticHeader.slot then header
              else client.store.optimisticHeader }
          lastCheckpoint := checkpointOf k header client.lastCheckpoint }
  else .ok client

/-- `apply_generic_update`; the two readings of the clock are those of the two log lines. -/
def applyGenericUpdate (client : ConsensusClient) (now now' : UInt64) (update : GenericUpdate) :
    Result ConsensusClient :=
  let committeeBits := getBits update.syncAggregate.syncCommitteeBits
  match (client.raiseParticipants committeeBits).applyOptimistic now update committeeBits with
  | .error e => .error e
  | .ok client =>
    if shouldApplyUpdate client.store update committeeBits then
      match client.applyCommittee update with
      | .error e => .error e
      | .ok client => client.applyFinalized k now' update
    else .ok client

/-! ## Bootstrap, sync and advance -/

open Attempt

def bootstrap (w : World) (client : ConsensusClient) : Attempt Fault ConsensusClient :=
  request (mapErr (fun _ => .message "could not fetch bootstrap")
    (answer ((w 0).rpc.getBootstrap client.initialCheckpoint))) client fun bootstrap =>
  request (client.isValidCheckpoint (w 1).now bootstrap.header.slot) client fun isValid =>
  if isValid = false ∧ client.config.strictCheckpointAge = true then
    (.error (.err (.consensus .checkpointTooOld)), client)
  else
    let committeeValid := isCurrentCommitteeProofValid k bootstrap.header
      bootstrap.currentSyncCommittee bootstrap.currentSyncCommitteeBranch
    request (rooted (k.headerRoot bootstrap.header)) client fun headerHash =>
    if headerHash.toList ≠ client.initialCheckpoint then
      (.error (.err (.consensus (.invalidHeaderHash client.initialCheckpoint headerHash.toList))),
        client)
    else if committeeValid = false then
      (.error (.err (.consensus .invalidCurrentSyncCommitteeProof)), client)
    else
      (.ok (), { client with
        store :=
          { finalizedHeader := bootstrap.header
            currentSyncCommittee := bootstrap.currentSyncCommittee
            nextSyncCommittee := none
            optimisticHeader := bootstrap.header
            previousMaxActiveParticipants := 0
            currentMaxActiveParticipants := 0 } })

/-- An update is verified and then applied (`verify_update(..)?; apply_update(..)`). -/
def verifyAndApply (w : World) (update : GenericUpdate) (client : ConsensusClient) :
    Attempt Fault ConsensusClient :=
  request (client.verifyGenericUpdate k (w 0).now update) client fun _ =>
  request (client.applyGenericUpdate k (w 1).now (w 2).now update) client fun client =>
  (.ok (), client)

def applyUpdates : World → List Update → ConsensusClient → Attempt Fault ConsensusClient
  | _, [], client => (.ok (), client)
  | w, update :: updates, client =>
    andThen (verifyAndApply k w update.toGeneric client) fun client =>
    applyUpdates (w.drop 3) updates client

/-- The finality update and then the optimistic one, which close both `sync` and `advance`. -/
def followHead (w : World) (client : ConsensusClient) : Attempt Fault ConsensusClient :=
  request (answer (w 0).rpc.getFinalityUpdate) client fun finalityUpdate =>
  andThen (verifyAndApply k (w.drop 1) finalityUpdate.toGeneric client) fun client =>
  request (answer (w 4).rpc.getOptimisticUpdate) client fun optimisticUpdate =>
  verifyAndApply k (w.drop 5) optimisticUpdate.toGeneric client

def maxRequestLightClientUpdates : UInt8 := 128

def sync (w : World) (client : ConsensusClient) : Attempt Fault ConsensusClient :=
  andThen (client.bootstrap k w) fun client =>
  let currentPeriod := calcSyncPeriod client.store.finalizedHeader.slot
  request (answer ((w 2).rpc.getUpdates currentPeriod maxRequestLightClientUpdates)) client
    fun updates =>
  andThen (applyUpdates k (w.drop 3) updates client) fun client =>
  followHead k (w.drop (3 + 3 * updates.length)) client

/-- The next committee is asked for while it is unknown; a bad answer changes nothing. -/
def fetchCommittee (w : World) (client : ConsensusClient) : Attempt Fault ConsensusClient :=
  if client.store.nextSyncCommittee.isNone then
    let currentPeriod := calcSyncPeriod client.store.finalizedHeader.slot
    request (answer ((w 0).rpc.getUpdates currentPeriod 1)) client fun updates =>
    match updates with
    | [update] =>
      match client.verifyGenericUpdate k (w 1).now update.toGeneric with
      | .error (.err _) => (.ok (), client)
      | .error (.panic p) => (.error (.panic p), client)
      | .ok () =>
        request (client.applyGenericUpdate k (w 2).now (w 3).now update.toGeneric) client
          fun client => (.ok (), client)
    | _ => (.ok (), client)
  else (.ok (), client)

def advance (w : World) (client : ConsensusClient) : Attempt Fault ConsensusClient :=
  andThen (followHead k w client) fun client =>
  fetchCommittee k (w.drop 8) client

end ConsensusClient

end Helios
