import Helios.Client.Payloads

/-!
# Which payloads are stored

The two head payloads are checked against verified headers.  The backfilled ones are not: the loop
starts at the parent hash of a block that is fetched a second time and not checked, and then
compares hashes the payloads claim for themselves.

* `ParentLink`, `Authentic` — what the store is for: payloads of verified blocks and their true
  ancestors, whose whole content hashes to the parent hash of the child.
* `HonestBackfill` — the answers to the backfill requests of a call are what they claim to be.
* `payloads_authentic` — **under calls that meet it, whatever else the server does, nothing else is
  stored**.
* `payloads_authentic_forged` — one forged answer, and a payload that is not authentic is stored.
-/

set_option autoImplicit false

namespace Helios

namespace Node

open ConsensusClient Attempt

variable {k : ConsensusCrates} {config : Config} {checkpoint : Bytes}
  {execHash : ExecutionPayload → Bytes32} {node mid : Node} {w w' : World} {call : Call}

/-! ## Authentic payloads -/

/-- The true parent of a payload: the hash of its whole content is the parent hash of the child,
    and so is the hash it claims for itself. -/
structure ParentLink (execHash : ExecutionPayload → Bytes32) (child parent : ExecutionPayload) :
    Prop where
  content : execHash parent = child.parentHash
  claimed : parent.blockHash = child.parentHash

/-- True ancestors, the payload itself included. -/
abbrev Ancestor (execHash : ExecutionPayload → Bytes32) :
    ExecutionPayload → ExecutionPayload → Prop :=
  Relation.ReflTransGen (ParentLink execHash)

/-- The payload of a block whose root is that of a verified header. -/
def VerifiedPayload (k : ConsensusCrates) (config : Config) (checkpoint : Bytes)
    (p : ExecutionPayload) : Prop :=
  ∃ header block root, VerifiedHeader k config checkpoint header ∧
    k.headerRoot header = some root ∧ k.blockRoot block = some root ∧
    block.body.executionPayload = p

def Authentic (k : ConsensusCrates) (config : Config) (checkpoint : Bytes)
    (execHash : ExecutionPayload → Bytes32) (p : ExecutionPayload) : Prop :=
  ∃ head, VerifiedPayload k config checkpoint head ∧ Ancestor execHash head p

theorem VerifiedPayload.authentic {p : ExecutionPayload}
    (h : VerifiedPayload k config checkpoint p) : Authentic k config checkpoint execHash p :=
  ⟨p, h, .refl⟩

theorem VerifiedHeader.payload {header : Header} {rpc : ConsensusRpc} {p : ExecutionPayload}
    (h : VerifiedHeader k config checkpoint header) (hp : PayloadOf k rpc header p) :
    VerifiedPayload k config checkpoint p := by
  obtain ⟨block, root, _, hblock, hheader, hpayload⟩ := hp
  exact ⟨header, block, root, h, hheader, hblock, hpayload⟩

/-! ## Honest answers -/

/-- When both heads are answered: the block answered at the end of the backfill has the parent of
    the head, or of one of its true ancestors, and every payload linked to it carries the hash of
    its content; or no payload is linked to it at all. -/
def HonestBackfill (k : ConsensusCrates) (execHash : ExecutionPayload → Bytes32) (w : World)
    (node : Node) : Prop :=
  ∀ head finalized endBlock, node.IsLatest k w head → node.IsFinalized k w finalized →
    (w 2).rpc.getBlock node.consensus.getHeader.slot = .ok endBlock →
    AllLinked (fun _ => False) (node.backfillOf w) endBlock.body.executionPayload.parentHash ∨
      ((∃ child, Ancestor execHash head child ∧
          endBlock.body.executionPayload.parentHash = child.parentHash) ∧
        AllLinked (fun p => execHash p = p.blockHash) (node.backfillOf w)
          endBlock.body.executionPayload.parentHash)

/-- **One call**: from a verified client and honest answers, only authentic payloads go in. -/
theorem inserted_authentic (hmid : (lightClient k config checkpoint).Reachable mid.consensus)
    (hw : mid.HonestBackfill k execHash w) {p : ExecutionPayload} (hp : p ∈ mid.inserted k w) :
    Authentic k config checkpoint execHash p := by
  have hlatest : ∀ q, mid.IsLatest k w q → VerifiedPayload k config checkpoint q :=
    fun q hq => VerifiedHeader.payload (reachable_verified hmid).1 hq
  rcases mem_inserted hp with (hl | hf) | ⟨head, finalized, endBlock, hl, hf, hend, hmem⟩
  · exact (hlatest p hl).authentic
  · exact (VerifiedHeader.payload (reachable_verified_target hmid) hf).authentic
  rcases hw head finalized endBlock hl hf hend with hnone | ⟨⟨child, hchild, hparent⟩, hbound⟩
  · exact absurd (allLinked_iff.1 hnone p hmem) id
  · rw [hparent] at hbound hmem
    have hlink : ∀ child parent : ExecutionPayload, execHash parent = parent.blockHash →
        parent.blockHash = child.parentHash → ParentLink execHash child parent :=
      fun _ _ hcontent hclaimed => ⟨hcontent.trans hclaimed, hclaimed⟩
    exact ⟨head, hlatest head hl, hchild.trans (collectPayloads_chain hlink hbound p hmem)⟩

/-! ## Whole runs -/

/-- **Every stored payload is authentic.**  In every run whose backfills are answered honestly,
    with the server free to do anything else, every payload that a call inserts, and so every
    payload a node holds, is that of a verified block or a true ancestor of one.  The one thing
    relied on is that the all-zero bytes are not a public key, as the store before a bootstrap
    holds nothing else. -/
theorem payloads_authentic (k : ConsensusCrates) (config : Config) (checkpoint : Bytes)
    (execHash : ExecutionPayload → Bytes32) (hzero : k.publicKey (zeroBytes 48) = none)
    (node : Node)
    (h : (serving k config checkpoint (AtPayloads k (HonestBackfill k execHash))).Reachable node) :
    (∀ p, node.Stored p → Authentic k config checkpoint execHash p) ∧
    ∀ call w w' mid, AtPayloads k (HonestBackfill k execHash) node call w w' →
      node.consensusHalf k call w = (.ok (), mid) →
      ∀ p ∈ mid.inserted k w', Authentic k config checkpoint execHash p := by
  have hinserted : ∀ node call w w' mid, Followed k config checkpoint node →
      AtPayloads k (HonestBackfill k execHash) node call w w' →
      node.consensusHalf k call w = (.ok (), mid) →
      ∀ p ∈ mid.inserted k w', Authentic k config checkpoint execHash p := by
    intro node call w w' mid hnode hmeets hhalf p hp
    have hmid := @followed_consensusHalf k config checkpoint node w call hzero hnode
    rw [hhalf] at hmid
    rcases hmid with ⟨herr, _⟩ | hreach
    · exact absurd rfl herr
    · exact inserted_authentic hreach (hmeets mid hhalf) hp
  have hrun : Followed k config checkpoint node ∧
      ∀ p, node.Stored p → Authentic k config checkpoint execHash p := by
    refine System.invariant
      (S := serving k config checkpoint (AtPayloads k (HonestBackfill k execHash)))
      (I := fun node => Followed k config checkpoint node ∧
        ∀ p, node.Stored p → Authentic k config checkpoint execHash p) ?_ ?_ h
    · rintro node rfl
      exact ⟨Or.inl ⟨rfl, rfl, rfl⟩, fun p hp => absurd hp not_stored_new⟩
    · rintro node node' _ ⟨hnode, hstored⟩ ⟨call, w, w', hmeets, rfl⟩
      refine ⟨followed_run hzero hnode, fun p hp => ?_⟩
      rcases stored_run hp with hp | ⟨mid, hhalf, hp⟩
      · exact hstored p hp
      · exact hinserted node call w w' mid hnode hmeets hhalf p hp
  exact ⟨hrun.2, fun call w w' mid => hinserted node call w w' mid hrun.1⟩

/-! ## A short chain after the checkpoint -/

def emptyRoot : Bytes32 :=
  beBytes 32 0x56e81f171bcc55a6ff8345e692c0f86e5b48e01b996cadc001622fb5e363b421

/-- A payload without transactions and withdrawals. -/
def emptyPayload (parentHash : Bytes32) (blockNumber slot : UInt64) (blockHash : Bytes32) :
    ExecutionPayload where
  parentHash := parentHash
  feeRecipient := zeroBytes 20
  stateRoot := emptyRoot
  receiptsRoot := emptyRoot
  logsBloom := zeroBytes 256
  prevRandao := zeroBytes 32
  blockNumber := blockNumber
  gasLimit := 30000000
  gasUsed := 0
  timestamp := 1606824023 + 12 * slot
  extraData := []
  baseFeePerGas := 7
  blockHash := blockHash
  transactions := []
  withdrawals := some []

def checkpointHash : Bytes32 :=
  beBytes 32 0x6246fcd012014f90c0721a33aa6b696629d76529b4810e78e72adb328a6167a0

def middleHash : Bytes32 :=
  beBytes 32 0x904ab4b59992e1532289d84b5f01ddb270b2956fd8f08cd21398f756b533e553

def headHash : Bytes32 :=
  beBytes 32 0xabeeae799b44770982a952745de552451eb55ab0c8ce07461fef2365a668a3c9

def laterHash : Bytes32 :=
  beBytes 32 0x2a1f41104e42cde2a9aaf3ec12d1b14ee54fcb103d8eebbf134e48705cd0cdd7

def checkpointPayload : ExecutionPayload :=
  emptyPayload (beBytes 32 0x11f1efd0825aa3c737ce7a3831438f918cc83545afbed69e69fddee7e6fd5811)
    17000000 6400000 checkpointHash

def middlePayload : ExecutionPayload := emptyPayload checkpointHash 17000001 6400001 middleHash

def headPayload : ExecutionPayload := emptyPayload middleHash 17000002 6400002 headHash

/-- A block that comes later, on another branch. -/
def laterPayload : ExecutionPayload := emptyPayload checkpointHash 17000001 6400042 laterHash

/-- The hash of the middle payload, on another content. -/
def forgedPayload : ExecutionPayload :=
  { middlePayload with stateRoot := Vector.replicate 32 0x11 }

def contentHash (p : ExecutionPayload) : Bytes32 :=
  ([(checkpointPayload, checkpointHash), (middlePayload, middleHash), (headPayload, headHash),
    (laterPayload, laterHash), (forgedPayload,
      beBytes 32 0x19dd189207c5593be7644a3953012caff1e448eacb2af24e651f410db4031e37)].lookup
    p).getD (zeroBytes 32)

/-- A beacon block whose body holds nothing but the payload. -/
def emptyBlock (slot : UInt64) (parentRoot stateRoot : Bytes32) (payload : ExecutionPayload) :
    BeaconBlock where
  slot := slot
  proposerIndex := 0
  parentRoot := parentRoot
  stateRoot := stateRoot
  body := { executionPayload := payload, rest := List.replicate 360 0 }

/-- A beacon state with the checkpoint's header as its finalized checkpoint. -/
def finalizedState : Bytes32 :=
  beBytes 32 0x0af0c96969e7a3b4b7b8c7fa3efd7859a37c07f78631e6d3de78fcba51adda58

def middleRoot : Bytes32 :=
  beBytes 32 0x5c6bd805386faa3396c7485248319bf3711ec749a776df0ddc300afdd50b419f

def headRoot : Bytes32 :=
  beBytes 32 0xce76bc4ed1f8551141033bc5cc8d7b8f3ad16f81613476b773450514e04ac1f6

def laterRoot : Bytes32 :=
  beBytes 32 0xf90495134cf38e4713eada474650a656559125bb7e33af73235f03336b37fffc

def checkpointBlock : BeaconBlock :=
  emptyBlock 6400000 checkpointHeader.parentRoot checkpointHeader.stateRoot checkpointPayload

def middleBlock : BeaconBlock := emptyBlock 6400001 checkpointRoot (zeroBytes 32) middlePayload

def headBlock : BeaconBlock := emptyBlock 6400002 middleRoot finalizedState headPayload

def laterBlock : BeaconBlock := emptyBlock 6400042 checkpointRoot finalizedState laterPayload

def forgedBlock : BeaconBlock := emptyBlock 6400001 checkpointRoot (zeroBytes 32) forgedPayload

def headHeader : Header where
  slot := 6400002
  proposerIndex := 0
  parentRoot := middleRoot
  stateRoot := finalizedState
  bodyRoot := 
    beBytes 32 0x84da04d6c5aefd8b62609db7836852ff7b917829792bd051e9d2ddc9c2b1b81c

def laterHeader : Header where
  slot := 6400042
  proposerIndex := 0
  parentRoot := checkpointRoot
  stateRoot := finalizedState
  bodyRoot := 
    beBytes 32 0x9ac38b6c7a61c00c197ababaf795c0990b716f2ba10633582945495ee4c4859d

/-! ## What its committee signs -/

def headSigningRoot : Bytes32 :=
  beBytes 32 0xa721c70f9a8418558a57942af569b932669d6d91ddb8a3894c9526b934d679a3

def laterSigningRoot : Bytes32 :=
  beBytes 32 0x4c385d9937039a54836255d62b199dfa2f8170d1fa22ad97b31a0cba03b07553

def headSignature : SignatureBytes :=
  beBytes 96 0xb1e5527ea63a86363fdedd4940368981814187352b7a6ec934c817d743a70fb37bbc724ec9076f29a4a7f57ecb5ee8431143e06c2af874a842a135367c5c604e537756c70bda8fcd462aae4b7627db6f0d8fc2bd46a2df2f8d4c4808584e4e68

def laterSignature : SignatureBytes :=
  beBytes 96 0xb533d57089eecfb7668ed2086221bfa18ba0573ccc9aa98e54299ed81a30e97f216579c48a3900aed5a7f461151d09321497e78cac796fcfb8d6a5e3d9cd12b0969a065e705fd12a39ecb641f74dfe16da719a40143ab2c2bdaaba2e048a8b2d

def headerRoots : List (Header × Bytes32) :=
  [(checkpointHeader, checkpointRoot), (headHeader, headRoot), (laterHeader, laterRoot)]

def blockRoots : List (BeaconBlock × Bytes32) :=
  [(checkpointBlock, checkpointRoot), (headBlock, headRoot), (laterBlock, laterRoot)]

/-- The roots and branches of the chain, and the signatures of one member. -/
def chainCrates : ConsensusCrates where
  headerRoot header := headerRoots.lookup header
  blockRoot block := blockRoots.lookup block
  committeeRoot := memberRoots
  signingDataRoot root domain :=
    [((headRoot, capellaDomain), headSigningRoot),
      ((laterRoot, capellaDomain), laterSigningRoot)].lookup (root, domain)
  forkDataRoot version root :=
    if version = mainnet.forks.capella.forkVersion ∧ root = mainnet.chain.genesisRoot then
      some (beBytes 32 0xbba4da96354c9f25476cf1bc69bf583a7f9e0af049305b62de676640e84b3899)
    else none
  isValidMerkleBranch leaf branch depth index root :=
    [(memberCommitteeRoot, List.replicate 5 (zeroBytes 32), 5, 22, checkpointHeader.stateRoot),
      (checkpointRoot, List.replicate 6 (zeroBytes 32), 6, 41, finalizedState)].contains
        (leaf, branch, depth, index, root)
  PublicKey := Bytes
  publicKey pk := if pk = memberKey then some pk.toList else none
  Signature := Bytes
  signature sig := some sig.toList
  fastAggregateVerify sig msg pks :=
    decide ((sig, msg, pks) ∈
      [(headSignature.toList, headSigningRoot.toList, [memberKey.toList]),
        (laterSignature.toList, laterSigningRoot.toList, [memberKey.toList])])
/-- One member of the committee takes part. -/
def oneBit : Vector Bool 512 :=
  ⟨(true :: List.replicate 511 false).toArray, by
    rw [List.size_toArray, List.length_cons, List.length_replicate]⟩

def finalityOf (header : Header) (signature : SignatureBytes) : FinalityUpdate where
  attestedHeader := header
  finalizedHeader := checkpointHeader
  finalityBranch := List.replicate 6 (zeroBytes 32)
  syncAggregate := ⟨oneBit, signature⟩
  signatureSlot := header.slot + 1

def optimisticOf (header : Header) (signature : SignatureBytes) : OptimisticUpdate where
  attestedHeader := header
  syncAggregate := ⟨oneBit, signature⟩
  signatureSlot := header.slot + 1

/-- A server that follows one head and has these blocks. -/
def chainMoment (now : UInt64) (header : Header) (signature : SignatureBytes)
    (blocks : List (UInt64 × BeaconBlock)) : Moment where
  now := now
  rpc :=
    { checkpointRpc with
      getFinalityUpdate := .ok (finalityOf header signature)
      getOptimisticUpdate := .ok (optimisticOf header signature)
      getBlock := fun slot =>
        match blocks.lookup slot with
        | some block => .ok block
        | none => .error (.rpc "blocks") }
  executionChainId := .ok 1

/-- One slot after the head. -/
def headMoment (blocks : List (UInt64 × BeaconBlock)) : Moment :=
  chainMoment 1683624059 headHeader headSignature blocks

theorem headMoment_getBlock {blocks : List (UInt64 × BeaconBlock)} {slot : UInt64}
    {block : BeaconBlock} :
    (headMoment blocks).rpc.getBlock slot = .ok block ↔ blocks.lookup slot = some block := by
  unfold headMoment chainMoment
  simp only
  cases blocks.lookup slot <;> simp

/-- The client of the checkpoint, following one head. -/
def clientAt (header : Header) : ConsensusClient :=
  { bootstrapped with
    store :=
      { bootstrapped.store with
        optimisticHeader := header
        currentMaxActiveParticipants := 1 } }

theorem oneBit_getBits : getBits oneBit = 1 := by
  decide +kernel

theorem followHead_chain {now : UInt64} {header : Header} {signature : SignatureBytes}
    {blocks : List (UInt64 × BeaconBlock)} {client client' : ConsensusClient}
    (hverify : client.verifyGenericUpdate chainCrates now
      (finalityOf header signature).toGeneric = .ok ())
    (happly : client.applyGenericUpdate chainCrates now now
      (finalityOf header signature).toGeneric = .ok client')
    (hverify' : client'.verifyGenericUpdate chainCrates now
      (optimisticOf header signature).toGeneric = .ok ())
    (happly' : client'.applyGenericUpdate chainCrates now now
      (optimisticOf header signature).toGeneric = .ok client') :
    followHead chainCrates (fun _ => chainMoment now header signature blocks) client =
      (.ok (), client') := by
  have hfinality : answer (chainMoment now header signature blocks).rpc.getFinalityUpdate =
      .ok (finalityOf header signature) := rfl
  have hoptimistic : answer (chainMoment now header signature blocks).rpc.getOptimisticUpdate =
      .ok (optimisticOf header signature) := rfl
  have hnow : (chainMoment now header signature blocks).now = now := rfl
  simp only [followHead, verifyAndApply, hfinality, hoptimistic, hnow, request, andThen,
    World.drop_const, hverify, happly, hverify', happly']

/-- Applying an update that one member signed. -/
theorem apply_oneBit {client : ConsensusClient} {now : UInt64} {update : GenericUpdate}
    (hbits : update.syncAggregate.syncCommitteeBits = oneBit) {result : Result ConsensusClient}
    (h : (match (client.raiseParticipants 1).applyOptimistic now update 1 with
      | .error e => .error e
      | .ok client =>
        if shouldApplyUpdate client.store update 1 then
          match client.applyCommittee update with
          | .error e => .error e
          | .ok client => client.applyFinalized chainCrates now update
        else .ok client) = result) :
    client.applyGenericUpdate chainCrates now now update = result := by
  rw [applyGenericUpdate, hbits, oneBit_getBits]
  exact h

theorem headMoment_followHead {blocks : List (UInt64 × BeaconBlock)} :
    followHead chainCrates (fun _ => headMoment blocks) bootstrapped =
      (.ok (), clientAt headHeader) :=
  followHead_chain (by decide +kernel) (apply_oneBit rfl rfl) (by decide +kernel)
    (apply_oneBit rfl rfl)

theorem chain_committee_valid : isCurrentCommitteeProofValid chainCrates checkpointHeader
    memberCommittee (List.replicate 5 (zeroBytes 32)) = true := by
  have hroot : chainCrates.committeeRoot = memberRoots := rfl
  rw [isCurrentCommitteeProofValid, hroot, memberRoots_member, isProofValid.eq_def]
  decide +kernel

theorem headMoment_sync {blocks : List (UInt64 × BeaconBlock)} :
    ConsensusClient.sync chainCrates (fun _ => headMoment blocks)
      (ConsensusClient.new checkpointRoot.toList mainnet) = (.ok (), clientAt headHeader) := by
  have hage : (ConsensusClient.new checkpointRoot.toList mainnet).isValidCheckpoint
      1683624059 checkpointBootstrap.header.slot = .ok true := by
    decide +kernel
  have hroot : chainCrates.headerRoot checkpointBootstrap.header = some checkpointRoot := by
    decide +kernel
  have hboot : bootstrap chainCrates (fun _ => headMoment blocks)
      (ConsensusClient.new checkpointRoot.toList mainnet) = (.ok (), bootstrapped) := by
    rw [bootstrap_of_valid rfl hage hroot rfl chain_committee_valid]
    rfl
  have hupdates : answer ((headMoment blocks).rpc.getUpdates
      (calcSyncPeriod bootstrapped.store.finalizedHeader.slot) maxRequestLightClientUpdates) =
        .ok [] := rfl
  unfold ConsensusClient.sync
  exact andThen_ok.2 ⟨bootstrapped, hboot, request_ok.2 ⟨[], hupdates,
    andThen_ok.2 ⟨bootstrapped, rfl, headMoment_followHead⟩⟩⟩

/-- A node that has followed the server to the head. -/
def syncedNode : Node :=
  { Node.new checkpointRoot.toList mainnet with consensus := clientAt headHeader }

theorem headMoment_consensusHalf {blocks : List (UInt64 × BeaconBlock)} :
    (Node.new checkpointRoot.toList mainnet).consensusHalf chainCrates .sync
      (fun _ => headMoment blocks) = (.ok (), syncedNode) := by
  have hsync : ConsensusClient.sync chainCrates (fun _ => headMoment blocks)
      (Node.new checkpointRoot.toList mainnet).consensus = (.ok (), clientAt headHeader) :=
    headMoment_sync
  unfold consensusHalf syncConsensus
  refine request_ok.2 ⟨(), rfl, request_ok.2 ⟨(), rfl, ?_⟩⟩
  rw [World.drop_const, hsync]
  rfl

def honestBlocks : List (UInt64 × BeaconBlock) :=
  [(6400000, checkpointBlock), (6400001, middleBlock), (6400002, headBlock)]

def forgedBlocks : List (UInt64 × BeaconBlock) :=
  [(6400000, checkpointBlock), (6400001, forgedBlock), (6400002, headBlock)]

/-- The node after its first call, with these blocks answered. -/
def afterSync (blocks : List (UInt64 × BeaconBlock)) : Node :=
  (syncedNode.updatePayloads chainCrates fun _ => headMoment blocks).2

theorem afterSync_run {blocks : List (UInt64 × BeaconBlock)} :
    (Node.new checkpointRoot.toList mainnet).run chainCrates .sync (fun _ => headMoment blocks)
      (fun _ => headMoment blocks) =
        syncedNode.updatePayloads chainCrates fun _ => headMoment blocks :=
  run_of_half headMoment_consensusHalf

theorem afterSync_reachable {blocks : List (UInt64 × BeaconBlock)}
    {Meets : Node → Call → World → World → Prop}
    (h : Meets (Node.new checkpointRoot.toList mainnet) .sync (fun _ => headMoment blocks)
      fun _ => headMoment blocks) :
    (serving chainCrates mainnet checkpointRoot.toList Meets).Reachable (afterSync blocks) :=
  .step (.init rfl) ⟨.sync, _, _, h, by rw [afterSync_run]; rfl⟩

theorem headMoment_atPayloads {blocks : List (UInt64 × BeaconBlock)} {C : World → Node → Prop}
    (h : C (fun _ => headMoment blocks) syncedNode) :
    AtPayloads chainCrates C (Node.new checkpointRoot.toList mainnet) .sync
      (fun _ => headMoment blocks) fun _ => headMoment blocks := by
  intro mid hmid
  rw [headMoment_consensusHalf] at hmid
  cases hmid
  exact h

theorem honestBlocks_honest :
    HonestBackfill chainCrates contentHash (fun _ => headMoment honestBlocks) syncedNode := by
  rintro head finalized endBlock ⟨block, _, hblock, _, _, rfl⟩ _ hend
  right
  have hhead : block = endBlock := by
    have heq := hblock.symm.trans hend
    cases heq
    rfl
  have hendBlock : endBlock = headBlock := by
    cases hend
    rfl
  subst hhead hendBlock
  refine ⟨⟨_, .refl, rfl⟩, allLinked_iff.2 ?_⟩
  decide +kernel

theorem payloads_authentic_chain : (afterSync honestBlocks).Stored middlePayload ∧
    Authentic chainCrates mainnet checkpointRoot.toList contentHash middlePayload := by
  have hstored : (afterSync honestBlocks).Stored middlePayload :=
    ⟨17000001, Or.inl (by decide +kernel)⟩
  have hzero : chainCrates.publicKey (zeroBytes 48) = none := by
    decide +kernel
  exact ⟨hstored, (payloads_authentic chainCrates mainnet checkpointRoot.toList contentHash hzero _
    (afterSync_reachable (headMoment_atPayloads honestBlocks_honest))).1 _ hstored⟩

/-! ## A forged answer -/

theorem mem_of_lookup {α β : Type} [BEq α] [LawfulBEq α] {a : α} {b : β} {l : List (α × β)}
    (h : l.lookup a = some b) : (a, b) ∈ l := by
  obtain ⟨l₁, l₂, rfl, _⟩ := List.lookup_eq_some_iff.1 h
  exact List.mem_append_right _ List.mem_cons_self

theorem chain_block {block : BeaconBlock} {root : Bytes32}
    (h : chainCrates.blockRoot block = some root) :
    block = checkpointBlock ∨ block = headBlock ∨ block = laterBlock := by
  have hmem : (block, root) ∈ blockRoots := mem_of_lookup h
  unfold blockRoots at hmem
  simp only [List.mem_cons, Prod.mk.injEq, List.not_mem_nil, or_false] at hmem
  exact hmem.imp And.left (Or.imp And.left And.left)

/-- A forged payload is stored: it has the hash of the true parent of the head, whose content it
    does not have, and it is no verified payload's ancestor. -/
theorem payloads_authentic_forged :
    (serving chainCrates mainnet checkpointRoot.toList fun _ _ _ _ => True).Reachable
        (afterSync forgedBlocks) ∧
      (afterSync forgedBlocks).Stored forgedPayload ∧
      forgedPayload.blockHash = contentHash middlePayload ∧
      contentHash forgedPayload ≠ forgedPayload.blockHash ∧
      ¬ Authentic chainCrates mainnet checkpointRoot.toList contentHash forgedPayload := by
  have hhash : contentHash forgedPayload ≠ forgedPayload.blockHash := by
    decide +kernel
  refine ⟨afterSync_reachable trivial, ⟨17000001, Or.inl (by decide +kernel)⟩,
    by decide +kernel, hhash, ?_⟩
  rintro ⟨head, hhead, hancestor⟩
  rcases hancestor.cases_tail with rfl | ⟨child, _, hlink⟩
  · have hne : forgedPayload ≠ checkpointPayload ∧ forgedPayload ≠ headPayload ∧
        forgedPayload ≠ laterPayload := by
      decide +kernel
    obtain ⟨_, block, root, _, _, hblock, hpayload⟩ := hhead
    rcases chain_block hblock with rfl | rfl | rfl
    · exact hne.1 hpayload.symm
    · exact hne.2.1 hpayload.symm
    · exact hne.2.2 hpayload.symm
  · exact hhash (hlink.content.trans hlink.claimed.symm)

end Node

end Helios
