import Helios.Client.Backfill
import Helios.Execution.FeeHistory

/-!
# Which payloads the block tags name

Heads are followed by slot, and looked up by block number: `Latest` is the entry of the map with
the largest number, whatever put it there.

* `HeadOnTop`, `FinalizedOnTop` — no stored or answered block has a larger number than the head, and
  none but the head has its number; likewise among the finalized ones.
* `insertHeads_isLast`, `full_isLast` — under them the head ends up last in the map.
* `heads_verified` — **so after every call that succeeds the two tags name the verified heads**.
* `heads_verified_reorganised` — a later head with a smaller number, and `Latest` is still the old one.
-/

set_option autoImplicit false

namespace Helios

namespace Node

open ConsensusClient Attempt OrderedMap

variable {k : ConsensusCrates} {config : Config} {checkpoint : Bytes} {node node' mid : Node}
  {w w' : World} {call : Call}

/-! ## The head comes last -/

/-- No stored block has a larger number than the head, and the other blocks that are answered have
    smaller ones. -/
def HeadOnTop (k : ConsensusCrates) (w : World) (node : Node) : Prop :=
  ∀ latest finalized, node.IsLatest k w latest → node.IsFinalized k w finalized →
    (∀ number ∈ node.payloads, number ≤ latest.blockNumber) ∧
    (finalized.blockNumber < latest.blockNumber ∨ finalized = latest) ∧
    ∀ endBlock, (w 2).rpc.getBlock node.consensus.getHeader.slot = .ok endBlock →
      AllLinked (fun p => p.blockNumber < latest.blockNumber ∨ p = latest) (node.backfillOf w)
        endBlock.body.executionPayload.parentHash

/-- No stored finalized block has a larger number than the finalized one, and when both heads have
    one slot they are one header. -/
def FinalizedOnTop (k : ConsensusCrates) (w : World) (node : Node) : Prop :=
  ∀ latest finalized, node.IsLatest k w latest → node.IsFinalized k w finalized →
    (∀ number ∈ node.finalizedPayloads, number ≤ finalized.blockNumber) ∧
    k.headerRoot node.consensus.finalizedTarget = k.headerRoot node.consensus.getFinalizedHeader

theorem below_or_same {p latest : ExecutionPayload}
    (h : p.blockNumber < latest.blockNumber ∨ p = latest) :
    compare p.blockNumber latest.blockNumber = .lt ∨
      (p.blockNumber = latest.blockNumber ∧ p = latest) := by
  rcases h with hlt | rfl
  · exact Or.inl (Std.compare_eq_lt.2 hlt)
  · exact Or.inr ⟨rfl, rfl⟩

theorem insertHeads_isLast {latest finalized : ExecutionPayload}
    (hkeys : ∀ number ∈ node.payloads, number ≤ latest.blockNumber)
    (hfinalized : finalized.blockNumber < latest.blockNumber ∨ finalized = latest) :
    IsLast (node.insertHeads latest finalized).payloads latest.blockNumber latest :=
  (isLast_insert_self fun number hnumber => below_of_le (hkeys number hnumber)).insert
    (below_or_same hfinalized)

theorem insertHeads_isLast_finalized {latest finalized : ExecutionPayload}
    (hkeys : ∀ number ∈ node.finalizedPayloads, number ≤ finalized.blockNumber) :
    IsLast (node.insertHeads latest finalized).finalizedPayloads finalized.blockNumber finalized :=
  isLast_insert_self fun number hnumber => below_of_le (hkeys number hnumber)

/-- Backfilling below the head and dropping the oldest entries keeps the ends of the maps. -/
theorem isLast_backfill_prune {latest : ExecutionPayload}
    {backfill : List ExecutionPayload} (hsize : node.historySize = 64)
    (hlast : IsLast node.payloads latest.blockNumber latest)
    (hbackfill : ∀ p ∈ backfill, p.blockNumber < latest.blockNumber ∨ p = latest) :
    IsLast (node.insertBackfill backfill).prune.payloads latest.blockNumber latest := by
  have hbound : 1 ≤ (node.insertBackfill backfill).historySize.toNat := by
    unfold insertBackfill
    rw [foldl_insertPayload, hsize]
    decide
  refine IsLast.popWhile hbound ?_
  unfold insertBackfill
  rw [foldl_insertPayload]
  exact hlast.insertAll fun p hp => below_or_same (hbackfill p hp)

theorem isLast_prune_finalized {finalized : ExecutionPayload} {backfill : List ExecutionPayload}
    (hlast : IsLast node.finalizedPayloads finalized.blockNumber finalized) :
    IsLast (node.insertBackfill backfill).prune.finalizedPayloads finalized.blockNumber
      finalized := by
  refine IsLast.popWhile (Nat.le_max_right _ _) ?_
  unfold insertBackfill
  rw [foldl_insertPayload]
  exact hlast

/-! ## Calls that succeed -/

/-- **The ends of the maps after a call.**  Under the conditions on its numbers, both heads are last
    in their maps when the call succeeds. -/
theorem updatePayloads_isLast (hsize : node.historySize = 64) (hhead : node.HeadOnTop k w)
    (hfin : node.FinalizedOnTop k w) (h : node.updatePayloads k w = (.ok (), node')) :
    ∃ latest finalized, node.IsLatest k w latest ∧ node.IsFinalized k w finalized ∧
      IsLast node'.payloads latest.blockNumber latest ∧
      IsLast node'.finalizedPayloads finalized.blockNumber finalized := by
  have hupdated : Updated k w node (node.updatePayloads k w) := updatePayloads_updated
  rw [h] at hupdated
  cases hupdated with
  | @full latest finalized endBlock hl hf hend =>
    obtain ⟨hkeys, hfinalized, hbackfill⟩ := hhead latest finalized hl hf
    have hlast := insertHeads_isLast hkeys hfinalized
    have hlastFinalized : IsLast (node.insertHeads latest finalized).finalizedPayloads
        finalized.blockNumber finalized :=
      insertHeads_isLast_finalized (hfin latest finalized hl hf).1
    exact ⟨latest, finalized, hl, hf,
      isLast_backfill_prune hsize hlast (allLinked_iff.1 (hbackfill endBlock hend)),
      isLast_prune_finalized hlastFinalized⟩

/-- What `Latest` and `Finalized` are asked to name: the payloads that `get_execution_payload`
    serves for the current headers, at the moments the node asked for them. -/
def NamesHeads (k : ConsensusCrates) (w : World) (node : Node) : Prop :=
  (∃ latest, node.getPayload .latest = .ok latest ∧
      node.consensus.getExecutionPayload k (w 0).rpc (some node.consensus.getHeader.slot) =
        .ok latest ∧
      PayloadOf k (w 0).rpc node.consensus.getHeader latest) ∧
    ∃ finalized, node.getPayload .finalized = .ok finalized ∧
      node.consensus.getExecutionPayload k (w 1).rpc
        (some node.consensus.getFinalizedHeader.slot) = .ok finalized ∧
      PayloadOf k (w 1).rpc node.consensus.getFinalizedHeader finalized

theorem payloadOf_of_root {rpc : ConsensusRpc} {header header' : Header} {p : ExecutionPayload}
    (hslot : header.slot = header'.slot) (hroot : k.headerRoot header = k.headerRoot header')
    (h : PayloadOf k rpc header p) : PayloadOf k rpc header' p := by
  obtain ⟨block, root, hblock, hblockRoot, hheader, hp⟩ := h
  exact ⟨block, root, hslot ▸ hblock, hblockRoot, hroot ▸ hheader, hp⟩

theorem finalizedTarget_slot {client : ConsensusClient} :
    client.finalizedTarget.slot = client.getFinalizedHeader.slot := by
  unfold finalizedTarget
  split
  · rename_i heq
    exact heq.symm
  · rfl

theorem updatePayloads_names (hsize : node.historySize = 64) (hhead : node.HeadOnTop k w)
    (hfin : node.FinalizedOnTop k w) (h : node.updatePayloads k w = (.ok (), node')) :
    NamesHeads k w node' := by
  obtain ⟨latest, finalized, hl, hf, hlast, hlastFinalized⟩ :=
    updatePayloads_isLast hsize hhead hfin h
  have hconsensus : node'.consensus = node.consensus := by
    have hframe : (node.updatePayloads k w).2.consensus = node.consensus := updatePayloads_frame.1
    rw [h] at hframe
    exact hframe
  rw [NamesHeads, hconsensus]
  refine ⟨⟨latest, ?_, getExecutionPayload_latest.2 hl, hl⟩, finalized, ?_,
    getExecutionPayload_finalized.2 hf,
    payloadOf_of_root finalizedTarget_slot (hfin latest finalized hl hf).2 hf⟩
  · simp only [getPayload, lastValue?_of_isLast hlast]
  · simp only [getPayload, lastValue?_of_isLast hlastFinalized]

/-! ## Whole runs -/

def HeadsOnTop (k : ConsensusCrates) (w : World) (node : Node) : Prop :=
  node.HeadOnTop k w ∧ node.FinalizedOnTop k w

/-- **The tags name the verified heads.**  In every run whose calls find the head on top of the
    stored and answered numbers, and the finalized head on top of the finalized ones, after every
    call that succeeds `Latest` and `Finalized` are the payloads verified for the current headers. -/
theorem heads_verified (k : ConsensusCrates) (config : Config) (checkpoint : Bytes) (node : Node)
    (h : (serving k config checkpoint (AtPayloads k (HeadsOnTop k))).Reachable node)
    (call : Call) (w w' : World) (hmeets : AtPayloads k (HeadsOnTop k) node call w w')
    (node' : Node) (hrun : node.run k call w w' = (.ok (), node')) : NamesHeads k w' node' := by
  rcases run_cases with ⟨herr, hsame⟩ | ⟨mid, hhalf, hmid⟩
  · rw [hrun] at hsame
    rw [← hsame] at herr
    exact absurd rfl herr
  · have hconfigured : Configured config checkpoint (node.consensusHalf k call w).2 :=
      configured_consensusHalf (serving_configured h)
    rw [hhalf] at hconfigured
    rw [hrun] at hmid
    obtain ⟨hhead, hfin⟩ := hmeets mid hhalf
    exact updatePayloads_names hconfigured.historySize hhead hfin hmid.symm

/-! ## The first call of a node -/

theorem isLatest_synced {blocks : List (UInt64 × BeaconBlock)} {p q : ExecutionPayload}
    (h : node.latestPayload k (headMoment blocks) = .ok q)
    (hp : node.IsLatest k (fun _ => headMoment blocks) p) : p = q := by
  have heq := (latestPayload_ok.2 hp).symm.trans h
  cases heq
  rfl

theorem isFinalized_synced {blocks : List (UInt64 × BeaconBlock)} {p q : ExecutionPayload}
    (h : node.finalizedPayload k (headMoment blocks) = .ok q)
    (hp : node.IsFinalized k (fun _ => headMoment blocks) p) : p = q := by
  have heq := (finalizedPayload_ok.2 hp).symm.trans h
  cases heq
  rfl

theorem honestBlocks_onTop :
    HeadsOnTop chainCrates (fun _ => headMoment honestBlocks) syncedNode := by
  have hlatest : syncedNode.latestPayload chainCrates (headMoment honestBlocks) =
      .ok headPayload := by
    decide +kernel
  have hfinalized : syncedNode.finalizedPayload chainCrates (headMoment honestBlocks) =
      .ok checkpointPayload := by
    decide +kernel
  constructor
  · intro latest finalized hl hf
    obtain rfl := isLatest_synced hlatest hl
    obtain rfl := isFinalized_synced hfinalized hf
    refine ⟨fun number hnumber => absurd hnumber (by simp [syncedNode, Node.new]),
      Or.inl (by decide +kernel), fun endBlock hend => allLinked_iff.2 ?_⟩
    obtain rfl : headBlock = endBlock := by
      cases hend
      rfl
    decide +kernel
  · intro latest finalized hl hf
    exact ⟨fun number hnumber => absurd hnumber (by simp [syncedNode, Node.new]),
      by decide +kernel⟩

theorem afterSync_eq {blocks : List (UInt64 × BeaconBlock)} :
    (syncedNode.updatePayloads chainCrates fun _ => headMoment blocks).2 = afterSync blocks := rfl

theorem afterSync_ok : (Node.new checkpointRoot.toList mainnet).run chainCrates .sync
    (fun _ => headMoment honestBlocks) (fun _ => headMoment honestBlocks) =
      (.ok (), afterSync honestBlocks) := by
  have hok : (syncedNode.updatePayloads chainCrates fun _ => headMoment honestBlocks).1 =
      .ok () := by
    decide +kernel
  rw [afterSync_run]
  exact eq_ok hok afterSync_eq

theorem heads_verified_synced :
    NamesHeads chainCrates (fun _ => headMoment honestBlocks) (afterSync honestBlocks) :=
  heads_verified chainCrates mainnet checkpointRoot.toList _ (.init rfl) .sync _ _
    (headMoment_atPayloads honestBlocks_onTop) _ afterSync_ok

/-! ## A reorganisation -/

/-- Two slots after the later block, which comes forty slots after the head. -/
def laterMoment (blocks : List (UInt64 × BeaconBlock)) : Moment :=
  chainMoment 1683624551 laterHeader laterSignature blocks

theorem laterMoment_advance {blocks : List (UInt64 × BeaconBlock)} :
    ConsensusClient.advance chainCrates (fun _ => laterMoment blocks) (clientAt headHeader) =
      (.ok (), clientAt laterHeader) := by
  have hfollow : followHead chainCrates (fun _ => laterMoment blocks) (clientAt headHeader) =
      (.ok (), clientAt laterHeader) :=
    followHead_chain (by decide +kernel) (apply_oneBit rfl rfl) (by decide +kernel)
      (apply_oneBit rfl rfl)
  unfold ConsensusClient.advance
  refine andThen_ok.2 ⟨clientAt laterHeader, hfollow, ?_⟩
  have hnone : (clientAt laterHeader).store.nextSyncCommittee.isNone = true := rfl
  unfold fetchCommittee
  rw [if_pos hnone]
  exact request_ok.2 ⟨[], rfl, rfl⟩

theorem afterSync_consensus {blocks : List (UInt64 × BeaconBlock)} :
    (afterSync blocks).consensus = clientAt headHeader :=
  updatePayloads_frame.1

/-- The node once its consensus client has moved to the later block. -/
def movedNode : Node := { afterSync honestBlocks with consensus := clientAt laterHeader }

theorem laterMoment_consensusHalf {blocks : List (UInt64 × BeaconBlock)} :
    (afterSync honestBlocks).consensusHalf chainCrates .advance (fun _ => laterMoment blocks) =
      (.ok (), movedNode) := by
  unfold consensusHalf advanceConsensus
  rw [afterSync_consensus, laterMoment_advance]
  rfl

/-- The later block is on another branch, with nothing between it and the checkpoint. -/
def laterBlocks : List (UInt64 × BeaconBlock) :=
  [(6400000, checkpointBlock), (6400042, laterBlock)]

/-- The node after its second call, with these blocks answered. -/
def afterAdvance (blocks : List (UInt64 × BeaconBlock)) : Node :=
  (movedNode.updatePayloads chainCrates fun _ => laterMoment blocks).2

theorem afterAdvance_eq {blocks : List (UInt64 × BeaconBlock)} :
    (movedNode.updatePayloads chainCrates fun _ => laterMoment blocks).2 =
      afterAdvance blocks := rfl

theorem afterAdvance_run {blocks : List (UInt64 × BeaconBlock)} :
    (afterSync honestBlocks).run chainCrates .advance (fun _ => laterMoment blocks)
      (fun _ => laterMoment blocks) =
        movedNode.updatePayloads chainCrates fun _ => laterMoment blocks :=
  run_of_half laterMoment_consensusHalf

/-- The chain reorganises to a later block with a smaller number, and `Latest` still names the
    block that was left behind. -/
theorem heads_verified_reorganised :
    (serving chainCrates mainnet checkpointRoot.toList fun _ _ _ _ => True).Reachable
        (afterSync honestBlocks) ∧
      (afterSync honestBlocks).run chainCrates .advance (fun _ => laterMoment laterBlocks)
        (fun _ => laterMoment laterBlocks) = (.ok (), afterAdvance laterBlocks) ∧
      (afterAdvance laterBlocks).getPayload .latest = .ok headPayload ∧
      (afterAdvance laterBlocks).consensus.getExecutionPayload chainCrates
        (laterMoment laterBlocks).rpc
        (some (afterAdvance laterBlocks).consensus.getHeader.slot) = .ok laterPayload ∧
      ¬ NamesHeads chainCrates (fun _ => laterMoment laterBlocks) (afterAdvance laterBlocks) := by
  have hok : (movedNode.updatePayloads chainCrates fun _ => laterMoment laterBlocks).1 =
      .ok () := by
    decide +kernel
  have hlatest : (afterAdvance laterBlocks).getPayload .latest = .ok headPayload := by
    decide +kernel
  have hserved : (afterAdvance laterBlocks).consensus.getExecutionPayload chainCrates
      (laterMoment laterBlocks).rpc
      (some (afterAdvance laterBlocks).consensus.getHeader.slot) = .ok laterPayload := by
    decide +kernel
  have hne : headPayload ≠ laterPayload := by
    decide +kernel
  refine ⟨afterSync_reachable trivial, ?_, hlatest, hserved, ?_⟩
  · rw [afterAdvance_run]
    exact eq_ok hok afterAdvance_eq
  · rintro ⟨⟨latest, hnamed, hverified, _⟩, _⟩
    rw [hlatest] at hnamed
    rw [hserved] at hverified
    exact hne (Except.ok.inj (hnamed.trans hverified.symm))

end Node

end Helios
