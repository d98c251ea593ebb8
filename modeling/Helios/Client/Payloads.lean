import Helios.Client.Node
import Helios.Consensus.Verified

/-!
# What a call does to the payloads

* `AllLinked` — a condition on every payload the backfill loop takes, read off the answers.
* `Updated`, `updatePayloads_updated` — **the three ways `update_payloads` ends**: a head is not
  answered and nothing changes, the backfill fails and only the heads go in, or everything does.
* `Configured`, `Followed` — what holds of every node that calls have changed: the configuration
  and the history size are those of the start, and the consensus client is one that has not
  bootstrapped yet or a state of its own system.
-/

set_option autoImplicit false

namespace Helios

open Attempt OrderedMap

variable {k : ConsensusCrates} {config : Config} {checkpoint : Bytes}

namespace ConsensusClient

/-! ## The backfill loop -/

/-- A condition on every payload the backfill loop takes: each that has the hash looked for. -/
def AllLinked (P : ExecutionPayload → Prop) : List (Except Report BeaconBlock) → Bytes32 → Prop
  | [], _ => True
  | .error _ :: rest, prevParentHash => AllLinked P rest prevParentHash
  | .ok block :: rest, prevParentHash =>
    block.body.executionPayload.blockHash = prevParentHash →
      P block.body.executionPayload ∧ AllLinked P rest block.body.executionPayload.parentHash

theorem allLinked_iff {P : ExecutionPayload → Prop} :
    ∀ {answers : List (Except Report BeaconBlock)} {prevParentHash : Bytes32},
      AllLinked P answers prevParentHash ↔ ∀ p ∈ collectPayloads answers prevParentHash, P p
  | [], _ => by simp [AllLinked, collectPayloads]
  | .error _ :: rest, _ => by
    rw [AllLinked, collectPayloads]
    exact allLinked_iff
  | .ok block :: rest, prevParentHash => by
    rw [AllLinked, collectPayloads]
    by_cases h : block.body.executionPayload.blockHash = prevParentHash
    · simp only [h, forall_const, ne_eq, not_true_eq_false, if_false, List.forall_mem_cons]
      rw [allLinked_iff]
    · simp [h]

/-- The payloads taken follow each other by their hashes. -/
theorem collectPayloads_chain {R : ExecutionPayload → ExecutionPayload → Prop}
    {P : ExecutionPayload → Prop}
    (hlink : ∀ child parent : ExecutionPayload, P parent → parent.blockHash = child.parentHash →
      R child parent) :
    ∀ {answers : List (Except Report BeaconBlock)} {child : ExecutionPayload},
      AllLinked P answers child.parentHash →
        ∀ p ∈ collectPayloads answers child.parentHash, Relation.ReflTransGen R child p
  | [], _, _, p, hp => by cases hp
  | .error _ :: rest, child, h, p, hp => by
    rw [collectPayloads] at hp
    rw [AllLinked] at h
    exact collectPayloads_chain hlink h p hp
  | .ok block :: rest, child, h, p, hp => by
    rw [collectPayloads] at hp
    rw [AllLinked] at h
    by_cases heq : block.body.executionPayload.blockHash = child.parentHash
    · obtain ⟨hP, hrest⟩ := h heq
      have hparent : R child block.body.executionPayload := hlink _ _ hP heq
      simp only [heq, ne_eq, not_true_eq_false, if_false] at hp
      rcases List.mem_cons.1 hp with rfl | hmem
      · exact .single hparent
      · exact .head hparent (collectPayloads_chain hlink hrest p hmem)
    · simp [heq] at hp

theorem getPayloads_ok {w : World} {startSlot endSlot : UInt64} {payloads : List ExecutionPayload} :
    getPayloads w startSlot endSlot = .ok payloads ↔
      ∃ endBlock, (w 0).rpc.getBlock endSlot = .ok endBlock ∧
        payloads = collectPayloads (backfillAnswers (w.drop 1) startSlot endSlot)
          endBlock.body.executionPayload.parentHash := by
  unfold getPayloads
  cases h : answer ((w 0).rpc.getBlock endSlot) with
  | error e =>
    have : ∀ block, (w 0).rpc.getBlock endSlot ≠ .ok block := fun block hb => by
      rw [answer_ok.2 hb] at h
      cases h
    simp [this]
  | ok block =>
    simp only [answer_ok.1 h, Except.ok.injEq]
    constructor
    · intro heq
      exact ⟨block, rfl, heq.symm⟩
    · rintro ⟨_, rfl, heq⟩
      exact heq.symm

end ConsensusClient

namespace Node

open ConsensusClient

variable {node node' : Node} {w w' : World} {call : Call}

/-! ## The payload half -/

/-- The answers to the backfill requests of a call's payload half. -/
def backfillOf (w : World) (node : Node) : List (Except Report BeaconBlock) :=
  backfillAnswers (w.drop 3) node.startSlot node.consensus.getHeader.slot

/-- The payload that the node stores as its latest one, if its block is answered. -/
def IsLatest (k : ConsensusCrates) (w : World) (node : Node) (latest : ExecutionPayload) : Prop :=
  PayloadOf k (w 0).rpc node.consensus.getHeader latest

/-- The payload that the node stores as its finalized one, if its block is answered. -/
def IsFinalized (k : ConsensusCrates) (w : World) (node : Node) (finalized : ExecutionPayload) :
    Prop :=
  PayloadOf k (w 1).rpc node.consensus.finalizedTarget finalized

theorem latestPayload_ok {latest : ExecutionPayload} :
    node.latestPayload k (w 0) = .ok latest ↔ node.IsLatest k w latest := by
  rw [latestPayload, mapErr_ok, getExecutionPayload_latest, IsLatest]

theorem finalizedPayload_ok {finalized : ExecutionPayload} :
    node.finalizedPayload k (w 1) = .ok finalized ↔ node.IsFinalized k w finalized := by
  rw [finalizedPayload, mapErr_ok, getExecutionPayload_finalized, IsFinalized]

/-- The ways `update_payloads` ends. -/
inductive Updated (k : ConsensusCrates) (w : World) (node : Node) : Attempt Fault Node → Prop
  /-- A head is not answered. -/
  | kept {e : Fault} :
      (¬ ∃ latest finalized, node.IsLatest k w latest ∧ node.IsFinalized k w finalized) →
      Updated k w node (.error e, node)
  /-- The end of the backfill is not answered. -/
  | heads {e : Fault} {latest finalized : ExecutionPayload} :
      node.IsLatest k w latest → node.IsFinalized k w finalized →
      Updated k w node (.error e, node.insertHeads latest finalized)
  | full {latest finalized : ExecutionPayload} {endBlock : BeaconBlock} :
      node.IsLatest k w latest → node.IsFinalized k w finalized →
      (w 2).rpc.getBlock node.consensus.getHeader.slot = .ok endBlock →
      Updated k w node (.ok (), ((node.insertHeads latest finalized).insertBackfill
        (collectPayloads (node.backfillOf w) endBlock.body.executionPayload.parentHash)).prune)

/-- **What `update_payloads` does.** -/
theorem updatePayloads_updated : Updated k w node (node.updatePayloads k w) := by
  unfold updatePayloads
  cases hl : node.latestPayload k (w 0) with
  | error e =>
    refine .kept fun ⟨latest, _, hlatest, _⟩ => ?_
    rw [latestPayload_ok.2 hlatest] at hl
    cases hl
  | ok latest =>
    cases hf : node.finalizedPayload k (w 1) with
    | error e =>
      refine .kept fun ⟨_, finalized, _, hfinalized⟩ => ?_
      rw [finalizedPayload_ok.2 hfinalized] at hf
      cases hf
    | ok finalized =>
      have hlatest := latestPayload_ok.1 hl
      have hfinalized := finalizedPayload_ok.1 hf
      simp only [request]
      cases hb : mapErr Report.consensusPayloadError
          (getPayloads (w.drop 2) (node.insertHeads latest finalized).startSlot
            (node.insertHeads latest finalized).consensus.getHeader.slot) with
      | error e => exact .heads hlatest hfinalized
      | ok backfill =>
        obtain ⟨endBlock, hend, rfl⟩ := getPayloads_ok.1 (mapErr_ok.1 hb)
        exact .full hlatest hfinalized hend

/-- All three blocks are answered. -/
theorem updatePayloads_full {latest finalized : ExecutionPayload} {endBlock : BeaconBlock}
    (hl : node.IsLatest k w latest) (hf : node.IsFinalized k w finalized)
    (hend : (w 2).rpc.getBlock node.consensus.getHeader.slot = .ok endBlock) :
    node.updatePayloads k w =
      (.ok (), ((node.insertHeads latest finalized).insertBackfill
        (collectPayloads (node.backfillOf w) endBlock.body.executionPayload.parentHash)).prune) := by
  have hbackfill : mapErr .consensusPayloadError
      (getPayloads (w.drop 2) (node.insertHeads latest finalized).startSlot
        (node.insertHeads latest finalized).consensus.getHeader.slot) =
      .ok (collectPayloads (node.backfillOf w) endBlock.body.executionPayload.parentHash) :=
    mapErr_ok.2 (getPayloads_ok.2 ⟨endBlock, hend, rfl⟩)
  rw [updatePayloads, latestPayload_ok.2 hl, finalizedPayload_ok.2 hf]
  simp only [request, hbackfill]

/-- The heads are answered, and the head block is not answered again. -/
theorem updatePayloads_heads {latest finalized : ExecutionPayload} {e : Report}
    (hl : node.IsLatest k w latest) (hf : node.IsFinalized k w finalized)
    (hend : (w 2).rpc.getBlock node.consensus.getHeader.slot = .error e) :
    ∃ fault, node.updatePayloads k w = (.error fault, node.insertHeads latest finalized) := by
  rw [updatePayloads, latestPayload_ok.2 hl, finalizedPayload_ok.2 hf]
  simp only [request]
  cases hb : mapErr Report.consensusPayloadError
      (getPayloads (w.drop 2) (node.insertHeads latest finalized).startSlot
        (node.insertHeads latest finalized).consensus.getHeader.slot) with
  | error fault => exact ⟨fault, rfl⟩
  | ok backfill =>
    obtain ⟨endBlock, hblock, _⟩ := getPayloads_ok.1 (mapErr_ok.1 hb)
    have heq := hend.symm.trans hblock
    cases heq

/-! ## The maps afterwards -/

theorem foldl_insertPayload {payloads : List ExecutionPayload} :
    ∀ {node : Node}, payloads.foldl insertPayload node =
      { node with payloads := insertAll ExecutionPayload.blockNumber node.payloads payloads } := by
  induction payloads with
  | nil => intro node; rfl
  | cons p ps ih =>
    intro node
    rw [List.foldl_cons, ih]
    rfl

/-- The payloads that a call's payload half inserts. -/
def inserted (k : ConsensusCrates) (w : World) (node : Node) : List ExecutionPayload :=
  match node.latestPayload k (w 0), node.finalizedPayload k (w 1) with
  | .ok latest, .ok finalized =>
    latest :: finalized ::
      match (w 2).rpc.getBlock node.consensus.getHeader.slot with
      | .ok endBlock =>
        collectPayloads (node.backfillOf w) endBlock.body.executionPayload.parentHash
      | .error _ => []
  | _, _ => []

theorem mem_inserted {p : ExecutionPayload} (h : p ∈ node.inserted k w) :
    (node.IsLatest k w p ∨ node.IsFinalized k w p) ∨
      ∃ latest finalized endBlock, node.IsLatest k w latest ∧ node.IsFinalized k w finalized ∧
        (w 2).rpc.getBlock node.consensus.getHeader.slot = .ok endBlock ∧
        p ∈ collectPayloads (node.backfillOf w) endBlock.body.executionPayload.parentHash := by
  unfold inserted at h
  split at h
  · rename_i latest finalized hl hf
    rw [latestPayload_ok] at hl
    rw [finalizedPayload_ok] at hf
    rcases List.mem_cons.1 h with rfl | h
    · exact Or.inl (Or.inl hl)
    rcases List.mem_cons.1 h with rfl | h
    · exact Or.inl (Or.inr hf)
    split at h
    · rename_i endBlock hend
      exact Or.inr ⟨latest, finalized, endBlock, hl, hf, hend, h⟩
    · cases h
  · cases h

/-- A payload in one of the two maps. -/
def Stored (node : Node) (p : ExecutionPayload) : Prop :=
  ∃ number : UInt64, node.payloads[number]? = some p ∨ node.finalizedPayloads[number]? = some p

theorem stored_insertHeads {latest finalized p : ExecutionPayload}
    (h : (node.insertHeads latest finalized).Stored p) :
    node.Stored p ∨ p = latest ∨ p = finalized := by
  obtain ⟨number, h | h⟩ := h
  · have horigin : node.payloads[number]? = some p ∨ p ∈ [latest, finalized] :=
      @insertAll_getElem? _ _ _ _ ExecutionPayload.blockNumber _ _ _ _ h
    rcases horigin with hold | hmem
    · exact Or.inl ⟨number, Or.inl hold⟩
    · exact Or.inr (by simpa using hmem)
  · have horigin : node.finalizedPayloads[number]? = some p ∨ p ∈ [finalized] :=
      @insertAll_getElem? _ _ _ _ ExecutionPayload.blockNumber _ _ _ _ h
    rcases horigin with hold | hmem
    · exact Or.inl ⟨number, Or.inr hold⟩
    · exact Or.inr (Or.inr (List.mem_singleton.1 hmem))

theorem stored_insertBackfill {backfill : List ExecutionPayload} {p : ExecutionPayload}
    (h : (node.insertBackfill backfill).Stored p) : node.Stored p ∨ p ∈ backfill := by
  unfold insertBackfill at h
  rw [foldl_insertPayload] at h
  obtain ⟨number, h | h⟩ := h
  · rcases insertAll_getElem? h with hold | hmem
    · exact Or.inl ⟨number, Or.inl hold⟩
    · exact Or.inr hmem
  · exact Or.inl ⟨number, Or.inr h⟩

theorem stored_prune {p : ExecutionPayload} (h : node.prune.Stored p) : node.Stored p := by
  obtain ⟨number, h | h⟩ := h
  · exact ⟨number, Or.inl (popWhile_getElem? h)⟩
  · exact ⟨number, Or.inr (popWhile_getElem? h)⟩

/-- **What is stored was stored before, or is inserted.** -/
theorem stored_updatePayloads {p : ExecutionPayload} (hp : (node.updatePayloads k w).2.Stored p) :
    node.Stored p ∨ p ∈ node.inserted k w := by
  have hheads : ∀ latest finalized, node.IsLatest k w latest → node.IsFinalized k w finalized →
      p = latest ∨ p = finalized → p ∈ node.inserted k w := by
    intro latest finalized hl hf heq
    rw [inserted, latestPayload_ok.2 hl, finalizedPayload_ok.2 hf]
    rcases heq with rfl | rfl <;> simp
  have h : Updated k w node (node.updatePayloads k w) := updatePayloads_updated
  generalize node.updatePayloads k w = r at h hp
  cases h with
  | kept _ => exact Or.inl hp
  | heads hl hf => exact (stored_insertHeads hp).imp_right (hheads _ _ hl hf)
  | full hl hf hend =>
    rcases stored_insertBackfill (stored_prune hp) with hp | hmem
    · exact (stored_insertHeads hp).imp_right (hheads _ _ hl hf)
    · right
      rw [inserted, latestPayload_ok.2 hl, finalizedPayload_ok.2 hf]
      simp only [hend]
      exact List.mem_cons_of_mem _ (List.mem_cons_of_mem _ hmem)

/-! ## The consensus half -/

/-- Everything but the consensus client is the same. -/
def SamePayloads (node node' : Node) : Prop :=
  ∃ client, node' = { node with consensus := client }

theorem consensusHalf_frame : SamePayloads node (node.consensusHalf k call w).2 := by
  cases call with
  | sync =>
    unfold consensusHalf syncConsensus
    have hkeep : SamePayloads node node := ⟨node.consensus, rfl⟩
    exact request_snd hkeep fun _ _ => request_snd hkeep fun _ _ => ⟨_, rfl⟩
  | advance => exact ⟨_, rfl⟩

theorem consensusHalf_sync :
    ((node.consensusHalf k .sync w).1 ≠ .ok () ∧
        (node.consensusHalf k .sync w).2.consensus = node.consensus) ∨
      ∃ client, bootstrap k (w.drop 2) node.consensus = (.ok (), client) ∧
        UpdateSteps k client (node.consensusHalf k .sync w).2.consensus := by
  unfold consensusHalf syncConsensus
  cases node.checkExecutionRpc w with
  | error e => left; cases e <;> simp [mapErr, request]
  | ok u =>
    cases node.consensus.checkRpc (w.drop 1) with
    | error e => left; cases e <;> simp [mapErr, request]
    | ok u =>
      simp only [mapErr, request, withConsensus]
      rcases sync_steps with ⟨hsame, herr⟩ | hsteps
      · refine Or.inl ⟨fun h => herr ?_, hsame⟩
        exact mapErr_ok.1 h
      · exact Or.inr hsteps

theorem consensusHalf_advance :
    ((node.consensusHalf k .advance w).1 = .ok () ↔ (node.consensus.advance k w).1 = .ok ()) ∧
      (node.consensusHalf k .advance w).2.consensus = (node.consensus.advance k w).2 :=
  ⟨mapErr_ok, rfl⟩

/-- The payload half leaves the consensus client and the configuration alone. -/
theorem updatePayloads_frame :
    (node.updatePayloads k w).2.consensus = node.consensus ∧
      (node.updatePayloads k w).2.historySize = node.historySize := by
  have h : Updated k w node (node.updatePayloads k w) := updatePayloads_updated
  generalize node.updatePayloads k w = r at h
  cases h with
  | kept _ => exact ⟨rfl, rfl⟩
  | heads _ _ => exact ⟨rfl, rfl⟩
  | full _ _ _ =>
    unfold prune insertBackfill
    rw [foldl_insertPayload]
    exact ⟨rfl, rfl⟩

/-- A call is its consensus half, or that and its payload half. -/
theorem run_cases :
    ((node.consensusHalf k call w).1 ≠ .ok () ∧
        node.run k call w w' = node.consensusHalf k call w) ∨
      ∃ mid, node.consensusHalf k call w = (.ok (), mid) ∧
        node.run k call w w' = mid.updatePayloads k w' := by
  unfold run
  obtain ⟨r, mid⟩ := node.consensusHalf k call w
  cases r with
  | error e => exact Or.inl ⟨by simp, rfl⟩
  | ok u => exact Or.inr ⟨mid, rfl, rfl⟩

theorem run_consensus :
    (node.run k call w w').2.consensus = (node.consensusHalf k call w).2.consensus := by
  rcases run_cases with ⟨_, hrun⟩ | ⟨mid, hmid, hrun⟩
  · rw [hrun]
  · rw [hrun, updatePayloads_frame.1, hmid]

theorem run_of_half {mid : Node} (h : node.consensusHalf k call w = (.ok (), mid)) :
    node.run k call w w' = mid.updatePayloads k w' := by
  rw [run, h]
  rfl

/-- A condition on the state in which a call reaches its payload half, and on what it meets there. -/
def AtPayloads (k : ConsensusCrates) (C : World → Node → Prop) (node : Node) (call : Call)
    (w w' : World) : Prop :=
  ∀ mid, node.consensusHalf k call w = (.ok (), mid) → C w' mid

theorem stored_run {p : ExecutionPayload} (hp : (node.run k call w w').2.Stored p) :
    node.Stored p ∨
      ∃ mid, node.consensusHalf k call w = (.ok (), mid) ∧ p ∈ mid.inserted k w' := by
  obtain ⟨client, hframe⟩ : SamePayloads node (node.consensusHalf k call w).2 :=
    consensusHalf_frame
  have hsame : (node.consensusHalf k call w).2.Stored p → node.Stored p := by
    rw [hframe]
    exact id
  rcases run_cases with ⟨_, hrun⟩ | ⟨mid, hhalf, hrun⟩
  · rw [hrun] at hp
    exact Or.inl (hsame hp)
  · rw [hrun] at hp
    rw [hhalf] at hsame
    exact (stored_updatePayloads hp).imp hsame fun hmem => ⟨mid, hhalf, hmem⟩

theorem not_stored_new {p : ExecutionPayload} : ¬ (Node.new checkpoint config).Stored p := by
  rintro ⟨number, h | h⟩
  · exact absurd h (by simp [Node.new])
  · exact absurd h (by simp [Node.new])

/-! ## What every call keeps -/

/-- The configuration, the checkpoint and the history size of `Node::new`. -/
structure Configured (config : Config) (checkpoint : Bytes) (node : Node) : Prop where
  config : node.consensus.config = config
  initialCheckpoint : node.consensus.initialCheckpoint = checkpoint
  historySize : node.historySize = 64

theorem configured_consensusHalf (h : Configured config checkpoint node) :
    Configured config checkpoint (node.consensusHalf k call w).2 := by
  have hconfig : (node.consensusHalf k call w).2.consensus.config = node.consensus.config ∧
      (node.consensusHalf k call w).2.consensus.initialCheckpoint =
        node.consensus.initialCheckpoint := by
    cases call with
    | sync =>
      rcases consensusHalf_sync with ⟨_, hsame⟩ | ⟨client, hboot, hsteps⟩
      · rw [hsame]
        exact ⟨rfl, rfl⟩
      · obtain ⟨_, _, _, _, _, rfl⟩ := bootstrap_ok hboot
        exact hsteps.config
    | advance =>
      rw [consensusHalf_advance.2]
      exact advance_steps.config
  have hhistory : (node.consensusHalf k call w).2.historySize = node.historySize := by
    obtain ⟨client, hframe⟩ : SamePayloads node (node.consensusHalf k call w).2 :=
      consensusHalf_frame
    rw [hframe]
  exact ⟨hconfig.1.trans h.config, hconfig.2.trans h.initialCheckpoint,
    hhistory.trans h.historySize⟩

theorem configured_run (h : Configured config checkpoint node) :
    Configured config checkpoint (node.run k call w w').2 := by
  have hmid : Configured config checkpoint (node.consensusHalf k call w).2 :=
    configured_consensusHalf h
  rcases run_cases with ⟨_, hrun⟩ | ⟨mid, hhalf, hrun⟩
  · rw [hrun]
    exact hmid
  · rw [hhalf] at hmid
    rw [hrun]
    refine ⟨?_, ?_, updatePayloads_frame.2.trans hmid.historySize⟩
    · rw [updatePayloads_frame.1]
      exact hmid.config
    · rw [updatePayloads_frame.1]
      exact hmid.initialCheckpoint

variable {Meets : Node → Call → World → World → Prop}

/-- **Every node of a run is configured as at its start.** -/
theorem serving_configured (h : (serving k config checkpoint Meets).Reachable node) :
    Configured config checkpoint node := by
  refine System.invariant (S := serving k config checkpoint Meets)
    (I := Configured config checkpoint) ?_ ?_ h
  · rintro node rfl
    exact ⟨rfl, rfl, rfl⟩
  · rintro node node' _ hnode ⟨call, w, w', _, rfl⟩
    exact configured_run hnode

/-! ## Which consensus states a node has -/

/-- The consensus client has not bootstrapped yet, or is a state of its own system. -/
def Followed (k : ConsensusCrates) (config : Config) (checkpoint : Bytes) (node : Node) : Prop :=
  Unsynced config checkpoint node.consensus ∨
    (lightClient k config checkpoint).Reachable node.consensus

/-- The consensus half either fails before any bootstrap, or enters the system. -/
theorem followed_consensusHalf (hzero : k.publicKey (zeroBytes 48) = none)
    (h : Followed k config checkpoint node) :
    ((node.consensusHalf k call w).1 ≠ .ok () ∧
        Unsynced config checkpoint (node.consensusHalf k call w).2.consensus) ∨
      (lightClient k config checkpoint).Reachable
        (node.consensusHalf k call w).2.consensus := by
  have hconfig : node.consensus.config = config ∧
      node.consensus.initialCheckpoint = checkpoint := by
    rcases h with h | h
    · exact h.2
    · exact lightClient_config h
  cases call with
  | sync =>
    rcases consensusHalf_sync with ⟨herr, hsame⟩ | ⟨client, hboot, hsteps⟩
    · rw [hsame]
      exact h.imp (fun h => ⟨herr, h⟩) id
    · right
      have hclient : (lightClient k config checkpoint).Reachable client :=
        .init ⟨_, _, hconfig.1, hconfig.2, hboot⟩
      exact hclient.steps hsteps
  | advance =>
    rw [consensusHalf_advance.2, ne_eq, consensusHalf_advance.1]
    rcases h with h | h
    · obtain ⟨herr, hsame⟩ := advance_unsynced (w := w) hzero h.1
      rw [hsame]
      exact Or.inl ⟨herr, h⟩
    · exact Or.inr (advance_reachable h)

theorem followed_run (hzero : k.publicKey (zeroBytes 48) = none)
    (h : Followed k config checkpoint node) :
    Followed k config checkpoint (node.run k call w w').2 := by
  have hmid := @followed_consensusHalf k config checkpoint node w call hzero h
  rcases run_cases with ⟨_, hrun⟩ | ⟨mid, hhalf, hrun⟩
  · rw [hrun]
    exact hmid.imp And.right id
  · rw [hrun, Followed, updatePayloads_frame.1]
    rw [hhalf] at hmid
    exact hmid.imp And.right id

end Node

end Helios
