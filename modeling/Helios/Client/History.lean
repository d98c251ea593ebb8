import Helios.Client.Heads

/-!
# How much history is kept

`update_payloads` inserts both heads, then makes one more request, and only then drops what is too
old.  When that request fails the heads stay, above the bound.

* `keeping` — the runs of a node with any history size.
* `WithinHistory` — the bounds on the two maps; `SameHistory` — nothing is inserted or dropped.
* `EndAnswered` — once both heads are answered, so is the head block that the backfill asks for
  again, unless the heads are stored already.
* `history_bounded` — **under calls that meet it the bounds hold between calls**, and
  **it is exactly when a call that fails changes nothing**.
* `history_exceeded` — one failure in the first call.
-/

set_option autoImplicit false

namespace Helios

namespace Node

open ConsensusClient Attempt OrderedMap

variable {k : ConsensusCrates} {config : Config} {checkpoint : Bytes} {node node' mid : Node}
  {w w' : World} {call : Call}

/-- The states of a node with a history size under any sequence of calls. -/
def keeping (k : ConsensusCrates) (config : Config) (checkpoint : Bytes) (historySize : UInt64)
    (Meets : Node → Call → World → World → Prop) : System Node where
  init node := node = { Node.new checkpoint config with historySize := historySize }
  step node node' := ∃ call w w', Meets node call w w' ∧ (node.run k call w w').2 = node'

/-- What the history size promises. -/
structure WithinHistory (node : Node) : Prop where
  payloads : node.payloads.size ≤ node.historySize.toNat
  finalized : node.finalizedPayloads.size ≤ max (node.historySize.toNat / 32) 1

/-- The same payloads under the same numbers, and the same slot to backfill from. -/
structure SameHistory (node node' : Node) : Prop where
  payloads : ∀ number : UInt64, node'.payloads[number]? = node.payloads[number]?
  finalized : ∀ number : UInt64, node'.finalizedPayloads[number]? = node.finalizedPayloads[number]?
  currentSlot : node'.currentSlot = node.currentSlot

/-- Both heads are stored under their numbers. -/
structure HeadsStored (node : Node) (latest finalized : ExecutionPayload) : Prop where
  head : latest.blockNumber = finalized.blockNumber ∨
    node.payloads[latest.blockNumber]? = some latest
  payload : node.payloads[finalized.blockNumber]? = some finalized
  finalizedPayload : node.finalizedPayloads[finalized.blockNumber]? = some finalized

/-- When both heads are answered, so is the end of the backfill, or the heads are no news. -/
def EndAnswered (k : ConsensusCrates) (w : World) (node : Node) : Prop :=
  ∀ latest finalized, node.IsLatest k w latest → node.IsFinalized k w finalized →
    (∃ endBlock, (w 2).rpc.getBlock node.consensus.getHeader.slot = .ok endBlock) ∨
      node.HeadsStored latest finalized

/-! ## The maps after the heads went in -/

theorem insertHeads_payloads {latest finalized : ExecutionPayload} (number : UInt64) :
    (node.insertHeads latest finalized).payloads[number]? =
      if finalized.blockNumber = number then some finalized
      else if latest.blockNumber = number then some latest
      else node.payloads[number]? := by
  show ((node.payloads.insert latest.blockNumber latest).insert finalized.blockNumber
    finalized)[number]? = _
  simp only [Std.TreeMap.getElem?_insert, Std.compare_eq_iff_eq]

theorem insertHeads_finalizedPayloads {latest finalized : ExecutionPayload} (number : UInt64) :
    (node.insertHeads latest finalized).finalizedPayloads[number]? =
      if finalized.blockNumber = number then some finalized
      else node.finalizedPayloads[number]? := by
  show (node.finalizedPayloads.insert finalized.blockNumber finalized)[number]? = _
  simp only [Std.TreeMap.getElem?_insert, Std.compare_eq_iff_eq]

/-- The heads change nothing exactly when they are stored. -/
theorem insertHeads_same {latest finalized : ExecutionPayload} :
    SameHistory node (node.insertHeads latest finalized) ↔ node.HeadsStored latest finalized := by
  constructor
  · intro h
    have hlatest := h.payloads latest.blockNumber
    have hfinalized := h.payloads finalized.blockNumber
    have hmap := h.finalized finalized.blockNumber
    rw [insertHeads_payloads] at hlatest hfinalized
    rw [insertHeads_finalizedPayloads] at hmap
    simp only [if_true] at hlatest hfinalized hmap
    refine ⟨?_, hfinalized.symm, hmap.symm⟩
    by_cases heq : finalized.blockNumber = latest.blockNumber
    · exact Or.inl heq.symm
    · rw [if_neg heq] at hlatest
      exact Or.inr hlatest.symm
  · intro h
    refine ⟨fun number => ?_, fun number => ?_, rfl⟩
    · rw [insertHeads_payloads]
      split
      · rename_i heq
        rw [← heq, h.payload]
      · rename_i hne
        split
        · rename_i heq
          rcases h.head with hsame | hstored
          · exact absurd (hsame.symm.trans heq) hne
          · rw [← heq, hstored]
        · rfl
    · rw [insertHeads_finalizedPayloads]
      split
      · rename_i heq
        rw [← heq, h.finalizedPayload]
      · rfl

theorem insertHeads_within {latest finalized : ExecutionPayload} (h : node.WithinHistory)
    (hstored : node.HeadsStored latest finalized) :
    (node.insertHeads latest finalized).WithinHistory := by
  have hsize : (node.insertHeads latest finalized).payloads.size = node.payloads.size := by
    show ((node.payloads.insert latest.blockNumber latest).insert finalized.blockNumber
      finalized).size = _
    have hlatest : latest.blockNumber ∈ node.payloads := by
      rcases hstored.head with heq | hlatest
      · rw [heq]
        exact mem_of_getElem? hstored.payload
      · exact mem_of_getElem? hlatest
    have hfinalized : finalized.blockNumber ∈ node.payloads.insert latest.blockNumber latest :=
      Std.TreeMap.mem_insert.2 (Or.inr (mem_of_getElem? hstored.payload))
    rw [Std.TreeMap.size_insert, if_pos (Std.TreeMap.contains_iff_mem.2 hfinalized),
      Std.TreeMap.size_insert, if_pos (Std.TreeMap.contains_iff_mem.2 hlatest)]
  have hsizeFinalized : (node.insertHeads latest finalized).finalizedPayloads.size =
      node.finalizedPayloads.size :=
    (insert_same hstored.finalizedPayload).1
  exact ⟨hsize ▸ h.payloads, hsizeFinalized ▸ h.finalized⟩

theorem prune_within : node.prune.WithinHistory :=
  ⟨popWhile_size (Nat.le_refl _), popWhile_size (Nat.le_refl _)⟩

/-! ## One call -/

/-- A call that ends well prunes; one that fails under the condition changes nothing. -/
theorem updatePayloads_within (h : node.WithinHistory) (hend : node.EndAnswered k w) :
    (node.updatePayloads k w).2.WithinHistory := by
  have hupdated : Updated k w node (node.updatePayloads k w) := updatePayloads_updated
  cases hr : node.updatePayloads k w with
  | mk r after =>
    rw [hr] at hupdated
    cases hupdated with
    | kept _ => exact h
    | heads hl hf =>
      rcases hend _ _ hl hf with ⟨endBlock, hblock⟩ | hstored
      · rw [updatePayloads_full hl hf hblock] at hr
        cases hr
      · exact insertHeads_within h hstored
    | full _ _ _ => exact prune_within

/-- **Exactly then a failure changes nothing.** -/
theorem updatePayloads_same_iff : node.EndAnswered k w ↔
    ∀ e, (node.updatePayloads k w).1 = .error e →
      SameHistory node (node.updatePayloads k w).2 := by
  constructor
  · intro hend e he
    have hupdated : Updated k w node (node.updatePayloads k w) := updatePayloads_updated
    cases hr : node.updatePayloads k w with
    | mk r after =>
      rw [hr] at hupdated he
      cases hupdated with
      | kept _ => exact ⟨fun _ => rfl, fun _ => rfl, rfl⟩
      | heads hl hf =>
        rcases hend _ _ hl hf with ⟨endBlock, hblock⟩ | hstored
        · rw [updatePayloads_full hl hf hblock] at hr
          cases hr
        · exact insertHeads_same.2 hstored
      | full _ _ _ => cases he
  · intro h latest finalized hl hf
    cases hblock : (w 2).rpc.getBlock node.consensus.getHeader.slot with
    | ok endBlock => exact Or.inl ⟨endBlock, rfl⟩
    | error e =>
      obtain ⟨fault, hheads⟩ := updatePayloads_heads hl hf hblock
      have hsame := h fault (by rw [hheads])
      rw [hheads] at hsame
      exact Or.inr (insertHeads_same.1 hsame)

/-- The consensus half leaves the maps alone. -/
theorem consensusHalf_history :
    SameHistory node (node.consensusHalf k call w).2 ∧
      (node.consensusHalf k call w).2.historySize = node.historySize ∧
      (node.WithinHistory → (node.consensusHalf k call w).2.WithinHistory) := by
  obtain ⟨client, hframe⟩ : SamePayloads node (node.consensusHalf k call w).2 :=
    consensusHalf_frame
  rw [hframe]
  exact ⟨⟨fun _ => rfl, fun _ => rfl, rfl⟩, rfl, fun h => ⟨h.payloads, h.finalized⟩⟩

theorem SameHistory.trans (h : SameHistory node mid) (h' : SameHistory mid node') :
    SameHistory node node' :=
  ⟨fun number => (h'.payloads number).trans (h.payloads number),
    fun number => (h'.finalized number).trans (h.finalized number),
    h'.currentSlot.trans h.currentSlot⟩

theorem SameHistory.symm (h : SameHistory node node') : SameHistory node' node :=
  ⟨fun number => (h.payloads number).symm, fun number => (h.finalized number).symm,
    h.currentSlot.symm⟩

theorem run_within (h : node.WithinHistory) (hmeets : AtPayloads k (EndAnswered k) node call w w') :
    (node.run k call w w').2.WithinHistory := by
  have hmid := (@consensusHalf_history k node w call).2.2 h
  rcases run_cases with ⟨_, hrun⟩ | ⟨mid, hhalf, hrun⟩
  · rw [hrun]
    exact hmid
  · rw [hhalf] at hmid
    rw [hrun]
    exact updatePayloads_within hmid (hmeets mid hhalf)

theorem run_historySize : (node.run k call w w').2.historySize = node.historySize := by
  have hmid := (@consensusHalf_history k node w call).2.1
  rcases run_cases with ⟨_, hrun⟩ | ⟨mid, hhalf, hrun⟩
  · rw [hrun]
    exact hmid
  · rw [hhalf] at hmid
    rw [hrun, updatePayloads_frame.2]
    exact hmid

/-- A call fails without a trace exactly under the condition. -/
theorem run_same_iff : AtPayloads k (EndAnswered k) node call w w' ↔
    ∀ e, (node.run k call w w').1 = .error e → SameHistory node (node.run k call w w').2 := by
  have hkept := (@consensusHalf_history k node w call).1
  constructor
  · intro hmeets e he
    rcases run_cases with ⟨_, hrun⟩ | ⟨mid, hhalf, hrun⟩
    · rw [hrun]
      exact hkept
    · rw [hhalf] at hkept
      rw [hrun] at he ⊢
      exact hkept.trans (updatePayloads_same_iff.1 (hmeets mid hhalf) e he)
  · intro h mid hhalf
    rw [hhalf] at hkept
    rw [run_of_half hhalf] at h
    refine updatePayloads_same_iff.2 fun e he => ?_
    exact hkept.symm.trans (h e he)

/-! ## Whole runs -/

/-- **The history stays bounded.**  With any history size, in every run whose calls meet the
    condition both maps are within their bounds between the calls; and a call from such a state
    leaves no trace of its failure if and only if it meets the condition. -/
theorem history_bounded (k : ConsensusCrates) (config : Config) (checkpoint : Bytes)
    (historySize : UInt64) (node : Node)
    (h : (keeping k config checkpoint historySize (AtPayloads k (EndAnswered k))).Reachable node) :
    (node.payloads.size ≤ historySize.toNat ∧
      node.finalizedPayloads.size ≤ max (historySize.toNat / 32) 1) ∧
    ∀ call w w', AtPayloads k (EndAnswered k) node call w w' ↔
      ∀ e, (node.run k call w w').1 = .error e → SameHistory node (node.run k call w w').2 := by
  have hbounds : node.historySize = historySize ∧ node.WithinHistory := by
    refine System.invariant (S := keeping k config checkpoint historySize
      (AtPayloads k (EndAnswered k)))
      (I := fun node => node.historySize = historySize ∧ node.WithinHistory) ?_ ?_ h
    · rintro node rfl
      exact ⟨rfl, Nat.zero_le _, Nat.zero_le _⟩
    · rintro node node' _ ⟨hsize, hwithin⟩ ⟨call, w, w', hmeets, rfl⟩
      exact ⟨run_historySize.trans hsize, run_within hwithin hmeets⟩
  obtain ⟨rfl, hwithin⟩ := hbounds
  exact ⟨⟨hwithin.payloads, hwithin.finalized⟩, fun call w w' => run_same_iff⟩

/-! ## One failure -/

/-- A server that answers the two heads, and then no block any more. -/
def fallingSilent : World := fun i => headMoment (if i < 2 then honestBlocks else [])

/-- A new node with a history size. -/
def newNode (historySize : UInt64) : Node :=
  { Node.new checkpointRoot.toList mainnet with historySize := historySize }

theorem newNode_run {historySize : UInt64} {blocks : List (UInt64 × BeaconBlock)} :
    (newNode historySize).run chainCrates .sync (fun _ => headMoment blocks) w' =
      updatePayloads chainCrates w' { syncedNode with historySize := historySize } := by
  have hsync : ConsensusClient.sync chainCrates (fun _ => headMoment blocks)
      (newNode historySize).consensus = (.ok (), clientAt headHeader) :=
    headMoment_sync
  have hhalf : (newNode historySize).consensusHalf chainCrates .sync (fun _ => headMoment blocks) =
      (.ok (), { syncedNode with historySize := historySize }) := by
    unfold consensusHalf syncConsensus
    refine request_ok.2 ⟨(), rfl, request_ok.2 ⟨(), rfl, ?_⟩⟩
    rw [World.drop_const, hsync]
    rfl
  exact run_of_half hhalf

/-- A node after a first call in which the head block is not answered again. -/
def afterSilence (historySize : UInt64) : Node :=
  (updatePayloads chainCrates fallingSilent { syncedNode with historySize := historySize }).2

theorem afterSilence_eq {historySize : UInt64} :
    ((newNode historySize).run chainCrates .sync (fun _ => headMoment honestBlocks)
      fallingSilent).2 = afterSilence historySize := by
  rw [newNode_run]
  rfl

/-- One failed call leaves both heads behind, with the default history size; with a history size
    of one that is more than the bound. -/
theorem history_exceeded :
    (∃ e, ((newNode 64).run chainCrates .sync (fun _ => headMoment honestBlocks)
        fallingSilent).1 = .error e) ∧
      ¬ SameHistory (newNode 64) ((newNode 64).run chainCrates .sync
        (fun _ => headMoment honestBlocks) fallingSilent).2 ∧
      (keeping chainCrates mainnet checkpointRoot.toList 1 fun _ _ _ _ => True).Reachable
        (afterSilence 1) ∧
      (afterSilence 1).payloads.size = 2 := by
  have hfault : (updatePayloads chainCrates fallingSilent
      { syncedNode with historySize := 64 }).1 =
        .error (.err (.consensusPayloadError (.rpc "blocks"))) := by
    decide +kernel
  have hstored : (afterSilence 64).payloads[(17000002 : UInt64)]? = some headPayload := by
    decide +kernel
  refine ⟨⟨.err (.consensusPayloadError (.rpc "blocks")), ?_⟩, fun hsame => ?_, ?_,
    by decide +kernel⟩
  · rw [newNode_run]
    exact hfault
  · have hkept := hsame.payloads 17000002
    rw [afterSilence_eq, hstored] at hkept
    cases hkept
  · exact .step (.init rfl) ⟨.sync, _, _, trivial, afterSilence_eq⟩

/-- Both heads and the end of the backfill are answered. -/
theorem honestBlocks_answered :
    EndAnswered chainCrates (fun _ => headMoment honestBlocks) syncedNode :=
  fun _ _ _ _ => Or.inl ⟨headBlock, rfl⟩

theorem history_bounded_synced :
    (afterSync honestBlocks).payloads.size ≤ 64 ∧
      (afterSync honestBlocks).finalizedPayloads.size ≤ 2 := by
  have hreach : (keeping chainCrates mainnet checkpointRoot.toList 64
      (AtPayloads chainCrates (EndAnswered chainCrates))).Reachable (afterSync honestBlocks) :=
    .step (.init rfl) ⟨.sync, _, _, headMoment_atPayloads honestBlocks_answered, by
      have hnew : ({ Node.new checkpointRoot.toList mainnet with historySize := 64 } : Node) =
          Node.new checkpointRoot.toList mainnet := rfl
      rw [hnew, afterSync_run]
      rfl⟩
  exact (history_bounded chainCrates mainnet checkpointRoot.toList 64 _ hreach).1

end Node

end Helios
