import Helios.Client.Heads

/-!
# How old the latest payload can be

`check_head_age` reads the optimistic header, queries read the map of payloads, and the two move in
different steps of a call, either of which can fail.

* `following` — a successful `sync`, and then any calls of `advance` under a condition.
* `KeepsUp` — a call that moves the header also gets to the payload of the new head.
* `Current`, `advance_current` — the invariant: the last entry of the map is the payload of the
  optimistic header.
* `head_age_fresh` — **so an answer that passes the age check is at most ten slots old**.
* `head_age_stale` — the header moves, the block is withheld, and an old payload passes the check.
-/

set_option autoImplicit false

namespace Helios

namespace Node

open ConsensusClient Attempt OrderedMap

variable {k : ConsensusCrates} {config : Config} {checkpoint : Bytes} {node node' mid : Node}
  {w w' : World}

/-- The nodes after a successful `sync`, of whatever node, and then any calls of `advance`,
    successful or not, that meet a condition. -/
def following (k : ConsensusCrates) (config : Config) (checkpoint : Bytes)
    (AtSync : World → Node → Prop) (AtAdvance : World → World → Node → Prop) : System Node where
  init node := ∃ prior w w', Configured config checkpoint prior ∧
    AtPayloads k AtSync prior .sync w w' ∧ prior.sync k w w' = (.ok (), node)
  step node node' := ∃ w w', AtAdvance w w' node ∧ (node.advance k w w').2 = node'

/-- When the consensus half moves the optimistic header, the rest of it succeeds and both heads are
    answered; and the head has the largest number of all blocks stored or answered. -/
structure KeepsUp (k : ConsensusCrates) (w w' : World) (node : Node) : Prop where
  moved : (node.advanceConsensus k w).2.consensus.getHeader ≠ node.consensus.getHeader →
    (node.advanceConsensus k w).1 = .ok () ∧
      ∃ latest finalized, (node.advanceConsensus k w).2.IsLatest k w' latest ∧
        (node.advanceConsensus k w).2.IsFinalized k w' finalized
  onTop : ∀ mid, node.advanceConsensus k w = (.ok (), mid) → mid.HeadOnTop k w'

/-- The last entry of the map is the payload of the optimistic header. -/
structure Current (k : ConsensusCrates) (config : Config) (checkpoint : Bytes) (node : Node) :
    Prop where
  consensus : (lightClient k config checkpoint).Reachable node.consensus
  historySize : node.historySize = 64
  latest : ∃ p block root, IsLast node.payloads p.blockNumber p ∧
    k.headerRoot node.consensus.getHeader = some root ∧ k.blockRoot block = some root ∧
    block.body.executionPayload = p

/-- Only the payloads and the optimistic header matter for the last entry. -/
theorem Current.of_same (h : Current k config checkpoint node)
    (hconsensus : (lightClient k config checkpoint).Reachable node'.consensus)
    (hpayloads : node'.payloads = node.payloads) (hsize : node'.historySize = node.historySize)
    (hheader : node'.consensus.getHeader = node.consensus.getHeader) :
    Current k config checkpoint node' := by
  refine ⟨hconsensus, hsize.trans h.historySize, ?_⟩
  rw [hpayloads, hheader]
  exact h.latest

/-! ## The payload half -/

/-- A payload half that reaches its inserts makes the head the last entry, also when the backfill
    fails afterwards. -/
theorem updatePayloads_current
    (hconsensus : (lightClient k config checkpoint).Reachable mid.consensus)
    (hsize : mid.historySize = 64) (hhead : mid.HeadOnTop k w)
    (h : (∃ latest finalized, mid.IsLatest k w latest ∧ mid.IsFinalized k w finalized) ∨
      Current k config checkpoint mid) :
    Current k config checkpoint (mid.updatePayloads k w).2 := by
  obtain ⟨hsameConsensus, hsameSize⟩ :
      (mid.updatePayloads k w).2.consensus = mid.consensus ∧
        (mid.updatePayloads k w).2.historySize = mid.historySize := updatePayloads_frame
  have hupdated : Updated k w mid (mid.updatePayloads k w) := updatePayloads_updated
  generalize mid.updatePayloads k w = r at hupdated hsameConsensus hsameSize
  have hlatest : ∀ latest, mid.IsLatest k w latest →
      IsLast r.2.payloads latest.blockNumber latest → Current k config checkpoint r.2 := by
    intro latest hl hlast
    obtain ⟨block, root, _, hblock, hheader, hpayload⟩ := hl
    refine ⟨?_, hsameSize.trans hsize, latest, block, root, hlast, ?_, hblock, hpayload⟩
    · rw [hsameConsensus]
      exact hconsensus
    · rw [hsameConsensus]
      exact hheader
  cases hupdated with
  | kept hno =>
    rcases h with hanswered | hcurrent
    · exact absurd hanswered hno
    · exact hcurrent
  | heads hl hf =>
    obtain ⟨hkeys, hfinalized, _⟩ := hhead _ _ hl hf
    exact hlatest _ hl (insertHeads_isLast hkeys hfinalized)
  | @full latest finalized endBlock hl hf hend =>
    obtain ⟨hkeys, hfinalized, hbackfill⟩ := hhead _ _ hl hf
    exact hlatest _ hl (isLast_backfill_prune hsize (insertHeads_isLast hkeys hfinalized)
      (allLinked_iff.1 (hbackfill endBlock hend)))

/-! ## The calls -/

theorem sync_current (hprior : Configured config checkpoint node)
    (hmeets : AtPayloads k (HeadOnTop k) node .sync w w')
    (h : node.sync k w w' = (.ok (), node')) : Current k config checkpoint node' := by
  obtain ⟨mid, hhalf, hupdate⟩ := andThen_ok.1 h
  have hhalf' : node.consensusHalf k .sync w = (.ok (), mid) := hhalf
  have hconfigured : Configured config checkpoint (node.consensusHalf k .sync w).2 :=
    configured_consensusHalf hprior
  have hconsensus : (lightClient k config checkpoint).Reachable mid.consensus := by
    rcases consensusHalf_sync with ⟨herr, _⟩ | ⟨client, hboot, hsteps⟩
    · rw [hhalf'] at herr
      exact absurd rfl herr
    · rw [hhalf'] at hsteps
      have hclient : (lightClient k config checkpoint).Reachable client :=
        .init ⟨_, _, hprior.config, hprior.initialCheckpoint, hboot⟩
      exact hclient.steps hsteps
  rw [hhalf'] at hconfigured
  have hupdated : Updated k w' mid (mid.updatePayloads k w') := updatePayloads_updated
  have hanswered : ∃ latest finalized, mid.IsLatest k w' latest ∧ mid.IsFinalized k w' finalized := by
    rw [hupdate] at hupdated
    cases hupdated with
    | full hl hf _ => exact ⟨_, _, hl, hf⟩
  have hcurrent := updatePayloads_current hconsensus hconfigured.historySize
    (hmeets mid hhalf') (Or.inl hanswered)
  rw [hupdate] at hcurrent
  exact hcurrent

/-- **One call of `advance`**, successful or not. -/
theorem advance_current (h : Current k config checkpoint node) (hkeeps : node.KeepsUp k w w') :
    Current k config checkpoint (node.advance k w w').2 := by
  have hconsensus : (lightClient k config checkpoint).Reachable
      (node.advanceConsensus k w).2.consensus := advance_reachable h.consensus
  -- while the header stays, so does what the map has to hold
  have hsame : (node.advanceConsensus k w).2.consensus.getHeader = node.consensus.getHeader →
      Current k config checkpoint (node.advanceConsensus k w).2 :=
    fun hheader => h.of_same hconsensus rfl rfl hheader
  obtain ⟨hmoved, honTop⟩ := hkeeps
  have hsize : (node.advanceConsensus k w).2.historySize = 64 := h.historySize
  unfold Node.advance
  generalize node.advanceConsensus k w = r at *
  obtain ⟨r, mid⟩ := r
  by_cases hheader : mid.consensus.getHeader = node.consensus.getHeader
  · cases r with
    | error e => exact hsame hheader
    | ok u =>
      exact updatePayloads_current hconsensus hsize (honTop mid rfl) (Or.inr (hsame hheader))
  · obtain ⟨hok, hanswered⟩ := hmoved hheader
    obtain rfl : r = .ok () := hok
    exact updatePayloads_current hconsensus hsize (honTop mid rfl) (Or.inl hanswered)

/-! ## Whole runs -/

/-- What passes the age check is at most ten slots old: the latest payload is that of a block that
    was verified, and whose slot is at most ten behind the clock. -/
def FreshLatest (k : ConsensusCrates) (config : Config) (checkpoint : Bytes) (node : Node) : Prop :=
  ∀ now, node.checkHeadAge now = .ok () → ∀ payload, node.getPayload .latest = .ok payload →
    ∃ expected header block root, node.consensus.expectedCurrentSlot now = .ok expected ∧
      VerifiedHeader k config checkpoint header ∧ k.headerRoot header = some root ∧
      k.blockRoot block = some root ∧ block.body.executionPayload = payload ∧
      expected.toNat ≤ block.slot.toNat + 10

/-- A delay of at most ten slots, in the wrapping arithmetic of the release profile. -/
theorem checkHeadAge_ok {now : UInt64} (h : node.checkHeadAge now = .ok ()) :
    ∃ expected, node.consensus.expectedCurrentSlot now = .ok expected ∧
      expected.toNat ≤ node.consensus.getHeader.slot.toNat + 10 := by
  unfold checkHeadAge at h
  simp only at h
  split at h
  · cases h
  rename_i expected hexpected
  split at h
  · cases h
  rename_i hdelay
  refine ⟨expected, hexpected, ?_⟩
  rw [gt_iff_lt, UInt64.not_lt, UInt64.le_iff_toNat_le, UInt64.toNat_sub] at hdelay
  have h10 : (10 : UInt64).toNat = 10 := rfl
  have hexp := expected.toNat_lt
  have hslot := node.consensus.getHeader.slot.toNat_lt
  omega

/-- **Freshness.**  In every run from a successful `sync` whose calls of `advance` keep up, whatever
    else fails in them, every latest payload that passes the age check belongs to a block at most
    ten slots old.  A block has the slot of the header with its root. -/
theorem head_age_fresh (k : ConsensusCrates) (config : Config) (checkpoint : Bytes)
    (hslot : ∀ header block root, k.headerRoot header = some root → k.blockRoot block = some root →
      block.slot = header.slot)
    (node : Node)
    (h : (following k config checkpoint (HeadOnTop k) (KeepsUp k)).Reachable node) :
    FreshLatest k config checkpoint node := by
  have hcurrent : Current k config checkpoint node := by
    refine System.invariant (S := following k config checkpoint (HeadOnTop k) (KeepsUp k))
      (I := Current k config checkpoint) ?_ ?_ h
    · rintro node ⟨prior, w, w', hprior, hmeets, hsync⟩
      exact sync_current hprior hmeets hsync
    · rintro node node' _ hnode ⟨w, w', hkeeps, rfl⟩
      exact advance_current hnode hkeeps
  intro now hage payload hpayload
  obtain ⟨p, block, root, hlast, hheader, hblock, hp⟩ := hcurrent.latest
  obtain ⟨expected, hexpected, hle⟩ := checkHeadAge_ok hage
  rw [getPayload, lastValue?_of_isLast hlast] at hpayload
  cases hpayload
  refine ⟨expected, node.consensus.getHeader, block, root, hexpected,
    (reachable_verified hcurrent.consensus).1, hheader, hblock, hp, ?_⟩
  rw [hslot _ _ _ hheader hblock]
  exact hle

theorem chain_slot (header : Header) (block : BeaconBlock) (root : Bytes32)
    (hheader : chainCrates.headerRoot header = some root)
    (hblock : chainCrates.blockRoot block = some root) : block.slot = header.slot := by
  have hall : ∀ e ∈ headerRoots, ∀ e' ∈ blockRoots, e.2 = e'.2 → e'.1.slot = e.1.slot := by
    decide +kernel
  exact hall (header, root) (mem_of_lookup hheader) (block, root) (mem_of_lookup hblock) rfl

theorem head_age_fresh_synced :
    FreshLatest chainCrates mainnet checkpointRoot.toList (afterSync honestBlocks) :=
  head_age_fresh chainCrates mainnet checkpointRoot.toList chain_slot _
    (.init ⟨_, _, _, ⟨rfl, rfl, rfl⟩,
      headMoment_atPayloads honestBlocks_onTop.1, afterSync_ok⟩)

/-! ## Withheld blocks -/

/-- The server goes on with the updates and withholds the blocks: the call fails, the header has
    moved, and forty slots later the old payload still passes the age check. -/
theorem head_age_stale :
    (following chainCrates mainnet checkpointRoot.toList (fun _ _ => True)
        fun _ _ _ => True).Reachable movedNode ∧
      ((afterSync honestBlocks).advance chainCrates (fun _ => laterMoment [])
        (fun _ => laterMoment [])).1 ≠ .ok () ∧
      movedNode.checkHeadAge 1683624551 = .ok () ∧
      movedNode.getPayload .latest = .ok headPayload ∧
      ¬ FreshLatest chainCrates mainnet checkpointRoot.toList movedNode := by
  have hrun : (afterSync honestBlocks).advance chainCrates (fun _ => laterMoment [])
      (fun _ => laterMoment []) =
        (.error (.err (.consensusPayloadError (.rpc "blocks"))), movedNode) := by
    rw [← run_advance, afterAdvance_run]
    rfl
  have hage : movedNode.checkHeadAge 1683624551 = .ok () := by
    decide +kernel
  have hlatest : movedNode.getPayload .latest = .ok headPayload := by
    decide +kernel
  have hreach : (following chainCrates mainnet checkpointRoot.toList (fun _ _ => True)
      fun _ _ _ => True).Reachable movedNode := by
    refine .step (.init ⟨_, _, _, ⟨rfl, rfl, rfl⟩, fun _ _ => trivial, afterSync_ok⟩)
      ⟨fun _ => laterMoment [], fun _ => laterMoment [], trivial, ?_⟩
    rw [hrun]
  refine ⟨hreach, by rw [hrun]; simp, hage, hlatest, fun hfresh => ?_⟩
  obtain ⟨expected, _, block, root, hexpected, _, _, hblock, hpayload, hle⟩ :=
    hfresh _ hage _ hlatest
  have hnow : movedNode.consensus.expectedCurrentSlot 1683624551 = .ok 6400044 := by
    decide +kernel
  rw [hnow] at hexpected
  cases hexpected
  have hne : headPayload ≠ checkpointPayload ∧ headPayload ≠ laterPayload := by
    decide +kernel
  rcases chain_block hblock with rfl | rfl | rfl
  · exact hne.1 hpayload.symm
  · exact absurd hle (by decide)
  · exact hne.2 hpayload.symm

end Node

end Helios
