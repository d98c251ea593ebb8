import Helios.Client.Holes
import Helios.Client.Rpc

/-!
# What `eth_syncing` reports

The branch for a stale head asks for the block number through a query that refuses a stale head.

* `keyed_run`, `serving_keyed` — every payload is stored under its own number, in every run.
* `UpToDate`, `ReportsTruth` — a head at most ten slots behind the clock, and the answer that is
  true then or otherwise.
* `syncing_truthful_iff` — **it is given exactly when the head is in sync at the first reading of
  the clock, or the clock is set back to where it is by the second**.
* `syncing_refuses` — an hour without an update.
-/

set_option autoImplicit false

namespace Helios

namespace Node

open ConsensusClient OrderedMap Attempt

variable {k : ConsensusCrates} {config : Config} {checkpoint : Bytes} {node node' mid : Node}
  {w w' : World} {call : Call} {now now' now'' : UInt64}
  {Meets : Node → Call → World → World → Prop}

/-! ## The keys of the map -/

theorem keyed_updatePayloads (h : Keyed node.payloads) :
    Keyed (node.updatePayloads k w).2.payloads := by
  have hupdated : Updated k w node (node.updatePayloads k w) := updatePayloads_updated
  generalize node.updatePayloads k w = r at hupdated
  cases hupdated with
  | kept _ => exact h
  | @heads e latest finalized _ _ =>
    show Keyed (insertAll ExecutionPayload.blockNumber node.payloads [latest, finalized])
    exact h.insertAll
  | @full latest finalized endBlock _ _ _ =>
    have hheads : Keyed (node.insertHeads latest finalized).payloads := by
      show Keyed (insertAll ExecutionPayload.blockNumber node.payloads [latest, finalized])
      exact h.insertAll
    unfold prune insertBackfill
    rw [foldl_insertPayload]
    exact hheads.insertAll.popWhile

theorem keyed_run (h : Keyed node.payloads) : Keyed (node.run k call w w').2.payloads := by
  obtain ⟨client, hframe⟩ : SamePayloads node (node.consensusHalf k call w).2 :=
    consensusHalf_frame
  rcases run_cases with ⟨_, hrun⟩ | ⟨mid, hhalf, hrun⟩
  · rw [hrun, hframe]
    exact h
  · rw [hhalf] at hframe
    simp only at hframe
    rw [hrun]
    apply keyed_updatePayloads
    rw [hframe]
    exact h

/-- **Every payload is stored under its own number, in every run.** -/
theorem serving_keyed (h : (serving k config checkpoint Meets).Reachable node) :
    Keyed node.payloads := by
  refine System.invariant (S := serving k config checkpoint Meets)
    (I := fun node => Keyed node.payloads) ?_ ?_ h
  · rintro node rfl n p hp
    exact absurd hp (by simp [Node.new])
  · rintro node node' _ hnode ⟨call, w, w', _, rfl⟩
    exact keyed_run hnode

/-- The payload of the latest block is stored under the last key. -/
theorem getPayload_latest_ok (h : Keyed node.payloads) {latest : UInt64}
    (hlast : lastKey? node.payloads = some latest) :
    ∃ payload, node.getPayload .latest = .ok payload ∧ payload.blockNumber = latest := by
  obtain ⟨⟨number, payload⟩, hentry, rfl⟩ := Option.map_eq_some_iff.1 hlast
  have hvalue : lastValue? node.payloads = some payload := by
    rw [lastValue?, hentry, Option.map_some]
  refine ⟨payload, ?_, ?_⟩
  · unfold getPayload
    simp only [hvalue]
  · exact h number payload
      (Std.TreeMap.mem_toList_iff_getElem?_eq_some.1 (List.mem_of_getLast? hentry))

/-! ## The report -/

/-- The optimistic header is at most ten slots behind the clock. -/
def UpToDate (node : Node) (now : UInt64) : Prop :=
  ∃ expected, node.consensus.expectedCurrentSlot now = .ok expected ∧
    expected.toNat ≤ node.consensus.getHeader.slot.toNat + 10

/-- The optimistic header is at most ten slots behind the clock, and not ahead of it. -/
def InSync (node : Node) (now : UInt64) : Prop :=
  ¬ (node.BeforeGenesis now ∨ node.Behind now ∨ node.Ahead now)

/-- Up to date, the node is not syncing; otherwise it is, from the oldest stored block, and at the
    newest. -/
def ReportsTruth (node : Node) (now now' now'' : UInt64) : Prop :=
  (node.UpToDate now → node.syncing now now' now'' = .ok .isFalse) ∧
  (¬ node.UpToDate now → ∃ current highest starting,
    node.syncing now now' now'' = .ok (.isSyncing current highest starting) ∧
      lastKey? node.payloads = some current ∧ firstKey? node.payloads = some starting)

theorem inSync_iff : node.InSync now ↔ node.checkHeadAge now = .ok () := checkHeadAge_ok_iff.symm

theorem expectedCurrentSlot_answers_iff :
    (∃ expected, node.consensus.expectedCurrentSlot now = .ok expected) ↔
      ¬ node.BeforeGenesis now := by
  unfold ConsensusClient.expectedCurrentSlot BeforeGenesis
  simp only
  split
  · rename_i h
    simp [h]
  · rename_i h
    simp [h]

theorem upToDate_iff : node.UpToDate now ↔ ¬ node.BeforeGenesis now ∧ ¬ node.Behind now := by
  unfold UpToDate Behind
  rw [← expectedCurrentSlot_answers_iff]
  constructor
  · rintro ⟨expected, hexpected, hle⟩
    refine ⟨⟨expected, hexpected⟩, ?_⟩
    rintro ⟨expected', hexpected', hlt⟩
    rw [hexpected] at hexpected'
    cases hexpected'
    omega
  · rintro ⟨⟨expected, hexpected⟩, hbehind⟩
    refine ⟨expected, hexpected, ?_⟩
    apply Nat.le_of_not_lt
    intro hlt
    exact hbehind ⟨expected, hexpected, hlt⟩

theorem syncing_inSync (h : node.InSync now) : node.syncing now now' now'' = .ok .isFalse := by
  unfold syncing
  rw [inSync_iff.1 h]

/-- An answer of the branch for a stale head: the block number was not refused. -/
theorem syncing_refused_iff (hkeyed : Keyed node.payloads) {latest oldest : UInt64}
    (hlast : lastKey? node.payloads = some latest)
    (hfirst : firstKey? node.payloads = some oldest)
    (h : OutOfSync (node.checkHeadAge now)) {status : SyncingStatus} :
    node.syncing now now' now'' = .ok status ↔ node.InSync now' ∧
      ∃ highest, node.consensus.expectedCurrentSlot now'' = .ok highest ∧
        status = .isSyncing latest highest oldest := by
  obtain ⟨slots, hage⟩ := h
  obtain ⟨payload, hpayload, hnumber⟩ := getPayload_latest_ok hkeyed hlast
  unfold syncing getBlockNumber
  simp only [hage, inSync_iff, hfirst, hpayload]
  cases node.checkHeadAge now' with
  | error fault => simp
  | ok u =>
    simp only [hnumber, Option.getD_some, true_and]
    cases node.consensus.expectedCurrentSlot now'' with
    | error fault => simp
    | ok highest => simp [eq_comm]

/-- A head ahead of the clock is reported as one behind it, or not at all. -/
theorem not_truth_of_ahead (hkeyed : Keyed node.payloads) (hsynced : lastKey? node.payloads ≠ none)
    (hahead : node.Ahead now) : ¬ node.ReportsTruth now now' now'' := by
  obtain ⟨latest, hlast⟩ := Option.ne_none_iff_exists'.1 hsynced
  obtain ⟨oldest, hfirst⟩ := Option.ne_none_iff_exists'.1 (mt lastKey?_eq_none_iff.2 hsynced)
  have hbehind : ¬ node.Behind now := fun hbehind => not_behind_and_ahead hbehind hahead
  have hgenesis : ¬ node.BeforeGenesis now := by
    obtain ⟨expected, hexpected, _⟩ := hahead
    exact expectedCurrentSlot_answers_iff.1 ⟨expected, hexpected⟩
  intro h
  have hfalse := h.1 (upToDate_iff.2 ⟨hgenesis, hbehind⟩)
  rw [syncing_refused_iff hkeyed hlast hfirst
    (checkHeadAge_outOfSync_iff.2 (Or.inr hahead))] at hfalse
  obtain ⟨_, highest, _, hstatus⟩ := hfalse
  cases hstatus

/-- For a head behind the clock, the report needs a second reading at which it is not. -/
theorem truth_of_behind_iff (hkeyed : Keyed node.payloads)
    (hsynced : lastKey? node.payloads ≠ none) (hbehind : node.Behind now) :
    node.ReportsTruth now now' now'' ↔ node.InSync now' ∧ ¬ node.BeforeGenesis now'' := by
  obtain ⟨latest, hlast⟩ := Option.ne_none_iff_exists'.1 hsynced
  obtain ⟨oldest, hfirst⟩ := Option.ne_none_iff_exists'.1 (mt lastKey?_eq_none_iff.2 hsynced)
  have hup : ¬ node.UpToDate now := fun hup => (upToDate_iff.1 hup).2 hbehind
  have hrefused := @syncing_refused_iff node now now' now'' hkeyed latest oldest hlast hfirst
    (checkHeadAge_outOfSync_iff.2 (Or.inl hbehind))
  rw [← expectedCurrentSlot_answers_iff]
  constructor
  · intro h
    obtain ⟨current, highest, starting, hstatus, _⟩ := h.2 hup
    obtain ⟨hsync, highest', hhighest, _⟩ := hrefused.1 hstatus
    exact ⟨hsync, highest', hhighest⟩
  · rintro ⟨hsync, highest, hhighest⟩
    refine ⟨fun h => absurd h hup, fun _ => ?_⟩
    exact ⟨latest, highest, oldest, hrefused.2 ⟨hsync, highest, hhighest, rfl⟩, hlast, hfirst⟩

/-- **The report is true exactly when the head is in sync at the first reading of the clock, or it is
    behind there and in sync at the second**, the third not being before the genesis. -/
theorem syncing_truthful_iff (h : (serving k config checkpoint Meets).Reachable node)
    (hsynced : lastKey? node.payloads ≠ none) :
    node.ReportsTruth now now' now'' ↔
      node.InSync now ∨
        node.Behind now ∧ node.InSync now' ∧ ¬ node.BeforeGenesis now'' := by
  have hkeyed : Keyed node.payloads := serving_keyed h
  by_cases hsync : node.InSync now
  · have hup : node.UpToDate now := by
      unfold InSync at hsync
      rw [upToDate_iff]
      tauto
    refine ⟨fun _ => Or.inl hsync, fun _ => ⟨fun _ => syncing_inSync hsync, ?_⟩⟩
    exact fun hnot => absurd hup hnot
  by_cases hbehind : node.Behind now
  · rw [truth_of_behind_iff hkeyed hsynced hbehind]
    tauto
  have hrest : node.BeforeGenesis now ∨ node.Ahead now := by
    unfold InSync at hsync
    tauto
  have hnot : ¬ node.ReportsTruth now now' now'' := by
    rcases hrest with hgenesis | hahead
    · intro htruth
      have hup : ¬ node.UpToDate now := fun hup => (upToDate_iff.1 hup).1 hgenesis
      obtain ⟨current, highest, starting, hstatus, _⟩ := htruth.2 hup
      have hpanics : Panics (node.syncing now now' now'') := syncing_panics_iff.2 (Or.inl hgenesis)
      rw [hstatus] at hpanics
      simp at hpanics
    · exact not_truth_of_ahead hkeyed hsynced hahead
  tauto

/-! ## An hour without an update -/

theorem afterSync_serving : (serving chainCrates mainnet checkpointRoot.toList
    fun _ _ _ _ => True).Reachable (afterSync honestBlocks) :=
  afterSync_reachable trivial

theorem afterSync_latest : lastKey? (afterSync honestBlocks).payloads ≠ none := by
  decide +kernel

theorem afterSync_inSync : (afterSync honestBlocks).InSync 1683624059 :=
  inSync_iff.2 (by decide +kernel)

/-- The report is true at the head; and an hour later, if the clock is set back in between. -/
theorem syncing_truthful_synced :
    (afterSync honestBlocks).ReportsTruth 1683624059 1683624059 1683624059 ∧
      (afterSync honestBlocks).ReportsTruth hourLater 1683624059 1683624059 := by
  refine ⟨(syncing_truthful_iff afterSync_serving afterSync_latest).2 (Or.inl afterSync_inSync),
    (syncing_truthful_iff afterSync_serving afterSync_latest).2 (Or.inr ⟨hourLater_behind,
      afterSync_inSync, ?_⟩)⟩
  exact fun hgenesis => afterSync_inSync (Or.inl hgenesis)

/-- An hour after the head, the progress is refused. -/
theorem syncing_refuses :
    ¬ ∀ (k : ConsensusCrates) (config : Config) (checkpoint : Bytes) (node : Node)
      (now now' now'' : UInt64),
      (serving k config checkpoint fun _ _ _ _ => True).Reachable node →
        lastKey? node.payloads ≠ none → node.ReportsTruth now now' now'' := by
  intro h
  have htruth := h _ _ _ _ hourLater hourLater hourLater afterSync_serving afterSync_latest
  have hkeyed : Keyed (afterSync honestBlocks).payloads := serving_keyed afterSync_serving
  have hsync := ((truth_of_behind_iff hkeyed afterSync_latest hourLater_behind).1 htruth).1
  exact hsync (Or.inr (Or.inl hourLater_behind))

end Node

end Helios
