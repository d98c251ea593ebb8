import Helios.Client.Syncing

/-!
# What a reader sees over time

Nothing is trusted here: whatever the servers answer and whichever calls fail,

* `Ascending`, `updatePayloads_ascending` — every payload half moves the maps upwards, and keeps the
  finalized payloads below the others;
* `serving_finalized_below` — so they are, in every run;
* `reads_monotone` — **and the numbers of the latest and the finalized block never go back, the
  finalized one is never above the latest, and a lookup by number agrees with both**.
-/

set_option autoImplicit false

namespace Helios

namespace Node

open ConsensusClient OrderedMap Attempt

variable {k : ConsensusCrates} {config : Config} {checkpoint : Bytes} {node node' : Node}
  {w w' : World} {call : Call} {Meets : Node → Call → World → World → Prop}

/-- Both maps have moved upwards, and the finalized payloads stay below the others. -/
structure Ascending (node node' : Node) : Prop where
  payloads : Below node.payloads node'.payloads
  finalizedPayloads : Below node.finalizedPayloads node'.finalizedPayloads
  kept : Below node.finalizedPayloads node.payloads →
    Below node'.finalizedPayloads node'.payloads

theorem Ascending.refl (node : Node) : Ascending node node := ⟨.refl _, .refl _, id⟩

theorem Ascending.trans {node'' : Node} (h : Ascending node node') (h' : Ascending node' node'') :
    Ascending node node'' :=
  ⟨h.payloads.trans h'.payloads, h.finalizedPayloads.trans h'.finalizedPayloads,
    fun hbelow => h'.kept (h.kept hbelow)⟩

theorem insertHeads_ascending {latest finalized : ExecutionPayload} :
    Ascending node (node.insertHeads latest finalized) := by
  have hpayloads : Below node.payloads
      (insertAll ExecutionPayload.blockNumber node.payloads [latest, finalized]) := .insertAll
  have hfinalized : Below node.finalizedPayloads
      (insertAll ExecutionPayload.blockNumber node.finalizedPayloads [finalized]) := .insertAll
  refine ⟨hpayloads, hfinalized, fun hbelow => ?_⟩
  -- the finalized payload goes into both maps
  refine (hbelow.trans hpayloads).insert ?_
  exact Std.TreeMap.mem_insert_self

theorem insertBackfill_ascending {backfill : List ExecutionPayload} :
    Ascending node (node.insertBackfill backfill) := by
  unfold insertBackfill
  rw [foldl_insertPayload]
  exact ⟨.insertAll, .refl _, fun hbelow => hbelow.trans .insertAll⟩

theorem prune_ascending (hsize : node.historySize = 64) : Ascending node node.prune := by
  have hbound : 1 ≤ node.historySize.toNat := by
    rw [hsize]
    decide
  refine ⟨.popWhile hbound, .popWhile (Nat.le_max_right _ _), fun hbelow => ?_⟩
  have hpopped : Below node.prune.finalizedPayloads node.finalizedPayloads :=
    .of_subset fun _ hk => mem_of_mem_popWhile hk
  exact (hpopped.trans hbelow).trans (.popWhile hbound)

/-- **One payload half**, whichever way it ends. -/
theorem updatePayloads_ascending (hsize : node.historySize = 64) :
    Ascending node (node.updatePayloads k w).2 := by
  have hupdated : Updated k w node (node.updatePayloads k w) := updatePayloads_updated
  generalize node.updatePayloads k w = r at hupdated
  cases hupdated with
  | kept _ => exact .refl node
  | heads _ _ => exact insertHeads_ascending
  | full _ _ _ =>
    refine (insertHeads_ascending.trans insertBackfill_ascending).trans (prune_ascending ?_)
    unfold insertBackfill
    rw [foldl_insertPayload]
    exact hsize

theorem run_ascending (h : Configured config checkpoint node) :
    Ascending node (node.run k call w w').2 := by
  obtain ⟨client, hframe⟩ : SamePayloads node (node.consensusHalf k call w).2 :=
    consensusHalf_frame
  have hhalf : Ascending node (node.consensusHalf k call w).2 := by
    rw [hframe]
    exact ⟨.refl _, .refl _, id⟩
  rcases run_cases with ⟨_, hrun⟩ | ⟨mid, hmid, hrun⟩
  · rw [hrun]
    exact hhalf
  · rw [hmid] at hframe hhalf
    rw [hrun]
    refine hhalf.trans (updatePayloads_ascending ?_)
    simp only at hframe
    rw [hframe]
    exact h.historySize

/-! ## Whole runs -/

theorem serving_finalized_below (h : (serving k config checkpoint Meets).Reachable node) :
    Below node.finalizedPayloads node.payloads := by
  refine System.invariant (S := serving k config checkpoint Meets)
    (I := fun node => Below node.finalizedPayloads node.payloads) ?_ ?_ h
  · rintro node rfl
    exact .refl _
  · rintro node node' hreach hbelow ⟨call, w, w', _, rfl⟩
    exact (run_ascending (serving_configured hreach)).kept hbelow

theorem serving_ascending (h : (serving k config checkpoint Meets).Reachable node)
    (hs : (serving k config checkpoint Meets).Steps node node') : Ascending node node' := by
  induction hs with
  | refl => exact .refl node
  | tail hsteps hlast ih =>
    obtain ⟨call, w, w', _, rfl⟩ := hlast
    exact ih.trans (run_ascending (serving_configured (h.steps hsteps)))

theorem keyed_finalized_updatePayloads (h : Keyed node.finalizedPayloads) :
    Keyed (node.updatePayloads k w).2.finalizedPayloads := by
  have hupdated : Updated k w node (node.updatePayloads k w) := updatePayloads_updated
  generalize node.updatePayloads k w = r at hupdated
  have hheads : ∀ latest finalized,
      Keyed (node.insertHeads latest finalized).finalizedPayloads := by
    intro latest finalized
    show Keyed (insertAll ExecutionPayload.blockNumber node.finalizedPayloads [finalized])
    exact h.insertAll
  cases hupdated with
  | kept _ => exact h
  | heads _ _ => exact hheads _ _
  | full _ _ _ =>
    unfold prune insertBackfill
    rw [foldl_insertPayload]
    exact (hheads _ _).popWhile

theorem serving_keyed_finalized (h : (serving k config checkpoint Meets).Reachable node) :
    Keyed node.finalizedPayloads := by
  refine System.invariant (S := serving k config checkpoint Meets)
    (I := fun node => Keyed node.finalizedPayloads) ?_ ?_ h
  · rintro node rfl n p hp
    exact absurd hp (by simp [Node.new])
  · rintro node node' _ hnode ⟨call, w, w', _, rfl⟩
    obtain ⟨client, hframe⟩ : SamePayloads node (node.consensusHalf k call w).2 :=
      consensusHalf_frame
    rcases run_cases with ⟨_, hrun⟩ | ⟨mid, hhalf, hrun⟩
    · rw [hrun, hframe]
      exact hnode
    · rw [hhalf] at hframe
      simp only at hframe
      rw [hrun]
      apply keyed_finalized_updatePayloads
      rw [hframe]
      exact hnode

/-! ## The reads -/

/-- The value at the end of a keyed map has the last key as its number. -/
theorem lastKey?_of_lastValue? {payloads : Payloads} (h : Keyed payloads) {p : ExecutionPayload}
    (hp : lastValue? payloads = some p) : lastKey? payloads = some p.blockNumber := by
  obtain ⟨⟨number, payload⟩, hentry, rfl⟩ := Option.map_eq_some_iff.1 hp
  rw [lastKey?, hentry, Option.map_some]
  congr 1
  exact (h number payload
    (Std.TreeMap.mem_toList_iff_getElem?_eq_some.1 (List.mem_of_getLast? hentry))).symm

/-- The same, from the key. -/
theorem lastValue?_of_lastKey? {payloads : Payloads} (h : Keyed payloads) {last : UInt64}
    (hlast : lastKey? payloads = some last) :
    ∃ p, lastValue? payloads = some p ∧ p.blockNumber = last ∧ payloads[last]? = some p := by
  obtain ⟨⟨number, payload⟩, hentry, rfl⟩ := Option.map_eq_some_iff.1 hlast
  have hget : payloads[number]? = some payload :=
    Std.TreeMap.mem_toList_iff_getElem?_eq_some.1 (List.mem_of_getLast? hentry)
  exact ⟨payload, by rw [lastValue?, hentry, Option.map_some], h number payload hget, hget⟩

/-- Below another map, the block at the end is not newer. -/
theorem Below.lastValue? {payloads payloads' : Payloads} (hbelow : Below payloads payloads')
    (h : Keyed payloads) (h' : Keyed payloads') {p : ExecutionPayload}
    (hp : OrderedMap.lastValue? payloads = some p) :
    ∃ p', OrderedMap.lastValue? payloads' = some p' ∧ p.blockNumber ≤ p'.blockNumber := by
  obtain ⟨last, hlast, hle⟩ := hbelow.lastKey? (lastKey?_of_lastValue? h hp)
  obtain ⟨p', hp', hnumber, _⟩ := lastValue?_of_lastKey? h' hlast
  refine ⟨p', hp', ?_⟩
  rw [hnumber]
  rcases hle with heq | hlt
  · rw [heq]
    exact UInt64.le_refl _
  · exact UInt64.le_of_lt (Std.compare_eq_lt.1 hlt)

theorem getPayload_latest {p : ExecutionPayload} :
    node.getPayload .latest = .ok p ↔ lastValue? node.payloads = some p := by
  unfold getPayload
  simp only
  cases lastValue? node.payloads <;> simp

theorem getPayload_finalized {p : ExecutionPayload} :
    node.getPayload .finalized = .ok p ↔ lastValue? node.finalizedPayloads = some p := by
  unfold getPayload
  simp only
  cases lastValue? node.finalizedPayloads <;> simp

theorem getPayload_number {n : UInt64} {p : ExecutionPayload} :
    node.getPayload (.number n) = .ok p ↔ node.payloads[n]? = some p := by
  unfold getPayload
  simp only
  cases node.payloads[n]? <;> simp

/-- **Reads do not go back.**  Over any calls, whatever the servers answer and whichever of them
    fail: a later `Latest` or `Finalized` names a block of the same or a larger number; `Finalized`
    is never above `Latest`; a lookup by number gives the block of that number, which is not above
    `Latest`; and by the number of `Latest` it gives the block of `Latest`. -/
theorem reads_monotone (k : ConsensusCrates) (config : Config) (checkpoint : Bytes)
    (Meets : Node → Call → World → World → Prop) (node node' : Node)
    (h : (serving k config checkpoint Meets).Reachable node)
    (hs : (serving k config checkpoint Meets).Steps node node') :
    (∀ p, node.getPayload .latest = .ok p →
      ∃ p', node'.getPayload .latest = .ok p' ∧ p.blockNumber ≤ p'.blockNumber) ∧
    (∀ p, node.getPayload .finalized = .ok p →
      ∃ p', node'.getPayload .finalized = .ok p' ∧ p.blockNumber ≤ p'.blockNumber) ∧
    (∀ p, node.getPayload .finalized = .ok p →
      ∃ p', node.getPayload .latest = .ok p' ∧ p.blockNumber ≤ p'.blockNumber) ∧
    (∀ n p, node.getPayload (.number n) = .ok p → p.blockNumber = n ∧
      ∃ p', node.getPayload .latest = .ok p' ∧ n ≤ p'.blockNumber) ∧
    (∀ p, node.getPayload .latest = .ok p →
      node.getPayload (.number p.blockNumber) = .ok p) := by
  have hkeyed := serving_keyed h
  have hkeyed' := serving_keyed (h.steps hs)
  have hascending := serving_ascending h hs
  simp only [getPayload_latest, getPayload_finalized, getPayload_number]
  refine ⟨fun p hp => ?_, fun p hp => ?_, fun p hp => ?_, fun n p hp => ⟨hkeyed n p hp, ?_⟩,
    fun p hp => ?_⟩
  · exact Below.lastValue? hascending.payloads hkeyed hkeyed' hp
  · exact Below.lastValue? hascending.finalizedPayloads (serving_keyed_finalized h)
      (serving_keyed_finalized (h.steps hs)) hp
  · exact Below.lastValue? (serving_finalized_below h) (serving_keyed_finalized h) hkeyed hp
  · obtain ⟨last, _, hlast, hlastKey⟩ := exists_isLast (mem_of_getElem? hp)
    obtain ⟨p', hp', hnumber, _⟩ := lastValue?_of_lastKey? hkeyed hlastKey
    refine ⟨p', hp', ?_⟩
    rw [hnumber]
    rcases hlast.largest n (mem_of_getElem? hp) with heq | hlt
    · rw [heq]
      exact UInt64.le_refl _
    · exact UInt64.le_of_lt (Std.compare_eq_lt.1 hlt)
  · obtain ⟨p', hp', hnumber, hget⟩ := lastValue?_of_lastKey? hkeyed
      (lastKey?_of_lastValue? hkeyed hp)
    rw [hp] at hp'
    cases hp'
    exact hget

/-- The chain reorganises to a block with a smaller number, and the reads do not follow it back. -/
theorem reads_monotone_reorganised : ∃ p', (afterAdvance laterBlocks).getPayload .latest = .ok p' ∧
    headPayload.blockNumber ≤ p'.blockNumber := by
  have hreach : (serving chainCrates mainnet checkpointRoot.toList fun _ _ _ _ => True).Reachable
      (afterSync honestBlocks) := afterSync_reachable trivial
  have hstep : (serving chainCrates mainnet checkpointRoot.toList fun _ _ _ _ => True).Steps
      (afterSync honestBlocks) (afterAdvance laterBlocks) := by
    refine .single ⟨.advance, fun _ => laterMoment laterBlocks, fun _ => laterMoment laterBlocks,
      trivial, ?_⟩
    rw [afterAdvance_run]
    rfl
  have hlatest : (afterSync honestBlocks).getPayload .latest = .ok headPayload := by
    decide +kernel
  exact (reads_monotone chainCrates mainnet checkpointRoot.toList _ _ _ hreach hstep).1 _ hlatest

end Node

end Helios
