import Helios.Consensus.Headers
import Helios.Consensus.Recovery

/-!
# Applying an update twice

`advance` receives the same update on most slots.

* `Settled` — the conditions under which applying an update only raises the participation.
* `applied_settled` — an update that has been applied is settled, also after the committees have
  rotated and the counter was reset.
* `reapply_harmless` — **so applying it again changes nothing that anybody reads**.
* `informed` — a client on mainnet that has applied an update; the runs that lead to it, with and
  without a clock.
-/

set_option autoImplicit false

namespace Helios

namespace ConsensusClient

variable {k : ConsensusCrates} {config : Config} {checkpoint : Bytes}
  {client client' : ConsensusClient} {now now' : UInt64} {update : GenericUpdate}

/-- What two clients have in common when only the counters differ, and not their threshold. -/
structure SameOutcome (client client' : ConsensusClient) : Prop where
  finalizedHeader : client'.store.finalizedHeader = client.store.finalizedHeader
  optimisticHeader : client'.store.optimisticHeader = client.store.optimisticHeader
  currentSyncCommittee : client'.store.currentSyncCommittee = client.store.currentSyncCommittee
  nextSyncCommittee : client'.store.nextSyncCommittee = client.store.nextSyncCommittee
  lastCheckpoint : client'.lastCheckpoint = client.lastCheckpoint
  safetyThreshold : safetyThreshold client'.store = safetyThreshold client.store

/-- The update moves no header and no committee, and its participation has been counted. -/
structure Settled (store : LightClientStore) (update : GenericUpdate) : Prop where
  counted : participants update ≤
    max store.currentMaxActiveParticipants store.previousMaxActiveParticipants
  optimistic : safetyThreshold store < participants update →
    update.attestedHeader.slot ≤ store.optimisticHeader.slot
  finality : shouldApplyUpdate store update (participants update) = false

/-! ## Participation -/

/-- Counting a participation again does not move the threshold. -/
theorem raise_threshold
    (h : participants update ≤
      max client.store.currentMaxActiveParticipants client.store.previousMaxActiveParticipants) :
    safetyThreshold (client.raiseParticipants (participants update)).store =
      safetyThreshold client.store := by
  rw [UInt64.le_iff_toNat_le, u64_max_toNat] at h
  have hmax : max (max client.store.currentMaxActiveParticipants (participants update))
      client.store.previousMaxActiveParticipants =
        max client.store.currentMaxActiveParticipants
          client.store.previousMaxActiveParticipants := by
    apply UInt64.toNat_inj.1
    simp only [u64_max_toNat]
    omega
  show max _ _ / 2 = max _ _ / 2
  exact congrArg (· / 2) hmax

/-- The participation of an update is counted by applying it, also when the counter is moved. -/
theorem applied_counted (happly : client.applyGenericUpdate k now now' update = .ok client') :
    participants update ≤
      max client'.store.currentMaxActiveParticipants
        client'.store.previousMaxActiveParticipants := by
  obtain ⟨mid, hmid, hcases⟩ := applyGenericUpdate_ok happly
  have hcurrent : participants update ≤ mid.store.currentMaxActiveParticipants := by
    have hraise : participants update ≤
        (client.raiseParticipants (participants update)).store.currentMaxActiveParticipants := by
      rw [UInt64.le_iff_toNat_le]
      show _ ≤ (max _ _ : UInt64).toNat
      rw [u64_max_toNat]
      omega
    rcases applyOptimistic_ok hmid with ⟨_, _, rfl⟩ | ⟨_, rfl⟩ <;> exact hraise
  rw [UInt64.le_iff_toNat_le, u64_max_toNat]
  rw [UInt64.le_iff_toNat_le] at hcurrent
  rcases hcases with ⟨_, rfl⟩ | ⟨_, rotated, hrotated, hfinal⟩
  · omega
  have hmoved : participants update ≤ rotated.store.currentMaxActiveParticipants ∨
      participants update ≤ rotated.store.previousMaxActiveParticipants := by
    rw [UInt64.le_iff_toNat_le, UInt64.le_iff_toNat_le]
    rcases applyCommittee_ok hrotated with ⟨_, rfl⟩ | ⟨_, _, _, rfl⟩ | ⟨_, _, _, rfl⟩
    · exact Or.inl hcurrent
    · exact Or.inr hcurrent
    · exact Or.inl hcurrent
  rw [UInt64.le_iff_toNat_le, UInt64.le_iff_toNat_le] at hmoved
  rcases applyFinalized_ok hfinal with ⟨_, rfl⟩ | ⟨_, _, _, rfl⟩
  · omega
  · show _ ≤ max rotated.store.currentMaxActiveParticipants.toNat
      rotated.store.previousMaxActiveParticipants.toNat
    omega

/-! ## Finality -/

/-- A next committee that is still unknown was not carried by the update. -/
theorem applyCommittee_next (h : client.applyCommittee update = .ok client')
    (hn : client'.store.nextSyncCommittee = none) : hasSyncUpdate update = false := by
  have hnone : update.nextSyncCommittee = none := by
    rcases applyCommittee_ok h with ⟨_, rfl⟩ | ⟨_, _, _, rfl⟩ | ⟨_, hsome, _, rfl⟩
    · exact hn
    · exact hn
    · rw [hn] at hsome
      cases hsome
  rw [hasSyncUpdate, hnone]
  rfl

theorem applied_finality (happly : client.applyGenericUpdate k now now' update = .ok client') :
    shouldApplyUpdate client'.store update (participants update) = false := by
  obtain ⟨mid, hmid, hcases⟩ := applyGenericUpdate_ok happly
  rcases hcases with ⟨hno, rfl⟩ | ⟨_, rotated, hrotated, hfinal⟩
  · exact hno
  rw [Bool.eq_false_iff, ne_eq, shouldApplyUpdate_iff]
  rintro ⟨_, hnewer | ⟨hnone, hsync, _⟩⟩
  · -- the finalized header is not behind the one of the update any more
    rcases applyFinalized_ok hfinal with ⟨hno, rfl⟩ | ⟨_, header, hheader, rfl⟩
    · exact hno hnewer
    · rw [updateFinalizedSlot_some hheader] at hnewer
      exact UInt64.lt_irrefl _ hnewer
  · have hn : rotated.store.nextSyncCommittee = none := by
      rcases applyFinalized_ok hfinal with ⟨_, rfl⟩ | ⟨_, _, _, rfl⟩ <;> exact hnone
    rw [applyCommittee_next hrotated hn] at hsync
    cases hsync

/-! ## The second application -/

/-- **An update that has been applied is settled.**  The threshold may have fallen with a rotation,
    but a rotation comes with a supermajority, which has moved the optimistic header. -/
theorem applied_settled (hb : Bounded client.store)
    (happly : client.applyGenericUpdate k now now' update = .ok client') :
    Settled client'.store update := by
  refine ⟨applied_counted happly, fun hthreshold => ?_, applied_finality happly⟩
  obtain ⟨mid, hmid, hcases⟩ := applyGenericUpdate_ok happly
  rcases hcases with ⟨_, rfl⟩ | ⟨hshould, _⟩
  · rcases applyOptimistic_ok hmid with ⟨_, _, rfl⟩ | ⟨hno, rfl⟩
    · exact UInt64.le_refl _
    · by_contra hlt
      exact hno ⟨hthreshold, UInt64.not_le.1 hlt⟩
  · exact (headers_apply hb happly).2.2.2 (shouldApplyUpdate_iff.1 hshould).1

/-- Applying a settled update only raises the counter; it reads no clock. -/
theorem apply_settled (h : Settled client.store update) :
    client.applyGenericUpdate k now now' update =
      .ok (client.raiseParticipants (participants update)) := by
  have hopt : (client.raiseParticipants (participants update)).applyOptimistic now update
      (participants update) = .ok (client.raiseParticipants (participants update)) := by
    unfold applyOptimistic
    rw [raise_threshold h.counted]
    simp only
    rw [if_neg]
    rintro ⟨hthreshold, hnewer⟩
    exact absurd (h.optimistic hthreshold) (UInt64.not_le.2 hnewer)
  have hfin : shouldApplyUpdate (client.raiseParticipants (participants update)).store update
      (participants update) = false := h.finality
  unfold applyGenericUpdate
  simp only [hopt, hfin, Bool.false_eq_true, if_false]

/-- **Re-applying an update is harmless.**  In every store of every run, whatever the update and
    whatever the clock reads the second time: the second application returns, and it changes
    neither header, neither committee, nor the checkpoint or the threshold. -/
theorem reapply_harmless (k : ConsensusCrates) (config : Config) (checkpoint : Bytes)
    (client : ConsensusClient) (h : (lightClient k config checkpoint).Reachable client)
    (update : GenericUpdate) (now now' : UInt64) (once : ConsensusClient)
    (happly : client.applyGenericUpdate k now now' update = .ok once) (later later' : UInt64) :
    ∃ twice, once.applyGenericUpdate k later later' update = .ok twice ∧
      SameOutcome once twice := by
  have hsettled := applied_settled (reachable_bounded h) happly
  exact ⟨_, apply_settled hsettled, rfl, rfl, rfl, rfl, rfl, raise_threshold hsettled.counted⟩

/-! ## A client that has applied an update -/

/-- A client that has learned the next committee from an update. -/
def informed : ConsensusClient :=
  { laterClient with
    store :=
      { laterClient.store with
        nextSyncCommittee := some memberCommittee
        optimisticHeader := justifiedHeader
        currentMaxActiveParticipants := 512 } }

theorem informed_applied : laterClient.applyGenericUpdate periodCrates 1683699311 1683699311
    justifiedUpdate.toGeneric = .ok informed := by
  have hbits : getBits justifiedUpdate.toGeneric.syncAggregate.syncCommitteeBits = 512 :=
    allBits_getBits
  rw [applyGenericUpdate, hbits]
  rfl

theorem informed_accepted : laterClient.verifyGenericUpdate periodCrates 1683699311
    justifiedUpdate.toGeneric = .ok () := by
  have haligned := reachable_aligned (period_true_committees _) laterClient_reachable
  have hold : laterClient.store.finalizedHeader.slot ≤ 6406176 := by decide +kernel
  exact (genuine_accepted rfl haligned (justified_honest hold).genuine_update
    (by decide +kernel)).2 (by decide +kernel)

theorem informed_step :
    UpdateStep periodCrates laterClient justifiedUpdate.toGeneric informed :=
  ⟨.update _, ⟨_, informed_accepted⟩, _, _, informed_applied⟩

theorem informed_reachable :
    (lightClient periodCrates mainnet laterCheckpointRoot.toList).Reachable informed :=
  .step laterClient_reachable ⟨_, informed_step⟩

/-- The next committee it has learned is the true one, under the signature of two thirds. -/
theorem committees_aligned_informed :
    Aligned (fun _ => memberCommittee) informed.store ∧
      Supermajority justifiedUpdate.toGeneric := by
  obtain ⟨haligned, hsteps, _⟩ :=
    committees_aligned (period_true_committees laterCheckpointRoot.toList)
  refine ⟨haligned informed informed_reachable, ?_⟩
  rcases hsteps _ _ _ laterClient_reachable informed_step with h | ⟨_, _, hnext⟩
  · exact h
  · cases hnext

/-- The same client with a clock, twelve seconds later. -/
theorem informed_clocked : (clocked periodCrates mainnet laterCheckpointRoot.toList).Reachable
    (informed, 1683699323) := by
  have hbegun : laterClient.expectedCurrentSlot 1683699311 = .ok 6406274 := by
    decide +kernel
  refine .step (s := (laterClient, 1683699311))
    (.init ⟨_, _, rfl, rfl, laterClient_bootstrap, _, hbegun, by decide +kernel⟩)
    ⟨by decide +kernel, Or.inr ⟨justifiedUpdate.toGeneric, 1683699311, 1683699311, 1683699311, ?_⟩⟩
  exact ⟨UInt64.le_refl _, UInt64.le_refl _, UInt64.le_refl _, by decide +kernel,
    informed_accepted, informed_applied⟩

/-- The header of the update has begun, and its age is taken without an underflow. -/
theorem store_behind_clock_informed : ∃ expected,
    informed.expectedCurrentSlot 1683700000 = .ok expected ∧ justifiedHeader.slot ≤ expected ∧
      informed.age 1683700000 justifiedHeader.slot ≠ .error (.panic .durationUnderflow) := by
  obtain ⟨expected, hexpected, _, hle, _, hages⟩ := (store_behind_clock periodCrates mainnet
    laterCheckpointRoot.toList (informed, 1683699323) informed_clocked).1 1683700000
      (by decide +kernel)
  exact ⟨expected, hexpected, hle, (hages justifiedHeader (Or.inr rfl)).2⟩

/-- The second application of its update returns, and nothing changes. -/
theorem reapply_harmless_informed : ∃ twice,
    informed.applyGenericUpdate periodCrates 1683699311 1683699311 justifiedUpdate.toGeneric =
      .ok twice ∧ SameOutcome informed twice :=
  reapply_harmless periodCrates mainnet laterCheckpointRoot.toList laterClient
    laterClient_reachable justifiedUpdate.toGeneric 1683699311 1683699311 informed informed_applied
    1683699311 1683699311

end ConsensusClient

end Helios
