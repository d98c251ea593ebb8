import Helios.Consensus.Headers
import Helios.Consensus.Recovery

/-!
# The last checkpoint

`last_checkpoint` is what the client is started with the next time.  That it is the latest boundary
header is a statement about the whole run, so the run carries the headers it has adopted.

* `adopting` — a client from a fresh one, with the finalized headers its updates brought.
* `applied_checkpoint` — what one update does to the checkpoint.
* `Kept`, `kept_step` — the invariant.
* `last_checkpoint_usable` — **the checkpoint is the root of the latest adopted boundary header**,
  and its values belong to ever larger slots.
-/

set_option autoImplicit false

namespace Helios

namespace ConsensusClient

variable {k : ConsensusCrates} {config : Config} {checkpoint : Bytes}
  {client client' : ConsensusClient} {now now' : UInt64} {update : GenericUpdate}

/-- An adopted finalized header, and the update that brought it. -/
abbrev Adoption := Header × GenericUpdate

/-- The adoptions, newest first, after an update that leads to this client. -/
def adopt (client client' : ConsensusClient) (update : GenericUpdate) (history : List Adoption) :
    List Adoption :=
  if client'.store.finalizedHeader = client.store.finalizedHeader then history
  else (client'.store.finalizedHeader, update) :: history

/-- The runs of a fresh client, with what they have adopted since the bootstrap. -/
def adopting (k : ConsensusCrates) (config : Config) (checkpoint : Bytes) :
    System (ConsensusClient × List Adoption) where
  init s := s.2 = [] ∧ ∃ w, bootstrap k w (ConsensusClient.new checkpoint config) = (.ok (), s.1)
  step s s' := ∃ update, UpdateStep k s.1 update s'.1 ∧ s'.2 = adopt s.1 s'.1 update s.2

/-- The adoptions at an epoch boundary. -/
def boundaries (history : List Adoption) : List Adoption :=
  history.filter fun adoption => decide (adoption.1.slot % 32 = 0)

theorem boundaries_cons (adoption : Adoption) (history : List Adoption) :
    boundaries (adoption :: history) =
      if adoption.1.slot % 32 = 0 then adoption :: boundaries history else boundaries history := by
  unfold boundaries
  rw [List.filter_cons]
  simp only [decide_eq_true_eq]

/-! ## One update -/

/-- **What one update does to the checkpoint**: nothing, or a newer finalized header is adopted
    under a supermajority, and the checkpoint is taken from it at a boundary. -/
theorem applied_checkpoint (happly : client.applyGenericUpdate k now now' update = .ok client') :
    (client'.store.finalizedHeader = client.store.finalizedHeader ∧
        client'.lastCheckpoint = client.lastCheckpoint) ∨
      (client.store.finalizedHeader.slot < client'.store.finalizedHeader.slot ∧
        Supermajority update ∧
        client'.lastCheckpoint =
          checkpointOf k client'.store.finalizedHeader client.lastCheckpoint) := by
  obtain ⟨mid, hmid, hcases⟩ := applyGenericUpdate_ok happly
  have hfin := (raiseParticipants_same.trans (applyOptimistic_same hmid)).finalizedHeader
  have hlast : mid.lastCheckpoint = client.lastCheckpoint := by
    rcases applyOptimistic_ok hmid with ⟨_, _, rfl⟩ | ⟨_, rfl⟩ <;> rfl
  rcases hcases with ⟨_, rfl⟩ | ⟨hshould, rotated, hrotated, hfinal⟩
  · exact Or.inl ⟨hfin, hlast⟩
  have hrot := applyCommittee_same hrotated
  have hfin' := hrot.finalizedHeader.trans hfin
  have hlast' := hrot.lastCheckpoint.trans hlast
  rcases applyFinalized_ok hfinal with ⟨_, rfl⟩ | ⟨hslot, header, hheader, rfl⟩
  · exact Or.inl ⟨hfin', hlast'⟩
  · rw [updateFinalizedSlot_some hheader, hfin'] at hslot
    rw [← hlast']
    exact Or.inr ⟨hslot, (shouldApplyUpdate_iff.1 hshould).1, rfl⟩

theorem adopt_same (h : client'.store.finalizedHeader = client.store.finalizedHeader)
    (history : List Adoption) : adopt client client' update history = history := if_pos h

theorem adopt_newer (h : client.store.finalizedHeader.slot < client'.store.finalizedHeader.slot)
    (history : List Adoption) : adopt client client' update history =
      (client'.store.finalizedHeader, update) :: history := by
  refine if_neg fun heq => ?_
  rw [heq] at h
  exact UInt64.lt_irrefl _ h

/-! ## The invariant -/

/-- The root of a header, as the bytes that are kept. -/
def rootBytes (k : ConsensusCrates) (header : Header) : Option Bytes :=
  (k.headerRoot header).map Vector.toList

structure Kept (k : ConsensusCrates) (client : ConsensusClient) (history : List Adoption) :
    Prop where
  checkpoint : client.lastCheckpoint =
    (boundaries history).head?.bind fun adoption => rootBytes k adoption.1
  below : ∀ adoption ∈ history, adoption.1.slot ≤ client.store.finalizedHeader.slot
  majority : ∀ adoption ∈ history, Supermajority adoption.2
  increasing : history.Pairwise fun later earlier => earlier.1.slot < later.1.slot

theorem checkpointOf_eq (hroot : ∀ header, (k.headerRoot header).isSome) (header : Header)
    (last : Option Bytes) :
    checkpointOf k header last = if header.slot % 32 = 0 then rootBytes k header else last := by
  have hsome := hroot header
  unfold checkpointOf rootBytes
  split
  · cases hr : k.headerRoot header with
    | none =>
      rw [hr] at hsome
      cases hsome
    | some root => rfl
  · rfl

/-- **One update keeps the invariant.** -/
theorem kept_step (hroot : ∀ header, (k.headerRoot header).isSome) {history : List Adoption}
    (hk : Kept k client history) (h : UpdateStep k client update client') :
    Kept k client' (adopt client client' update history) := by
  obtain ⟨_, _, now, now', happly⟩ := h
  rcases applied_checkpoint happly with ⟨hfin, hlast⟩ | ⟨hnewer, hmajority, hlast⟩
  · rw [adopt_same hfin]
    refine ⟨hlast.trans hk.checkpoint, ?_, hk.majority, hk.increasing⟩
    rw [hfin]
    exact hk.below
  · rw [adopt_newer hnewer]
    refine ⟨?_, ?_, ?_, ?_⟩
    · rw [hlast, checkpointOf_eq hroot, boundaries_cons]
      split
      · rfl
      · exact hk.checkpoint
    · intro adoption hmem
      rcases List.mem_cons.1 hmem with rfl | hmem
      · exact UInt64.le_refl _
      · exact UInt64.le_of_lt (UInt64.lt_of_le_of_lt (hk.below adoption hmem) hnewer)
    · intro adoption hmem
      rcases List.mem_cons.1 hmem with rfl | hmem
      · exact hmajority
      · exact hk.majority adoption hmem
    · refine List.pairwise_cons.2 ⟨fun adoption hmem => ?_, hk.increasing⟩
      exact UInt64.lt_of_le_of_lt (hk.below adoption hmem) hnewer

theorem reachable_kept (hroot : ∀ header, (k.headerRoot header).isSome)
    {s : ConsensusClient × List Adoption} (h : (adopting k config checkpoint).Reachable s) :
    Kept k s.1 s.2 := by
  refine System.invariant (S := adopting k config checkpoint) (I := fun s => Kept k s.1 s.2)
    ?_ ?_ h
  · rintro ⟨client, history⟩ ⟨rfl, w, hboot⟩
    obtain ⟨_, _, _, _, _, rfl⟩ := bootstrap_ok hboot
    exact ⟨rfl, by simp, by simp, List.Pairwise.nil⟩
  · rintro s s' _ hk ⟨update, hstep, hhistory⟩
    rw [hhistory]
    exact kept_step hroot hk hstep

/-- **`last_checkpoint` is always a usable restart point.**  In every state of every run of a fresh
    client: without an adopted boundary header there is none; otherwise it is the root of the
    latest one, which is not ahead of the finalized header and was adopted under a supermajority.
    A step leaves it alone, or puts a boundary header of a larger slot than all before on top. -/
theorem last_checkpoint_usable (k : ConsensusCrates)
    (hroot : ∀ header, (k.headerRoot header).isSome) (config : Config) (checkpoint : Bytes)
    (s : ConsensusClient × List Adoption) (h : (adopting k config checkpoint).Reachable s) :
    (boundaries s.2 = [] → s.1.lastCheckpoint = none) ∧
    (∀ latest earlier, boundaries s.2 = latest :: earlier →
      (∃ root, k.headerRoot latest.1 = some root ∧ s.1.lastCheckpoint = some root.toList) ∧
        latest.1.slot ≤ s.1.store.finalizedHeader.slot ∧ Supermajority latest.2) ∧
    ∀ s', (adopting k config checkpoint).step s s' →
      (boundaries s'.2 = boundaries s.2 ∧ s'.1.lastCheckpoint = s.1.lastCheckpoint) ∨
        ∃ latest, boundaries s'.2 = latest :: boundaries s.2 ∧
          ∀ earlier ∈ boundaries s.2, earlier.1.slot < latest.1.slot := by
  have hk := reachable_kept hroot h
  refine ⟨fun hnone => ?_, fun latest earlier hlatest => ?_, ?_⟩
  · rw [hk.checkpoint, hnone]
    rfl
  · have hmem : latest ∈ s.2 := by
      have hmem : latest ∈ boundaries s.2 := by
        rw [hlatest]
        exact List.mem_cons_self
      exact (List.mem_filter.1 hmem).1
    obtain ⟨root, hlatestRoot⟩ := Option.isSome_iff_exists.1 (hroot latest.1)
    refine ⟨⟨root, hlatestRoot, ?_⟩, hk.below latest hmem, hk.majority latest hmem⟩
    rw [hk.checkpoint, hlatest]
    show rootBytes k latest.1 = _
    rw [rootBytes, hlatestRoot]
    rfl
  · rintro s' ⟨update, hstep, hhistory⟩
    rw [hhistory]
    have hk' := kept_step hroot hk hstep
    obtain ⟨_, _, now, now', happly⟩ := hstep
    rcases applied_checkpoint happly with ⟨hfin, hlast⟩ | ⟨hnewer, _, hlast⟩
    · exact Or.inl ⟨congrArg boundaries (adopt_same hfin s.2), hlast⟩
    · have hadopt : adopt s.1 s'.1 update s.2 =
          (s'.1.store.finalizedHeader, update) :: s.2 := adopt_newer hnewer s.2
      have hbound := boundaries_cons (s'.1.store.finalizedHeader, update) s.2
      rw [← hadopt] at hbound
      by_cases hboundary : s'.1.store.finalizedHeader.slot % 32 = 0
      · rw [if_pos hboundary] at hbound
        refine Or.inr ⟨_, hbound, fun earlier hearlier => ?_⟩
        have hincreasing := hk'.increasing
        rw [hadopt] at hincreasing
        exact (List.pairwise_cons.1 hincreasing).1 earlier (List.mem_filter.1 hearlier).1
      · rw [if_neg hboundary] at hbound
        refine Or.inl ⟨hbound, ?_⟩
        rw [hlast, checkpointOf_eq hroot, if_neg hboundary]

/-! ## An adopted boundary header -/

/-- The first header of the period of `laterCheckpoint`. -/
def periodStart : Header where
  slot := 6406144
  proposerIndex := 0
  parentRoot := checkpointHeader.parentRoot
  stateRoot := checkpointHeader.stateRoot
  bodyRoot := laterCheckpoint.bodyRoot

def periodStartRoot : Bytes32 :=
  beBytes 32 0x96e66b69e024fe575b1b1bc250b92bd80d504ce55e6187517565734a1199bc85

/-- Header roots that never fail. -/
def totalCrates : ConsensusCrates :=
  { periodCrates with
    headerRoot := fun header => some (([(periodStart, periodStartRoot),
      (laterCheckpoint, laterCheckpointRoot), (justifiedHeader, justifiedRoot)].lookup header).getD
        (zeroBytes 32)) }

/-- The client that started there, after a finality update. -/
def checkpointed : ConsensusClient :=
  { startedAt periodStartRoot periodStart with
    store :=
      { (startedAt periodStartRoot periodStart).store with
        finalizedHeader := laterCheckpoint
        optimisticHeader := justifiedHeader
        currentMaxActiveParticipants := 512 }
    lastCheckpoint := some laterCheckpointRoot.toList }

theorem checkpointed_applied : (startedAt periodStartRoot periodStart).applyGenericUpdate
    totalCrates 1683699311 1683699311 justifiedFinality.toGeneric = .ok checkpointed := by
  have hbits : getBits justifiedFinality.toGeneric.syncAggregate.syncCommitteeBits = 512 :=
    allBits_getBits
  rw [applyGenericUpdate, hbits]
  rfl

theorem checkpointed_reachable :
    (adopting totalCrates mainnet periodStartRoot.toList).Reachable
      (checkpointed, [(laterCheckpoint, justifiedFinality.toGeneric)]) := by
  have hage : (ConsensusClient.new periodStartRoot.toList mainnet).isValidCheckpoint 1683699311
      periodStart.slot = .ok true := by
    decide +kernel
  have hcommittee : isCurrentCommitteeProofValid totalCrates periodStart memberCommittee
      (List.replicate 5 (zeroBytes 32)) = true := by
    have hroots : totalCrates.committeeRoot = memberRoots := rfl
    rw [isCurrentCommitteeProofValid, hroots, memberRoots_member, isProofValid.eq_def]
    decide +kernel
  have hroot : totalCrates.headerRoot periodStart = some periodStartRoot := by
    decide +kernel
  have hboot := @bootstrap_of_valid totalCrates (ConsensusClient.new periodStartRoot.toList mainnet)
    (fun _ => startMoment periodStart) _ _ rfl hage hroot rfl hcommittee
  have hverify : (startedAt periodStartRoot periodStart).verifyGenericUpdate totalCrates 1683699311
      justifiedFinality.toGeneric = .ok () := by
    decide +kernel
  have hstart : (adopting totalCrates mainnet periodStartRoot.toList).Reachable
      (startedAt periodStartRoot periodStart, []) :=
    .init ⟨rfl, _, hboot⟩
  refine hstart.step ⟨justifiedFinality.toGeneric, ⟨.finality justifiedFinality, ⟨_, hverify⟩, _, _,
    checkpointed_applied⟩, ?_⟩
  have hnewer : (startedAt periodStartRoot periodStart).store.finalizedHeader.slot <
      checkpointed.store.finalizedHeader.slot := by
    decide +kernel
  exact (adopt_newer hnewer []).symm

theorem last_checkpoint_usable_adopted :
    ∃ root, totalCrates.headerRoot laterCheckpoint = some root ∧
      checkpointed.lastCheckpoint = some root.toList :=
  ((last_checkpoint_usable totalCrates (fun _ => rfl) mainnet periodStartRoot.toList
    (checkpointed, [(laterCheckpoint, justifiedFinality.toGeneric)]) checkpointed_reachable).2.1
      (laterCheckpoint, justifiedFinality.toGeneric) [] rfl).1

end ConsensusClient

end Helios
