import Helios.Consensus.Client

/-!
# What verifying, applying, syncing and advancing can do

One lemma per function says everything a successful call does; later modules cite these and do not
unfold the functions.

* `Accepted`, `verifyGenericUpdate_ok` — the checks an accepted update passed.
* `applyOptimistic_ok`, `applyCommittee_ok`, `applyFinalized_ok`, `applyGenericUpdate_ok` — the
  cases of applying it.
* `lightClient` — the system whose states are the clients of one checkpoint: it starts at a
  successful bootstrap, and a step applies an update that was accepted in the state it is applied
  to.
* `advance_steps`, `sync_steps` — a call only applies accepted updates, also when it fails halfway.
* `advance_reachable`, `sync_reachable` — **so it leaves a state of this system behind**.
-/

set_option autoImplicit false

namespace Helios

namespace ConsensusClient

variable {k : ConsensusCrates} {client client' : ConsensusClient} {now now' : UInt64}
  {update : GenericUpdate}

/-! ## Verifying -/

/-- The number of participants of an update. -/
abbrev participants (update : GenericUpdate) : UInt64 :=
  getBits update.syncAggregate.syncCommitteeBits

/-- At least two thirds of the 512 bits are set. -/
def Supermajority (update : GenericUpdate) : Prop := 512 * 2 ≤ (participants update).toNat * 3

/-- The checks an accepted update passed. -/
structure Accepted (k : ConsensusCrates) (client : ConsensusClient) (now : UInt64)
    (update : GenericUpdate) : Prop where
  participation : participants update ≠ 0
  signed_by_now : ∃ currentSlot, client.expectedCurrentSlot now = .ok currentSlot ∧
    update.signatureSlot ≤ currentSlot
  attested_lt : update.attestedHeader.slot < update.signatureSlot
  finalized_le : updateFinalizedSlot update ≤ update.attestedHeader.slot
  period : validPeriod client.store update = true
  relevant : client.store.finalizedHeader.slot < update.attestedHeader.slot ∨
    updateHasNextCommittee client.store update = true
  finality : finalityProofOk k update = true
  committee : committeeProofOk k update = true
  signature : ∃ syncCommittee pks, signingCommittee client.store update = .ok syncCommittee ∧
    getParticipatingKeys k syncCommittee update.syncAggregate.syncCommitteeBits = .ok pks ∧
    verifySyncCommitteeSignture k client.config pks update.attestedHeader
      update.syncAggregate.syncCommitteeSignature update.signatureSlot = true

/-- **What `verify_generic_update` accepts.** -/
theorem verifyGenericUpdate_ok (h : client.verifyGenericUpdate k now update = .ok ()) :
    Accepted k client now update := by
  unfold verifyGenericUpdate at h
  simp only at h
  split at h
  · cases h
  rename_i hbits
  split at h
  · cases h
  rename_i currentSlot hnow
  split at h
  · cases h
  rename_i htime
  rw [not_not] at htime
  split at h
  · cases h
  rename_i hperiod
  split at h
  · cases h
  rename_i hrelevant
  split at h
  · cases h
  rename_i hfinality
  split at h
  · cases h
  rename_i hcommittee
  split at h
  · cases h
  rename_i syncCommittee hsigning
  split at h
  · cases h
  rename_i pks hpks
  split at h
  · cases h
  rename_i hsig
  refine ⟨hbits, ⟨currentSlot, hnow, htime.1⟩, htime.2.1, htime.2.2, by simpa using hperiod, ?_,
    by simpa using hfinality, by simpa using hcommittee,
    syncCommittee, pks, hsigning, hpks, by simpa using hsig⟩
  by_cases hlt : client.store.finalizedHeader.slot < update.attestedHeader.slot
  · exact Or.inl hlt
  · right
    rw [not_and, Bool.not_eq_false] at hrelevant
    exact hrelevant (UInt64.not_lt.1 hlt)

/-! ## Applying -/

/-- What the optimistic step does not touch. -/
structure SameFinality (client client' : ConsensusClient) : Prop where
  finalizedHeader : client'.store.finalizedHeader = client.store.finalizedHeader
  current : client'.store.currentSyncCommittee = client.store.currentSyncCommittee
  next : client'.store.nextSyncCommittee = client.store.nextSyncCommittee
  config : client'.config = client.config
  initialCheckpoint : client'.initialCheckpoint = client.initialCheckpoint

theorem SameFinality.trans {a b c : ConsensusClient} (h : SameFinality a b)
    (h' : SameFinality b c) : SameFinality a c :=
  ⟨h'.finalizedHeader.trans h.finalizedHeader, h'.current.trans h.current, h'.next.trans h.next,
    h'.config.trans h.config, h'.initialCheckpoint.trans h.initialCheckpoint⟩

theorem raiseParticipants_same {bits : UInt64} :
    SameFinality client (client.raiseParticipants bits) :=
  ⟨rfl, rfl, rfl, rfl, rfl⟩

theorem applyOptimistic_ok {bits : UInt64}
    (h : client.applyOptimistic now update bits = .ok client') :
    (bits > safetyThreshold client.store ∧
        update.attestedHeader.slot > client.store.optimisticHeader.slot ∧
        client' = { client with
          store := { client.store with optimisticHeader := update.attestedHeader } }) ∨
      (¬ (bits > safetyThreshold client.store ∧
          update.attestedHeader.slot > client.store.optimisticHeader.slot) ∧
        client' = client) := by
  unfold applyOptimistic at h
  simp only at h
  split at h
  · rename_i hshould
    split at h
    · cases h
    · cases h
      exact Or.inl ⟨hshould.1, hshould.2, rfl⟩
  · rename_i hshould
    cases h
    exact Or.inr ⟨hshould, rfl⟩

theorem applyOptimistic_same {bits : UInt64}
    (h : client.applyOptimistic now update bits = .ok client') : SameFinality client client' := by
  rcases applyOptimistic_ok h with ⟨_, _, rfl⟩ | ⟨_, rfl⟩ <;> exact ⟨rfl, rfl, rfl, rfl, rfl⟩

/-- The unwraps of the next committee are guarded. -/
theorem applyCommittee_total :
    ∃ client', client.applyCommittee update = .ok client' := by
  unfold applyCommittee
  simp only
  cases client.store.nextSyncCommittee with
  | none => exact ⟨_, if_pos rfl⟩
  | some committee =>
    simp only [Option.isNone_some, Bool.false_eq_true, if_false]
    split
    · exact ⟨_, rfl⟩
    · exact ⟨_, rfl⟩

theorem applyCommittee_ok (h : client.applyCommittee update = .ok client') :
    (client.store.nextSyncCommittee = none ∧
        client' = { client with
          store := { client.store with nextSyncCommittee := update.nextSyncCommittee } }) ∨
      (∃ committee, client.store.nextSyncCommittee = some committee ∧
        calcSyncPeriod (updateFinalizedSlot update) =
          calcSyncPeriod client.store.finalizedHeader.slot + 1 ∧
        client' = { client with
          store := { client.store with
            currentSyncCommittee := committee
            nextSyncCommittee := update.nextSyncCommittee
            previousMaxActiveParticipants := client.store.currentMaxActiveParticipants
            currentMaxActiveParticipants := 0 } }) ∨
      (∃ committee, client.store.nextSyncCommittee = some committee ∧
        calcSyncPeriod (updateFinalizedSlot update) ≠
          calcSyncPeriod client.store.finalizedHeader.slot + 1 ∧
        client' = client) := by
  unfold applyCommittee at h
  simp only at h
  cases hn : client.store.nextSyncCommittee with
  | none =>
    rw [hn] at h
    cases h
    exact Or.inl ⟨rfl, rfl⟩
  | some committee =>
    rw [hn] at h
    simp only [Option.isNone_some, Bool.false_eq_true, if_false] at h
    split at h
    · rename_i hp
      cases h
      exact Or.inr (Or.inl ⟨committee, rfl, hp, rfl⟩)
    · rename_i hp
      cases h
      exact Or.inr (Or.inr ⟨committee, rfl, hp, rfl⟩)

theorem updateFinalizedSlot_some {header : Header} (h : update.finalizedHeader = some header) :
    updateFinalizedSlot update = header.slot := by
  rw [updateFinalizedSlot, h]

/-- A newer finalized slot is the slot of a finalized header. -/
theorem finalizedHeader_of_newer {slot : UInt64} (h : updateFinalizedSlot update > slot) :
    ∃ header, update.finalizedHeader = some header := by
  cases hf : update.finalizedHeader with
  | none =>
    rw [updateFinalizedSlot, hf, gt_iff_lt, UInt64.lt_iff_toNat_lt] at h
    exact absurd h (Nat.not_lt_zero _)
  | some header => exact ⟨header, rfl⟩

/-- Rotating or filling in the committees leaves the headers, the checkpoints and the configuration
    alone. -/
structure SameHeaders (client client' : ConsensusClient) : Prop where
  finalizedHeader : client'.store.finalizedHeader = client.store.finalizedHeader
  optimisticHeader : client'.store.optimisticHeader = client.store.optimisticHeader
  config : client'.config = client.config
  initialCheckpoint : client'.initialCheckpoint = client.initialCheckpoint
  lastCheckpoint : client'.lastCheckpoint = client.lastCheckpoint

theorem applyCommittee_same (h : client.applyCommittee update = .ok client') :
    SameHeaders client client' := by
  rcases applyCommittee_ok h with ⟨_, rfl⟩ | ⟨_, _, _, rfl⟩ | ⟨_, _, _, rfl⟩ <;>
    exact ⟨rfl, rfl, rfl, rfl, rfl⟩

theorem applyFinalized_ok (h : client.applyFinalized k now update = .ok client') :
    (¬ updateFinalizedSlot update > client.store.finalizedHeader.slot ∧ client' = client) ∨
      (updateFinalizedSlot update > client.store.finalizedHeader.slot ∧
        ∃ header, update.finalizedHeader = some header ∧
          client' = { client with
            store := { client.store with
              finalizedHeader := header
              optimisticHeader :=
                if header.slot > client.store.optimisticHeader.slot then header
                else client.store.optimisticHeader }
            lastCheckpoint := checkpointOf k header client.lastCheckpoint }) := by
  unfold applyFinalized at h
  split at h
  · rename_i hnewer
    split at h
    · cases h
    · rename_i header hf
      split at h
      · cases h
      · cases h
        exact Or.inr ⟨hnewer, header, hf, rfl⟩
  · rename_i hnewer
    cases h
    exact Or.inl ⟨hnewer, rfl⟩

/-- **What `apply_generic_update` does.**  The optimistic step comes first; the finality steps
    follow under a supermajority, for a newer finalized header or a first next committee. -/
theorem applyGenericUpdate_ok
    (h : client.applyGenericUpdate k now now' update = .ok client') :
    ∃ mid, (client.raiseParticipants (participants update)).applyOptimistic now update
        (participants update) = .ok mid ∧
      ((shouldApplyUpdate mid.store update (participants update) = false ∧ client' = mid) ∨
        (shouldApplyUpdate mid.store update (participants update) = true ∧
          ∃ rotated, mid.applyCommittee update = .ok rotated ∧
            rotated.applyFinalized k now' update = .ok client')) := by
  unfold applyGenericUpdate at h
  simp only at h
  split at h
  · cases h
  rename_i mid hmid
  refine ⟨mid, hmid, ?_⟩
  split at h
  · rename_i hshould
    split at h
    · cases h
    · rename_i rotated hrotated
      exact Or.inr ⟨hshould, rotated, hrotated, h⟩
  · rename_i hshould
    cases h
    exact Or.inl ⟨by simpa using hshould, rfl⟩

/-- The configuration and the checkpoint never change. -/
theorem applyGenericUpdate_config
    (h : client.applyGenericUpdate k now now' update = .ok client') :
    client'.config = client.config ∧ client'.initialCheckpoint = client.initialCheckpoint := by
  obtain ⟨mid, hmid, hcases⟩ := applyGenericUpdate_ok h
  have hsame := raiseParticipants_same.trans (applyOptimistic_same hmid)
  rcases hcases with ⟨_, rfl⟩ | ⟨_, rotated, hrotated, hfinal⟩
  · exact ⟨hsame.config, hsame.initialCheckpoint⟩
  · have hrot := applyCommittee_same hrotated
    have hfin : client'.config = rotated.config ∧
        client'.initialCheckpoint = rotated.initialCheckpoint := by
      rcases applyFinalized_ok hfinal with ⟨_, rfl⟩ | ⟨_, _, _, rfl⟩ <;> exact ⟨rfl, rfl⟩
    exact ⟨hfin.1.trans (hrot.config.trans hsame.config),
      hfin.2.trans (hrot.initialCheckpoint.trans hsame.initialCheckpoint)⟩

/-- Where the headers come from: the store before, or the update. -/
theorem applied_origin (happly : client.applyGenericUpdate k now now' update = .ok client') :
    (client'.store.finalizedHeader = client.store.finalizedHeader ∨
        update.finalizedHeader = some client'.store.finalizedHeader) ∧
      (client'.store.optimisticHeader = client.store.optimisticHeader ∨
        client'.store.optimisticHeader = update.attestedHeader ∨
        update.finalizedHeader = some client'.store.optimisticHeader) := by
  obtain ⟨mid, hmid, hcases⟩ := applyGenericUpdate_ok happly
  have hfin : mid.store.finalizedHeader = client.store.finalizedHeader :=
    (raiseParticipants_same.trans (applyOptimistic_same hmid)).finalizedHeader
  have hopt : mid.store.optimisticHeader = client.store.optimisticHeader ∨
      mid.store.optimisticHeader = update.attestedHeader := by
    rcases applyOptimistic_ok hmid with ⟨_, _, rfl⟩ | ⟨_, rfl⟩
    · exact Or.inr rfl
    · exact Or.inl rfl
  rcases hcases with ⟨_, rfl⟩ | ⟨_, rotated, hrotated, hfinal⟩
  · exact ⟨Or.inl hfin, hopt.imp_right Or.inl⟩
  have hrot := applyCommittee_same hrotated
  rw [← hrot.finalizedHeader] at hfin
  rw [← hrot.optimisticHeader] at hopt
  rcases applyFinalized_ok hfinal with ⟨_, rfl⟩ | ⟨_, header, hheader, rfl⟩
  · exact ⟨Or.inl hfin, hopt.imp_right Or.inl⟩
  · refine ⟨Or.inr hheader, ?_⟩
    by_cases hpast : header.slot > rotated.store.optimisticHeader.slot
    · simp only [if_pos hpast]
      exact Or.inr (Or.inr hheader)
    · simp only [if_neg hpast]
      exact hopt.imp_right Or.inl

/-- What `should_apply_update` asks for. -/
theorem shouldApplyUpdate_iff {store : LightClientStore} :
    shouldApplyUpdate store update (participants update) = true ↔
      Supermajority update ∧
        (updateFinalizedSlot update > store.finalizedHeader.slot ∨
          (store.nextSyncCommittee = none ∧ hasSyncUpdate update = true ∧
            hasFinalityUpdate update = true ∧
            calcSyncPeriod (updateFinalizedSlot update) =
              calcSyncPeriod update.attestedHeader.slot)) := by
  have hle : (participants update).toNat ≤ 512 := getBits_le _
  have hmul : (512 * 2 ≤ participants update * 3) ↔ Supermajority update := by
    rw [UInt64.le_iff_toNat_le, UInt64.toNat_mul]
    show 1024 ≤ (participants update).toNat * 3 % 2 ^ 64 ↔ 512 * 2 ≤ (participants update).toNat * 3
    rw [Nat.mod_eq_of_lt (by omega)]
  unfold shouldApplyUpdate
  simp only [Bool.and_eq_true, Bool.or_eq_true, decide_eq_true_eq, ge_iff_le, hmul, beq_iff_eq,
    Option.isNone_iff_eq_none, and_assoc]

/-! ## The system -/

/-- One update, accepted in the state it is applied to. -/
def UpdateStep (k : ConsensusCrates) (client : ConsensusClient) (update : GenericUpdate)
    (client' : ConsensusClient) : Prop :=
  update.FromRpc ∧ (∃ now, client.verifyGenericUpdate k now update = .ok ()) ∧
    ∃ now now', client.applyGenericUpdate k now now' update = .ok client'

/-- The clients of one checkpoint and configuration. -/
def lightClient (k : ConsensusCrates) (config : Config) (checkpoint : Bytes) :
    System ConsensusClient where
  init client := ∃ w client₀, client₀.config = config ∧ client₀.initialCheckpoint = checkpoint ∧
    bootstrap k w client₀ = (.ok (), client)
  step client client' := ∃ update, UpdateStep k client update client'

/-- What a successful bootstrap installs. -/
theorem bootstrap_ok {w : World} (h : bootstrap k w client = (.ok (), client')) :
    ∃ (boot : Bootstrap) (root : Bytes32), k.headerRoot boot.header = some root ∧ root.toList = client.initialCheckpoint ∧
      isCurrentCommitteeProofValid k boot.header boot.currentSyncCommittee
        boot.currentSyncCommitteeBranch = true ∧
      client' = { client with
        store :=
          { finalizedHeader := boot.header
            currentSyncCommittee := boot.currentSyncCommittee
            nextSyncCommittee := none
            optimisticHeader := boot.header
            previousMaxActiveParticipants := 0
            currentMaxActiveParticipants := 0 } } := by
  unfold bootstrap at h
  obtain ⟨boot, _, h⟩ := Attempt.request_ok.1 h
  obtain ⟨isValid, _, h⟩ := Attempt.request_ok.1 h
  split at h
  · cases h
  obtain ⟨root, hroot, h⟩ := Attempt.request_ok.1 h
  split at h
  · cases h
  rename_i hcheckpoint
  split at h
  · cases h
  rename_i hcommittee
  cases h
  exact ⟨boot, root, rooted_ok.1 hroot, not_not.1 hcheckpoint, by simpa using hcommittee, rfl⟩

theorem bootstrap_of_valid {w : World} {boot : Bootstrap} {root : Bytes32}
    (hboot : (w 0).rpc.getBootstrap client.initialCheckpoint = .ok boot)
    (hage : client.isValidCheckpoint (w 1).now boot.header.slot = .ok true)
    (hroot : k.headerRoot boot.header = some root)
    (hcheckpoint : root.toList = client.initialCheckpoint)
    (hcommittee : isCurrentCommitteeProofValid k boot.header boot.currentSyncCommittee
      boot.currentSyncCommitteeBranch = true) :
    bootstrap k w client = (.ok (), { client with
      store :=
        { finalizedHeader := boot.header
          currentSyncCommittee := boot.currentSyncCommittee
          nextSyncCommittee := none
          optimisticHeader := boot.header
          previousMaxActiveParticipants := 0
          currentMaxActiveParticipants := 0 } }) := by
  unfold bootstrap
  simp only [answer_ok.2 hboot, mapErr, Attempt.request, hage, rooted_ok.2 hroot, hcheckpoint,
    hcommittee, Bool.true_eq_false, false_and, if_false, ne_eq, not_true_eq_false]

/-- A bootstrap that fails changes nothing. -/
theorem bootstrap_error {w : World} :
    (bootstrap k w client).1 = .ok () ∨ (bootstrap k w client).2 = client := by
  unfold bootstrap
  refine Attempt.request_ok_or_same fun boot => Attempt.request_ok_or_same fun isValid => ?_
  split
  · exact Or.inr rfl
  refine Attempt.request_ok_or_same fun root => ?_
  split
  · exact Or.inr rfl
  · split
    · exact Or.inr rfl
    · exact Or.inl rfl

/-! ## Calls, whatever fails -/

/-- Any number of updates, each accepted in the state it is applied to. -/
abbrev UpdateSteps (k : ConsensusCrates) : ConsensusClient → ConsensusClient → Prop :=
  Relation.ReflTransGen fun client client' => ∃ update, UpdateStep k client update client'

theorem verifyAndApply_steps {w : World} (hu : update.FromRpc) :
    UpdateSteps k client (verifyAndApply k w update client).2 := by
  unfold verifyAndApply
  refine Attempt.request_snd .refl fun _ hverify => Attempt.request_snd .refl fun _ happly => ?_
  exact .single ⟨update, hu, ⟨_, hverify⟩, _, _, happly⟩

theorem applyUpdates_steps : ∀ {updates : List Update} {w : World} {client : ConsensusClient},
    UpdateSteps k client (applyUpdates k w updates client).2
  | [], _, _ => .refl
  | update :: updates, w, client => by
    have h : UpdateSteps k client (verifyAndApply k w update.toGeneric client).2 :=
      verifyAndApply_steps (.update update)
    rw [applyUpdates]
    refine Attempt.andThen_snd h fun mid hmid => ?_
    rw [hmid] at h
    exact h.trans applyUpdates_steps

theorem followHead_steps {w : World} : UpdateSteps k client (followHead k w client).2 := by
  unfold followHead
  refine Attempt.request_snd .refl fun finalityUpdate _ => ?_
  have h : UpdateSteps k client (verifyAndApply k (w.drop 1) finalityUpdate.toGeneric client).2 :=
    verifyAndApply_steps (.finality finalityUpdate)
  refine Attempt.andThen_snd h fun mid hmid => ?_
  rw [hmid] at h
  exact Attempt.request_snd h fun optimisticUpdate _ =>
    h.trans (verifyAndApply_steps (.optimistic optimisticUpdate))

theorem fetchCommittee_steps {w : World} : UpdateSteps k client (fetchCommittee k w client).2 := by
  unfold fetchCommittee
  split
  · refine Attempt.request_snd .refl fun updates hupdates => ?_
    split
    · rename_i update
      split
      · exact .refl
      · exact .refl
      · rename_i hverify
        exact Attempt.request_snd .refl fun _ happly =>
          .single ⟨update.toGeneric, .update update, ⟨_, hverify⟩, _, _, happly⟩
    · exact .refl
  · exact .refl

/-- **`advance` only applies accepted updates**, whatever fails. -/
theorem advance_steps {w : World} : UpdateSteps k client (advance k w client).2 := by
  have h : UpdateSteps k client (followHead k w client).2 := followHead_steps
  unfold advance
  refine Attempt.andThen_snd h fun mid hmid => ?_
  rw [hmid] at h
  exact h.trans fetchCommittee_steps

/-- **`sync` bootstraps and then only applies accepted updates**; it changes nothing before. -/
theorem sync_steps {w : World} :
    ((sync k w client).2 = client ∧ (sync k w client).1 ≠ .ok ()) ∨
      ∃ client', bootstrap k w client = (.ok (), client') ∧
        UpdateSteps k client' (sync k w client).2 := by
  unfold sync
  cases hb : bootstrap k w client with
  | mk r client' =>
    cases r with
    | error e =>
      left
      have hboot : (bootstrap k w client).1 = .ok () ∨ (bootstrap k w client).2 = client :=
        bootstrap_error
      rcases hboot with h | h
      · rw [hb] at h; cases h
      · rw [hb] at h
        exact ⟨h, by simp [Attempt.andThen]⟩
    | ok u =>
      refine Or.inr ⟨client', rfl, ?_⟩
      refine Attempt.request_snd .refl fun updates _ => ?_
      have h : UpdateSteps k client' (applyUpdates k (w.drop 3) updates client').2 :=
        applyUpdates_steps
      refine Attempt.andThen_snd h fun mid hmid => ?_
      rw [hmid] at h
      exact h.trans followHead_steps

/-- The configuration and the checkpoint are those of the start. -/
theorem UpdateSteps.config (h : UpdateSteps k client client') :
    client'.config = client.config ∧ client'.initialCheckpoint = client.initialCheckpoint := by
  induction h with
  | refl => exact ⟨rfl, rfl⟩
  | tail _ hstep ih =>
    obtain ⟨_, _, _, _, _, happly⟩ := hstep
    have hconfig := applyGenericUpdate_config happly
    exact ⟨hconfig.1.trans ih.1, hconfig.2.trans ih.2⟩

section Runs

variable {config : Config} {checkpoint : Bytes}

/-- **`advance` stays within the system**, whatever fails. -/
theorem advance_reachable {w : World} (h : (lightClient k config checkpoint).Reachable client) :
    (lightClient k config checkpoint).Reachable (advance k w client).2 :=
  h.steps advance_steps

/-- **`sync` enters the system** once its bootstrap succeeds, and changes nothing before. -/
theorem sync_reachable {w : World} (hconfig : client.config = config)
    (hcheckpoint : client.initialCheckpoint = checkpoint) :
    ((sync k w client).2 = client ∧ (sync k w client).1 ≠ .ok ()) ∨
      (lightClient k config checkpoint).Reachable (sync k w client).2 := by
  refine sync_steps.imp id fun ⟨client', hboot, hsteps⟩ => ?_
  have h : (lightClient k config checkpoint).Reachable client' :=
    .init ⟨w, client, hconfig, hcheckpoint, hboot⟩
  exact h.steps hsteps

end Runs

end ConsensusClient

end Helios
