import Helios.Consensus.Recovery

/-!
# Catching up with `sync`

Which genuine updates the store follows is decided by very little of it: the slot that is finalized,
and whether the committee of the next period is known.

* `Progress` — these two, with `accepts`, `after` and `follow`: a machine that reads slots only.
* `HonestSync` — the answers of an honest server to one `sync`.
* `genuine_verdict` — one update is accepted and moves the store as it is by the machine, and never
  panics.
* `sync_follows` — **`sync` leaves behind the progress of the machine, and succeeds when it does**.
* `EachPeriod` — one update for each period, from the checkpoint's on; `follow_eachPeriod` — the
  machine follows them.
* `sync_catches_up` — **so `sync` reaches the finalized header of the server, over any number of
  periods**.
-/

set_option autoImplicit false

namespace Helios

namespace ConsensusClient

variable {k : ConsensusCrates} {config : Config} {checkpoint : Bytes}
  {comm : UInt64 → SyncCommittee} {final : UInt64 → Header} {client client' : ConsensusClient}
  {now now' : UInt64} {update : GenericUpdate} {w : World}

/-! ## The machine -/

/-- What decides which genuine updates are followed. -/
structure Progress where
  finalized : UInt64
  known : Bool
  deriving DecidableEq

namespace Progress

def period (p : Progress) : UInt64 := calcSyncPeriod p.finalized

/-- Signed in the period, or in the next one once its committee is known; and newer than what is
    finalized, or with the committee that is missing. -/
def accepts (p : Progress) (update : GenericUpdate) : Bool :=
  let signed := calcSyncPeriod update.signatureSlot
  (signed == p.period || (signed == p.period + 1 && p.known)) &&
    (decide (p.finalized < update.attestedHeader.slot) ||
      (!p.known && update.nextSyncCommittee.isSome &&
        calcSyncPeriod update.attestedHeader.slot == p.period))

/-- Finality moves to a newer header, and its period takes the known committee with it. -/
def after (p : Progress) (update : GenericUpdate) : Progress :=
  let finalized := updateFinalizedSlot update
  if p.finalized < finalized then
    ⟨finalized, if p.known && calcSyncPeriod finalized != p.period + 1 then true
      else update.nextSyncCommittee.isSome⟩
  else if !p.known && hasSyncUpdate update && hasFinalityUpdate update &&
      calcSyncPeriod finalized == calcSyncPeriod update.attestedHeader.slot then
    ⟨p.finalized, true⟩
  else p

/-- Updates are followed up to the first one that is not accepted. -/
def follow : Progress → List GenericUpdate → Progress × Bool
  | p, [] => (p, true)
  | p, update :: updates => if p.accepts update then (p.after update).follow updates else (p, false)

theorem follow_append (p : Progress) (us vs : List GenericUpdate) :
    p.follow (us ++ vs) =
      if (p.follow us).2 then (p.follow us).1.follow vs else p.follow us := by
  induction us generalizing p with
  | nil => rfl
  | cons u us ih =>
    simp only [List.cons_append, follow]
    split
    · exact ih (p.after u)
    · rfl

end Progress

/-- The progress of a store. -/
def progressOf (store : LightClientStore) : Progress :=
  ⟨store.finalizedHeader.slot, store.nextSyncCommittee.isSome⟩

/-! ## One update -/

theorem relevant_iff : relevant client.store update = true ↔
    client.store.finalizedHeader.slot < update.attestedHeader.slot ∨
      (client.store.nextSyncCommittee = none ∧ update.nextSyncCommittee.isSome = true ∧
        calcSyncPeriod update.attestedHeader.slot =
          calcSyncPeriod client.store.finalizedHeader.slot) := by
  unfold relevant updateHasNextCommittee
  rw [Bool.or_eq_true, decide_eq_true_eq]
  simp [and_assoc]

theorem accepts_iff : (progressOf client.store).accepts update = true ↔
    validPeriod client.store update = true ∧ relevant client.store update = true := by
  rw [validPeriod_iff, relevant_iff]
  unfold Progress.accepts progressOf Progress.period
  simp only [Bool.and_eq_true, Bool.or_eq_true, beq_iff_eq, decide_eq_true_eq, Bool.not_eq_true',
    Option.isSome_eq_false_iff, Option.isNone_iff_eq_none, and_assoc]

/-- Whether the next committee is known once it is filled in or rotated. -/
theorem applyCommittee_known (h : client.applyCommittee update = .ok client') :
    client'.store.nextSyncCommittee.isSome =
      if client.store.nextSyncCommittee.isSome &&
          calcSyncPeriod (updateFinalizedSlot update) !=
            calcSyncPeriod client.store.finalizedHeader.slot + 1 then true
      else update.nextSyncCommittee.isSome := by
  rcases applyCommittee_ok h with ⟨hn, rfl⟩ | ⟨_, hn, hp, rfl⟩ | ⟨_, hn, hp, rfl⟩
  · simp [hn]
  · simp [hp]
  · simp [hn, hp]

/-- **Applying a genuine update moves the progress as the machine does.** -/
theorem applied_progress (hs : Supermajority update)
    (happly : client.applyGenericUpdate k now now' update = .ok client') :
    progressOf client'.store = (progressOf client.store).after update := by
  obtain ⟨mid, hmid, hcases⟩ := applyGenericUpdate_ok happly
  have hsame := raiseParticipants_same.trans (applyOptimistic_same hmid)
  have hmidP : progressOf mid.store = progressOf client.store := by
    rw [progressOf, progressOf, hsame.finalizedHeader, hsame.next]
  rw [← hmidP]
  have hshouldIff : shouldApplyUpdate mid.store update (participants update) = true ↔ _ :=
    shouldApplyUpdate_iff
  have hfirstIff : (!mid.store.nextSyncCommittee.isSome && hasSyncUpdate update &&
      hasFinalityUpdate update && calcSyncPeriod (updateFinalizedSlot update) ==
        calcSyncPeriod update.attestedHeader.slot) = true ↔
      (mid.store.nextSyncCommittee = none ∧ hasSyncUpdate update = true ∧
        hasFinalityUpdate update = true ∧ calcSyncPeriod (updateFinalizedSlot update) =
          calcSyncPeriod update.attestedHeader.slot) := by
    simp [and_assoc]
  unfold Progress.after progressOf Progress.period
  rcases hcases with ⟨hno, rfl⟩ | ⟨hshould, rotated, hrotated, hfinal⟩
  · -- nothing newer, and no committee that could be missing
    rw [← Bool.not_eq_true, hshouldIff] at hno
    have hnewer : ¬ client'.store.finalizedHeader.slot < updateFinalizedSlot update :=
      fun h => hno ⟨hs, Or.inl h⟩
    simp only [if_neg hnewer]
    rw [if_neg]
    rw [hfirstIff]
    exact fun h => hno ⟨hs, Or.inr h⟩
  · have hcond := (hshouldIff.1 hshould).2
    have hrot := applyCommittee_same hrotated
    have hknown := applyCommittee_known hrotated
    rcases applyFinalized_ok hfinal with ⟨hold, rfl⟩ | ⟨hnewer, header, hheader, rfl⟩
    · -- the first next committee of a period that is finalized already
      rw [hrot.finalizedHeader] at hold
      have hfirst := hcond.resolve_left hold
      have hsome : update.nextSyncCommittee.isSome = true := by
        have hsync := hfirst.2.1
        rw [hasSyncUpdate, Bool.and_eq_true] at hsync
        exact hsync.1
      rw [hsome, ite_self] at hknown
      simp only [gt_iff_lt] at hold
      simp only [if_neg hold, if_pos (hfirstIff.2 hfirst), hknown, hrot.finalizedHeader]
    · rw [hrot.finalizedHeader] at hnewer
      have hslot := updateFinalizedSlot_some hheader
      simp only [gt_iff_lt] at hnewer
      simp only [if_pos hnewer]
      exact congrArg₂ Progress.mk hslot.symm hknown

/-- **A genuine update is accepted when the machine accepts it**, and is then applied, as there. -/
theorem genuine_verdict (htrue : TrueCommittees k config checkpoint comm)
    (hreach : (lightClient k config checkpoint).Reachable client) (hrpc : update.FromRpc)
    {verified : UInt64} (h : Genuine k config comm verified update) (hle : verified ≤ now)
    (hle' : now ≤ now') (hrange : now' ≤ maxDuration) :
    ((progressOf client.store).accepts update = false ∧
        ∃ e, client.verifyGenericUpdate k verified update = .error (.err e)) ∨
      ((progressOf client.store).accepts update = true ∧
        client.verifyGenericUpdate k verified update = .ok () ∧
        ∃ client', client.applyGenericUpdate k now now' update = .ok client' ∧
          progressOf client'.store = (progressOf client.store).after update ∧
          (lightClient k config checkpoint).Reachable client') := by
  have hconfig := (lightClient_config hreach).1
  have ha := reachable_aligned htrue hreach
  have hverify := genuine_verify hconfig ha h
  have haccepts := @accepts_iff client update
  cases hperiod : validPeriod client.store update with
  | false =>
    rw [hperiod, if_pos rfl] at hverify
    rw [hperiod] at haccepts
    exact Or.inl ⟨by simpa using haccepts, _, hverify⟩
  | true =>
    cases hrelevant : relevant client.store update with
    | false =>
      rw [hperiod, hrelevant] at hverify haccepts
      exact Or.inl ⟨by simpa using haccepts, _, hverify⟩
    | true =>
      rw [hperiod, hrelevant] at hverify
      obtain ⟨client', happly⟩ := genuine_apply_total hconfig (h.mono hle) hle' hrange
      exact Or.inr ⟨haccepts.2 ⟨hperiod, hrelevant⟩, hverify, client', happly,
        applied_progress h.signed.1 happly,
        hreach.step ⟨update, hrpc, ⟨_, hverify⟩, _, _, happly⟩⟩

/-! ## Whole calls -/

/-- What a call leaves behind, also when it fails, is what the machine leaves behind. -/
structure Tracks (k : ConsensusCrates) (config : Config) (checkpoint : Bytes) (p : Progress)
    (updates : List GenericUpdate) (r : Attempt Fault ConsensusClient) : Prop where
  progress : progressOf r.2.store = (p.follow updates).1
  succeeds : r.1 = .ok () ↔ (p.follow updates).2 = true
  noPanic : ∀ site, r.1 ≠ .error (.panic site)
  reachable : (lightClient k config checkpoint).Reachable r.2

/-- One call after the other. -/
theorem Tracks.andThen {p : Progress} {us vs : List GenericUpdate}
    {r : Attempt Fault ConsensusClient} {f : ConsensusClient → Attempt Fault ConsensusClient}
    (h : Tracks k config checkpoint p us r)
    (hf : ∀ client', r = (.ok (), client') →
      Tracks k config checkpoint (progressOf client'.store) vs (f client')) :
    Tracks k config checkpoint p (us ++ vs) (Attempt.andThen r f) := by
  have hfollow := p.follow_append us vs
  obtain ⟨r, client'⟩ := r
  cases r with
  | error e =>
    have hno : ¬ (p.follow us).2 = true := fun hyes => by
      have hok := h.succeeds.2 hyes
      cases hok
    rw [if_neg hno] at hfollow
    exact ⟨by rw [hfollow]; exact h.progress, by rw [hfollow]; exact h.succeeds, h.noPanic,
      h.reachable⟩
  | ok u =>
    have hnext := hf client' rfl
    rw [if_pos (h.succeeds.1 rfl), ← h.progress] at hfollow
    exact ⟨by rw [hfollow]; exact hnext.progress, by rw [hfollow]; exact hnext.succeeds,
      hnext.noPanic, hnext.reachable⟩

theorem verifyAndApply_tracks (htrue : TrueCommittees k config checkpoint comm)
    (hreach : (lightClient k config checkpoint).Reachable client) (hrpc : update.FromRpc)
    (h : Genuine k config comm (w 0).now update) (hclock : ∀ i j, i ≤ j → (w i).now ≤ (w j).now)
    (hrange : ∀ i, (w i).now ≤ maxDuration) :
    Tracks k config checkpoint (progressOf client.store) [update]
      (verifyAndApply k w update client) := by
  rcases genuine_verdict htrue hreach hrpc h (hclock 0 1 (by omega)) (hclock 1 2 (by omega))
    (hrange 2) with
    ⟨hrefused, e, hverify⟩ | ⟨hfollowed, hverify, client', happly, hprogress, hreach'⟩
  · have hcall : verifyAndApply k w update client = (.error (.err e), client) := by
      rw [verifyAndApply, hverify]
      rfl
    rw [hcall]
    exact ⟨by simp [Progress.follow, hrefused], by simp [Progress.follow, hrefused], by simp,
      hreach⟩
  · have hcall : verifyAndApply k w update client = (.ok (), client') := by
      rw [verifyAndApply, hverify]
      simp [Attempt.request, happly]
    rw [hcall]
    exact ⟨by simp [Progress.follow, hfollowed, hprogress], by simp [Progress.follow, hfollowed],
      by simp, hreach'⟩

theorem tracks_nil (hreach : (lightClient k config checkpoint).Reachable client) :
    Tracks k config checkpoint (progressOf client.store) [] (.ok (), client) :=
  ⟨rfl, by simp [Progress.follow], by simp, hreach⟩

/-- The loop of `sync`: induction on the updates, each met three moments after the one before. -/
theorem applyUpdates_tracks (htrue : TrueCommittees k config checkpoint comm) {served : UInt64} :
    ∀ {updates : List Update} {w : World} {client : ConsensusClient},
      (lightClient k config checkpoint).Reachable client →
      (∀ u ∈ updates, Genuine k config comm served u.toGeneric) → served ≤ (w 0).now →
      (∀ i j, i ≤ j → (w i).now ≤ (w j).now) → (∀ i, (w i).now ≤ maxDuration) →
      Tracks k config checkpoint (progressOf client.store) (updates.map Update.toGeneric)
        (applyUpdates k w updates client)
  | [], _, _, hreach, _, _, _, _ => tracks_nil hreach
  | u :: us, w, client, hreach, hgenuine, hserved, hclock, hrange => by
    have hfirst := verifyAndApply_tracks htrue hreach (.update u)
      ((hgenuine u List.mem_cons_self).mono hserved) hclock hrange
    rw [applyUpdates, List.map_cons, ← List.singleton_append]
    refine hfirst.andThen fun client' hcall => ?_
    have hreach' := hfirst.reachable
    rw [hcall] at hreach'
    exact applyUpdates_tracks htrue hreach' (fun v hv => hgenuine v (List.mem_cons_of_mem _ hv))
      (UInt64.le_trans hserved (hclock 0 3 (by omega))) (fun i j hij => hclock _ _ (by omega))
      fun i => hrange _

/-- The two updates that close a call. -/
theorem followHead_tracks (htrue : TrueCommittees k config checkpoint comm)
    (hreach : (lightClient k config checkpoint).Reachable client) {finality : FinalityUpdate}
    {optimistic : OptimisticUpdate} (hfinality : (w 0).rpc.getFinalityUpdate = .ok finality)
    (hoptimistic : (w 4).rpc.getOptimisticUpdate = .ok optimistic)
    (hgenuine : Genuine k config comm (w 0).now finality.toGeneric)
    (hgenuine' : Genuine k config comm (w 4).now optimistic.toGeneric)
    (hclock : ∀ i j, i ≤ j → (w i).now ≤ (w j).now) (hrange : ∀ i, (w i).now ≤ maxDuration) :
    Tracks k config checkpoint (progressOf client.store)
      [finality.toGeneric, optimistic.toGeneric] (followHead k w client) := by
  have hdrop : ∀ n i j, i ≤ j → (w.drop n i).now ≤ (w.drop n j).now :=
    fun n i j hij => hclock _ _ (by omega)
  have hfirst := verifyAndApply_tracks (w := w.drop 1) htrue hreach (.finality finality)
    (hgenuine.mono (hclock 0 1 (by omega))) (hdrop 1) fun i => hrange _
  rw [followHead, answer_ok.2 hfinality, Attempt.request, ← List.singleton_append]
  refine hfirst.andThen fun client' hcall => ?_
  have hreach' := hfirst.reachable
  rw [hcall] at hreach'
  rw [answer_ok.2 hoptimistic, Attempt.request]
  exact verifyAndApply_tracks (w := w.drop 5) htrue hreach' (.optimistic optimistic)
    (hgenuine'.mono (hclock 4 5 (by omega))) (hdrop 5) fun i => hrange _

/-- An honest server during one `sync`: the bootstrap of the checkpoint, of an age that is taken,
    and updates of the true chain. -/
structure HonestSync (k : ConsensusCrates) (config : Config) (checkpoint : Bytes)
    (comm : UInt64 → SyncCommittee) (w : World) (boot : Bootstrap) (updates : List Update)
    (finality : FinalityUpdate) (optimistic : OptimisticUpdate) : Prop where
  answers_bootstrap : (w 0).rpc.getBootstrap checkpoint = .ok boot
  root : ∃ root, k.headerRoot boot.header = some root ∧ root.toList = checkpoint
  committee : isCurrentCommitteeProofValid k boot.header boot.currentSyncCommittee
    boot.currentSyncCommitteeBranch = true
  age : ∃ isValid, (ConsensusClient.new checkpoint config).isValidCheckpoint (w 1).now
    boot.header.slot = .ok isValid ∧ (isValid = true ∨ config.strictCheckpointAge = false)
  answers_updates : (w 2).rpc.getUpdates (calcSyncPeriod boot.header.slot)
    maxRequestLightClientUpdates = .ok updates
  answers_finality : (w (3 + 3 * updates.length)).rpc.getFinalityUpdate = .ok finality
  answers_optimistic : (w (7 + 3 * updates.length)).rpc.getOptimisticUpdate = .ok optimistic
  genuine_updates : ∀ u ∈ updates, Genuine k config comm (w 2).now u.toGeneric
  genuine_finality : Genuine k config comm (w (3 + 3 * updates.length)).now finality.toGeneric
  genuine_optimistic : Genuine k config comm (w (7 + 3 * updates.length)).now optimistic.toGeneric
  /-- Time passes, within what a `chrono::Duration` holds. -/
  clock : ∀ i j, i ≤ j → (w i).now ≤ (w j).now
  range : ∀ i, (w i).now ≤ maxDuration

section Sync

variable {boot : Bootstrap} {updates : List Update} {finality : FinalityUpdate}
  {optimistic : OptimisticUpdate}

/-- The store of a bootstrap. -/
def withBootstrap (client : ConsensusClient) (boot : Bootstrap) : ConsensusClient :=
  { client with
    store :=
      { finalizedHeader := boot.header
        currentSyncCommittee := boot.currentSyncCommittee
        nextSyncCommittee := none
        optimisticHeader := boot.header
        previousMaxActiveParticipants := 0
        currentMaxActiveParticipants := 0 } }

theorem HonestSync.bootstraps
    (honest : HonestSync k config checkpoint comm w boot updates finality optimistic)
    (hconfig : client.config = config) (hcheckpoint : client.initialCheckpoint = checkpoint) :
    bootstrap k w client = (.ok (), client.withBootstrap boot) := by
  obtain ⟨root, hroot, hbytes⟩ := honest.root
  obtain ⟨isValid, hvalid, hyoung⟩ := honest.age
  have hvalid' : client.isValidCheckpoint (w 1).now boot.header.slot = .ok isValid := by
    rw [← hvalid]
    unfold isValidCheckpoint expectedCurrentSlot slotTimestamp
    rw [hconfig]
    rfl
  have hpass : ¬ (isValid = false ∧ client.config.strictCheckpointAge = true) := by
    rw [hconfig]
    rintro ⟨hold, hstrict⟩
    rcases hyoung with hyoung | hyoung
    · rw [hold] at hyoung
      cases hyoung
    · rw [hstrict] at hyoung
      cases hyoung
  have hbytes' : root.toList = client.initialCheckpoint := hbytes.trans hcheckpoint.symm
  have hboot := honest.answers_bootstrap
  rw [← hcheckpoint] at hboot
  unfold bootstrap
  simp only [answer_ok.2 hboot, mapErr, Attempt.request, hvalid', if_neg hpass,
    rooted_ok.2 hroot, hbytes', ne_eq, not_true_eq_false, if_false, honest.committee,
    Bool.true_eq_false]
  rfl

theorem sync_tracks (htrue : TrueCommittees k config checkpoint comm)
    (hconfig : client.config = config) (hcheckpoint : client.initialCheckpoint = checkpoint)
    (honest : HonestSync k config checkpoint comm w boot updates finality optimistic) :
    Tracks k config checkpoint ⟨boot.header.slot, false⟩
      (updates.map Update.toGeneric ++ [finality.toGeneric, optimistic.toGeneric])
      (sync k w client) := by
  have hboot := honest.bootstraps hconfig hcheckpoint
  have hclock := honest.clock
  have hreach : (lightClient k config checkpoint).Reachable (client.withBootstrap boot) :=
    .init ⟨w, client, hconfig, hcheckpoint, hboot⟩
  have hloop := applyUpdates_tracks (w := w.drop 3) htrue hreach honest.genuine_updates
    (hclock 2 3 (by omega)) (fun i j hij => hclock _ _ (by omega)) fun i => honest.range _
  have hupdates := answer_ok.2 honest.answers_updates
  rw [sync, hboot]
  simp only [Attempt.andThen]
  rw [show (client.withBootstrap boot).store.finalizedHeader = boot.header from rfl, hupdates]
  simp only [Attempt.request]
  refine hloop.andThen fun client' hcall => ?_
  have hreach' := hloop.reachable
  rw [hcall] at hreach'
  have hfour : ∀ i, w.drop (3 + 3 * updates.length) i = w (i + (3 + 3 * updates.length)) :=
    fun i => rfl
  have hhead : 4 + (3 + 3 * updates.length) = 7 + 3 * updates.length := by omega
  have hzero : 0 + (3 + 3 * updates.length) = 3 + 3 * updates.length := by omega
  apply followHead_tracks htrue hreach'
  · rw [hfour, hzero]
    exact honest.answers_finality
  · rw [hfour, hhead]
    exact honest.answers_optimistic
  · rw [hfour, hzero]
    exact honest.genuine_finality
  · rw [hfour, hhead]
    exact honest.genuine_optimistic
  · exact fun i j hij => hclock _ _ (by omega)
  · exact fun i => honest.range _

end Sync

/-- **`sync` is the machine.**  Behind a server of genuine updates, in whatever number and order,
    `sync` of any client of the checkpoint never panics and succeeds exactly when the machine
    accepts every update.  It leaves behind the true header of the slot that the machine has
    finalized, and knows the next committee when the machine does, also when it fails. -/
theorem sync_follows (k : ConsensusCrates) (config : Config) (checkpoint : Bytes)
    (comm : UInt64 → SyncCommittee) (final : UInt64 → Header)
    (htrue : TrueCommittees k config checkpoint comm)
    (hheaders : TrueHeaders k config checkpoint comm final) (client : ConsensusClient)
    (hconfig : client.config = config) (hcheckpoint : client.initialCheckpoint = checkpoint)
    (w : World) (boot : Bootstrap) (updates : List Update) (finality : FinalityUpdate)
    (optimistic : OptimisticUpdate)
    (honest : HonestSync k config checkpoint comm w boot updates finality optimistic)
    (machine : Progress × Bool)
    (hmachine : machine = Progress.follow ⟨boot.header.slot, false⟩
      (updates.map Update.toGeneric ++ [finality.toGeneric, optimistic.toGeneric])) :
    (∀ site, (sync k w client).1 ≠ .error (.panic site)) ∧
      ((sync k w client).1 = .ok () ↔ machine.2 = true) ∧
      (sync k w client).2.store.finalizedHeader = final machine.1.finalized ∧
      (sync k w client).2.store.nextSyncCommittee.isSome = machine.1.known := by
  have htracks := sync_tracks htrue hconfig hcheckpoint honest
  have hprogress := htracks.progress
  rw [← hmachine] at hprogress
  have hsucceeds := htracks.succeeds
  rw [← hmachine] at hsucceeds
  refine ⟨htracks.noPanic, hsucceeds, ?_, ?_⟩
  · rw [reachable_final htrue hheaders htracks.reachable, ← hprogress]
    rfl
  · rw [← hprogress]
    rfl

/-! ## One update for each period -/

namespace Progress

variable {p : Progress}

/-- The last period whose signatures are accepted. -/
def reach (p : Progress) : Nat := p.period.toNat + p.known.toNat

theorem period_succ_toNat : (p.period + 1).toNat = p.period.toNat + 1 :=
  calcSyncPeriod_succ_toNat p.finalized

theorem accepts_reach : p.accepts update = true ↔
    (p.period.toNat ≤ (calcSyncPeriod update.signatureSlot).toNat ∧
        (calcSyncPeriod update.signatureSlot).toNat ≤ p.reach) ∧
      (p.finalized < update.attestedHeader.slot ∨
        (p.known = false ∧ update.nextSyncCommittee.isSome = true ∧
          calcSyncPeriod update.attestedHeader.slot = p.period)) := by
  have hperiod : ((calcSyncPeriod update.signatureSlot = p.period ∨
      calcSyncPeriod update.signatureSlot = p.period + 1 ∧ p.known = true)) ↔
      (p.period.toNat ≤ (calcSyncPeriod update.signatureSlot).toNat ∧
        (calcSyncPeriod update.signatureSlot).toNat ≤ p.reach) := by
    have hsucc := @period_succ_toNat p
    rw [← UInt64.toNat_inj, ← UInt64.toNat_inj, hsucc, reach]
    cases p.known with
    | false => simp; omega
    | true => simp; omega
  rw [← hperiod]
  unfold accepts
  simp only [Bool.and_eq_true, Bool.or_eq_true, beq_iff_eq, decide_eq_true_eq, Bool.not_eq_true',
    and_assoc]

theorem after_newer (h : p.finalized < updateFinalizedSlot update) : p.after update =
    ⟨updateFinalizedSlot update,
      if p.known && calcSyncPeriod (updateFinalizedSlot update) != p.period + 1 then true
      else update.nextSyncCommittee.isSome⟩ :=
  if_pos h

/-- The first committee of a period that is finalized already. -/
theorem after_first (h : ¬ p.finalized < updateFinalizedSlot update) (hknown : p.known = false)
    (hsync : hasSyncUpdate update = true) (hfinality : hasFinalityUpdate update = true)
    (hperiod : calcSyncPeriod update.attestedHeader.slot =
      calcSyncPeriod (updateFinalizedSlot update)) : p.after update = ⟨p.finalized, true⟩ := by
  unfold after
  simp [h, hknown, hsync, hfinality, hperiod]

/-- Without a committee, only a newer header changes anything. -/
theorem after_old (h : updateFinalizedSlot update ≤ p.finalized)
    (hnone : update.nextSyncCommittee = none) : p.after update = p := by
  have hsync : hasSyncUpdate update = false := by
    rw [hasSyncUpdate, hnone]
    rfl
  unfold after
  rw [if_neg (UInt64.not_lt.2 h), hsync]
  simp

/-- The update of the last period within reach, finalized there, is followed, and brings the next
    period within reach. -/
theorem after_eachPeriod {u : Update}
    (hfinalized : (calcSyncPeriod u.finalizedHeader.slot).toNat = p.reach)
    (hsigned : (calcSyncPeriod u.signatureSlot).toNat = p.reach)
    (hattested : u.finalizedHeader.slot ≤ u.attestedHeader.slot)
    (hlt : u.attestedHeader.slot < u.signatureSlot) :
    p.accepts u.toGeneric = true ∧ (p.after u.toGeneric).reach = p.reach + 1 ∧
      ((p.after u.toGeneric).finalized = p.finalized ∨
        (p.after u.toGeneric).finalized = u.finalizedHeader.slot) := by
  have hfa := UInt64.le_iff_toNat_le.1 (calcSyncPeriod_mono hattested)
  have has := UInt64.le_iff_toNat_le.1 (calcSyncPeriod_mono (UInt64.le_of_lt hlt))
  have hperiod : calcSyncPeriod u.attestedHeader.slot = calcSyncPeriod u.finalizedHeader.slot := by
    apply UInt64.toNat_inj.1
    omega
  have hreach : p.reach = p.period.toNat + p.known.toNat := rfl
  have hsignedIn : p.period.toNat ≤ (calcSyncPeriod u.signatureSlot).toNat ∧
      (calcSyncPeriod u.signatureSlot).toNat ≤ p.reach := by
    omega
  by_cases hnewer : p.finalized < u.finalizedHeader.slot
  · have haccepts : p.accepts u.toGeneric = true :=
      accepts_reach.2 ⟨hsignedIn, Or.inl (UInt64.lt_of_lt_of_le hnewer hattested)⟩
    have hafter : p.after u.toGeneric = ⟨u.finalizedHeader.slot, true⟩ := by
      rw [after_newer hnewer]
      simp [Update.toGeneric, updateFinalizedSlot]
    rw [hafter]
    exact ⟨haccepts, congrArg (· + 1) hfinalized, Or.inr rfl⟩
  · -- finalized already, so in the period of the machine: the committee was missing
    have hmono := UInt64.le_iff_toNat_le.1 (calcSyncPeriod_mono (UInt64.not_lt.1 hnewer))
    have hmono' : (calcSyncPeriod u.finalizedHeader.slot).toNat ≤ p.period.toNat := hmono
    have hknown : p.known = false := by
      cases hk : p.known with
      | false => rfl
      | true =>
        rw [hk, Bool.toNat_true] at hreach
        omega
    rw [hknown, Bool.toNat_false, Nat.add_zero] at hreach
    have hown : calcSyncPeriod u.finalizedHeader.slot = p.period :=
      UInt64.toNat_inj.1 (hfinalized.trans hreach)
    have haccepts : p.accepts u.toGeneric = true :=
      accepts_reach.2 ⟨hsignedIn, Or.inr ⟨hknown, rfl, hperiod.trans hown⟩⟩
    have hafter : p.after u.toGeneric = ⟨p.finalized, true⟩ :=
      after_first hnewer hknown rfl rfl hperiod
    rw [hafter]
    refine ⟨haccepts, ?_, Or.inl rfl⟩
    rw [hreach]
    rfl

/-- One update for each period from this one on: signed in it, and finalized in it. -/
def EachPeriod : Nat → List Update → Prop
  | _, [] => True
  | period, u :: us =>
    (calcSyncPeriod u.finalizedHeader.slot).toNat = period ∧
      (calcSyncPeriod u.signatureSlot).toNat = period ∧ EachPeriod (period + 1) us

/-- **The machine follows one update for each period**, however many there are. -/
theorem follow_eachPeriod : ∀ {us : List Update} {p : Progress}, EachPeriod p.reach us →
    (∀ u ∈ us, u.finalizedHeader.slot ≤ u.attestedHeader.slot ∧
      u.attestedHeader.slot < u.signatureSlot) →
    (p.follow (us.map Update.toGeneric)).2 = true ∧
      (p.follow (us.map Update.toGeneric)).1.reach = p.reach + us.length ∧
      ((p.follow (us.map Update.toGeneric)).1.finalized = p.finalized ∨
        ∃ u ∈ us, (p.follow (us.map Update.toGeneric)).1.finalized = u.finalizedHeader.slot)
  | [], p, _, _ => ⟨rfl, rfl, Or.inl rfl⟩
  | u :: us, p, heach, horder => by
    obtain ⟨hfinalized, hsigned, hrest⟩ := heach
    obtain ⟨hattested, hlt⟩ := horder u List.mem_cons_self
    obtain ⟨haccepts, hreach, hslot⟩ := after_eachPeriod hfinalized hsigned hattested hlt
    rw [← hreach] at hrest
    obtain ⟨hok, hlast, hfinal⟩ :=
      follow_eachPeriod hrest fun v hv => horder v (List.mem_cons_of_mem _ hv)
    rw [List.map_cons, follow, if_pos haccepts]
    refine ⟨hok, ?_, ?_⟩
    · rw [hlast, hreach, List.length_cons]
      omega
    · rcases hfinal with hfinal | ⟨v, hv, hfinal⟩
      · rcases hslot with hslot | hslot
        · exact Or.inl (hfinal.trans hslot)
        · exact Or.inr ⟨u, List.mem_cons_self, hfinal.trans hslot⟩
      · exact Or.inr ⟨v, List.mem_cons_of_mem _ hv, hfinal⟩

/-- A newer finality update keeps the reach: it gives up the committee that it takes. -/
theorem after_finality (hnone : update.nextSyncCommittee = none)
    (hle : p.finalized ≤ updateFinalizedSlot update)
    (hreach : (calcSyncPeriod (updateFinalizedSlot update)).toNat ≤ p.reach) :
    (p.after update).reach = p.reach ∧
      (p.after update).finalized = updateFinalizedSlot update := by
  rcases UInt64.lt_or_eq_of_le hle with hnewer | heq
  · have hmono := UInt64.le_iff_toNat_le.1 (calcSyncPeriod_mono hle)
    have hmono' : p.period.toNat ≤ (calcSyncPeriod (updateFinalizedSlot update)).toNat := hmono
    have hsum : p.reach = p.period.toNat + p.known.toNat := rfl
    have hsucc := @period_succ_toNat p
    rw [after_newer hnewer, hnone]
    refine ⟨?_, rfl⟩
    show (calcSyncPeriod (updateFinalizedSlot update)).toNat + Bool.toNat _ = p.reach
    cases hk : p.known with
    | false =>
      rw [hk, Bool.toNat_false, Nat.add_zero] at hsum
      simp only [Bool.false_and, Bool.false_eq_true, if_false, Option.isSome_none,
        Bool.toNat_false]
      omega
    | true =>
      rw [hk, Bool.toNat_true] at hsum
      by_cases hnext : calcSyncPeriod (updateFinalizedSlot update) = p.period + 1
      · simp [hnext, hsucc, hsum]
      · have hne : (calcSyncPeriod (updateFinalizedSlot update)).toNat ≠ (p.period + 1).toNat :=
          fun h => hnext (UInt64.toNat_inj.1 h)
        simp only [Bool.true_and, bne_iff_ne, ne_eq, hnext, not_false_eq_true, if_true,
          Bool.toNat_true]
        omega
  · rw [after_old (UInt64.le_of_eq heq.symm) hnone]
    exact ⟨rfl, heq⟩

/-- **The machine follows the head** when both updates are signed within its reach, and keeps it. -/
theorem follow_head {finality : FinalityUpdate} {optimistic : OptimisticUpdate}
    (hcurrent : p.finalized ≤ finality.finalizedHeader.slot)
    (hjustified : finality.finalizedHeader.slot < finality.attestedHeader.slot)
    (hsigned : finality.attestedHeader.slot < finality.signatureSlot)
    (hhead : finality.finalizedHeader.slot < optimistic.attestedHeader.slot)
    (hsigned' : optimistic.attestedHeader.slot < optimistic.signatureSlot)
    (hreach : (calcSyncPeriod finality.signatureSlot).toNat ≤ p.reach)
    (hreach' : (calcSyncPeriod optimistic.signatureSlot).toNat ≤ p.reach) :
    (p.follow [finality.toGeneric, optimistic.toGeneric]).2 = true ∧
      (p.follow [finality.toGeneric, optimistic.toGeneric]).1.finalized =
        finality.finalizedHeader.slot ∧
      (p.follow [finality.toGeneric, optimistic.toGeneric]).1.reach = p.reach := by
  have hslot : updateFinalizedSlot finality.toGeneric = finality.finalizedHeader.slot := rfl
  have hbelow : ∀ {a b : UInt64}, a ≤ b → (calcSyncPeriod a).toNat ≤ (calcSyncPeriod b).toNat :=
    fun h => UInt64.le_iff_toNat_le.1 (calcSyncPeriod_mono h)
  have hfinal := hbelow (UInt64.le_of_lt (UInt64.lt_trans hjustified hsigned))
  have haccepts : p.accepts finality.toGeneric = true := by
    refine accepts_reach.2 ⟨⟨?_, hreach⟩, Or.inl (UInt64.lt_of_le_of_lt hcurrent hjustified)⟩
    exact Nat.le_trans (hbelow hcurrent) hfinal
  obtain ⟨hkept, hmoved⟩ := @after_finality finality.toGeneric p rfl hcurrent
    (Nat.le_trans hfinal hreach)
  rw [hslot] at hmoved
  have haccepts' : (p.after finality.toGeneric).accepts optimistic.toGeneric = true := by
    refine accepts_reach.2 ⟨⟨?_, ?_⟩, Or.inl ?_⟩
    · rw [period, hmoved]
      exact hbelow (UInt64.le_of_lt (UInt64.lt_trans hhead hsigned'))
    · rw [hkept]
      exact hreach'
    · rw [hmoved]
      exact hhead
  have hlast : (p.after finality.toGeneric).after optimistic.toGeneric =
      p.after finality.toGeneric := after_old UInt64.zero_le rfl
  simp only [follow, if_pos haccepts, if_pos haccepts', hlast]
  exact ⟨trivial, hmoved, hkept⟩

end Progress

/-- **`sync` catches up over any number of periods.**  Behind an honest server that has one update
    for each period from the checkpoint's on, finalized and signed in it, and a head signed at most
    one period after the last of them, `sync` of any client of the checkpoint succeeds, and ends at
    the server's finalized header. -/
theorem sync_catches_up (k : ConsensusCrates) (config : Config) (checkpoint : Bytes)
    (comm : UInt64 → SyncCommittee) (final : UInt64 → Header)
    (htrue : TrueCommittees k config checkpoint comm)
    (hheaders : TrueHeaders k config checkpoint comm final) (client : ConsensusClient)
    (hconfig : client.config = config) (hcheckpoint : client.initialCheckpoint = checkpoint)
    (w : World) (boot : Bootstrap) (updates : List Update) (finality : FinalityUpdate)
    (optimistic : OptimisticUpdate)
    (honest : HonestSync k config checkpoint comm w boot updates finality optimistic)
    (heach : Progress.EachPeriod (calcSyncPeriod boot.header.slot).toNat updates)
    (hnewest : boot.header.slot ≤ finality.finalizedHeader.slot ∧
      ∀ u ∈ updates, u.finalizedHeader.slot ≤ finality.finalizedHeader.slot)
    (hjustified : finality.finalizedHeader.slot < finality.attestedHeader.slot)
    (hhead : finality.finalizedHeader.slot < optimistic.attestedHeader.slot)
    (hreach : (calcSyncPeriod finality.signatureSlot).toNat ≤
        (calcSyncPeriod boot.header.slot).toNat + updates.length ∧
      (calcSyncPeriod optimistic.signatureSlot).toNat ≤
        (calcSyncPeriod boot.header.slot).toNat + updates.length) :
    (sync k w client).1 = .ok () ∧
      (sync k w client).2.store.finalizedHeader = finality.finalizedHeader := by
  have htracks := sync_tracks htrue hconfig hcheckpoint honest
  have horder : ∀ u ∈ updates, u.finalizedHeader.slot ≤ u.attestedHeader.slot ∧
      u.attestedHeader.slot < u.signatureSlot :=
    fun u hu => ⟨(honest.genuine_updates u hu).finalized_le,
      (honest.genuine_updates u hu).attested_lt⟩
  obtain ⟨hok, hlast, hfinal⟩ :=
    Progress.follow_eachPeriod (p := ⟨boot.header.slot, false⟩) heach horder
  have hfollow := Progress.follow_append ⟨boot.header.slot, false⟩
    (updates.map Update.toGeneric) [finality.toGeneric, optimistic.toGeneric]
  rw [if_pos hok] at hfollow
  have hstart : Progress.reach ⟨boot.header.slot, false⟩ =
      (calcSyncPeriod boot.header.slot).toNat := rfl
  rw [hstart] at hlast
  have hcurrent : (Progress.follow ⟨boot.header.slot, false⟩
      (updates.map Update.toGeneric)).1.finalized ≤ finality.finalizedHeader.slot := by
    rcases hfinal with hfinal | ⟨u, hu, hfinal⟩
    · rw [hfinal]
      exact hnewest.1
    · rw [hfinal]
      exact hnewest.2 u hu
  obtain ⟨hheadOk, hslot, _⟩ := Progress.follow_head hcurrent hjustified
    honest.genuine_finality.attested_lt hhead honest.genuine_optimistic.attested_lt
    (hlast ▸ hreach.1) (hlast ▸ hreach.2)
  rw [← hfollow] at hheadOk hslot
  refine ⟨htracks.succeeds.2 hheadOk, ?_⟩
  have hprogress := congrArg Progress.finalized htracks.progress
  rw [hslot] at hprogress
  have hstore : (sync k w client).2.store.finalizedHeader.slot = finality.finalizedHeader.slot :=
    hprogress
  rw [reachable_final htrue hheaders htracks.reachable, hstore]
  exact (hheaders.signed _ _ _ honest.genuine_finality.signed rfl rfl
    honest.genuine_finality.finality).symm

/-! ## One period -/

theorem justified_served : HonestServer periodCrates mainnet (fun _ => memberCommittee)
    (startedAt laterCheckpointRoot laterCheckpoint) (fun _ => justifiedMoment) justifiedFinality
    justifiedOptimistic justifiedUpdate :=
  justified_honest (by decide +kernel)

/-- A server with the bootstrap of a header, the update of its period and its head. -/
theorem justified_honestSync :
    HonestSync periodCrates mainnet laterCheckpointRoot.toList (fun _ => memberCommittee)
      (fun _ => startMoment laterCheckpoint)
      ⟨laterCheckpoint, memberCommittee, List.replicate 5 (zeroBytes 32)⟩ [justifiedUpdate]
      justifiedFinality justifiedOptimistic where
  answers_bootstrap := rfl
  root := ⟨laterCheckpointRoot, by decide +kernel, rfl⟩
  committee := by
    have hroots : periodCrates.committeeRoot = memberRoots := rfl
    rw [isCurrentCommitteeProofValid, hroots, memberRoots_member, isProofValid.eq_def]
    decide +kernel
  age := ⟨true, by decide +kernel, Or.inl rfl⟩
  answers_updates := rfl
  answers_finality := rfl
  answers_optimistic := rfl
  genuine_updates u hu := by
    rw [List.mem_singleton.1 hu]
    exact justified_served.genuine_update
  genuine_finality := justified_served.genuine_finality
  genuine_optimistic := justified_served.genuine_optimistic
  clock _ _ _ := UInt64.le_refl _
  range _ := by decide +kernel

theorem sync_follows_justified :
    (sync periodCrates (fun _ => startMoment laterCheckpoint)
        (ConsensusClient.new laterCheckpointRoot.toList mainnet)).1 = .ok () :=
  (sync_follows periodCrates mainnet laterCheckpointRoot.toList (fun _ => memberCommittee)
    periodFinal (period_true_committees _) (period_true_headers _)
    (ConsensusClient.new laterCheckpointRoot.toList mainnet) rfl rfl _ _ _ _ _
    justified_honestSync (⟨6406176, true⟩, true) (by decide +kernel)).2.1.2 rfl

theorem sync_catches_up_justified :
    (sync periodCrates (fun _ => startMoment laterCheckpoint)
        (ConsensusClient.new laterCheckpointRoot.toList mainnet)).1 = .ok () ∧
      (sync periodCrates (fun _ => startMoment laterCheckpoint)
        (ConsensusClient.new laterCheckpointRoot.toList mainnet)).2.store.finalizedHeader =
          laterCheckpoint :=
  sync_catches_up periodCrates mainnet laterCheckpointRoot.toList (fun _ => memberCommittee)
    periodFinal (period_true_committees _) (period_true_headers _)
    (ConsensusClient.new laterCheckpointRoot.toList mainnet) rfl rfl _ _ _ _ _
    justified_honestSync ⟨by decide +kernel, by decide +kernel, trivial⟩
    ⟨by decide +kernel, by decide +kernel⟩ (by decide +kernel) (by decide +kernel)
    ⟨by decide +kernel, by decide +kernel⟩

end ConsensusClient

end Helios
