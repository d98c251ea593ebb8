import Helios.Consensus.Clock

/-!
# Advancing behind an honest server

* `TrueHeaders` — what the signers are trusted for about finalized headers; `reachable_final` — so
  the finalized header of every reachable store is the one of its slot.
* `Genuine` — an update of the true chain, served in time; `genuine_verify` — which of its checks
  such an update can still fail: the period and relevance.
* `genuine_apply` — applying it does not panic, and where finality and the committees end up.
* `HonestServer` — the three answers of an honest server to one `advance`.
* `advance_recovers_iff` — **`advance` follows the server exactly when** both updates are signed in
  the store's period, or in the one after it while the next committee is known.
-/

set_option autoImplicit false

namespace Helios

namespace ConsensusClient

variable {k : ConsensusCrates} {config : Config} {checkpoint : Bytes}
  {comm : UInt64 → SyncCommittee} {final : UInt64 → Header} {client client' : ConsensusClient}
  {now now' : UInt64} {update : GenericUpdate}

/-! ## True finalized headers -/

/-- `final` names the finalized header of each slot: the checkpoint is one, and two thirds of the
    true committee never sign for a state with another. -/
structure TrueHeaders (k : ConsensusCrates) (config : Config) (checkpoint : Bytes)
    (comm : UInt64 → SyncCommittee) (final : UInt64 → Header) : Prop where
  bootstrap : ∀ client, (lightClient k config checkpoint).init client →
    client.store.finalizedHeader = final client.store.finalizedHeader.slot
  signed : ∀ update header branch,
    SignedBy k config (comm (calcSyncPeriod update.signatureSlot)) update →
    update.finalizedHeader = some header → update.finalityBranch = some branch →
    isFinalityProofValid k update.attestedHeader header branch = true →
    header = final header.slot

theorem reachable_final (htrue : TrueCommittees k config checkpoint comm)
    (hheaders : TrueHeaders k config checkpoint comm final)
    (h : (lightClient k config checkpoint).Reachable client) :
    client.store.finalizedHeader = final client.store.finalizedHeader.slot := by
  refine System.invariant (S := lightClient k config checkpoint)
    (I := fun c => c.store.finalizedHeader = final c.store.finalizedHeader.slot)
    hheaders.bootstrap ?_ h
  rintro s s' hreach hfinal ⟨update, hstep⟩
  rcases hstep.supermajority with hs | hsame
  case inr =>
    rw [hsame.finalizedHeader]
    exact hfinal
  obtain ⟨hrpc, ⟨now, hverify⟩, _, _, happly⟩ := hstep
  rcases (applied_origin happly).1 with heq | hheader
  · rw [heq]
    exact hfinal
  have hacc := verifyGenericUpdate_ok hverify
  obtain ⟨branch, hbranch⟩ := hrpc.finality_branch hheader
  have hproof := hacc.finality
  simp only [finalityProofOk, hheader, hbranch] at hproof
  obtain ⟨signers, pks, hsigners, hpks, hsig⟩ := hacc.signature
  rw [(reachable_aligned htrue hreach).signing hacc.period hsigners] at hpks
  rw [(lightClient_config hreach).1] at hsig
  exact hheaders.signed update _ branch ⟨hs, pks, hpks, hsig⟩ hheader hbranch hproof

/-! ## Genuine updates -/

/-- An update of the true chain, at a time when its signature slot has begun. -/
structure Genuine (k : ConsensusCrates) (config : Config) (comm : UInt64 → SyncCommittee)
    (now : UInt64) (update : GenericUpdate) : Prop where
  signed : SignedBy k config (comm (calcSyncPeriod update.signatureSlot)) update
  begun : update.signatureSlot.toNat * 12 + config.chain.genesisTime.toNat ≤ now.toNat
  attested_lt : update.attestedHeader.slot < update.signatureSlot
  finalized_le : updateFinalizedSlot update ≤ update.attestedHeader.slot
  finality : finalityProofOk k update = true
  committee : committeeProofOk k update = true

theorem Genuine.mono (h : Genuine k config comm now update) (hle : now ≤ now') :
    Genuine k config comm now' update :=
  ⟨h.signed, Nat.le_trans h.begun (UInt64.le_iff_toNat_le.1 hle), h.attested_lt, h.finalized_le,
    h.finality, h.committee⟩

/-- The slots of a genuine update have begun. -/
theorem Genuine.inTime (h : Genuine k config comm now update) (hconfig : client.config = config) :
    client.InTime now update.signatureSlot ∧ client.InTime now update.attestedHeader.slot ∧
      client.InTime now (updateFinalizedSlot update) := by
  have hsig : client.InTime now update.signatureSlot := by
    rw [inTime_iff, hconfig]
    exact h.begun
  have hatt := hsig.of_le (UInt64.le_of_lt h.attested_lt)
  exact ⟨hsig, hatt, hatt.of_le h.finalized_le⟩

theorem Supermajority.participants_ne_zero (h : Supermajority update) : participants update ≠ 0 := by
  intro hzero
  rw [Supermajority, hzero] at h
  exact absurd h (by decide)

/-- The update is newer than finality, or brings a committee that is missing. -/
def relevant (store : LightClientStore) (update : GenericUpdate) : Bool :=
  decide (store.finalizedHeader.slot < update.attestedHeader.slot) ||
    updateHasNextCommittee store update

/-- **Which checks a genuine update can fail**: those of its period and its relevance. -/
theorem genuine_verify (hconfig : client.config = config) (ha : Aligned comm client.store)
    (h : Genuine k config comm now update) :
    client.verifyGenericUpdate k now update =
      if validPeriod client.store update = false then .error (.err (.consensus .invalidPeriod))
      else if relevant client.store update = false then
        .error (.err (.consensus .notRelevant))
      else .ok () := by
  obtain ⟨current, hcurrent, hbegun⟩ := (h.inTime hconfig).1
  obtain ⟨hs, pks, hpks, hsig⟩ := h.signed
  unfold verifyGenericUpdate
  simp only [if_neg hs.participants_ne_zero, hcurrent]
  rw [if_neg (not_not.2 ⟨hbegun, h.attested_lt, h.finalized_le⟩)]
  have hrelevant : (update.attestedHeader.slot ≤ client.store.finalizedHeader.slot ∧
      updateHasNextCommittee client.store update = false) ↔
        relevant client.store update = false := by
    rw [relevant, Bool.or_eq_false_iff, decide_eq_false_iff_not, UInt64.not_lt]
  cases hperiod : validPeriod client.store update with
  | false => rw [if_pos rfl, if_pos rfl]
  | true =>
    simp only [Bool.true_eq_false, if_false]
    by_cases hr : relevant client.store update = false
    · rw [if_pos hr, if_pos (hrelevant.2 hr)]
    · obtain ⟨committee, hcommittee⟩ := signingCommittee_ok hperiod
      rw [ha.signing hperiod hcommittee] at hcommittee
      rw [← hconfig] at hsig
      rw [if_neg hr, if_neg (fun hboth => hr (hrelevant.1 hboth)), h.finality, h.committee,
        hcommittee]
      simp only [Bool.true_eq_false, if_false, hpks, hsig]

theorem genuine_accepted (hconfig : client.config = config) (ha : Aligned comm client.store)
    (h : Genuine k config comm now update) (hnewer : client.store.finalizedHeader.slot <
      update.attestedHeader.slot) :
    client.verifyGenericUpdate k now update = .ok () ↔ validPeriod client.store update = true := by
  have hrelevant : relevant client.store update = true := by simp [relevant, hnewer]
  rw [genuine_verify hconfig ha h, hrelevant]
  cases validPeriod client.store update <;> simp

/-! ## Applying them -/

/-- The clock stays within what a `chrono::Duration` holds. -/
theorem InTime.age_ok {slot : UInt64} (h : client.InTime now slot) (hrange : now ≤ maxDuration) :
    ∃ delay, client.age now slot = .ok delay := by
  obtain ⟨hnat, hle⟩ := h.timestamp
  have hdelay : ¬ maxDuration < now - client.slotTimestamp slot := by
    rw [UInt64.not_lt, UInt64.le_iff_toNat_le, UInt64.toNat_sub_of_le _ _ hle]
    rw [UInt64.le_iff_toNat_le] at hrange
    omega
  unfold ConsensusClient.age
  simp only [if_neg (UInt64.not_lt.2 hle), if_neg hdelay]
  exact ⟨_, rfl⟩

theorem applyOptimistic_total (bits : UInt64) (h : client.InTime now update.attestedHeader.slot)
    (hrange : now ≤ maxDuration) :
    ∃ client', client.applyOptimistic now update bits = .ok client' := by
  unfold applyOptimistic
  simp only
  split
  · have hmoved : ({ client with
        store := { client.store with optimisticHeader := update.attestedHeader } } :
          ConsensusClient).InTime now update.attestedHeader.slot := h.of_config rfl
    obtain ⟨delay, hdelay⟩ := hmoved.age_ok hrange
    rw [hdelay]
    exact ⟨_, rfl⟩
  · exact ⟨_, rfl⟩

theorem applyFinalized_total (h : client.InTime now (updateFinalizedSlot update))
    (hrange : now ≤ maxDuration) :
    ∃ client', client.applyFinalized k now update = .ok client' := by
  unfold applyFinalized
  split
  · rename_i hnewer
    obtain ⟨header, hheader⟩ := finalizedHeader_of_newer hnewer
    rw [updateFinalizedSlot_some hheader] at h
    obtain ⟨delay, hdelay⟩ := h.age_ok hrange
    rw [hheader]
    simp only [hdelay]
    exact ⟨_, rfl⟩
  · exact ⟨_, rfl⟩

/-- **Applying a genuine update does not panic.** -/
theorem genuine_apply_total (hconfig : client.config = config)
    (h : Genuine k config comm now update) (hle : now ≤ now') (hrange : now' ≤ maxDuration) :
    ∃ client', client.applyGenericUpdate k now now' update = .ok client' := by
  obtain ⟨_, hatt, hfin⟩ := h.inTime hconfig
  have hraised : (client.raiseParticipants (participants update)).InTime now
      update.attestedHeader.slot := hatt.of_config rfl
  obtain ⟨mid, hmid⟩ := applyOptimistic_total (participants update) hraised
    (UInt64.le_trans hle hrange)
  have hsame := raiseParticipants_same.trans (applyOptimistic_same hmid)
  unfold applyGenericUpdate
  simp only [hmid]
  split
  · obtain ⟨rotated, hrotated⟩ : ∃ rotated, mid.applyCommittee update = .ok rotated :=
      applyCommittee_total
    have hrot := (applyCommittee_same hrotated).config.trans hsame.config
    rw [hrotated]
    exact applyFinalized_total ((hfin.mono hle).of_config hrot) hrange
  · exact ⟨_, rfl⟩

/-- Finality stays when the update's is not newer. -/
theorem applied_not_newer (happly : client.applyGenericUpdate k now now' update = .ok client')
    (hle : updateFinalizedSlot update ≤ client.store.finalizedHeader.slot) :
    client'.store.finalizedHeader = client.store.finalizedHeader := by
  obtain ⟨mid, hmid, hcases⟩ := applyGenericUpdate_ok happly
  have hsame := raiseParticipants_same.trans (applyOptimistic_same hmid)
  rcases hcases with ⟨_, rfl⟩ | ⟨_, rotated, hrotated, hfinal⟩
  · exact hsame.finalizedHeader
  have hrot := (applyCommittee_same hrotated).finalizedHeader.trans hsame.finalizedHeader
  rcases applyFinalized_ok hfinal with ⟨_, rfl⟩ | ⟨hnewer, _⟩
  · exact hrot
  · rw [hrot] at hnewer
    exact absurd hle (UInt64.not_le.2 hnewer)

/-- A supermajority update without a next committee: finality follows it if it is newer, and the
    next committee is used up if the period changes. -/
theorem applied_newer (hs : Supermajority update) (hnone : update.nextSyncCommittee = none)
    (hnewer : client.store.finalizedHeader.slot < updateFinalizedSlot update)
    (happly : client.applyGenericUpdate k now now' update = .ok client') :
    update.finalizedHeader = some client'.store.finalizedHeader ∧
      client'.store.nextSyncCommittee =
        if calcSyncPeriod (updateFinalizedSlot update) =
          calcSyncPeriod client.store.finalizedHeader.slot + 1 then none
        else client.store.nextSyncCommittee := by
  obtain ⟨mid, hmid, hcases⟩ := applyGenericUpdate_ok happly
  have hsame := raiseParticipants_same.trans (applyOptimistic_same hmid)
  have hshould : shouldApplyUpdate mid.store update (participants update) = true := by
    rw [shouldApplyUpdate_iff, hsame.finalizedHeader]
    exact ⟨hs, Or.inl hnewer⟩
  rcases hcases with ⟨hno, _⟩ | ⟨_, rotated, hrotated, hfinal⟩
  · rw [hshould] at hno
    cases hno
  have hrot : rotated.store.finalizedHeader = client.store.finalizedHeader ∧
      rotated.store.nextSyncCommittee =
        if calcSyncPeriod (updateFinalizedSlot update) =
          calcSyncPeriod client.store.finalizedHeader.slot + 1 then none
        else client.store.nextSyncCommittee := by
    rw [← hsame.finalizedHeader, ← hsame.next]
    rcases applyCommittee_ok hrotated with ⟨hn, rfl⟩ | ⟨_, _, hp, rfl⟩ | ⟨_, _, hp, rfl⟩
    · refine ⟨rfl, ?_⟩
      rw [hn, ite_self]
      exact hnone
    · exact ⟨rfl, by rw [if_pos hp]; exact hnone⟩
    · exact ⟨rfl, by rw [if_neg hp]⟩
  rcases applyFinalized_ok hfinal with ⟨hno, _⟩ | ⟨_, header, hheader, rfl⟩
  · rw [hrot.1] at hno
    exact absurd hnewer hno
  · exact ⟨hheader, hrot.2⟩

/-- One that is not newer only moves the optimistic header. -/
theorem applied_same (hnone : update.nextSyncCommittee = none)
    (hle : updateFinalizedSlot update ≤ client.store.finalizedHeader.slot)
    (happly : client.applyGenericUpdate k now now' update = .ok client') :
    SameFinality client client' := by
  obtain ⟨mid, hmid, hcases⟩ := applyGenericUpdate_ok happly
  have hsame := raiseParticipants_same.trans (applyOptimistic_same hmid)
  rcases hcases with ⟨_, rfl⟩ | ⟨hshould, _⟩
  · exact hsame
  rcases (shouldApplyUpdate_iff.1 hshould).2 with hnewer | ⟨_, hsync, _⟩
  · rw [hsame.finalizedHeader] at hnewer
    exact absurd hle (UInt64.not_le.2 hnewer)
  · rw [hasSyncUpdate, hnone] at hsync
    cases hsync

/-! ## The periods of both updates -/

theorem validPeriod_iff {store : LightClientStore} :
    validPeriod store update = true ↔
      calcSyncPeriod update.signatureSlot = calcSyncPeriod store.finalizedHeader.slot ∨
        (calcSyncPeriod update.signatureSlot = calcSyncPeriod store.finalizedHeader.slot + 1 ∧
          store.nextSyncCommittee.isSome = true) := by
  refine ⟨validPeriod_cases, ?_⟩
  unfold validPeriod
  rintro (h | ⟨h, hs⟩)
  · simp [h]
  · simp [h, hs]

/-- **Following the first update does not change what becomes of the second**: either the period
    stays, or the committees rotate and the second update, which is no older than the new
    finality, is signed in the new period. -/
theorem validPeriod_applied {first second : GenericUpdate} (hs : Supermajority first)
    (hnone : first.nextSyncCommittee = none)
    (hcurrent : client.store.finalizedHeader.slot ≤ updateFinalizedSlot first)
    (hsigned : updateFinalizedSlot first ≤ first.signatureSlot)
    (hsecond : updateFinalizedSlot first ≤ second.signatureSlot)
    (hperiod : validPeriod client.store first = true)
    (happly : client.applyGenericUpdate k now now' first = .ok client') :
    validPeriod client'.store second = validPeriod client.store second := by
  rcases UInt64.lt_or_eq_of_le hcurrent with hnewer | heq
  · obtain ⟨hheader, hnext⟩ := applied_newer hs hnone hnewer happly
    have hfin := updateFinalizedSlot_some hheader
    have hge := calcSyncPeriod_mono hcurrent
    have hFs := calcSyncPeriod_mono hsigned
    have hF2 := calcSyncPeriod_mono hsecond
    have hsucc := calcSyncPeriod_succ_toNat client.store.finalizedHeader.slot
    rw [Bool.eq_iff_iff, validPeriod_iff, validPeriod_iff, ← hfin, hnext]
    rw [validPeriod_iff] at hperiod
    split
    · rename_i hrotates
      have hsome : client.store.nextSyncCommittee.isSome = true := by
        rcases hperiod with hp | ⟨_, hp⟩
        · rw [UInt64.le_iff_toNat_le, hrotates, hp, hsucc] at hFs
          omega
        · exact hp
      have hne : calcSyncPeriod second.signatureSlot ≠
          calcSyncPeriod client.store.finalizedHeader.slot := by
        intro hp
        rw [UInt64.le_iff_toNat_le, hrotates, hp, hsucc] at hF2
        omega
      simp [hrotates, hsome, hne]
    · rename_i hstays
      have hsame : calcSyncPeriod (updateFinalizedSlot first) =
          calcSyncPeriod client.store.finalizedHeader.slot :=
        period_between hge hFs (hperiod.imp_right And.left) hstays
      rw [hsame]
  · have hsame := applied_same hnone (UInt64.le_of_eq heq.symm) happly
    rw [Bool.eq_iff_iff, validPeriod_iff, validPeriod_iff, hsame.finalizedHeader, hsame.next]

/-! ## One call -/

/-- An honest server during one `advance`: it has a current finality update, a newer head, and the
    update of the period it has finalized, all of the true chain. -/
structure HonestServer (k : ConsensusCrates) (config : Config) (comm : UInt64 → SyncCommittee)
    (client : ConsensusClient) (w : World) (finality : FinalityUpdate)
    (optimistic : OptimisticUpdate) (update : Update) : Prop where
  answers_finality : (w 0).rpc.getFinalityUpdate = .ok finality
  answers_optimistic : (w 4).rpc.getOptimisticUpdate = .ok optimistic
  answers_update : (w 8).rpc.getUpdates (calcSyncPeriod finality.finalizedHeader.slot) 1 =
    .ok [update]
  genuine_finality : Genuine k config comm (w 0).now finality.toGeneric
  genuine_optimistic : Genuine k config comm (w 4).now optimistic.toGeneric
  genuine_update : Genuine k config comm (w 8).now update.toGeneric
  /-- The finality update is the newest there is, and its block finalizes an earlier one. -/
  current : client.store.finalizedHeader.slot ≤ finality.finalizedHeader.slot
  newest : update.finalizedHeader.slot ≤ finality.finalizedHeader.slot
  justified : finality.finalizedHeader.slot < finality.attestedHeader.slot
  head : finality.finalizedHeader.slot < optimistic.attestedHeader.slot
  /-- Time passes, within what a `chrono::Duration` holds. -/
  clock : ∀ i j, i ≤ j → (w i).now ≤ (w j).now
  range : ∀ i, (w i).now ≤ maxDuration

section Call

variable {w : World}

/-- A genuine update, verified and applied: the call fails at once, or applies it. -/
theorem genuine_verifyAndApply (htrue : TrueCommittees k config checkpoint comm)
    (hreach : (lightClient k config checkpoint).Reachable client) (hrpc : update.FromRpc)
    (hnewer : client.store.finalizedHeader.slot < update.attestedHeader.slot)
    (h : Genuine k config comm (w 0).now update) (hle : (w 0).now ≤ (w 1).now)
    (hle' : (w 1).now ≤ (w 2).now) (hrange : (w 2).now ≤ maxDuration) :
    (validPeriod client.store update = false ∧
        verifyAndApply k w update client =
          (.error (.err (.consensus .invalidPeriod)), client)) ∨
      (validPeriod client.store update = true ∧
        ∃ client', verifyAndApply k w update client = (.ok (), client') ∧
          client.applyGenericUpdate k (w 1).now (w 2).now update = .ok client' ∧
          (lightClient k config checkpoint).Reachable client') := by
  have hconfig := (lightClient_config hreach).1
  have ha := reachable_aligned htrue hreach
  cases hperiod : validPeriod client.store update with
  | false =>
    left
    have hverify := genuine_verify hconfig ha h
    rw [hperiod, if_pos rfl] at hverify
    exact ⟨rfl, by rw [verifyAndApply, hverify]; rfl⟩
  | true =>
    right
    have hverify := (genuine_accepted hconfig ha h hnewer).2 hperiod
    obtain ⟨client', happly⟩ := genuine_apply_total hconfig (h.mono hle) hle' hrange
    refine ⟨rfl, client', ?_, happly, hreach.step ⟨update, hrpc, ⟨_, hverify⟩, _, _, happly⟩⟩
    rw [verifyAndApply, hverify]
    simp only [Attempt.request, happly]

/-- Fetching the next committee never fails, and leaves finality alone. -/
theorem fetchCommittee_honest {u : Update} (htrue : TrueCommittees k config checkpoint comm)
    (hreach : (lightClient k config checkpoint).Reachable client)
    (hanswer : (w 0).rpc.getUpdates (calcSyncPeriod client.store.finalizedHeader.slot) 1 =
      .ok [u])
    (h : Genuine k config comm (w 0).now u.toGeneric)
    (hold : u.finalizedHeader.slot ≤ client.store.finalizedHeader.slot)
    (hclock : ∀ i j, i ≤ j → (w i).now ≤ (w j).now) (hrange : ∀ i, (w i).now ≤ maxDuration) :
    ∃ client', fetchCommittee k w client = (.ok (), client') ∧
      client'.store.finalizedHeader = client.store.finalizedHeader := by
  have hconfig := (lightClient_config hreach).1
  have ha := reachable_aligned htrue hreach
  unfold fetchCommittee
  cases hn : client.store.nextSyncCommittee with
  | some committee => exact ⟨client, if_neg (by simp), rfl⟩
  | none =>
    simp only [Option.isNone_none, if_true, hanswer, answer, Attempt.request]
    rw [genuine_verify hconfig ha (h.mono (hclock 0 1 (by omega)))]
    cases hperiod : validPeriod client.store u.toGeneric with
    | false => exact ⟨client, rfl, rfl⟩
    | true =>
      cases hrel : relevant client.store u.toGeneric with
      | false => exact ⟨client, rfl, rfl⟩
      | true =>
        obtain ⟨client', happly⟩ := genuine_apply_total hconfig (h.mono (hclock 0 2 (by omega)))
          (hclock 2 3 (by omega)) (hrange 3)
        refine ⟨client', ?_, applied_not_newer happly hold⟩
        simp only [Bool.true_eq_false, if_false, happly]

end Call

/-- **When `advance` recovers.**  From every reachable store, behind an honest server, `advance`
    succeeds with the served finalized header if and only if both served updates are signed in the
    store's period, or in the one after it while the next committee is known. -/
theorem advance_recovers_iff (k : ConsensusCrates) (config : Config) (checkpoint : Bytes)
    (comm : UInt64 → SyncCommittee) (final : UInt64 → Header)
    (htrue : TrueCommittees k config checkpoint comm)
    (hheaders : TrueHeaders k config checkpoint comm final) (client : ConsensusClient)
    (hreach : (lightClient k config checkpoint).Reachable client) (w : World)
    (finality : FinalityUpdate) (optimistic : OptimisticUpdate) (update : Update)
    (honest : HonestServer k config comm client w finality optimistic update) :
    ((advance k w client).1 = .ok () ∧
        (advance k w client).2.store.finalizedHeader = finality.finalizedHeader) ↔
      validPeriod client.store finality.toGeneric = true ∧
        validPeriod client.store optimistic.toGeneric = true := by
  have hclock := honest.clock
  rcases genuine_verifyAndApply (w := w.drop 1) htrue hreach (.finality finality)
      (UInt64.lt_of_le_of_lt honest.current honest.justified)
      (honest.genuine_finality.mono (hclock 0 1 (by omega))) (hclock 1 2 (by omega))
      (hclock 2 3 (by omega)) (honest.range 3) with
    ⟨hperiod, hfirst⟩ | ⟨hperiod, mid, hfirst, happly, hmid⟩
  · have hadvance : advance k w client = (.error (.err (.consensus .invalidPeriod)), client) := by
      simp only [advance, followHead, honest.answers_finality, answer, Attempt.request, hfirst,
        Attempt.andThen]
    rw [hadvance, hperiod]
    simp
  have hs := honest.genuine_finality.signed.1
  have hfinal : mid.store.finalizedHeader = finality.finalizedHeader := by
    rcases UInt64.lt_or_eq_of_le honest.current with hnewer | heq
    · exact (Option.some.inj (applied_newer hs rfl hnewer happly).1).symm
    · have hle : updateFinalizedSlot finality.toGeneric ≤ client.store.finalizedHeader.slot :=
        UInt64.le_of_eq heq.symm
      rw [(applied_same rfl hle happly).finalizedHeader, reachable_final htrue hheaders hreach, heq]
      exact (hheaders.signed _ _ _ honest.genuine_finality.signed rfl rfl
        honest.genuine_finality.finality).symm
  have hsecond : validPeriod mid.store optimistic.toGeneric =
      validPeriod client.store optimistic.toGeneric :=
    validPeriod_applied hs rfl honest.current
      (UInt64.le_of_lt (UInt64.lt_trans honest.justified honest.genuine_finality.attested_lt))
      (UInt64.le_of_lt (UInt64.lt_trans honest.head honest.genuine_optimistic.attested_lt)) hperiod happly
  rcases genuine_verifyAndApply (w := w.drop 5) htrue hmid (.optimistic optimistic)
      (by rw [hfinal]; exact honest.head)
      (honest.genuine_optimistic.mono (hclock 4 5 (by omega))) (hclock 5 6 (by omega))
      (hclock 6 7 (by omega)) (honest.range 7) with
    ⟨hperiod', hlast⟩ | ⟨hperiod', last, hlast, happly', hreach'⟩
  · have hadvance : advance k w client = (.error (.err (.consensus .invalidPeriod)), mid) := by
      simp only [advance, followHead, honest.answers_finality, honest.answers_optimistic, answer,
        Attempt.request, hfirst, Attempt.andThen, hlast]
    rw [hadvance, ← hsecond, hperiod']
    simp
  · have hlastFinal : last.store.finalizedHeader = finality.finalizedHeader := by
      rw [(applied_same rfl UInt64.zero_le happly').finalizedHeader, hfinal]
    obtain ⟨done, hdone, hsame⟩ := fetchCommittee_honest (w := w.drop 8) htrue hreach'
      (by rw [hlastFinal]; exact honest.answers_update) honest.genuine_update
      (by rw [hlastFinal]; exact honest.newest) (fun i j hij => hclock _ _ (by omega))
      (fun i => honest.range _)
    have hadvance : advance k w client = (.ok (), done) := by
      simp only [advance, followHead, honest.answers_finality, honest.answers_optimistic, answer,
        Attempt.request, hfirst, Attempt.andThen, hlast, hdone]
    rw [hadvance, ← hsecond, hperiod', hperiod]
    simp [hsame, hlastFinal]

/-! ## A checkpoint in the next period -/

/-- A header of period 782, one after the period of `checkpointHeader`, on the same state root. -/
def laterCheckpoint : Header where
  slot := 6406176
  proposerIndex := 0
  parentRoot := checkpointHeader.parentRoot
  stateRoot := checkpointHeader.stateRoot
  bodyRoot := beBytes 32 0x230d8358dc8e8890b4c58deeb62912ee2f20357ae92a5cc861b98e68fe31acb5

def laterCheckpointRoot : Bytes32 :=
  beBytes 32 0x1e3fb08f0a0cf0d93f49062131dd4b22c09486e92b195d1538e93cbdc90cc6bb

/-- A header three epochs later, whose state finalizes it and has a next committee. -/
def justifiedHeader : Header where
  slot := 6406272
  proposerIndex := 0
  parentRoot := checkpointHeader.parentRoot
  stateRoot := beBytes 32 0x9373fc8e5170b484f1cae4f567394581aa5e83d3ed8287c613e6e5bfb766db33
  bodyRoot := beBytes 32 0x230d8358dc8e8890b4c58deeb62912ee2f20357ae92a5cc861b98e68fe31acb5

def justifiedRoot : Bytes32 :=
  beBytes 32 0x8006cfad561c270be3c0db69bb34eda7a449a227125a9228f24d9b20ba3440ce

def justifiedSigningRoot : Bytes32 :=
  beBytes 32 0xd7729c401d9c4632685104c9a24fdd8537dd38723c9a50662ae82b8665c6fd22

/-- The signature of all 512 members. -/
def justifiedSignature : SignatureBytes :=
  beBytes 96 0x8fa58113a9dc4c92608cce4d8e6b87ecbfb1ba9e122270298a5c7ddd18cfe234b7849fd8f49c5045eeb4a34a2a29dbb415e223eb865f480a08dc18040387ae2b2ad76ef9a3c0e0eb45715aa563f5740b049beacad9d6c2df999fee960a455ba2

/-- The four hashes that both branches of the state share, from the bottom to the top. -/
def sharedBranch : List Bytes32 :=
  [beBytes 32 0xc78009fdf07fc56a11f122370658a353aaa542ed63e44c4bc15ff4cd105ab33c,
    beBytes 32 0x536d98837f2dd165a55d5eeae91485954472d56f246df256bf3cae19352a123c,
    beBytes 32 0x9efde052aa15429fae05bad4d0b1d7c64da64d03d7a1854a588c2cb8430c0d30]

def zeroPairHash : Bytes32 :=
  beBytes 32 0xf5a5fd42d16a20302798ef6ed309979b43003d2320d9f0e8ea9831a92759fb4b

def justifiedFinalityBranch : List Bytes32 :=
  zeroBytes 32 :: zeroPairHash ::
    beBytes 32 0x034db2c931978d1fdfb2de6e474ad9cf1e85cfb18665c0ce4191964b2a61e690 :: sharedBranch

def justifiedCommitteeBranch : List Bytes32 :=
  zeroPairHash :: beBytes 32 0xb2c226bb1192637ed7e83e879b10b11aebf0866e62794baf86b10d993321fbe1 ::
    sharedBranch

/-- All members take part. -/
def allBits : Vector Bool 512 :=
  ⟨(List.replicate 512 true).toArray, by rw [List.size_toArray, List.length_replicate]⟩

theorem allBits_getBits : getBits allBits = 512 := by
  decide +kernel

/-- The roots and branches of both checkpoints, and the one signature. -/
def periodCrates : ConsensusCrates where
  headerRoot header := [(checkpointHeader, checkpointRoot), (laterCheckpoint, laterCheckpointRoot),
    (justifiedHeader, justifiedRoot)].lookup header
  blockRoot _ := none
  committeeRoot := memberRoots
  signingDataRoot root domain := [((justifiedRoot, capellaDomain), justifiedSigningRoot)].lookup
    (root, domain)
  forkDataRoot version root :=
    if version = mainnet.forks.capella.forkVersion ∧ root = mainnet.chain.genesisRoot then
      some (beBytes 32 0xbba4da96354c9f25476cf1bc69bf583a7f9e0af049305b62de676640e84b3899)
    else none
  isValidMerkleBranch leaf branch depth index root :=
    decide ((leaf, branch, depth, index, root) ∈
      [(memberCommitteeRoot, List.replicate 5 (zeroBytes 32), 5, 22, checkpointHeader.stateRoot),
        (laterCheckpointRoot, justifiedFinalityBranch, 6, 41, justifiedHeader.stateRoot),
        (memberCommitteeRoot, justifiedCommitteeBranch, 5, 23, justifiedHeader.stateRoot)])
  PublicKey := Bytes
  publicKey pk := if pk = memberKey then some pk.toList else none
  Signature := Bytes
  signature sig := some sig.toList
  fastAggregateVerify sig msg pks :=
    decide ((sig, msg, pks) = (justifiedSignature.toList, justifiedSigningRoot.toList,
      List.replicate 512 memberKey.toList))

def justifiedUpdate : Update where
  attestedHeader := justifiedHeader
  nextSyncCommittee := memberCommittee
  nextSyncCommitteeBranch := justifiedCommitteeBranch
  finalizedHeader := laterCheckpoint
  finalityBranch := justifiedFinalityBranch
  syncAggregate := ⟨allBits, justifiedSignature⟩
  signatureSlot := 6406273

def justifiedFinality : FinalityUpdate where
  attestedHeader := justifiedHeader
  finalizedHeader := laterCheckpoint
  finalityBranch := justifiedFinalityBranch
  syncAggregate := ⟨allBits, justifiedSignature⟩
  signatureSlot := 6406273

def justifiedOptimistic : OptimisticUpdate where
  attestedHeader := justifiedHeader
  syncAggregate := ⟨allBits, justifiedSignature⟩
  signatureSlot := 6406273

/-- An honest server, one slot after the header. -/
def justifiedMoment : Moment where
  now := 1683699311
  rpc :=
    { checkpointRpc with
      getUpdates := fun _ _ => .ok [justifiedUpdate]
      getFinalityUpdate := .ok justifiedFinality
      getOptimisticUpdate := .ok justifiedOptimistic }
  executionChainId := .ok 1

theorem getParticipatingKeys_replicate {committee : SyncCommittee} {bits : Vector Bool 512}
    {pk : BLSPubKey} {key : k.PublicKey} {n : Nat}
    (hall : participatingPubkeys committee bits = List.replicate n pk)
    (hkey : k.publicKey pk = some key) :
    getParticipatingKeys k committee bits = .ok (List.replicate n key) := by
  rw [getParticipatingKeys, hall]
  clear hall
  induction n with
  | zero => rfl
  | succ n ih => simp only [List.replicate_succ, collectResults, hkey, ih]

theorem period_signed {update : GenericUpdate}
    (hbits : update.syncAggregate = ⟨allBits, justifiedSignature⟩)
    (hattested : update.attestedHeader = justifiedHeader)
    (hslot : update.signatureSlot = 6406273) :
    SignedBy periodCrates mainnet memberCommittee update := by
  have hkeys : getParticipatingKeys periodCrates memberCommittee allBits =
      .ok (List.replicate 512 memberKey.toList) :=
    getParticipatingKeys_replicate (by decide +kernel) (if_pos rfl)
  have hsig : verifySyncCommitteeSignture periodCrates mainnet
      (List.replicate 512 memberKey.toList) justifiedHeader justifiedSignature 6406273 = true := by
    decide +kernel
  have hmajority : Supermajority update := by
    rw [Supermajority, participants, hbits]
    decide +kernel
  unfold SignedBy
  rw [hbits, hattested, hslot]
  exact ⟨hmajority, _, hkeys, hsig⟩

theorem period_committee_of_proof {header : Header} {committee : SyncCommittee}
    {branch : List Bytes32} {depth index : Nat}
    (h : isProofValid periodCrates header (periodCrates.committeeRoot committee) branch depth
      index = true) : committee = memberCommittee := by
  have hroot : periodCrates.committeeRoot = memberRoots := rfl
  by_contra hne
  simp [hroot, memberRoots, hne, isProofValid] at h

theorem period_true_committees (checkpoint : Bytes) :
    TrueCommittees periodCrates mainnet checkpoint fun _ => memberCommittee where
  bootstrap := by
    rintro client ⟨w, client₀, _, _, hboot⟩
    obtain ⟨boot, _, _, _, hvalid, rfl⟩ := bootstrap_ok hboot
    exact period_committee_of_proof hvalid
  signed _ _ _ _ _ _ hvalid := period_committee_of_proof hvalid

/-- The finalized header of a slot. -/
def periodFinal (slot : UInt64) : Header :=
  if slot = 6400000 then checkpointHeader
  else if slot = 6406272 then justifiedHeader else laterCheckpoint

theorem period_header {header : Header} {root : Bytes32}
    (h : periodCrates.headerRoot header = some root) : header = periodFinal header.slot := by
  have hmem : (header, root) ∈ [(checkpointHeader, checkpointRoot),
      (laterCheckpoint, laterCheckpointRoot), (justifiedHeader, justifiedRoot)] := by
    obtain ⟨l₁, l₂, hl, _⟩ := List.lookup_eq_some_iff.1 h
    rw [hl]
    exact List.mem_append_right _ List.mem_cons_self
  simp only [List.mem_cons, Prod.mk.injEq, List.not_mem_nil, or_false] at hmem
  rcases hmem with ⟨rfl, _⟩ | ⟨rfl, _⟩ | ⟨rfl, _⟩ <;> rfl

theorem period_true_headers (checkpoint : Bytes) :
    TrueHeaders periodCrates mainnet checkpoint (fun _ => memberCommittee) periodFinal where
  bootstrap := by
    rintro client ⟨w, client₀, _, _, hboot⟩
    obtain ⟨boot, _, hroot, _, _, rfl⟩ := bootstrap_ok hboot
    exact period_header hroot
  signed update header branch _ _ _ hvalid := by
    unfold isFinalityProofValid isProofValid at hvalid
    split at hvalid
    · rename_i root hroot
      exact period_header hroot
    · cases hvalid

theorem period_finality :
    isFinalityProofValid periodCrates justifiedHeader laterCheckpoint justifiedFinalityBranch =
      true := by
  decide +kernel

theorem period_next_committee : isNextCommitteeProofValid periodCrates justifiedHeader
    memberCommittee justifiedCommitteeBranch = true := by
  have hroot : periodCrates.committeeRoot = memberRoots := rfl
  rw [isNextCommitteeProofValid, hroot, memberRoots_member, isProofValid.eq_def]
  decide +kernel

theorem justified_honest {client : ConsensusClient}
    (hcurrent : client.store.finalizedHeader.slot ≤ 6406176) :
    HonestServer periodCrates mainnet (fun _ => memberCommittee) client (fun _ => justifiedMoment)
      justifiedFinality justifiedOptimistic justifiedUpdate where
  answers_finality := rfl
  answers_optimistic := rfl
  answers_update := rfl
  genuine_finality := ⟨period_signed rfl rfl rfl, by decide, by decide,
    by decide, period_finality, rfl⟩
  genuine_optimistic := ⟨period_signed rfl rfl rfl, by decide, by decide,
    by decide, rfl, rfl⟩
  genuine_update := ⟨period_signed rfl rfl rfl, by decide, by decide,
    by decide, period_finality, period_next_committee⟩
  current := hcurrent
  newest := by decide
  justified := by decide
  head := by decide
  clock _ _ _ := UInt64.le_refl _
  range _ := by decide

/-- The client of a checkpoint with this root and header. -/
def startedAt (root : Bytes32) (header : Header) : ConsensusClient :=
  { ConsensusClient.new root.toList mainnet with
    store :=
      { finalizedHeader := header
        currentSyncCommittee := memberCommittee
        nextSyncCommittee := none
        optimisticHeader := header
        previousMaxActiveParticipants := 0
        currentMaxActiveParticipants := 0 } }

/-- A server with the bootstrap of a header. -/
def startMoment (header : Header) : Moment :=
  { justifiedMoment with
    rpc := { justifiedMoment.rpc with
      getBootstrap := fun _ => .ok ⟨header, memberCommittee, List.replicate 5 (zeroBytes 32)⟩ } }

theorem startedAt_bootstrap {root : Bytes32} {header : Header}
    (hroot : periodCrates.headerRoot header = some root)
    (hstate : header.stateRoot = checkpointHeader.stateRoot)
    (hage : (ConsensusClient.new root.toList mainnet).isValidCheckpoint 1683699311 header.slot =
      .ok true) :
    bootstrap periodCrates (fun _ => startMoment header) (ConsensusClient.new root.toList mainnet) =
      (.ok (), startedAt root header) := by
  have hcommittee : isCurrentCommitteeProofValid periodCrates header memberCommittee
      (List.replicate 5 (zeroBytes 32)) = true := by
    have hroots : periodCrates.committeeRoot = memberRoots := rfl
    rw [isCurrentCommitteeProofValid, hroots, memberRoots_member, isProofValid.eq_def]
    simp only [hstate]
    decide
  have hboot := @bootstrap_of_valid periodCrates (ConsensusClient.new root.toList mainnet)
    (fun _ => startMoment header) _ _ rfl hage hroot rfl hcommittee
  exact hboot

theorem startedAt_reachable {root : Bytes32} {header : Header}
    (hroot : periodCrates.headerRoot header = some root)
    (hstate : header.stateRoot = checkpointHeader.stateRoot)
    (hage : (ConsensusClient.new root.toList mainnet).isValidCheckpoint 1683699311 header.slot =
      .ok true) :
    (lightClient periodCrates mainnet root.toList).Reachable (startedAt root header) :=
  .init ⟨_, _, rfl, rfl, startedAt_bootstrap hroot hstate hage⟩

/-- The client of the later checkpoint. -/
def laterClient : ConsensusClient := startedAt laterCheckpointRoot laterCheckpoint

theorem laterClient_bootstrap :
    bootstrap periodCrates (fun _ => startMoment laterCheckpoint)
      (ConsensusClient.new laterCheckpointRoot.toList mainnet) = (.ok (), laterClient) :=
  startedAt_bootstrap (by decide) rfl (by decide)

theorem laterClient_reachable :
    (lightClient periodCrates mainnet laterCheckpointRoot.toList).Reachable laterClient :=
  .init ⟨_, _, rfl, rfl, laterClient_bootstrap⟩

/-- Started in the server's period, the client follows it. -/
theorem advance_recovers_followed :
    (advance periodCrates (fun _ => justifiedMoment)
        (startedAt laterCheckpointRoot laterCheckpoint)).1 = .ok () ∧
      (advance periodCrates (fun _ => justifiedMoment)
        (startedAt laterCheckpointRoot laterCheckpoint)).2.store.finalizedHeader =
          laterCheckpoint :=
  (advance_recovers_iff periodCrates mainnet laterCheckpointRoot.toList (fun _ => memberCommittee)
    periodFinal (period_true_committees _) (period_true_headers _)
    (startedAt laterCheckpointRoot laterCheckpoint) laterClient_reachable (fun _ => justifiedMoment)
    justifiedFinality justifiedOptimistic justifiedUpdate
    (justified_honest (by decide))).2 ⟨by decide, by decide⟩

/-- Started one period before it, with the next committee still unknown, it does not. -/
theorem advance_stuck :
    ¬ ∀ (k : ConsensusCrates) (config : Config) (checkpoint : Bytes)
      (comm : UInt64 → SyncCommittee) (final : UInt64 → Header),
      TrueCommittees k config checkpoint comm → TrueHeaders k config checkpoint comm final →
      ∀ client, (lightClient k config checkpoint).Reachable client →
      ∀ (w : World) (finality : FinalityUpdate) (optimistic : OptimisticUpdate) (update : Update),
        HonestServer k config comm client w finality optimistic update →
          (advance k w client).1 = .ok () ∧
            (advance k w client).2.store.finalizedHeader = finality.finalizedHeader := by
  intro h
  have hreach : (lightClient periodCrates mainnet checkpointRoot.toList).Reachable
      (startedAt checkpointRoot checkpointHeader) :=
    startedAt_reachable (by decide) rfl (by decide)
  have hboth := h periodCrates mainnet checkpointRoot.toList (fun _ => memberCommittee) periodFinal
    (period_true_committees _) (period_true_headers _) (startedAt checkpointRoot checkpointHeader)
    hreach (fun _ => justifiedMoment) justifiedFinality justifiedOptimistic justifiedUpdate
    (justified_honest (by decide))
  have hfails : (advance periodCrates (fun _ => justifiedMoment)
      (startedAt checkpointRoot checkpointHeader)).1 =
        .error (.err (.consensus .invalidPeriod)) := by
    decide +kernel
  rw [hfails] at hboth
  cases hboth.1

end ConsensusClient

end Helios
