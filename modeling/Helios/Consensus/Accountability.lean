import Helios.Consensus.Members
import Helios.Consensus.Replay

/-!
# Who is at fault when two clients disagree

Nobody is trusted here but the checkpoint: committees may sign anything.

* `Appointed` — the committees that a checkpoint leads to, each signed for by two thirds of the one
  before; `standing_step`, `reachable_standing` — a client only ever has such committees.
* `SignedBoth`, `Split` — members who signed for two updates, and a committee that was handed on
  twice.
* `appointed_unique` — two committees of one period take a split one.
* `accountable` — **whenever two clients of one checkpoint disagree on a committee, or accept two
  updates of one period, many members of one committee have signed for both sides**.
-/

set_option autoImplicit false

namespace Helios

namespace ConsensusClient

open Quorum

variable {k : ConsensusCrates} {config : Config} {checkpoint : Bytes}
  {Signed : k.PublicKey → Bytes → Prop} {client client' : ConsensusClient} {now : UInt64}
  {update update' : GenericUpdate} {committee committee' : SyncCommittee} {period : Nat}

/-! ## How the committees of a store change -/

/-- What an accepted update does to the committees: nothing, or the next one is filled in, or they
    rotate; and in which periods the update is attested and signed then. -/
inductive Handover (k : ConsensusCrates) (client : ConsensusClient) (update : GenericUpdate)
    (client' : ConsensusClient) : Prop
  | kept (period : calcSyncPeriod client'.store.finalizedHeader.slot =
        calcSyncPeriod client.store.finalizedHeader.slot)
      (current : client'.store.currentSyncCommittee = client.store.currentSyncCommittee)
      (next : client'.store.nextSyncCommittee = client.store.nextSyncCommittee)
  | filled (now : UInt64) (accepted : Accepted k client now update) (super : Supermajority update)
      (attested : calcSyncPeriod update.attestedHeader.slot =
        calcSyncPeriod client.store.finalizedHeader.slot)
      (signature : calcSyncPeriod update.signatureSlot =
        calcSyncPeriod client.store.finalizedHeader.slot)
      (period : calcSyncPeriod client'.store.finalizedHeader.slot =
        calcSyncPeriod client.store.finalizedHeader.slot)
      (current : client'.store.currentSyncCommittee = client.store.currentSyncCommittee)
      (next : client'.store.nextSyncCommittee = update.nextSyncCommittee)
  | rotated (now : UInt64) (accepted : Accepted k client now update) (super : Supermajority update)
      (known : client.store.nextSyncCommittee = some client'.store.currentSyncCommittee)
      (attested : calcSyncPeriod update.attestedHeader.slot =
        calcSyncPeriod client.store.finalizedHeader.slot + 1)
      (signature : calcSyncPeriod update.signatureSlot =
        calcSyncPeriod client.store.finalizedHeader.slot + 1)
      (period : calcSyncPeriod client'.store.finalizedHeader.slot =
        calcSyncPeriod client.store.finalizedHeader.slot + 1)
      (next : client'.store.nextSyncCommittee = update.nextSyncCommittee)

theorem SameFinality.handover (h : SameFinality client client') :
    Handover k client update client' :=
  .kept (by rw [h.finalizedHeader]) h.current h.next

/-- An update that is attested in the period after the store's is signed there. -/
theorem Accepted.signature_next (hacc : Accepted k client now update)
    (hattested : calcSyncPeriod update.attestedHeader.slot =
      calcSyncPeriod client.store.finalizedHeader.slot + 1) :
    calcSyncPeriod update.signatureSlot =
      calcSyncPeriod client.store.finalizedHeader.slot + 1 := by
  refine UInt64.le_antisymm ?_ (hattested ▸ hacc.periods.2)
  rcases validPeriod_cases hacc.period with heq | ⟨heq, _⟩
  · rw [heq, UInt64.le_iff_toNat_le, calcSyncPeriod_succ_toNat]
    omega
  · rw [heq]
    exact UInt64.le_refl _

theorem step_handover (hstep : UpdateStep k client update client') :
    Handover k client update client' := by
  rcases hstep.supermajority with hs | hsame
  case inr => exact hsame.handover
  obtain ⟨_, ⟨now, hverify⟩, now', now'', happly⟩ := hstep
  have hacc := verifyGenericUpdate_ok hverify
  obtain ⟨mid, hmid, hcases⟩ := applyGenericUpdate_ok happly
  have hsame := raiseParticipants_same.trans (applyOptimistic_same hmid)
  rcases hcases with ⟨_, rfl⟩ | ⟨hshould, rotated, hrotated, hfinal⟩
  · exact hsame.handover
  have hnewer := (shouldApplyUpdate_iff.1 hshould).2
  rw [hsame.next, hsame.finalizedHeader] at hnewer
  rcases applyCommittee_ok hrotated with
    ⟨hn, rfl⟩ | ⟨committee, hn, hp, rfl⟩ | ⟨committee, hn, hp, rfl⟩
  · -- the next committee was unknown: signed, attested and finalized in the store's period
    rw [hsame.next] at hn
    have hattested := hacc.attested_period hn
    have hsignature := validPeriod_of_none hacc.period hn
    rcases applyFinalized_ok hfinal with ⟨_, rfl⟩ | ⟨hslot, header, hheader, rfl⟩
    · exact .filled now hacc hs hattested hsignature (by rw [hsame.finalizedHeader])
        hsame.current rfl
    · simp only [hsame.finalizedHeader, updateFinalizedSlot_some hheader] at hslot
      have hle := hacc.periods.1
      rw [hattested, updateFinalizedSlot_some hheader] at hle
      exact .filled now hacc hs hattested hsignature
        (UInt64.le_antisymm hle (calcSyncPeriod_mono (UInt64.le_of_lt hslot))) hsame.current rfl
  · -- the committees rotate: signed, attested and finalized in the next period
    rw [hsame.next] at hn
    rw [hsame.finalizedHeader] at hp
    have hattested := hacc.attested_next hp
    rcases hnewer with hslot | ⟨hnone, _⟩
    case inr => rw [hn] at hnone; cases hnone
    rcases applyFinalized_ok hfinal with ⟨hno, _⟩ | ⟨_, header, hheader, rfl⟩
    · simp only [hsame.finalizedHeader] at hno
      exact absurd hslot hno
    · rw [updateFinalizedSlot_some hheader] at hp
      exact .rotated now hacc hs hn hattested (hacc.signature_next hattested) hp rfl
  · -- both committees stay: the new finalized header is still in the store's period
    rw [hsame.next] at hn
    rw [hsame.finalizedHeader] at hp
    rcases hnewer with hslot | ⟨hnone, _⟩
    case inr => rw [hn] at hnone; cases hnone
    rcases applyFinalized_ok hfinal with ⟨_, rfl⟩ | ⟨_, header, hheader, rfl⟩
    · exact hsame.handover
    · have hperiod := hacc.finalized_period hslot hp
      rw [updateFinalizedSlot_some hheader] at hperiod
      exact .kept hperiod hsame.current hsame.next

/-! ## Committees of a checkpoint -/

/-- The update names a next committee, and proves that its attested header commits to it. -/
def NamesNext (k : ConsensusCrates) (update : GenericUpdate) (next : SyncCommittee) : Prop :=
  ∃ branch, update.nextSyncCommittee = some next ∧ update.nextSyncCommitteeBranch = some branch ∧
    isNextCommitteeProofValid k update.attestedHeader next branch = true

/-- The committees that a checkpoint leads to, by period: the one that its header commits to, and
    those named in an update that two thirds of the committee before signed in its own period. -/
inductive Appointed (k : ConsensusCrates) (config : Config) (checkpoint : Bytes) :
    Nat → SyncCommittee → Prop
  | checkpoint {header : Header} {root : Bytes32} {committee : SyncCommittee}
      {branch : List Bytes32} : k.headerRoot header = some root → root.toList = checkpoint →
      isCurrentCommitteeProofValid k header committee branch = true →
      Appointed k config checkpoint (calcSyncPeriod header.slot).toNat committee
  | next {period : Nat} {committee next : SyncCommittee} {update : GenericUpdate} :
      Appointed k config checkpoint period committee → SignedBy k config committee update →
      (calcSyncPeriod update.attestedHeader.slot).toNat = period →
      (calcSyncPeriod update.signatureSlot).toNat = period → NamesNext k update next →
      Appointed k config checkpoint (period + 1) next

/-- The committees of a store are appointed. -/
structure Standing (k : ConsensusCrates) (config : Config) (checkpoint : Bytes)
    (store : LightClientStore) : Prop where
  current : Appointed k config checkpoint (calcSyncPeriod store.finalizedHeader.slot).toNat
    store.currentSyncCommittee
  next : ∀ committee, store.nextSyncCommittee = some committee →
    Appointed k config checkpoint ((calcSyncPeriod store.finalizedHeader.slot).toNat + 1) committee

/-- The committee that signs an accepted update is the appointed one of the signature's period. -/
theorem Standing.signing (h : Standing k config checkpoint client.store)
    (hv : validPeriod client.store update = true)
    (hs : signingCommittee client.store update = .ok committee) :
    Appointed k config checkpoint (calcSyncPeriod update.signatureSlot).toNat committee := by
  unfold signingCommittee at hs
  split at hs
  · rename_i hp
    cases hs
    rw [hp]
    exact h.current
  · rename_i hp
    rcases validPeriod_cases hv with heq | ⟨heq, _⟩
    · exact absurd heq hp
    · split at hs
      · rename_i c hc
        cases hs
        rw [heq, calcSyncPeriod_succ_toNat]
        exact h.next _ hc
      · cases hs

/-- An accepted update is signed by an appointed committee. -/
theorem Accepted.appointed (hacc : Accepted k client now update) (hconfig : client.config = config)
    (h : Standing k config checkpoint client.store) : ∃ committee,
    Appointed k config checkpoint (calcSyncPeriod update.signatureSlot).toNat committee ∧
      VerifiesUnder k config committee update := by
  obtain ⟨committee, pks, hsigning, hpks, hsig⟩ := hacc.signature
  rw [hconfig] at hsig
  exact ⟨committee, h.signing hacc.period hsigning, pks, hpks, hsig⟩

/-- The next committee that it names is appointed too, if it is signed in its own period. -/
theorem next_appointed (hconfig : client.config = config)
    (h : Standing k config checkpoint client.store) (hacc : Accepted k client now update)
    (hrpc : update.FromRpc) (hs : Supermajority update)
    (hperiod : calcSyncPeriod update.signatureSlot = calcSyncPeriod update.attestedHeader.slot) :
    ∀ next, update.nextSyncCommittee = some next → Appointed k config checkpoint
      ((calcSyncPeriod update.attestedHeader.slot).toNat + 1) next := by
  intro next hnext
  obtain ⟨branch, hbranch⟩ := hrpc.committee_branch hnext
  have hproof := hacc.committee
  simp only [committeeProofOk, hnext, hbranch] at hproof
  obtain ⟨committee, happointed, hverifies⟩ := hacc.appointed hconfig h
  rw [hperiod] at happointed
  exact .next happointed ⟨hs, hverifies⟩ rfl (by rw [hperiod]) ⟨branch, hnext, hbranch, hproof⟩

/-- **One accepted update keeps the committees standing.** -/
theorem standing_step (hconfig : client.config = config)
    (h : Standing k config checkpoint client.store) (hstep : UpdateStep k client update client') :
    Standing k config checkpoint client'.store := by
  cases step_handover hstep with
  | kept hperiod hcurrent hnext =>
    constructor
    · rw [hperiod, hcurrent]
      exact h.current
    · rw [hperiod, hnext]
      exact h.next
  | filled now hacc hs hattested hsignature hperiod hcurrent hnext =>
    have hnamed := next_appointed hconfig h hacc hstep.1 hs (hsignature.trans hattested.symm)
    constructor
    · rw [hperiod, hcurrent]
      exact h.current
    · rw [hperiod, hnext, ← hattested]
      exact hnamed
  | rotated now hacc hs hknown hattested hsignature hperiod hnext =>
    have hnamed := next_appointed hconfig h hacc hstep.1 hs (hsignature.trans hattested.symm)
    constructor
    · rw [hperiod, calcSyncPeriod_succ_toNat]
      exact h.next _ hknown
    · rw [hperiod, hnext, ← hattested]
      exact hnamed

/-- **Every client of a checkpoint has appointed committees.** -/
theorem reachable_standing (h : (lightClient k config checkpoint).Reachable client) :
    Standing k config checkpoint client.store := by
  refine System.invariant (S := lightClient k config checkpoint)
    (I := fun c => Standing k config checkpoint c.store) ?_ ?_ h
  · rintro s ⟨w, client₀, _, rfl, hboot⟩
    obtain ⟨boot, root, hroot, heq, hvalid, rfl⟩ := bootstrap_ok hboot
    refine ⟨.checkpoint hroot heq hvalid, fun committee hnone => ?_⟩
    cases hnone
  · rintro s s' hreach hs ⟨update, hstep⟩
    exact standing_step (lightClient_config hreach).1 hs hstep

/-! ## Disagreement -/

/-- The keys of these members of a committee have signed for both updates. -/
def SignedBoth (k : ConsensusCrates) (config : Config) (Signed : k.PublicKey → Bytes → Prop)
    (committee : SyncCommittee) (update update' : GenericUpdate) (members : Finset (Fin 512)) :
    Prop :=
  ∀ i ∈ members, ∃ pk, k.publicKey (committee.pubkeys.get i) = some pk ∧
    SignsFor k config Signed pk update.attestedHeader update.signatureSlot ∧
    SignsFor k config Signed pk update'.attestedHeader update'.signatureSlot

/-- In its own period, a third of an appointed committee has signed for two headers that commit to
    different next committees. -/
structure Split (k : ConsensusCrates) (config : Config) (checkpoint : Bytes)
    (Signed : k.PublicKey → Bytes → Prop) (period : Nat) (committee : SyncCommittee)
    (update update' : GenericUpdate) : Prop where
  appointed : Appointed k config checkpoint period committee
  attested : (calcSyncPeriod update.attestedHeader.slot).toNat = period
  attested' : (calcSyncPeriod update'.attestedHeader.slot).toNat = period
  differ : ∃ next next', NamesNext k update next ∧ NamesNext k update' next' ∧ next ≠ next'
  members : ∃ members : Finset (Fin 512), 172 ≤ members.card ∧
    SignedBoth k config Signed committee update update' members

/-- Who has signed both of two updates that verify under one committee. -/
theorem VerifiesUnder.both (hsigned : Unforgeable k Signed)
    (h : VerifiesUnder k config committee update) (h' : VerifiesUnder k config committee update') :
    (participants update).toNat + (participants update').toNat ≤
        (signers update ∩ signers update').card + 512 ∧
      SignedBoth k config Signed committee update update' (signers update ∩ signers update') := by
  constructor
  · have hle := inter_of_card (signers update) (signers update')
    rwa [card_signers, card_signers, Fintype.card_fin] at hle
  · intro i hi
    obtain ⟨hmem, hmem'⟩ := Finset.mem_inter.1 hi
    obtain ⟨pk, hkey, hsigns⟩ := h.signs hsigned hmem
    obtain ⟨pk', hkey', hsigns'⟩ := h'.signs hsigned hmem'
    obtain rfl := Option.some.inj (hkey.symm.trans hkey')
    exact ⟨pk, hkey, hsigns, hsigns'⟩

/-- No committee is appointed for a period before the checkpoint's. -/
theorem Appointed.not_before {header : Header} {root : Bytes32}
    (hroots : ∀ header header' root, k.headerRoot header = some root →
      k.headerRoot header' = some root → header = header')
    (h : Appointed k config checkpoint period committee) (hroot : k.headerRoot header = some root)
    (heq : root.toList = checkpoint) : (calcSyncPeriod header.slot).toNat ≤ period := by
  induction h with
  | checkpoint hroot' heq' _ =>
    obtain rfl := Vector.toList_inj.1 (heq.trans heq'.symm)
    rw [hroots _ _ _ hroot hroot']
  | next _ _ _ _ _ ih => exact Nat.le_succ_of_le ih

/-- **Two committees of one period take a split one**, there or before. -/
theorem appointed_unique (hsigned : Unforgeable k Signed)
    (hroots : ∀ header header' root, k.headerRoot header = some root →
      k.headerRoot header' = some root → header = header')
    (hcurrent : ∀ header committee committee' branch branch',
      isCurrentCommitteeProofValid k header committee branch = true →
      isCurrentCommitteeProofValid k header committee' branch' = true → committee = committee')
    {period' : Nat} (h : Appointed k config checkpoint period committee)
    (h' : Appointed k config checkpoint period' committee') (heq : period = period') :
    committee = committee' ∨ ∃ period committee update update',
      Split k config checkpoint Signed period committee update update' := by
  induction h generalizing period' committee' with
  | checkpoint hroot hcheckpoint hvalid =>
    cases h' with
    | checkpoint hroot' hcheckpoint' hvalid' =>
      obtain rfl := Vector.toList_inj.1 (hcheckpoint.trans hcheckpoint'.symm)
      obtain rfl := hroots _ _ _ hroot hroot'
      exact Or.inl (hcurrent _ _ _ _ _ hvalid hvalid')
    | next happointed _ _ _ _ =>
      have hle := happointed.not_before hroots hroot hcheckpoint
      omega
  | @next period before next update happointed hby hattested hsignature hnames ih =>
    cases h' with
    | checkpoint hroot' hcheckpoint' _ =>
      have hle := happointed.not_before hroots hroot' hcheckpoint'
      omega
    | @next period' before' _ update' happointed' hby' hattested' hsignature' hnames' =>
      have hperiod : period = period' := Nat.succ.inj heq
      -- the committees before are one, or there is a split one already
      rcases ih happointed' hperiod with rfl | hsplit
      case inr => exact Or.inr hsplit
      by_cases hsame : next = committee'
      · exact Or.inl hsame
      obtain ⟨hcount, hboth⟩ := VerifiesUnder.both hsigned hby.2 hby'.2
      refine Or.inr ⟨period, before, update, update', happointed, hattested, ?_, ?_, ?_⟩
      · rw [hattested', hperiod]
      · exact ⟨next, committee', hnames, hnames', hsame⟩
      · refine ⟨_, ?_, hboth⟩
        have hsuper := hby.1
        have hsuper' := hby'.1
        unfold Supermajority at hsuper hsuper'
        omega

/-- **Accountability.**  Two clients of one checkpoint have the same committee in the same period,
    and of two updates that they accept in one period, all but 512 of the signers, counted
    together, are members of one committee who signed both; or else a third of some committee has
    signed, in one period, for two headers that commit to different next committees. -/
theorem accountable (k : ConsensusCrates) (config : Config) (checkpoint : Bytes)
    (Signed : k.PublicKey → Bytes → Prop) (hsigned : Unforgeable k Signed)
    (hroots : ∀ header header' root, k.headerRoot header = some root →
      k.headerRoot header' = some root → header = header')
    (hcurrent : ∀ header committee committee' branch branch',
      isCurrentCommitteeProofValid k header committee branch = true →
      isCurrentCommitteeProofValid k header committee' branch' = true → committee = committee')
    (client client' : ConsensusClient)
    (hreach : (lightClient k config checkpoint).Reachable client)
    (hreach' : (lightClient k config checkpoint).Reachable client') :
    ((calcSyncPeriod client.store.finalizedHeader.slot =
          calcSyncPeriod client'.store.finalizedHeader.slot →
        client.store.currentSyncCommittee = client'.store.currentSyncCommittee) ∧
      ∀ now now' update update', client.verifyGenericUpdate k now update = .ok () →
        client'.verifyGenericUpdate k now' update' = .ok () →
        calcSyncPeriod update.signatureSlot = calcSyncPeriod update'.signatureSlot →
        ∃ committee members, Appointed k config checkpoint
            (calcSyncPeriod update.signatureSlot).toNat committee ∧
          SignedBoth k config Signed committee update update' members ∧
          (participants update).toNat + (participants update').toNat ≤ members.card + 512) ∨
    ∃ period committee update update',
      Split k config checkpoint Signed period committee update update' := by
  have hstanding := reachable_standing hreach
  have hstanding' := reachable_standing hreach'
  by_cases hsplit : ∃ period committee update update',
      Split k config checkpoint Signed period committee update update'
  · exact Or.inr hsplit
  have hunique : ∀ {period period' committee committee'},
      Appointed k config checkpoint period committee →
      Appointed k config checkpoint period' committee' → period = period' →
      committee = committee' :=
    fun h h' heq => (appointed_unique hsigned hroots hcurrent h h' heq).resolve_right hsplit
  refine Or.inl ⟨fun hperiod => ?_, fun now now' update update' hverify hverify' hperiod => ?_⟩
  · exact hunique hstanding.current hstanding'.current (by rw [hperiod])
  · obtain ⟨committee, happointed, hverifies⟩ :=
      (verifyGenericUpdate_ok hverify).appointed (lightClient_config hreach).1 hstanding
    obtain ⟨committee', happointed', hverifies'⟩ :=
      (verifyGenericUpdate_ok hverify').appointed (lightClient_config hreach').1 hstanding'
    obtain rfl := hunique happointed happointed' (by rw [hperiod])
    obtain ⟨hcount, hboth⟩ := VerifiesUnder.both hsigned hverifies hverifies'
    exact ⟨committee, _, happointed, hboth, hcount⟩

/-! ## Two clients that agree -/

theorem period_roots (header header' : Header) (root : Bytes32)
    (h : periodCrates.headerRoot header = some root)
    (h' : periodCrates.headerRoot header' = some root) : header = header' := by
  have hdistinct : ([(checkpointHeader, checkpointRoot), (laterCheckpoint, laterCheckpointRoot),
      (justifiedHeader, justifiedRoot)].map Prod.snd).Nodup := by
    decide +kernel
  have hmem : ∀ {header}, periodCrates.headerRoot header = some root →
      (header, root) ∈ [(checkpointHeader, checkpointRoot),
        (laterCheckpoint, laterCheckpointRoot), (justifiedHeader, justifiedRoot)] := by
    intro header hroot
    obtain ⟨l₁, l₂, hl, _⟩ := List.lookup_eq_some_iff.1 hroot
    rw [hl]
    exact List.mem_append_right _ List.mem_cons_self
  have heq := List.inj_on_of_nodup_map hdistinct (hmem h) (hmem h') rfl
  exact congrArg Prod.fst heq

/-- One client accepts a finality update, another one, which has applied an update before, an
    optimistic update: all members have signed both. -/
theorem accountable_justified : ∃ committee members,
    Appointed periodCrates mainnet laterCheckpointRoot.toList
        (calcSyncPeriod justifiedFinality.toGeneric.signatureSlot).toNat committee ∧
      SignedBoth periodCrates mainnet memberSigned committee justifiedFinality.toGeneric
        justifiedOptimistic.toGeneric members ∧ 512 ≤ members.card := by
  have hverify : laterClient.verifyGenericUpdate periodCrates 1683699311
      justifiedFinality.toGeneric = .ok () := by
    decide +kernel
  have hverify' : informed.verifyGenericUpdate periodCrates 1683699323
      justifiedOptimistic.toGeneric = .ok () := by
    decide +kernel
  have hall : (participants justifiedFinality.toGeneric).toNat = 512 := by
    decide +kernel
  have hall' : (participants justifiedOptimistic.toGeneric).toNat = 512 := hall
  rcases accountable periodCrates mainnet laterCheckpointRoot.toList memberSigned
    member_unforgeable period_roots
    (fun _ _ _ _ _ h h' => (period_committee_of_proof h).trans (period_committee_of_proof h').symm)
    laterClient informed laterClient_reachable informed_reachable with
    ⟨_, hboth⟩ | ⟨_, _, _, _, hsplit⟩
  · obtain ⟨committee, members, happointed, hsigns, hcount⟩ :=
      hboth _ _ _ _ hverify hverify' rfl
    rw [hall, hall'] at hcount
    exact ⟨committee, members, happointed, hsigns, by omega⟩
  · -- all committees of this chain are the same, so nothing can be split
    obtain ⟨next, next', ⟨_, _, _, hnext⟩, ⟨_, _, _, hnext'⟩, hne⟩ := hsplit.differ
    have hsame := (period_committee_of_proof hnext).trans (period_committee_of_proof hnext').symm
    exact absurd hsame hne

end ConsensusClient

end Helios
