import Helios.Consensus.Steps

/-!
# The sync committees stay aligned with the finalized header

`apply_generic_update` takes the next committee from the update without looking at periods again;
what keeps it right is the chain `finalized ≤ attested < signature` and the period check, both made
by `verify_generic_update`.

* `Aligned` — the invariant: the current committee is the true one of the finalized period, and the
  next one, if known, the true one of the period after.
* `TrueCommittees` — what the checkpoint and the signers are trusted for.
* `aligned_step` — one accepted update keeps the invariant.
* `committees_aligned` — **every state of every run is aligned**, only a supermajority changes
  finality, no guarded unwrap panics, and failing calls stay inside the runs.
-/

set_option autoImplicit false

namespace Helios

namespace ConsensusClient

variable {k : ConsensusCrates} {config : Config} {checkpoint : Bytes}
  {comm : UInt64 → SyncCommittee} {client client' : ConsensusClient} {now now' : UInt64}
  {update : GenericUpdate}

/-- The committees of the store are the true ones for the finalized header. -/
structure Aligned (comm : UInt64 → SyncCommittee) (store : LightClientStore) : Prop where
  current : store.currentSyncCommittee = comm (calcSyncPeriod store.finalizedHeader.slot)
  next : store.nextSyncCommittee = none ∨
    store.nextSyncCommittee = some (comm (calcSyncPeriod store.finalizedHeader.slot + 1))

/-- At least two thirds of the committee signed the update. -/
def SignedBy (k : ConsensusCrates) (config : Config) (committee : SyncCommittee)
    (update : GenericUpdate) : Prop :=
  Supermajority update ∧ ∃ pks,
    getParticipatingKeys k committee update.syncAggregate.syncCommitteeBits = .ok pks ∧
    verifySyncCommitteeSignture k config pks update.attestedHeader
      update.syncAggregate.syncCommitteeSignature update.signatureSlot = true

/-- `comm` names the true committees: a bootstrap installs the one of its header, and two thirds of
    the true committee never sign for a wrong next committee. -/
structure TrueCommittees (k : ConsensusCrates) (config : Config) (checkpoint : Bytes)
    (comm : UInt64 → SyncCommittee) : Prop where
  bootstrap : ∀ client, (lightClient k config checkpoint).init client →
    client.store.currentSyncCommittee = comm (calcSyncPeriod client.store.finalizedHeader.slot)
  signed : ∀ update committee branch,
    SignedBy k config (comm (calcSyncPeriod update.signatureSlot)) update →
    update.nextSyncCommittee = some committee → update.nextSyncCommitteeBranch = some branch →
    isNextCommitteeProofValid k update.attestedHeader committee branch = true →
    committee = comm (calcSyncPeriod update.attestedHeader.slot + 1)

/-! ## Periods -/

/-- The order of the slots of an accepted update, as periods. -/
theorem Accepted.periods (h : Accepted k client now update) :
    calcSyncPeriod (updateFinalizedSlot update) ≤ calcSyncPeriod update.attestedHeader.slot ∧
      calcSyncPeriod update.attestedHeader.slot ≤ calcSyncPeriod update.signatureSlot :=
  ⟨calcSyncPeriod_mono h.finalized_le, calcSyncPeriod_mono (UInt64.le_of_lt h.attested_lt)⟩

theorem validPeriod_of_none {store : LightClientStore} (h : validPeriod store update = true)
    (hn : store.nextSyncCommittee = none) :
    calcSyncPeriod update.signatureSlot = calcSyncPeriod store.finalizedHeader.slot := by
  simpa [validPeriod, hn] using h

theorem validPeriod_cases {store : LightClientStore} (h : validPeriod store update = true) :
    calcSyncPeriod update.signatureSlot = calcSyncPeriod store.finalizedHeader.slot ∨
      (calcSyncPeriod update.signatureSlot = calcSyncPeriod store.finalizedHeader.slot + 1 ∧
        store.nextSyncCommittee.isSome = true) := by
  unfold validPeriod at h
  simp only at h
  split at h
  · rename_i hs
    rw [Bool.or_eq_true, beq_iff_eq, beq_iff_eq] at h
    rcases h with h | h
    · exact Or.inl h
    · exact Or.inr ⟨h, hs⟩
  · exact Or.inl (by simpa using h)

/-- While the next committee is unknown, an accepted update attests in the finalized period. -/
theorem Accepted.attested_period (h : Accepted k client now update)
    (hn : client.store.nextSyncCommittee = none) :
    calcSyncPeriod update.attestedHeader.slot =
      calcSyncPeriod client.store.finalizedHeader.slot := by
  have hsig := validPeriod_of_none h.period hn
  rcases h.relevant with hlt | hnext
  · have hge := calcSyncPeriod_mono (UInt64.le_of_lt hlt)
    have hle := h.periods.2
    rw [hsig] at hle
    exact UInt64.le_antisymm hle hge
  · unfold updateHasNextCommittee at hnext
    simp only [Bool.and_eq_true, beq_iff_eq] at hnext
    exact hnext.2

/-- An update that finalizes in the next period attests there too. -/
theorem Accepted.attested_next (h : Accepted k client now update)
    (hp : calcSyncPeriod (updateFinalizedSlot update) =
      calcSyncPeriod client.store.finalizedHeader.slot + 1) :
    calcSyncPeriod update.attestedHeader.slot =
      calcSyncPeriod client.store.finalizedHeader.slot + 1 := by
  obtain ⟨hfin_att, hatt_sig⟩ := h.periods
  refine UInt64.le_antisymm (UInt64.le_trans hatt_sig ?_) (hp ▸ hfin_att)
  rcases validPeriod_cases h.period with h | ⟨h, _⟩
  · rw [h, UInt64.le_iff_toNat_le, calcSyncPeriod_succ_toNat]
    omega
  · rw [h]
    exact UInt64.le_refl _

/-- Between a period and the next one there is no other. -/
theorem period_between {slot period last : UInt64} (hge : calcSyncPeriod slot ≤ period)
    (hle : period ≤ last) (hlast : last = calcSyncPeriod slot ∨ last = calcSyncPeriod slot + 1)
    (hne : period ≠ calcSyncPeriod slot + 1) : period = calcSyncPeriod slot := by
  rcases hlast with rfl | rfl
  · exact UInt64.le_antisymm hle hge
  · have hne' : period.toNat ≠ (calcSyncPeriod slot + 1).toNat := fun h => hne (UInt64.toNat_inj.1 h)
    rw [UInt64.le_iff_toNat_le] at hge hle
    rw [calcSyncPeriod_succ_toNat] at hle hne'
    apply UInt64.toNat_inj.1
    omega

/-- A newer header that is not finalized in the next period is finalized in the store's own. -/
theorem Accepted.finalized_period (h : Accepted k client now update)
    (hslot : client.store.finalizedHeader.slot < updateFinalizedSlot update)
    (hp : calcSyncPeriod (updateFinalizedSlot update) ≠
      calcSyncPeriod client.store.finalizedHeader.slot + 1) :
    calcSyncPeriod (updateFinalizedSlot update) =
      calcSyncPeriod client.store.finalizedHeader.slot := by
  obtain ⟨hfin_att, hatt_sig⟩ := h.periods
  have hge := calcSyncPeriod_mono (UInt64.le_of_lt hslot)
  have hle := UInt64.le_trans hfin_att hatt_sig
  exact period_between hge hle ((validPeriod_cases h.period).imp_right And.left) hp

/-! ## One step -/

/-- The next committee, once known. -/
theorem Aligned.known {store : LightClientStore} {committee : SyncCommittee}
    (ha : Aligned comm store) (hn : store.nextSyncCommittee = some committee) :
    committee = comm (calcSyncPeriod store.finalizedHeader.slot + 1) := by
  rcases ha.next with h | h
  · rw [hn] at h
    cases h
  · rw [hn] at h
    exact Option.some.inj h

/-- A finalized header of the same period keeps the committees right. -/
theorem Aligned.of_period {store store' : LightClientStore} (ha : Aligned comm store)
    (hcurrent : store'.currentSyncCommittee = store.currentSyncCommittee)
    (hperiod : calcSyncPeriod store'.finalizedHeader.slot =
      calcSyncPeriod store.finalizedHeader.slot)
    (hnext : store'.nextSyncCommittee = none ∨
      store'.nextSyncCommittee = some (comm (calcSyncPeriod store.finalizedHeader.slot + 1))) :
    Aligned comm store' := by
  constructor
  · rw [hcurrent, hperiod]
    exact ha.current
  · rw [hperiod]
    exact hnext

/-- The committee that signs an accepted update is the true one of the signature's period. -/
theorem Aligned.signing (ha : Aligned comm client.store)
    (hv : validPeriod client.store update = true) {committee : SyncCommittee}
    (hs : signingCommittee client.store update = .ok committee) :
    committee = comm (calcSyncPeriod update.signatureSlot) := by
  unfold signingCommittee at hs
  split at hs
  · rename_i hp
    cases hs
    rw [hp]
    exact ha.current
  · rename_i hp
    rcases validPeriod_cases hv with h | ⟨h, _⟩
    · exact absurd h hp
    · split at hs
      · rename_i c hc
        cases hs
        rw [h]
        exact ha.known hc
      · cases hs

/-- The next committee an accepted supermajority update carries is the true one. -/
theorem next_true (htrue : TrueCommittees k config checkpoint comm)
    (hconfig : client.config = config) (ha : Aligned comm client.store)
    (hacc : Accepted k client now update) (hrpc : update.FromRpc) (hs : Supermajority update) :
    update.nextSyncCommittee = none ∨
      update.nextSyncCommittee = some (comm (calcSyncPeriod update.attestedHeader.slot + 1)) := by
  cases hn : update.nextSyncCommittee with
  | none => exact Or.inl rfl
  | some committee =>
    right
    obtain ⟨branch, hb⟩ := hrpc.committee_branch hn
    have hproof := hacc.committee
    simp only [committeeProofOk, hn, hb] at hproof
    obtain ⟨signers, pks, hsigners, hpks, hsig⟩ := hacc.signature
    rw [ha.signing hacc.period hsigners] at hpks
    rw [hconfig] at hsig
    exact congrArg some (htrue.signed update committee branch ⟨hs, pks, hpks, hsig⟩ hn hb hproof)

/-- Without a supermajority, finality and the committees stay as they are. -/
theorem UpdateStep.supermajority (h : UpdateStep k client update client') :
    Supermajority update ∨ SameFinality client client' := by
  obtain ⟨_, _, now, now', happly⟩ := h
  obtain ⟨mid, hmid, hcases⟩ := applyGenericUpdate_ok happly
  rcases hcases with ⟨_, rfl⟩ | ⟨hshould, _⟩
  · exact Or.inr (raiseParticipants_same.trans (applyOptimistic_same hmid))
  · exact Or.inl (shouldApplyUpdate_iff.1 hshould).1

theorem Aligned.of_same (h : SameFinality client client') (ha : Aligned comm client.store) :
    Aligned comm client'.store := by
  apply ha.of_period h.current
  · rw [h.finalizedHeader]
  · rw [h.next]
    exact ha.next

/-- **One accepted update keeps the committees aligned.** -/
theorem aligned_step (htrue : TrueCommittees k config checkpoint comm)
    (hconfig : client.config = config) (ha : Aligned comm client.store)
    (h : UpdateStep k client update client') : Aligned comm client'.store := by
  rcases h.supermajority with hs | hsame
  case inr => exact ha.of_same hsame
  obtain ⟨hrpc, ⟨now, hverify⟩, now', now'', happly⟩ := h
  have hacc := verifyGenericUpdate_ok hverify
  have hnext := next_true htrue hconfig ha hacc hrpc hs
  obtain ⟨hfin_att, hatt_sig⟩ := hacc.periods
  obtain ⟨mid, hmid, hcases⟩ := applyGenericUpdate_ok happly
  have hsame := raiseParticipants_same.trans (applyOptimistic_same hmid)
  have hmidA : Aligned comm mid.store := ha.of_same hsame
  rcases hcases with ⟨_, rfl⟩ | ⟨hshould, rotated, hrotated, hfinal⟩
  · exact hmidA
  have hnewer := (shouldApplyUpdate_iff.1 hshould).2
  rw [hsame.next, hsame.finalizedHeader] at hnewer
  rcases applyCommittee_ok hrotated with ⟨hn, rfl⟩ | ⟨committee, hn, hp, rfl⟩ | ⟨committee, hn, hp, rfl⟩
  · -- the next committee was unknown: attested, finalized and store periods are one
    rw [hsame.next] at hn
    have hatt := hacc.attested_period hn
    rw [hatt] at hnext hfin_att
    rcases applyFinalized_ok hfinal with ⟨_, rfl⟩ | ⟨hslot, header, hheader, rfl⟩
    · exact ha.of_period hsame.current (by rw [hsame.finalizedHeader]) hnext
    · have hperiod : calcSyncPeriod header.slot =
          calcSyncPeriod client.store.finalizedHeader.slot := by
        rw [← updateFinalizedSlot_some hheader]
        refine UInt64.le_antisymm hfin_att (calcSyncPeriod_mono (UInt64.le_of_lt ?_))
        rw [← hsame.finalizedHeader]
        exact hslot
      exact ha.of_period hsame.current hperiod hnext
  · -- the committees rotate: attested, finalized and signature periods are the next one
    rw [hsame.next] at hn
    rw [hsame.finalizedHeader] at hp
    have hcommittee := ha.known hn
    have hatt := hacc.attested_next hp
    rcases hnewer with hslot | ⟨h, _⟩
    case inr => rw [hn] at h; cases h
    rcases applyFinalized_ok hfinal with ⟨hno, _⟩ | ⟨_, header, hheader, rfl⟩
    · simp only [hsame.finalizedHeader] at hno
      exact absurd hslot hno
    · rw [updateFinalizedSlot_some hheader] at hp
      rw [hatt] at hnext
      exact ⟨by simp only [hp]; exact hcommittee, by simp only [hp]; exact hnext⟩
  · -- both committees stay: the new finalized header is still in the store's period
    rw [hsame.next] at hn
    rw [hsame.finalizedHeader] at hp
    rcases hnewer with hslot | ⟨h, _⟩
    case inr => rw [hn] at h; cases h
    rcases applyFinalized_ok hfinal with ⟨_, rfl⟩ | ⟨_, header, hheader, rfl⟩
    · exact hmidA
    · have hperiod : calcSyncPeriod header.slot =
          calcSyncPeriod client.store.finalizedHeader.slot := by
        rw [← updateFinalizedSlot_some hheader]
        exact hacc.finalized_period hslot hp
      refine ha.of_period hsame.current hperiod ?_
      simp only [hsame.next]
      exact ha.next

/-! ## Unwraps -/

theorem expectedCurrentSlot_error {e : Fault} (h : client.expectedCurrentSlot now = .error e) :
    e = .panic .clockBeforeGenesis := by
  unfold expectedCurrentSlot at h
  simp only at h
  split at h
  · cases h; rfl
  · cases h

theorem age_error {slot : UInt64} {e : Fault} (h : client.age now slot = .error e) :
    e = .panic .durationUnderflow ∨ e = .panic .durationOutOfRange := by
  unfold age at h
  simp only at h
  split at h
  · cases h; exact Or.inl rfl
  · split at h
    · cases h; exact Or.inr rfl
    · cases h

theorem signingCommittee_ok {store : LightClientStore} (h : validPeriod store update = true) :
    ∃ committee, signingCommittee store update = .ok committee := by
  unfold signingCommittee
  rcases validPeriod_cases h with hp | ⟨_, hn⟩
  · exact ⟨_, if_pos hp⟩
  · obtain ⟨committee, hc⟩ := Option.isSome_iff_exists.1 hn
    rw [hc]
    split
    · exact ⟨_, rfl⟩
    · exact ⟨_, rfl⟩

/-- The next committee is there when `verify_generic_update` unwraps it. -/
theorem verifyGenericUpdate_no_unwrap :
    client.verifyGenericUpdate k now update ≠ .error (.panic .nextSyncCommitteeUnwrap) := by
  intro h
  unfold verifyGenericUpdate at h
  simp only at h
  split at h
  · cases h
  split at h
  · rename_i he
    cases h
    have := expectedCurrentSlot_error he
    cases this
  split at h
  · cases h
  split at h
  · cases h
  rename_i hperiod
  obtain ⟨committee, hcommittee⟩ := signingCommittee_ok (by simpa using hperiod)
  rw [hcommittee] at h
  simp only at h
  split at h
  · cases h
  split at h
  · cases h
  split at h
  · cases h
  split at h
  · rename_i he
    cases h
    obtain ⟨pk, _, hpk⟩ := collectResults_error he
    split at hpk <;> cases hpk
  · split at h <;> cases h

/-- The next committee and the finalized header are there when `apply_generic_update` unwraps
    them. -/
theorem applyGenericUpdate_no_unwrap :
    client.applyGenericUpdate k now now' update ≠ .error (.panic .nextSyncCommitteeUnwrap) ∧
      client.applyGenericUpdate k now now' update ≠ .error (.panic .finalizedHeaderUnwrap) := by
  have key : ∀ p, client.applyGenericUpdate k now now' update = .error (.panic p) →
      p = .durationUnderflow ∨ p = .durationOutOfRange := by
    intro p h
    unfold applyGenericUpdate at h
    simp only at h
    split at h
    · rename_i he
      cases h
      unfold applyOptimistic at he
      simp only at he
      split at he
      · split at he
        · rename_i hage
          cases he
          simpa using age_error hage
        · cases he
      · cases he
    · rename_i mid _
      split at h
      · obtain ⟨rotated, hrotated⟩ : ∃ rotated, mid.applyCommittee update = .ok rotated :=
          applyCommittee_total
        rw [hrotated] at h
        simp only at h
        unfold applyFinalized at h
        split at h
        · rename_i hnewer
          obtain ⟨header, hheader⟩ := finalizedHeader_of_newer hnewer
          rw [hheader] at h
          simp only at h
          split at h
          · rename_i hage
            cases h
            simpa using age_error hage
          · cases h
        · cases h
      · cases h
  constructor <;> intro h <;> rcases key _ h with h | h <;> cases h

/-! ## Whole runs -/

theorem lightClient_config (h : (lightClient k config checkpoint).Reachable client) :
    client.config = config ∧ client.initialCheckpoint = checkpoint := by
  refine System.invariant (S := lightClient k config checkpoint)
    (I := fun c => c.config = config ∧ c.initialCheckpoint = checkpoint) ?_ ?_ h
  · rintro s ⟨w, client₀, hconfig, hcheckpoint, hboot⟩
    obtain ⟨_, _, _, _, _, rfl⟩ := bootstrap_ok hboot
    exact ⟨hconfig, hcheckpoint⟩
  · rintro s s' _ hs ⟨update, _, _, now, now', happly⟩
    obtain ⟨hc, hi⟩ := applyGenericUpdate_config happly
    exact ⟨hc.trans hs.1, hi.trans hs.2⟩

theorem reachable_aligned (htrue : TrueCommittees k config checkpoint comm)
    (h : (lightClient k config checkpoint).Reachable client) : Aligned comm client.store := by
  refine System.invariant (S := lightClient k config checkpoint)
    (I := fun c => Aligned comm c.store) ?_ ?_ h
  · rintro s hs
    obtain ⟨w, client₀, hconfig, hcheckpoint, hboot⟩ := hs
    have hcurrent := htrue.bootstrap s ⟨w, client₀, hconfig, hcheckpoint, hboot⟩
    obtain ⟨_, _, _, _, _, rfl⟩ := bootstrap_ok hboot
    exact ⟨hcurrent, Or.inl rfl⟩
  · rintro s s' hreach hs ⟨update, hstep⟩
    exact aligned_step htrue (lightClient_config hreach).1 hs hstep

/-- **Sync-committee alignment over whole runs.**  Every state reached from a bootstrap is aligned;
    finality and the committees change only under a supermajority; no unwrap of a next committee
    or finalized header panics; and what `sync` or `advance` leaves behind, also when it fails, is
    again such a state (or, for `sync`, the state before it). -/
theorem committees_aligned (htrue : TrueCommittees k config checkpoint comm) :
    (∀ client, (lightClient k config checkpoint).Reachable client → Aligned comm client.store) ∧
    (∀ client update client', (lightClient k config checkpoint).Reachable client →
      UpdateStep k client update client' →
        Supermajority update ∨
          (client'.store.finalizedHeader = client.store.finalizedHeader ∧
            client'.store.currentSyncCommittee = client.store.currentSyncCommittee ∧
            client'.store.nextSyncCommittee = client.store.nextSyncCommittee)) ∧
    (∀ client now update, (lightClient k config checkpoint).Reachable client →
      client.verifyGenericUpdate k now update ≠ .error (.panic .nextSyncCommitteeUnwrap)) ∧
    (∀ client now now' update, (lightClient k config checkpoint).Reachable client →
      client.applyGenericUpdate k now now' update ≠ .error (.panic .nextSyncCommitteeUnwrap) ∧
      client.applyGenericUpdate k now now' update ≠ .error (.panic .finalizedHeaderUnwrap)) ∧
    (∀ client w, (lightClient k config checkpoint).Reachable client →
      (lightClient k config checkpoint).Reachable (advance k w client).2) ∧
    (∀ client w, client.config = config → client.initialCheckpoint = checkpoint →
      (sync k w client).2 = client ∨
        (lightClient k config checkpoint).Reachable (sync k w client).2) := by
  refine ⟨fun client => reachable_aligned htrue, fun client update client' _ hstep => ?_,
    fun _ _ _ _ => verifyGenericUpdate_no_unwrap, fun _ _ _ _ _ => applyGenericUpdate_no_unwrap,
    fun _ _ => advance_reachable, fun _ _ hconfig hcheckpoint => ?_⟩
  · rcases hstep.supermajority with hs | hs
    · exact Or.inl hs
    · exact Or.inr ⟨hs.finalizedHeader, hs.current, hs.next⟩
  · rcases sync_reachable hconfig hcheckpoint with ⟨h, _⟩ | h
    · exact Or.inl h
    · exact Or.inr h

/-! ## A checkpoint on mainnet -/

def mainnet : Config where
  chain :=
    { chainId := 1
      genesisTime := 1606824023
      genesisRoot := beBytes 32 0x4b363db94e286120d76eb905340fdd4e54bfe9f06bf33ff6cf5ad27f511bfe95 }
  forks :=
    { genesis := ⟨0, #v[0, 0, 0, 0]⟩
      altair := ⟨74240, #v[1, 0, 0, 0]⟩
      bellatrix := ⟨144896, #v[2, 0, 0, 0]⟩
      capella := ⟨194048, #v[3, 0, 0, 0]⟩ }
  maxCheckpointAge := 1209600
  strictCheckpointAge := false

/-- What sync committees sign under after the Capella fork. -/
def capellaDomain : Bytes32 :=
  beBytes 32 0x07000000bba4da96354c9f25476cf1bc69bf583a7f9e0af049305b62de676640

/-- The public key of the secret key 1. -/
def memberKey : BLSPubKey :=
  beBytes 48 0x97f1d3a73197d7942695638c4fa9ac0fc3688c4f9774b905a14e3a3f171bac586c55e83ff97a1aeffb3af00adb22c6bb

/-- A committee whose members all have one key. -/
def memberCommittee : SyncCommittee where
  pubkeys := ⟨(List.replicate 512 memberKey).toArray, by
    rw [List.size_toArray, List.length_replicate]⟩
  aggregatePubkey :=
    beBytes 48 0xa9843dc6497bb8028cdbaea5c085b8e8c28bb5182ce691fa9ab5303b6792b2f5af0fc8fe52abb92c07ad5f4cf586c400

def memberCommitteeRoot : Bytes32 :=
  beBytes 32 0x0c04d569dbf0c6323f685ac7791d132bcf7d8134fb0538ff5ef32352006f06dd

def memberRoots (committee : SyncCommittee) : Option Bytes32 :=
  if committee = memberCommittee then some memberCommitteeRoot else none

theorem memberRoots_member : memberRoots memberCommittee = some memberCommitteeRoot := by
  rw [memberRoots, if_pos rfl]

def checkpointHeader : Header where
  slot := 6400000
  proposerIndex := 0
  parentRoot := beBytes 32 0xe47125968b3b71049fbc4802d1e40a71ea1359decfabacf70b34588037d4ff0c
  stateRoot := beBytes 32 0x120184a6f85231c3c7542cdf2c2c845290c9b18a0a618d6c67c8d8362fa607e4
  bodyRoot := beBytes 32 0x9b31068af54a00bab52a7eae720dc4a1baf1059593a0d8692ec92640c8418a5f

def checkpointRoot : Bytes32 :=
  beBytes 32 0xe6a9f307a27c1e9b96aa17dd4a4698922c7ff1a907fc6a5a8e2a75ad2c43ca92

def checkpointBootstrap : Bootstrap where
  header := checkpointHeader
  currentSyncCommittee := memberCommittee
  currentSyncCommitteeBranch := List.replicate 5 (zeroBytes 32)

/-- The roots of the checkpoint's header and committee, and the branch between them. -/
def checkpointCrates : ConsensusCrates where
  headerRoot header := if header = checkpointHeader then some checkpointRoot else none
  blockRoot _ := none
  committeeRoot := memberRoots
  signingDataRoot _ _ := none
  forkDataRoot _ _ := none
  isValidMerkleBranch leaf branch depth index root :=
    decide ((leaf, branch, depth, index, root) =
      (memberCommitteeRoot, List.replicate 5 (zeroBytes 32), 5, 22, checkpointHeader.stateRoot))
  PublicKey := BLSPubKey
  publicKey pk := if pk = memberKey then some pk else none
  Signature := SignatureBytes
  signature := some
  fastAggregateVerify _ _ _ := false

/-- The server has the bootstrap of the checkpoint and nothing else. -/
def checkpointRpc : ConsensusRpc where
  getBootstrap _ := .ok checkpointBootstrap
  getUpdates _ _ := .ok []
  getFinalityUpdate := .error (.rpc "finality_update")
  getOptimisticUpdate := .error (.rpc "optimistic_update")
  getBlock _ := .error (.rpc "blocks")
  chainId := .ok 1

/-- Three slots after the checkpoint. -/
def checkpointMoment : Moment where
  now := 1683624059
  rpc := checkpointRpc
  executionChainId := .ok 1

/-- The client of the checkpoint. -/
def bootstrapped : ConsensusClient :=
  { ConsensusClient.new checkpointRoot.toList mainnet with
    store :=
      { finalizedHeader := checkpointHeader
        currentSyncCommittee := memberCommittee
        nextSyncCommittee := none
        optimisticHeader := checkpointHeader
        previousMaxActiveParticipants := 0
        currentMaxActiveParticipants := 0 } }

theorem checkpointCrates_committeeRoot : checkpointCrates.committeeRoot = memberRoots := rfl

theorem checkpoint_committee_valid : isCurrentCommitteeProofValid checkpointCrates checkpointHeader
    memberCommittee (List.replicate 5 (zeroBytes 32)) = true := by
  rw [isCurrentCommitteeProofValid, checkpointCrates_committeeRoot, memberRoots_member,
    isProofValid.eq_def]
  decide +kernel

theorem checkpoint_bootstrap : bootstrap checkpointCrates (fun _ => checkpointMoment)
    (ConsensusClient.new checkpointRoot.toList mainnet) = (.ok (), bootstrapped) := by
  have hage : (ConsensusClient.new checkpointRoot.toList mainnet).isValidCheckpoint
      checkpointMoment.now checkpointBootstrap.header.slot = .ok true := by
    decide +kernel
  have hroot : checkpointCrates.headerRoot checkpointBootstrap.header = some checkpointRoot := by
    simp only [checkpointCrates, checkpointBootstrap, if_true]
  rw [bootstrap_of_valid rfl hage hroot rfl checkpoint_committee_valid]
  rfl

theorem checkpoint_reachable :
    (lightClient checkpointCrates mainnet checkpointRoot.toList).Reachable bootstrapped :=
  .init ⟨_, _, rfl, rfl, checkpoint_bootstrap⟩

end ConsensusClient

end Helios
