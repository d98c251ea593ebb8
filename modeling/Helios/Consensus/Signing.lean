import Helios.Consensus.Alignment

/-!
# The domain a sync committee signs under

The committee signs the block root of the slot before the signature, so the specification takes the
fork of that slot; the source takes the fork of the signature slot itself.

* `lastFork`, `forkVersion_eq` — the cascade of the configuration picks the last fork that has
  activated.
* `signedForkVersion` — the version of the specification; `HonestlySigned` — a signature under it.
* `FirstOfFork` — the first slot of an epoch at which a fork activates.
* `domain_agrees_iff` — **the domains agree everywhere else**, and there only if the version stays.
* `domain_disagrees` — the first slot of Capella.
-/

set_option autoImplicit false

namespace Helios

/-- The forks, in their order. -/
def Forks.inOrder (forks : Forks) : List Fork :=
  [forks.genesis, forks.altair, forks.bellatrix, forks.capella]

/-- The last fork whose epoch has come, or the genesis fork. -/
def lastFork (forks : Forks) (epoch : UInt64) : Fork :=
  (forks.inOrder.filter fun fork => decide (fork.epoch ≤ epoch)).getLastD forks.genesis

/-- The slot whose block root the committee signs (`max(signature_slot, 1) - 1`). -/
def signedSlot (signatureSlot : UInt64) : UInt64 := max signatureSlot 1 - 1

/-- The version of the specification. -/
def signedForkVersion (config : Config) (signatureSlot : UInt64) : Vector UInt8 4 :=
  (lastFork config.forks (signedSlot signatureSlot / 32)).forkVersion

/-- **The cascade picks the last fork that has activated.** -/
theorem forkVersion_eq (config : Config) (slot : UInt64) :
    config.forkVersion slot = (lastFork config.forks (slot / 32)).forkVersion := by
  unfold Config.forkVersion lastFork Forks.inOrder
  simp only [List.filter_cons, List.filter_nil, decide_eq_true_eq, ge_iff_le]
  split
  · split <;> split <;> split <;> rfl
  · split
    · split <;> split <;> rfl
    · split
      · split <;> rfl
      · split <;> rfl

/-! ## The first slot of a fork -/

/-- The first slot of an epoch at which a fork activates. -/
def FirstOfFork (forks : Forks) (slot : UInt64) : Prop :=
  slot % 32 = 0 ∧ ∃ fork ∈ [forks.altair, forks.bellatrix, forks.capella], fork.epoch = slot / 32

theorem signedSlot_toNat (slot : UInt64) : (signedSlot slot).toNat = slot.toNat - 1 := by
  show ((if slot ≤ 1 then 1 else slot) - 1).toNat = _
  split
  · rename_i h
    rw [UInt64.le_iff_toNat_le] at h
    have h1 : (1 : UInt64).toNat = 1 := rfl
    rw [UInt64.sub_self]
    show 0 = _
    omega
  · rename_i h
    rw [UInt64.not_le] at h
    rw [UInt64.toNat_sub_of_le _ _ (UInt64.le_of_lt h)]
    rfl

/-- An epoch has come at a slot, but not at the one before, only if the slot is its first. -/
theorem epoch_reached {slot epoch : UInt64} (h : epoch ≤ slot / 32)
    (hbefore : ¬ epoch ≤ signedSlot slot / 32) : slot % 32 = 0 ∧ epoch = slot / 32 := by
  rw [UInt64.le_iff_toNat_le, UInt64.toNat_div] at h hbefore
  rw [signedSlot_toNat] at hbefore
  have h32 : (32 : UInt64).toNat = 32 := rfl
  rw [h32] at h hbefore
  constructor
  · apply UInt64.toNat_inj.1
    rw [UInt64.toNat_mod]
    show slot.toNat % 32 = 0
    omega
  · apply UInt64.toNat_inj.1
    rw [UInt64.toNat_div]
    show epoch.toNat = slot.toNat / 32
    omega

theorem reached_iff {slot epoch : UInt64} (h : ¬ (slot % 32 = 0 ∧ epoch = slot / 32)) :
    epoch ≤ slot / 32 ↔ epoch ≤ signedSlot slot / 32 := by
  constructor
  · intro hle
    by_contra hbefore
    exact h (epoch_reached hle hbefore)
  · intro hle
    rw [UInt64.le_iff_toNat_le, UInt64.toNat_div] at hle ⊢
    rw [signedSlot_toNat] at hle
    have h32 : (32 : UInt64).toNat = 32 := rfl
    rw [h32] at hle ⊢
    omega

/-- Elsewhere the two slots have one fork. -/
theorem lastFork_signedSlot {forks : Forks} {slot : UInt64} (h : ¬ FirstOfFork forks slot) :
    lastFork forks (slot / 32) = lastFork forks (signedSlot slot / 32) := by
  have hreached : ∀ fork ∈ [forks.altair, forks.bellatrix, forks.capella],
      (fork.epoch ≤ slot / 32 ↔ fork.epoch ≤ signedSlot slot / 32) :=
    fun fork hfork => reached_iff fun hfirst => h ⟨hfirst.1, fork, hfork, hfirst.2⟩
  have haltair := hreached forks.altair (by simp)
  have hbellatrix := hreached forks.bellatrix (by simp)
  have hcapella := hreached forks.capella (by simp)
  unfold lastFork Forks.inOrder
  simp only [List.filter_cons, List.filter_nil, decide_eq_true_eq, haltair, hbellatrix, hcapella]
  -- the genesis fork is the answer when no other fork is, listed or not
  split <;> split <;> split <;> split <;> split <;> rfl

/-! ## Signatures -/

/-- The signing root of a header under a version. -/
def signRootUnder (k : ConsensusCrates) (config : Config) (version : Vector UInt8 4)
    (header : Bytes32) : Option Bytes32 :=
  match computeDomain k (beBytes 4 0x07000000) version config.chain.genesisRoot with
  | none => none
  | some domain => computeSigningRoot k header domain

theorem computeCommitteeSignRoot_eq {k : ConsensusCrates} {config : Config} {header : Bytes32}
    {slot : UInt64} : computeCommitteeSignRoot k config header slot =
      signRootUnder k config (config.forkVersion slot) header := by
  have htype : (#v[0x07, 0x00, 0x00, 0x00] : Vector UInt8 4) = beBytes 4 0x07000000 := by decide
  unfold computeCommitteeSignRoot
  rw [htype]
  rfl

namespace ConsensusClient

variable {k : ConsensusCrates} {client : ConsensusClient} {now : UInt64} {update : GenericUpdate}

/-- The committee signed the attested header under the version of the specification, and its
    signature is valid for that root and no other message. -/
def HonestlySigned (k : ConsensusCrates) (client : ConsensusClient) (update : GenericUpdate) :
    Prop :=
  ∀ committee pks, signingCommittee client.store update = .ok committee →
    getParticipatingKeys k committee update.syncAggregate.syncCommitteeBits = .ok pks →
      ∃ headerRoot root, k.headerRoot update.attestedHeader = some headerRoot ∧
        signRootUnder k client.config (signedForkVersion client.config update.signatureSlot)
          headerRoot = some root ∧
        ∀ msg, isAggregateValid k update.syncAggregate.syncCommitteeSignature msg pks = true ↔
          msg = root.toList

/-- The version of the check is the one of the specification, and the check refuses no update that
    was honestly signed. -/
def DomainAgrees (config : Config) (slot : UInt64) : Prop :=
  config.forkVersion slot = signedForkVersion config slot ∧
    ∀ (k : ConsensusCrates) (client : ConsensusClient) (now : UInt64) (update : GenericUpdate),
      client.config = config → update.signatureSlot = slot → HonestlySigned k client update →
        client.verifyGenericUpdate k now update ≠ .error (.err (.consensus .invalidSignature))

/-- A signature is refused only after the committee and its participants have been read. -/
theorem verifyGenericUpdate_invalidSignature
    (h : client.verifyGenericUpdate k now update = .error (.err (.consensus .invalidSignature))) :
    ∃ committee pks, signingCommittee client.store update = .ok committee ∧
      getParticipatingKeys k committee update.syncAggregate.syncCommitteeBits = .ok pks ∧
      verifySyncCommitteeSignture k client.config pks update.attestedHeader
        update.syncAggregate.syncCommitteeSignature update.signatureSlot = false := by
  unfold verifyGenericUpdate at h
  simp only at h
  split at h
  · cases h
  split at h
  · rename_i fault hnow
    cases h
    unfold expectedCurrentSlot at hnow
    simp only at hnow
    split at hnow <;> cases hnow
  split at h
  · cases h
  split at h
  · cases h
  split at h
  · cases h
  split at h
  · cases h
  split at h
  · cases h
  split at h
  · rename_i fault hcommittee
    cases h
    unfold signingCommittee at hcommittee
    split at hcommittee
    · cases hcommittee
    · split at hcommittee <;> cases hcommittee
  rename_i committee hcommittee
  split at h
  · rename_i fault hkeys
    cases h
    obtain ⟨pk, _, hpk⟩ := collectResults_error hkeys
    split at hpk <;> cases hpk
  rename_i pks hkeys
  split at h
  · rename_i hsig
    exact ⟨committee, pks, hcommittee, hkeys, hsig⟩
  · cases h

/-- Under one version, an honest signature passes. -/
theorem honest_accepted
    (hversion : client.config.forkVersion update.signatureSlot =
      signedForkVersion client.config update.signatureSlot)
    (hsigned : HonestlySigned k client update) :
    client.verifyGenericUpdate k now update ≠ .error (.err (.consensus .invalidSignature)) := by
  intro h
  obtain ⟨committee, pks, hcommittee, hkeys, hsig⟩ := verifyGenericUpdate_invalidSignature h
  obtain ⟨headerRoot, root, hheader, hroot, hvalid⟩ := hsigned committee pks hcommittee hkeys
  unfold verifySyncCommitteeSignture at hsig
  simp only [hheader, computeCommitteeSignRoot_eq, hversion, hroot] at hsig
  rw [(hvalid _).2 rfl] at hsig
  cases hsig

/-- Under two versions with two signing roots, an honest signature never passes. -/
theorem honest_refused
    (hroots : ∀ headerRoot root,
      signRootUnder k client.config (client.config.forkVersion update.signatureSlot) headerRoot =
        some root →
      signRootUnder k client.config (signedForkVersion client.config update.signatureSlot)
        headerRoot ≠ some root)
    (hsigned : HonestlySigned k client update) :
    client.verifyGenericUpdate k now update ≠ .ok () := by
  intro h
  obtain ⟨committee, pks, hcommittee, hkeys, hsig⟩ := (verifyGenericUpdate_ok h).signature
  obtain ⟨headerRoot, root, hheader, hroot, hvalid⟩ := hsigned committee pks hcommittee hkeys
  unfold verifySyncCommitteeSignture at hsig
  simp only [hheader, computeCommitteeSignRoot_eq] at hsig
  split at hsig
  · cases hsig
  · rename_i checked hchecked
    have hsame := Vector.toList_inj.1 ((hvalid checked.toList).1 hsig)
    exact hroots headerRoot checked hchecked (hsame ▸ hroot)

/-- **When the signing domains agree.**  For every schedule and every signature slot: the check
    uses the version of the specification, and lets every honestly signed update through, unless
    the slot is the first of a fork that changes the version. -/
theorem domain_agrees_iff (config : Config) (slot : UInt64) :
    DomainAgrees config slot ↔
      (FirstOfFork config.forks slot →
        (lastFork config.forks (slot / 32)).forkVersion =
          (lastFork config.forks (signedSlot slot / 32)).forkVersion) := by
  constructor
  · rintro ⟨hversion, _⟩ _
    rw [forkVersion_eq] at hversion
    exact hversion
  · intro h
    have hversion : config.forkVersion slot = signedForkVersion config slot := by
      rw [forkVersion_eq, signedForkVersion]
      by_cases hfirst : FirstOfFork config.forks slot
      · exact h hfirst
      · rw [lastFork_signedSlot hfirst]
    refine ⟨hversion, ?_⟩
    rintro k client now update rfl rfl hsigned
    exact honest_accepted hversion hsigned

/-- The first slot of Capella on mainnet: the committee still signs under Bellatrix. -/
theorem domain_disagrees :
    mainnet.forks.inOrder.Pairwise (fun fork later => fork.epoch ≤ later.epoch) ∧
      mainnet.forkVersion 6209536 = #v[3, 0, 0, 0] ∧
      signedForkVersion mainnet 6209536 = #v[2, 0, 0, 0] ∧ ¬ DomainAgrees mainnet 6209536 := by
  have hversion : mainnet.forkVersion 6209536 = #v[3, 0, 0, 0] := by decide
  have hsigned : signedForkVersion mainnet 6209536 = #v[2, 0, 0, 0] := by decide
  refine ⟨by decide, hversion, hsigned, ?_⟩
  rintro ⟨hsame, _⟩
  rw [hversion, hsigned] at hsame
  exact absurd hsame (by decide)

end ConsensusClient

end Helios
