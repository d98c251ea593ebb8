import Helios.Consensus.Recovery
import Helios.Lib.Quorum

/-!
# Trusting a third of every committee

The other results trust what two thirds of a committee sign.  Here the trust is in members: a
faithful one signs for the headers of the chain alone.

* `signers`, `SignsFor` — who has signed an update, and what with; `Unforgeable` — a signature that
  verifies is one of each of its keys.
* `ChainStates` — what the states behind the headers of the chain commit to; `FaithfulMembers` —
  members that follow it.
* `supermajority_meets_iff` — **171 is the number**: with it, and not with less, every supermajority
  has a faithful member.
* `trueCommittees_of_faithful`, `trueHeaders_of_faithful` — then what a supermajority signs is true.
* `false_head_cost` — a false optimistic header takes more unfaithful signers than the safety
  threshold.
* `faithful_third_safe` — **the committees and finality of every run are those of the chain**, and
  the optimistic header stays true as long as the safety threshold covers the unfaithful members.
-/

set_option autoImplicit false

namespace Helios

/-- A checkpoint that is the root of no header outside the chain.  Bytes that are the root of no
    header at all are one as well: no bootstrap succeeds from them. -/
def OfChain (k : ConsensusCrates) (final : UInt64 → Header) (checkpoint : Bytes) : Prop :=
  ∀ (header : Header) (root : Bytes32), k.headerRoot header = some root →
    root.toList = checkpoint → header = final header.slot

namespace ConsensusClient

open Quorum

variable {k : ConsensusCrates} {config : Config} {checkpoint : Bytes}
  {comm : UInt64 → SyncCommittee} {final : UInt64 → Header} {Attested : Header → Prop}
  {Signed : k.PublicKey → Bytes → Prop} {faithful : UInt64 → Finset (Fin 512)}
  {client client' : ConsensusClient} {now now' : UInt64} {update : GenericUpdate}

/-! ## Who has signed -/

/-- The members whose bits are set. -/
def signers (update : GenericUpdate) : Finset (Fin 512) :=
  chosen update.syncAggregate.syncCommitteeBits

theorem card_signers : (signers update).card = (participants update).toNat := by
  rw [signers, card_chosen, getBits_toNat]

theorem supermajority_iff : Supermajority update ↔ 342 ≤ (signers update).card := by
  rw [card_signers, Supermajority]
  omega

/-- The key has signed the message of a committee for a header. -/
def SignsFor (k : ConsensusCrates) (config : Config) (Signed : k.PublicKey → Bytes → Prop)
    (pk : k.PublicKey) (header : Header) (slot : UInt64) : Prop :=
  ∃ root signingRoot, k.headerRoot header = some root ∧
    computeCommitteeSignRoot k config root slot = some signingRoot ∧ Signed pk signingRoot.toList

/-- A signature that verifies under keys was made with each of them, whatever the list of keys. For
    an aggregate signature this takes a proof of possession of every key: without one, a key made
    up from the others would verify for them. -/
def Unforgeable (k : ConsensusCrates) (Signed : k.PublicKey → Bytes → Prop) : Prop :=
  ∀ sig msg pks, k.fastAggregateVerify sig msg pks = true → ∀ pk ∈ pks, Signed pk msg

/-- The keys of a committee under which an update verifies, whoever they are. -/
def VerifiesUnder (k : ConsensusCrates) (config : Config) (committee : SyncCommittee)
    (update : GenericUpdate) : Prop :=
  ∃ pks, getParticipatingKeys k committee update.syncAggregate.syncCommitteeBits = .ok pks ∧
    verifySyncCommitteeSignture k config pks update.attestedHeader
      update.syncAggregate.syncCommitteeSignature update.signatureSlot = true

theorem verifySignature_signs {pks : List k.PublicKey} {header : Header} {sig : SignatureBytes}
    {slot : UInt64} (hsigned : Unforgeable k Signed)
    (h : verifySyncCommitteeSignture k config pks header sig slot = true) :
    ∀ pk ∈ pks, SignsFor k config Signed pk header slot := by
  intro pk hpk
  unfold verifySyncCommitteeSignture at h
  split at h
  · cases h
  rename_i root hroot
  split at h
  · cases h
  rename_i signingRoot hsigningRoot
  unfold isAggregateValid at h
  split at h
  · exact ⟨root, signingRoot, hroot, hsigningRoot, hsigned _ _ _ h pk hpk⟩
  · cases h

/-- The keys of the members whose bits are set are among the keys. -/
theorem participatingKeys_mem {committee : SyncCommittee} {bits : Vector Bool 512}
    {pks : List k.PublicKey} (h : getParticipatingKeys k committee bits = .ok pks) {i : Fin 512}
    (hi : i ∈ chosen bits) : ∃ pk ∈ pks, k.publicKey committee.pubkeys[i] = some pk := by
  have hmem : committee.pubkeys[i] ∈ participatingPubkeys committee bits := by
    unfold participatingPubkeys
    rw [List.mem_map]
    refine ⟨(committee.pubkeys[i], bits[i]), ?_, rfl⟩
    rw [List.mem_filter]
    refine ⟨?_, mem_chosen.1 hi⟩
    have hlen : i.val < (committee.pubkeys.toList.zip bits.toList).length := by
      simp
    have hat : (committee.pubkeys.toList.zip bits.toList)[i.val] =
        (committee.pubkeys[i], bits[i]) := by
      simp
    exact hat ▸ List.getElem_mem hlen
  obtain ⟨j, hj⟩ := List.getElem?_of_mem hmem
  obtain ⟨pk, hpk, hkey⟩ := collectResults_getElem? h hj
  refine ⟨pk, List.mem_of_getElem? hpk, ?_⟩
  split at hkey
  · rename_i key heq
    cases hkey
    exact heq
  · cases hkey

/-- **Every member whose bit is set has signed.** -/
theorem VerifiesUnder.signs {committee : SyncCommittee}
    (h : VerifiesUnder k config committee update) (hsigned : Unforgeable k Signed) {i : Fin 512}
    (hi : i ∈ signers update) :
    ∃ pk, k.publicKey committee.pubkeys[i] = some pk ∧
      SignsFor k config Signed pk update.attestedHeader update.signatureSlot := by
  obtain ⟨pks, hpks, hverify⟩ := h
  obtain ⟨pk, hmem, hkey⟩ := participatingKeys_mem hpks hi
  exact ⟨pk, hkey, verifySignature_signs hsigned hverify pk hmem⟩

/-! ## Whom to trust -/

/-- What the states behind the headers of the chain commit to: the committee of the period, the one
    after it, and the finalized header of a slot. -/
structure ChainStates (k : ConsensusCrates) (comm : UInt64 → SyncCommittee)
    (final : UInt64 → Header) (Attested : Header → Prop) : Prop where
  current : ∀ header committee branch, header = final header.slot →
    isCurrentCommitteeProofValid k header committee branch = true →
    committee = comm (calcSyncPeriod header.slot)
  next : ∀ header committee branch, Attested header →
    isNextCommitteeProofValid k header committee branch = true →
    committee = comm (calcSyncPeriod header.slot + 1)
  finalized : ∀ header finalizedHeader branch, Attested header →
    isFinalityProofValid k header finalizedHeader branch = true →
    finalizedHeader = final finalizedHeader.slot

/-- Members of each committee that sign for headers of the chain alone. -/
def FaithfulMembers (k : ConsensusCrates) (config : Config) (comm : UInt64 → SyncCommittee)
    (Attested : Header → Prop) (Signed : k.PublicKey → Bytes → Prop)
    (faithful : UInt64 → Finset (Fin 512)) : Prop :=
  ∀ period, ∀ i ∈ faithful period, ∀ pk, k.publicKey (comm period).pubkeys[i] = some pk →
    ∀ header slot, SignsFor k config Signed pk header slot → Attested header

/-- A header with a faithful signer is one of the chain. -/
theorem VerifiesUnder.attested {period : UInt64}
    (h : VerifiesUnder k config (comm period) update) (hsigned : Unforgeable k Signed)
    (hfaithful : FaithfulMembers k config comm Attested Signed faithful)
    (hmeets : ∃ i ∈ signers update, i ∈ faithful period) : Attested update.attestedHeader := by
  obtain ⟨i, hi, hmem⟩ := hmeets
  obtain ⟨pk, hkey, hsigns⟩ := h.signs hsigned hi
  exact hfaithful period i hmem pk hkey _ _ hsigns

/-- **171 faithful members are enough**, and no fewer are: the others could be a supermajority. -/
theorem supermajority_meets_iff (members : Finset (Fin 512)) :
    (∀ update, Supermajority update → ∃ i ∈ signers update, i ∈ members) ↔
      171 ≤ members.card := by
  have hquorum := quorum_meets_iff 342 members
  rw [Fintype.card_fin] at hquorum
  have hnumber : 171 ≤ members.card ↔ 512 < 342 + members.card := by omega
  rw [hnumber, ← hquorum]
  simp only [supermajority_iff]
  constructor
  · intro h a ha
    -- an update that exactly these members sign
    let bits : Vector Bool 512 := .ofFn fun i => decide (i ∈ a)
    have hchosen : chosen bits = a := by
      ext i
      simp [bits]
    obtain ⟨i, hi, hmem⟩ := h ⟨default, ⟨bits, zeroBytes 96⟩, 0, none, none, none, none⟩ (by
      rw [signers, hchosen]
      exact ha)
    rw [signers, hchosen] at hi
    exact ⟨i, hi, hmem⟩
  · intro h update hsuper
    exact h (signers update) hsuper

/-! ## What a supermajority signs -/

theorem SignedBy.attested {period : UInt64} (h : SignedBy k config (comm period) update)
    (hsigned : Unforgeable k Signed)
    (hfaithful : FaithfulMembers k config comm Attested Signed faithful)
    (henough : 171 ≤ (faithful period).card) : Attested update.attestedHeader :=
  VerifiesUnder.attested h.2 hsigned hfaithful
    ((supermajority_meets_iff (faithful period)).2 henough update h.1)

theorem trueCommittees_of_faithful (hsigned : Unforgeable k Signed)
    (hchain : ChainStates k comm final Attested)
    (hfaithful : FaithfulMembers k config comm Attested Signed faithful)
    (henough : ∀ period, 171 ≤ (faithful period).card)
    (hcheckpoint : OfChain k final checkpoint) : TrueCommittees k config checkpoint comm where
  bootstrap := by
    rintro client ⟨w, client₀, _, rfl, hboot⟩
    obtain ⟨boot, root, hroot, heq, hvalid, rfl⟩ := bootstrap_ok hboot
    exact hchain.current _ _ _ (hcheckpoint _ _ hroot heq) hvalid
  signed update committee branch hby _ _ hvalid :=
    hchain.next _ _ _ (hby.attested hsigned hfaithful (henough _)) hvalid

theorem trueHeaders_of_faithful (hsigned : Unforgeable k Signed)
    (hchain : ChainStates k comm final Attested)
    (hfaithful : FaithfulMembers k config comm Attested Signed faithful)
    (henough : ∀ period, 171 ≤ (faithful period).card)
    (hcheckpoint : OfChain k final checkpoint) : TrueHeaders k config checkpoint comm final where
  bootstrap := by
    rintro client ⟨w, client₀, _, rfl, hboot⟩
    obtain ⟨boot, root, hroot, heq, _, rfl⟩ := bootstrap_ok hboot
    exact hcheckpoint _ _ hroot heq
  signed update header branch hby _ _ hvalid :=
    hchain.finalized _ _ _ (hby.attested hsigned hfaithful (henough _)) hvalid

/-! ## The optimistic header -/

/-- The optimistic header is one that the chain has attested or finalized. -/
def TrueHead (final : UInt64 → Header) (Attested : Header → Prop) (store : LightClientStore) :
    Prop :=
  Attested store.optimisticHeader ∨ store.optimisticHeader = final store.optimisticHeader.slot

/-- Counting the participation of an update never lowers the threshold. -/
theorem safetyThreshold_raised {bits : UInt64} :
    safetyThreshold client.store ≤ safetyThreshold (client.raiseParticipants bits).store := by
  rw [UInt64.le_iff_toNat_le]
  unfold safetyThreshold raiseParticipants
  simp only [UInt64.toNat_div, u64_max_toNat]
  apply Nat.div_le_div_right
  omega

/-- A new optimistic header is attested by more than the safety threshold, or newly finalized. -/
theorem head_origin (happly : client.applyGenericUpdate k now now' update = .ok client') :
    client'.store.optimisticHeader = client.store.optimisticHeader ∨
      (client'.store.optimisticHeader = update.attestedHeader ∧
        safetyThreshold client.store < participants update) ∨
      client'.store.optimisticHeader = client'.store.finalizedHeader := by
  obtain ⟨mid, hmid, hcases⟩ := applyGenericUpdate_ok happly
  have hopt : mid.store.optimisticHeader = client.store.optimisticHeader ∨
      (mid.store.optimisticHeader = update.attestedHeader ∧
        safetyThreshold client.store < participants update) := by
    rcases applyOptimistic_ok hmid with ⟨hmore, _, rfl⟩ | ⟨_, rfl⟩
    · refine Or.inr ⟨rfl, ?_⟩
      -- the threshold was raised before it was compared
      refine UInt64.lt_of_le_of_lt ?_ hmore
      exact safetyThreshold_raised
    · exact Or.inl rfl
  rcases hcases with ⟨_, rfl⟩ | ⟨_, rotated, hrotated, hfinal⟩
  · exact hopt.imp_right Or.inl
  rw [← (applyCommittee_same hrotated).optimisticHeader] at hopt
  rcases applyFinalized_ok hfinal with ⟨_, rfl⟩ | ⟨_, header, hheader, rfl⟩
  · exact hopt.imp_right Or.inl
  · by_cases hpast : header.slot > rotated.store.optimisticHeader.slot
    · simp only [if_pos hpast, or_true]
    · simp only [if_neg hpast]
      exact hopt.imp_right Or.inl

/-- **What a false optimistic header takes**: signers of whom none is faithful, more than the safety
    threshold. -/
theorem false_head_cost (hsigned : Unforgeable k Signed)
    (hchain : ChainStates k comm final Attested)
    (hfaithful : FaithfulMembers k config comm Attested Signed faithful)
    (henough : ∀ period, 171 ≤ (faithful period).card)
    (hcheckpoint : OfChain k final checkpoint)
    (hreach : (lightClient k config checkpoint).Reachable client)
    (hstep : UpdateStep k client update client') (htrue : TrueHead final Attested client.store)
    (hfalse : ¬ TrueHead final Attested client'.store) :
    safetyThreshold client.store < participants update ∧
      (participants update).toNat + (faithful (calcSyncPeriod update.signatureSlot)).card ≤
        512 := by
  have hcommittees := trueCommittees_of_faithful hsigned hchain hfaithful henough hcheckpoint
  have hheaders := trueHeaders_of_faithful hsigned hchain hfaithful henough hcheckpoint
  have hfinal := reachable_final hcommittees hheaders (hreach.step ⟨update, hstep⟩)
  obtain ⟨_, ⟨now, hverify⟩, _, _, happly⟩ := hstep
  rcases head_origin happly with hsame | ⟨hattested, hmore⟩ | hhead
  · refine absurd ?_ hfalse
    unfold TrueHead
    rw [hsame]
    exact htrue
  · refine ⟨hmore, ?_⟩
    by_contra hcount
    rw [← card_signers] at hcount
    have hacc := verifyGenericUpdate_ok hverify
    obtain ⟨committee, pks, hsigning, hpks, hsig⟩ := hacc.signature
    rw [(reachable_aligned hcommittees hreach).signing hacc.period hsigning] at hpks
    rw [(lightClient_config hreach).1] at hsig
    have hshared := exists_shared (a := signers update)
      (b := faithful (calcSyncPeriod update.signatureSlot)) (by
        rw [Fintype.card_fin]
        omega)
    refine hfalse (Or.inl ?_)
    rw [hattested]
    exact VerifiesUnder.attested ⟨pks, hpks, hsig⟩ hsigned hfaithful hshared
  · refine absurd (Or.inr ?_) hfalse
    rw [hhead]
    exact hfinal

/-- The steps of a client whose safety threshold covers the members that are not faithful. -/
def covered (k : ConsensusCrates) (config : Config) (checkpoint : Bytes)
    (faithful : UInt64 → Finset (Fin 512)) : System ConsensusClient where
  init client := (lightClient k config checkpoint).Reachable client
  step client client' := ∃ update, UpdateStep k client update client' ∧
    512 ≤ (safetyThreshold client.store).toNat +
      (faithful (calcSyncPeriod update.signatureSlot)).card

/-- **A third of faithful members is enough.**  If 171 members of each committee sign for headers of
    the chain alone, then in every run from a checkpoint of the chain, whatever the servers answer
    and the other members sign, the committees and the finalized header are those of the chain; and
    the optimistic header stays true as long as the safety threshold is at least the number of the
    other members. -/
theorem faithful_third_safe (k : ConsensusCrates) (config : Config) (checkpoint : Bytes)
    (comm : UInt64 → SyncCommittee) (final : UInt64 → Header) (Attested : Header → Prop)
    (Signed : k.PublicKey → Bytes → Prop) (faithful : UInt64 → Finset (Fin 512))
    (hsigned : Unforgeable k Signed) (hchain : ChainStates k comm final Attested)
    (hfaithful : FaithfulMembers k config comm Attested Signed faithful)
    (henough : ∀ period, 171 ≤ (faithful period).card)
    (hcheckpoint : OfChain k final checkpoint) (client : ConsensusClient)
    (hreach : (lightClient k config checkpoint).Reachable client) :
    Aligned comm client.store ∧
      client.store.finalizedHeader = final client.store.finalizedHeader.slot ∧
      ∀ client', (covered k config checkpoint faithful).Steps client client' →
        TrueHead final Attested client.store → TrueHead final Attested client'.store := by
  have hcommittees := trueCommittees_of_faithful hsigned hchain hfaithful henough hcheckpoint
  have hheaders := trueHeaders_of_faithful hsigned hchain hfaithful henough hcheckpoint
  refine ⟨reachable_aligned hcommittees hreach, reachable_final hcommittees hheaders hreach, ?_⟩
  intro client' hsteps htrue
  have hboth : (lightClient k config checkpoint).Reachable client' ∧
      TrueHead final Attested client'.store := by
    induction hsteps with
    | refl => exact ⟨hreach, htrue⟩
    | tail _ hlast ih =>
      obtain ⟨update, hstep, hcovered⟩ := hlast
      refine ⟨ih.1.step ⟨update, hstep⟩, ?_⟩
      by_contra hfalse
      obtain ⟨hmore, hcount⟩ := false_head_cost hsigned hchain hfaithful henough hcheckpoint ih.1
        hstep ih.2 hfalse
      rw [UInt64.lt_iff_toNat_lt] at hmore
      omega
  exact hboth.2

/-! ## A committee of faithful members -/

/-- The one key has signed for the one header. -/
def memberSigned (pk : periodCrates.PublicKey) (msg : Bytes) : Prop :=
  pk = memberKey.toList ∧ msg = justifiedSigningRoot.toList

theorem member_unforgeable : Unforgeable periodCrates memberSigned := by
  intro (sig : Bytes) msg (pks : List Bytes) hverify pk hpk
  have heq : (sig, msg, pks) = (justifiedSignature.toList, justifiedSigningRoot.toList,
      List.replicate 512 memberKey.toList) := of_decide_eq_true hverify
  simp only [Prod.mk.injEq] at heq
  rw [heq.2.2] at hpk
  exact ⟨List.eq_of_mem_replicate hpk, heq.2.1⟩

theorem member_states : ChainStates periodCrates (fun _ => memberCommittee) periodFinal
    (· = justifiedHeader) where
  current _ _ _ _ hvalid := period_committee_of_proof hvalid
  next _ _ _ _ hvalid := period_committee_of_proof hvalid
  finalized header finalizedHeader branch _ hvalid := by
    unfold isFinalityProofValid isProofValid at hvalid
    split at hvalid
    · rename_i root hroot
      exact period_header hroot
    · cases hvalid

/-- Only one header has the root that has been signed. -/
theorem member_faithful : FaithfulMembers periodCrates mainnet (fun _ => memberCommittee)
    (· = justifiedHeader) memberSigned fun _ => Finset.univ := by
  rintro _ _ _ _ _ header slot ⟨root, signingRoot, hroot, hsigning, _⟩
  have hjustified : root = justifiedRoot := by
    unfold computeCommitteeSignRoot at hsigning
    simp only at hsigning
    split at hsigning
    · cases hsigning
    · rename_i domain _
      obtain ⟨l₁, l₂, hl, _⟩ := List.lookup_eq_some_iff.1 hsigning
      have hmem : ((root, domain), signingRoot) ∈
          [((justifiedRoot, capellaDomain), justifiedSigningRoot)] := by
        rw [hl]
        exact List.mem_append_right _ List.mem_cons_self
      simp only [List.mem_singleton, Prod.mk.injEq] at hmem
      exact hmem.1.1
  subst hjustified
  have hmem : (header, justifiedRoot) ∈ [(checkpointHeader, checkpointRoot),
      (laterCheckpoint, laterCheckpointRoot), (justifiedHeader, justifiedRoot)] := by
    obtain ⟨l₁, l₂, hl, _⟩ := List.lookup_eq_some_iff.1 hroot
    rw [hl]
    exact List.mem_append_right _ List.mem_cons_self
  have hne : justifiedRoot ≠ checkpointRoot ∧ justifiedRoot ≠ laterCheckpointRoot := by
    decide +kernel
  simpa [hne.1, hne.2] using hmem

theorem laterClient_step : ∃ client',
    UpdateStep periodCrates laterClient justifiedOptimistic.toGeneric client' := by
  have hverify : laterClient.verifyGenericUpdate periodCrates 1683699311
      justifiedOptimistic.toGeneric = .ok () := by
    decide +kernel
  have happly : (laterClient.applyGenericUpdate periodCrates 1683699311 1683699311
      justifiedOptimistic.toGeneric).isOk = true := by
    decide +kernel
  cases hok : laterClient.applyGenericUpdate periodCrates 1683699311 1683699311
      justifiedOptimistic.toGeneric with
  | error e =>
    rw [hok] at happly
    cases happly
  | ok client' => exact ⟨client', .optimistic _, ⟨_, hverify⟩, _, _, hok⟩

/-- It follows the committee to a header of the chain. -/
theorem faithful_third_safe_justified : ∃ client',
    UpdateStep periodCrates laterClient justifiedOptimistic.toGeneric client' ∧
      TrueHead periodFinal (· = justifiedHeader) client'.store := by
  obtain ⟨client', hstep⟩ := laterClient_step
  have hcovered : (covered periodCrates mainnet laterCheckpointRoot.toList
      fun _ => Finset.univ).Steps laterClient client' :=
    .single ⟨_, hstep, by decide +kernel⟩
  refine ⟨client', hstep, ?_⟩
  exact (faithful_third_safe periodCrates mainnet laterCheckpointRoot.toList
    (fun _ => memberCommittee) periodFinal (· = justifiedHeader) memberSigned
    (fun _ => Finset.univ) member_unforgeable member_states member_faithful
    (fun _ => by decide +kernel) (fun _ _ hroot _ => period_header hroot) laterClient
    laterClient_reachable).2.2 client' hcovered (Or.inr (by decide +kernel))

end ConsensusClient

end Helios
