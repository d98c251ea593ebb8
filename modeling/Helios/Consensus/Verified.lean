import Helios.Consensus.Alignment

/-!
# Which headers the client has verified

* `VerifiedHeader` — the checkpoint's header, and the headers of accepted updates;
  `reachable_verified` — **the client's two headers are among them**.
* `getExecutionPayload_ok` — a payload served for a slot is that of a block with the root of the
  header of this slot.
* `Unsynced` — a client before its first bootstrap.  Its keys are all zero, so `advance_unsynced`
  never applies anything.
-/

set_option autoImplicit false

namespace Helios

namespace ConsensusClient

variable {k : ConsensusCrates} {config : Config} {checkpoint : Bytes}
  {client client' : ConsensusClient} {update : GenericUpdate}

/-- The headers that a client of this checkpoint can have verified. -/
inductive VerifiedHeader (k : ConsensusCrates) (config : Config) (checkpoint : Bytes) :
    Header → Prop
  | checkpoint {header : Header} {root : Bytes32} : k.headerRoot header = some root →
      root.toList = checkpoint → VerifiedHeader k config checkpoint header
  | attested {client : ConsensusClient} {now : UInt64} {update : GenericUpdate} :
      (lightClient k config checkpoint).Reachable client → update.FromRpc →
      client.verifyGenericUpdate k now update = .ok () →
      VerifiedHeader k config checkpoint update.attestedHeader
  | finalized {client : ConsensusClient} {now : UInt64} {update : GenericUpdate}
      {header : Header} : (lightClient k config checkpoint).Reachable client → update.FromRpc →
      client.verifyGenericUpdate k now update = .ok () → update.finalizedHeader = some header →
      VerifiedHeader k config checkpoint header

/-- **The client's headers are verified ones.** -/
theorem reachable_verified (h : (lightClient k config checkpoint).Reachable client) :
    VerifiedHeader k config checkpoint client.store.optimisticHeader ∧
      VerifiedHeader k config checkpoint client.store.finalizedHeader := by
  refine System.invariant (S := lightClient k config checkpoint)
    (I := fun c => VerifiedHeader k config checkpoint c.store.optimisticHeader ∧
      VerifiedHeader k config checkpoint c.store.finalizedHeader) ?_ ?_ h
  · rintro s ⟨w, client₀, _, hcheckpoint, hboot⟩
    obtain ⟨boot, root, hroot, heq, _, rfl⟩ := bootstrap_ok hboot
    have hv : VerifiedHeader k config checkpoint boot.header :=
      .checkpoint hroot (heq.trans hcheckpoint)
    exact ⟨hv, hv⟩
  · rintro s s' hreach ⟨hopt, hfin⟩ ⟨update, hstep⟩
    obtain ⟨hrpc, ⟨now, hverify⟩, _, _, happly⟩ := hstep
    obtain ⟨hfin', hopt'⟩ := applied_origin happly
    constructor
    · rcases hopt' with heq | heq | hheader
      · exact heq ▸ hopt
      · exact heq ▸ .attested hreach hrpc hverify
      · exact .finalized hreach hrpc hverify hheader
    · rcases hfin' with heq | hheader
      · exact heq ▸ hfin
      · exact .finalized hreach hrpc hverify hheader

/-! ## Payloads of verified headers -/

/-- The payload of a block that the server answers for a header, with the header's root. -/
def PayloadOf (k : ConsensusCrates) (rpc : ConsensusRpc) (header : Header)
    (payload : ExecutionPayload) : Prop :=
  ∃ block root, rpc.getBlock header.slot = .ok block ∧ k.blockRoot block = some root ∧
    k.headerRoot header = some root ∧ block.body.executionPayload = payload

/-- The header that a payload of a slot is checked against. -/
def checkedHeader (client : ConsensusClient) (slot : UInt64) : Option Header :=
  if slot = client.store.optimisticHeader.slot then some client.store.optimisticHeader
  else if slot = client.store.finalizedHeader.slot then some client.store.finalizedHeader
  else none

theorem checkedHeader_slot {slot : UInt64} {header : Header}
    (h : client.checkedHeader slot = some header) : header.slot = slot := by
  unfold checkedHeader at h
  split at h
  · rename_i heq
    cases h
    exact heq.symm
  · split at h
    · rename_i heq
      cases h
      exact heq.symm
    · cases h

/-- **What `get_execution_payload` serves.** -/
theorem getExecutionPayload_ok {rpc : ConsensusRpc} {slot : UInt64} {payload : ExecutionPayload} :
    client.getExecutionPayload k rpc (some slot) = .ok payload ↔
      ∃ header, client.checkedHeader slot = some header ∧ PayloadOf k rpc header payload := by
  have hverified : ∀ verified : Bytes32,
      (if slot = client.store.optimisticHeader.slot then
          rooted (k.headerRoot client.store.optimisticHeader)
        else if slot = client.store.finalizedHeader.slot then
          rooted (k.headerRoot client.store.finalizedHeader)
        else .error (.err (.consensus (.payloadNotFound slot)))) = .ok verified ↔
        ∃ header, client.checkedHeader slot = some header ∧ k.headerRoot header = some verified := by
    intro verified
    unfold checkedHeader
    split
    · simp
    · split <;> simp
  unfold getExecutionPayload
  simp only [Option.getD_some]
  constructor
  · intro h
    split at h
    · cases h
    rename_i block hblock
    split at h
    · cases h
    rename_i blockHash hroot
    split at h
    · cases h
    rename_i verified hv
    obtain ⟨header, hheader, hheaderRoot⟩ := (hverified verified).1 hv
    split at h
    · cases h
    · rename_i heq
      cases h
      rw [not_not] at heq
      rw [← checkedHeader_slot hheader] at hblock
      exact ⟨header, hheader, block, blockHash, answer_ok.1 hblock, rooted_ok.1 hroot,
        heq ▸ hheaderRoot, rfl⟩
  · rintro ⟨header, hheader, block, root, hblock, hroot, hheaderRoot, rfl⟩
    rw [checkedHeader_slot hheader] at hblock
    rw [answer_ok.2 hblock]
    simp only [rooted_ok.2 hroot, (hverified root).2 ⟨header, hheader, hheaderRoot⟩,
      ne_eq, not_true_eq_false, if_false]

theorem getExecutionPayload_latest {rpc : ConsensusRpc} {payload : ExecutionPayload} :
    client.getExecutionPayload k rpc (some client.getHeader.slot) = .ok payload ↔
      PayloadOf k rpc client.getHeader payload := by
  simp [getExecutionPayload_ok, checkedHeader, getHeader]

/-- The header the finalized payload is checked against: the optimistic one, when both have one
    slot. -/
def finalizedTarget (client : ConsensusClient) : Header :=
  if client.getFinalizedHeader.slot = client.getHeader.slot then client.getHeader
  else client.getFinalizedHeader

theorem getExecutionPayload_finalized {rpc : ConsensusRpc} {payload : ExecutionPayload} :
    client.getExecutionPayload k rpc (some client.getFinalizedHeader.slot) = .ok payload ↔
      PayloadOf k rpc client.finalizedTarget payload := by
  have htarget :
      client.checkedHeader client.getFinalizedHeader.slot = some client.finalizedTarget := by
    unfold checkedHeader finalizedTarget getHeader getFinalizedHeader
    split <;> simp
  simp [getExecutionPayload_ok, htarget]

theorem reachable_verified_target (h : (lightClient k config checkpoint).Reachable client) :
    VerifiedHeader k config checkpoint client.finalizedTarget := by
  have hv := reachable_verified h
  unfold finalizedTarget
  split
  · exact hv.1
  · exact hv.2

/-! ## Before the first bootstrap -/

/-- A client whose store is still the default one. -/
def Unsynced (config : Config) (checkpoint : Bytes) (client : ConsensusClient) : Prop :=
  client.store = default ∧ client.config = config ∧ client.initialCheckpoint = checkpoint

/-- No set of participants of the all-zero committee has keys that parse. -/
theorem getParticipatingKeys_default (hzero : k.publicKey (zeroBytes 48) = none)
    {bits : Vector Bool 512} (hbits : getBits bits ≠ 0) {pks : List k.PublicKey} :
    getParticipatingKeys k default bits ≠ .ok pks := by
  intro h
  have hcount : bits.toList.count true ≠ 0 := by
    intro hz
    apply hbits
    rw [getBits, hz]
    rfl
  have htrue : true ∈ bits.toList := List.count_pos_iff.1 (Nat.pos_of_ne_zero hcount)
  obtain ⟨i, hi, hbit⟩ := List.mem_iff_getElem.1 htrue
  have hkeys : ((default : SyncCommittee).pubkeys).toList = List.replicate 512 (zeroBytes 48) :=
    rfl
  have hmem : (zeroBytes 48, true) ∈
      ((default : SyncCommittee).pubkeys).toList.zip bits.toList := by
    have hi' : i < (((default : SyncCommittee).pubkeys).toList.zip bits.toList).length := by
      rw [List.length_zip, hkeys, List.length_replicate, Vector.length_toList]
      rw [Vector.length_toList] at hi
      omega
    have hget := List.getElem_mem hi'
    rw [List.getElem_zip, hbit] at hget
    simpa only [hkeys, List.getElem_replicate] using hget
  have hpk : zeroBytes 48 ∈ participatingPubkeys default bits :=
    List.mem_map.2 ⟨(zeroBytes 48, true), List.mem_filter.2 ⟨hmem, rfl⟩, rfl⟩
  obtain ⟨j, hj, hjk⟩ := List.mem_iff_getElem.1 hpk
  have hall := collectResults_ok.1 h
  have hget := hall.get hj (hall.length_eq ▸ hj)
  simp only [List.get_eq_getElem, hjk, hzero] at hget
  cases hget

/-- Nothing verifies against the default store. -/
theorem verifyGenericUpdate_unsynced (hzero : k.publicKey (zeroBytes 48) = none)
    (h : client.store = default) {now : UInt64} :
    client.verifyGenericUpdate k now update ≠ .ok () := by
  intro hverify
  have hacc := verifyGenericUpdate_ok hverify
  obtain ⟨committee, pks, hsigning, hpks, _⟩ := hacc.signature
  have hcommittee : committee = default := by
    have hp := validPeriod_of_none hacc.period (by rw [h]; rfl)
    unfold signingCommittee at hsigning
    rw [if_pos hp, h] at hsigning
    cases hsigning
    rfl
  rw [hcommittee] at hpks
  exact getParticipatingKeys_default hzero hacc.participation hpks

/-- **Before a bootstrap, `advance` fails and changes nothing.** -/
theorem advance_unsynced (hzero : k.publicKey (zeroBytes 48) = none) (h : client.store = default)
    {w : World} : (advance k w client).1 ≠ .ok () ∧ (advance k w client).2 = client := by
  unfold advance followHead verifyAndApply
  cases hu : answer (w 0).rpc.getFinalityUpdate with
  | error e => simp [Attempt.request, Attempt.andThen]
  | ok update =>
    cases hv : client.verifyGenericUpdate k ((w.drop 1) 0).now update.toGeneric with
    | error e => simp [Attempt.request, Attempt.andThen, hv]
    | ok u => exact absurd hv (verifyGenericUpdate_unsynced hzero h)

end ConsensusClient

end Helios
