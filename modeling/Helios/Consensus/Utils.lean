import Helios.Consensus.Types

/-!
# Sync periods, proofs and signatures (`consensus/src/utils.rs`)

* `calcSyncPeriod` — the sync committee period of a slot.
* `isProofValid` and its three uses, one per branch of the beacon state.
* `getBits`, `getParticipatingKeys` — the participation bits of an update and the keys they name.
* `computeCommitteeSignRoot`, `verifySyncCommitteeSignture` — what the committee signs.
-/

set_option autoImplicit false

namespace Helios

variable (k : ConsensusCrates)

def calcSyncPeriod (slot : UInt64) : UInt64 :=
  let epoch := slot / 32
  epoch / 256

theorem calcSyncPeriod_toNat (slot : UInt64) :
    (calcSyncPeriod slot).toNat = slot.toNat / 8192 := by
  simp only [calcSyncPeriod, UInt64.toNat_div]
  show slot.toNat / 32 / 256 = slot.toNat / 8192
  omega

theorem calcSyncPeriod_mono {a b : UInt64} (h : a ≤ b) : calcSyncPeriod a ≤ calcSyncPeriod b := by
  rw [UInt64.le_iff_toNat_le] at h ⊢
  rw [calcSyncPeriod_toNat, calcSyncPeriod_toNat]
  exact Nat.div_le_div_right h

/-- Periods are far below the range of `u64`. -/
theorem calcSyncPeriod_succ_toNat (slot : UInt64) :
    (calcSyncPeriod slot + 1).toNat = (calcSyncPeriod slot).toNat + 1 := by
  have hslot := slot.toNat_lt
  have hp := calcSyncPeriod_toNat slot
  rw [UInt64.toNat_add]
  show ((calcSyncPeriod slot).toNat + 1) % 2 ^ 64 = _
  omega

/-! ## Merkle branches -/

def isProofValid (attestedHeader : Header) (leafRoot : Option Bytes32) (branch : List Bytes32)
    (depth index : Nat) : Bool :=
  match leafRoot with
  | some leafHash =>
    k.isValidMerkleBranch leafHash branch depth index attestedHeader.stateRoot
  | none => false

def isFinalityProofValid (attestedHeader finalityHeader : Header)
    (finalityBranch : List Bytes32) : Bool :=
  isProofValid k attestedHeader (k.headerRoot finalityHeader) finalityBranch 6 41

def isNextCommitteeProofValid (attestedHeader : Header) (nextCommittee : SyncCommittee)
    (nextCommitteeBranch : List Bytes32) : Bool :=
  isProofValid k attestedHeader (k.committeeRoot nextCommittee) nextCommitteeBranch 5 23

def isCurrentCommitteeProofValid (attestedHeader : Header) (currentCommittee : SyncCommittee)
    (currentCommitteeBranch : List Bytes32) : Bool :=
  isProofValid k attestedHeader (k.committeeRoot currentCommittee) currentCommitteeBranch 5 22

/-! ## Participation -/

def getBits (bitfield : Vector Bool 512) : UInt64 := UInt64.ofNat (bitfield.toList.count true)

theorem getBits_toNat (bitfield : Vector Bool 512) :
    (getBits bitfield).toNat = bitfield.toList.count true := by
  have hle : bitfield.toList.count true ≤ 512 := by
    have := List.count_le_length (a := true) (l := bitfield.toList)
    rwa [Vector.length_toList] at this
  exact UInt64.toNat_ofNat_of_lt' (by show _ < 2 ^ 64; omega)

theorem getBits_le (bitfield : Vector Bool 512) : (getBits bitfield).toNat ≤ 512 := by
  rw [getBits_toNat]
  have := List.count_le_length (a := true) (l := bitfield.toList)
  rwa [Vector.length_toList] at this

/-- The keys of a committee whose bit is set, in order. -/
def participatingPubkeys (committee : SyncCommittee) (bitfield : Vector Bool 512) :
    List BLSPubKey :=
  ((committee.pubkeys.toList.zip bitfield.toList).filter fun entry => entry.2).map Prod.fst

/-- One key that does not parse is enough to panic (`from_bytes_unchecked(pk).unwrap()`). -/
def getParticipatingKeys (committee : SyncCommittee) (bitfield : Vector Bool 512) :
    Result (List k.PublicKey) :=
  collectResults
    (fun pk => match k.publicKey pk with
      | some key => .ok key
      | none => .error (.panic .publicKeyUnwrap))
    (participatingPubkeys committee bitfield)

/-! ## Signatures -/

def isAggregateValid (sigBytes : SignatureBytes) (msg : Bytes) (pks : List k.PublicKey) : Bool :=
  match k.signature sigBytes with
  | some sig => k.fastAggregateVerify sig msg pks
  | none => false

def computeForkDataRoot (currentVersion : Vector UInt8 4) (genesisValidatorRoot : Bytes32) :
    Option Bytes32 :=
  k.forkDataRoot currentVersion genesisValidatorRoot

/-- The domain type, four bytes, and the first 28 bytes of the fork data root. -/
def computeDomain (domainType : Vector UInt8 4) (forkVersion : Vector UInt8 4)
    (genesisRoot : Bytes32) : Option Bytes32 :=
  match computeForkDataRoot k forkVersion genesisRoot with
  | none => none
  | some forkDataRoot => some ((domainType ++ forkDataRoot.take 28).cast (by decide))

def computeSigningRoot (objectRoot domain : Bytes32) : Option Bytes32 :=
  k.signingDataRoot objectRoot domain

def computeCommitteeSignRoot (config : Config) (header : Bytes32) (slot : UInt64) :
    Option Bytes32 :=
  let domainType := #v[0x07, 0x00, 0x00, 0x00]
  let forkVersion := config.forkVersion slot
  match computeDomain k domainType forkVersion config.chain.genesisRoot with
  | none => none
  | some domain => computeSigningRoot k header domain

def verifySyncCommitteeSignture (config : Config) (pks : List k.PublicKey)
    (attestedHeader : Header) (signature : SignatureBytes) (signatureSlot : UInt64) : Bool :=
  match k.headerRoot attestedHeader with
  | none => false
  | some headerRoot =>
    match computeCommitteeSignRoot k config headerRoot signatureSlot with
    | none => false
    | some signingRoot => isAggregateValid k signature signingRoot.toList pks

end Helios
