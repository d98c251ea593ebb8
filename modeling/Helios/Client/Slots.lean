import Helios.Client.Backfill
import Helios.Consensus.Clock
import Helios.Execution.Panics

/-!
# Slot arithmetic on the sync path

The slot of a bootstrap header is read against the clock before the header is, and the backfill
starts below the head by the length of the history.

* `ExactTimestamp`, `ExactAge` — no operation on the slots wraps.
* `exactAge_iff` — **they do not exactly for a slot that has begun**.
* `bootstrap_not_panics`, `bootstrap_strict` — what `bootstrap` answers then.
* `SlotsExact`, `slots_exact_iff` — **the sync path as a whole**.
* `future_checkpoint` — a header far in the future is accepted as a fresh one.
-/

set_option autoImplicit false

namespace Helios

namespace ConsensusClient

variable {k : ConsensusCrates} {client client' : ConsensusClient} {now slot current : UInt64}
  {w : World} {boot : Bootstrap} {node : Node}

/-! ## Timestamps and ages -/

/-- Neither the product nor the sum in `slot_timestamp` overflows. -/
def ExactTimestamp (client : ConsensusClient) (slot : UInt64) : Prop :=
  (slot * 12).toNat = slot.toNat * 12 ∧
    (client.slotTimestamp slot).toNat = slot.toNat * 12 + client.config.chain.genesisTime.toNat

/-- No operation in `is_valid_checkpoint` wraps: neither timestamp does, nor their difference. -/
def ExactAge (client : ConsensusClient) (current slot : UInt64) : Prop :=
  client.ExactTimestamp current ∧ client.ExactTimestamp slot ∧
    (client.slotTimestamp current - client.slotTimestamp slot).toNat +
      (client.slotTimestamp slot).toNat = (client.slotTimestamp current).toNat

theorem ExactTimestamp.of_lt
    (h : slot.toNat * 12 + client.config.chain.genesisTime.toNat < 2 ^ 64) :
    client.ExactTimestamp slot := by
  have hmul : (slot * 12).toNat = slot.toNat * 12 := by
    rw [UInt64.toNat_mul]
    show slot.toNat * 12 % 2 ^ 64 = _
    omega
  refine ⟨hmul, ?_⟩
  unfold slotTimestamp
  rw [UInt64.toNat_add, hmul]
  omega

theorem exactSub_iff {a b : UInt64} : (a - b).toNat + b.toNat = a.toNat ↔ b ≤ a := by
  rw [UInt64.le_iff_toNat_le, UInt64.toNat_sub]
  have ha := a.toNat_lt
  have hb := b.toNat_lt
  omega

/-- **The age of a slot is exact when the slot has begun, and only then.** -/
theorem exactAge_iff (hcurrent : client.expectedCurrentSlot now = .ok current) :
    client.ExactAge current slot ↔ slot ≤ current := by
  have hnow : client.InTime now current := ⟨current, hcurrent, UInt64.le_refl _⟩
  have hbegun := inTime_iff.1 hnow
  have hlt := now.toNat_lt
  have hexact : client.ExactTimestamp current := .of_lt (by omega)
  unfold ExactAge
  rw [exactSub_iff, UInt64.le_iff_toNat_le, UInt64.le_iff_toNat_le, hexact.2]
  constructor
  · rintro ⟨-, hslot, hle⟩
    rw [hslot.2] at hle
    omega
  · intro hle
    have hslot : client.ExactTimestamp slot := .of_lt (by omega)
    refine ⟨hexact, hslot, ?_⟩
    rw [hslot.2]
    omega

/-! ## Bootstrap -/

theorem expectedCurrentSlot_of_genesis (h : client.config.chain.genesisTime ≤ now) :
    ∃ current, client.expectedCurrentSlot now = .ok current := by
  unfold expectedCurrentSlot
  simp only
  rw [if_neg (UInt64.not_lt.2 h)]
  exact ⟨_, rfl⟩

theorem not_panics_request {σ α : Type} {r : Result α} {s : σ} {f : α → Attempt Fault σ}
    (hr : ¬ Panics r) (hf : ∀ a, r = .ok a → ¬ Panics (f a).1) :
    ¬ Panics (Attempt.request r s f).1 := by
  cases r with
  | error e => exact not_panics_handed hr rfl
  | ok a => exact hf a rfl

theorem not_panics_rooted {r : Option Bytes32} : ¬ Panics (rooted r) := by
  cases r <;> simp [rooted]

/-- The answers of the server and the roots are errors at worst, and the clock has been read. -/
theorem bootstrap_not_panics (h : client.config.chain.genesisTime ≤ (w 1).now) :
    ¬ Panics (bootstrap k w client).1 := by
  obtain ⟨current, hcurrent⟩ := expectedCurrentSlot_of_genesis h
  unfold bootstrap
  apply not_panics_request
  · rw [panics_mapErr]
    exact not_panics_answer
  intro boot _
  apply not_panics_request
  · unfold isValidCheckpoint
    simp [hcurrent]
  intro isValid _
  split
  · simp
  simp only
  apply not_panics_request not_panics_rooted
  intro headerHash _
  split
  · simp
  split <;> simp

/-- A strict client accepts a header of a slot that has begun only when it is recent. -/
theorem bootstrap_strict (hcurrent : client.expectedCurrentSlot (w 1).now = .ok current)
    (hboot : (w 0).rpc.getBootstrap client.initialCheckpoint = .ok boot)
    (hle : boot.header.slot ≤ current) (hstrict : client.config.strictCheckpointAge = true)
    (h : (bootstrap k w client).1 = .ok ()) :
    (current.toNat - boot.header.slot.toNat) * 12 < client.config.maxCheckpointAge.toNat := by
  obtain ⟨hexact, hslot, hsub⟩ := (exactAge_iff hcurrent).2 hle
  unfold bootstrap at h
  rw [hboot] at h
  simp only [answer, mapErr, Attempt.request, isValidCheckpoint, hcurrent, hstrict, and_true] at h
  split at h
  · cases h
  · rename_i hvalid
    rw [Bool.not_eq_false, decide_eq_true_eq, UInt64.lt_iff_toNat_lt] at hvalid
    rw [UInt64.le_iff_toNat_le] at hle
    rw [hexact.2, hslot.2] at hsub
    omega

/-! ## The sync path -/

/-- What is computed with slots on the sync path: the age of the bootstrap header, on which
    `bootstrap` does not panic and a strict one insists, and the start of the backfill, whose
    subtraction is made also when there is a current slot. -/
structure SlotsExact (k : ConsensusCrates) (w : World) (client : ConsensusClient) (node : Node) :
    Prop where
  age : ∀ boot current, (w 0).rpc.getBootstrap client.initialCheckpoint = .ok boot →
    client.expectedCurrentSlot (w 1).now = .ok current → client.ExactAge current boot.header.slot
  returns : ¬ Panics (bootstrap k w client).1
  strict : client.config.strictCheckpointAge = true → (bootstrap k w client).1 = .ok () →
    ∀ boot current, (w 0).rpc.getBootstrap client.initialCheckpoint = .ok boot →
      client.expectedCurrentSlot (w 1).now = .ok current →
      boot.header.slot ≤ current ∧
        (current.toNat - boot.header.slot.toNat) * 12 < client.config.maxCheckpointAge.toNat
  start : (node.consensus.getHeader.slot - node.historySize).toNat + node.historySize.toNat =
    node.consensus.getHeader.slot.toNat

/-- **Slot arithmetic on the sync path is exact when the slot of the bootstrap header has begun and
    the head has a history below it, and only then.** -/
theorem slots_exact_iff (hnow : client.config.chain.genesisTime ≤ (w 1).now) :
    SlotsExact k w client node ↔
      (∀ boot, (w 0).rpc.getBootstrap client.initialCheckpoint = .ok boot →
        client.InTime (w 1).now boot.header.slot) ∧
      node.historySize ≤ node.consensus.getHeader.slot := by
  obtain ⟨current, hcurrent⟩ := expectedCurrentSlot_of_genesis hnow
  have hbegun : ∀ slot, client.InTime (w 1).now slot ↔ slot ≤ current := by
    intro slot
    unfold InTime
    rw [hcurrent]
    simp
  simp only [hbegun]
  constructor
  · intro h
    refine ⟨fun boot hboot => ?_, exactSub_iff.1 h.start⟩
    exact (exactAge_iff hcurrent).1 (h.age boot current hboot hcurrent)
  · rintro ⟨hboots, hhistory⟩
    refine ⟨?_, bootstrap_not_panics hnow, ?_, exactSub_iff.2 hhistory⟩
    · intro boot current' hboot hcurrent'
      rw [hcurrent] at hcurrent'
      cases hcurrent'
      exact (exactAge_iff hcurrent).2 (hboots boot hboot)
    · intro hstrict hok boot current' hboot hcurrent'
      rw [hcurrent] at hcurrent'
      cases hcurrent'
      exact ⟨hboots boot hboot,
        bootstrap_strict hcurrent hboot (hboots boot hboot) hstrict hok⟩

/-! ## A checkpoint of the far future -/

/-- A strict client, started from the checkpoint, and a node that has followed the head. -/
theorem slots_exact_checkpoint :
    SlotsExact Node.chainCrates (fun _ => Node.headMoment Node.honestBlocks)
      (ConsensusClient.new checkpointRoot.toList { mainnet with strictCheckpointAge := true })
      (Node.afterSync Node.honestBlocks) := by
  refine (slots_exact_iff (by decide +kernel)).2 ⟨fun boot hboot => ?_, by decide +kernel⟩
  cases hboot
  exact ⟨6400003, by decide +kernel, by decide +kernel⟩

/-- A slot whose timestamp wraps to four seconds before that of the checkpoint. -/
def futureHeader : Header := { checkpointHeader with slot := 1537228672815529301 }

def futureRoot : Bytes32 :=
  beBytes 32 0x1f5606066ef8e590bf8476d14c36555c31886e2c63faf4011e65bde4f8bf06ea

def futureCrates : ConsensusCrates :=
  { checkpointCrates with
    headerRoot := fun header => if header = futureHeader then some futureRoot else none }

def futureBootstrap : Bootstrap := { checkpointBootstrap with header := futureHeader }

def futureMoment : Moment :=
  { checkpointMoment with
    rpc := { checkpointRpc with getBootstrap := fun _ => .ok futureBootstrap } }

/-- A client that is strict about the age of its checkpoint. -/
def strictClient : ConsensusClient :=
  ConsensusClient.new futureRoot.toList { mainnet with strictCheckpointAge := true }

theorem futureCrates_committeeRoot : futureCrates.committeeRoot = memberRoots := rfl

theorem future_committee_valid : isCurrentCommitteeProofValid futureCrates futureHeader
    memberCommittee (List.replicate 5 (zeroBytes 32)) = true := by
  rw [isCurrentCommitteeProofValid, futureCrates_committeeRoot, memberRoots_member,
    isProofValid.eq_def]
  decide +kernel

/-- A strict client accepts a checkpoint of the far future. -/
theorem future_checkpoint :
    (¬ ∀ (k : ConsensusCrates) (w : World) (client : ConsensusClient) (node : Node),
      client.config.chain.genesisTime ≤ (w 1).now → SlotsExact k w client node) ∧
      (bootstrap futureCrates (fun _ => futureMoment) strictClient).1 = .ok () ∧
      strictClient.expectedCurrentSlot futureMoment.now = .ok 6400003 := by
  have hcurrent : strictClient.expectedCurrentSlot futureMoment.now = .ok 6400003 := by
    decide +kernel
  have hage : strictClient.isValidCheckpoint futureMoment.now futureHeader.slot = .ok true := by
    decide +kernel
  have hroot : futureCrates.headerRoot futureHeader = some futureRoot := by
    simp only [futureCrates, if_true]
  have hok : bootstrap futureCrates (fun _ => futureMoment) strictClient = (.ok (), _) :=
    bootstrap_of_valid rfl hage hroot rfl future_committee_valid
  refine ⟨fun h => ?_, ?_, hcurrent⟩
  · have hexact := (h futureCrates (fun _ => futureMoment) strictClient (Node.new [] mainnet)
      (by decide +kernel)).age futureBootstrap 6400003 rfl hcurrent
    have hle := (exactAge_iff hcurrent).1 hexact
    exact absurd hle (by decide +kernel)
  · rw [hok]

end ConsensusClient

end Helios
