import Helios.Client.Payloads
import Helios.Consensus.Clock

/-!
# The thread that polls (`client/src/client.rs`)

`start_advance_thread` calls `advance`, drops its error, and sleeps until four seconds into the next
slot.  The clock is read twice for that, and does not run backwards here.

* `durationUntilNextUpdate` — how long to sleep, in the consensus client and in the node;
  `durationUntilNextUpdate_eq` — what it is, and the panic when a boundary and five seconds fall
  between the two readings.
* `Pass`, `Polled` — one pass of the loop.
* `poll_schedule` — **every pass polls in a later slot than the one before, four seconds into it or
  later**.
* `Prompt`, `Brings` — a pass that ends in its slot, and one that brings the head of the slot
  before.
* `polling_in_sync` — **prompt passes poll every slot, and the node answers as long as no nine of
  them in a row fail to bring such a head**.
-/

set_option autoImplicit false

namespace Helios

open Attempt

/-! ## The sleep -/

/-- The cast wraps, and `Duration::seconds` panics out of the range of milliseconds. -/
def ConsensusClient.durationUntilNextUpdate (client : ConsensusClient) (now now' : UInt64) :
    Result Int :=
  match client.expectedCurrentSlot now with
  | .error e => .error e
  | .ok currentSlot =>
    let nextSlot := currentSlot + 1
    let nextSlotTimestamp := client.slotTimestamp nextSlot
    let timeToNextSlot := nextSlotTimestamp - now'
    let nextUpdate := timeToNextSlot + 4
    let seconds := Int.bmod nextUpdate.toNat (2 ^ 64)
    if seconds.natAbs ≤ ConsensusClient.maxDuration.toNat then .ok seconds
    else .error (.panic .durationOutOfRange)

/-- `to_std` refuses a negative duration. -/
def Node.durationUntilNextUpdate (node : Node) (now now' : UInt64) : Result Nat :=
  match node.consensus.durationUntilNextUpdate now now' with
  | .error e => .error e
  | .ok seconds =>
    if seconds < 0 then .error (.panic .durationOutOfRange) else .ok seconds.toNat

/-- The genesis of the chain that a node follows. -/
def Node.genesis (node : Node) : UInt64 := node.consensus.config.chain.genesisTime

/-- The number of the slot at a time. -/
def slotAt (genesis now : UInt64) : Nat := (now.toNat - genesis.toNat) / 12

/-- When the slot after that begins. -/
def nextStart (genesis now : UInt64) : Nat := genesis.toNat + (slotAt genesis now + 1) * 12

theorem nextStart_bounds {genesis now : UInt64} (h : genesis.toNat ≤ now.toNat) :
    now.toNat < nextStart genesis now ∧ nextStart genesis now ≤ now.toNat + 12 := by
  unfold nextStart slotAt
  omega

theorem slotAt_mono {genesis now now' : UInt64} (h : now ≤ now') :
    slotAt genesis now ≤ slotAt genesis now' := by
  rw [UInt64.le_iff_toNat_le] at h
  unfold slotAt
  exact Nat.div_le_div_right (by omega)

/-- From the beginning of the next slot on, the slot is a later one. -/
theorem slotAt_lt_iff {genesis now now' : UInt64} :
    slotAt genesis now < slotAt genesis now' ↔ nextStart genesis now ≤ now'.toNat := by
  unfold nextStart slotAt
  omega

section Sleep

variable {node : Node} {now now' : UInt64}

theorem maxDuration_toNat : ConsensusClient.maxDuration.toNat = 9223372036854775 := rfl

/-- The timestamp of the next slot does not overflow in the range of `chrono`. -/
theorem nextSlotTimestamp_toNat {client : ConsensusClient} {current : UInt64}
    (hcurrent : client.expectedCurrentSlot now = .ok current)
    (hrange : now.toNat ≤ 9223372036854775) :
    (client.slotTimestamp (current + 1)).toNat = nextStart client.config.chain.genesisTime now := by
  obtain ⟨hgenesis, hslot⟩ := ConsensusClient.expectedCurrentSlot_ok.1 hcurrent
  have h1 : (1 : UInt64).toNat = 1 := rfl
  have h12 : (12 : UInt64).toNat = 12 := rfl
  unfold ConsensusClient.slotTimestamp nextStart slotAt
  rw [UInt64.toNat_add, UInt64.toNat_mul, UInt64.toNat_add, hslot, h1, h12]
  omega

/-- What the two wrapping operations leave, read as a signed number: negative when the slot has
    begun more than four seconds ago. -/
theorem nextUpdate_signed {timestamp : UInt64} (hlow : timestamp.toNat ≤ now'.toNat + 12)
    (hrange : now'.toNat ≤ 9223372036854775) :
    Int.bmod (timestamp - now' + 4).toNat (2 ^ 64) = (timestamp.toNat : Int) + 4 - now'.toNat := by
  have h4 : (4 : UInt64).toNat = 4 := rfl
  rw [UInt64.toNat_add, UInt64.toNat_sub, h4]
  unfold Int.bmod
  simp only
  split <;> omega

/-- **How long the thread sleeps.** -/
theorem durationUntilNextUpdate_eq (hgenesis : node.genesis ≤ now) (hle : now ≤ now')
    (hrange : now' ≤ ConsensusClient.maxDuration) :
    node.durationUntilNextUpdate now now' =
      if nextStart node.genesis now + 4 < now'.toNat then .error (.panic .durationOutOfRange)
      else .ok (nextStart node.genesis now + 4 - now'.toNat) := by
  unfold Node.genesis at hgenesis ⊢
  rw [UInt64.le_iff_toNat_le] at hgenesis hle hrange
  rw [maxDuration_toNat] at hrange
  obtain ⟨hafter, hbefore⟩ := nextStart_bounds hgenesis
  obtain ⟨current, hcurrent⟩ : ∃ current, node.consensus.expectedCurrentSlot now = .ok current := by
    unfold ConsensusClient.expectedCurrentSlot
    rw [if_neg (by rw [UInt64.lt_iff_toNat_lt]; omega)]
    exact ⟨_, rfl⟩
  have hstamp := nextSlotTimestamp_toNat hcurrent (by omega)
  have hsigned : Int.bmod (node.consensus.slotTimestamp (current + 1) - now' + 4).toNat (2 ^ 64) =
      _ := nextUpdate_signed (by omega) hrange
  rw [hstamp] at hsigned
  unfold Node.durationUntilNextUpdate ConsensusClient.durationUntilNextUpdate
  simp only [hcurrent, hsigned, maxDuration_toNat]
  generalize nextStart node.consensus.config.chain.genesisTime now = next at *
  rw [if_pos (by omega)]
  simp only
  by_cases hlate : next + 4 < now'.toNat
  · rw [if_pos hlate, if_pos (by omega)]
  · rw [if_neg hlate, if_neg (by omega), Except.ok.injEq]
    omega

end Sleep

/-! ## The head and the clock -/

namespace ConsensusClient

variable {k : ConsensusCrates} {client client' : ConsensusClient} {w : World}
  {update : GenericUpdate} {verified logged logged' : UInt64} {limit : UInt64}

/-- The slot of the head has begun by a time. -/
def HeadInTime (limit : UInt64) (client : ConsensusClient) : Prop :=
  client.InTime limit client.getHeader.slot

/-- An update that is accepted by that time leaves it so. -/
theorem HeadInTime.apply (h : client.HeadInTime limit) (hle : verified ≤ limit)
    (hverify : client.verifyGenericUpdate k verified update = .ok ())
    (happly : client.applyGenericUpdate k logged logged' update = .ok client') :
    client'.HeadInTime limit := by
  obtain ⟨hattested, hfinalized⟩ := accepted_inTime hverify
  refine InTime.of_config ?_ (applyGenericUpdate_config happly).1
  unfold getHeader
  rcases (applied_origin happly).2 with heq | heq | hheader
  · rw [heq]
    exact h
  · rw [heq]
    exact hattested.mono hle
  · rw [← updateFinalizedSlot_some hheader]
    exact hfinalized.mono hle

theorem HeadInTime.verifyAndApply (h : client.HeadInTime limit) (hle : ∀ i, (w i).now ≤ limit) :
    (verifyAndApply k w update client).2.HeadInTime limit :=
  request_snd h fun _ hverify => request_snd h fun _ happly => h.apply (hle 0) hverify happly

theorem HeadInTime.followHead (h : client.HeadInTime limit) (hle : ∀ i, (w i).now ≤ limit) :
    (followHead k w client).2.HeadInTime limit := by
  refine request_snd h fun finalityUpdate _ => ?_
  have hmid : (ConsensusClient.verifyAndApply k (w.drop 1) finalityUpdate.toGeneric
      client).2.HeadInTime limit := h.verifyAndApply fun i => hle _
  refine andThen_snd hmid fun mid heq => ?_
  rw [heq] at hmid
  exact request_snd hmid fun _ _ => hmid.verifyAndApply fun i => hle _

theorem HeadInTime.fetchCommittee (h : client.HeadInTime limit) (hle : ∀ i, (w i).now ≤ limit) :
    (fetchCommittee k w client).2.HeadInTime limit := by
  unfold ConsensusClient.fetchCommittee
  split
  · refine request_snd h fun updates _ => ?_
    split
    · split
      · exact h
      · exact h
      · rename_i hverify
        exact request_snd h fun _ happly => h.apply (hle 1) hverify happly
    · exact h
  · exact h

/-- **`advance` does not run ahead of the time when it is done**, whatever fails. -/
theorem HeadInTime.advance (h : client.HeadInTime limit) (hle : ∀ i, (w i).now ≤ limit) :
    (advance k w client).2.HeadInTime limit := by
  have hmid : (ConsensusClient.followHead k w client).2.HeadInTime limit := h.followHead hle
  refine andThen_snd hmid fun mid heq => ?_
  rw [heq] at hmid
  exact hmid.fetchCommittee fun i => hle _

end ConsensusClient

/-! ## One pass of the loop -/

/-- What one pass of the loop meets: the moments of `advance`, when it is done, the two readings of
    the clock after it, and when the sleep is over. -/
structure Pass where
  w : World
  w' : World
  done : UInt64
  now : UInt64
  now' : UInt64
  woken : UInt64

/-- One pass, from a node and the time when it is called to those of the next pass.  A panic would
    have ended the process, in `advance` or in the computation of the sleep. -/
structure Polled (k : ConsensusCrates) (s : Node × UInt64) (p : Pass) (s' : Node × UInt64) :
    Prop where
  node : s'.1 = (s.1.advance k p.w p.w').2
  survived : ∀ site, (s.1.advance k p.w p.w').1 ≠ .error (.panic site)
  moments : ∀ i, s.2 ≤ (p.w i).now ∧ (p.w i).now ≤ p.done
  done : s.2 ≤ p.done
  now : p.done ≤ p.now
  now' : p.now ≤ p.now'
  range : p.now' ≤ ConsensusClient.maxDuration
  slept : ∃ seconds, s'.1.durationUntilNextUpdate p.now p.now' = .ok seconds ∧
    p.now'.toNat + seconds ≤ p.woken.toNat
  woken : s'.2 = p.woken

section Passes

variable {k : ConsensusCrates} {s s' : Node × UInt64} {p : Pass}

theorem advance_consensus {node : Node} {w w' : World} :
    (node.advance k w w').2.consensus = (node.consensus.advance k w).2 := by
  rw [← Node.run_advance, Node.run_consensus]
  rfl

/-- What a pass does to the consensus client. -/
theorem Polled.steps (h : Polled k s p s') :
    ConsensusClient.UpdateSteps k s.1.consensus s'.1.consensus := by
  rw [h.node, advance_consensus]
  exact ConsensusClient.advance_steps

theorem Polled.genesis (h : Polled k s p s') : s'.1.genesis = s.1.genesis := by
  unfold Node.genesis
  rw [h.steps.config.1]

/-- A pass that goes on has read the clock within five seconds of the boundary, and sleeps until
    four seconds into the slot after the first reading. -/
theorem Polled.sleep (h : Polled k s p s') (hgenesis : s.1.genesis ≤ s.2) :
    p.now'.toNat ≤ nextStart s.1.genesis p.now + 4 ∧
      nextStart s.1.genesis p.now + 4 ≤ s'.2.toNat := by
  obtain ⟨seconds, hseconds, hwoken⟩ := h.slept
  have hbegun : s'.1.genesis ≤ p.now := by
    rw [h.genesis]
    exact UInt64.le_trans hgenesis (UInt64.le_trans h.done h.now)
  rw [durationUntilNextUpdate_eq hbegun h.now' h.range, h.genesis] at hseconds
  split at hseconds
  · cases hseconds
  rename_i hlate
  cases hseconds
  rw [h.woken]
  omega

/-- The next pass polls in a later slot. -/
theorem Polled.slot_lt (h : Polled k s p s') (hgenesis : s.1.genesis ≤ s.2) :
    slotAt s.1.genesis s.2 < slotAt s.1.genesis s'.2 := by
  obtain ⟨_, hwoken⟩ := h.sleep hgenesis
  have hle : slotAt s.1.genesis s.2 ≤ slotAt s.1.genesis p.now :=
    slotAt_mono (UInt64.le_trans h.done h.now)
  have hlt : slotAt s.1.genesis p.now < slotAt s.1.genesis s'.2 :=
    slotAt_lt_iff.2 (Nat.le_of_add_right_le hwoken)
  omega

theorem Polled.le (h : Polled k s p s') (hgenesis : s.1.genesis ≤ s.2) : s.2 ≤ s'.2 := by
  obtain ⟨_, hwoken⟩ := h.sleep hgenesis
  have hnow := UInt64.le_trans h.done h.now
  have hnext := nextStart_bounds (UInt64.le_iff_toNat_le.1 (UInt64.le_trans hgenesis hnow))
  rw [UInt64.le_iff_toNat_le] at hnow ⊢
  omega

/-- The bounds on the store, and the head against the clock. -/
structure Synced (s : Node × UInt64) : Prop where
  begun : s.1.genesis ≤ s.2
  bounded : ConsensusClient.Bounded s.1.consensus.store
  head : s.1.consensus.HeadInTime s.2

/-- The head after a pass has begun when the pass is done. -/
theorem Polled.headInTime (h : Polled k s p s') (hs : Synced s) :
    s'.1.consensus.HeadInTime p.done := by
  rw [h.node, advance_consensus]
  have hhead : s.1.consensus.HeadInTime p.done := hs.head.mono h.done
  exact hhead.advance fun i => (h.moments i).2

theorem Polled.synced (h : Polled k s p s') (hs : Synced s) : Synced s' where
  begun := by
    rw [h.genesis]
    exact UInt64.le_trans hs.begun (h.le hs.begun)
  bounded := (ConsensusClient.headers_steps hs.bounded h.steps).1
  head := by
    have hwoken : p.done ≤ s'.2 := by
      obtain ⟨seconds, _, hslept⟩ := h.slept
      have hread := UInt64.le_iff_toNat_le.1 (UInt64.le_trans h.now h.now')
      rw [h.woken, UInt64.le_iff_toNat_le]
      omega
    exact (h.headInTime hs).mono hwoken

theorem Polled.head_le (h : Polled k s p s') (hs : Synced s) :
    s.1.consensus.getHeader.slot.toNat ≤ s'.1.consensus.getHeader.slot.toNat :=
  UInt64.le_iff_toNat_le.1 (ConsensusClient.headers_steps hs.bounded h.steps).2

/-- The age check of a head that has begun. -/
theorem checkHeadAge_iff {node : Node} {now : UInt64} (h : node.consensus.HeadInTime now) :
    node.checkHeadAge now = .ok () ↔
      slotAt node.genesis now ≤ node.consensus.getHeader.slot.toNat + 10 := by
  obtain ⟨expected, hexpected, hle⟩ := h
  have hslot : expected.toNat = slotAt node.genesis now :=
    (ConsensusClient.expectedCurrentSlot_ok.1 hexpected).2
  have h10 : (10 : UInt64).toNat = 10 := rfl
  unfold Node.checkHeadAge
  rw [hexpected, ← hslot]
  simp only
  split
  · rename_i hdelay
    rw [gt_iff_lt, UInt64.lt_iff_toNat_lt, UInt64.toNat_sub_of_le _ _ hle, h10] at hdelay
    simp only [reduceCtorEq, false_iff]
    omega
  · rename_i hdelay
    rw [gt_iff_lt, UInt64.lt_iff_toNat_lt, UInt64.toNat_sub_of_le _ _ hle, h10] at hdelay
    simp only [true_iff]
    omega

end Passes

/-! ## Runs of the thread -/

section Runs

variable {k : ConsensusCrates} {n : Nat} {thread : Nat → Node × UInt64} {passes : Nat → Pass}

/-- The first passes of a thread, one after the other. -/
def Polling (k : ConsensusCrates) (n : Nat) (thread : Nat → Node × UInt64)
    (passes : Nat → Pass) : Prop :=
  ∀ i, i < n → Polled k (thread i) (passes i) (thread (i + 1))

theorem Polling.genesis (h : Polling k n thread passes)
    (hstart : (thread 0).1.genesis ≤ (thread 0).2) :
    ∀ i, i ≤ n → (thread i).1.genesis = (thread 0).1.genesis ∧
      (thread 0).1.genesis ≤ (thread i).2 := by
  intro i
  induction i with
  | zero => exact fun _ => ⟨rfl, hstart⟩
  | succ i ih =>
    intro hi
    obtain ⟨hgenesis, hbegun⟩ := ih (by omega)
    have hpolled := h i (by omega)
    refine ⟨hpolled.genesis.trans hgenesis, UInt64.le_trans hbegun (hpolled.le ?_)⟩
    rw [hgenesis]
    exact hbegun

/-- **Slots are polled in order, each at most once.** -/
theorem Polling.slot_lt (h : Polling k n thread passes)
    (hstart : (thread 0).1.genesis ≤ (thread 0).2) {i : Nat} :
    ∀ {j}, i < j → j ≤ n →
      slotAt (thread 0).1.genesis (thread i).2 < slotAt (thread 0).1.genesis (thread j).2 := by
  intro j hlt
  induction hlt with
  | refl =>
    intro hi
    obtain ⟨hgenesis, hbegun⟩ := h.genesis hstart i (by omega)
    have hnext := (h i (by omega)).slot_lt (by rw [hgenesis]; exact hbegun)
    rw [hgenesis] at hnext
    exact hnext
  | @step j _ ih =>
    intro hj
    obtain ⟨hgenesis, hbegun⟩ := h.genesis hstart j (by omega)
    have hnext := (h j (by omega)).slot_lt (by rw [hgenesis]; exact hbegun)
    rw [hgenesis] at hnext
    exact (ih (by omega)).trans hnext

theorem Polling.synced (h : Polling k n thread passes) (hstart : Synced (thread 0)) :
    ∀ i, i ≤ n → Synced (thread i) := by
  intro i
  induction i with
  | zero => exact fun _ => hstart
  | succ i ih => exact fun hi => (h i (by omega)).synced (ih (by omega))

/-- The head does not go back in later passes. -/
theorem Polling.head_le (h : Polling k n thread passes) (hstart : Synced (thread 0)) {i : Nat} :
    ∀ {j}, i ≤ j → j ≤ n → (thread i).1.consensus.getHeader.slot.toNat ≤
      (thread j).1.consensus.getHeader.slot.toNat := by
  intro j hle
  induction hle with
  | refl => exact fun _ => Nat.le_refl _
  | @step j _ ih =>
    intro hj
    exact (ih (by omega)).trans ((h j (by omega)).head_le (h.synced hstart j (by omega)))

/-- **The schedule.**  However long its calls of `advance` take and whatever fails in them, the
    thread polls in ever later slots, from four seconds on after the slot of the reading before; and
    the next sleep ends there, or is a panic when the second reading is later than that. -/
theorem poll_schedule (k : ConsensusCrates) (n : Nat) (thread : Nat → Node × UInt64)
    (passes : Nat → Pass) (hstart : (thread 0).1.genesis ≤ (thread 0).2)
    (h : Polling k n thread passes) :
    (∀ i j, i < j → j ≤ n →
      slotAt (thread 0).1.genesis (thread i).2 < slotAt (thread 0).1.genesis (thread j).2) ∧
    (∀ i, i < n →
      nextStart (thread 0).1.genesis (passes i).now + 4 ≤ (thread (i + 1)).2.toNat) ∧
    ∀ w w' now now', (thread n).2 ≤ now → now ≤ now' → now' ≤ ConsensusClient.maxDuration →
      (∀ seconds, ((thread n).1.advance k w w').2.durationUntilNextUpdate now now' = .ok seconds ↔
        now'.toNat + seconds = nextStart (thread 0).1.genesis now + 4) ∧
      (((thread n).1.advance k w w').2.durationUntilNextUpdate now now' =
          .error (.panic .durationOutOfRange) ↔
        nextStart (thread 0).1.genesis now + 4 < now'.toNat) := by
  refine ⟨fun i j hlt hj => h.slot_lt hstart hlt hj, fun i hi => ?_, ?_⟩
  · obtain ⟨hgenesis, hbegun⟩ := h.genesis hstart i (by omega)
    have hsleep := (h i hi).sleep (by rw [hgenesis]; exact hbegun)
    rw [hgenesis] at hsleep
    exact hsleep.2
  · intro w w' now now' hdone hle hrange
    obtain ⟨hgenesis, hbegun⟩ := h.genesis hstart n (Nat.le_refl n)
    have hnode : ((thread n).1.advance k w w').2.genesis = (thread 0).1.genesis := by
      have hsteps : ConsensusClient.UpdateSteps k (thread n).1.consensus
          ((thread n).1.advance k w w').2.consensus := by
        rw [advance_consensus]
        exact ConsensusClient.advance_steps
      unfold Node.genesis at hgenesis ⊢
      rw [hsteps.config.1, hgenesis]
    have hnow : ((thread n).1.advance k w w').2.genesis ≤ now := by
      rw [hnode]
      exact UInt64.le_trans hbegun hdone
    rw [durationUntilNextUpdate_eq hnow hle hrange, hnode]
    split
    · rename_i hlate
      refine ⟨fun seconds => ⟨fun hok => ?_, fun hsum => ?_⟩, by simp [hlate]⟩
      · cases hok
      · omega
    · rename_i hlate
      refine ⟨fun seconds => ?_, by simp [hlate]⟩
      rw [Except.ok.injEq]
      omega

/-- A pass that has read the clock in the slot in which it polled, and is woken before the next
    slot is over. -/
structure Prompt (genesis : UInt64) (s : Node × UInt64) (p : Pass) : Prop where
  read : slotAt genesis p.now ≤ slotAt genesis s.2
  woken : p.woken.toNat < nextStart genesis p.now + 12

/-- A pass that leaves the head of the slot before its own, or a later one. -/
def Brings (genesis : UInt64) (s s' : Node × UInt64) : Prop :=
  slotAt genesis s.2 ≤ s'.1.consensus.getHeader.slot.toNat + 1

/-- **Prompt passes poll every slot.** -/
theorem Polling.slot_eq (h : Polling k n thread passes)
    (hstart : (thread 0).1.genesis ≤ (thread 0).2)
    (hprompt : ∀ i, i < n → Prompt (thread 0).1.genesis (thread i) (passes i)) :
    ∀ i, i ≤ n → slotAt (thread 0).1.genesis (thread i).2 =
      slotAt (thread 0).1.genesis (thread 0).2 + i := by
  intro i
  induction i with
  | zero => exact fun _ => rfl
  | succ i ih =>
    intro hi
    have hlt := h.slot_lt hstart (Nat.lt_add_one i) hi
    obtain ⟨hread, hwoken⟩ := hprompt i (by omega)
    have hle : slotAt (thread 0).1.genesis (thread (i + 1)).2 ≤
        slotAt (thread 0).1.genesis (passes i).now + 1 := by
      rw [(h i (by omega)).woken]
      unfold nextStart at hwoken
      unfold slotAt at hwoken ⊢
      omega
    have hslot := ih (by omega)
    omega

/-- **Staying in sync.**  When every pass is prompt the thread polls each slot once, and between one
    pass and the next the node answers exactly while its head is at most ten slots old.  So it
    answers throughout if of the passes before, the last nine at most, one has brought the head of
    the slot before its own. -/
theorem polling_in_sync (k : ConsensusCrates) (n : Nat) (thread : Nat → Node × UInt64)
    (passes : Nat → Pass) (hstart : Synced (thread 0)) (h : Polling k n thread passes)
    (hprompt : ∀ i, i < n → Prompt (thread 0).1.genesis (thread i) (passes i)) :
    (∀ i, i ≤ n → slotAt (thread 0).1.genesis (thread i).2 =
      slotAt (thread 0).1.genesis (thread 0).2 + i) ∧
    ∀ i, i < n → ∀ now, (passes i).done ≤ now → now ≤ (thread (i + 1)).2 →
      ((thread (i + 1)).1.checkHeadAge now = .ok () ↔ slotAt (thread 0).1.genesis now ≤
        (thread (i + 1)).1.consensus.getHeader.slot.toNat + 10) ∧
      ((∃ j, j ≤ i ∧ i ≤ j + 8 ∧ Brings (thread 0).1.genesis (thread j) (thread (j + 1))) →
        (thread (i + 1)).1.checkHeadAge now = .ok ()) := by
  have hslots := h.slot_eq hstart.begun hprompt
  refine ⟨hslots, fun i hi now hdone hnext => ?_⟩
  have hhead := (h i hi).headInTime (h.synced hstart i (by omega))
  have hiff := checkHeadAge_iff (hhead.mono hdone)
  rw [(h.genesis hstart.begun (i + 1) hi).1] at hiff
  refine ⟨hiff, ?_⟩
  rintro ⟨j, hji, hij, hbrings⟩
  rw [hiff]
  have hslot := @slotAt_mono (thread 0).1.genesis _ _ hnext
  rw [hslots (i + 1) hi] at hslot
  unfold Brings at hbrings
  rw [hslots j (by omega)] at hbrings
  have hkept := h.head_le hstart (Nat.add_le_add_right hji 1) hi
  omega

end Runs

/-! ## A server that has gone silent -/

section Silence

open ConsensusClient

/-- A node at its checkpoint. -/
def quietNode : Node := { Node.new checkpointRoot.toList mainnet with consensus := bootstrapped }

/-- Four seconds into the slot after that of the checkpoint, and twelve seconds for every poll. -/
def quietAt (i : Nat) : UInt64 := UInt64.ofNat (1683624039 + 12 * i)

/-- Nothing is answered, in no time. -/
def quietPass (i : Nat) : Pass where
  w := fun _ => { checkpointMoment with now := quietAt i }
  w' := fun _ => { checkpointMoment with now := quietAt i }
  done := quietAt i
  now := quietAt i
  now' := quietAt i
  woken := quietAt (i + 1)

theorem quietAt_toNat {i : Nat} (hi : i ≤ 9) : (quietAt i).toNat = 1683624039 + 12 * i := by
  unfold quietAt
  exact UInt64.toNat_ofNat_of_lt' (by show _ < 2 ^ 64; omega)

theorem quietNode_genesis : quietNode.genesis.toNat = 1606824023 := rfl

theorem quietNode_advance {w w' : World} (hw : (w 0).rpc = checkpointRpc) :
    quietNode.advance checkpointCrates w w' =
      (.error (.err (.consensusAdvanceError (.rpc "finality_update"))), quietNode) := by
  have hfollow : followHead checkpointCrates w bootstrapped =
      (.error (.err (.rpc "finality_update")), bootstrapped) := by
    unfold followHead
    rw [hw]
    rfl
  unfold Node.advance Node.advanceConsensus
  have hadvance : ConsensusClient.advance checkpointCrates w quietNode.consensus =
      (.error (.err (.rpc "finality_update")), bootstrapped) := by
    unfold ConsensusClient.advance
    change andThen (followHead checkpointCrates w bootstrapped) _ = _
    rw [hfollow]
    rfl
  rw [hadvance]
  rfl

theorem quiet_polled {i : Nat} (hi : i < 9) :
    Polled checkpointCrates (quietNode, quietAt i) (quietPass i) (quietNode, quietAt (i + 1)) := by
  have hnow := quietAt_toNat (i := i) (by omega)
  have hnext := quietAt_toNat (i := i + 1) (by omega)
  have hrange : quietAt i ≤ maxDuration := by
    rw [UInt64.le_iff_toNat_le, hnow, maxDuration_toNat]
    omega
  have hadvance : quietNode.advance checkpointCrates (quietPass i).w (quietPass i).w' = _ :=
    quietNode_advance rfl
  refine ⟨?_, ?_, fun _ => ⟨UInt64.le_refl _, UInt64.le_refl _⟩, UInt64.le_refl _,
    UInt64.le_refl _, UInt64.le_refl _, hrange, ⟨12, ?_, ?_⟩, rfl⟩
  · rw [hadvance]
  · rw [hadvance]
    intro site h
    cases h
  · have hbegun : quietNode.genesis ≤ quietAt i := by
      rw [UInt64.le_iff_toNat_le, hnow, quietNode_genesis]
      omega
    change quietNode.durationUntilNextUpdate (quietAt i) (quietAt i) = _
    rw [durationUntilNextUpdate_eq hbegun (UInt64.le_refl _) hrange]
    unfold nextStart slotAt
    rw [hnow, quietNode_genesis, if_neg (by omega), Except.ok.injEq]
    omega
  · change (quietAt i).toNat + 12 ≤ (quietAt (i + 1)).toNat
    omega

theorem quiet_synced : Synced (quietNode, quietAt 0) where
  begun := by decide +kernel
  bounded := reachable_bounded checkpoint_reachable
  head := inTime_iff.2 (by decide +kernel)

theorem quiet_prompt {i : Nat} (hi : i < 9) :
    Prompt quietNode.genesis (quietNode, quietAt i) (quietPass i) where
  read := Nat.le_refl _
  woken := by
    have hnow := quietAt_toNat (i := i) (by omega)
    have hnext := quietAt_toNat (i := i + 1) (by omega)
    change (quietAt (i + 1)).toNat < nextStart quietNode.genesis (quietAt i) + 12
    unfold nextStart slotAt
    rw [hnow, hnext, quietNode_genesis]
    omega

/-- The second reading of the clock comes a whole slot after the first. -/
theorem poll_schedule_late : (quietNode.advance checkpointCrates (quietPass 9).w
    (quietPass 9).w').2.durationUntilNextUpdate (quietAt 9) (quietAt 9 + 13) =
      .error (.panic .durationOutOfRange) := by
  refine (((poll_schedule checkpointCrates 9 (fun i => (quietNode, quietAt i)) quietPass
    quiet_synced.begun fun i hi => quiet_polled hi).2.2 (quietPass 9).w (quietPass 9).w' (quietAt 9)
    (quietAt 9 + 13) ?_ ?_ ?_).2).2 ?_
  · exact UInt64.le_refl _
  · decide +kernel
  · decide +kernel
  · decide +kernel

/-- Nothing is answered for nine polls, and the node still answers when the next one is due. -/
theorem polling_in_sync_quiet : quietNode.checkHeadAge (quietAt 9) = .ok () := by
  have hin := (polling_in_sync checkpointCrates 9 (fun i => (quietNode, quietAt i)) quietPass
    quiet_synced (fun i hi => quiet_polled hi) fun i hi => quiet_prompt hi).2 8 (by decide)
      (quietAt 9) (by decide +kernel) (UInt64.le_refl _)
  refine hin.2 ⟨0, by decide, by decide, ?_⟩
  show slotAt quietNode.genesis (quietAt 0) ≤ quietNode.consensus.getHeader.slot.toNat + 1
  decide +kernel

end Silence

end Helios
