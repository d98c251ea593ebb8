import Helios.Consensus.Headers
import Helios.Consensus.Alignment

/-!
# The store and the clock

An update is accepted when its signature slot has begun.  The headers it brings have smaller slots,
but they are read against the clock elsewhere, and later.

* `clocked` — a client and the time: time passes, and accepted updates are applied as it does.
* `InTime`, `InTime.timestamp` — a slot that has begun, and what that says of its timestamp.
* `clocked_invariant` — the headers are bounded and have begun.
* `store_behind_clock` — **so at every later time neither the age of the head nor its timestamp
  leaves the range of its type**.
-/

set_option autoImplicit false

namespace Helios

namespace ConsensusClient

variable {k : ConsensusCrates} {config : Config} {checkpoint : Bytes}
  {client client' : ConsensusClient} {now later : UInt64} {slot : UInt64}

/-- A client, and a clock that never runs backwards.  A step lets time pass, or applies an update
    that was accepted at one time, and logged at two times after it. -/
def clocked (k : ConsensusCrates) (config : Config) (checkpoint : Bytes) :
    System (ConsensusClient × UInt64) where
  init s := ∃ w client₀, client₀.config = config ∧ client₀.initialCheckpoint = checkpoint ∧
    bootstrap k w client₀ = (.ok (), s.1) ∧
    ∃ current, s.1.expectedCurrentSlot s.2 = .ok current ∧
      s.1.store.finalizedHeader.slot ≤ current
  step s s' := s.2 ≤ s'.2 ∧
    (s'.1 = s.1 ∨
      ∃ update verified logged logged', s.2 ≤ verified ∧ verified ≤ logged ∧ logged ≤ logged' ∧
        logged' ≤ s'.2 ∧ s.1.verifyGenericUpdate k verified update = .ok () ∧
        s.1.applyGenericUpdate k logged logged' update = .ok s'.1)

/-! ## Slots that have begun -/

/-- The slot has begun. -/
def InTime (client : ConsensusClient) (now slot : UInt64) : Prop :=
  ∃ current, client.expectedCurrentSlot now = .ok current ∧ slot ≤ current

theorem expectedCurrentSlot_ok {current : UInt64} :
    client.expectedCurrentSlot now = .ok current ↔
      client.config.chain.genesisTime.toNat ≤ now.toNat ∧
        current.toNat = (now.toNat - client.config.chain.genesisTime.toNat) / 12 := by
  unfold expectedCurrentSlot
  simp only
  have hlt := now.toNat_lt
  have hnat : client.config.chain.genesisTime.toNat ≤ now.toNat →
      ((now - client.config.chain.genesisTime) / 12).toNat =
        (now.toNat - client.config.chain.genesisTime.toNat) / 12 := by
    intro hle
    rw [UInt64.toNat_div, UInt64.toNat_sub_of_le _ _ (UInt64.le_iff_toNat_le.2 hle)]
    rfl
  split
  · rename_i hbefore
    rw [UInt64.lt_iff_toNat_lt] at hbefore
    constructor
    · intro h
      cases h
    · rintro ⟨hle, _⟩
      omega
  · rename_i hafter
    rw [UInt64.lt_iff_toNat_lt, Nat.not_lt] at hafter
    rw [Except.ok.injEq]
    constructor
    · rintro rfl
      exact ⟨hafter, hnat hafter⟩
    · rintro ⟨_, hcurrent⟩
      exact UInt64.toNat_inj.1 ((hnat hafter).trans hcurrent.symm)

/-- A slot has begun when its timestamp, as a number, has been reached. -/
theorem inTime_iff : client.InTime now slot ↔
    slot.toNat * 12 + client.config.chain.genesisTime.toNat ≤ now.toNat := by
  unfold InTime
  simp only [expectedCurrentSlot_ok, UInt64.le_iff_toNat_le]
  have hlt := now.toNat_lt
  constructor
  · rintro ⟨current, ⟨hgenesis, hcurrent⟩, hle⟩
    omega
  · intro h
    refine ⟨UInt64.ofNat ((now.toNat - client.config.chain.genesisTime.toNat) / 12), ⟨by omega, ?_⟩,
      ?_⟩
    · exact UInt64.toNat_ofNat_of_lt' (by show _ < 2 ^ 64; omega)
    · rw [UInt64.toNat_ofNat_of_lt' (by show _ < 2 ^ 64; omega)]
      omega

theorem InTime.mono (h : client.InTime now slot) (hle : now ≤ later) :
    client.InTime later slot := by
  rw [inTime_iff] at h ⊢
  rw [UInt64.le_iff_toNat_le] at hle
  omega

/-- An earlier slot has begun too. -/
theorem InTime.of_le {slot' : UInt64} (h : client.InTime now slot) (hle : slot' ≤ slot) :
    client.InTime now slot' := by
  obtain ⟨current, hcurrent, hslot⟩ := h
  exact ⟨current, hcurrent, UInt64.le_trans hle hslot⟩

theorem InTime.of_config (h : client.InTime now slot) (hconfig : client'.config = client.config) :
    client'.InTime now slot := by
  rw [inTime_iff] at h ⊢
  rw [hconfig]
  exact h

/-- **The timestamp of a slot that has begun does not overflow**, and is not in the future. -/
theorem InTime.timestamp (h : client.InTime now slot) :
    (client.slotTimestamp slot).toNat =
        slot.toNat * 12 + client.config.chain.genesisTime.toNat ∧
      client.slotTimestamp slot ≤ now := by
  rw [inTime_iff] at h
  have hlt := now.toNat_lt
  have hmul : (slot * 12).toNat = slot.toNat * 12 := by
    rw [UInt64.toNat_mul]
    show slot.toNat * 12 % 2 ^ 64 = _
    omega
  have hnat : (client.slotTimestamp slot).toNat =
      slot.toNat * 12 + client.config.chain.genesisTime.toNat := by
    unfold slotTimestamp
    rw [UInt64.toNat_add, hmul]
    omega
  refine ⟨hnat, ?_⟩
  rw [UInt64.le_iff_toNat_le, hnat]
  exact h

/-- So its age is never negative. -/
theorem InTime.age (h : client.InTime now slot) :
    client.age now slot ≠ .error (.panic .durationUnderflow) := by
  have hnot : ¬ now < client.slotTimestamp slot := UInt64.not_lt.2 h.timestamp.2
  unfold ConsensusClient.age
  simp only [if_neg hnot]
  split <;> simp

/-! ## Updates -/

variable {update : GenericUpdate} {verified logged logged' : UInt64}

/-- The slots of the headers of an accepted update have begun. -/
theorem accepted_inTime (h : client.verifyGenericUpdate k now update = .ok ()) :
    client.InTime now update.attestedHeader.slot ∧
      client.InTime now (updateFinalizedSlot update) := by
  have haccepted := verifyGenericUpdate_ok h
  obtain ⟨current, hcurrent, hsigned⟩ := haccepted.signed_by_now
  have hattested : client.InTime now update.attestedHeader.slot :=
    ⟨current, hcurrent, UInt64.le_trans (UInt64.le_of_lt haccepted.attested_lt) hsigned⟩
  exact ⟨hattested, hattested.of_le haccepted.finalized_le⟩

/-- **One update**: the optimistic header has still begun. -/
theorem applied_inTime (hopt : client.InTime now client.store.optimisticHeader.slot)
    (hverified : now ≤ verified) (hverify : client.verifyGenericUpdate k verified update = .ok ())
    (happly : client.applyGenericUpdate k logged logged' update = .ok client') :
    client'.InTime verified client'.store.optimisticHeader.slot := by
  obtain ⟨hattested, hfinalized⟩ := accepted_inTime hverify
  refine InTime.of_config ?_ (applyGenericUpdate_config happly).1
  rcases (applied_origin happly).2 with heq | heq | hheader
  · rw [heq]
    exact hopt.mono hverified
  · rw [heq]
    exact hattested
  · rw [← updateFinalizedSlot_some hheader]
    exact hfinalized

theorem applyOptimistic_age {bits : UInt64} (hattested : client.InTime now update.attestedHeader.slot) :
    client.applyOptimistic now update bits ≠ .error (.panic .durationUnderflow) := by
  unfold applyOptimistic
  simp only
  split
  · split
    · rename_i fault hage
      intro h
      cases h
      have hnow : ({ client with
          store := { client.store with optimisticHeader := update.attestedHeader } } :
            ConsensusClient).InTime now update.attestedHeader.slot :=
        hattested.of_config rfl
      exact hnow.age hage
    · simp
  · simp

theorem applyFinalized_age (hfinalized : client.InTime now (updateFinalizedSlot update)) :
    client.applyFinalized k now update ≠ .error (.panic .durationUnderflow) := by
  unfold applyFinalized
  split
  · split
    · simp
    · rename_i header hheader
      rw [updateFinalizedSlot_some hheader] at hfinalized
      split
      · rename_i fault hage
        intro h
        cases h
        exact hfinalized.age hage
      · simp
  · simp

/-- **Applying an accepted update never subtracts past zero**, in neither of its log lines. -/
theorem applyGenericUpdate_age (hverify : client.verifyGenericUpdate k verified update = .ok ())
    (hlogged : verified ≤ logged) (hlogged' : logged ≤ logged') :
    client.applyGenericUpdate k logged logged' update ≠ .error (.panic .durationUnderflow) := by
  obtain ⟨hattested, hfinalized⟩ := accepted_inTime hverify
  unfold applyGenericUpdate
  simp only
  cases hmid : (client.raiseParticipants (participants update)).applyOptimistic logged update
      (participants update) with
  | error fault =>
    have hraised : (client.raiseParticipants (participants update)).InTime logged
        update.attestedHeader.slot :=
      (hattested.mono hlogged).of_config rfl
    intro h
    cases h
    exact applyOptimistic_age hraised hmid
  | ok mid =>
    have hsame := raiseParticipants_same.trans (applyOptimistic_same hmid)
    simp only
    split
    · obtain ⟨rotated, hrotated⟩ : ∃ rotated, mid.applyCommittee update = .ok rotated :=
        applyCommittee_total
      have hconfig := (applyCommittee_same hrotated).config.trans hsame.config
      rw [hrotated]
      exact applyFinalized_age
        (((hfinalized.mono hlogged).mono hlogged').of_config hconfig)
    · simp

/-! ## Whole runs -/

theorem clocked_invariant {s : ConsensusClient × UInt64}
    (h : (clocked k config checkpoint).Reachable s) :
    Bounded s.1.store ∧ s.1.InTime s.2 s.1.store.optimisticHeader.slot := by
  refine System.invariant (S := clocked k config checkpoint)
    (I := fun s => Bounded s.1.store ∧ s.1.InTime s.2 s.1.store.optimisticHeader.slot) ?_ ?_ h
  · rintro ⟨client, now⟩ ⟨w, client₀, _, _, hboot, current, hcurrent, hle⟩
    obtain ⟨boot, _, _, _, _, rfl⟩ := bootstrap_ok hboot
    exact ⟨⟨UInt64.le_refl _, UInt64.zero_le, UInt64.zero_le⟩, current, hcurrent, hle⟩
  · rintro ⟨client, now⟩ ⟨client', later⟩ _ ⟨hbounded, htime⟩ ⟨hle, hsame | hupdate⟩
    · obtain rfl : client' = client := hsame
      exact ⟨hbounded, htime.mono hle⟩
    · obtain ⟨update, verified, logged, logged', hverified, hlogged, hlogged', hlast, hverify,
        happly⟩ := hupdate
      refine ⟨(headers_apply hbounded happly).1, ?_⟩
      have hmid := applied_inTime htime hverified hverify happly
      exact ((hmid.mono hlogged).mono hlogged').mono hlast

/-- **The store never runs ahead of the clock.**  In every run from a bootstrap whose header has
    begun, at every later time the headers are in order and have begun, so the difference that
    `check_head_age` takes is a true one, the timestamps of both headers stay within 64 bits and
    their ages are not negative; nor does applying an accepted update take the age of a header
    that has not begun. -/
theorem store_behind_clock (k : ConsensusCrates) (config : Config) (checkpoint : Bytes)
    (s : ConsensusClient × UInt64) (h : (clocked k config checkpoint).Reachable s) :
    (∀ later, s.2 ≤ later → ∃ expected, s.1.expectedCurrentSlot later = .ok expected ∧
      s.1.store.finalizedHeader.slot ≤ s.1.store.optimisticHeader.slot ∧
      s.1.store.optimisticHeader.slot ≤ expected ∧
      (expected - s.1.getHeader.slot).toNat = expected.toNat - s.1.getHeader.slot.toNat ∧
      ∀ header, header = s.1.store.finalizedHeader ∨ header = s.1.store.optimisticHeader →
        (s.1.slotTimestamp header.slot).toNat =
            header.slot.toNat * 12 + s.1.config.chain.genesisTime.toNat ∧
          s.1.age later header.slot ≠ .error (.panic .durationUnderflow)) ∧
    ∀ update verified logged logged', s.2 ≤ verified → verified ≤ logged → logged ≤ logged' →
      s.1.verifyGenericUpdate k verified update = .ok () →
      s.1.applyGenericUpdate k logged logged' update ≠ .error (.panic .durationUnderflow) := by
  obtain ⟨hbounded, htime⟩ := clocked_invariant h
  refine ⟨fun later hlater => ?_, fun update verified logged logged' _ hlogged hlogged' hverify =>
    applyGenericUpdate_age hverify hlogged hlogged'⟩
  have hopt := htime.mono hlater
  have hfin := hopt.of_le hbounded.optimistic
  have htimely := hopt
  obtain ⟨expected, hexpected, hle⟩ := hopt
  refine ⟨expected, hexpected, hbounded.optimistic, hle, UInt64.toNat_sub_of_le _ _ hle, ?_⟩
  rintro header (rfl | rfl)
  · exact ⟨hfin.timestamp.1, hfin.age⟩
  · exact ⟨htimely.timestamp.1, htimely.age⟩

end ConsensusClient

end Helios
