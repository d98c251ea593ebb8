import Helios.Consensus.Steps

/-!
# Headers never regress

* `Bounded` — the auxiliary invariant: the optimistic header is not behind the finalized one, and
  neither participation counter exceeds the 512 bits.  The second half keeps the safety threshold
  at or below 256, under any supermajority.
* `raised_step`, `bounded_step`, `supermajority_step` — one accepted update.
* `headers_never_regress` — **the same over whole runs**.
-/

set_option autoImplicit false

namespace Helios

namespace ConsensusClient

variable {k : ConsensusCrates} {config : Config} {checkpoint : Bytes}
  {client client' : ConsensusClient} {now now' : UInt64} {update : GenericUpdate}

structure Bounded (store : LightClientStore) : Prop where
  optimistic : store.finalizedHeader.slot ≤ store.optimisticHeader.slot
  previous : store.previousMaxActiveParticipants ≤ 512
  current : store.currentMaxActiveParticipants ≤ 512

theorem u64_max_toNat (a b : UInt64) : (max a b).toNat = max a.toNat b.toNat := by
  show (if a ≤ b then b else a).toNat = _
  split
  · rename_i h
    rw [UInt64.le_iff_toNat_le] at h
    omega
  · rename_i h
    rw [UInt64.le_iff_toNat_le] at h
    omega

/-- `u64::max` stays below a common bound. -/
theorem max_le_of_le {a b c : UInt64} (ha : a ≤ c) (hb : b ≤ c) : max a b ≤ c := by
  rw [UInt64.le_iff_toNat_le] at ha hb ⊢
  rw [u64_max_toNat]
  omega

theorem participants_le (update : GenericUpdate) : participants update ≤ 512 := by
  rw [UInt64.le_iff_toNat_le]
  exact getBits_le _

/-! ## The optimistic step -/

theorem safetyThreshold_lt {store : LightClientStore} (hb : Bounded store)
    (hs : Supermajority update) : safetyThreshold store < participants update := by
  have hp := hb.previous
  have hc := hb.current
  have hmax : max store.currentMaxActiveParticipants store.previousMaxActiveParticipants ≤ 512 :=
    max_le_of_le hc hp
  unfold Supermajority at hs
  rw [UInt64.le_iff_toNat_le] at hmax
  rw [safetyThreshold, UInt64.lt_iff_toNat_lt, UInt64.toNat_div]
  show (max store.currentMaxActiveParticipants store.previousMaxActiveParticipants).toNat / 2 < _
  have h512 : (512 : UInt64).toNat = 512 := rfl
  omega

theorem bounded_raise (hb : Bounded client.store) :
    Bounded (client.raiseParticipants (participants update)).store :=
  ⟨hb.optimistic, hb.previous, max_le_of_le hb.current (participants_le update)⟩

/-- The optimistic step only moves the optimistic header forward; under a supermajority it ends at
    or past the attested header. -/
theorem applyOptimistic_spec (hb : Bounded client.store)
    (h : client.applyOptimistic now update (participants update) = .ok client') :
    Bounded client'.store ∧ client'.store.finalizedHeader = client.store.finalizedHeader ∧
      client.store.optimisticHeader.slot ≤ client'.store.optimisticHeader.slot ∧
      (Supermajority update →
        update.attestedHeader.slot ≤ client'.store.optimisticHeader.slot) := by
  rcases applyOptimistic_ok h with ⟨_, hslot, rfl⟩ | ⟨hno, rfl⟩
  · have hle := UInt64.le_of_lt hslot
    exact ⟨⟨UInt64.le_trans hb.optimistic hle, hb.previous, hb.current⟩, rfl, hle,
      fun _ => UInt64.le_refl _⟩
  · refine ⟨hb, rfl, UInt64.le_refl _, fun hs => ?_⟩
    by_contra hlt
    exact hno ⟨safetyThreshold_lt hb hs, UInt64.not_le.1 hlt⟩

/-! ## The finality steps -/

/-- Rotating or filling in the committees leaves the headers alone. -/
theorem applyCommittee_spec (hb : Bounded client.store)
    (h : client.applyCommittee update = .ok client') :
    Bounded client'.store ∧ client'.store.finalizedHeader = client.store.finalizedHeader ∧
      client'.store.optimisticHeader = client.store.optimisticHeader := by
  rcases applyCommittee_ok h with ⟨_, rfl⟩ | ⟨_, _, _, rfl⟩ | ⟨_, _, _, rfl⟩
  · exact ⟨⟨hb.optimistic, hb.previous, hb.current⟩, rfl, rfl⟩
  · exact ⟨⟨hb.optimistic, hb.current, UInt64.zero_le⟩, rfl, rfl⟩
  · exact ⟨hb, rfl, rfl⟩

theorem applyFinalized_spec (hb : Bounded client.store)
    (h : client.applyFinalized k now update = .ok client') :
    Bounded client'.store ∧
      client.store.finalizedHeader.slot ≤ client'.store.finalizedHeader.slot ∧
      client.store.optimisticHeader.slot ≤ client'.store.optimisticHeader.slot := by
  rcases applyFinalized_ok h with ⟨_, rfl⟩ | ⟨hslot, header, hheader, rfl⟩
  · exact ⟨hb, UInt64.le_refl _, UInt64.le_refl _⟩
  · rw [updateFinalizedSlot_some hheader] at hslot
    by_cases hpast : header.slot > client.store.optimisticHeader.slot
    · simp only [if_pos hpast]
      exact ⟨⟨UInt64.le_refl _, hb.previous, hb.current⟩, UInt64.le_of_lt hslot,
        UInt64.le_of_lt hpast⟩
    · simp only [if_neg hpast]
      exact ⟨⟨UInt64.not_lt.1 hpast, hb.previous, hb.current⟩, UInt64.le_of_lt hslot,
        UInt64.le_refl _⟩

/-- **One applied update**: the bounds are kept, neither header moves back, and under a
    supermajority the optimistic header ends at or past the attested one. -/
theorem headers_apply (hb : Bounded client.store)
    (happly : client.applyGenericUpdate k now now' update = .ok client') :
    Bounded client'.store ∧
      client.store.finalizedHeader.slot ≤ client'.store.finalizedHeader.slot ∧
      client.store.optimisticHeader.slot ≤ client'.store.optimisticHeader.slot ∧
      (Supermajority update →
        update.attestedHeader.slot ≤ client'.store.optimisticHeader.slot) := by
  obtain ⟨mid, hmid, hcases⟩ := applyGenericUpdate_ok happly
  obtain ⟨hbmid, hfin, hopt, hsuper⟩ := applyOptimistic_spec (bounded_raise hb) hmid
  have hfin' : mid.store.finalizedHeader = client.store.finalizedHeader := hfin
  have hopt' : client.store.optimisticHeader.slot ≤ mid.store.optimisticHeader.slot := hopt
  rcases hcases with ⟨_, rfl⟩ | ⟨_, rotated, hrotated, hfinal⟩
  · exact ⟨hbmid, hfin' ▸ UInt64.le_refl _, hopt', hsuper⟩
  · obtain ⟨hbrot, hfinrot, hoptrot⟩ := applyCommittee_spec hbmid hrotated
    obtain ⟨hb', hfinle, hoptle⟩ := applyFinalized_spec hbrot hfinal
    rw [hfinrot, hfin'] at hfinle
    rw [hoptrot] at hoptle
    exact ⟨hb', hfinle, UInt64.le_trans hopt' hoptle,
      fun hs => UInt64.le_trans (hsuper hs) hoptle⟩

theorem headers_step (hb : Bounded client.store) (h : UpdateStep k client update client') :
    Bounded client'.store ∧
      client.store.finalizedHeader.slot ≤ client'.store.finalizedHeader.slot ∧
      client.store.optimisticHeader.slot ≤ client'.store.optimisticHeader.slot ∧
      (Supermajority update →
        update.attestedHeader.slot ≤ client'.store.optimisticHeader.slot) := by
  obtain ⟨_, _, now, now', happly⟩ := h
  exact headers_apply hb happly

/-- Any number of updates. -/
theorem headers_steps (hb : Bounded client.store) (h : UpdateSteps k client client') :
    Bounded client'.store ∧
      client.store.optimisticHeader.slot ≤ client'.store.optimisticHeader.slot := by
  induction h with
  | refl => exact ⟨hb, UInt64.le_refl _⟩
  | tail _ hlast ih =>
    obtain ⟨update, hstep⟩ := hlast
    obtain ⟨hbounded, _, hle, _⟩ := headers_step ih.1 hstep
    exact ⟨hbounded, UInt64.le_trans ih.2 hle⟩

/-! ## Whole runs -/

theorem reachable_bounded (h : (lightClient k config checkpoint).Reachable client) :
    Bounded client.store := by
  refine System.invariant (S := lightClient k config checkpoint) (I := fun c => Bounded c.store)
    ?_ ?_ h
  · rintro s ⟨w, client₀, _, _, hboot⟩
    obtain ⟨_, _, _, _, _, rfl⟩ := bootstrap_ok hboot
    exact ⟨UInt64.le_refl _, UInt64.zero_le, UInt64.zero_le⟩
  · rintro s s' _ hb ⟨update, hstep⟩
    exact (headers_step hb hstep).1

/-- **Headers never regress.**  Along every run from a bootstrap the slots of both headers only
    grow, the optimistic header is never behind the finalized one, the participation counters stay
    within 512, and a supermajority always moves the optimistic header to the attested one or
    past it. -/
theorem headers_never_regress (k : ConsensusCrates) (config : Config) (checkpoint : Bytes) :
    (∀ client client', (lightClient k config checkpoint).Reachable client →
      (lightClient k config checkpoint).Steps client client' →
        client.store.finalizedHeader.slot ≤ client'.store.finalizedHeader.slot ∧
        client.store.optimisticHeader.slot ≤ client'.store.optimisticHeader.slot) ∧
    (∀ client, (lightClient k config checkpoint).Reachable client →
      client.store.finalizedHeader.slot ≤ client.store.optimisticHeader.slot ∧
      client.store.previousMaxActiveParticipants ≤ 512 ∧
      client.store.currentMaxActiveParticipants ≤ 512) ∧
    (∀ client update client', (lightClient k config checkpoint).Reachable client →
      UpdateStep k client update client' → Supermajority update →
        update.attestedHeader.slot ≤ client'.store.optimisticHeader.slot) := by
  refine ⟨fun client client' h hsteps => ⟨?_, ?_⟩, fun client h => ?_, fun client update client' h
    hstep => (headers_step (reachable_bounded h) hstep).2.2.2⟩
  · rw [UInt64.le_iff_toNat_le]
    refine System.mono (f := fun c : ConsensusClient => c.store.finalizedHeader.slot.toNat) ?_ h
      hsteps
    rintro s s' hs ⟨update, hstep⟩
    exact UInt64.le_iff_toNat_le.1 (headers_step (reachable_bounded hs) hstep).2.1
  · rw [UInt64.le_iff_toNat_le]
    refine System.mono (f := fun c : ConsensusClient => c.store.optimisticHeader.slot.toNat) ?_ h
      hsteps
    rintro s s' hs ⟨update, hstep⟩
    exact UInt64.le_iff_toNat_le.1 (headers_step (reachable_bounded hs) hstep).2.2.1
  · have hb := reachable_bounded h
    exact ⟨hb.optimistic, hb.previous, hb.current⟩

end ConsensusClient

end Helios
