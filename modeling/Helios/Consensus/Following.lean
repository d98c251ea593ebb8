import Helios.Consensus.CatchUp

/-!
# Following the chain with `advance`

After `sync` the client is polled with `advance`, and the error of a call is dropped: whatever it
has done before it failed stays.

* `Served` — the answers to one call; `Progress.advance`, `Progress.advances` — what the machine
  makes of one call, and of any number of them.
* `HonestAdvance` — a server of genuine updates during one call; `advance_matches` — one call.
* `advances_follow` — **a run of calls is a run of the machine**, call by call.
* `after_reach`, `fetch_reach` — the last period whose signatures are accepted does not go back, and
  moves on with the update of a period.
* `WithinReach` — heads that are signed within it; `advances_keep_up` — **then every call succeeds,
  and ends at the header that the server has finalized**.
-/

set_option autoImplicit false

namespace Helios

namespace ConsensusClient

variable {k : ConsensusCrates} {config : Config} {checkpoint : Bytes}
  {comm : UInt64 → SyncCommittee} {final : UInt64 → Header} {client : ConsensusClient}
  {update : GenericUpdate} {w : World} {p : Progress}

/-! ## The machine -/

/-- What is answered to one `advance`: the head, and the updates of a period. -/
structure Served where
  finality : FinalityUpdate
  optimistic : OptimisticUpdate
  updates : UInt64 → List Update

namespace Progress

/-- While the next committee is unknown, the only update of the period is followed if it can be. -/
def fetch (p : Progress) (updates : UInt64 → List Update) : Progress :=
  if p.known then p
  else
    match updates p.period with
    | [update] => (p.follow [update.toGeneric]).1
    | _ => p

/-- The head first.  What was followed of it stays when the rest is not. -/
def advance (p : Progress) (served : Served) : Progress × Bool :=
  let head := p.follow [served.finality.toGeneric, served.optimistic.toGeneric]
  if head.2 then (head.1.fetch served.updates, true) else head

/-- Calls one after the other, also after one that failed. -/
def advances : Progress → List Served → List (Progress × Bool)
  | _, [] => []
  | p, served :: rest => p.advance served :: (p.advance served).1.advances rest

end Progress

/-- Calls of `advance` one after the other, whose errors are dropped. -/
def advances (k : ConsensusCrates) :
    List World → ConsensusClient → List (Attempt Fault ConsensusClient)
  | [], _ => []
  | w :: ws, client => advance k w client :: advances k ws (advance k w client).2

/-! ## One call -/

/-- A server of genuine updates during one `advance`. -/
structure HonestAdvance (k : ConsensusCrates) (config : Config) (comm : UInt64 → SyncCommittee)
    (w : World) (served : Served) : Prop where
  answers_finality : (w 0).rpc.getFinalityUpdate = .ok served.finality
  answers_optimistic : (w 4).rpc.getOptimisticUpdate = .ok served.optimistic
  answers_updates : ∀ period, (w 8).rpc.getUpdates period 1 = .ok (served.updates period)
  genuine_finality : Genuine k config comm (w 0).now served.finality.toGeneric
  genuine_optimistic : Genuine k config comm (w 4).now served.optimistic.toGeneric
  genuine_updates : ∀ period, ∀ u ∈ served.updates period,
    Genuine k config comm (w 8).now u.toGeneric
  /-- Time passes, within what a `chrono::Duration` holds. -/
  clock : ∀ i j, i ≤ j → (w i).now ≤ (w j).now
  range : ∀ i, (w i).now ≤ maxDuration

/-- A call does what the machine does. -/
structure Matches (next : Progress × Bool) (r : Attempt Fault ConsensusClient) : Prop where
  progress : progressOf r.2.store = next.1
  succeeds : r.1 = .ok () ↔ next.2 = true
  noPanic : ∀ site, r.1 ≠ .error (.panic site)

/-- The request for the missing committee fails at nothing that the server answers. -/
theorem fetchCommittee_fetch (htrue : TrueCommittees k config checkpoint comm)
    (hreach : (lightClient k config checkpoint).Reachable client)
    {updates : UInt64 → List Update}
    (hanswers : ∀ period, (w 0).rpc.getUpdates period 1 = .ok (updates period))
    (hgenuine : ∀ period, ∀ u ∈ updates period, Genuine k config comm (w 0).now u.toGeneric)
    (hclock : ∀ i j, i ≤ j → (w i).now ≤ (w j).now) (hrange : ∀ i, (w i).now ≤ maxDuration) :
    ∃ client', fetchCommittee k w client = (.ok (), client') ∧
      progressOf client'.store = (progressOf client.store).fetch updates ∧
      (lightClient k config checkpoint).Reachable client' := by
  have hperiod : (progressOf client.store).period =
      calcSyncPeriod client.store.finalizedHeader.slot := rfl
  unfold fetchCommittee Progress.fetch
  rw [hperiod]
  cases hnext : client.store.nextSyncCommittee with
  | some next =>
    have hknown : (progressOf client.store).known = true := by
      rw [progressOf, hnext]
      rfl
    rw [if_pos hknown]
    exact ⟨client, rfl, rfl, hreach⟩
  | none =>
    have hknown : ¬ (progressOf client.store).known = true := by
      rw [progressOf, hnext]
      exact Bool.false_ne_true
    rw [if_neg hknown]
    have hof := hgenuine (calcSyncPeriod client.store.finalizedHeader.slot)
    simp only [Option.isNone_none, if_true, answer_ok.2 (hanswers _), Attempt.request]
    generalize updates (calcSyncPeriod client.store.finalizedHeader.slot) = answered at hof
    rcases answered with _ | ⟨u, _ | ⟨v, rest⟩⟩
    · exact ⟨client, rfl, rfl, hreach⟩
    · have hu := (hof u List.mem_cons_self).mono (hclock 0 1 (by omega))
      rcases genuine_verdict htrue hreach (.update u) hu (hclock 1 2 (by omega))
        (hclock 2 3 (by omega)) (hrange 3) with
        ⟨hrefused, e, hverify⟩ | ⟨hfollowed, hverify, client', happly, hprogress, hreach'⟩
      · simp only [hverify, Progress.follow, hrefused, Bool.false_eq_true, if_false]
        exact ⟨client, rfl, rfl, hreach⟩
      · simp only [hverify, happly, Progress.follow, hfollowed, if_true]
        exact ⟨client', rfl, hprogress, hreach'⟩
    · exact ⟨client, rfl, rfl, hreach⟩

/-- **One call matches one step of the machine**, whatever the client had before. -/
theorem advance_matches (htrue : TrueCommittees k config checkpoint comm)
    (hreach : (lightClient k config checkpoint).Reachable client) {served : Served}
    (honest : HonestAdvance k config comm w served) :
    Matches ((progressOf client.store).advance served) (advance k w client) ∧
      (lightClient k config checkpoint).Reachable (advance k w client).2 := by
  have hhead := followHead_tracks htrue hreach honest.answers_finality honest.answers_optimistic
    honest.genuine_finality honest.genuine_optimistic honest.clock honest.range
  unfold advance Progress.advance
  generalize followHead k w client = head at hhead
  obtain ⟨r, client'⟩ := head
  cases r with
  | error e =>
    have hno : ¬ ((progressOf client.store).follow
        [served.finality.toGeneric, served.optimistic.toGeneric]).2 = true := fun hyes => by
      have hok := hhead.succeeds.2 hyes
      cases hok
    simp only [if_neg hno, Attempt.andThen]
    exact ⟨⟨hhead.progress, hhead.succeeds, hhead.noPanic⟩, hhead.reachable⟩
  | ok u =>
    obtain ⟨last, hfetch, hprogress, hreach'⟩ := fetchCommittee_fetch (w := w.drop 8) htrue
      hhead.reachable honest.answers_updates honest.genuine_updates
      (fun i j hij => honest.clock _ _ (by omega)) fun i => honest.range _
    have hmid : progressOf client'.store = _ := hhead.progress
    simp only [if_pos (hhead.succeeds.1 rfl), Attempt.andThen, hfetch, ← hmid]
    exact ⟨⟨hprogress, by simp, by simp⟩, hreach'⟩

/-! ## Runs of calls -/

/-- What can be seen of a call, against the machine: whether it succeeds, that it does not panic,
    and the true header of the slot that is finalized. -/
structure Shows (final : UInt64 → Header) (r : Attempt Fault ConsensusClient)
    (next : Progress × Bool) : Prop where
  noPanic : ∀ site, r.1 ≠ .error (.panic site)
  succeeds : r.1 = .ok () ↔ next.2 = true
  finalized : r.2.store.finalizedHeader = final next.1.finalized
  known : r.2.store.nextSyncCommittee.isSome = next.1.known

/-- **A run of calls is a run of the machine.**  From any state of a client, behind servers of
    genuine updates in whatever order, calls of `advance` never panic; each succeeds exactly when
    the machine accepts the head, and leaves behind the true header of the slot that the machine has
    finalized and the next committee when the machine has it, also when it, or one before it, has
    failed. -/
theorem advances_follow (k : ConsensusCrates) (config : Config) (checkpoint : Bytes)
    (comm : UInt64 → SyncCommittee) (final : UInt64 → Header)
    (htrue : TrueCommittees k config checkpoint comm)
    (hheaders : TrueHeaders k config checkpoint comm final) (client : ConsensusClient)
    (hreach : (lightClient k config checkpoint).Reachable client)
    (calls : List (World × Served))
    (honest : ∀ call ∈ calls, HonestAdvance k config comm call.1 call.2) :
    List.Forall₂ (Shows final) (advances k (calls.map Prod.fst) client)
      ((progressOf client.store).advances (calls.map Prod.snd)) := by
  induction calls generalizing client with
  | nil => exact .nil
  | cons call calls ih =>
    obtain ⟨hmatches, hreach'⟩ := advance_matches htrue hreach (honest call List.mem_cons_self)
    have hrest := ih _ hreach' fun c hc => honest c (List.mem_cons_of_mem _ hc)
    rw [hmatches.progress] at hrest
    refine .cons ⟨hmatches.noPanic, hmatches.succeeds, ?_, ?_⟩ hrest
    · rw [reachable_final htrue hheaders hreach', ← hmatches.progress]
      rfl
    · rw [← hmatches.progress]
      rfl

/-! ## Keeping up -/

namespace Progress

/-- An update that is accepted does not take the reach back. -/
theorem after_reach (haccepts : p.accepts update = true)
    (hattested : update.attestedHeader.slot < update.signatureSlot)
    (hfinalized : updateFinalizedSlot update ≤ update.attestedHeader.slot) :
    p.reach ≤ (p.after update).reach := by
  obtain ⟨_, hsigned⟩ := (accepts_reach.1 haccepts).1
  have hle : (calcSyncPeriod (updateFinalizedSlot update)).toNat ≤ p.reach := by
    refine Nat.le_trans (UInt64.le_iff_toNat_le.1 (calcSyncPeriod_mono ?_)) hsigned
    exact UInt64.le_trans hfinalized (UInt64.le_of_lt hattested)
  by_cases hnewer : p.finalized < updateFinalizedSlot update
  · have hmono : p.period.toNat ≤ (calcSyncPeriod (updateFinalizedSlot update)).toNat :=
      UInt64.le_iff_toNat_le.1 (calcSyncPeriod_mono (UInt64.le_of_lt hnewer))
    have hsucc := @period_succ_toNat p
    rw [after_newer hnewer]
    unfold reach period at *
    simp only
    generalize calcSyncPeriod (updateFinalizedSlot update) = final at *
    cases hknown : p.known with
    | false =>
      rw [hknown, Bool.toNat_false] at hle
      simp only [Bool.toNat_false]
      omega
    | true =>
      -- the known committee is kept, or it is the one of the period that is entered
      by_cases hnext : final = calcSyncPeriod p.finalized + 1
      · rw [hnext, hsucc]
        simp only [Bool.toNat_true]
        omega
      · simp only [Bool.true_and, bne_iff_ne, ne_eq, hnext, not_false_eq_true, if_true,
          Bool.toNat_true]
        omega
  · unfold after
    rw [if_neg hnewer]
    split
    · rename_i hfirst
      have hknown : p.known = false := by
        cases hk : p.known with
        | false => rfl
        | true => simp [hk] at hfirst
      have hstart : p.reach = p.period.toNat + p.known.toNat := rfl
      rw [hknown, Bool.toNat_false] at hstart
      rw [hstart]
      exact Nat.add_le_add_left (Nat.zero_le _) _
    · exact Nat.le_refl _

/-- An update that finalizes nothing newer leaves the finalized slot. -/
theorem after_finalized (h : updateFinalizedSlot update ≤ p.finalized) :
    (p.after update).finalized = p.finalized := by
  unfold after
  rw [if_neg (UInt64.not_lt.2 h)]
  split <;> rfl

section Fetch

variable {updates : UInt64 → List Update}

/-- The request for the committee changes nothing that is finalized when the head is the newest, and
    does not take the reach back. -/
theorem fetch_reach (hnewest : ∀ period, ∀ u ∈ updates period, u.finalizedHeader.slot ≤ p.finalized)
    (horder : ∀ period, ∀ u ∈ updates period, u.finalizedHeader.slot ≤ u.attestedHeader.slot ∧
      u.attestedHeader.slot < u.signatureSlot) :
    (p.fetch updates).finalized = p.finalized ∧ p.reach ≤ (p.fetch updates).reach := by
  have hnone : p.finalized = p.finalized ∧ p.reach ≤ p.reach := ⟨rfl, Nat.le_refl _⟩
  have hnew := hnewest p.period
  have hord := horder p.period
  unfold fetch
  split
  · exact hnone
  · generalize updates p.period = answered at hnew hord
    rcases answered with _ | ⟨u, _ | ⟨v, rest⟩⟩
    · exact hnone
    · obtain ⟨hfinalized, hattested⟩ := hord u List.mem_cons_self
      simp only [follow]
      split
      · rename_i haccepts
        exact ⟨after_finalized (hnew u List.mem_cons_self),
          after_reach haccepts hattested hfinalized⟩
      · exact hnone
    · exact hnone

/-- The update of the period, finalized and signed in it, brings the next one within reach. -/
theorem fetch_settles {u : Update} (hu : updates p.period = [u])
    (hfinalized : calcSyncPeriod u.finalizedHeader.slot = p.period)
    (hsigned : calcSyncPeriod u.signatureSlot = p.period)
    (hattested : u.finalizedHeader.slot ≤ u.attestedHeader.slot)
    (hlt : u.attestedHeader.slot < u.signatureSlot) :
    p.period.toNat + 1 ≤ (p.fetch updates).reach := by
  have hstart : p.reach = p.period.toNat + p.known.toNat := rfl
  unfold fetch
  rw [hu]
  cases hknown : p.known with
  | true =>
    rw [hknown, Bool.toNat_true] at hstart
    simp only [if_true]
    omega
  | false =>
    rw [hknown, Bool.toNat_false, Nat.add_zero] at hstart
    obtain ⟨haccepts, hreach, _⟩ := after_eachPeriod (p := p) (u := u)
      (by rw [hfinalized, hstart]) (by rw [hsigned, hstart]) hattested hlt
    simp only [Bool.false_eq_true, if_false, follow, if_pos haccepts]
    omega

end Fetch

end Progress

/-- The head of a server that has finalized this slot or a later one, and nothing newer than it. -/
structure Served.Newest (served : Served) (finalized : UInt64) : Prop where
  current : finalized ≤ served.finality.finalizedHeader.slot
  newest : ∀ period, ∀ u ∈ served.updates period,
    u.finalizedHeader.slot ≤ served.finality.finalizedHeader.slot
  justified : served.finality.finalizedHeader.slot < served.finality.attestedHeader.slot
  head : served.finality.finalizedHeader.slot < served.optimistic.attestedHeader.slot

/-- The period in which the head is finalized. -/
def Served.period (served : Served) : UInt64 :=
  calcSyncPeriod served.finality.finalizedHeader.slot

/-- The server has the update of that period, finalized and signed in it. -/
def Served.Settles (served : Served) : Prop :=
  ∃ u, served.updates served.period = [u] ∧ calcSyncPeriod u.finalizedHeader.slot = served.period ∧
    calcSyncPeriod u.signatureSlot = served.period

/-- Heads that are each signed within reach: in a period up to the one at the start, or up to the
    one after a period that was settled in an earlier call. -/
inductive WithinReach : UInt64 → Nat → List Served → Prop
  | nil {finalized : UInt64} {reach : Nat} : WithinReach finalized reach []
  | cons {finalized : UInt64} {reach next : Nat} {served : Served} {rest : List Served}
      (newest : served.Newest finalized)
      (finality : (calcSyncPeriod served.finality.signatureSlot).toNat ≤ reach)
      (optimistic : (calcSyncPeriod served.optimistic.signatureSlot).toNat ≤ reach)
      (settled : next ≤ reach ∨ served.Settles ∧ next ≤ served.period.toNat + 1)
      (later : WithinReach served.finality.finalizedHeader.slot next rest) :
      WithinReach finalized reach (served :: rest)

/-- One call of an honest server that is within reach. -/
theorem advance_within {served : Served} {reach next : Nat}
    (honest : HonestAdvance k config comm w served) (hnewest : served.Newest p.finalized)
    (hreach : reach ≤ p.reach)
    (hfinality : (calcSyncPeriod served.finality.signatureSlot).toNat ≤ reach)
    (hoptimistic : (calcSyncPeriod served.optimistic.signatureSlot).toNat ≤ reach)
    (hnext : next ≤ reach ∨ served.Settles ∧ next ≤ served.period.toNat + 1) :
    (p.advance served).2 = true ∧
      (p.advance served).1.finalized = served.finality.finalizedHeader.slot ∧
      next ≤ (p.advance served).1.reach := by
  obtain ⟨hok, hslot, hkept⟩ := Progress.follow_head hnewest.current hnewest.justified
    honest.genuine_finality.attested_lt hnewest.head honest.genuine_optimistic.attested_lt
    (hfinality.trans hreach) (hoptimistic.trans hreach)
  have horder : ∀ period, ∀ u ∈ served.updates period,
      u.finalizedHeader.slot ≤ u.attestedHeader.slot ∧ u.attestedHeader.slot < u.signatureSlot :=
    fun period u hu => ⟨(honest.genuine_updates period u hu).finalized_le,
      (honest.genuine_updates period u hu).attested_lt⟩
  unfold Progress.advance
  simp only [if_pos hok]
  generalize (p.follow [served.finality.toGeneric, served.optimistic.toGeneric]).1 = head at *
  have hperiod : head.period = served.period := by
    rw [Progress.period, hslot, Served.period]
  obtain ⟨hfinalized, hmore⟩ := Progress.fetch_reach (p := head)
    (by rw [hslot]; exact hnewest.newest) horder
  refine ⟨trivial, hfinalized.trans hslot, ?_⟩
  rcases hnext with hle | ⟨⟨u, hu, hfinal, hsigned⟩, hle⟩
  · omega
  · rw [← hperiod] at hu hfinal hsigned hle
    obtain ⟨hattested, hlt⟩ := horder head.period u (by rw [hu]; exact List.mem_cons_self)
    exact hle.trans (Progress.fetch_settles hu hfinal hsigned hattested hlt)

/-- **Polling keeps up.**  From any state of a client, behind servers of genuine updates whose heads
    are signed within reach, every call of `advance` succeeds and ends at the header that its server
    has finalized, over any number of calls and periods. -/
theorem advances_keep_up (k : ConsensusCrates) (config : Config) (checkpoint : Bytes)
    (comm : UInt64 → SyncCommittee) (final : UInt64 → Header)
    (htrue : TrueCommittees k config checkpoint comm)
    (hheaders : TrueHeaders k config checkpoint comm final) (client : ConsensusClient)
    (hreach : (lightClient k config checkpoint).Reachable client)
    (calls : List (World × Served))
    (honest : ∀ call ∈ calls, HonestAdvance k config comm call.1 call.2)
    (hwithin : WithinReach client.store.finalizedHeader.slot (progressOf client.store).reach
      (calls.map Prod.snd)) :
    List.Forall₂ (fun r call => r.1 = .ok () ∧
        r.2.store.finalizedHeader = call.2.finality.finalizedHeader)
      (advances k (calls.map Prod.fst) client) calls := by
  suffices hall : ∀ (reach : Nat) (client : ConsensusClient),
      (lightClient k config checkpoint).Reachable client →
      reach ≤ (progressOf client.store).reach →
      WithinReach client.store.finalizedHeader.slot reach (calls.map Prod.snd) →
      List.Forall₂ (fun r call => r.1 = .ok () ∧
          r.2.store.finalizedHeader = call.2.finality.finalizedHeader)
        (advances k (calls.map Prod.fst) client) calls from
    hall _ client hreach (Nat.le_refl _) hwithin
  clear hwithin hreach client
  -- the reach at hand is a lower bound of the machine's
  induction calls with
  | nil => exact fun _ _ _ _ _ => .nil
  | cons call calls ih =>
    intro reach client hreach hle hwithin
    have hcall := honest call List.mem_cons_self
    obtain ⟨hmatches, hreach'⟩ := advance_matches htrue hreach hcall
    cases hwithin with
    | cons hnewest hfinality hoptimistic hnext hrest =>
      obtain ⟨hok, hslot, hmore⟩ :=
        advance_within hcall hnewest hle hfinality hoptimistic hnext
      rw [← hmatches.progress] at hslot hmore
      have hstore : (advance k call.1 client).2.store.finalizedHeader.slot =
          call.2.finality.finalizedHeader.slot := hslot
      refine .cons ⟨hmatches.succeeds.2 hok, ?_⟩
        (ih (fun c hc => honest c (List.mem_cons_of_mem _ hc)) _ _ hreach' hmore ?_)
      · rw [reachable_final htrue hheaders hreach', hstore]
        exact (hheaders.signed _ _ _ hcall.genuine_finality.signed rfl rfl
          hcall.genuine_finality.finality).symm
      · rw [hstore]
        exact hrest

/-! ## Two calls in one period -/

/-- The answers of an honest server, one slot after its head. -/
def justifiedServed : Served :=
  ⟨justifiedFinality, justifiedOptimistic, fun _ => [justifiedUpdate]⟩

theorem justified_honestAdvance : HonestAdvance periodCrates mainnet (fun _ => memberCommittee)
    (fun _ => justifiedMoment) justifiedServed where
  answers_finality := rfl
  answers_optimistic := rfl
  answers_updates _ := rfl
  genuine_finality := justified_served.genuine_finality
  genuine_optimistic := justified_served.genuine_optimistic
  genuine_updates _ u hu := by
    rw [List.mem_singleton.1 hu]
    exact justified_served.genuine_update
  clock _ _ _ := UInt64.le_refl _
  range := justified_served.range

/-- The same answers to two calls. -/
def twoCalls : List (World × Served) := List.replicate 2 (fun _ => justifiedMoment, justifiedServed)

theorem twoCalls_honest : ∀ call ∈ twoCalls,
    HonestAdvance periodCrates mainnet (fun _ => memberCommittee) call.1 call.2 := by
  intro call hcall
  rw [List.eq_of_mem_replicate hcall]
  exact justified_honestAdvance

theorem twoCalls_start : (lightClient periodCrates mainnet laterCheckpointRoot.toList).Reachable
    (startedAt laterCheckpointRoot laterCheckpoint) :=
  startedAt_reachable (by decide +kernel) rfl (by decide +kernel)

/-- The first call finds the next committee, and the second has nothing to do. -/
theorem advances_follow_twice : List.Forall₂ (Shows periodFinal)
    (advances periodCrates (twoCalls.map Prod.fst) (startedAt laterCheckpointRoot laterCheckpoint))
    [(⟨6406176, true⟩, true), (⟨6406176, true⟩, true)] := by
  have hmachine : (progressOf (startedAt laterCheckpointRoot laterCheckpoint).store).advances
      (twoCalls.map Prod.snd) = [(⟨6406176, true⟩, true), (⟨6406176, true⟩, true)] := by
    decide +kernel
  rw [← hmachine]
  exact advances_follow periodCrates mainnet laterCheckpointRoot.toList (fun _ => memberCommittee)
    periodFinal (period_true_committees _) (period_true_headers _)
    (startedAt laterCheckpointRoot laterCheckpoint) twoCalls_start twoCalls twoCalls_honest

theorem justifiedServed_newest : justifiedServed.Newest 6406176 where
  current := by decide +kernel
  newest _ u hu := by
    rw [List.mem_singleton.1 hu]
    decide +kernel
  justified := by decide +kernel
  head := by decide +kernel

theorem advances_keep_up_twice : List.Forall₂ (fun r call => r.1 = .ok () ∧
      r.2.store.finalizedHeader = call.2.finality.finalizedHeader)
    (advances periodCrates (twoCalls.map Prod.fst) (startedAt laterCheckpointRoot laterCheckpoint))
    twoCalls :=
  advances_keep_up periodCrates mainnet laterCheckpointRoot.toList (fun _ => memberCommittee)
    periodFinal (period_true_committees _) (period_true_headers _)
    (startedAt laterCheckpointRoot laterCheckpoint) twoCalls_start twoCalls twoCalls_honest
    (.cons justifiedServed_newest (by decide +kernel) (by decide +kernel) (Or.inl (Nat.le_refl _))
      (.cons justifiedServed_newest (by decide +kernel) (by decide +kernel)
        (Or.inl (Nat.le_refl _)) .nil))

end ConsensusClient

end Helios
