import Helios.Consensus.Chain
import Helios.Client.Queries
import Helios.Client.Backfill
import Helios.Execution.FeeHistory

/-!
# Holes in the block history

The payload map is fed with the head, with the finalized block far below it, and with what the
backfill reaches before its first failed request.

* `NoHoles` — the stored numbers are one range, linked by their parent hashes.
* `Brought`, `Joins` — the payloads a call brings, and how they have to meet those that were stored
  when the last call succeeded.
* `noHoles_updatePayloads` — one call; `no_holes` — **whole runs**, and their fee histories.
* `no_holes_fails` — one failed request leaves a hole.
-/

set_option autoImplicit false

namespace Helios

open OrderedMap Descent

/-- The numbers are one range, and each payload names the hash of the one before it. -/
structure NoHoles (payloads : Payloads) : Prop where
  contiguous : ∀ n m i : UInt64, n ∈ payloads → m ∈ payloads → n ≤ i → i ≤ m → i ∈ payloads
  linked : ∀ (n m : UInt64) (p q : ExecutionPayload), payloads[n]? = some p →
    payloads[m]? = some q → m.toNat = n.toNat + 1 → q.parentHash = p.blockHash

/-! ## Fee histories -/

/-- Without a hole, a fee history of blocks that are not older than the oldest is built. -/
theorem NoHoles.getFeeHistory {payloads : Payloads} {blockCount lastBlock oldest : UInt64}
    (h : NoHoles payloads) (hfirst : firstKey? payloads = some oldest) (hle : oldest ≤ lastBlock) :
    Helios.getFeeHistory blockCount lastBlock payloads ≠
      .error (.err (.execution .emptyExecutionPayload)) := by
  obtain ⟨latest, hlast⟩ : ∃ latest, lastKey? payloads = some latest := by
    apply Option.ne_none_iff_exists'.1
    rw [Ne, lastKey?_eq_none_iff, hfirst]
    simp
  have hrange : ∀ {requestOldest requestLatest : UInt64}, oldest ≤ requestOldest →
      requestLatest ≤ latest → ∀ e, rangePayloads payloads
        (blockRange requestOldest requestLatest) ≠ .error e := by
    intro requestOldest requestLatest hlow hhigh e he
    obtain ⟨n, hn, hmissing⟩ := collectResults_error he
    obtain ⟨hlow', hhigh'⟩ := mem_blockRange hn
    have hstored : n ∈ payloads := h.contiguous oldest latest n (firstKey?_mem hfirst)
      (lastKey?_mem hlast) (UInt64.le_trans hlow hlow') (UInt64.le_trans hhigh' hhigh)
    obtain ⟨p, hp⟩ := Option.isSome_iff_exists.1 (Std.TreeMap.mem_iff_isSome_getElem?.1 hstored)
    rw [hp] at hmissing
    cases hmissing
  unfold Helios.getFeeHistory
  simp only [hlast, hfirst]
  have hlow : ∀ n : UInt64, oldest ≤ if n < oldest then oldest else n := by
    intro n
    split
    · exact UInt64.le_refl _
    · rename_i hlt
      exact UInt64.not_lt.1 hlt
  have hhigh : (if lastBlock > latest then latest else lastBlock) ≤ latest := by
    split
    · exact UInt64.le_refl _
    · rename_i hgt
      exact UInt64.not_lt.1 hgt
  rw [if_neg (UInt64.not_lt.2 hle)]
  cases hfound : rangePayloads payloads (blockRange _ _) with
  | error e => exact absurd hfound (hrange (hlow _) hhigh e)
  | ok found => simp

/-! ## Stretches of payloads -/

/-- Every payload is stored under its own number. -/
def Keyed (payloads : Payloads) : Prop :=
  ∀ (n : UInt64) (p : ExecutionPayload), payloads[n]? = some p → p.blockNumber = n

theorem Keyed.insertAll {vs : List ExecutionPayload} {payloads : Payloads} (h : Keyed payloads) :
    Keyed (insertAll ExecutionPayload.blockNumber payloads vs) := by
  induction vs generalizing payloads with
  | nil => exact h
  | cons v vs ih =>
    apply ih
    intro n p hp
    rw [Std.TreeMap.getElem?_insert] at hp
    split at hp
    · rename_i heq
      cases hp
      exact Std.LawfulEqCmp.eq_of_compare heq
    · exact h n p hp

theorem Keyed.popWhile {bound fuel : Nat} {payloads : Payloads} (h : Keyed payloads) :
    Keyed (popWhile bound fuel payloads) :=
  fun n p hp => h n p (popWhile_getElem? hp)

/-- A set of payloads that goes down by one from its highest. -/
def Stretch (P : ExecutionPayload → Prop) : Prop :=
  ∃ top below, (∀ p, P p ↔ p ∈ top :: below) ∧
    Descends ChildOf (fun p => p.blockNumber.toNat) top below

namespace Stretch

variable {P : ExecutionPayload → Prop} {p q : ExecutionPayload}

theorem between (h : Stretch P) (hp : P p) (hq : P q) {n : UInt64}
    (hpn : p.blockNumber ≤ n) (hnq : n ≤ q.blockNumber) : ∃ r, P r ∧ r.blockNumber = n := by
  obtain ⟨top, below, hP, hdesc⟩ := h
  rw [UInt64.le_iff_toNat_le] at hpn hnq
  obtain ⟨r, hr, hrn⟩ := rank_between hdesc ((hP p).1 hp) ((hP q).1 hq) n.toNat hpn hnq
  exact ⟨r, (hP r).2 hr, UInt64.toNat_inj.1 hrn⟩

theorem adjacent (h : Stretch P) (hp : P p) (hq : P q)
    (hadj : q.blockNumber.toNat = p.blockNumber.toNat + 1) : q.parentHash = p.blockHash := by
  obtain ⟨top, below, hP, hdesc⟩ := h
  exact (related_of_adjacent hdesc ((hP p).1 hp) ((hP q).1 hq) hadj).parentHash

theorem lowest (h : Stretch P) : ∃ p, P p ∧ ∀ q, P q → p.blockNumber ≤ q.blockNumber := by
  obtain ⟨top, below, hP, hdesc⟩ := h
  obtain ⟨p, hp, hlow⟩ := exists_lowest hdesc
  refine ⟨p, (hP p).2 hp, fun q hq => ?_⟩
  rw [UInt64.le_iff_toNat_le]
  exact hlow q ((hP q).1 hq)

theorem highest (h : Stretch P) : ∃ p, P p ∧ ∀ q, P q → q.blockNumber ≤ p.blockNumber := by
  obtain ⟨top, below, hP, hdesc⟩ := h
  refine ⟨top, (hP top).2 List.mem_cons_self, fun q hq => ?_⟩
  rw [UInt64.le_iff_toNat_le]
  rcases List.mem_cons.1 ((hP q).1 hq) with rfl | hbelow
  · exact Nat.le_refl _
  · exact Nat.le_of_lt (rank_lt hdesc q hbelow)

end Stretch

namespace Node

open ConsensusClient Attempt

variable {k : ConsensusCrates} {config : Config} {checkpoint : Bytes} {chain : Chain}
  {node node' : Node} {settled : Payloads} {w w' : World} {call : Call}
  {p q : ExecutionPayload} {n : UInt64}

/-! ## What a call brings -/

/-- The payloads from the head down: that of the head, and those of the slots to backfill down to
    the first block whose request fails. -/
def Brought (chain : Chain) (w : World) (node : Node) (p : ExecutionPayload) : Prop :=
  ∃ slot, chain.At slot p ∧
    (slot = node.consensus.getHeader.slot ∨
      node.startSlot ≤ slot ∧ slot < node.consensus.getHeader.slot ∧
        AllAnswered chain (w.drop 3) slot node.consensus.getHeader.slot)

/-- A settled payload whose number is not brought anew, or one that is brought. -/
def Stays (chain : Chain) (w : World) (settled : Payloads) (node : Node)
    (p : ExecutionPayload) : Prop :=
  Brought chain w node p ∨
    settled[p.blockNumber]? = some p ∧
      ∀ q, Brought chain w node q → q.blockNumber ≠ p.blockNumber

/-- As many numbers as the map may hold are larger. -/
def Crowded (k : ConsensusCrates) (chain : Chain) (w : World) (node : Node) (n : UInt64) : Prop :=
  ∃ ns : Finset UInt64, node.historySize.toNat ≤ ns.card ∧ ∀ m ∈ ns, n < m ∧
    (m ∈ node.payloads ∨
      ∃ p, p.blockNumber = m ∧ (Brought chain w node p ∨ node.IsFinalized k w p))

/-- The parent of the lowest payload that stays. -/
def Under (chain : Chain) (w : World) (settled : Payloads) (node : Node)
    (p : ExecutionPayload) : Prop :=
  (∀ q, Stays chain w settled node q → p.blockNumber < q.blockNumber) ∧
    ∃ q, Stays chain w settled node q ∧ ChildOf q p

/-- A payload is too old to be kept, or brought, or settled, or it goes under what stays. -/
def Placed (k : ConsensusCrates) (chain : Chain) (w : World) (settled : Payloads) (node : Node)
    (p : ExecutionPayload) : Prop :=
  Crowded k chain w node p.blockNumber ∨ Brought chain w node p ∨
    settled[p.blockNumber]? = some p ∨ Under chain w settled node p

/-- What is brought meets what was settled, and everything else has its place. -/
structure Joins (k : ConsensusCrates) (chain : Chain) (w : World) (settled : Payloads)
    (node : Node) : Prop where
  /-- The lowest payload brought is the child of a settled one, if an older one is kept. -/
  below : ∀ p, Brought chain w node p →
    (∀ q, Brought chain w node q → p.blockNumber ≤ q.blockNumber) →
    ∀ n ∈ settled, n < p.blockNumber → ¬ Crowded k chain w node n →
      ∃ q, settled[q.blockNumber]? = some q ∧ ChildOf p q
  /-- The head is the parent of a settled one, if a newer one is stored. -/
  above : ∀ p, Brought chain w node p →
    (∀ q, Brought chain w node q → q.blockNumber ≤ p.blockNumber) →
    ∀ n ∈ settled, p.blockNumber < n → ¬ Crowded k chain w node p.blockNumber →
      ∃ q, settled[q.blockNumber]? = some q ∧ ChildOf q p
  finalized : ∀ p, node.IsFinalized k w p → Placed k chain w settled node p
  /-- What failed calls have left behind. -/
  remains : ∀ p, node.payloads[p.blockNumber]? = some p → settled[p.blockNumber]? ≠ some p →
    Placed k chain w settled node p

theorem Crowded.mono {m : UInt64} (h : Crowded k chain w node m) (hle : n ≤ m) :
    Crowded k chain w node n := by
  obtain ⟨ns, hcard, hns⟩ := h
  exact ⟨ns, hcard, fun i hi => ⟨UInt64.lt_of_le_of_lt hle (hns i hi).1, (hns i hi).2⟩⟩

/-! ## What stays is a range -/

theorem Brought.eq_of_number (hp : Brought chain w node p) (hq : Brought chain w node q)
    (h : p.blockNumber = q.blockNumber) : p = q := by
  obtain ⟨s, hs, _⟩ := hp
  obtain ⟨t, ht, _⟩ := hq
  exact Chain.eq_of_number hs ht h

/-- From one payload to another every number stays, and next to each other they are linked. -/
def Bridged (chain : Chain) (w : World) (settled : Payloads) (node : Node)
    (p q : ExecutionPayload) : Prop :=
  (∀ n : UInt64, p.blockNumber ≤ n → n ≤ q.blockNumber →
      ∃ r, Stays chain w settled node r ∧ r.blockNumber = n) ∧
    (q.blockNumber.toNat = p.blockNumber.toNat + 1 → q.parentHash = p.blockHash)

theorem bridged_brought (hbrought : Stretch (Brought chain w node)) (hp : Brought chain w node p)
    (hq : Brought chain w node q) : Bridged chain w settled node p q := by
  refine ⟨fun n hpn hnq => ?_, hbrought.adjacent hp hq⟩
  obtain ⟨r, hr, hrn⟩ := hbrought.between hp hq hpn hnq
  exact ⟨r, Or.inl hr, hrn⟩

/-- A settled number stays, whether or not it is brought anew. -/
theorem stays_of_settled (hkeyed : Keyed settled) (hn : n ∈ settled) :
    ∃ r, Stays chain w settled node r ∧ r.blockNumber = n := by
  by_cases hnew : ∃ r, Brought chain w node r ∧ r.blockNumber = n
  · obtain ⟨r, hr, hrn⟩ := hnew
    exact ⟨r, Or.inl hr, hrn⟩
  · obtain ⟨r, hr⟩ := Option.isSome_iff_exists.1 (Std.TreeMap.mem_iff_isSome_getElem?.1 hn)
    obtain rfl := hkeyed n r hr
    exact ⟨r, Or.inr ⟨hr, fun q hq heq => hnew ⟨q, hq, heq⟩⟩, rfl⟩

theorem bridged_settled (hsettled : NoHoles settled) (hkeyed : Keyed settled)
    (hp : settled[p.blockNumber]? = some p) (hq : settled[q.blockNumber]? = some q) :
    Bridged chain w settled node p q := by
  refine ⟨fun n hpn hnq => ?_, hsettled.linked _ _ p q hp hq⟩
  apply stays_of_settled hkeyed
  exact hsettled.contiguous _ _ n (mem_of_getElem? hp) (mem_of_getElem? hq) hpn hnq

/-- A bridge goes on from a payload to its child. -/
theorem Bridged.step {a b : ExecutionPayload} (hpa : Bridged chain w settled node p a)
    (hbq : Bridged chain w settled node b q) (hchild : ChildOf b a)
    (hlow : p.blockNumber ≤ a.blockNumber) (hhigh : b.blockNumber ≤ q.blockNumber)
    (hfirst : p.blockNumber = a.blockNumber → p = a)
    (hlast : b.blockNumber = q.blockNumber → b = q) : Bridged chain w settled node p q := by
  have hnext := hchild.number
  rw [UInt64.le_iff_toNat_le] at hlow hhigh
  constructor
  · intro n hpn hnq
    by_cases hna : n ≤ a.blockNumber
    · exact hpa.1 n hpn hna
    · refine hbq.1 n ?_ hnq
      rw [UInt64.le_iff_toNat_le] at hna ⊢
      omega
  · -- next to each other they are the payload and its child
    intro hadj
    obtain rfl := hfirst (UInt64.toNat_inj.1 (by omega))
    obtain rfl := hlast (UInt64.toNat_inj.1 (by omega))
    exact hchild.parentHash

/-- Between two payloads that stay, all numbers do, and next to each other they are linked. -/
theorem stays_between (hjoins : Joins k chain w settled node)
    (hbrought : Stretch (Brought chain w node)) (hsettled : NoHoles settled)
    (hkeyed : Keyed settled) (hp : Stays chain w settled node p)
    (hq : Stays chain w settled node q) (hlt : p.blockNumber < q.blockNumber)
    (hkept : ¬ Crowded k chain w node p.blockNumber) : Bridged chain w settled node p q := by
  rcases hp with hp | ⟨hp, hpnew⟩
  · rcases hq with hq | ⟨hq, hqnew⟩
    · exact bridged_brought hbrought hp hq
    · -- from what is brought up to what was settled above it
      obtain ⟨top, htop, hhighest⟩ := hbrought.highest
      have hptop := hhighest p hp
      have habove : top.blockNumber < q.blockNumber := by
        rw [← UInt64.not_le]
        intro hle
        obtain ⟨r, hr, hrn⟩ := hbrought.between hp htop (UInt64.le_of_lt hlt) hle
        exact hqnew r hr hrn
      obtain ⟨c, hc, hchild⟩ := hjoins.above top htop hhighest q.blockNumber (mem_of_getElem? hq)
        habove fun h => hkept (h.mono hptop)
      refine (bridged_brought hbrought hp htop).step (bridged_settled hsettled hkeyed hc hq) hchild
        hptop ?_ (hp.eq_of_number htop) fun heq => ?_
      · rw [UInt64.lt_iff_toNat_lt] at habove
        rw [UInt64.le_iff_toNat_le, hchild.number]
        omega
      · rw [heq, hq] at hc
        exact (Option.some.inj hc).symm
  · rcases hq with hq | ⟨hq, hqnew⟩
    · -- from what was settled up to what is brought above it
      obtain ⟨low, hlow, hlowest⟩ := hbrought.lowest
      have hbelow : p.blockNumber < low.blockNumber := by
        rw [← UInt64.not_le]
        intro hle
        obtain ⟨r, hr, hrn⟩ := hbrought.between hlow hq hle (UInt64.le_of_lt hlt)
        exact hpnew r hr hrn
      obtain ⟨c, hc, hchild⟩ := hjoins.below low hlow hlowest p.blockNumber (mem_of_getElem? hp)
        hbelow hkept
      refine (bridged_settled hsettled hkeyed hp hc).step (bridged_brought hbrought hlow hq) hchild
        ?_ (hlowest q hq) (fun heq => ?_) (hlow.eq_of_number hq)
      · have hnext := hchild.number
        rw [UInt64.lt_iff_toNat_lt] at hbelow
        rw [UInt64.le_iff_toNat_le]
        omega
      · rw [← heq, hp] at hc
        exact Option.some.inj hc
    · exact bridged_settled hsettled hkeyed hp hq

/-! ## What is stored before the oldest go -/

/-- The map of a successful call before its oldest payloads are dropped. -/
def filled (w : World) (node : Node) (latest finalized : ExecutionPayload) : Payloads :=
  insertAll ExecutionPayload.blockNumber node.payloads
    (latest :: finalized :: collectPayloads (node.backfillOf w) latest.parentHash)

theorem payloads_prune {latest finalized : ExecutionPayload} :
    ((node.insertHeads latest finalized).insertBackfill
      (collectPayloads (node.backfillOf w) latest.parentHash)).prune.payloads =
      popWhile node.historySize.toNat (node.filled w latest finalized).size
        (node.filled w latest finalized) := by
  unfold prune insertBackfill
  rw [foldl_insertPayload]
  rfl

/-- The answers of a successful call under a server that serves a chain. -/
structure Answers (k : ConsensusCrates) (chain : Chain) (w : World) (node : Node)
    (latest finalized : ExecutionPayload) (endBlock : BeaconBlock) : Prop where
  serves : ∀ i, chain.Serves (w i).rpc
  latest : node.IsLatest k w latest
  finalized : node.IsFinalized k w finalized
  endBlock : (w 2).rpc.getBlock node.consensus.getHeader.slot = .ok endBlock

section

variable {latest finalized : ExecutionPayload} {endBlock : BeaconBlock}

theorem Answers.latest_at (h : Answers k chain w node latest finalized endBlock) :
    chain.At node.consensus.getHeader.slot latest := by
  obtain ⟨block, _, hblock, _, _, rfl⟩ := h.latest
  exact ⟨block, h.serves 0 _ _ hblock, rfl⟩

theorem Answers.finalized_at (h : Answers k chain w node latest finalized endBlock) :
    chain.At node.consensus.finalizedTarget.slot finalized := by
  obtain ⟨block, _, hblock, _, _, rfl⟩ := h.finalized
  exact ⟨block, h.serves 1 _ _ hblock, rfl⟩

theorem Answers.finalized_unique (h : Answers k chain w node latest finalized endBlock)
    (hp : node.IsFinalized k w p) : p = finalized := by
  obtain ⟨block, _, hblock, _, _, rfl⟩ := hp
  exact Chain.At.unique ⟨block, h.serves 1 _ _ hblock, rfl⟩ h.finalized_at

theorem Answers.endBlock_payload (h : Answers k chain w node latest finalized endBlock) :
    endBlock.body.executionPayload = latest :=
  Chain.At.unique ⟨endBlock, h.serves 2 _ _ h.endBlock, rfl⟩ h.latest_at

/-- What the call brings is its head and its backfill. -/
theorem Answers.brought_iff (h : Answers k chain w node latest finalized endBlock) :
    Brought chain w node p ↔
      p ∈ latest :: collectPayloads (node.backfillOf w) latest.parentHash := by
  have hserves : ∀ i, chain.Serves (w.drop 3 i).rpc := fun i => h.serves (i + 3)
  rw [List.mem_cons, backfillOf, backfillAnswers_eq,
    mem_collectPayloads_iff (Nat.sub_le _ _) hserves (UInt64.le_refl _) h.latest_at gap_self]
  constructor
  · rintro ⟨slot, hp, rfl | ⟨hlow, hhigh, hall⟩⟩
    · exact Or.inl (hp.unique h.latest_at)
    · right
      rw [UInt64.le_iff_toNat_le] at hlow
      exact ⟨slot, by omega, hhigh, hp, hall⟩
  · rintro (rfl | ⟨slot, hlow, hhigh, hp, hall⟩)
    · exact ⟨_, h.latest_at, Or.inl rfl⟩
    · refine ⟨slot, hp, Or.inr ⟨?_, hhigh, hall⟩⟩
      rw [UInt64.lt_iff_toNat_lt] at hhigh
      rw [UInt64.le_iff_toNat_le]
      omega

theorem Answers.stretch (h : Answers k chain w node latest finalized endBlock) :
    Stretch (Brought chain w node) := by
  have hserves : ∀ i, chain.Serves (w.drop 3 i).rpc := fun i => h.serves (i + 3)
  refine ⟨latest, collectPayloads (node.backfillOf w) latest.parentHash,
    fun p => h.brought_iff, ?_⟩
  rw [backfillOf, backfillAnswers_eq]
  exact collectPayloads_descends (Nat.sub_le _ _) hserves (UInt64.le_refl _) h.latest_at gap_self

/-- What goes in is brought, or it is the finalized payload. -/
theorem Answers.mem_iff (h : Answers k chain w node latest finalized endBlock) :
    p ∈ latest :: finalized :: collectPayloads (node.backfillOf w) latest.parentHash ↔
      Brought chain w node p ∨ p = finalized := by
  rw [h.brought_iff]
  simp only [List.mem_cons]
  tauto

theorem Answers.eq_of_number (h : Answers k chain w node latest finalized endBlock)
    (hp : Brought chain w node p ∨ p = finalized) (hq : Brought chain w node q ∨ q = finalized)
    (heq : p.blockNumber = q.blockNumber) : p = q := by
  have hat : ∀ r, Brought chain w node r ∨ r = finalized → ∃ slot, chain.At slot r := by
    rintro r (⟨slot, hr, _⟩ | rfl)
    · exact ⟨slot, hr⟩
    · exact ⟨_, h.finalized_at⟩
  obtain ⟨s, hs⟩ := hat p hp
  obtain ⟨t, ht⟩ := hat q hq
  exact Chain.eq_of_number hs ht heq

/-- What goes in is there. -/
theorem Answers.filled_of_mem (h : Answers k chain w node latest finalized endBlock)
    (hp : Brought chain w node p ∨ p = finalized) :
    (node.filled w latest finalized)[p.blockNumber]? = some p :=
  insertAll_of_mem (h.mem_iff.2 hp) fun _ hq heq => h.eq_of_number (h.mem_iff.1 hq) hp heq

/-- **What is stored stays, or is the parent of the lowest that does**, unless it is to be
    dropped. -/
theorem Answers.filled_cases (h : Answers k chain w node latest finalized endBlock)
    (hjoins : Joins k chain w settled node) (hkeyed : Keyed node.payloads)
    (hp : (node.filled w latest finalized)[n]? = some p)
    (hkept : ¬ Crowded k chain w node n) :
    Stays chain w settled node p ∨ Under chain w settled node p := by
  obtain rfl := hkeyed.insertAll n p hp
  by_cases hnew : ∃ q, Brought chain w node q ∧ q.blockNumber = p.blockNumber
  · obtain ⟨q, hq, hqp⟩ := hnew
    have hqfilled := h.filled_of_mem (Or.inl hq)
    rw [hqp, hp] at hqfilled
    cases hqfilled
    exact Or.inl (Or.inl hq)
  have hplaced : Placed k chain w settled node p → Stays chain w settled node p ∨
      Under chain w settled node p := by
    rintro (hcrowded | hbrought | hsettled | hunder)
    · exact absurd hcrowded hkept
    · exact Or.inl (Or.inl hbrought)
    · exact Or.inl (Or.inr ⟨hsettled, fun q hq heq => hnew ⟨q, hq, heq⟩⟩)
    · exact Or.inr hunder
  by_cases hfinal : finalized.blockNumber = p.blockNumber
  · have hfilled := h.filled_of_mem (Or.inr rfl)
    rw [hfinal, hp] at hfilled
    cases hfilled
    exact hplaced (hjoins.finalized p h.finalized)
  · have hold : node.payloads[p.blockNumber]? = some p := by
      rw [← hp]
      refine (insertAll_of_not_mem fun v hv heq => ?_).symm
      rcases h.mem_iff.1 hv with hv | rfl
      · exact hnew ⟨v, hv, heq⟩
      · exact hfinal heq
    by_cases hsettled : settled[p.blockNumber]? = some p
    · exact Or.inl (Or.inr ⟨hsettled, fun q hq heq => hnew ⟨q, hq, heq⟩⟩)
    · exact hplaced (hjoins.remains p hold hsettled)

theorem Answers.filled_of_stays (h : Answers k chain w node latest finalized endBlock)
    (hjoins : Joins k chain w settled node) (hkeyed : Keyed node.payloads)
    (hsub : ∀ n ∈ settled, n ∈ node.payloads) (hp : Stays chain w settled node p)
    (hkept : ¬ Crowded k chain w node p.blockNumber) :
    (node.filled w latest finalized)[p.blockNumber]? = some p := by
  rcases hp with hp | ⟨hp, hpnew⟩
  · exact h.filled_of_mem (Or.inl hp)
  · have hmem : p.blockNumber ∈ node.filled w latest finalized :=
      mem_insertAll (hsub _ (mem_of_getElem? hp))
    obtain ⟨q, hq⟩ := Option.isSome_iff_exists.1 (Std.TreeMap.mem_iff_isSome_getElem?.1 hmem)
    have hqp := hkeyed.insertAll _ q hq
    rcases h.filled_cases hjoins hkeyed hq hkept with (hbrought | ⟨hsettled, _⟩) | hunder
    · exact absurd hqp (hpnew q hbrought)
    · rw [hqp, hp] at hsettled
      rw [hq, hsettled]
    · have hlt := hunder.1 p (Or.inr ⟨hp, hpnew⟩)
      rw [hqp, UInt64.lt_iff_toNat_lt] at hlt
      omega

/-! ## One call -/

/-- What is not dropped has fewer larger numbers than the map may hold. -/
theorem Answers.not_crowded (h : Answers k chain w node latest finalized endBlock)
    (hn : n ∈ popWhile node.historySize.toNat (node.filled w latest finalized).size
      (node.filled w latest finalized)) : ¬ Crowded k chain w node n := by
  rintro ⟨ns, hcard, hns⟩
  refine not_mem_popWhile hcard (fun m hm => ⟨?_, ?_⟩) hn
  · rcases (hns m hm).2 with hold | ⟨p, rfl, hp⟩
    · exact mem_insertAll hold
    · apply mem_of_getElem?
      exact h.filled_of_mem (hp.imp_right h.finalized_unique)
  · exact Std.compare_eq_lt.2 (hns m hm).1

/-- Below a stored payload that is not dropped, the upper one of two stays, and of the lower one
    either it or its child. -/
theorem Answers.anchor (h : Answers k chain w node latest finalized endBlock)
    (hjoins : Joins k chain w settled node) (hkeyed : Keyed node.payloads) {m : UInt64}
    (hp : (node.filled w latest finalized)[n]? = some p)
    (hq : (node.filled w latest finalized)[m]? = some q) (hlt : n < m)
    (hkept : ¬ Crowded k chain w node n) :
    Stays chain w settled node q ∧
      ∃ a, Stays chain w settled node a ∧ ¬ Crowded k chain w node a.blockNumber ∧
        (a = p ∨ ChildOf a p) := by
  have hle : ∀ i, n ≤ i → ¬ Crowded k chain w node i := fun i hi hcrowded =>
    hkept (hcrowded.mono hi)
  have hpn : p.blockNumber = n := hkeyed.insertAll n p hp
  have hqm : q.blockNumber = m := hkeyed.insertAll m q hq
  have hq' : Stays chain w settled node q ∨ Under chain w settled node q :=
    h.filled_cases hjoins hkeyed hq (hle m (UInt64.le_of_lt hlt))
  rw [UInt64.lt_iff_toNat_lt] at hlt
  rcases h.filled_cases hjoins hkeyed hp hkept with hp | ⟨_, a, ha, hchild⟩
  · refine ⟨hq'.resolve_right fun hunder => ?_, p, hp, by rwa [hpn], Or.inl rfl⟩
    have := UInt64.lt_iff_toNat_lt.1 (hunder.1 p hp)
    rw [hpn, hqm] at this
    omega
  · have hnumber := hchild.number
    rw [hpn] at hnumber
    refine ⟨hq'.resolve_right fun hunder => ?_, a, ha, hle _ ?_, Or.inr hchild⟩
    · have := UInt64.lt_iff_toNat_lt.1 (hunder.1 a ha)
      rw [hqm] at this
      omega
    · rw [UInt64.le_iff_toNat_le]
      omega

/-- Between two stored payloads of which the lower is not dropped, every number is stored. -/
theorem Answers.contiguous (h : Answers k chain w node latest finalized endBlock)
    (hjoins : Joins k chain w settled node) (hsettled : NoHoles settled) (hkeyed : Keyed settled)
    (hkeyed' : Keyed node.payloads) (hsub : ∀ n ∈ settled, n ∈ node.payloads) {m i : UInt64}
    (hp : (node.filled w latest finalized)[n]? = some p)
    (hq : (node.filled w latest finalized)[m]? = some q) (hlt : n < i) (him : i ≤ m)
    (hkept : ¬ Crowded k chain w node n) : i ∈ node.filled w latest finalized := by
  have hpn : p.blockNumber = n := hkeyed'.insertAll n p hp
  have hqm : q.blockNumber = m := hkeyed'.insertAll m q hq
  obtain ⟨hqstays, a, ha, hakept, hap⟩ :=
    h.anchor hjoins hkeyed' hp hq (UInt64.lt_of_lt_of_le hlt him) hkept
  have hai : a.blockNumber ≤ i := by
    rw [UInt64.lt_iff_toNat_lt] at hlt
    rw [UInt64.le_iff_toNat_le]
    rcases hap with rfl | hchild
    · rw [hpn]
      omega
    · have := hchild.number
      rw [hpn] at this
      omega
  obtain ⟨r, hr, rfl⟩ : ∃ r, Stays chain w settled node r ∧ r.blockNumber = i := by
    by_cases haq : a.blockNumber < q.blockNumber
    · exact (stays_between hjoins h.stretch hsettled hkeyed ha hqstays haq hakept).1 i hai
        (by rwa [hqm])
    · refine ⟨q, hqstays, ?_⟩
      rw [hqm]
      rw [UInt64.lt_iff_toNat_lt, hqm] at haq
      rw [UInt64.le_iff_toNat_le] at hai him
      exact UInt64.toNat_inj.1 (by omega)
  exact mem_of_getElem? (h.filled_of_stays hjoins hkeyed' hsub hr fun hcrowded =>
    hkept (hcrowded.mono (UInt64.le_of_lt hlt)))

/-- Two stored payloads next to each other are linked, if the lower is not dropped. -/
theorem Answers.linked (h : Answers k chain w node latest finalized endBlock)
    (hjoins : Joins k chain w settled node) (hsettled : NoHoles settled) (hkeyed : Keyed settled)
    (hkeyed' : Keyed node.payloads) (hsub : ∀ n ∈ settled, n ∈ node.payloads) {m : UInt64}
    (hp : (node.filled w latest finalized)[n]? = some p)
    (hq : (node.filled w latest finalized)[m]? = some q) (hadj : m.toNat = n.toNat + 1)
    (hkept : ¬ Crowded k chain w node n) : q.parentHash = p.blockHash := by
  have hpn : p.blockNumber = n := hkeyed'.insertAll n p hp
  have hqm : q.blockNumber = m := hkeyed'.insertAll m q hq
  have hlt : n < m := by
    rw [UInt64.lt_iff_toNat_lt]
    omega
  obtain ⟨hqstays, a, ha, hakept, rfl | hchild⟩ := h.anchor hjoins hkeyed' hp hq hlt hkept
  · refine (stays_between hjoins h.stretch hsettled hkeyed ha hqstays ?_ hakept).2 ?_
    · rwa [hpn, hqm]
    · rwa [hpn, hqm]
  · have ham : a.blockNumber = m := by
      have := hchild.number
      rw [hpn] at this
      exact UInt64.toNat_inj.1 (by omega)
    have hvalue := h.filled_of_stays hjoins hkeyed' hsub ha hakept
    rw [ham, hq] at hvalue
    cases hvalue
    exact hchild.parentHash

/-- **One successful call leaves no hole**, if what it brings meets what was settled. -/
theorem Answers.noHoles (h : Answers k chain w node latest finalized endBlock)
    (hjoins : Joins k chain w settled node) (hsettled : NoHoles settled) (hkeyed : Keyed settled)
    (hkeyed' : Keyed node.payloads) (hsub : ∀ n ∈ settled, n ∈ node.payloads) :
    NoHoles (popWhile node.historySize.toNat (node.filled w latest finalized).size
      (node.filled w latest finalized)) := by
  constructor
  · intro n m i hn hm hni him
    by_cases heq : n = i
    · rwa [← heq]
    have hlt : n < i := UInt64.lt_of_le_of_ne hni heq
    obtain ⟨p, hp⟩ := Option.isSome_iff_exists.1
      (Std.TreeMap.mem_iff_isSome_getElem?.1 (mem_of_mem_popWhile hn))
    obtain ⟨q, hq⟩ := Option.isSome_iff_exists.1
      (Std.TreeMap.mem_iff_isSome_getElem?.1 (mem_of_mem_popWhile hm))
    rw [Std.TreeMap.mem_iff_isSome_getElem?, popWhile_upper (Std.compare_eq_lt.2 hlt) hn,
      ← Std.TreeMap.mem_iff_isSome_getElem?]
    exact h.contiguous hjoins hsettled hkeyed hkeyed' hsub hp hq hlt him (h.not_crowded hn)
  · intro n m p q hp hq hadj
    exact h.linked hjoins hsettled hkeyed hkeyed' hsub (popWhile_getElem? hp)
      (popWhile_getElem? hq) hadj (h.not_crowded (mem_of_getElem? hp))

end

/-! ## Whole runs -/

/-- A node, and the payloads it held when its last successful call returned. -/
structure Tracked where
  node : Node
  settled : Payloads

/-- What a call that succeeds has to meet: a server of some chain, and payloads that join. -/
def JoinsCall (k : ConsensusCrates) (st : Tracked) (call : Call) (w w' : World) : Prop :=
  ∀ mid, st.node.consensusHalf k call w = (.ok (), mid) →
    (mid.updatePayloads k w').1 = .ok () →
    ∃ chain : Chain, (∀ i, chain.Serves (w' i).rpc) ∧ Joins k chain w' st.settled mid

/-- The runs of a node whose successful calls meet that, with failed ones between them. -/
def tracking (k : ConsensusCrates) (config : Config) (checkpoint : Bytes) : System Tracked where
  init st := st.node = Node.new checkpoint config ∧ st.settled = ∅
  step st st' := ∃ call w w', JoinsCall k st call w w' ∧ (st.node.run k call w w').2 = st'.node ∧
    st'.settled = match (st.node.run k call w w').1 with
      | .ok () => st'.node.payloads
      | .error _ => st.settled

/-- A failed call adds to the payloads, or leaves them; a successful one has all its answers. -/
theorem run_payloads :
    ((node.run k call w w').1 ≠ .ok () ∧
        ∃ vs, (node.run k call w w').2.payloads =
          insertAll ExecutionPayload.blockNumber node.payloads vs) ∨
      ∃ mid latest finalized endBlock, node.consensusHalf k call w = (.ok (), mid) ∧
        mid.payloads = node.payloads ∧ mid.IsLatest k w' latest ∧
        mid.IsFinalized k w' finalized ∧
        (w' 2).rpc.getBlock mid.consensus.getHeader.slot = .ok endBlock ∧
        mid.updatePayloads k w' = (.ok (), ((mid.insertHeads latest finalized).insertBackfill
          (collectPayloads (mid.backfillOf w')
            endBlock.body.executionPayload.parentHash)).prune) ∧
        node.run k call w w' = mid.updatePayloads k w' := by
  obtain ⟨client, hframe⟩ : SamePayloads node (node.consensusHalf k call w).2 :=
    consensusHalf_frame
  rcases run_cases with ⟨herr, hrun⟩ | ⟨mid, hhalf, hrun⟩
  · left
    rw [hrun]
    refine ⟨herr, [], ?_⟩
    rw [hframe]
    rfl
  · have hsame : mid.payloads = node.payloads := by
      rw [hhalf] at hframe
      simp only at hframe
      rw [hframe]
    have h : Updated k w' mid (mid.updatePayloads k w') := updatePayloads_updated
    rw [hrun]
    generalize hr : mid.updatePayloads k w' = r at h
    cases h with
    | kept _ => exact Or.inl ⟨by simp, [], hsame⟩
    | @heads e latest finalized _ _ =>
      refine Or.inl ⟨by simp, [latest, finalized], ?_⟩
      rw [← hsame]
      rfl
    | full hl hf hend => exact Or.inr ⟨mid, _, _, _, hhalf, hsame, hl, hf, hend, hr, hr.symm⟩

/-- What holds between the calls. -/
structure Tracked.Sound (st : Tracked) : Prop where
  noHoles : NoHoles st.settled
  settled_keyed : Keyed st.settled
  keyed : Keyed st.node.payloads
  kept : ∀ n ∈ st.settled, n ∈ st.node.payloads

/-- **A successful call from such a state leaves no hole.** -/
theorem noHoles_run {st : Tracked} (hst : st.Sound) (hmeets : JoinsCall k st call w w')
    (hrun : st.node.run k call w w' = (.ok (), node')) :
    NoHoles node'.payloads ∧ Keyed node'.payloads := by
  rcases run_payloads with ⟨herr, _⟩ | ⟨mid, latest, finalized, endBlock, hhalf, hsame, hl, hf,
    hend, hupdate, heq⟩
  · rw [hrun] at herr
    exact absurd rfl herr
  · obtain ⟨chain, hserves, hjoins⟩ := hmeets mid hhalf (by rw [hupdate])
    have hanswers : Answers k chain w' mid latest finalized endBlock := ⟨hserves, hl, hf, hend⟩
    rw [hrun, hupdate, hanswers.endBlock_payload] at heq
    cases heq
    have hkeyed : Keyed mid.payloads := by
      rw [hsame]
      exact hst.keyed
    rw [payloads_prune]
    refine ⟨hanswers.noHoles hjoins hst.noHoles hst.settled_keyed hkeyed fun n hn => ?_, ?_⟩
    · rw [hsame]
      exact hst.kept n hn
    · exact hkeyed.insertAll.popWhile

theorem tracking_sound {st : Tracked} (h : (tracking k config checkpoint).Reachable st) :
    st.Sound := by
  refine System.invariant (S := tracking k config checkpoint) ?_ ?_ h
  · rintro st ⟨hnode, hsettled⟩
    have hempty : ∀ n : UInt64, n ∉ st.settled := by
      intro n
      rw [hsettled]
      simp
    refine ⟨⟨fun n _ _ hn => absurd hn (hempty n), fun n _ _ _ hn => ?_⟩, fun n p hp => ?_,
      fun n p hp => ?_, fun n hn => absurd hn (hempty n)⟩
    · exact absurd (mem_of_getElem? hn) (hempty n)
    · exact absurd (mem_of_getElem? hp) (hempty n)
    · rw [hnode] at hp
      exact absurd hp (by simp [Node.new])
  · rintro st st' _ hst ⟨call, w, w', hmeets, hnode, hsettled⟩
    cases hresult : (st.node.run k call w w').1 with
    | ok u =>
      rw [hresult] at hsettled
      have hrun : st.node.run k call w w' = (.ok (), st'.node) := Attempt.eq_ok hresult hnode
      obtain ⟨hholes, hkeyed⟩ := noHoles_run hst hmeets hrun
      simp only at hsettled
      refine ⟨?_, ?_, hkeyed, fun n hn => ?_⟩
      · rwa [hsettled]
      · rwa [hsettled]
      · rwa [hsettled] at hn
    | error e =>
      rw [hresult] at hsettled
      simp only at hsettled
      rcases run_payloads with ⟨_, vs, hvs⟩ | ⟨mid, _, _, _, _, _, _, _, _, hupdate, heq⟩
      · rw [hnode] at hvs
        refine ⟨?_, ?_, ?_, fun n hn => ?_⟩
        · rw [hsettled]
          exact hst.noHoles
        · rw [hsettled]
          exact hst.settled_keyed
        · rw [hvs]
          exact hst.keyed.insertAll
        · rw [hsettled] at hn
          rw [hvs]
          exact mem_insertAll (hst.kept n hn)
      · rw [heq, hupdate] at hresult
        cases hresult

/-- **No holes in the block history.**  In every run in which each successful call is served by a
    chain and joins what was settled, whatever fails in between, the numbers stored after a
    successful call are one range, linked by their parent hashes, and a fee history of blocks that
    are not older than the oldest never meets a missing payload. -/
theorem no_holes (k : ConsensusCrates) (config : Config) (checkpoint : Bytes) (st : Tracked)
    (h : (tracking k config checkpoint).Reachable st) (call : Call) (w w' : World)
    (hmeets : JoinsCall k st call w w') (node' : Node)
    (hrun : st.node.run k call w w' = (.ok (), node')) :
    NoHoles node'.payloads ∧
      ∀ blockCount lastBlock oldest, firstKey? node'.payloads = some oldest → oldest ≤ lastBlock →
        node'.getFeeHistory blockCount lastBlock ≠
          .error (.err (.execution .emptyExecutionPayload)) := by
  have hholes : NoHoles node'.payloads := (noHoles_run (tracking_sound h) hmeets hrun).1
  exact ⟨hholes, fun blockCount lastBlock oldest hfirst hle => hholes.getFeeHistory hfirst hle⟩

/-! ## Three blocks -/

theorem mem_honestBlocks {slot : UInt64} {block : BeaconBlock}
    (h : honestBlocks.lookup slot = some block) :
    (slot = 6400000 ∧ block = checkpointBlock) ∨ (slot = 6400001 ∧ block = middleBlock) ∨
      (slot = 6400002 ∧ block = headBlock) := by
  have hmem : (slot, block) ∈ honestBlocks := mem_of_lookup h
  unfold honestBlocks at hmem
  simpa using hmem

/-- The checkpoint, the block after it and the head. -/
def honestChain : Chain where
  block slot := honestBlocks.lookup slot
  linked s t parent child hlt hparent hchild hnone := by
    rcases mem_honestBlocks hparent with ⟨rfl, rfl⟩ | ⟨rfl, rfl⟩ | ⟨rfl, rfl⟩ <;>
      rcases mem_honestBlocks hchild with ⟨rfl, rfl⟩ | ⟨rfl, rfl⟩ | ⟨rfl, rfl⟩
    · exact absurd hlt (by decide)
    · exact ⟨by decide, rfl⟩
    · have hmiddle := hnone 6400001 (by decide) (by decide)
      cases hmiddle
    · exact absurd hlt (by decide)
    · exact absurd hlt (by decide)
    · exact ⟨by decide, rfl⟩
    · exact absurd hlt (by decide)
    · exact absurd hlt (by decide)
    · exact absurd hlt (by decide)
  distinct s t a b ha hb heq := by
    have hhashes : checkpointHash ≠ middleHash ∧ checkpointHash ≠ headHash ∧
        middleHash ≠ headHash := by
      decide +kernel
    rcases mem_honestBlocks ha with ⟨rfl, rfl⟩ | ⟨rfl, rfl⟩ | ⟨rfl, rfl⟩ <;>
      rcases mem_honestBlocks hb with ⟨rfl, rfl⟩ | ⟨rfl, rfl⟩ | ⟨rfl, rfl⟩
    · rfl
    · exact absurd heq hhashes.1
    · exact absurd heq hhashes.2.1
    · exact absurd heq.symm hhashes.1
    · rfl
    · exact absurd heq hhashes.2.2
    · exact absurd heq.symm hhashes.2.1
    · exact absurd heq.symm hhashes.2.2
    · rfl

theorem headMoment_serves {blocks : List (UInt64 × BeaconBlock)}
    (h : ∀ slot block, blocks.lookup slot = some block → honestBlocks.lookup slot = some block) :
    honestChain.Serves (headMoment blocks).rpc := by
  intro slot block hblock
  apply h
  exact headMoment_getBlock.1 hblock

theorem honestBlocks_joins :
    Joins chainCrates honestChain (fun _ => headMoment honestBlocks) ∅ syncedNode := by
  have hempty : ∀ n : UInt64, n ∉ (∅ : Payloads) := by simp
  refine ⟨fun p _ _ n hn => absurd hn (hempty n), fun p _ _ n hn => absurd hn (hempty n),
    fun p hp => Or.inr (Or.inl ?_), fun p hp => ?_⟩
  · -- the finalized block is reached by the backfill
    have hslot : syncedNode.consensus.finalizedTarget.slot = 6400000 := by
      decide +kernel
    obtain ⟨block, _, hblock, _, _, rfl⟩ := hp
    rw [hslot] at hblock
    refine ⟨6400000, ⟨block, headMoment_serves (fun _ _ h => h) _ _ hblock, rfl⟩,
      Or.inr ⟨by decide +kernel, by decide +kernel, ?_⟩⟩
    intro r found _ _ hfound
    exact headMoment_getBlock.2 hfound
  · have hnew : syncedNode.payloads = ∅ := rfl
    rw [hnew] at hp
    exact absurd (mem_of_getElem? hp) (hempty _)

/-- The run from the start to the head, with all three blocks answered. -/
theorem no_holes_followed : (afterSync honestBlocks).payloads[(17000001 : UInt64)]? =
      some middlePayload ∧
    NoHoles (afterSync honestBlocks).payloads ∧
    (afterSync honestBlocks).getFeeHistory 2 17000002 ≠
      .error (.err (.execution .emptyExecutionPayload)) := by
  have hmeets : JoinsCall chainCrates ⟨Node.new checkpointRoot.toList mainnet, ∅⟩ .sync
      (fun _ => headMoment honestBlocks) fun _ => headMoment honestBlocks := by
    intro mid hmid _
    rw [headMoment_consensusHalf] at hmid
    cases hmid
    exact ⟨honestChain, fun _ => headMoment_serves fun _ _ h => h, honestBlocks_joins⟩
  have hrun : (Node.new checkpointRoot.toList mainnet).run chainCrates .sync
      (fun _ => headMoment honestBlocks) (fun _ => headMoment honestBlocks) =
        (.ok (), afterSync honestBlocks) := by
    rw [afterSync_run]
    exact Attempt.eq_ok (by decide +kernel) rfl
  obtain ⟨hholes, hfee⟩ := no_holes chainCrates mainnet checkpointRoot.toList
    ⟨Node.new checkpointRoot.toList mainnet, ∅⟩ (.init ⟨rfl, rfl⟩) .sync _ _ hmeets _ hrun
  exact ⟨by decide +kernel, hholes,
    hfee 2 17000002 17000000 (by decide +kernel) (by decide +kernel)⟩

/-! ## One failed request -/

/-- The chain without its middle block. -/
def holedBlocks : List (UInt64 × BeaconBlock) :=
  [(6400000, checkpointBlock), (6400002, headBlock)]

/-- All blocks are answered but the first one of the backfill. -/
def oneFailure : World := fun i => headMoment (if i = 3 then holedBlocks else honestBlocks)

theorem oneFailure_serves (i : Nat) : honestChain.Serves (oneFailure i).rpc := by
  unfold oneFailure
  split
  · apply headMoment_serves
    intro slot block h
    have hmem : (slot, block) ∈ holedBlocks := mem_of_lookup h
    unfold holedBlocks at hmem
    simp only [List.mem_cons, Prod.mk.injEq, List.not_mem_nil, or_false] at hmem
    rcases hmem with ⟨rfl, rfl⟩ | ⟨rfl, rfl⟩
    · rfl
    · rfl
  · exact headMoment_serves fun _ _ h => h

/-- The node after its first call, with that request failed. -/
def afterFailure : Node := (syncedNode.updatePayloads chainCrates oneFailure).2

theorem afterFailure_run : (Node.new checkpointRoot.toList mainnet).run chainCrates .sync
    (fun _ => headMoment honestBlocks) oneFailure = (.ok (), afterFailure) := by
  rw [run_of_half headMoment_consensusHalf]
  exact Attempt.eq_ok (by decide +kernel) rfl

theorem afterFailure_feeHistory : afterFailure.getFeeHistory 2 17000002 =
    .error (.err (.execution .emptyExecutionPayload)) := by
  have hlast : lastKey? afterFailure.payloads = some 17000002 := by
    decide +kernel
  have hfirst : firstKey? afterFailure.payloads = some 17000000 := by
    decide +kernel
  have hfound : rangePayloads afterFailure.payloads (blockRange 17000000 17000002) =
      .error (.err (.execution .emptyExecutionPayload)) := by
    decide +kernel
  have hlatest : (if (17000002 : UInt64) > 17000002 then (17000002 : UInt64) else 17000002) =
      17000002 := by decide
  have holdest : (if (17000002 : UInt64) - 2 < 17000000 then (17000000 : UInt64)
      else 17000002 - 2) = 17000000 := by decide
  have hold : ¬ (17000002 : UInt64) < 17000000 := by decide
  unfold getFeeHistory Helios.getFeeHistory
  simp only [hlast, hfirst, hold, hlatest, holdest, hfound, if_false]

/-- A server of one chain fails to answer one request: the call succeeds, the block is missing
    between two stored ones, and a fee history over it fails. -/
theorem no_holes_fails :
    (∀ i, honestChain.Serves (oneFailure i).rpc) ∧
      (∀ i, i ≠ 3 → oneFailure i = headMoment honestBlocks) ∧
      (Node.new checkpointRoot.toList mainnet).run chainCrates .sync
        (fun _ => headMoment honestBlocks) oneFailure = (.ok (), afterFailure) ∧
      firstKey? afterFailure.payloads = some 17000000 ∧
      ¬ NoHoles afterFailure.payloads ∧
      afterFailure.getFeeHistory 2 17000002 =
        .error (.err (.execution .emptyExecutionPayload)) := by
  refine ⟨oneFailure_serves, fun i hi => by rw [oneFailure, if_neg hi], afterFailure_run,
    by decide +kernel, fun h => ?_, afterFailure_feeHistory⟩
  have hlow : (17000000 : UInt64) ∈ afterFailure.payloads := by
    decide +kernel
  have hhigh : (17000002 : UInt64) ∈ afterFailure.payloads := by
    decide +kernel
  have hmissing : (17000001 : UInt64) ∉ afterFailure.payloads := by
    decide +kernel
  exact hmissing (h.contiguous _ _ 17000001 hlow hhigh (by decide) (by decide))

end Node

end Helios
