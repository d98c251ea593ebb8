import Helios.Consensus.Client
import Helios.Lib.Descent

/-!
# The canonical chain, as a server serves it

* `Chain` — the blocks of a chain by their slots: some slots have none, a block names the hash of
  the one before it and has the next number, and no two blocks have one hash.
* `Chain.Serves` — what a server answers is of the chain; a request for a block that is there can
  still fail.
* `mem_collectPayloads_iff` — **what the backfill loop takes of such answers**: every block down to
  the first one whose request fails.
* `collectPayloads_descends` — the payloads taken go down by one.
-/

set_option autoImplicit false

namespace Helios

open Descent

/-- The child has the next number, and names the hash of the parent. -/
structure ChildOf (child parent : ExecutionPayload) : Prop where
  number : child.blockNumber.toNat = parent.blockNumber.toNat + 1
  parentHash : child.parentHash = parent.blockHash

/-- A chain at one time. -/
structure Chain where
  block : UInt64 → Option BeaconBlock
  linked : ∀ s t parent child, s < t → block s = some parent → block t = some child →
    (∀ r, s < r → r < t → block r = none) →
    ChildOf child.body.executionPayload parent.body.executionPayload
  distinct : ∀ s t a b, block s = some a → block t = some b →
    a.body.executionPayload.blockHash = b.body.executionPayload.blockHash → s = t

namespace Chain

variable {chain : Chain} {s t : UInt64} {p q : ExecutionPayload}

/-- The payload of the block at a slot. -/
def At (chain : Chain) (slot : UInt64) (p : ExecutionPayload) : Prop :=
  ∃ block, chain.block slot = some block ∧ block.body.executionPayload = p

/-- A slot without a block gives an error; so may any other. -/
def Serves (chain : Chain) (rpc : ConsensusRpc) : Prop :=
  ∀ slot block, rpc.getBlock slot = .ok block → chain.block slot = some block

theorem At.unique (hp : chain.At s p) (hq : chain.At s q) : p = q := by
  obtain ⟨a, ha, rfl⟩ := hp
  obtain ⟨b, hb, rfl⟩ := hq
  rw [ha] at hb
  cases hb
  rfl

/-- Numbers go up with the slots. -/
theorem number_lt : ∀ (n : Nat) {s t : UInt64} {p q : ExecutionPayload},
    t.toNat - s.toNat ≤ n → s < t → chain.At s p → chain.At t q →
      p.blockNumber.toNat < q.blockNumber.toNat
  | 0, s, t, p, q, hn, hst, _, _ => by
    rw [UInt64.lt_iff_toNat_lt] at hst
    omega
  | n + 1, s, t, p, q, hn, hst, hp, hq => by
    by_cases hbetween : ∃ r, s < r ∧ r < t ∧ chain.block r ≠ none
    · obtain ⟨r, hsr, hrt, hr⟩ := hbetween
      obtain ⟨block, hblock⟩ := Option.ne_none_iff_exists'.1 hr
      have hmid : chain.At r block.body.executionPayload := ⟨block, hblock, rfl⟩
      have hsr' := UInt64.lt_iff_toNat_lt.1 hsr
      have hrt' := UInt64.lt_iff_toNat_lt.1 hrt
      have hlow := number_lt n (by omega) hsr hp hmid
      have hhigh := number_lt n (by omega) hrt hmid hq
      omega
    · obtain ⟨a, ha, rfl⟩ := hp
      obtain ⟨b, hb, rfl⟩ := hq
      have hlink := chain.linked s t a b hst ha hb fun r hsr hrt =>
        not_not.1 fun hr => hbetween ⟨r, hsr, hrt, hr⟩
      have := hlink.number
      omega

/-- A number names one payload of the chain. -/
theorem eq_of_number (hp : chain.At s p) (hq : chain.At t q) (h : p.blockNumber = q.blockNumber) :
    p = q := by
  rcases Nat.lt_trichotomy s.toNat t.toNat with hlt | heq | hlt
  · have := number_lt _ le_rfl (UInt64.lt_iff_toNat_lt.2 hlt) hp hq
    rw [h] at this
    omega
  · rw [UInt64.toNat_inj.1 heq] at hp
    exact hp.unique hq
  · have := number_lt _ le_rfl (UInt64.lt_iff_toNat_lt.2 hlt) hq hp
    rw [h] at this
    omega

end Chain

namespace ConsensusClient

/-! ## The answers, slot by slot -/

/-- The answers for some number of slots below one, each at its own moment. -/
def answersBelow : Nat → World → UInt64 → List (Except Report BeaconBlock)
  | 0, _, _ => []
  | n + 1, w, slot => (w 0).rpc.getBlock (slot - 1) :: answersBelow n (w.drop 1) (slot - 1)

theorem backfillAnswers_eq {w : World} {startSlot endSlot : UInt64} :
    backfillAnswers w startSlot endSlot =
      answersBelow (endSlot.toNat - startSlot.toNat) w endSlot := by
  unfold backfillAnswers backfillSlots
  generalize endSlot.toNat - startSlot.toNat = n
  induction n generalizing w endSlot with
  | zero => rfl
  | succ n ih =>
    have hslots : ∀ i : Nat,
        endSlot - 1 - UInt64.ofNat (i + 1) = endSlot - 1 - 1 - UInt64.ofNat i := by
      intro i
      rw [UInt64.ofNat_add]
      grind
    have hfirst : endSlot - 1 - UInt64.ofNat 0 = endSlot - 1 := by
      simp
    rw [answersBelow, ← ih, List.range_succ_eq_map, List.map_cons, List.map_map, List.mapIdx_cons,
      hfirst]
    simp only [Function.comp_def, Nat.succ_eq_add_one, hslots]
    rfl

/-! ## One answer -/

variable {chain : Chain} {w : World} {slot t : UInt64} {child p : ExecutionPayload}
  {prevParentHash : Bytes32}

theorem toNat_sub_one (slot : UInt64) (h : 1 ≤ slot.toNat) : (slot - 1).toNat = slot.toNat - 1 := by
  rw [UInt64.toNat_sub_of_le]
  · rfl
  · rwa [UInt64.le_iff_toNat_le]

/-- Nothing is taken when no block below has the hash looked for. -/
theorem collectPayloads_nil : ∀ {n : Nat} {w : World} {slot : UInt64}, n ≤ slot.toNat →
    (∀ i, chain.Serves (w i).rpc) →
    (∀ s q, s.toNat < slot.toNat → chain.At s q → q.blockHash ≠ prevParentHash) →
    collectPayloads (answersBelow n w slot) prevParentHash = []
  | 0, _, _, _, _, _ => rfl
  | n + 1, w, slot, hn, hserves, hnone => by
    have hpred := toNat_sub_one slot (by omega)
    have hrest : collectPayloads (answersBelow n (w.drop 1) (slot - 1)) prevParentHash = [] :=
      collectPayloads_nil (by omega) (fun i => hserves (i + 1))
        fun s q hs hq => hnone s q (by omega) hq
    rw [answersBelow]
    cases h : (w 0).rpc.getBlock (slot - 1) with
    | error e => rw [collectPayloads, hrest]
    | ok block =>
      have hne := hnone (slot - 1) _ (by omega) ⟨block, hserves 0 _ _ h, rfl⟩
      rw [collectPayloads]
      simp [hne]

/-- No block between two slots, the lower one included. -/
def Gap (chain : Chain) (slot t : UInt64) : Prop :=
  ∀ r, slot ≤ r → r < t → chain.block r = none

/-- The slot below has no block, or it is answered and taken, or its request fails and nothing
    more is taken. -/
inductive Step (chain : Chain) (w : World) (n : Nat) (slot : UInt64) (child : ExecutionPayload) :
    List ExecutionPayload → Prop
  | empty : chain.block (slot - 1) = none →
      Step chain w n slot child
        (collectPayloads (answersBelow n (w.drop 1) (slot - 1)) child.parentHash)
  | taken {block : BeaconBlock} : chain.block (slot - 1) = some block →
      (w 0).rpc.getBlock (slot - 1) = .ok block → ChildOf child block.body.executionPayload →
      Step chain w n slot child (block.body.executionPayload ::
        collectPayloads (answersBelow n (w.drop 1) (slot - 1))
          block.body.executionPayload.parentHash)
  | stopped {block : BeaconBlock} : chain.block (slot - 1) = some block →
      (w 0).rpc.getBlock (slot - 1) ≠ .ok block → Step chain w n slot child []

theorem collectPayloads_step {n : Nat} (hn : n + 1 ≤ slot.toNat)
    (hserves : ∀ i, chain.Serves (w i).rpc) (hle : slot ≤ t) (hchild : chain.At t child)
    (hgap : Gap chain slot t) :
    Step chain w n slot child
      (collectPayloads (answersBelow (n + 1) w slot) child.parentHash) := by
  have hpred := toNat_sub_one slot (by omega)
  rw [UInt64.le_iff_toNat_le] at hle
  have hlt : slot - 1 < t := by
    rw [UInt64.lt_iff_toNat_lt]
    omega
  rw [answersBelow]
  cases hblock : chain.block (slot - 1) with
  | none =>
    cases h : (w 0).rpc.getBlock (slot - 1) with
    | error e => exact .empty hblock
    | ok block =>
      have := hserves 0 _ _ h
      rw [hblock] at this
      cases this
  | some block =>
    -- the block before the child is this one
    have hlink : ChildOf child block.body.executionPayload := by
      obtain ⟨b, hb, rfl⟩ := hchild
      refine chain.linked _ _ _ _ hlt hblock hb fun r hlow hhigh => hgap r ?_ hhigh
      rw [UInt64.lt_iff_toNat_lt] at hlow
      rw [UInt64.le_iff_toNat_le]
      omega
    cases h : (w 0).rpc.getBlock (slot - 1) with
    | ok answered =>
      have hsame := hserves 0 _ _ h
      rw [hblock] at hsame
      cases hsame
      have heq : ¬ block.body.executionPayload.blockHash ≠ child.parentHash :=
        not_not.2 hlink.parentHash.symm
      rw [collectPayloads]
      simp only [heq, if_false]
      exact .taken hblock h hlink
    | error e =>
      have hnil : collectPayloads (answersBelow n (w.drop 1) (slot - 1)) child.parentHash = [] := by
        apply collectPayloads_nil (by omega) fun i => hserves (i + 1)
        rintro s _ hs ⟨b, hb, rfl⟩ heq
        have hsame := chain.distinct _ _ _ _ hb hblock (heq.trans hlink.parentHash)
        rw [hsame] at hs
        omega
      rw [collectPayloads, hnil]
      refine .stopped hblock ?_
      rw [h]
      simp

/-! ## All answers -/

theorem gap_empty (hpos : 1 ≤ slot.toNat) (hempty : chain.block (slot - 1) = none)
    (hgap : Gap chain slot t) : Gap chain (slot - 1) t := by
  have hpred := toNat_sub_one slot hpos
  intro r hlow hhigh
  by_cases heq : r = slot - 1
  · rw [heq]
    exact hempty
  · refine hgap r ?_ hhigh
    rw [UInt64.le_iff_toNat_le] at hlow ⊢
    have hne : r.toNat ≠ (slot - 1).toNat := fun h => heq (UInt64.toNat_inj.1 h)
    omega

theorem gap_self : Gap chain t t := fun r hlow hhigh => by
  rw [UInt64.le_iff_toNat_le] at hlow
  rw [UInt64.lt_iff_toNat_lt] at hhigh
  omega

/-- **What is taken goes down by one.** -/
theorem collectPayloads_descends : ∀ {n : Nat} {w : World} {slot t : UInt64}
    {child : ExecutionPayload}, n ≤ slot.toNat → (∀ i, chain.Serves (w i).rpc) → slot ≤ t →
      chain.At t child → Gap chain slot t →
      Descends ChildOf (fun p => p.blockNumber.toNat) child
        (collectPayloads (answersBelow n w slot) child.parentHash)
  | 0, _, _, _, _, _, _, _, _, _ => trivial
  | n + 1, w, slot, t, child, hn, hserves, hle, hchild, hgap => by
    have hpred := toNat_sub_one slot (by omega)
    have hstep : Step chain w n slot child
        (collectPayloads (answersBelow (n + 1) w slot) child.parentHash) :=
      collectPayloads_step hn hserves hle hchild hgap
    have hserves' : ∀ i, chain.Serves (w.drop 1 i).rpc := fun i => hserves (i + 1)
    generalize collectPayloads (answersBelow (n + 1) w slot) child.parentHash = taken at hstep
    cases hstep with
    | empty hempty =>
      refine collectPayloads_descends (by omega) hserves' ?_ hchild
        (gap_empty (by omega) hempty hgap)
      rw [UInt64.le_iff_toNat_le] at hle ⊢
      omega
    | taken hblock _ hlink =>
      exact ⟨⟨hlink, hlink.number⟩,
        collectPayloads_descends (by omega) hserves' (UInt64.le_refl _) ⟨_, hblock, rfl⟩ gap_self⟩
    | stopped _ _ => trivial

/-- Every request from a slot up to another is answered, unless the slot has no block. -/
def AllAnswered (chain : Chain) (w : World) (s slot : UInt64) : Prop :=
  ∀ r block, s ≤ r → r < slot → chain.block r = some block →
    (w (slot.toNat - 1 - r.toNat)).rpc.getBlock r = .ok block

/-- The answer for the slot below, and those for the rest. -/
theorem allAnswered_iff {s : UInt64} (hs : s < slot) :
    AllAnswered chain w s slot ↔
      (∀ block, chain.block (slot - 1) = some block →
        (w 0).rpc.getBlock (slot - 1) = .ok block) ∧
      AllAnswered chain (w.drop 1) s (slot - 1) := by
  rw [UInt64.lt_iff_toNat_lt] at hs
  have hpred := toNat_sub_one slot (by omega)
  constructor
  · intro h
    constructor
    · intro block hblock
      have hanswer := h (slot - 1) block (by rw [UInt64.le_iff_toNat_le]; omega)
        (by rw [UInt64.lt_iff_toNat_lt]; omega) hblock
      rwa [hpred, Nat.sub_self] at hanswer
    · intro r block hlow hhigh hblock
      rw [UInt64.lt_iff_toNat_lt] at hhigh
      have hanswer := h r block hlow (by rw [UInt64.lt_iff_toNat_lt]; omega) hblock
      have hmoment : (slot - 1).toNat - 1 - r.toNat + 1 = slot.toNat - 1 - r.toNat := by omega
      rw [World.drop, hmoment]
      exact hanswer
  · rintro ⟨hfirst, hrest⟩ r block hlow hhigh hblock
    rw [UInt64.lt_iff_toNat_lt] at hhigh
    by_cases hr : r = slot - 1
    · subst hr
      rw [hpred, Nat.sub_self]
      exact hfirst block hblock
    · have hne : r.toNat ≠ (slot - 1).toNat := fun h => hr (UInt64.toNat_inj.1 h)
      have hanswer := hrest r block hlow (by rw [UInt64.lt_iff_toNat_lt]; omega) hblock
      have hmoment : (slot - 1).toNat - 1 - r.toNat + 1 = slot.toNat - 1 - r.toNat := by omega
      rw [World.drop, hmoment] at hanswer
      exact hanswer

/-- A slot below with everything answered is the first one, or one of the rest. -/
theorem exists_answered_iff {n : Nat} (hn : n + 1 ≤ slot.toNat) :
    (∃ s, slot.toNat - (n + 1) ≤ s.toNat ∧ s < slot ∧ chain.At s p ∧
        AllAnswered chain w s slot) ↔
      (∀ block, chain.block (slot - 1) = some block →
        (w 0).rpc.getBlock (slot - 1) = .ok block) ∧
      (chain.At (slot - 1) p ∨ ∃ s, (slot - 1).toNat - n ≤ s.toNat ∧ s < slot - 1 ∧
        chain.At s p ∧ AllAnswered chain (w.drop 1) s (slot - 1)) := by
  have hpred := toNat_sub_one slot (by omega)
  constructor
  · rintro ⟨s, hlow, hhigh, hp, hall⟩
    obtain ⟨hfirst, hrest⟩ := (allAnswered_iff hhigh).1 hall
    refine ⟨hfirst, ?_⟩
    by_cases hs : s = slot - 1
    · left
      rwa [hs] at hp
    · right
      have hne : s.toNat ≠ (slot - 1).toNat := fun h => hs (UInt64.toNat_inj.1 h)
      rw [UInt64.lt_iff_toNat_lt] at hhigh
      exact ⟨s, by omega, by rw [UInt64.lt_iff_toNat_lt]; omega, hp, hrest⟩
  · rintro ⟨hfirst, hp | ⟨s, hlow, hhigh, hp, hrest⟩⟩
    · have hslot : slot - 1 < slot := by
        rw [UInt64.lt_iff_toNat_lt]
        omega
      refine ⟨slot - 1, by omega, hslot, hp, (allAnswered_iff hslot).2 ⟨hfirst, ?_⟩⟩
      intro r block hlow hhigh
      rw [UInt64.le_iff_toNat_le] at hlow
      rw [UInt64.lt_iff_toNat_lt] at hhigh
      omega
    · have hslot : s < slot := by
        rw [UInt64.lt_iff_toNat_lt] at hhigh ⊢
        omega
      exact ⟨s, by omega, hslot, hp, (allAnswered_iff hslot).2 ⟨hfirst, hrest⟩⟩

/-- **What is taken**: the payload of a slot down to which everything is answered. -/
theorem mem_collectPayloads_iff : ∀ {n : Nat} {w : World} {slot t : UInt64}
    {child : ExecutionPayload}, n ≤ slot.toNat → (∀ i, chain.Serves (w i).rpc) → slot ≤ t →
      chain.At t child → Gap chain slot t →
      (p ∈ collectPayloads (answersBelow n w slot) child.parentHash ↔
        ∃ s, slot.toNat - n ≤ s.toNat ∧ s < slot ∧ chain.At s p ∧ AllAnswered chain w s slot)
  | 0, w, slot, _, _, _, _, _, _, _ => by
    simp only [answersBelow, collectPayloads, List.not_mem_nil, false_iff]
    rintro ⟨s, hlow, hhigh, _⟩
    rw [UInt64.lt_iff_toNat_lt] at hhigh
    omega
  | n + 1, w, slot, t, child, hn, hserves, hle, hchild, hgap => by
    have hpred := toNat_sub_one slot (by omega)
    have hstep : Step chain w n slot child
        (collectPayloads (answersBelow (n + 1) w slot) child.parentHash) :=
      collectPayloads_step hn hserves hle hchild hgap
    have hserves' : ∀ i, chain.Serves (w.drop 1 i).rpc := fun i => hserves (i + 1)
    have hle' : slot - 1 ≤ t := by
      rw [UInt64.le_iff_toNat_le] at hle ⊢
      omega
    rw [exists_answered_iff hn]
    generalize collectPayloads (answersBelow (n + 1) w slot) child.parentHash = taken at hstep
    cases hstep with
    | empty hempty =>
      rw [mem_collectPayloads_iff (by omega) hserves' hle' hchild
        (gap_empty (by omega) hempty hgap)]
      simp [Chain.At, hempty]
    | @taken block hblock hanswer hlink =>
      rw [List.mem_cons, mem_collectPayloads_iff (by omega) hserves' (UInt64.le_refl _)
        ⟨_, hblock, rfl⟩ gap_self]
      simp [Chain.At, hblock, hanswer, eq_comm]
    | @stopped block hblock hfail =>
      simp only [List.not_mem_nil, false_iff]
      rintro ⟨hfirst, _⟩
      exact hfail (hfirst block hblock)

end ConsensusClient

end Helios
