import Helios.Consensus.Alignment

/-!
# What `get_payloads` returns

The requests of the backfill are all sent at once; the loop then walks their answers from the end
of the range down, skips the failed ones and stops at the first block that does not link.

* `fetched` — the answer that a call gets for a slot.
* `Collected` — a maximal hash chain of fetched blocks; `collectPayloads_collected` — the loop
  over any list of slots returns one.
* `Linear`, `collectPayloads_linear` — of a served chain it takes every block.
* `getPayloads_maximal` — **both, for every server and every range**.
-/

set_option autoImplicit false

namespace Helios

namespace ConsensusClient

variable {f : UInt64 → Except Report BeaconBlock} {w : World} {startSlot endSlot slot : UInt64}

/-! ## The requests -/

/-- The answer a call gets for a slot; the block at the end is asked for first. -/
def fetched (w : World) (endSlot slot : UInt64) : Except Report BeaconBlock :=
  (w (endSlot.toNat - slot.toNat)).rpc.getBlock slot

theorem fetched_end : fetched w endSlot endSlot = (w 0).rpc.getBlock endSlot := by
  rw [fetched, Nat.sub_self]

theorem backfillSlot_toNat {i : Nat} (h : i < endSlot.toNat - startSlot.toNat) :
    (endSlot - 1 - UInt64.ofNat i).toNat = endSlot.toNat - 1 - i := by
  have hlt := endSlot.toNat_lt
  have hone : (1 : UInt64).toNat = 1 := rfl
  have hi : (UInt64.ofNat i).toNat = i := UInt64.toNat_ofNat_of_lt' (by show i < 2 ^ 64; omega)
  have hpred : (endSlot - 1).toNat = endSlot.toNat - 1 :=
    UInt64.toNat_sub_of_le _ _ (by rw [UInt64.le_iff_toNat_le]; omega)
  rw [UInt64.toNat_sub_of_le _ _ (by rw [UInt64.le_iff_toNat_le]; omega), hpred, hi]

theorem mem_backfillSlots :
    slot ∈ backfillSlots startSlot endSlot ↔ startSlot ≤ slot ∧ slot < endSlot := by
  unfold backfillSlots
  rw [List.mem_map, UInt64.le_iff_toNat_le, UInt64.lt_iff_toNat_lt]
  constructor
  · rintro ⟨i, hi, rfl⟩
    rw [List.mem_range] at hi
    rw [backfillSlot_toNat hi]
    omega
  · rintro ⟨hlow, hhigh⟩
    have hi : endSlot.toNat - 1 - slot.toNat < endSlot.toNat - startSlot.toNat := by omega
    refine ⟨endSlot.toNat - 1 - slot.toNat, List.mem_range.2 hi, UInt64.toNat_inj.1 ?_⟩
    rw [backfillSlot_toNat hi]
    omega

/-- The slots go down. -/
theorem backfillSlots_decreasing : (backfillSlots startSlot endSlot).Pairwise (· > ·) := by
  unfold backfillSlots
  rw [List.pairwise_map]
  refine List.pairwise_lt_range.imp_of_mem fun {i j} hi hj hlt => ?_
  rw [List.mem_range] at hi hj
  rw [gt_iff_lt, UInt64.lt_iff_toNat_lt, backfillSlot_toNat hi, backfillSlot_toNat hj]
  omega

theorem backfillAnswers_fetched :
    backfillAnswers (w.drop 1) startSlot endSlot =
      (backfillSlots startSlot endSlot).map (fetched w endSlot) := by
  unfold backfillAnswers
  apply List.ext_getElem?
  intro i
  rw [List.getElem?_mapIdx, List.getElem?_map]
  by_cases hi : i < endSlot.toNat - startSlot.toNat
  · have hslot : (backfillSlots startSlot endSlot)[i]? = some (endSlot - 1 - UInt64.ofNat i) := by
      rw [backfillSlots, List.getElem?_map, List.getElem?_range hi, Option.map_some]
    have hmoment : endSlot.toNat - (endSlot - 1 - UInt64.ofNat i).toNat = i + 1 := by
      rw [backfillSlot_toNat hi]
      omega
    rw [hslot, Option.map_some, Option.map_some, fetched, hmoment]
    rfl
  · have hnone : (backfillSlots startSlot endSlot)[i]? = none := by
      rw [List.getElem?_eq_none_iff, backfillSlots, List.length_map, List.length_range]
      omega
    rw [hnone]
    rfl

/-! ## Any server -/

/-- Each payload has the hash that the one before it names as its parent. -/
def Linked : Bytes32 → List ExecutionPayload → Prop
  | _, [] => True
  | prevParentHash, payload :: rest =>
    payload.blockHash = prevParentHash ∧ Linked payload.parentHash rest

/-- The parent hash that is looked for at the end of the list. -/
def lastParentHash (prevParentHash : Bytes32) : List ExecutionPayload → Bytes32
  | [] => prevParentHash
  | payload :: rest => lastParentHash payload.parentHash rest

/-- The payloads come from some of the slots, in their order, and are linked; every fetched block
    is among them, or those are that lie above the first one that does not link. -/
structure Collected (f : UInt64 → Except Report BeaconBlock) (slots : List UInt64)
    (prevParentHash : Bytes32) (payloads : List ExecutionPayload) (taken : List UInt64) :
    Prop where
  sublist : taken.Sublist slots
  blocks : List.Forall₂ (fun slot payload => ∃ block, f slot = .ok block ∧
    block.body.executionPayload = payload) taken payloads
  linked : Linked prevParentHash payloads
  maximal : (∀ slot ∈ slots, ∀ block, f slot = .ok block → slot ∈ taken) ∨
    ∃ stop ∈ slots, ∃ block, f stop = .ok block ∧
      block.body.executionPayload.blockHash ≠ lastParentHash prevParentHash payloads ∧
      ∀ slot ∈ slots, ∀ block, f slot = .ok block → (slot ∈ taken ↔ stop < slot)

/-- An empty slot above is skipped. -/
theorem Collected.skip {slots taken : List UInt64} {prevParentHash : Bytes32}
    {payloads : List ExecutionPayload} {e : Report}
    (h : Collected f slots prevParentHash payloads taken) (hanswer : f slot = .error e) :
    Collected f (slot :: slots) prevParentHash payloads taken := by
  refine ⟨h.sublist.cons slot, h.blocks, h.linked, ?_⟩
  rcases h.maximal with hall | ⟨stop, hstop, block, hblock, hne, hall⟩
  · left
    intro s hs block hblock
    rcases List.mem_cons.1 hs with rfl | hs
    · rw [hanswer] at hblock
      cases hblock
    · exact hall s hs block hblock
  · refine Or.inr ⟨stop, List.mem_cons_of_mem _ hstop, block, hblock, hne, ?_⟩
    intro s hs block hblock
    rcases List.mem_cons.1 hs with rfl | hs
    · rw [hanswer] at hblock
      cases hblock
    · exact hall s hs block hblock

/-- A block above that links is taken. -/
theorem Collected.take {slots taken : List UInt64} {payloads : List ExecutionPayload}
    {block : BeaconBlock}
    (h : Collected f slots block.body.executionPayload.parentHash payloads taken)
    (hanswer : f slot = .ok block) (hbelow : ∀ s ∈ slots, slot > s) :
    Collected f (slot :: slots) block.body.executionPayload.blockHash
      (block.body.executionPayload :: payloads) (slot :: taken) := by
  refine ⟨h.sublist.cons_cons slot, .cons ⟨block, hanswer, rfl⟩ h.blocks, ⟨rfl, h.linked⟩, ?_⟩
  rcases h.maximal with hall | ⟨stop, hstop, other, hother, hne, hall⟩
  · left
    intro s hs b hb
    rcases List.mem_cons.1 hs with rfl | hs
    · exact List.mem_cons_self
    · exact List.mem_cons_of_mem _ (hall s hs b hb)
  · refine Or.inr ⟨stop, List.mem_cons_of_mem _ hstop, other, hother, hne, ?_⟩
    intro s hs b hb
    rcases List.mem_cons.1 hs with rfl | hs
    · exact iff_of_true List.mem_cons_self (hbelow stop hstop)
    · rw [List.mem_cons, ← hall s hs b hb]
      refine or_iff_right fun heq => ?_
      have := hbelow s hs
      rw [heq] at this
      exact UInt64.lt_irrefl _ this

/-- The first block that does not link ends the list. -/
theorem collected_stop {slots : List UInt64} {prevParentHash : Bytes32} {block : BeaconBlock}
    (hanswer : f slot = .ok block) (hbelow : ∀ s ∈ slots, slot > s)
    (hlink : block.body.executionPayload.blockHash ≠ prevParentHash) :
    Collected f (slot :: slots) prevParentHash [] [] := by
  refine ⟨List.nil_sublist _, .nil, trivial,
    Or.inr ⟨slot, List.mem_cons_self, block, hanswer, hlink, ?_⟩⟩
  intro s hs _ _
  refine iff_of_false List.not_mem_nil fun hlt => ?_
  rcases List.mem_cons.1 hs with rfl | hs
  · exact UInt64.lt_irrefl _ hlt
  · exact UInt64.lt_asymm hlt (hbelow s hs)

/-- **The loop returns a maximal hash chain.** -/
theorem collectPayloads_collected : ∀ {slots : List UInt64} {prevParentHash : Bytes32},
    slots.Pairwise (· > ·) → ∃ taken, Collected f slots prevParentHash
      (collectPayloads (slots.map f) prevParentHash) taken
  | [], prevParentHash, _ => ⟨[], .slnil, .nil, trivial, Or.inl (by simp)⟩
  | slot :: slots, prevParentHash, hdown => by
    obtain ⟨hbelow, hdown⟩ := List.pairwise_cons.1 hdown
    have hrest : ∀ hash : Bytes32, ∃ taken, Collected f slots hash
        (collectPayloads (slots.map f) hash) taken := fun _ => collectPayloads_collected hdown
    rw [List.map_cons]
    cases hanswer : f slot with
    | error e =>
      rw [collectPayloads]
      obtain ⟨taken, hc⟩ := hrest prevParentHash
      exact ⟨taken, hc.skip hanswer⟩
    | ok block =>
      rw [collectPayloads]
      by_cases hlink : block.body.executionPayload.blockHash = prevParentHash
      · subst hlink
        simp only [ne_eq, not_true_eq_false, if_false]
        obtain ⟨taken, hc⟩ := hrest block.body.executionPayload.parentHash
        exact ⟨slot :: taken, hc.take hanswer hbelow⟩
      · simp only [hlink, ne_eq, not_false_eq_true, if_true]
        exact ⟨[], collected_stop hanswer hbelow hlink⟩

/-! ## A server with one chain -/

/-- The blocks of one chain by their slots: each names the hash of the one before it. -/
def Linear (blocks : UInt64 → Option BeaconBlock) : Prop :=
  ∀ s t parent child, s < t → blocks s = some parent → blocks t = some child →
    (∀ r, s < r → r < t → blocks r = none) →
    child.body.executionPayload.parentHash = parent.body.executionPayload.blockHash

/-- The chain is answered, with an error for exactly the slots without a block. -/
def AnswersChain (blocks : UInt64 → Option BeaconBlock) (slot : UInt64)
    (answer : Except Report BeaconBlock) : Prop :=
  match blocks slot with
  | some block => answer = .ok block
  | none => ∃ e, answer = .error e

theorem AnswersChain.block {blocks : UInt64 → Option BeaconBlock} {block : BeaconBlock}
    (h : AnswersChain blocks slot (.ok block)) : blocks slot = some block := by
  unfold AnswersChain at h
  split at h
  · cases h
    assumption
  · obtain ⟨e, he⟩ := h
    cases he

/-- The payloads of the chain at some slots. -/
def payloadsAt (blocks : UInt64 → Option BeaconBlock) (slots : List UInt64) :
    List ExecutionPayload :=
  slots.filterMap fun slot => (blocks slot).map fun block => block.body.executionPayload

/-- Going down the slots, each block is the parent of the one before it. -/
def LinkedDown (blocks : UInt64 → Option BeaconBlock) : Bytes32 → List UInt64 → Prop
  | _, [] => True
  | prevParentHash, slot :: slots =>
    match blocks slot with
    | some block => block.body.executionPayload.blockHash = prevParentHash ∧
      LinkedDown blocks block.body.executionPayload.parentHash slots
    | none => LinkedDown blocks prevParentHash slots

/-- **Of a served chain the loop takes every block.** -/
theorem collectPayloads_linear {blocks : UInt64 → Option BeaconBlock} :
    ∀ {slots : List UInt64} {prevParentHash : Bytes32},
      (∀ slot ∈ slots, AnswersChain blocks slot (f slot)) →
      LinkedDown blocks prevParentHash slots →
        collectPayloads (slots.map f) prevParentHash = payloadsAt blocks slots
  | [], _, _, _ => rfl
  | slot :: slots, prevParentHash, hserves, hlinked => by
    have hanswer := hserves slot List.mem_cons_self
    have hrest : ∀ s ∈ slots, AnswersChain blocks s (f s) :=
      fun s hs => hserves s (List.mem_cons_of_mem _ hs)
    unfold AnswersChain at hanswer
    unfold LinkedDown at hlinked
    rw [List.map_cons]
    cases hblock : blocks slot with
    | none =>
      rw [hblock] at hanswer hlinked
      obtain ⟨e, he⟩ := hanswer
      rw [he, collectPayloads, collectPayloads_linear hrest hlinked]
      simp [payloadsAt, hblock]
    | some block =>
      rw [hblock] at hanswer hlinked
      obtain ⟨hlink, hlinked⟩ := hlinked
      rw [hanswer, collectPayloads]
      simp only [hlink, ne_eq, not_true_eq_false, if_false]
      rw [collectPayloads_linear hrest hlinked]
      simp [payloadsAt, hblock]

/-- Slots that leave out no block below the one that is looked down from are linked. -/
theorem linkedDown_of_linear {blocks : UInt64 → Option BeaconBlock} (hlinear : Linear blocks) :
    ∀ {slots : List UInt64} {t : UInt64} {child : BeaconBlock}, blocks t = some child →
      slots.Pairwise (· > ·) → (∀ s ∈ slots, s < t) →
      (∀ r, r < t → (∃ s ∈ slots, s ≤ r) → blocks r ≠ none → r ∈ slots) →
      LinkedDown blocks child.body.executionPayload.parentHash slots
  | [], _, _, _, _, _, _ => trivial
  | slot :: slots, t, child, hchild, hdown, hlt, hfull => by
    obtain ⟨hbelow, hdown⟩ := List.pairwise_cons.1 hdown
    have hslot : slot < t := hlt slot List.mem_cons_self
    unfold LinkedDown
    cases hblock : blocks slot with
    | none =>
      refine linkedDown_of_linear hlinear hchild hdown
        (fun s hs => hlt s (List.mem_cons_of_mem _ hs)) fun r hr hs hsome => ?_
      obtain ⟨s, hs, hle⟩ := hs
      refine List.mem_of_ne_of_mem ?_ (hfull r hr ⟨s, List.mem_cons_of_mem _ hs, hle⟩ hsome)
      rintro rfl
      exact hsome hblock
    | some block =>
      constructor
      · -- nothing lies between the slot and the child
        refine (hlinear slot t block child hslot hblock hchild fun r hlow hhigh => ?_).symm
        by_contra hsome
        have hmem := hfull r hhigh ⟨slot, List.mem_cons_self, UInt64.le_of_lt hlow⟩ hsome
        rcases List.mem_cons.1 hmem with rfl | hmem
        · exact UInt64.lt_irrefl _ hlow
        · exact UInt64.lt_asymm hlow (hbelow r hmem)
      · refine linkedDown_of_linear hlinear hblock hdown hbelow fun r hr hs hsome => ?_
        obtain ⟨s, hs, hle⟩ := hs
        refine List.mem_of_ne_of_mem ?_ (hfull r (UInt64.lt_trans hr hslot)
          ⟨s, List.mem_cons_of_mem _ hs, hle⟩ hsome)
        rintro rfl
        exact UInt64.lt_irrefl _ hr

/-! ## The call -/

theorem linked_iff : ∀ {payloads : List ExecutionPayload} {prevParentHash : Bytes32},
    Linked prevParentHash payloads ↔
      (∀ p : ExecutionPayload, payloads[0]? = some p → p.blockHash = prevParentHash) ∧
        ∀ (i : Nat) (p q : ExecutionPayload), payloads[i]? = some p →
          payloads[i + 1]? = some q → q.blockHash = p.parentHash
  | [], _ => by simp [Linked]
  | payload :: rest, prevParentHash => by
    rw [Linked, linked_iff]
    constructor
    · rintro ⟨hfirst, hnext, hrest⟩
      refine ⟨fun p hp => ?_, fun i p q hp hq => ?_⟩
      · cases hp
        exact hfirst
      · cases i with
        | zero =>
          cases hp
          exact hnext q hq
        | succ i => exact hrest i p q hp hq
    · rintro ⟨hfirst, hrest⟩
      exact ⟨hfirst payload rfl, fun q hq => hrest 0 payload q rfl hq,
        fun i p q hp hq => hrest (i + 1) p q hp hq⟩

/-- **`get_payloads` returns a maximal hash chain.**  Whatever the server answers, a successful
    call has fetched a block for the end of the range, and its payloads come from decreasing slots
    of the range, each the parent of the one before it.  They end at the start of the range or at
    the first fetched block that does not link.  Of a server with one chain they are the payloads
    of that chain in the range, newest first. -/
theorem getPayloads_maximal (w : World) (startSlot endSlot : UInt64) (hle : startSlot ≤ endSlot)
    (payloads : List ExecutionPayload) (h : getPayloads w startSlot endSlot = .ok payloads) :
    ∃ endBlock, (w 0).rpc.getBlock endSlot = .ok endBlock ∧
      (∃ taken : List UInt64, taken.Pairwise (· > ·) ∧
        (∀ slot ∈ taken, startSlot ≤ slot ∧ slot < endSlot) ∧
        List.Forall₂ (fun slot payload => ∃ block, fetched w endSlot slot = .ok block ∧
          block.body.executionPayload = payload) taken payloads ∧
        (∀ p : ExecutionPayload, payloads[0]? = some p →
          p.blockHash = endBlock.body.executionPayload.parentHash) ∧
        (∀ (i : Nat) (p q : ExecutionPayload), payloads[i]? = some p → payloads[i + 1]? = some q →
          q.blockHash = p.parentHash) ∧
        ((∀ slot, startSlot ≤ slot → slot < endSlot → ∀ block,
            fetched w endSlot slot = .ok block → slot ∈ taken) ∨
          ∃ stop block, startSlot ≤ stop ∧ stop < endSlot ∧ fetched w endSlot stop = .ok block ∧
            block.body.executionPayload.blockHash ≠
              lastParentHash endBlock.body.executionPayload.parentHash payloads ∧
            ∀ slot, startSlot ≤ slot → slot < endSlot → ∀ block,
              fetched w endSlot slot = .ok block → (slot ∈ taken ↔ stop < slot))) ∧
      ∀ blocks, Linear blocks →
        (∀ slot, startSlot ≤ slot → slot ≤ endSlot →
          AnswersChain blocks slot (fetched w endSlot slot)) →
        payloads = payloadsAt blocks (backfillSlots startSlot endSlot) := by
  unfold getPayloads at h
  split at h
  · cases h
  rename_i endBlock hend
  rw [answer_ok] at hend
  cases h
  rw [backfillAnswers_fetched]
  refine ⟨endBlock, hend, ?_, fun blocks hlinear hserves => ?_⟩
  · have hcollected : ∃ taken, Collected (fetched w endSlot) (backfillSlots startSlot endSlot)
        endBlock.body.executionPayload.parentHash (collectPayloads
          ((backfillSlots startSlot endSlot).map (fetched w endSlot))
          endBlock.body.executionPayload.parentHash) taken :=
      collectPayloads_collected backfillSlots_decreasing
    obtain ⟨taken, hc⟩ := hcollected
    obtain ⟨hfirst, hnext⟩ := linked_iff.1 hc.linked
    refine ⟨taken, backfillSlots_decreasing.sublist hc.sublist,
      fun slot hslot => mem_backfillSlots.1 (hc.sublist.subset hslot), hc.blocks, hfirst, hnext, ?_⟩
    rcases hc.maximal with hall | ⟨stop, hstop, block, hblock, hne, hall⟩
    · exact Or.inl fun slot hlow hhigh => hall slot (mem_backfillSlots.2 ⟨hlow, hhigh⟩)
    · obtain ⟨hlow, hhigh⟩ := mem_backfillSlots.1 hstop
      exact Or.inr ⟨stop, block, hlow, hhigh, hblock, hne,
        fun slot hlow hhigh => hall slot (mem_backfillSlots.2 ⟨hlow, hhigh⟩)⟩
  · have hanswer := hserves endSlot hle (UInt64.le_refl _)
    rw [fetched_end, hend] at hanswer
    have hblock : blocks endSlot = some endBlock := hanswer.block
    refine collectPayloads_linear (fun slot hslot => ?_) (linkedDown_of_linear hlinear hblock
      backfillSlots_decreasing (fun slot hslot => (mem_backfillSlots.1 hslot).2) ?_)
    · obtain ⟨hlow, hhigh⟩ := mem_backfillSlots.1 hslot
      exact hserves slot hlow (UInt64.le_of_lt hhigh)
    · rintro r hr ⟨s, hs, hsr⟩ _
      exact mem_backfillSlots.2 ⟨UInt64.le_trans (mem_backfillSlots.1 hs).1 hsr, hr⟩

/-! ## A chain with an empty slot -/

/-- A block with nothing but the hashes of its payload. -/
def linkBlock (slot : UInt64) (parentHash blockHash : Bytes32) : BeaconBlock where
  slot := slot
  proposerIndex := 0
  parentRoot := zeroBytes 32
  stateRoot := zeroBytes 32
  body :=
    { executionPayload := { (default : ExecutionPayload) with
        parentHash := parentHash, blockHash := blockHash }
      rest := [] }

/-- Blocks at the slots 7 and 9. -/
def sparseBlocks (slot : UInt64) : Option BeaconBlock :=
  if slot = 7 then some (linkBlock 7 (beBytes 32 6) (beBytes 32 7))
  else if slot = 9 then some (linkBlock 9 (beBytes 32 7) (beBytes 32 9)) else none

def sparseMoment : Moment :=
  { checkpointMoment with
    rpc := { checkpointRpc with
      getBlock := fun slot =>
        match sparseBlocks slot with
        | some block => .ok block
        | none => .error (.rpc "blocks") } }

theorem sparseBlocks_linear : Linear sparseBlocks := by
  intro s t parent child hlt hparent hchild _
  unfold sparseBlocks at hparent hchild
  split at hparent
  · split at hchild
    · rename_i hs ht
      rw [hs, ht] at hlt
      exact absurd hlt (UInt64.lt_irrefl _)
    · split at hchild
      · cases hparent
        cases hchild
        rfl
      · cases hchild
  · split at hparent
    · split at hchild
      · rename_i hs ht
        rw [hs, ht] at hlt
        exact absurd hlt (by decide)
      · split at hchild
        · rename_i hs _ ht
          rw [hs, ht] at hlt
          exact absurd hlt (UInt64.lt_irrefl _)
        · cases hchild
    · cases hparent

theorem sparse_answers (slot : UInt64) :
    AnswersChain sparseBlocks slot (fetched (fun _ => sparseMoment) 9 slot) := by
  unfold AnswersChain fetched sparseMoment
  simp only
  cases sparseBlocks slot with
  | none => exact ⟨_, rfl⟩
  | some block => rfl

/-- The empty slot 8 is skipped. -/
theorem getPayloads_maximal_sparse :
    getPayloads (fun _ => sparseMoment) 7 9 =
      .ok (payloadsAt sparseBlocks (backfillSlots 7 9)) := by
  obtain ⟨payloads, h⟩ : ∃ payloads, getPayloads (fun _ => sparseMoment) 7 9 = .ok payloads :=
    ⟨_, rfl⟩
  obtain ⟨_, _, _, hchain⟩ := getPayloads_maximal (fun _ => sparseMoment) 7 9 (by decide) payloads h
  rw [h, hchain sparseBlocks sparseBlocks_linear fun slot _ _ => sparse_answers slot]

end ConsensusClient

end Helios
