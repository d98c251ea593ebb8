import Helios.Execution.Logs

/-!
# The range of a fee history

* `latestRequested`, `oldestRequested` — the ends of the range, with a subtraction that stops at
  zero.
* `CoversRange` — the fee history of that range, or an error when all of it is too old.
* `requestOldest_toNat`, `requestOldest_wraps` — the subtraction of the source.
* `getFeeHistory_eq`, `getFeeHistory_refuses` — the two answers.
* `feeHistory_covers_iff` — **the range is covered exactly when that subtraction does not wrap**.
* `feeHistory_uncovered` — a request for one block more than there are.
-/

set_option autoImplicit false

namespace Helios

open OrderedMap

variable {payloads : Payloads} {oldest latest blockCount lastBlock : UInt64}

/-- The stored numbers are the range from one number to another. -/
structure StoredRange (payloads : Payloads) (oldest latest : UInt64) : Prop where
  nonempty : oldest ≤ latest
  stored : ∀ n, n ∈ payloads ↔ oldest ≤ n ∧ n ≤ latest

/-- `min(last_block, latest)` -/
def latestRequested (latest lastBlock : UInt64) : Nat := min lastBlock.toNat latest.toNat

/-- `max(oldest, latest requested - block_count)`, in natural numbers. -/
def oldestRequested (oldest latest blockCount lastBlock : UInt64) : Nat :=
  max oldest.toNat (latestRequested latest lastBlock - blockCount.toNat)

/-- An error when the request is older than all that is stored, and otherwise the base fees of the
    requested blocks, in order, with as many ratios. -/
def CoversRange (payloads : Payloads) (oldest latest blockCount lastBlock : UInt64) : Prop :=
  (lastBlock < oldest →
    ∃ e, getFeeHistory blockCount lastBlock payloads = .error (.err e)) ∧
  (oldest ≤ lastBlock →
    ∃ history, getFeeHistory blockCount lastBlock payloads = .ok (some history) ∧
      history.oldestBlock.toNat = oldestRequested oldest latest blockCount lastBlock ∧
      history.baseFeePerGas.length = latestRequested latest lastBlock + 1 -
        oldestRequested oldest latest blockCount lastBlock ∧
      (∀ i, i < history.baseFeePerGas.length →
        ∃ (number : UInt64) (payload : ExecutionPayload),
        number.toNat = oldestRequested oldest latest blockCount lastBlock + i ∧
        payloads[number]? = some payload ∧
        history.baseFeePerGas[i]? = some payload.baseFeePerGas) ∧
      history.gasUsedRatio.length = history.baseFeePerGas.length)

/-! ## Ranges -/

theorem blockRange_getElem? {first last : UInt64} {i : Nat} (h : i < last.toNat + 1 - first.toNat) :
    ∃ number, (blockRange first last)[i]? = some number ∧ number.toNat = first.toNat + i := by
  have hlast := last.toNat_lt
  refine ⟨first + UInt64.ofNat i, ?_, ?_⟩
  · rw [blockRange, List.getElem?_map, List.getElem?_range h, Option.map_some]
  · rw [UInt64.toNat_add, UInt64.toNat_ofNat_of_lt' (by show i < 2 ^ 64; omega)]
    apply Nat.mod_eq_of_lt
    omega

theorem blockRange_length {first last : UInt64} :
    (blockRange first last).length = last.toNat + 1 - first.toNat := by
  rw [blockRange, List.length_map, List.length_range]

theorem mem_blockRange {first last n : UInt64} (h : n ∈ blockRange first last) :
    first ≤ n ∧ n ≤ last := by
  obtain ⟨i, hi⟩ := List.getElem?_of_mem h
  have hlt : i < last.toNat + 1 - first.toNat := by
    rw [← blockRange_length]
    exact (List.getElem?_eq_some_iff.1 hi).1
  obtain ⟨number, hnumber, hvalue⟩ := blockRange_getElem? hlt
  rw [hi] at hnumber
  cases hnumber
  rw [UInt64.le_iff_toNat_le, UInt64.le_iff_toNat_le]
  omega

/-- A range of stored numbers is collected, in order. -/
theorem rangePayloads_ok {range : List UInt64} (h : ∀ n ∈ range, n ∈ payloads) :
    ∃ found, rangePayloads payloads range = .ok found ∧
      List.Forall₂ (fun n payload => payloads[n]? = some payload) range found := by
  cases hfound : rangePayloads payloads range with
  | error e =>
    obtain ⟨n, hn, hmissing⟩ := collectResults_error hfound
    obtain ⟨payload, hpayload⟩ :=
      Option.isSome_iff_exists.1 (Std.TreeMap.mem_iff_isSome_getElem?.1 (h n hn))
    rw [hpayload] at hmissing
    cases hmissing
  | ok found =>
    refine ⟨found, rfl, (collectResults_ok.1 hfound).imp ?_⟩
    intro n payload hn
    split at hn
    · rename_i hpayload
      cases hn
      exact hpayload
    · cases hn

/-! ## The stored range -/

theorem below_of_le {a b : UInt64} (h : a ≤ b) : a = b ∨ compare a b = .lt := by
  by_cases heq : a = b
  · exact Or.inl heq
  · exact Or.inr (Std.compare_eq_lt.2 (UInt64.lt_of_le_of_ne h heq))

namespace StoredRange

theorem first (h : StoredRange payloads oldest latest) : firstKey? payloads = some oldest := by
  apply firstKey?_eq_some ((h.stored oldest).2 ⟨UInt64.le_refl _, h.nonempty⟩)
  intro n hn
  rcases below_of_le ((h.stored n).1 hn).1 with heq | hlt
  · exact Or.inl heq.symm
  · exact Or.inr hlt

theorem last (h : StoredRange payloads oldest latest) : lastKey? payloads = some latest := by
  apply lastKey?_eq_some ((h.stored latest).2 ⟨h.nonempty, UInt64.le_refl _⟩)
  intro n hn
  exact below_of_le ((h.stored n).1 hn).2

end StoredRange

theorem storedRange_singlePayload (payload : ExecutionPayload) :
    StoredRange (singlePayload payload) payload.blockNumber payload.blockNumber where
  nonempty := UInt64.le_refl _
  stored := by
    intro n
    rw [singlePayload, Std.TreeMap.mem_insert, Std.LawfulEqCmp.compare_eq_iff_eq]
    constructor
    · rintro (rfl | hn)
      · exact ⟨UInt64.le_refl _, UInt64.le_refl _⟩
      · exact absurd hn Std.TreeMap.not_mem_emptyc
    · rintro ⟨hlow, hhigh⟩
      exact Or.inl (UInt64.le_antisymm hlow hhigh)

/-- The next block extends the range. -/
theorem StoredRange.insert (h : StoredRange payloads oldest latest) (payload : ExecutionPayload)
    {next : UInt64} (hnext : next.toNat = latest.toNat + 1) :
    StoredRange (payloads.insert next payload) oldest next where
  nonempty := by
    have hle := UInt64.le_iff_toNat_le.1 h.nonempty
    rw [UInt64.le_iff_toNat_le]
    omega
  stored := by
    have hle := UInt64.le_iff_toNat_le.1 h.nonempty
    intro n
    rw [Std.TreeMap.mem_insert, Std.LawfulEqCmp.compare_eq_iff_eq, h.stored n,
      UInt64.le_iff_toNat_le, UInt64.le_iff_toNat_le, UInt64.le_iff_toNat_le, ← UInt64.toNat_inj]
    omega

/-! ## Fee histories -/

/-- The last block of the answer. -/
def requestLatest (latest lastBlock : UInt64) : UInt64 :=
  if lastBlock > latest then latest else lastBlock

/-- The first block of the answer, with the subtraction of the source. -/
def requestOldest (oldest latest blockCount lastBlock : UInt64) : UInt64 :=
  if requestLatest latest lastBlock - blockCount < oldest then oldest
  else requestLatest latest lastBlock - blockCount

theorem requestLatest_toNat :
    (requestLatest latest lastBlock).toNat = latestRequested latest lastBlock := by
  unfold requestLatest latestRequested
  split
  · rename_i hgt
    rw [gt_iff_lt, UInt64.lt_iff_toNat_lt] at hgt
    omega
  · rename_i hle
    rw [gt_iff_lt, UInt64.not_lt, UInt64.le_iff_toNat_le] at hle
    omega

theorem requestLatest_le : requestLatest latest lastBlock ≤ latest := by
  rw [UInt64.le_iff_toNat_le, requestLatest_toNat]
  exact Nat.min_le_right _ _

theorem le_requestOldest : oldest ≤ requestOldest oldest latest blockCount lastBlock := by
  unfold requestOldest
  split
  · exact UInt64.le_refl _
  · rename_i hlt
    exact UInt64.not_lt.1 hlt

/-- With at most as many blocks as there are below the last one, the subtraction is exact. -/
theorem requestOldest_toNat (h : blockCount ≤ requestLatest latest lastBlock) :
    (requestOldest oldest latest blockCount lastBlock).toNat =
      oldestRequested oldest latest blockCount lastBlock := by
  have hsub : (requestLatest latest lastBlock - blockCount).toNat =
      latestRequested latest lastBlock - blockCount.toNat := by
    rw [UInt64.toNat_sub_of_le _ _ h, requestLatest_toNat]
  unfold requestOldest oldestRequested
  split
  · rename_i hlt
    rw [UInt64.lt_iff_toNat_lt, hsub] at hlt
    omega
  · rename_i hge
    rw [UInt64.not_lt, UInt64.le_iff_toNat_le, hsub] at hge
    omega

/-- With more, it wraps to a number above the last one. -/
theorem requestOldest_wraps (h : requestLatest latest lastBlock < blockCount) :
    latestRequested latest lastBlock <
      (requestOldest oldest latest blockCount lastBlock).toNat := by
  have hlatest := requestLatest latest lastBlock |>.toNat_lt
  have hcount := blockCount.toNat_lt
  rw [UInt64.lt_iff_toNat_lt] at h
  have hsub : latestRequested latest lastBlock <
      (requestLatest latest lastBlock - blockCount).toNat := by
    rw [UInt64.toNat_sub, ← requestLatest_toNat, Nat.mod_eq_of_lt (by omega)]
    omega
  unfold requestOldest
  split
  · rename_i hlt
    rw [UInt64.lt_iff_toNat_lt] at hlt
    omega
  · exact hsub

/-- The answer to a request that is not too old. -/
theorem getFeeHistory_eq (h : StoredRange payloads oldest latest) (hle : oldest ≤ lastBlock) :
    ∃ found, List.Forall₂ (fun n payload => payloads[n]? = some payload)
        (blockRange (requestOldest oldest latest blockCount lastBlock)
          (requestLatest latest lastBlock)) found ∧
      getFeeHistory blockCount lastBlock payloads = .ok (some
        { oldestBlock :=
            BitVec.ofNat 256 (requestOldest oldest latest blockCount lastBlock).toNat
          baseFeePerGas := found.map ExecutionPayload.baseFeePerGas
          gasUsedRatio := found.map fun payload => (payload.gasUsed, payload.gasLimit)
          reward := payloads.toList.map fun _ => [] }) := by
  have hstored : ∀ n ∈ blockRange (requestOldest oldest latest blockCount lastBlock)
      (requestLatest latest lastBlock), n ∈ payloads := by
    intro n hn
    obtain ⟨hlow, hhigh⟩ := mem_blockRange hn
    exact (h.stored n).2 ⟨UInt64.le_trans le_requestOldest hlow,
      UInt64.le_trans hhigh requestLatest_le⟩
  obtain ⟨found, hfound, hall⟩ := rangePayloads_ok hstored
  refine ⟨found, hall, ?_⟩
  unfold getFeeHistory
  simp only [h.last, h.first]
  rw [if_neg (UInt64.not_lt.2 hle)]
  unfold requestOldest requestLatest at hfound
  simp only [hfound]
  rfl

/-- A request that is too old is refused. -/
theorem getFeeHistory_refuses (h : StoredRange payloads oldest latest) (hlt : lastBlock < oldest) :
    getFeeHistory blockCount lastBlock payloads =
      .error (.err (.execution (.invalidBlockRange lastBlock latest))) := by
  unfold getFeeHistory
  simp only [h.last, h.first, if_pos hlt]

/-- When the subtraction wraps, the first block of the answer is the wrong one. -/
theorem not_covers_of_wraps (h : StoredRange payloads oldest latest) (hle : oldest ≤ lastBlock)
    (hwraps : requestLatest latest lastBlock < blockCount) :
    ¬ CoversRange payloads oldest latest blockCount lastBlock := by
  intro hcovers
  obtain ⟨history, hok, holdest, -⟩ := hcovers.2 hle
  obtain ⟨found, -, heq⟩ := getFeeHistory_eq h hle
  rw [heq] at hok
  cases hok
  have habove : latestRequested latest lastBlock <
      (requestOldest oldest latest blockCount lastBlock).toNat := requestOldest_wraps hwraps
  rw [ofNat_toNat_u64] at holdest
  rw [holdest] at habove
  have hnonempty := h.nonempty
  rw [UInt64.lt_iff_toNat_lt, requestLatest_toNat] at hwraps
  rw [UInt64.le_iff_toNat_le] at hle hnonempty
  unfold oldestRequested at habove
  unfold latestRequested at habove hwraps
  omega

/-- **A fee history covers the clamped range exactly when there is nothing of it to send or no more
    blocks are asked for than the number of its last block.** -/
theorem feeHistory_covers_iff (h : StoredRange payloads oldest latest) :
    CoversRange payloads oldest latest blockCount lastBlock ↔
      lastBlock < oldest ∨ blockCount.toNat ≤ latestRequested latest lastBlock := by
  rw [← requestLatest_toNat, ← UInt64.le_iff_toNat_le]
  constructor
  · intro hcovers
    by_cases hlt : lastBlock < oldest
    · exact Or.inl hlt
    · right
      rw [← UInt64.not_lt]
      intro hwraps
      exact not_covers_of_wraps h (UInt64.not_lt.1 hlt) hwraps hcovers
  · intro hcond
    refine ⟨fun hlt => ⟨_, getFeeHistory_refuses h hlt⟩, fun hle => ?_⟩
    have hcount : blockCount ≤ requestLatest latest lastBlock := by
      rcases hcond with hlt | hcount
      · exact absurd hlt (UInt64.not_lt.2 hle)
      · exact hcount
    obtain ⟨found, hall, heq⟩ := @getFeeHistory_eq _ _ _ blockCount _ h hle
    have hlen := hall.length_eq
    rw [blockRange_length, requestOldest_toNat hcount, requestLatest_toNat] at hlen
    refine ⟨_, heq, ?_, ?_, ?_, ?_⟩
    · rw [ofNat_toNat_u64, requestOldest_toNat hcount]
    · rw [List.length_map, hlen]
    · intro i hi
      rw [List.length_map] at hi
      have hrange : i < (requestLatest latest lastBlock).toNat + 1 -
          (requestOldest oldest latest blockCount lastBlock).toNat := by
        rw [requestOldest_toNat hcount, requestLatest_toNat]
        omega
      obtain ⟨number, hnumber, hvalue⟩ := blockRange_getElem? hrange
      obtain ⟨payload, hpayload⟩ : ∃ payload, found[i]? = some payload :=
        ⟨found[i], List.getElem?_eq_getElem hi⟩
      refine ⟨number, payload, ?_, ?_, ?_⟩
      · rw [hvalue, requestOldest_toNat hcount]
      · obtain ⟨hlt, hget⟩ := List.getElem?_eq_some_iff.1 hnumber
        have hstored := hall.get hlt hi
        simp only [List.get_eq_getElem, hget] at hstored
        rw [hstored, ← hpayload, List.getElem?_eq_getElem hi]
      · rw [List.getElem?_map, hpayload, Option.map_some]
    · rw [List.length_map, List.length_map]

/-- A half full block. -/
def feePayload (number : UInt64) (baseFeePerGas : U256) : ExecutionPayload :=
  { (default : ExecutionPayload) with
    blockNumber := number
    baseFeePerGas := baseFeePerGas
    gasUsed := 15000000
    gasLimit := 30000000 }

/-- Blocks 5, 6 and 7. -/
def threeBlocks : Payloads :=
  ((singlePayload (feePayload 5 10)).insert 6 (feePayload 6 12)).insert 7 (feePayload 7 15)

/-- Two blocks back from block 6 begin before the first block that is stored. -/
theorem feeHistory_covers_three : CoversRange threeBlocks 5 7 2 6 := by
  have hstored : StoredRange threeBlocks 5 7 :=
    ((storedRange_singlePayload (feePayload 5 10)).insert _ rfl).insert _ rfl
  exact (feeHistory_covers_iff hstored).2 (Or.inr (by decide))

/-- With block 7 stored, eight blocks back from it start at block `2 ^ 64 - 1`, and none is
    answered. -/
theorem feeHistory_uncovered :
    ¬ ∀ (payloads : Payloads) (oldest latest blockCount lastBlock : UInt64),
      StoredRange payloads oldest latest →
        CoversRange payloads oldest latest blockCount lastBlock := by
  intro h
  have hstored : StoredRange (singlePayload transferPayload) 7 7 :=
    storedRange_singlePayload transferPayload
  exact not_covers_of_wraps hstored (UInt64.le_refl _) (by decide) (h _ 7 7 8 7 hstored)

end Helios
