import Helios.Execution.Call
import Helios.Execution.FeeHistory

/-!
# The check of a fee history (`execution/src/execution.rs`)

`verify_fee_history` walks a calculated history and the server's by one position, though each of
them has its own first block.

* `FloatCrate` — the operations on `f64`; `RatedHistory` — a history with its ratios in `f64`.
* `verifyEntry`, `verifyFeeHistory` — the check of one entry, and the loop.
* `AgreesByPosition`, `verifyFeeHistory_ok` — **what passes: equal fees at equal positions**.
* `ComparesLike` — equal fees at equal block numbers.
* `Shifted`, `verifyFeeHistory_sound_iff` — **what passes has equal fees at equal block numbers
  exactly when the server's history is not the calculated one, moved to other blocks**.
* `feeHistory_misled` — a history that passes one block too late.
-/

set_option autoImplicit false

namespace Helios

/-- `f64`: the quotient of two numbers, the rounding to twelve decimals, `!=`, and the text. -/
structure FloatCrate where
  F64 : Type
  quotient : UInt64 → UInt64 → F64
  rounded : F64 → F64
  differ : F64 → F64 → Bool
  display : F64 → String

/-- A fee history with its ratios. -/
structure RatedHistory (F64 : Type) where
  oldestBlock : U256
  baseFeePerGas : List U256
  gasUsedRatio : List F64
  reward : List (List U256)

variable (f : FloatCrate)

/-- A calculated history, with the ratios as they are rounded there. -/
def FeeHistory.rated (history : FeeHistory) : RatedHistory f.F64 where
  oldestBlock := history.oldestBlock
  baseFeePerGas := history.baseFeePerGas
  gasUsedRatio := history.gasUsedRatio.map fun entry => f.rounded (f.quotient entry.1 entry.2)
  reward := history.reward

/-- `(oldest_block + pos).as_u64()` -/
def blockToCheck (oldestBlock : U256) (pos : Nat) : Result UInt64 :=
  if oldestBlock.toNat + pos < 2 ^ 256 then asU64 (oldestBlock + BitVec.ofNat 256 pos)
  else .error (.panic .integerOverflow)

/-- The check of the entry at a position. -/
def verifyEntry (calculated fetched : RatedHistory f.F64) (blockCount : UInt64) (pos : Nat)
    (baseFeePerGas : U256) : Result Unit :=
  -- otherwise, this would add an additional block
  if pos = blockCount.toNat then .ok ()
  else
    match blockToCheck fetched.oldestBlock pos with
    | .error e => .error e
    | .ok block =>
      match calculated.baseFeePerGas[pos]?, calculated.gasUsedRatio[pos]? with
      | some feeToCheck, some gasRatioToCheck =>
        if baseFeePerGas ≠ feeToCheck then
          .error (.err (.execution (.invalidBaseGaseFee feeToCheck baseFeePerGas block)))
        else
          match fetched.gasUsedRatio[pos]? with
          | none => .error (.panic .indexOutOfBounds)
          | some ratio =>
            let rpcGasUsedRounded := f.rounded ratio
            if f.differ gasRatioToCheck rpcGasUsedRounded then
              .error (.err (.execution (.invalidGasUsedRatio (f.display gasRatioToCheck)
                (f.display rpcGasUsedRounded) block)))
            else .ok ()
      | _, _ => .error (.panic .indexOutOfBounds)

/-- The loop over the entries of the server. -/
def verifyEntries (calculated fetched : RatedHistory f.F64) (blockCount : UInt64) :
    Result (List Unit) :=
  collectResults
    (fun entry : Nat × U256 => verifyEntry f calculated fetched blockCount entry.1 entry.2)
    (fetched.baseFeePerGas.mapIdx fun pos baseFeePerGas => (pos, baseFeePerGas))

def verifyFeeHistory (rpcFeeHistory : UInt64 → UInt64 → Except Report (RatedHistory f.F64))
    (calculated : RatedHistory f.F64) (blockCount requestLatestBlock : UInt64) : Result Unit :=
  match answer (rpcFeeHistory blockCount requestLatestBlock) with
  | .error e => .error e
  | .ok fetched =>
    match verifyEntries f calculated fetched blockCount with
    | .error e => .error e
    | .ok _ => .ok ()

/-! ## What passes -/

variable {f} {calculated fetched : RatedHistory f.F64} {blockCount requestLatestBlock : UInt64}
  {rpcFeeHistory : UInt64 → UInt64 → Except Report (RatedHistory f.F64)}

/-- The entry of the server at a position agrees with the calculated one at that position. -/
def AgreesAt (calculated fetched : RatedHistory f.F64) (pos : Nat) (baseFeePerGas : U256) : Prop :=
  fetched.oldestBlock.toNat + pos < 2 ^ 64 ∧ calculated.baseFeePerGas[pos]? = some baseFeePerGas ∧
    ∃ helios rpc, calculated.gasUsedRatio[pos]? = some helios ∧
      fetched.gasUsedRatio[pos]? = some rpc ∧ f.differ helios (f.rounded rpc) = false

/-- All entries agree by position, but for the one at the block count. -/
def AgreesByPosition (calculated fetched : RatedHistory f.F64) (blockCount : UInt64) : Prop :=
  ∀ pos baseFeePerGas, fetched.baseFeePerGas[pos]? = some baseFeePerGas →
    pos ≠ blockCount.toNat → AgreesAt calculated fetched pos baseFeePerGas

theorem blockToCheck_ok {oldestBlock : U256} {pos : Nat} :
    (∃ block, blockToCheck oldestBlock pos = .ok block) ↔ oldestBlock.toNat + pos < 2 ^ 64 := by
  unfold blockToCheck
  by_cases hadd : oldestBlock.toNat + pos < 2 ^ 256
  · have hpos : (BitVec.ofNat 256 pos).toNat = pos := toNat_ofNat_word (by omega)
    have hsum : (oldestBlock + BitVec.ofNat 256 pos).toNat = oldestBlock.toNat + pos := by
      rw [BitVec.toNat_add_of_lt (by rwa [hpos]), hpos]
    rw [if_pos hadd, asU64, hsum]
    by_cases hlt : oldestBlock.toNat + pos < 2 ^ 64
    · rw [if_pos hlt]
      exact ⟨fun _ => hlt, fun _ => ⟨_, rfl⟩⟩
    · rw [if_neg hlt]
      simp only [reduceCtorEq, exists_false, false_iff]
      exact hlt
  · rw [if_neg hadd]
    simp only [reduceCtorEq, exists_false, false_iff]
    omega

theorem verifyEntry_ok {pos : Nat} {baseFeePerGas : U256} (hpos : pos ≠ blockCount.toNat) :
    verifyEntry f calculated fetched blockCount pos baseFeePerGas = .ok () ↔
      AgreesAt calculated fetched pos baseFeePerGas := by
  unfold verifyEntry AgreesAt
  rw [if_neg hpos, ← blockToCheck_ok]
  constructor
  · intro h
    split at h
    · cases h
    rename_i block hblock
    split at h
    · rename_i feeToCheck gasRatioToCheck hfee hratio
      split at h
      · cases h
      rename_i hsame
      rw [not_not] at hsame
      split at h
      · cases h
      rename_i ratio hrpc
      simp only at h
      split at h
      · cases h
      rename_i hdiffer
      rw [Bool.not_eq_true] at hdiffer
      refine ⟨⟨block, hblock⟩, ?_, gasRatioToCheck, ratio, hratio, hrpc, hdiffer⟩
      rw [hfee, hsame]
    · cases h
  · rintro ⟨⟨block, hblock⟩, hfee, helios, rpc, hhelios, hrpc, hdiffer⟩
    simp [hblock, hfee, hhelios, hrpc, hdiffer]

/-- **What passes agrees by position**, and nothing else passes. -/
theorem verifyFeeHistory_ok (hrpc : rpcFeeHistory blockCount requestLatestBlock = .ok fetched) :
    verifyFeeHistory f rpcFeeHistory calculated blockCount requestLatestBlock = .ok () ↔
      AgreesByPosition calculated fetched blockCount := by
  unfold verifyFeeHistory
  rw [hrpc]
  simp only [answer]
  constructor
  · intro h pos baseFeePerGas hfee hpos
    rw [← verifyEntry_ok hpos]
    split at h
    · cases h
    rename_i units hloop
    have hentry : (fetched.baseFeePerGas.mapIdx fun pos baseFeePerGas => (pos, baseFeePerGas))[pos]? =
        some (pos, baseFeePerGas) := by
      rw [List.getElem?_mapIdx, hfee, Option.map_some]
    obtain ⟨_, _, hok⟩ := collectResults_getElem? hloop hentry
    exact hok
  · intro h
    have hloop : verifyEntries f calculated fetched blockCount =
        .ok (List.replicate fetched.baseFeePerGas.length ()) := by
      refine (collectResults_mapIdx (f := verifyEntry f calculated fetched blockCount)).2
        ⟨List.length_replicate, fun pos baseFeePerGas _ hfee _ => ?_⟩
      by_cases hpos : pos = blockCount.toNat
      · rw [verifyEntry, if_pos hpos]
      · exact (verifyEntry_ok hpos).2 (h pos baseFeePerGas hfee hpos)
    rw [hloop]

/-! ## Block numbers -/

/-- The fees of a block that both histories cover are equal; the entry of the server at the block
    count is not compared. -/
def ComparesLike (calculated fetched : RatedHistory f.F64) (blockCount : UInt64) : Prop :=
  ∀ (i j : Nat) (rpc helios : U256), fetched.baseFeePerGas[i]? = some rpc → i ≠ blockCount.toNat →
    calculated.baseFeePerGas[j]? = some helios →
    fetched.oldestBlock.toNat + i = calculated.oldestBlock.toNat + j → rpc = helios

/-- The server's history is the calculated one by position, and moves a fee to a block with
    another. -/
def Shifted (calculated fetched : RatedHistory f.F64) (blockCount : UInt64) : Prop :=
  AgreesByPosition calculated fetched blockCount ∧
    ∃ (i j : Nat) (moved helios : U256), i < fetched.baseFeePerGas.length ∧ i ≠ blockCount.toNat ∧
      fetched.oldestBlock.toNat + i = calculated.oldestBlock.toNat + j ∧
      calculated.baseFeePerGas[i]? = some moved ∧ calculated.baseFeePerGas[j]? = some helios ∧
      moved ≠ helios

/-- Histories with the same first block are not shifted. -/
theorem not_shifted_of_oldest (h : fetched.oldestBlock = calculated.oldestBlock) :
    ¬ Shifted calculated fetched blockCount := by
  rintro ⟨-, i, j, moved, helios, -, -, hblock, hmoved, hhelios, hne⟩
  rw [h, Nat.add_left_cancel_iff] at hblock
  subst hblock
  rw [hmoved, Option.some.injEq] at hhelios
  exact hne hhelios

/-- **The check compares like with like exactly when the server's history is not the calculated one
    moved to other blocks.** -/
theorem verifyFeeHistory_sound_iff
    (hrpc : rpcFeeHistory blockCount requestLatestBlock = .ok fetched) :
    (verifyFeeHistory f rpcFeeHistory calculated blockCount requestLatestBlock = .ok () →
      ComparesLike calculated fetched blockCount) ↔ ¬ Shifted calculated fetched blockCount := by
  rw [verifyFeeHistory_ok hrpc]
  constructor
  · rintro h ⟨hagrees, i, j, moved, helios, hlt, hi, hblock, hmoved, hhelios, hne⟩
    have hget := List.getElem?_eq_getElem hlt
    obtain ⟨-, hsame, -⟩ := hagrees i _ hget hi
    rw [hmoved, Option.some.injEq] at hsame
    exact hne (hsame.trans (h hagrees i j _ helios hget hi hhelios hblock))
  · intro h hagrees i j rpc helios hget hi hhelios hblock
    obtain ⟨-, hsame, -⟩ := hagrees i rpc hget hi
    have hlt := (List.getElem?_eq_some_iff.1 hget).1
    by_contra hne
    exact h ⟨hagrees, i, j, rpc, helios, hlt, hi, hblock, hsame, hhelios, hne⟩

/-! ## A history one block too late -/

/-- Numbers without a rounding error. -/
def exactFloats : FloatCrate where
  F64 := ℚ
  quotient a b := a.toNat / b.toNat
  rounded x := ⌊x * 10 ^ 12 + 1 / 2⌋ / 10 ^ 12
  differ x y := decide (x ≠ y)
  display x := toString x

/-- Block 6 with the base fee 10, and block 7 with the base fee 20. -/
def feePayloads : Payloads := (singlePayload (feePayload 6 10)).insert 7 (feePayload 7 20)

/-- The history of both blocks. -/
def feeHistory67 : FeeHistory where
  oldestBlock := 6
  baseFeePerGas := [10, 20]
  gasUsedRatio := [(15000000, 30000000), (15000000, 30000000)]
  reward := [[], []]

/-- A server that answers for block 7 with the fee of block 6. -/
def movedHistory : RatedHistory exactFloats.F64 where
  oldestBlock := 7
  baseFeePerGas := [10]
  gasUsedRatio := [((1 : ℚ) / 2 : ℚ)]
  reward := []

/-- Asked for one block, the server moves the fee of block 6 to block 7, and passes. -/
theorem feeHistory_misled :
    getFeeHistory 1 7 feePayloads = .ok (some feeHistory67) ∧
      verifyFeeHistory exactFloats (fun _ _ => .ok movedHistory) (feeHistory67.rated exactFloats) 1 7 =
        .ok () ∧
      ¬ ComparesLike (feeHistory67.rated exactFloats) movedHistory 1 := by
  refine ⟨by decide +kernel, by decide +kernel, ?_⟩
  intro h
  exact absurd (h 0 1 10 20 rfl (by decide) rfl rfl) (by decide)

/-- A server's history of both blocks, with the fee of the block after them behind it. -/
def servedHistory : RatedHistory exactFloats.F64 where
  oldestBlock := 6
  baseFeePerGas := [10, 20, 22]
  gasUsedRatio := [((1 : ℚ) / 2 : ℚ), ((1 : ℚ) / 2 : ℚ)]
  reward := []

/-- It passes, and compares like with like. -/
theorem verifyFeeHistory_sound_both :
    verifyFeeHistory exactFloats (fun _ _ => .ok servedHistory)
        (feeHistory67.rated exactFloats) 2 7 = .ok () ∧
      ComparesLike (feeHistory67.rated exactFloats) servedHistory 2 := by
  have hpasses : verifyFeeHistory exactFloats (fun _ _ => .ok servedHistory)
      (feeHistory67.rated exactFloats) 2 7 = .ok () := by
    decide +kernel
  exact ⟨hpasses, (verifyFeeHistory_sound_iff rfl).2 (not_shifted_of_oldest rfl) hpasses⟩

end Helios
