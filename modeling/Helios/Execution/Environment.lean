import Helios.Execution.Call
import Helios.Execution.Transactions

/-!
# The block a call sees, and the block that is served

`get_env` and `get_block` convert the same payload, each in its own way.

* `Env.Describes` — the environment of a call and a served block are those of one block.
* `env_difficulty` — the word for the randomness holds the bytes of the payload in reverse.
* `env_describes_iff` — **they agree exactly on a payload whose randomness reads the same both ways
  and whose base fee is zero**.
* `env_misdescribes` — a payload on which they do not.
-/

set_option autoImplicit false

namespace Helios

variable {c : Crates} {payload : ExecutionPayload} {chainId : UInt64} {opts : CallOpts} {env : Env}
  {w : ExecutionWorld} {fullTx : Bool} {block : ExecutionBlock}

/-- The environment is that of the block; the difficulty is the word that `PREVRANDAO` reads. -/
structure Env.Describes (env : Env) (block : ExecutionBlock) : Prop where
  number : env.number.toNat = block.number.toNat
  timestamp : env.timestamp.toNat = block.timestamp.toNat
  coinbase : env.coinbase = block.miner
  difficulty : env.difficulty.toNat = Rlp.bytesNat block.mixHash.toList
  basefee : env.basefee = block.baseFeePerGas

/-- What an environment holds of its payload. -/
structure Env.Of (env : Env) (payload : ExecutionPayload) : Prop where
  number : env.number = BitVec.ofNat 256 payload.blockNumber.toNat
  timestamp : env.timestamp = BitVec.ofNat 256 payload.timestamp.toNat
  coinbase : env.coinbase = payload.feeRecipient
  difficulty : env.difficulty = fromLittleEndian payload.prevRandao.toList
  basefee : env.basefee = 0

theorem getEnv_ok (h : getEnv payload chainId opts = .ok env) : env.Of payload := by
  unfold getEnv at h
  simp only at h
  split at h
  · cases h
  · cases h
    exact ⟨rfl, rfl, rfl, rfl, rfl⟩

/-- What a served block holds of its payload. -/
structure ExecutionBlock.Of (block : ExecutionBlock) (payload : ExecutionPayload) : Prop where
  number : block.number = payload.blockNumber
  timestamp : block.timestamp = payload.timestamp
  miner : block.miner = payload.feeRecipient
  mixHash : block.mixHash = payload.prevRandao
  baseFeePerGas : block.baseFeePerGas = payload.baseFeePerGas

theorem getBlock_ok (h : getBlock c w payload fullTx = .ok block) : block.Of payload := by
  unfold getBlock at h
  simp only at h
  split at h
  · cases h
  · cases h
    exact ⟨rfl, rfl, rfl, rfl, rfl⟩

/-- The word for the randomness holds its bytes in reverse. -/
theorem env_difficulty (h : env.Of payload) :
    env.difficulty.toNat = Rlp.bytesNat payload.prevRandao.toList.reverse := by
  have hlt := Rlp.bytesNat_lt payload.prevRandao.toList.reverse
  rw [List.length_reverse, Vector.length_toList] at hlt
  rw [h.difficulty, fromLittleEndian]
  exact toNat_ofNat_word hlt

/-- **The environment of a call and the served block agree exactly when the randomness of the
    payload reads the same in both byte orders and its base fee is zero.** -/
theorem env_describes_iff (henv : getEnv payload chainId opts = .ok env)
    (hblock : getBlock c w payload fullTx = .ok block) :
    env.Describes block ↔
      payload.prevRandao.toList.reverse = payload.prevRandao.toList ∧
        payload.baseFeePerGas = 0 := by
  have hof := getEnv_ok henv
  have hserved := getBlock_ok hblock
  have hword := env_difficulty hof
  constructor
  · intro h
    constructor
    · apply Rlp.bytesNat_injective (List.length_reverse)
      rw [← hword, h.difficulty, hserved.mixHash]
    · rw [← hserved.baseFeePerGas, ← h.basefee, hof.basefee]
  · rintro ⟨hpalindrome, hfee⟩
    constructor
    · rw [hof.number, hserved.number, ofNat_toNat_u64]
    · rw [hof.timestamp, hserved.timestamp, ofNat_toNat_u64]
    · rw [hof.coinbase, hserved.miner]
    · rw [hword, hserved.mixHash, hpalindrome]
    · rw [hof.basefee, hserved.baseFeePerGas, hfee]

/-- A call that sets nothing. -/
def plainCall : CallOpts := ⟨none, none, none, none, none, none⟩

/-- A payload whose randomness reads the same in both orders, without a base fee. -/
def evenPayload : ExecutionPayload :=
  { transferPayload with prevRandao := Vector.replicate 32 0x5a }

/-- A call in that block sees the block as it is served. -/
theorem env_describes_even : ∃ env block,
    getEnv evenPayload 1 plainCall = .ok env ∧
      getBlock transferCrates (fun _ => substitutingRpc) evenPayload false = .ok block ∧
      env.Describes block :=
  ⟨_, _, rfl, rfl, (@env_describes_iff transferCrates evenPayload 1 plainCall _
    (fun _ => substitutingRpc) false _ rfl rfl).2 ⟨by decide +kernel, rfl⟩⟩

/-- A payload with the randomness one, and the base fee seven. -/
def randomPayload : ExecutionPayload :=
  { transferPayload with prevRandao := beBytes 32 1, baseFeePerGas := 7 }

/-- A call in that block sees the randomness `2 ^ 248`, and no base fee. -/
theorem env_misdescribes : ∃ env block,
    getEnv randomPayload 1 plainCall = .ok env ∧
      getBlock transferCrates (fun _ => substitutingRpc) randomPayload false = .ok block ∧
      env.difficulty.toNat = 2 ^ 248 ∧ Rlp.bytesNat block.mixHash.toList = 1 ∧
      env.basefee = 0 ∧ block.baseFeePerGas = 7 ∧ ¬ env.Describes block := by
  have hword : (fromLittleEndian randomPayload.prevRandao.toList).toNat = 2 ^ 248 := by
    decide +kernel
  have hmix : Rlp.bytesNat randomPayload.prevRandao.toList = 1 := by
    decide +kernel
  refine ⟨_, _, rfl, rfl, hword, hmix, rfl, rfl, ?_⟩
  intro h
  have hsame := h.difficulty.symm.trans hword
  rw [show Rlp.bytesNat randomPayload.prevRandao.toList = 1 from hmix] at hsame
  revert hsame
  decide

end Helios
