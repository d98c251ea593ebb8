import Helios.Execution.Evm

/-!
# Calls of the EVM (`execution/src/evm.rs`)

The EVM itself is another crate.  All it can do with the database is to ask it and go on with the
answer, so it is a `Program`: a tree of questions, with a result at every leaf.

* `ProofDB.basic`, `ProofDB.blockHash` — the other answers of the database.
* `Program.run` — a program against a database; a panic in an answer ends it.
* `getEnv` — the environment of a call.
* `evmCall`, `estimateGas` — the accounts are fetched, and then the program of the call runs.

The field `error` of the database is never set, and not kept.
-/

set_option autoImplicit false

namespace Helios

variable (c : Crates)

/-- `AccountInfo`; the hash of the code is a function of the code. -/
structure AccountInfo where
  balance : U256
  nonce : UInt64
  code : Bytes
  deriving DecidableEq

/-- The addresses from 1 to 9. -/
def isPrecompile (address : Address) : Bool :=
  let number := Rlp.bytesNat address.toList
  decide (number ≤ 9) && decide (number > 0)

/-- `v.as_u64()` -/
def asU64 (v : U256) : Result UInt64 :=
  if v.toNat < 2 ^ 64 then .ok (UInt64.ofNat v.toNat) else .error (.panic .integerOverflow)

namespace ProofDB

def accountInfo (account : Account) : AccountInfo where
  balance := account.balance
  nonce := account.nonce
  code := account.code

def basic (db : ProofDB) (w : ExecutionWorld) (address : Address) :
    Result (Option AccountInfo) :=
  if isPrecompile address then .ok (some ⟨0, 0, []⟩)
  else
    match db.accounts[address]? with
    | some account => .ok (some (accountInfo account))
    | none =>
      match db.getAccount c w address [] with
      | .error e => .error e
      | .ok account => .ok (some (accountInfo account))

def blockHash (db : ProofDB) (number : U256) : Result H256 :=
  match asU64 number with
  | .error e => .error e
  | .ok number =>
    match db.payloads[number]? with
    | some payload => .ok payload.blockHash
    | none => .error (.err (.blockNotFound (.number number)))

def codeByHash (_codeHash : H256) : Result Bytes :=
  .error (.err (.message "should never be called"))

end ProofDB

/-! ## Programs -/

/-- Why an execution ended (`revm::Return`). -/
inductive Return where
  | ret
  | stop
  | revert
  | other (reason : String)
  deriving DecidableEq

inductive TransactOut where
  | none
  | call (output : Bytes)
  | create (output : Bytes) (address : Option Address)
  deriving DecidableEq

structure ExecutionResult where
  exitReason : Return
  out : TransactOut
  gasUsed : UInt64
  deriving DecidableEq

/-- What the EVM does: questions to the database, and a result. -/
inductive Program where
  | done (result : ExecutionResult)
  | basic (address : Address) (next : Except Report (Option AccountInfo) → Program)
  | storage (address : Address) (slot : U256) (next : Except Report U256 → Program)
  | blockHash (number : U256) (next : Except Report H256 → Program)
  | codeByHash (codeHash : H256) (next : Except Report Bytes → Program)

/-- An answer that is not a panic. -/
def asAnswer {α : Type} : Result α → Except Panic (Except Report α)
  | .ok a => .ok (.ok a)
  | .error (.err e) => .ok (.error e)
  | .error (.panic p) => .error p

/-- Each question takes two moments, those of the account it may fetch. -/
def Program.run (db : ProofDB) : ExecutionWorld → Program → Result ExecutionResult
  | _, .done result => .ok result
  | w, .basic address next =>
    match asAnswer (db.basic c w address) with
    | .error p => .error (.panic p)
    | .ok answer => (next answer).run db (w.drop 2)
  | w, .storage address slot next =>
    match asAnswer (db.storage c w address slot) with
    | .error p => .error (.panic p)
    | .ok answer => (next answer).run db (w.drop 2)
  | w, .blockHash number next =>
    match asAnswer (db.blockHash number) with
    | .error p => .error (.panic p)
    | .ok answer => (next answer).run db (w.drop 2)
  | w, .codeByHash codeHash next =>
    match asAnswer (ProofDB.codeByHash codeHash) with
    | .error p => .error (.panic p)
    | .ok answer => (next answer).run db (w.drop 2)

/-! ## The environment -/

/-- The number of a little-endian byte string, as a word (`U256::from_little_endian`). -/
def fromLittleEndian (bytes : Bytes) : U256 := BitVec.ofNat 256 (Rlp.bytesNat bytes.reverse)

/-- The fields of `Env` that are set, and the base fee, which stays at its default. -/
structure Env where
  transactTo : Address
  caller : Address
  value : U256
  data : Bytes
  gasLimit : UInt64
  gasPrice : U256
  number : U256
  coinbase : Address
  timestamp : U256
  difficulty : U256
  basefee : U256 := 0
  chainId : U256

def getEnv (payload : ExecutionPayload) (chainId : UInt64) (opts : CallOpts) : Result Env :=
  let gasLimit := match opts.gas with
    | some v => asU64 v
    | none => .ok 0xffffffffffffffff
  match gasLimit with
  | .error e => .error e
  | .ok gasLimit =>
    .ok { transactTo := opts.toAddress.getD (zeroBytes 20)
          caller := opts.fromAddress.getD (zeroBytes 20)
          value := opts.value.getD 0
          data := opts.data.getD []
          gasLimit := gasLimit
          gasPrice := opts.gasPrice.getD 0
          number := BitVec.ofNat 256 payload.blockNumber.toNat
          coinbase := payload.feeRecipient
          timestamp := BitVec.ofNat 256 payload.timestamp.toNat
          difficulty := fromLittleEndian payload.prevRandao.toList
          chainId := BitVec.ofNat 256 chainId.toNat }

/-! ## Calls -/

/-- The moments of the prefetch are those of `w`, the ones after it those of `w'`. -/
def transact (evm : Env → Program) (w w' : ExecutionWorld) (db : ProofDB) (chainId : UInt64)
    (opts : CallOpts) : Result ExecutionResult :=
  match batchFetchAccounts c w db opts with
  | .error e => .error e
  | .ok accountMap =>
    let db := db.setAccounts accountMap
    match getEnv db.currentPayload chainId opts with
    | .error e => .error e
    | .ok env => (evm env).run c db w'

/-- The output of a reverted execution. -/
def revertData : TransactOut → Option Bytes
  | .call output => some output
  | .none => none
  | .create _ _ => none

/-- `Evm::call` -/
def evmCall (evm : Env → Program) (w w' : ExecutionWorld) (db : ProofDB) (chainId : UInt64)
    (opts : CallOpts) : Result Bytes :=
  match transact c evm w w' db chainId opts with
  | .error e => .error e
  | .ok tx =>
    match tx.exitReason with
    | .revert => .error (.err (.evmRevert (revertData tx.out)))
    | .ret | .stop =>
      match tx.out with
      | .none => .error (.err (.evmGeneric "Invalid Call"))
      | .create _ _ => .error (.err (.evmGeneric "Invalid Call"))
      | .call output => .ok output
    | .other reason => .error (.err (.evmRevm reason))

/-- `Evm::estimate_gas`.  The scaling by 1.1 is a function of the gas used alone. -/
def estimateGas (evm : Env → Program) (scale : UInt64 → UInt64) (w w' : ExecutionWorld)
    (db : ProofDB) (chainId : UInt64) (opts : CallOpts) : Result UInt64 :=
  match transact c evm w w' db chainId opts with
  | .error e => .error e
  | .ok tx =>
    match tx.exitReason with
    | .revert => .error (.err (.evmRevert (revertData tx.out)))
    | .ret | .stop => .ok (scale tx.gasUsed)
    | .other reason => .error (.err (.evmRevm reason))

/-! ## Faults -/

variable {c}

/-- An account that fails is skipped. -/
theorem fetchAccounts_panics {payload : ExecutionPayload} :
    ∀ {list : List AccessListItem} {w : ExecutionWorld}
      {accountMap : Std.HashMap Address Account},
      OnlyPanics (fetchAccounts c payload w list accountMap) := by
  intro list
  induction list with
  | nil => intro w accountMap e h; cases h
  | cons item rest ih =>
    intro w accountMap e h
    rw [fetchAccounts] at h
    split at h
    · cases h
    · exact ih e h
    · exact ih e h

/-- An answer with an error goes to the program. -/
theorem Program.run_panics {db : ProofDB} {program : Program} :
    ∀ {w : ExecutionWorld}, OnlyPanics (program.run c db w) := by
  induction program with
  | done result => intro w e h; cases h
  | basic address next ih =>
    intro w e h
    rw [Program.run] at h
    split at h
    · cases h
    · exact ih _ e h
  | storage address slot next ih =>
    intro w e h
    rw [Program.run] at h
    split at h
    · cases h
    · exact ih _ e h
  | blockHash number next ih =>
    intro w e h
    rw [Program.run] at h
    split at h
    · cases h
    · exact ih _ e h
  | codeByHash codeHash next ih =>
    intro w e h
    rw [Program.run] at h
    split at h
    · cases h
    · exact ih _ e h

theorem asU64_panics {v : U256} : OnlyPanics (asU64 v) := by
  intro e h
  unfold asU64 at h
  split at h <;> cases h

theorem getEnv_panics {payload : ExecutionPayload} {chainId : UInt64} {opts : CallOpts} :
    OnlyPanics (getEnv payload chainId opts) := by
  intro e h
  unfold getEnv at h
  simp only at h
  split at h
  · rename_i fault hgas
    cases h
    split at hgas
    · exact asU64_panics e hgas
    · cases hgas
  · cases h

end Helios
