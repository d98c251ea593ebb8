import Mathlib

/-!
# Shared value types, errors and panics

Byte arrays of fixed width are vectors, `Vec<u8>` is a list of bytes, `u64` is `UInt64` with the
wrapping arithmetic of the release profile, and `U256` is a 256-bit word.

A call that does not return a value either returns an `Err` (`Fault.err`) or panics
(`Fault.panic`); the release profile aborts on a panic, so no state survives one.  `Report`
collects the error values of all crates, since `eyre::Report` holds any of them.
-/

set_option autoImplicit false

namespace Helios

abbrev Bytes := List UInt8
abbrev Bytes32 := Vector UInt8 32
abbrev H256 := Bytes32
abbrev Address := Vector UInt8 20
abbrev U256 := BitVec 256

/-- The all-zero byte array (`Default`). -/
def zeroBytes (n : Nat) : Vector UInt8 n := Vector.replicate n 0

/-- The `n` low bytes of a number, big-endian (`H256::from_uint`, `Address::from_low_u64_be`). -/
def beBytes (n num : Nat) : Vector UInt8 n :=
  ⟨((List.range n).map fun i => UInt8.ofNat (num / 256 ^ (n - 1 - i))).toArray, by
    rw [List.size_toArray, List.length_map, List.length_range]⟩

instance instHashableByteVector {n : Nat} : Hashable (Vector UInt8 n) := ⟨fun v => hash v.toArray⟩

/-- A number that fits in a word. -/
theorem toNat_ofNat_word {n : Nat} (h : n < 2 ^ 256) : (BitVec.ofNat 256 n).toNat = n := by
  rw [BitVec.toNat_ofNat]
  exact Nat.mod_eq_of_lt h

/-- A number of 64 bits as a word. -/
theorem ofNat_toNat_u64 (n : UInt64) : (BitVec.ofNat 256 n.toNat).toNat = n.toNat := by
  have hn := n.toNat_lt
  exact toNat_ofNat_word (by omega)

/-- Byte arrays are compared byte by byte. -/
instance instDecidableEqByteVector {n : Nat} : DecidableEq (Vector UInt8 n) := fun a b =>
  decidable_of_iff (a.toList = b.toList) Vector.toList_inj

inductive BlockTag where
  | latest
  | finalized
  | number (num : UInt64)
  deriving DecidableEq, Repr

/-! ## Errors -/

inductive ConsensusError where
  | insufficientParticipation
  | invalidTimestamp
  | invalidPeriod
  | notRelevant
  | invalidFinalityProof
  | invalidNextSyncCommitteeProof
  | invalidCurrentSyncCommitteeProof
  | invalidSignature
  | invalidHeaderHash (found expected : Bytes)
  | payloadNotFound (slot : UInt64)
  | checkpointTooOld
  | incorrectRpcNetwork
  deriving DecidableEq

inductive ExecutionError where
  | invalidAccountProof (address : Address)
  | invalidStorageProof (address : Address) (slot : H256)
  | codeHashMismatch (address : Address) (found expected : H256)
  | receiptRootMismatch (tx : H256)
  | missingTransaction (tx : H256)
  | noReceiptForTransaction (tx : H256)
  | missingLog (tx : H256) (index : U256)
  | tooManyLogsToProve (found limit : Nat)
  | incorrectRpcNetwork
  | invalidBaseGaseFee (helios rpc : U256) (block : UInt64)
  | invalidGasUsedRatio (helios rpc : String) (block : UInt64)
  | emptyExecutionPayload
  | invalidBlockRange (last latest : UInt64)
  deriving DecidableEq

/-- An `eyre::Report`, or one of the errors `Node` wraps around one. -/
inductive Report where
  | rpc (method : String)
  | merkleization
  | hex
  | message (text : String)
  | blockNotFound (block : BlockTag)
  | slotNotFound (slot : H256)
  | consensus (error : ConsensusError)
  | execution (error : ExecutionError)
  | evmRpcError (error : Report)
  | evmRevert (data : Option Bytes)
  | evmGeneric (text : String)
  | evmRevm (exit : String)
  | reverted (reason : Option String) (data : Option Bytes)
  | outOfSync (slots : UInt64)
  | nodeExecutionError (error : Report)
  | consensusPayloadError (error : Report)
  | consensusAdvanceError (error : Report)
  | consensusSyncError (error : Report)
  deriving DecidableEq

/-- Where the code panics. -/
inductive Panic where
  | nextSyncCommitteeUnwrap
  | finalizedHeaderUnwrap
  | publicKeyUnwrap
  | clockBeforeGenesis
  | durationUnderflow
  | durationOutOfRange
  | indexOutOfBounds
  | keyNotFound
  | untrustedRlp
  | capacityOverflow
  | receiptFieldUnwrap
  | logIndexUnwrap
  | emptyPayloadsUnwrap
  | coinbaseUnwrap
  | hashLength
  | hexPrefixUnwrap
  | hexDecodeUnwrap
  | tryIntoUnwrap
  | parseUnwrap
  | listOverflow
  | integerOverflow
  deriving DecidableEq

inductive Fault where
  | err (error : Report)
  | panic (site : Panic)
  deriving DecidableEq

abbrev Result := Except Fault

/-- Wrap the error of a result (`map_err`); a panic stays a panic. -/
def mapErr {α : Type} (f : Report → Report) : Result α → Result α
  | .ok a => .ok a
  | .error (.err e) => .error (.err (f e))
  | .error (.panic p) => .error (.panic p)

theorem mapErr_ok {α : Type} {f : Report → Report} {r : Result α} {a : α} :
    mapErr f r = .ok a ↔ r = .ok a := by
  cases r with
  | ok b => simp [mapErr]
  | error e => cases e <;> simp [mapErr]

/-- Run a fallible step over a list, stopping at the first fault
(`collect::<Result<Vec<_>>>()`). -/
def collectResults {α β : Type} (f : α → Result β) : List α → Result (List β)
  | [] => .ok []
  | a :: as =>
    match f a with
    | .error e => .error e
    | .ok b =>
      match collectResults f as with
      | .error e => .error e
      | .ok bs => .ok (b :: bs)

theorem collectResults_error {α β : Type} {f : α → Result β} {e : Fault} :
    ∀ {as : List α}, collectResults f as = .error e → ∃ a ∈ as, f a = .error e
  | [], h => by cases h
  | a :: as, h => by
    unfold collectResults at h
    split at h
    · rename_i hf
      cases h
      exact ⟨a, List.mem_cons_self, hf⟩
    · split at h
      · rename_i hr
        cases h
        obtain ⟨b, hb, hf⟩ := collectResults_error hr
        exact ⟨b, List.mem_cons_of_mem _ hb, hf⟩
      · cases h

theorem collectResults_ok {α β : Type} {f : α → Result β} :
    ∀ {as : List α} {bs : List β}, collectResults f as = .ok bs ↔
      List.Forall₂ (fun a b => f a = .ok b) as bs
  | [], bs => by cases bs <;> simp [collectResults]
  | a :: as, bs => by
    unfold collectResults
    cases hf : f a with
    | error e => cases bs <;> simp [hf]
    | ok b =>
      cases bs with
      | nil => cases collectResults f as <;> simp
      | cons c cs =>
        have ih : collectResults f as = .ok cs ↔ List.Forall₂ (fun a b => f a = .ok b) as cs :=
          collectResults_ok
        rw [List.forall₂_cons, hf, ← ih]
        cases collectResults f as <;> simp

theorem collectResults_getElem? {α β : Type} {f : α → Result β} {as : List α} {bs : List β}
    (h : collectResults f as = .ok bs) {i : Nat} {a : α} (ha : as[i]? = some a) :
    ∃ b, bs[i]? = some b ∧ f a = .ok b := by
  have hall := collectResults_ok.1 h
  obtain ⟨hi, rfl⟩ := List.getElem?_eq_some_iff.1 ha
  have hi' : i < bs.length := hall.length_eq ▸ hi
  exact ⟨bs[i], List.getElem?_eq_getElem hi', hall.get hi hi'⟩

theorem collectResults_mapIdx_from {α β : Type} {f : Nat → α → Result β} :
    ∀ {as : List α} {g : Nat → Nat} {bs : List β},
      collectResults (fun input : Nat × α => f input.1 input.2) (as.mapIdx fun i a => (g i, a)) =
          .ok bs ↔
        bs.length = as.length ∧
          ∀ i a b, as[i]? = some a → bs[i]? = some b → f (g i) a = .ok b
  | [], g, bs => by
    rw [List.mapIdx_nil, collectResults_ok, List.forall₂_nil_left_iff, List.length_nil,
      List.length_eq_zero_iff]
    simp
  | a :: as, g, bs => by
    rw [List.mapIdx_cons, collectResults_ok]
    cases bs with
    | nil => simp
    | cons b bs =>
      have ih := @collectResults_mapIdx_from α β f as (fun i => g (i + 1)) bs
      rw [collectResults_ok] at ih
      rw [List.forall₂_cons, ih]
      simp only [List.length_cons, Nat.add_right_cancel_iff]
      constructor
      · rintro ⟨hhead, hlen, htail⟩
        refine ⟨hlen, fun i x y hx hy => ?_⟩
        cases i with
        | zero =>
          cases hx
          cases hy
          exact hhead
        | succ i => exact htail i x y hx hy
      · rintro ⟨hlen, h⟩
        exact ⟨h 0 a b rfl rfl, hlen, fun i x y hx hy => h (i + 1) x y hx hy⟩

/-- Collecting over numbered inputs: the results stand at the places of their inputs. -/
theorem collectResults_mapIdx {α β : Type} {f : Nat → α → Result β} {as : List α} {bs : List β} :
    collectResults (fun input : Nat × α => f input.1 input.2) (as.mapIdx fun i a => (i, a)) =
        .ok bs ↔
      bs.length = as.length ∧ ∀ i a b, as[i]? = some a → bs[i]? = some b → f i a = .ok b :=
  collectResults_mapIdx_from (g := fun i => i)

end Helios
