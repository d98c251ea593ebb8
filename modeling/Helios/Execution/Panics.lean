import Helios.Execution.Call
import Helios.Execution.LogSound

/-!
# Which answers of the execution server make a call panic

* `Panics` — a result is a panic; `collectResults_panics_iff` — the first step of a loop that fails
  decides.
* `Derails`, `verifyProof_panics_iff` — **a proof makes `verify_proof` panic exactly when** its walk
  reaches a node on which `rlp::decode_list` panics, or a branch with no nibble of the path left.
* `AccountTrips`, `ReceiptTrips`, `LogsTrip`, `CallTrips` — the same for accounts, receipts, logs
  and calls of the EVM, read off the server's answers and the request.
-/

set_option autoImplicit false

namespace Helios

open Nibble OrderedMap

variable {c : Crates} {payloads : Payloads} {payload : ExecutionPayload}

/-! ## Panics -/

/-- The release profile aborts here. -/
def Panics {α : Type} (r : Result α) : Prop := ∃ p, r = .error (.panic p)

@[simp]
theorem panics_ok {α : Type} {a : α} : ¬ Panics (.ok a : Result α) := by
  rintro ⟨p, h⟩
  cases h

@[simp]
theorem panics_err {α : Type} {e : Report} : ¬ Panics (.error (.err e) : Result α) := by
  rintro ⟨p, h⟩
  cases h

@[simp]
theorem panics_panic {α : Type} {p : Panic} : Panics (.error (.panic p) : Result α) := ⟨p, rfl⟩

/-- A fault that is handed on. -/
theorem panics_error {α β : Type} {f : Fault} :
    Panics (.error f : Result α) ↔ Panics (.error f : Result β) := by
  cases f <;> simp

theorem not_panics_handed {α β : Type} {r : Result α} {f : Fault} (hr : ¬ Panics r)
    (h : r = .error f) : ¬ Panics (.error f : Result β) := by
  rw [h] at hr
  exact fun hp => hr (panics_error.1 hp)

theorem panics_mapErr {α : Type} {g : Report → Report} {r : Result α} :
    Panics (mapErr g r) ↔ Panics r := by
  rcases r with (e | p) | a <;> simp [mapErr]

@[simp]
theorem panics_map {α β : Type} {f : α → β} {r : Result α} : Panics (r.map f) ↔ Panics r := by
  rcases r with (e | p) | a <;> simp [Except.map]

theorem panics_bind {α β : Type} {r : Result α} {next : α → Result β} :
    Panics (r.bind next) ↔ Panics r ∨ ∃ a, r = .ok a ∧ Panics (next a) := by
  rcases r with (e | p) | a <;> simp [Except.bind]

theorem not_panics_answer {α : Type} {r : Except Report α} : ¬ Panics (answer r) := by
  cases r <;> simp [answer]

theorem not_panics_orNotReachable {α : Type} {r : Result (Option α)} (h : ¬ Panics r) :
    ¬ Panics (orNotReachable r) := by
  rcases r with e | _ | a
  · rw [orNotReachable, panics_error]
    exact h
  · simp [orNotReachable]
  · simp [orNotReachable]

theorem not_panics_collectResults {α β : Type} {f : α → Result β} {as : List α}
    (h : ∀ a ∈ as, ¬ Panics (f a)) : ¬ Panics (collectResults f as) := by
  rintro ⟨p, hp⟩
  obtain ⟨a, ha, hf⟩ := collectResults_error hp
  exact h a ha ⟨p, hf⟩

theorem panics_collectResults_cons {α β : Type} {f : α → Result β} {a : α} {as : List α} {d : β}
    (h : f a = .ok d) : Panics (collectResults f (a :: as)) ↔ Panics (collectResults f as) := by
  rw [collectResults, h]
  cases collectResults f as with
  | error e => exact panics_error
  | ok ds => simp

/-- The first step that fails decides. -/
theorem collectResults_panics_iff {α β : Type} {f : α → Result β} :
    ∀ {as : List α}, Panics (collectResults f as) ↔
      ∃ (i : Nat) (a : α), as[i]? = some a ∧
        (∀ (j : Nat) (b : α), j < i → as[j]? = some b → ∃ d, f b = .ok d) ∧ Panics (f a)
  | [] => by simp [collectResults]
  | a :: as => by
    cases ha : f a with
    | error e =>
      rw [collectResults, ha]
      constructor
      · intro h
        refine ⟨0, a, rfl, fun j b hj => absurd hj (Nat.not_lt_zero j), ?_⟩
        rw [ha]
        exact panics_error.1 h
      · rintro ⟨i, b, hi, hbefore, hb⟩
        cases i with
        | zero =>
          cases hi
          rw [ha] at hb
          exact panics_error.1 hb
        | succ i =>
          obtain ⟨d, hd⟩ := hbefore 0 a (Nat.succ_pos i) rfl
          rw [ha] at hd
          cases hd
    | ok d =>
      rw [panics_collectResults_cons ha, collectResults_panics_iff]
      constructor
      · rintro ⟨i, b, hi, hbefore, hb⟩
        refine ⟨i + 1, b, hi, fun j x hj hx => ?_, hb⟩
        cases j with
        | zero =>
          cases hx
          exact ⟨d, ha⟩
        | succ j => exact hbefore j x (Nat.lt_of_succ_lt_succ hj) hx
      · rintro ⟨i, b, hi, hbefore, hb⟩
        cases i with
        | zero =>
          cases hi
          rw [ha] at hb
          exact absurd hb panics_ok
        | succ i =>
          exact ⟨i, b, hi, fun j x hj hx => hbefore (j + 1) x (Nat.succ_lt_succ hj) hx, hb⟩

/-! ## Proofs -/

/-- The walk of a proof reaches a node on which `rlp::decode_list` panics (an item of its list is a
    list itself or cannot be decoded), or a branch past the end of the path. -/
inductive Derails (c : Crates) (path : Bytes) : Bytes → Nat → List Bytes → Prop
  | unreadable {expected node : Bytes} {offset : Nat} {rest : List Bytes} :
      expected = c.hash node → c.decodeList node = none →
      Derails c path expected offset (node :: rest)
  | pathEnds {expected node : Bytes} {offset : Nat} {rest nodeList : List Bytes} :
      expected = c.hash node → c.decodeList node = some nodeList → nodeList.length = 17 →
      2 * path.length ≤ offset → Derails c path expected offset (node :: rest)
  | branch {expected node child : Bytes} {offset : Nat} {rest nodeList : List Bytes}
      {nibble : UInt8} :
      expected = c.hash node → c.decodeList node = some nodeList → nodeList.length = 17 →
      getNibble path offset = .ok nibble → nodeList[nibble.toNat]? = some child →
      Derails c path child (offset + 1) rest → Derails c path expected offset (node :: rest)
  | pair {expected node nodePath item : Bytes} {offset prefixLength : Nat} {rest : List Bytes} :
      expected = c.hash node → c.decodeList node = some [nodePath, item] →
      sharedPrefixLength path offset nodePath = .ok prefixLength →
      nodePath.length * 2 - skipLength nodePath ≤ prefixLength →
      Derails c path item (offset + prefixLength) rest →
      Derails c path expected offset (node :: rest)

theorem not_derails_nil {path expected : Bytes} {offset : Nat} :
    ¬ Derails c path expected offset [] := by
  intro h
  cases h

/-- A branch, with a nibble of the path left. -/
theorem derails_branch_iff {path node expected child : Bytes} {offset : Nat}
    {rest nodeList : List Bytes} {nibble : UInt8} (hhash : expected = c.hash node)
    (hlist : c.decodeList node = some nodeList) (hlen : nodeList.length = 17)
    (hnibble : getNibble path offset = .ok nibble) (hchild : nodeList[nibble.toNat]? = some child) :
    Derails c path expected offset (node :: rest) ↔ Derails c path child (offset + 1) rest := by
  constructor
  · intro h
    cases h with
    | unreadable _ h =>
      rw [hlist] at h
      cases h
    | pathEnds _ _ _ h =>
      rw [getNibble_out h] at hnibble
      cases hnibble
    | branch _ h _ hnibble' hchild' hrest =>
      rw [hlist] at h
      cases h
      rw [hnibble] at hnibble'
      cases hnibble'
      rw [hchild] at hchild'
      cases hchild'
      exact hrest
    | pair _ h _ _ _ =>
      rw [hlist] at h
      cases h
      cases hlen
  · exact .branch hhash hlist hlen hnibble hchild

/-- A node with a path. -/
theorem derails_pair_iff {path node expected nodePath item : Bytes} {offset prefixLength : Nat}
    {rest : List Bytes} (hhash : expected = c.hash node)
    (hlist : c.decodeList node = some [nodePath, item])
    (hmarker : sharedPrefixLength path offset nodePath = .ok prefixLength) :
    Derails c path expected offset (node :: rest) ↔
      nodePath.length * 2 - skipLength nodePath ≤ prefixLength ∧
        Derails c path item (offset + prefixLength) rest := by
  constructor
  · intro h
    cases h with
    | unreadable _ h =>
      rw [hlist] at h
      cases h
    | pathEnds _ h hlen _ =>
      rw [hlist] at h
      cases h
      cases hlen
    | branch _ h hlen _ _ _ =>
      rw [hlist] at h
      cases h
      cases hlen
    | pair _ h hmarker' hle hrest =>
      rw [hlist] at h
      cases h
      rw [hmarker] at hmarker'
      cases hmarker'
      exact ⟨hle, hrest⟩
  · rintro ⟨hle, hrest⟩
    exact .pair hhash hlist hmarker hle hrest

/-- A node that is not the one expected ends the walk. -/
theorem not_derails_of_hash {path node expected : Bytes} {offset : Nat} {rest : List Bytes}
    (hhash : expected ≠ c.hash node) : ¬ Derails c path expected offset (node :: rest) := by
  intro h
  cases h <;> exact absurd ‹expected = c.hash node› hhash

/-- So does a list that is neither a branch nor a pair. -/
theorem not_derails_of_list {path node expected : Bytes} {offset : Nat} {rest nodeList : List Bytes}
    (hlist : c.decodeList node = some nodeList) (hlen : nodeList.length ≠ 17)
    (hpair : ∀ nodePath item, nodeList ≠ [nodePath, item]) :
    ¬ Derails c path expected offset (node :: rest) := by
  intro h
  cases h with
  | unreadable _ h =>
    rw [hlist] at h
    cases h
  | pathEnds _ h hlen' _ =>
    rw [hlist] at h
    cases h
    exact hlen hlen'
  | branch _ h hlen' _ _ _ =>
    rw [hlist] at h
    cases h
    exact hlen hlen'
  | pair _ h _ _ _ =>
    rw [hlist] at h
    cases h
    exact hpair _ _ rfl

/-- Before the end of the path a branch has a child for the nibble. -/
theorem branch_child {path : Bytes} {offset : Nat} {nodeList : List Bytes}
    (hlen : nodeList.length = 17) (hoff : offset < 2 * path.length) :
    ∃ nibble child, getNibble path offset = .ok nibble ∧
      nodeList[nibble.toNat]? = some child := by
  obtain ⟨n, _, hnibble⟩ := getNibble_nibbles hoff
  have hchild : (nibbleByte n).toNat < nodeList.length := by
    rw [nibbleByte_toNat]
    omega
  exact ⟨_, _, hnibble, List.getElem?_eq_getElem hchild⟩

/-- A branch: the walk goes on at a child, if a nibble of the path is left. -/
theorem branch_panics_iff {path value node expected : Bytes} {offset : Nat}
    {rest nodeList : List Bytes} (hhash : expected = c.hash node)
    (hlist : c.decodeList node = some nodeList) (hlen : nodeList.length = 17)
    (hnext : ∀ child, offset + 1 ≤ 2 * path.length →
      (Panics (verifyProofFrom c path value child (offset + 1) rest) ↔
        Derails c path child (offset + 1) rest)) :
    Panics (verifyProofFrom c path value expected offset (node :: rest)) ↔
      Derails c path expected offset (node :: rest) := by
  rw [verifyProofFrom, if_neg (not_not.2 hhash), hlist]
  simp only
  rw [if_pos hlen]
  by_cases hend : 2 * path.length ≤ offset
  · rw [getNibble_out hend]
    simpa using Derails.pathEnds hhash hlist hlen hend
  · rw [not_le] at hend
    obtain ⟨nibble, child, hnibble, hchild⟩ := branch_child hlen hend
    rw [derails_branch_iff hhash hlist hlen hnibble hchild]
    simp only [hnibble, hchild]
    cases rest with
    | nil =>
      simp only [List.isEmpty_nil, if_true, not_derails_nil, iff_false]
      split <;> simp
    | cons next rest =>
      simp only [List.isEmpty_cons, Bool.false_eq_true, if_false]
      exact hnext child hend

/-- A pair: the walk goes on at the item, if the path of the node is on the way. -/
theorem pair_panics_iff {path value node expected nodePath item : Bytes} {offset : Nat}
    {rest : List Bytes} (hhash : expected = c.hash node)
    (hlist : c.decodeList node = some [nodePath, item]) (hoff : offset ≤ 2 * path.length)
    (hnext : ∀ prefixLength, offset + prefixLength ≤ 2 * path.length →
      (Panics (verifyProofFrom c path value item (offset + prefixLength) rest) ↔
        Derails c path item (offset + prefixLength) rest)) :
    Panics (verifyProofFrom c path value expected offset (node :: rest)) ↔
      Derails c path expected offset (node :: rest) := by
  have hmarker := @sharedPrefixLength_eq path nodePath offset
  rw [verifyProofFrom, if_neg (not_not.2 hhash), hlist, derails_pair_iff hhash hlist hmarker]
  simp only [List.length_cons, List.length_nil, Nat.reduceAdd, Nat.reduceEqDiff, if_false]
  cases rest with
  | nil =>
    have hskip : skipLength nodePath ≤ 2 * nodePath.length := by
      rw [Nat.mul_comm]
      exact skipLength_le nodePath
    simp only [List.isEmpty_nil, if_true, pathsMatch_eq hskip hoff, not_derails_nil, and_false,
      iff_false]
    split
    · simp
    · split <;> simp
  | cons next rest =>
    simp only [List.isEmpty_cons, Bool.false_eq_true, if_false, hmarker]
    split
    · rename_i hlt
      simp only [panics_ok, false_iff]
      omega
    · rename_i hle
      rw [not_lt] at hle
      rw [hnext]
      · simp [hle]
      · -- the common prefix lies within the path
        have hlen := commonPrefixLength_le_left ((nibbles path).drop offset)
          ((nibbles nodePath).drop (skipLength nodePath))
        rw [drop_nibbles_length] at hlen
        omega

/-- **A proof makes `verify_proof` panic exactly when its walk derails.** -/
theorem verifyProofFrom_panics_iff {path value : Bytes} :
    ∀ {proof : List Bytes} {expected : Bytes} {offset : Nat}, offset ≤ 2 * path.length →
      (Panics (verifyProofFrom c path value expected offset proof) ↔
        Derails c path expected offset proof) := by
  intro proof
  induction proof with
  | nil => simp [verifyProofFrom, not_derails_nil]
  | cons node rest ih =>
    intro expected offset hoff
    by_cases hhash : expected = c.hash node
    swap
    · rw [verifyProofFrom, if_pos hhash]
      simp only [panics_ok, false_iff]
      exact not_derails_of_hash hhash
    cases hlist : c.decodeList node with
    | none =>
      rw [verifyProofFrom, if_neg (not_not.2 hhash), hlist]
      simpa using Derails.unreadable hhash hlist
    | some nodeList =>
      by_cases hlen : nodeList.length = 17
      · exact branch_panics_iff hhash hlist hlen fun _ => ih
      by_cases hpair : ∃ nodePath item, nodeList = [nodePath, item]
      · obtain ⟨nodePath, item, rfl⟩ := hpair
        exact pair_panics_iff hhash hlist hoff fun _ => ih
      · have hno : ∀ nodePath item, nodeList ≠ [nodePath, item] :=
          fun nodePath item h => hpair ⟨nodePath, item, h⟩
        rw [verifyProofFrom, if_neg (not_not.2 hhash), hlist]
        simp only
        rw [if_neg hlen]
        simp only [panics_ok, false_iff]
        exact not_derails_of_list hlist hlen hno

theorem verifyProof_panics_iff {proof : List Bytes} {root path value : Bytes} :
    Panics (verifyProof c proof root path value) ↔ Derails c path root 0 proof :=
  verifyProofFrom_panics_iff (Nat.zero_le _)

/-! ## Accounts -/

/-- The proof of a slot is accepted. -/
def SlotAccepted (c : Crates) (storageHash : H256) (storageProof : StorageProof) : Prop :=
  verifyProof c storageProof.proof storageHash.toList (c.keccak256 storageProof.key.toList).toList
    (encodeValue storageProof.value) = .ok true

/-- The first proof that is not accepted derails. -/
def SlotsTrip (c : Crates) (storageHash : H256) (proofs : List StorageProof) : Prop :=
  ∃ before storageProof after, proofs = before ++ storageProof :: after ∧
    (∀ earlier ∈ before, SlotAccepted c storageHash earlier) ∧
    Derails c (c.keccak256 storageProof.key.toList).toList storageHash.toList 0 storageProof.proof

/-- The server answers with an account proof that derails, or with an accepted one and slots that
    trip. -/
def AccountTrips (c : Crates) (rpc : ExecutionRpc) (address : Address) (slots : List H256)
    (payload : ExecutionPayload) : Prop :=
  ∃ proof, rpc.getProof address slots payload.blockNumber = .ok proof ∧
    (Derails c (c.keccak256 address.toList).toList payload.stateRoot.toList 0
        proof.accountProof ∨
      verifyProof c proof.accountProof payload.stateRoot.toList
        (c.keccak256 address.toList).toList (encodeAccount proof) = .ok true ∧
      SlotsTrip c proof.storageHash proof.storageProof)

theorem verifySlots_panics_iff {address : Address} {storageHash : H256} :
    ∀ {proofs : List StorageProof} {slotMap : Std.HashMap H256 U256},
      Panics (verifySlots c address storageHash proofs slotMap) ↔
        SlotsTrip c storageHash proofs
  | [], _ => by simp [verifySlots, SlotsTrip]
  | storageProof :: rest, slotMap => by
    rw [verifySlots, hexStrToBytes_encodeHex]
    simp only
    have hcheck := @verifyProof_panics_iff c storageProof.proof storageHash.toList
      (c.keccak256 storageProof.key.toList).toList (encodeValue storageProof.value)
    -- the first proof decides, unless it is accepted
    have hfirst : SlotsTrip c storageHash (storageProof :: rest) ↔
        Derails c (c.keccak256 storageProof.key.toList).toList storageHash.toList 0
            storageProof.proof ∨
          SlotAccepted c storageHash storageProof ∧ SlotsTrip c storageHash rest := by
      constructor
      · rintro ⟨before, failing, after, heq, hbefore, hderails⟩
        cases before with
        | nil =>
          cases heq
          exact Or.inl hderails
        | cons earlier before =>
          cases heq
          exact Or.inr ⟨hbefore _ List.mem_cons_self, before, failing, after, rfl,
            fun q hq => hbefore q (List.mem_cons_of_mem _ hq), hderails⟩
      · rintro (hderails | ⟨haccepted, before, failing, after, rfl, hbefore, hderails⟩)
        · exact ⟨[], storageProof, rest, rfl, by simp, hderails⟩
        · refine ⟨storageProof :: before, failing, after, rfl, fun q hq => ?_, hderails⟩
          rcases List.mem_cons.1 hq with rfl | hq
          · exact haccepted
          · exact hbefore q hq
    rw [hfirst, ← hcheck, SlotAccepted]
    cases hverify : verifyProof c storageProof.proof storageHash.toList
        (c.keccak256 storageProof.key.toList).toList (encodeValue storageProof.value) with
    | error e => cases e <;> simp
    | ok isValid =>
      cases isValid with
      | false => simp
      | true => simp [verifySlots_panics_iff]

theorem not_panics_fetchCode {rpc : ExecutionRpc} {address : Address} {blockNumber : UInt64}
    {expected : H256} : ¬ Panics (fetchCode c rpc address blockNumber expected) := by
  unfold fetchCode
  split
  · simp
  · cases rpc.getCode address blockNumber with
    | error e => simp [answer]
    | ok code =>
      simp only [answer]
      split <;> simp

/-- **When `get_account` panics.** -/
theorem getAccount_panics_iff {w : ExecutionWorld} {address : Address}
    {slots : Option (List H256)} :
    Panics (getAccount c w address slots payload) ↔
      AccountTrips c (w 0) address (slots.getD []) payload := by
  unfold getAccount AccountTrips
  simp only
  cases hproof : (w 0).getProof address (slots.getD []) payload.blockNumber with
  | error e => simp [answer]
  | ok proof =>
    have hcheck := @verifyProof_panics_iff c proof.accountProof payload.stateRoot.toList
      (c.keccak256 address.toList).toList (encodeAccount proof)
    simp only [answer, Except.ok.injEq, exists_eq_left', ← hcheck]
    cases hverify : verifyProof c proof.accountProof payload.stateRoot.toList
        (c.keccak256 address.toList).toList (encodeAccount proof) with
    | error e => cases e <;> simp
    | ok isValid =>
      cases isValid with
      | false => simp
      | true =>
        simp only [Bool.true_eq_false, if_false, panics_ok, true_and, false_or]
        rw [← @verifySlots_panics_iff c address proof.storageHash proof.storageProof ∅]
        cases hslots : verifySlots c address proof.storageHash proof.storageProof ∅ with
        | error e => exact panics_error
        | ok slotMap =>
          simp only [panics_ok, iff_false]
          have hcode := @not_panics_fetchCode c (w 1) address payload.blockNumber proof.codeHash
          cases hfetch : fetchCode c (w 1) address payload.blockNumber proof.codeHash with
          | error e =>
            exact not_panics_handed hcode hfetch
          | ok code => simp

/-! ## Transactions -/

theorem not_panics_getTransaction {rpc : ExecutionRpc} {hash : H256} :
    ¬ Panics (getTransaction c rpc hash payloads) := by
  unfold getTransaction
  cases rpc.getTransaction hash with
  | error e => simp [answer]
  | ok tx =>
    simp only [answer]
    split
    · simp_all
    · simp
    · split
      · simp
      · split
        · simp
        · split <;> simp

theorem not_panics_getBlock {w : ExecutionWorld} {fullTx : Bool} :
    ¬ Panics (getBlock c w payload fullTx) := by
  have hfetch : ¬ Panics (fetchTransactions c w payload) :=
    not_panics_collectResults fun _ _ => not_panics_orNotReachable not_panics_getTransaction
  unfold getBlock
  cases fullTx with
  | false => simp
  | true =>
    cases htxs : fetchTransactions c w payload with
    | error e =>
      exact not_panics_handed hfetch htxs
    | ok txs => simp

theorem getTransactionByBlockHashAndIndex_panics_iff {rpc : ExecutionRpc} {index : Nat} :
    Panics (getTransactionByBlockHashAndIndex c rpc payload index) ↔
      payload.transactions.length ≤ index := by
  unfold getTransactionByBlockHashAndIndex
  rw [← List.getElem?_eq_none_iff]
  cases payload.transactions[index]? with
  | none => simp
  | some tx =>
    have h : ¬ Panics (orNotReachable
        (getTransaction c rpc (c.keccak256 tx) (singlePayload payload))) :=
      not_panics_orNotReachable not_panics_getTransaction
    simp only [reduceCtorEq, iff_false]
    cases hr : orNotReachable (getTransaction c rpc (c.keccak256 tx) (singlePayload payload)) with
    | error e =>
      exact not_panics_handed h hr
    | ok tx => simp

/-! ## Receipts -/

/-- A receipt without a status or a type, or too long for a byte string. -/
def Unencodable (receipt : TransactionReceipt) : Prop :=
  receipt.status = none ∨ receipt.transactionType = none ∨
    ∃ status, receipt.status = some status ∧ 2 ^ 63 ≤ (legacyReceipt status receipt).encode.length

/-- The first answer names no block, or a stored block for one of whose transactions the server
    answers a receipt that does not encode. -/
def ReceiptTrips (c : Crates) (w : ExecutionWorld) (txHash : H256) (payloads : Payloads) : Prop :=
  ∃ receipt, (w 0).getTransactionReceipt txHash = .ok (some receipt) ∧
    (receipt.blockNumber = none ∨
      ∃ blockNumber payload receipts, receipt.blockNumber = some blockNumber ∧
        payloads[blockNumber]? = some payload ∧ Answered c w payload receipts ∧
        ∃ unencodable ∈ receipts, Unencodable unencodable)

theorem encodeReceipt_panics_iff {receipt : TransactionReceipt} :
    Panics (encodeReceipt receipt) ↔ Unencodable receipt := by
  unfold encodeReceipt Unencodable
  cases hstatus : receipt.status with
  | none => simp
  | some status =>
    simp only [reduceCtorEq, false_or, Option.some.injEq, exists_eq_left']
    split
    · rename_i hlen
      exact iff_of_true panics_panic (Or.inr hlen)
    · rename_i hlen
      cases receipt.transactionType with
      | none => simp
      | some txType =>
        simp only [hlen, reduceCtorEq, or_self, iff_false]
        split <;> simp

/-- An encoding that fails is a panic, so any of them decides. -/
theorem encodeReceipts_panics_iff {receipts : List TransactionReceipt} :
    Panics (collectResults encodeReceipt receipts) ↔
      ∃ unencodable ∈ receipts, Unencodable unencodable := by
  constructor
  · rintro ⟨p, hp⟩
    obtain ⟨receipt, hmem, hencode⟩ := collectResults_error hp
    exact ⟨receipt, hmem, encodeReceipt_panics_iff.1 ⟨p, hencode⟩⟩
  · rintro ⟨receipt, hmem, htrips⟩
    rw [← encodeReceipt_panics_iff] at htrips
    obtain ⟨p, hp⟩ := htrips
    cases hall : collectResults encodeReceipt receipts with
    | ok encoded =>
      obtain ⟨i, hi⟩ := List.getElem?_of_mem hmem
      obtain ⟨b, _, hb⟩ := collectResults_getElem? hall hi
      rw [hp] at hb
      cases hb
    | error e =>
      obtain ⟨failing, _, hfails⟩ := collectResults_error hall
      cases e with
      | panic p => exact panics_panic
      | err e =>
        unfold encodeReceipt at hfails
        split at hfails
        · cases hfails
        simp only at hfails
        split at hfails
        · cases hfails
        split at hfails
        · cases hfails
        split at hfails <;> cases hfails

/-- **When `get_transaction_receipt` panics.** -/
theorem getTransactionReceipt_panics_iff {w : ExecutionWorld} {txHash : H256} :
    Panics (getTransactionReceipt c w txHash payloads) ↔ ReceiptTrips c w txHash payloads := by
  unfold getTransactionReceipt ReceiptTrips
  rcases (w 0).getTransactionReceipt txHash with e | _ | receipt
  · simp [answer]
  · simp [answer]
  · simp only [answer, Except.ok.injEq, Option.some.injEq, exists_eq_left']
    cases receipt.blockNumber with
    | none => simp
    | some blockNumber =>
      simp only [reduceCtorEq, false_or, Option.some.injEq]
      cases hpayload : payloads[blockNumber]? with
      | none => simp [hpayload]
      | some payload =>
        simp only
        have hfetch : ¬ Panics (fetchReceipts c (w.drop 1) payload) :=
          not_panics_collectResults fun _ _ => not_panics_orNotReachable not_panics_answer
        have hanswered := @fetchReceipts_ok c w payload
        cases hreceipts : fetchReceipts c (w.drop 1) payload with
        | error e =>
          refine iff_of_false (not_panics_handed hfetch hreceipts) ?_
          rintro ⟨_, found, receipts, rfl, hfound, hall, _⟩
          rw [hpayload] at hfound
          cases hfound
          rw [← hanswered, hreceipts] at hall
          cases hall
        | ok receipts =>
          simp only
          have hencode : (∃ number found others, blockNumber = number ∧
                payloads[number]? = some found ∧ Answered c w found others ∧
                ∃ unencodable ∈ others, Unencodable unencodable) ↔
              Panics (collectResults encodeReceipt receipts) := by
            rw [encodeReceipts_panics_iff]
            constructor
            · rintro ⟨_, found, others, rfl, hfound, hall, hbad⟩
              rw [hpayload] at hfound
              cases hfound
              rw [← hanswered, hreceipts] at hall
              cases hall
              exact hbad
            · intro hbad
              exact ⟨blockNumber, payload, receipts, rfl, hpayload, hanswered.1 hreceipts, hbad⟩
          rw [hencode]
          cases collectResults encodeReceipt receipts with
          | error e => exact panics_error
          | ok encoded =>
            simp only [panics_ok, iff_false]
            split <;> simp

/-! ## Logs -/

/-- The receipt of the log's transaction trips, or it is served without the log, and the log has no
    index to report. -/
def LogTrips (c : Crates) (w : ExecutionWorld) (payloads : Payloads) (log : Log) : Prop :=
  ∃ txHash, log.transactionHash = some txHash ∧
    (ReceiptTrips c w txHash payloads ∨
      log.logIndex = none ∧ ∃ receipt payload receipts,
        Vouched c w txHash payloads receipt payload receipts ∧
          encodeLog log ∉ receipt.logs.map encodeLog)

/-- A filter without upper bound meets an empty map, or the server answers it with few enough logs,
    the first of which that does not pass trips. -/
def LogsTrip (c : Crates) (rpc : ExecutionRpc) (ws : Nat → ExecutionWorld) (filter : Filter)
    (payloads : Payloads) : Prop :=
  (filter.getToBlock = none ∧ filter.getBlockHash = none ∧ lastKey? payloads = none) ∨
    ∃ (bounded : Filter) (logs : List Log) (pos : Nat) (log : Log),
      boundFilter filter payloads = .ok bounded ∧ rpc.getLogs bounded = .ok logs ∧
      logs.length ≤ maxSupportedLogsNumber ∧ logs[pos]? = some log ∧
      (∀ (before : Nat) (earlier : Log), before < pos → logs[before]? = some earlier →
        LogPasses c (ws before) payloads earlier) ∧
      LogTrips c (ws pos) payloads log

theorem boundFilter_panics_iff {filter : Filter} :
    Panics (boundFilter filter payloads) ↔
      filter.getToBlock = none ∧ filter.getBlockHash = none ∧ lastKey? payloads = none := by
  unfold boundFilter
  cases filter.getToBlock with
  | some number => simp
  | none =>
    cases filter.getBlockHash with
    | some hash => simp
    | none =>
      cases lastKey? payloads with
      | none => simp
      | some block =>
        simp only [Option.isNone_none, Bool.and_self, if_true, reduceCtorEq, and_false, iff_false]
        split <;> simp

theorem checkLog_panics_iff {w : ExecutionWorld} {log : Log} :
    Panics (checkLog c w payloads log) ↔ LogTrips c w payloads log := by
  unfold checkLog LogTrips
  cases log.transactionHash with
  | none => simp
  | some txHash =>
    simp only [Option.some.injEq, exists_eq_left']
    rw [← getTransactionReceipt_panics_iff]
    have hserved := @getTransactionReceipt_some c w txHash payloads
    have hnone : (∀ receipt, getTransactionReceipt c w txHash payloads ≠ .ok (some receipt)) →
        ¬ ∃ receipt payload receipts, Vouched c w txHash payloads receipt payload receipts ∧
          encodeLog log ∉ receipt.logs.map encodeLog := by
      rintro h ⟨receipt, payload, receipts, hv, _⟩
      exact h receipt (hserved.2 ⟨payload, receipts, hv⟩)
    rcases hr : getTransactionReceipt c w txHash payloads with e | _ | receipt
    · simp only [hnone (by simp [hr]), and_false, or_false]
      exact panics_error
    · simp only [hnone (by simp [hr]), and_false, or_false, panics_err, panics_ok]
    · have hthis : (∃ receipt payload receipts, Vouched c w txHash payloads receipt payload
          receipts ∧ encodeLog log ∉ receipt.logs.map encodeLog) ↔
          encodeLog log ∉ receipt.logs.map encodeLog := by
        constructor
        · rintro ⟨other, payload, receipts, hv, hmissing⟩
          rw [hserved.2 ⟨payload, receipts, hv⟩] at hr
          cases hr
          exact hmissing
        · intro hmissing
          obtain ⟨payload, receipts, hv⟩ := hserved.1 hr
          exact ⟨receipt, payload, receipts, hv, hmissing⟩
      rw [hthis]
      simp only [panics_ok, false_or]
      split
      · rename_i hmissing
        rw [List.contains_iff_mem] at hmissing
        cases log.logIndex with
        | none => simp [hmissing]
        | some index => simp
      · rename_i hlisted
        rw [not_not, List.contains_iff_mem] at hlisted
        simp [hlisted]

/-- The first log that does not pass trips. -/
theorem checkLogs_panics_iff {ws : Nat → ExecutionWorld} {logs : List Log} :
    Panics (checkLogs c ws payloads logs) ↔ ∃ (pos : Nat) (log : Log), logs[pos]? = some log ∧
      (∀ (before : Nat) (earlier : Log), before < pos → logs[before]? = some earlier →
        LogPasses c (ws before) payloads earlier) ∧
      LogTrips c (ws pos) payloads log := by
  unfold checkLogs
  rw [collectResults_panics_iff]
  simp only [List.getElem?_mapIdx, Option.map_eq_some_iff, ← checkLog_panics_iff,
    ← checkLog_ok_iff]
  constructor
  · rintro ⟨pos, _, ⟨log, hlog, rfl⟩, hbefore, hpanics⟩
    refine ⟨pos, log, hlog, fun before earlier hlt hearlier => ?_, hpanics⟩
    obtain ⟨_, hpass⟩ := hbefore before _ hlt ⟨earlier, hearlier, rfl⟩
    exact hpass
  · rintro ⟨pos, log, hlog, hbefore, hpanics⟩
    refine ⟨pos, _, ⟨log, hlog, rfl⟩, ?_, hpanics⟩
    rintro before _ hlt ⟨earlier, hearlier, rfl⟩
    exact ⟨(), hbefore before earlier hlt hearlier⟩

/-- **When `get_logs` panics.** -/
theorem getLogs_panics_iff {rpc : ExecutionRpc} {ws : Nat → ExecutionWorld} {filter : Filter} :
    Panics (getLogs c rpc ws filter payloads) ↔ LogsTrip c rpc ws filter payloads := by
  unfold getLogs LogsTrip
  rw [← boundFilter_panics_iff]
  cases hbounded : boundFilter filter payloads with
  | error e => simpa using panics_error
  | ok bounded =>
    simp only [panics_ok, false_or, Except.ok.injEq]
    cases hlogs : rpc.getLogs bounded with
    | error e => simp [answer, hlogs]
    | ok logs =>
      simp only [answer]
      split
      · rename_i hlong
        simp only [panics_err, false_iff]
        rintro ⟨_, found, pos, log, rfl, hfound, hshort, _⟩
        rw [hlogs] at hfound
        cases hfound
        omega
      · rename_i hshort
        have htrip := @checkLogs_panics_iff c payloads ws logs
        cases hchecked : checkLogs c ws payloads logs with
        | error e =>
          rw [hchecked] at htrip
          refine panics_error.trans (htrip.trans ?_)
          constructor
          · rintro ⟨pos, log, hlog, hbefore, htrips⟩
            exact ⟨bounded, logs, pos, log, rfl, hlogs, not_lt.1 hshort, hlog, hbefore, htrips⟩
          · rintro ⟨_, found, pos, log, rfl, hfound, _, hlog, hbefore, htrips⟩
            rw [hlogs] at hfound
            cases hfound
            exact ⟨pos, log, hlog, hbefore, htrips⟩
        | ok units =>
          rw [hchecked] at htrip
          simp only [panics_ok, false_iff] at htrip ⊢
          rintro ⟨_, found, pos, log, rfl, hfound, _, hlog, hbefore, htrips⟩
          rw [hlogs] at hfound
          cases hfound
          exact htrip ⟨pos, log, hlog, hbefore, htrips⟩

/-! ## The EVM -/

namespace ProofDB

variable {db : ProofDB} {w : ExecutionWorld}

/-- An account that is not at hand trips. -/
def BasicTrips (c : Crates) (db : ProofDB) (w : ExecutionWorld) (address : Address) : Prop :=
  isPrecompile address = false ∧ db.accounts[address]? = none ∧
    AccountTrips c (w 0) address [] db.currentPayload

/-- A slot that is not at hand trips. -/
def StorageTrips (c : Crates) (db : ProofDB) (w : ExecutionWorld) (address : Address)
    (slot : U256) : Prop :=
  (∀ account, db.accounts[address]? = some account → account.slots[slotOf slot]? = none) ∧
    AccountTrips c (w 0) address [slotOf slot] db.currentPayload

theorem basic_panics_iff {address : Address} :
    Panics (db.basic c w address) ↔ BasicTrips c db w address := by
  unfold basic BasicTrips
  cases isPrecompile address with
  | true => simp
  | false =>
    simp only [Bool.false_eq_true, if_false, true_and]
    cases db.accounts[address]? with
    | some account => simp
    | none =>
      have hfetch : Panics (db.getAccount c w address []) ↔
          AccountTrips c (w 0) address [] db.currentPayload := getAccount_panics_iff
      simp only [true_and, ← hfetch]
      cases db.getAccount c w address [] with
      | error e => exact panics_error
      | ok account => simp

theorem fetchSlot_panics_iff {address : Address} {slot : H256} :
    Panics (db.fetchSlot c w address slot) ↔
      AccountTrips c (w 0) address [slot] db.currentPayload := by
  have hfetch : Panics (db.getAccount c w address [slot]) ↔
      AccountTrips c (w 0) address [slot] db.currentPayload := getAccount_panics_iff
  unfold fetchSlot
  rw [← hfetch]
  cases db.getAccount c w address [slot] with
  | error e => exact panics_error
  | ok account =>
    simp only [panics_ok, iff_false]
    split <;> simp

theorem storage_panics_iff {address : Address} {slot : U256} :
    Panics (db.storage c w address slot) ↔ StorageTrips c db w address slot := by
  unfold storage StorageTrips
  simp only
  cases db.accounts[address]? with
  | none => simp [fetchSlot_panics_iff]
  | some account =>
    simp only [Option.some.injEq, forall_eq']
    cases account.slots[slotOf slot]? with
    | none => simp [fetchSlot_panics_iff]
    | some value => simp

theorem blockHash_panics_iff {number : U256} :
    Panics (db.blockHash number) ↔ 2 ^ 64 ≤ number.toNat := by
  unfold blockHash asU64
  by_cases h : number.toNat < 2 ^ 64
  · rw [if_pos h]
    simp only
    have hnot : ¬ 2 ^ 64 ≤ number.toNat := not_le.2 h
    simp only [hnot, iff_false]
    split <;> simp
  · rw [if_neg h]
    exact iff_of_true panics_panic (not_lt.1 h)

end ProofDB

/-- Along the answers of the database, a question trips. -/
def Program.Trips (c : Crates) (db : ProofDB) : ExecutionWorld → Program → Prop
  | _, .done _ => False
  | w, .basic address next =>
    db.BasicTrips c w address ∨
      ∃ answer, asAnswer (db.basic c w address) = .ok answer ∧ (next answer).Trips c db (w.drop 2)
  | w, .storage address slot next =>
    db.StorageTrips c w address slot ∨
      ∃ answer, asAnswer (db.storage c w address slot) = .ok answer ∧
        (next answer).Trips c db (w.drop 2)
  | w, .blockHash number next =>
    2 ^ 64 ≤ number.toNat ∨
      ∃ answer, asAnswer (db.blockHash number) = .ok answer ∧ (next answer).Trips c db (w.drop 2)
  | w, .codeByHash codeHash next =>
    ∃ answer, asAnswer (ProofDB.codeByHash codeHash) = .ok answer ∧
      (next answer).Trips c db (w.drop 2)

/-- **When a program panics.** -/
theorem Program.run_panics_iff {db : ProofDB} {program : Program} :
    ∀ {w : ExecutionWorld}, Panics (program.run c db w) ↔ program.Trips c db w := by
  induction program with
  | done result =>
    intro w
    simp [Program.run, Program.Trips]
  | basic address next ih =>
    intro w
    rw [Program.run, Program.Trips, ← ProofDB.basic_panics_iff]
    rcases db.basic c w address with (e | p) | account <;> simp [asAnswer, ih]
  | storage address slot next ih =>
    intro w
    rw [Program.run, Program.Trips, ← ProofDB.storage_panics_iff]
    rcases db.storage c w address slot with (e | p) | value <;> simp [asAnswer, ih]
  | blockHash number next ih =>
    intro w
    rw [Program.run, Program.Trips, ← @ProofDB.blockHash_panics_iff db]
    rcases db.blockHash number with (e | p) | hash <;> simp [asAnswer, ih]
  | codeByHash codeHash next ih =>
    intro w
    rw [Program.run, Program.Trips]
    simp [ProofDB.codeByHash, asAnswer, ih]

/-! ## Calls -/

/-- The gas of a request does not fit 64 bits. -/
def GasTooLarge (opts : CallOpts) : Prop := ∃ gas, opts.gas = some gas ∧ 2 ^ 64 ≤ gas.toNat

/-- An account of the access list trips. -/
def PrefetchTrips (c : Crates) (w : ExecutionWorld) (payload : ExecutionPayload)
    (list : List AccessListItem) : Prop :=
  ∃ (i : Nat) (item : AccessListItem), list[i]? = some item ∧
    AccountTrips c (w (2 * i)) item.address item.storageKeys payload

/-- The server answers with an access list, and an account of it trips, or the gas is too large, or
    the program of the call trips on the accounts fetched ahead. -/
def CallTrips (c : Crates) (evm : Env → Program) (w w' : ExecutionWorld) (db : ProofDB)
    (chainId : UInt64) (opts : CallOpts) : Prop :=
  ∃ list, (w 0).createAccessList opts db.currentPayload.blockNumber = .ok list ∧
    (PrefetchTrips c (w.drop 1) db.currentPayload (accessList list opts db.currentPayload) ∨
      GasTooLarge opts ∨
      ∃ accountMap env,
        fetchAccounts c db.currentPayload (w.drop 1) (accessList list opts db.currentPayload) ∅ =
          .ok accountMap ∧
        getEnv db.currentPayload chainId opts = .ok env ∧
        (evm env).Trips c (db.setAccounts accountMap) w')

/-- An account that fails is skipped, so any that trips decides. -/
theorem fetchAccounts_panics_iff : ∀ {list : List AccessListItem} {w : ExecutionWorld}
    {accountMap : Std.HashMap Address Account},
    Panics (fetchAccounts c payload w list accountMap) ↔ PrefetchTrips c w payload list
  | [], _, _ => by simp [fetchAccounts, PrefetchTrips]
  | item :: rest, w, accountMap => by
    have hfirst : PrefetchTrips c w payload (item :: rest) ↔
        AccountTrips c (w 0) item.address item.storageKeys payload ∨
          PrefetchTrips c (w.drop 2) payload rest := by
      constructor
      · rintro ⟨i, found, hi, htrips⟩
        cases i with
        | zero =>
          cases hi
          exact Or.inl htrips
        | succ i => exact Or.inr ⟨i, found, hi, htrips⟩
      · rintro (htrips | ⟨i, found, hi, htrips⟩)
        · exact ⟨0, item, rfl, htrips⟩
        · exact ⟨i + 1, found, hi, htrips⟩
    have haccount : Panics (getAccount c w item.address (some item.storageKeys) payload) ↔
        AccountTrips c (w 0) item.address item.storageKeys payload := getAccount_panics_iff
    rw [fetchAccounts, hfirst, ← haccount]
    rcases getAccount c w item.address (some item.storageKeys) payload with (e | p) | account
    · simp [fetchAccounts_panics_iff]
    · simp
    · simp [fetchAccounts_panics_iff]

theorem getEnv_panics_iff {chainId : UInt64} {opts : CallOpts} :
    Panics (getEnv payload chainId opts) ↔ GasTooLarge opts := by
  unfold getEnv GasTooLarge
  cases opts.gas with
  | none => simp
  | some gas =>
    simp only [Option.some.injEq, exists_eq_left', asU64]
    by_cases h : gas.toNat < 2 ^ 64
    · rw [if_pos h]
      exact iff_of_false panics_ok (not_le.2 h)
    · rw [if_neg h]
      exact iff_of_true panics_panic (not_lt.1 h)

/-- **When an execution of the EVM panics.** -/
theorem transact_panics_iff {evm : Env → Program} {w w' : ExecutionWorld} {db : ProofDB}
    {chainId : UInt64} {opts : CallOpts} :
    Panics (transact c evm w w' db chainId opts) ↔ CallTrips c evm w w' db chainId opts := by
  unfold transact batchFetchAccounts CallTrips
  simp only
  cases (w 0).createAccessList opts db.currentPayload.blockNumber with
  | error e => simp [answer, mapErr]
  | ok list =>
    have hfetch := @fetchAccounts_panics_iff c db.currentPayload
      (accessList list opts db.currentPayload) (w.drop 1) ∅
    simp only [answer, mapErr, Except.ok.injEq, exists_eq_left', ← hfetch]
    rcases hmap : fetchAccounts c db.currentPayload (w.drop 1)
      (accessList list opts db.currentPayload) ∅ with (e | p) | accountMap
    · exact absurd hmap (fetchAccounts_panics e)
    · simp
    · simp only [panics_ok, false_or, Except.ok.injEq]
      rw [← @getEnv_panics_iff db.currentPayload chainId]
      rcases henv : getEnv db.currentPayload chainId opts with (e | p) | env
      · exact absurd henv (getEnv_panics e)
      · simp [ProofDB.setAccounts, henv]
      · simp [Program.run_panics_iff, ProofDB.setAccounts, henv]

theorem evmCall_panics_iff {evm : Env → Program} {w w' : ExecutionWorld} {db : ProofDB}
    {chainId : UInt64} {opts : CallOpts} :
    Panics (evmCall c evm w w' db chainId opts) ↔ CallTrips c evm w w' db chainId opts := by
  rw [← transact_panics_iff, evmCall]
  cases transact c evm w w' db chainId opts with
  | error e => exact panics_error
  | ok tx =>
    simp only [panics_ok, iff_false]
    cases tx.exitReason <;> cases tx.out <;> simp

theorem estimateGas_panics_iff {evm : Env → Program} {scale : UInt64 → UInt64}
    {w w' : ExecutionWorld} {db : ProofDB} {chainId : UInt64} {opts : CallOpts} :
    Panics (estimateGas c evm scale w w' db chainId opts) ↔
      CallTrips c evm w w' db chainId opts := by
  rw [← transact_panics_iff, estimateGas]
  cases transact c evm w w' db chainId opts with
  | error e => exact panics_error
  | ok tx =>
    simp only [panics_ok, iff_false]
    cases tx.exitReason <;> simp

end Helios
