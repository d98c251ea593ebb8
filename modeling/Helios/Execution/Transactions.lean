import Helios.Execution.Client

/-!
# Which transactions are served

`get_transaction` checks that the answered transaction is listed in the stored block it names, not
that it is the one asked for.

* `Offers` — the server answers a request with a transaction that a stored block lists.
* `getTransaction_some`, `fetchTransactions_ok` — **such an answer is served, whatever was asked
  for**.
* `transactions_sound_iff` — the three entry points serve the right transactions exactly when no
  offered transaction stands in for another.
-/

set_option autoImplicit false

namespace Helios

variable {c : Crates} {rpc : ExecutionRpc} {payload : ExecutionPayload} {payloads : Payloads}

/-- A stored block, the one the transaction names, lists it. -/
def StoredIn (c : Crates) (payloads : Payloads) (tx : Transaction) : Prop :=
  ∃ blockNumber payload, tx.blockNumber = some blockNumber ∧
    payloads[blockNumber]? = some payload ∧ c.transactionRlp tx ∈ payload.transactions

/-- The server answers a request with a transaction that a stored block lists. -/
def Offers (c : Crates) (rpc : ExecutionRpc) (payloads : Payloads) (hash : H256)
    (tx : Transaction) : Prop :=
  rpc.getTransaction hash = .ok (some tx) ∧ StoredIn c payloads tx

/-- **What `get_transaction` serves.** -/
theorem getTransaction_some {hash : H256} {tx : Transaction} :
    getTransaction c rpc hash payloads = .ok (some tx) ↔ Offers c rpc payloads hash tx := by
  unfold getTransaction Offers StoredIn
  constructor
  · intro h
    split at h
    · cases h
    · cases h
    rename_i answered hanswer
    rw [answer_ok] at hanswer
    split at h
    · cases h
    rename_i blockNumber hnumber
    split at h
    · cases h
    rename_i payload hpayload
    simp only at h
    split at h
    · cases h
    · rename_i hlisted
      cases h
      rw [not_not, List.contains_iff_mem] at hlisted
      exact ⟨hanswer, blockNumber, payload, hnumber, hpayload, hlisted⟩
  · rintro ⟨hanswer, blockNumber, payload, hnumber, hpayload, hlisted⟩
    rw [hanswer]
    simp only [answer, hnumber, hpayload]
    rw [if_neg (by rw [not_not, List.contains_iff_mem]; exact hlisted)]

theorem getTransactionByBlockHashAndIndex_some {index : Nat} {tx : Transaction} :
    getTransactionByBlockHashAndIndex c rpc payload index = .ok (some tx) ↔
      ∃ encoded, payload.transactions[index]? = some encoded ∧
        Offers c rpc (singlePayload payload) (c.keccak256 encoded) tx := by
  unfold getTransactionByBlockHashAndIndex
  cases hi : payload.transactions[index]? with
  | none => simp
  | some encoded =>
    simp only [Option.some.injEq, exists_eq_left']
    rw [← getTransaction_some]
    refine Iff.trans ?_ orNotReachable_ok
    cases orNotReachable (getTransaction c rpc (c.keccak256 encoded) (singlePayload payload)) <;>
      simp

/-- The transactions of a full block: one offered transaction for each of the payload's. -/
theorem fetchTransactions_ok {w : ExecutionWorld} {txs : List Transaction} :
    fetchTransactions c w payload = .ok txs ↔
      txs.length = payload.transactions.length ∧
        ∀ i encoded tx, payload.transactions[i]? = some encoded → txs[i]? = some tx →
          Offers c (w i) (singlePayload payload) (c.keccak256 encoded) tx := by
  unfold fetchTransactions txHashes
  rw [collectResults_mapIdx (f := fun i hash =>
    orNotReachable (getTransaction c (w i) hash (singlePayload payload))), List.length_map]
  simp only [orNotReachable_ok, getTransaction_some, List.getElem?_map, Option.map_eq_some_iff,
    forall_exists_index, and_imp]
  constructor
  · rintro ⟨hlen, h⟩
    exact ⟨hlen, fun i encoded tx hi htx => h i _ tx encoded hi rfl htx⟩
  · rintro ⟨hlen, h⟩
    refine ⟨hlen, ?_⟩
    rintro i _ tx encoded hi rfl htx
    exact h i encoded tx hi htx

theorem getBlock_full {w : ExecutionWorld} {block : ExecutionBlock}
    (h : getBlock c w payload true = .ok block) :
    ∃ txs, fetchTransactions c w payload = .ok txs ∧ block.transactions = .full txs := by
  unfold getBlock at h
  simp only [if_true] at h
  cases hf : fetchTransactions c w payload with
  | error e =>
    rw [hf] at h
    cases h
  | ok txs =>
    rw [hf] at h
    cases h
    exact ⟨txs, rfl, rfl⟩

theorem getBlock_of_fetch {w : ExecutionWorld} {txs : List Transaction}
    (h : fetchTransactions c w payload = .ok txs) :
    ∃ block, getBlock c w payload true = .ok block ∧ block.transactions = .full txs := by
  unfold getBlock
  simp only [if_true, h]
  exact ⟨_, rfl, rfl⟩

/-- The answers to the requests of a full block, if every one offers a transaction. -/
theorem exists_offers {w : ExecutionWorld}
    (h : ∀ i encoded, payload.transactions[i]? = some encoded →
      ∃ tx, Offers c (w i) (singlePayload payload) (c.keccak256 encoded) tx) :
    ∃ txs, fetchTransactions c w payload = .ok txs := by
  choose pick hpick using fun i : Fin payload.transactions.length =>
    h i.val payload.transactions[i.val] (List.getElem?_eq_getElem i.isLt)
  refine ⟨List.ofFn pick, fetchTransactions_ok.2 ⟨List.length_ofFn, fun i encoded tx hi htx => ?_⟩⟩
  obtain ⟨hlt, rfl⟩ := List.getElem?_eq_some_iff.1 hi
  obtain ⟨_, rfl⟩ := List.getElem?_eq_some_iff.1 htx
  rw [List.getElem_ofFn]
  exact hpick ⟨i, hlt⟩

/-- The transaction served at an index is the one that is offered for it. -/
theorem fetchTransactions_at {w : ExecutionWorld} {txs : List Transaction} {i : Nat}
    {encoded : Bytes} (h : fetchTransactions c w payload = .ok txs)
    (hi : payload.transactions[i]? = some encoded) :
    ∃ tx, txs[i]? = some tx ∧ Offers c (w i) (singlePayload payload) (c.keccak256 encoded) tx := by
  obtain ⟨hlen, hoffers⟩ := fetchTransactions_ok.1 h
  have hlt : i < txs.length := by
    rw [hlen]
    exact (List.getElem?_eq_some_iff.1 hi).1
  have hget := List.getElem?_eq_getElem hlt
  exact ⟨_, hget, hoffers i encoded _ hi hget⟩

/-- A full block lists the payload's transactions unless it cannot be fetched, or another
    transaction is offered for one of them. -/
theorem getBlock_sound_iff {w : ExecutionWorld} {payload : ExecutionPayload} :
    (∀ block, getBlock c w payload true = .ok block →
      ∃ txs, block.transactions = .full txs ∧
        txs.map c.transactionRlp = payload.transactions) ↔
      (∃ i encoded, payload.transactions[i]? = some encoded ∧
        ∀ tx, ¬ Offers c (w i) (singlePayload payload) (c.keccak256 encoded) tx) ∨
      ∀ i encoded, payload.transactions[i]? = some encoded →
        ∀ tx, Offers c (w i) (singlePayload payload) (c.keccak256 encoded) tx →
          c.transactionRlp tx = encoded := by
  constructor
  · intro h
    by_cases hall : ∀ i encoded, payload.transactions[i]? = some encoded →
        ∃ tx, Offers c (w i) (singlePayload payload) (c.keccak256 encoded) tx
    · right
      intro i encoded hi tx hoffer
      obtain ⟨txs, htxs⟩ := exists_offers hall
      obtain ⟨block, hblock, hfull⟩ := getBlock_of_fetch htxs
      obtain ⟨txs', hfull', hmap⟩ := h block hblock
      obtain rfl : txs = txs' := Transactions.full.inj (hfull.symm.trans hfull')
      -- the one answer to request `i` is the transaction served at `i`
      obtain ⟨served, hserved, hoffered⟩ := fetchTransactions_at htxs hi
      have heq : served = tx := by
        have := hoffered.1.symm.trans hoffer.1
        simpa using this
      have hget := congrArg (·[i]?) hmap
      simp only [List.getElem?_map, hserved, Option.map_some, hi, Option.some.injEq, heq] at hget
      exact hget
    · left
      push Not at hall
      exact hall
  · intro h block hblock
    obtain ⟨txs, htxs, hfull⟩ := getBlock_full hblock
    refine ⟨txs, hfull, ?_⟩
    rcases h with ⟨i, encoded, hi, hno⟩ | h
    · obtain ⟨served, _, hoffered⟩ := fetchTransactions_at htxs hi
      exact absurd hoffered (hno served)
    · apply List.ext_getElem?
      intro i
      rw [List.getElem?_map]
      cases hi : payload.transactions[i]? with
      | none =>
        have hge : txs.length ≤ i := by
          rw [(fetchTransactions_ok.1 htxs).1]
          exact List.getElem?_eq_none_iff.1 hi
        rw [List.getElem?_eq_none hge, Option.map_none]
      | some encoded =>
        obtain ⟨served, hserved, hoffered⟩ := fetchTransactions_at htxs hi
        rw [hserved, Option.map_some, h i encoded hi served hoffered]

/-- **Which transactions are served.**  `get_transaction` serves the requested transaction,
    `get_transaction_by_block_hash_and_index` the one at the index, and `get_block` exactly the
    payload's in their order, if and only if the server does not offer another transaction of a
    stored block in their place (for `get_block`, or leaves a request without an offer). -/
theorem transactions_sound_iff (c : Crates) :
    (∀ (rpc : ExecutionRpc) (hash : H256) (payloads : Payloads),
      (∀ tx, getTransaction c rpc hash payloads = .ok (some tx) →
        c.keccak256 (c.transactionRlp tx) = hash ∧ StoredIn c payloads tx) ↔
      ∀ tx, Offers c rpc payloads hash tx → c.keccak256 (c.transactionRlp tx) = hash) ∧
    (∀ (rpc : ExecutionRpc) (payload : ExecutionPayload) (index : Nat),
      (∀ tx, getTransactionByBlockHashAndIndex c rpc payload index = .ok (some tx) →
        payload.transactions[index]? = some (c.transactionRlp tx)) ↔
      ∀ encoded, payload.transactions[index]? = some encoded →
        ∀ tx, Offers c rpc (singlePayload payload) (c.keccak256 encoded) tx →
          c.transactionRlp tx = encoded) ∧
    (∀ (w : ExecutionWorld) (payload : ExecutionPayload),
      (∀ block, getBlock c w payload true = .ok block →
        ∃ txs, block.transactions = .full txs ∧
          txs.map c.transactionRlp = payload.transactions) ↔
      (∃ i encoded, payload.transactions[i]? = some encoded ∧
        ∀ tx, ¬ Offers c (w i) (singlePayload payload) (c.keccak256 encoded) tx) ∨
      ∀ i encoded, payload.transactions[i]? = some encoded →
        ∀ tx, Offers c (w i) (singlePayload payload) (c.keccak256 encoded) tx →
          c.transactionRlp tx = encoded) := by
  refine ⟨fun rpc hash payloads => ?_, fun rpc payload index => ?_, fun w payload =>
    getBlock_sound_iff⟩
  · simp only [getTransaction_some]
    exact ⟨fun h tx hoffer => (h tx hoffer).1, fun h tx hoffer => ⟨h tx hoffer, hoffer.2⟩⟩
  · simp only [getTransactionByBlockHashAndIndex_some]
    constructor
    · intro h encoded hencoded tx hoffer
      have := h tx ⟨encoded, hencoded, hoffer⟩
      rw [hencoded, Option.some.injEq] at this
      exact this.symm
    · rintro h tx ⟨encoded, hencoded, hoffer⟩
      rw [hencoded, h encoded hencoded tx hoffer]

/-! ## A substituted transaction -/

/-- A signed transfer. -/
def transferRlp (nonce value : Nat) (recipient : Address) : Bytes :=
  (Rlp.Item.list [.str (Rlp.natBytes nonce), .str (Rlp.natBytes 1000000000),
    .str (Rlp.natBytes 21000), .str recipient.toList, .str (Rlp.natBytes value), .str [],
    .str [37], .str [1], .str [1]]).encode

def askedRlp : Bytes := transferRlp 0 1 (Vector.replicate 20 0x11)

def otherRlp : Bytes := transferRlp 1 2 (Vector.replicate 20 0x22)

/-- `keccak256` on the two transfers; a transaction keeps its encoding as its content. -/
def transferCrates : Crates where
  keccak256 := digestTable [
    (askedRlp, beBytes 32 0xac21cc79e66b745026654e62317c1bc4e5ee8ea51993b93d8e4f1338d3409227),
    (otherRlp, beBytes 32 0x20c58ccad79818fedf2cbbc085cb2c1df9d5e3a3285b5ff2978074dc7347e46c)]
  decodeList := readList
  orderedTrieRoot := fun _ => zeroBytes 32
  transactionRlp := Transaction.body

/-- A block with the two transfers. -/
def transferPayload : ExecutionPayload :=
  { (default : ExecutionPayload) with blockNumber := 7, transactions := [askedRlp, otherRlp] }

def otherTransaction : Transaction where
  hash := transferCrates.keccak256 askedRlp
  blockNumber := some 7
  body := otherRlp

/-- A server that answers every request for a transaction with the second transfer. -/
def substitutingRpc : ExecutionRpc where
  getProof := fun _ _ _ => .error (.rpc "get_proof")
  createAccessList := fun _ _ => .error (.rpc "create_access_list")
  getCode := fun _ _ => .error (.rpc "get_code")
  getTransactionReceipt := fun _ => .ok none
  getTransaction := fun _ => .ok (some otherTransaction)

/-- Asked for the first transfer, `get_transaction` serves the second. -/
theorem getTransaction_unsound :
    ¬ ∀ (c : Crates) (rpc : ExecutionRpc) (hash : H256) (payloads : Payloads) (tx : Transaction),
      getTransaction c rpc hash payloads = .ok (some tx) →
        c.keccak256 (c.transactionRlp tx) = hash ∧ StoredIn c payloads tx := by
  intro h
  have hserved : getTransaction transferCrates substitutingRpc (transferCrates.keccak256 askedRlp)
      (singlePayload transferPayload) = .ok (some otherTransaction) := by
    decide +kernel
  have hsame := (h _ _ _ _ _ hserved).1
  revert hsame
  decide +kernel

end Helios
