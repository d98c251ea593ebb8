import Helios.Execution.Encoding
import Helios.Execution.Transactions

/-!
# Which receipts are served

`get_transaction_receipt` binds the list of all receipts of a block to its receipts root, and then
looks whether the first answer is somewhere in that list.

* `Vouched`, `getTransactionReceipt_some` — what the server has to answer for a receipt to be
  served.
* `receipt_sound_iff` — the receipt served is that of the requested transaction exactly when the
  server's first answer is.
-/

set_option autoImplicit false

namespace Helios

variable {c : Crates} {w : ExecutionWorld} {txHash : H256} {payload : ExecutionPayload}
  {payloads : Payloads}

/-! ## What the server answers -/

/-- The server's receipts for the transactions of a payload, in order. -/
structure Answered (c : Crates) (w : ExecutionWorld) (payload : ExecutionPayload)
    (receipts : List TransactionReceipt) : Prop where
  length : receipts.length = payload.transactions.length
  answer : ∀ i encoded receipt, payload.transactions[i]? = some encoded →
    receipts[i]? = some receipt →
      (w (i + 1)).getTransactionReceipt (c.keccak256 encoded) = .ok (some receipt)

/-- The server's answers pass the check: the first one names a stored block, the receipts for the
    transactions of that block hash to its receipts root, and the first one is among them. -/
structure Vouched (c : Crates) (w : ExecutionWorld) (txHash : H256) (payloads : Payloads)
    (receipt : TransactionReceipt) (payload : ExecutionPayload)
    (receipts : List TransactionReceipt) : Prop where
  first : (w 0).getTransactionReceipt txHash = .ok (some receipt)
  stored : ∃ blockNumber, receipt.blockNumber = some blockNumber ∧
    payloads[blockNumber]? = some payload
  answered : Answered c w payload receipts
  root : ∃ encoded, collectResults encodeReceipt receipts = .ok encoded ∧
    c.orderedTrieRoot encoded = payload.receiptsRoot
  listed : receipt ∈ receipts

theorem fetchReceipts_ok {receipts : List TransactionReceipt} :
    fetchReceipts c (w.drop 1) payload = .ok receipts ↔ Answered c w payload receipts := by
  unfold fetchReceipts txHashes
  rw [collectResults_mapIdx (f := fun i hash =>
    orNotReachable (Helios.answer ((w.drop 1 i).getTransactionReceipt hash))), List.length_map]
  simp only [orNotReachable_ok, answer_ok, List.getElem?_map, Option.map_eq_some_iff,
    forall_exists_index, and_imp]
  constructor
  · rintro ⟨hlen, h⟩
    exact ⟨hlen, fun i encoded receipt hi hr => h i _ receipt encoded hi rfl hr⟩
  · rintro ⟨hlen, h⟩
    refine ⟨hlen, ?_⟩
    rintro i _ receipt encoded hi rfl hr
    exact h i encoded receipt hi hr

/-- **What `get_transaction_receipt` serves.** -/
theorem getTransactionReceipt_some {receipt : TransactionReceipt} :
    getTransactionReceipt c w txHash payloads = .ok (some receipt) ↔
      ∃ payload receipts, Vouched c w txHash payloads receipt payload receipts := by
  unfold getTransactionReceipt
  constructor
  · intro h
    split at h
    · cases h
    · cases h
    rename_i first hfirst
    rw [answer_ok] at hfirst
    split at h
    · cases h
    rename_i blockNumber hnumber
    split at h
    · cases h
    rename_i payload hpayload
    split at h
    · cases h
    rename_i receipts hreceipts
    split at h
    · cases h
    rename_i encoded hencoded
    simp only at h
    split at h
    · cases h
    · rename_i hcheck
      cases h
      rw [not_or, not_not, not_not] at hcheck
      exact ⟨payload, receipts, hfirst, ⟨blockNumber, hnumber, hpayload⟩,
        fetchReceipts_ok.1 hreceipts, ⟨encoded, hencoded, hcheck.1⟩, hcheck.2⟩
  · rintro ⟨payload, receipts, h⟩
    obtain ⟨blockNumber, hnumber, hpayload⟩ := h.stored
    obtain ⟨encoded, hencoded, hroot⟩ := h.root
    rw [h.first]
    simp only [answer, hnumber, hpayload, fetchReceipts_ok.2 h.answered, hencoded]
    rw [if_neg]
    rw [not_or, not_not, not_not]
    exact ⟨hroot, h.listed⟩

/-! ## Soundness -/

/-- The true receipts of a payload: one for each transaction, committed to by the receipts root. -/
structure Commits (c : Crates) (payload : ExecutionPayload)
    (receipts : List TransactionReceipt) : Prop where
  length : receipts.length = payload.transactions.length
  root : ∃ encoded, collectResults encodeReceipt receipts = .ok encoded ∧
    c.orderedTrieRoot encoded = payload.receiptsRoot
  types : ∀ receipt ∈ receipts, EnvelopeType receipt

/-- The receipt is that of the requested transaction, which a stored payload lists. -/
def ReceiptSound (c : Crates) (payloads : Payloads)
    (truth : ExecutionPayload → List TransactionReceipt) (txHash : H256)
    (receipt : TransactionReceipt) : Prop :=
  receipt.transactionHash = txHash ∧ ∃ (blockNumber : UInt64) (payload : ExecutionPayload) (i : Nat)
    (true' : TransactionReceipt), payloads[blockNumber]? = some payload ∧
      (txHashes c payload)[i]? = some txHash ∧ (truth payload)[i]? = some true' ∧
      receipt.fields = true'.fields

/-- The first answer is a receipt of the requested transaction: it carries the hash and a type that
    its encoding shows, and encodes like the server's own answer at the place of the transaction in
    the block (or, if another stored block lists the transaction too, like the receipt there). -/
def RightAnswer (c : Crates) (payloads : Payloads)
    (truth : ExecutionPayload → List TransactionReceipt) (txHash : H256)
    (receipt : TransactionReceipt) (payload : ExecutionPayload)
    (receipts : List TransactionReceipt) : Prop :=
  receipt.transactionHash = txHash ∧ EnvelopeType receipt ∧
    ((∃ (i : Nat) (other : TransactionReceipt), (txHashes c payload)[i]? = some txHash ∧
        receipts[i]? = some other ∧ encodeReceipt receipt = encodeReceipt other) ∨
      ∃ (blockNumber : UInt64) (elsewhere : ExecutionPayload) (i : Nat)
        (other : TransactionReceipt), receipt.blockNumber ≠ some blockNumber ∧
          payloads[blockNumber]? = some elsewhere ∧ (txHashes c elsewhere)[i]? = some txHash ∧
          (truth elsewhere)[i]? = some other ∧ encodeReceipt receipt = encodeReceipt other)

/-- The server's receipts encode like the true ones, unless they collide with them. -/
theorem Vouched.agree {receipt : TransactionReceipt} {receipts truth : List TransactionReceipt}
    (h : Vouched c w txHash payloads receipt payload receipts) (htruth : Commits c payload truth)
    (hroot : ∀ encoded encoded', collectResults encodeReceipt receipts = .ok encoded →
      collectResults encodeReceipt truth = .ok encoded' →
      c.orderedTrieRoot encoded = c.orderedTrieRoot encoded' → encoded = encoded') :
    ∃ encoded, collectResults encodeReceipt receipts = .ok encoded ∧
      collectResults encodeReceipt truth = .ok encoded := by
  obtain ⟨encoded, hencoded, hr⟩ := h.root
  obtain ⟨encoded', hencoded', hr'⟩ := htruth.root
  have heq := hroot _ _ hencoded hencoded' (hr.trans hr'.symm)
  exact ⟨encoded, hencoded, heq ▸ hencoded'⟩

/-- **Which receipts are served.**  Let the stored payloads be authentic, each with its true
    receipts, and let no list of receipts that the server answers collide with a true one under
    the ordered trie root.  Then the receipt served is always that of the requested transaction if
    and only if the first answer is, whenever the answers pass the check. -/
theorem receipt_sound_iff (c : Crates) (w : ExecutionWorld) (txHash : H256) (payloads : Payloads)
    (truth : ExecutionPayload → List TransactionReceipt)
    (htruth : ∀ (blockNumber : UInt64) (payload : ExecutionPayload),
      payloads[blockNumber]? = some payload → Commits c payload (truth payload))
    (hroot : ∀ (blockNumber : UInt64) (payload : ExecutionPayload)
      (receipts : List TransactionReceipt) (encoded encoded' : List Bytes),
      payloads[blockNumber]? = some payload → Answered c w payload receipts →
      collectResults encodeReceipt receipts = .ok encoded →
      collectResults encodeReceipt (truth payload) = .ok encoded' →
      c.orderedTrieRoot encoded = c.orderedTrieRoot encoded' → encoded = encoded') :
    (∀ receipt, getTransactionReceipt c w txHash payloads = .ok (some receipt) →
        ReceiptSound c payloads truth txHash receipt) ↔
      ∀ receipt payload receipts, Vouched c w txHash payloads receipt payload receipts →
        RightAnswer c payloads truth txHash receipt payload receipts := by
  -- the server's receipts encode like the true ones
  have hagree : ∀ {receipt payload receipts}, Vouched c w txHash payloads receipt payload receipts →
      ∃ encoded, collectResults encodeReceipt receipts = .ok encoded ∧
        collectResults encodeReceipt (truth payload) = .ok encoded := by
    intro receipt payload receipts h
    obtain ⟨blockNumber, _, hpayload⟩ := h.stored
    exact h.agree (htruth _ _ hpayload) fun _ _ => hroot _ _ _ _ _ hpayload h.answered
  constructor
  · intro h receipt payload receipts hv
    obtain ⟨hhash, blockNumber, found, i, true', hfound, hi, htrue, hfields⟩ :=
      h receipt (getTransactionReceipt_some.2 ⟨payload, receipts, hv⟩)
    have htype : EnvelopeType receipt :=
      .of_fields hfields ((htruth _ _ hfound).types _ (List.mem_of_getElem? htrue))
    refine ⟨hhash, htype, ?_⟩
    by_cases hsame : receipt.blockNumber = some blockNumber
    · left
      obtain ⟨blockNumber', hnumber, hpayload⟩ := hv.stored
      obtain rfl := Option.some.inj (hnumber.symm.trans hsame)
      obtain rfl := Option.some.inj (hpayload.symm.trans hfound)
      obtain ⟨encoded, hencoded, hencoded'⟩ := hagree hv
      obtain ⟨other, hother, b, hb, hb'⟩ := encodings_agree hencoded' hencoded htrue
      exact ⟨i, other, hi, hother, by rw [encodeReceipt_of_fields hfields, hb, hb']⟩
    · exact Or.inr ⟨blockNumber, found, i, true', hsame, hfound, hi, htrue,
        encodeReceipt_of_fields hfields⟩
  · intro h receipt hserved
    obtain ⟨payload, receipts, hv⟩ := getTransactionReceipt_some.1 hserved
    obtain ⟨hhash, htype, hplace⟩ := h receipt payload receipts hv
    refine ⟨hhash, ?_⟩
    rcases hplace with ⟨i, other, hi, hother, heq⟩ |
      ⟨blockNumber, found, i, other, _, hfound, hi, hother, heq⟩
    · obtain ⟨blockNumber, _, hpayload⟩ := hv.stored
      obtain ⟨encoded, hencoded, hencoded'⟩ := hagree hv
      obtain ⟨true', htrue, b, hb, hb'⟩ := encodings_agree hencoded hencoded' hother
      have htype' := (htruth _ _ hpayload).types _ (List.mem_of_getElem? htrue)
      exact ⟨blockNumber, payload, i, true', hpayload, hi, htrue,
        encodeReceipt_fields (heq.trans hb) hb' htype htype'⟩
    · obtain ⟨encoded, hencoded, _⟩ := (htruth _ _ hfound).root
      obtain ⟨b, _, hb⟩ := collectResults_getElem? hencoded hother
      have htype' := (htruth _ _ hfound).types _ (List.mem_of_getElem? hother)
      exact ⟨blockNumber, found, i, other, hfound, hi, hother,
        encodeReceipt_fields (heq.trans hb) hb htype htype'⟩

/-! ## A receipt in another's place -/

/-- The receipt of a successful transfer without logs. -/
def transferReceipt (encoded : Bytes) (cumulativeGasUsed : U256) : TransactionReceipt where
  transactionHash := transferCrates.keccak256 encoded
  blockNumber := some 7
  cumulativeGasUsed := cumulativeGasUsed
  logs := []
  status := some 1
  logsBloom := zeroBytes 256
  transactionType := some 0
  rest := []

def askedReceipt : TransactionReceipt := transferReceipt askedRlp 21000

def otherReceipt : TransactionReceipt := transferReceipt otherRlp 42000

def transferEncodings : List Bytes :=
  [(legacyReceipt 1 askedReceipt).encode, (legacyReceipt 1 otherReceipt).encode]

def transferReceiptsRoot : H256 :=
  beBytes 32 0xd95b673818fa493deec414e01e610d97ee287c9421c8eff4102b1647c1a184e4

/-- The functions of `transferCrates`, with the ordered trie root of the two receipts. -/
def receiptCrates : Crates :=
  { transferCrates with
    orderedTrieRoot := fun encoded =>
      if encoded = transferEncodings then transferReceiptsRoot else zeroBytes 32 }

/-- The block with the two transfers and their receipts. -/
def receiptPayload : ExecutionPayload :=
  { transferPayload with receiptsRoot := transferReceiptsRoot }

/-- A server that first answers with the second receipt, and then honestly. -/
def misplacingWorld : ExecutionWorld := fun i =>
  { substitutingRpc with
    getTransactionReceipt := fun hash =>
      if i = 0 ∨ hash ≠ askedReceipt.transactionHash then .ok (some otherReceipt)
      else .ok (some askedReceipt) }

theorem transferEncodings_ok :
    collectResults encodeReceipt [askedReceipt, otherReceipt] = .ok transferEncodings := by
  decide +kernel

theorem receiptCrates_orderedTrieRoot :
    receiptCrates.orderedTrieRoot transferEncodings = transferReceiptsRoot := by
  simp only [receiptCrates, if_true]

theorem transferReceiptsRoot_ne : zeroBytes 32 ≠ transferReceiptsRoot := by
  decide +kernel

theorem receiptPayload_commits (blockNumber : UInt64) (payload : ExecutionPayload)
    (h : (singlePayload receiptPayload)[blockNumber]? = some payload) :
    Commits receiptCrates payload [askedReceipt, otherReceipt] := by
  rw [singlePayload_getElem? h]
  refine ⟨rfl, ⟨transferEncodings, transferEncodings_ok, receiptCrates_orderedTrieRoot⟩, fun receipt hr => ?_⟩
  simp only [List.mem_cons, List.not_mem_nil, or_false] at hr
  rcases hr with rfl | rfl <;> exact ⟨0, rfl, by decide⟩

theorem receiptCrates_root (blockNumber : UInt64) (payload : ExecutionPayload)
    (receipts : List TransactionReceipt) (encoded encoded' : List Bytes)
    (_ : (singlePayload receiptPayload)[blockNumber]? = some payload)
    (_ : Answered receiptCrates misplacingWorld payload receipts)
    (_ : collectResults encodeReceipt receipts = .ok encoded)
    (h : collectResults encodeReceipt [askedReceipt, otherReceipt] = .ok encoded')
    (heq : receiptCrates.orderedTrieRoot encoded = receiptCrates.orderedTrieRoot encoded') :
    encoded = encoded' := by
  rw [transferEncodings_ok, Except.ok.injEq] at h
  subst h
  simp only [receiptCrates, if_true] at heq
  split at heq
  · assumption
  · exact absurd heq transferReceiptsRoot_ne

theorem receipt_sound_transfers :
    (∀ receipt, getTransactionReceipt receiptCrates misplacingWorld askedReceipt.transactionHash
        (singlePayload receiptPayload) = .ok (some receipt) →
      ReceiptSound receiptCrates (singlePayload receiptPayload)
        (fun _ => [askedReceipt, otherReceipt]) askedReceipt.transactionHash receipt) ↔
      ∀ receipt payload receipts,
        Vouched receiptCrates misplacingWorld askedReceipt.transactionHash
          (singlePayload receiptPayload) receipt payload receipts →
        RightAnswer receiptCrates (singlePayload receiptPayload)
          (fun _ => [askedReceipt, otherReceipt]) askedReceipt.transactionHash receipt payload
          receipts :=
  receipt_sound_iff receiptCrates misplacingWorld askedReceipt.transactionHash
    (singlePayload receiptPayload) (fun _ => [askedReceipt, otherReceipt]) receiptPayload_commits
    receiptCrates_root

/-- Asked for the first receipt, `get_transaction_receipt` serves the second. -/
theorem receipt_unsound :
    ¬ ∀ (c : Crates) (w : ExecutionWorld) (txHash : H256) (payloads : Payloads)
      (truth : ExecutionPayload → List TransactionReceipt),
      (∀ (blockNumber : UInt64) (payload : ExecutionPayload),
        payloads[blockNumber]? = some payload → Commits c payload (truth payload)) →
      (∀ (blockNumber : UInt64) (payload : ExecutionPayload)
        (receipts : List TransactionReceipt) (encoded encoded' : List Bytes),
        payloads[blockNumber]? = some payload → Answered c w payload receipts →
        collectResults encodeReceipt receipts = .ok encoded →
        collectResults encodeReceipt (truth payload) = .ok encoded' →
        c.orderedTrieRoot encoded = c.orderedTrieRoot encoded' → encoded = encoded') →
      ∀ receipt, getTransactionReceipt c w txHash payloads = .ok (some receipt) →
        ReceiptSound c payloads truth txHash receipt := by
  intro h
  have hserved : getTransactionReceipt receiptCrates misplacingWorld askedReceipt.transactionHash
      (singlePayload receiptPayload) = .ok (some otherReceipt) := by
    decide +kernel
  have hhash := (h _ _ _ _ (fun _ => [askedReceipt, otherReceipt]) receiptPayload_commits
    receiptCrates_root _ hserved).1
  revert hhash
  decide +kernel

end Helios
