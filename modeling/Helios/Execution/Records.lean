import Helios.Execution.LogSound

/-!
# What a server can make the client say of receipts and logs

The soundness results say when the answers are right.  Here is everything that the checks let
through, for stored blocks whose true receipts are known.

* `Resembles` — a receipt that is encoded like a true one.
* `exists_vouched` — a server that vouches for such a receipt, whatever was asked for.
* `receipt_answers_iff` — **the receipts that a server can make the client serve are those that
  resemble a true one of a stored block**.
* `encodeLog_mem_iff` — an encoded log is found among the logs of a receipt when its fields are.
* `log_answers_iff` — **the logs are any five or fewer of those that true receipts list**, in any
  order, with repetitions and omissions, whatever the filter.
-/

set_option autoImplicit false

namespace Helios

open OrderedMap

variable {c : Crates} {w : ExecutionWorld} {txHash : H256} {payload : ExecutionPayload}
  {payloads : Payloads} {receipt true' : TransactionReceipt}
  {truth : ExecutionPayload → List TransactionReceipt} {blockNumber : UInt64}

/-! ## Receipts -/

/-- The content is that of a true receipt, and so is the type, up to its lowest byte. -/
def Resembles (receipt true' : TransactionReceipt) : Prop :=
  SameContent receipt true' ∧ ∃ txType txType', receipt.transactionType = some txType ∧
    true'.transactionType = some txType' ∧
    (txType = txType' ∨ txType ≠ 0 ∧ txType' ≠ 0 ∧ txType % 256 = txType' % 256)

/-- A receipt that resembles one that can be encoded can be encoded. -/
theorem Resembles.encodable {status txType' : UInt64} (h : Resembles receipt true')
    (htrue : Encodable true' status txType') : ∃ txType, Encodable receipt status txType := by
  obtain ⟨⟨hstatus, hgas, hbloom, hlogs⟩, txType, _, htype, _⟩ := h
  refine ⟨txType, hstatus.trans htrue.status_eq, htype, ?_⟩
  have hitems : receipt.logs.map logItem = true'.logs.map logItem := logItems_of_fields hlogs
  have hlength := htrue.length_lt
  unfold legacyReceipt at hlength ⊢
  rwa [hgas, hbloom, hitems]

theorem resembles_iff {encoded : Bytes} (htrue : encodeReceipt true' = .ok encoded) :
    encodeReceipt receipt = .ok encoded ↔ Resembles receipt true' := by
  obtain ⟨status', txType', hencodable'⟩ := Encodable.of_ok htrue
  constructor
  · intro h
    obtain ⟨status, txType, hencodable⟩ := Encodable.of_ok h
    have heq := (encodeReceipt_eq_iff hencodable hencodable').1 (h.trans htrue.symm)
    rw [legacyReceipt_encode_iff hencodable hencodable'] at heq
    exact ⟨heq.2, txType, txType', hencodable.type_eq, hencodable'.type_eq, heq.1⟩
  · intro h
    obtain ⟨txType, hencodable⟩ := h.encodable hencodable'
    obtain ⟨hcontent, t, t', ht, ht', htypes⟩ := h
    obtain rfl := Option.some.inj (hencodable.type_eq.symm.trans ht)
    obtain rfl := Option.some.inj (hencodable'.type_eq.symm.trans ht')
    rw [← htrue, encodeReceipt_eq_iff hencodable hencodable']
    exact ⟨htypes, (legacyReceipt_encode_iff hencodable hencodable').2 hcontent⟩

/-- Putting something that is mapped to the same place changes nothing. -/
theorem collectResults_set {α β : Type} {f : α → Result β} {as : List α} {bs : List β} {i : Nat}
    {a a' : α} (h : collectResults f as = .ok bs) (hi : as[i]? = some a) (heq : f a' = f a) :
    collectResults f (as.set i a') = .ok bs := by
  rw [collectResults_ok] at h ⊢
  induction h generalizing i with
  | nil => cases hi
  | @cons first b rest bs hfirst hrest ih =>
    cases i with
    | zero =>
      cases hi
      exact .cons (heq.trans hfirst) hrest
    | succ i => exact .cons hfirst (ih hi)

/-- Each request for a receipt is answered with the next of a list. -/
def listingWorld (receipts : List TransactionReceipt) : ExecutionWorld := fun i =>
  { getProof := fun _ _ _ => .error (.rpc "get_proof")
    createAccessList := fun _ _ => .error (.rpc "create_access_list")
    getCode := fun _ _ => .error (.rpc "get_code")
    getTransactionReceipt := fun _ => .ok receipts[i]?
    getTransaction := fun _ => .ok none }

/-- **A server that vouches for a receipt**: it answers the true receipts, with this one in the
    place of the one it resembles. -/
theorem exists_vouched (hnumber : receipt.blockNumber = some blockNumber)
    (hpayload : payloads[blockNumber]? = some payload)
    (hcommits : Commits c payload (truth payload)) (hmem : true' ∈ truth payload)
    (hresembles : Resembles receipt true') (txHash : H256) :
    ∃ w receipts, Vouched c w txHash payloads receipt payload receipts := by
  obtain ⟨i, hi⟩ := List.getElem?_of_mem hmem
  obtain ⟨encoded, hencoded, hroot⟩ := hcommits.root
  obtain ⟨b, _, hb⟩ := collectResults_getElem? hencoded hi
  have hsame : encodeReceipt receipt = encodeReceipt true' :=
    ((resembles_iff hb).2 hresembles).trans hb.symm
  have hlt : i < (truth payload).length := (List.getElem?_eq_some_iff.1 hi).1
  refine ⟨listingWorld (receipt :: (truth payload).set i receipt), (truth payload).set i receipt,
    rfl, ⟨blockNumber, hnumber, hpayload⟩, ⟨?_, ?_⟩, ⟨encoded, ?_, hroot⟩, ?_⟩
  · rw [List.length_set]
    exact hcommits.length
  · intro j _ answered _ hj
    show Except.ok ((receipt :: (truth payload).set i receipt)[j + 1]?) = _
    rw [List.getElem?_cons_succ, hj]
  · exact collectResults_set hencoded hi hsame
  · exact List.mem_of_getElem? (List.getElem?_set_self hlt)

/-- What is served resembles a true receipt of the block that it names. -/
theorem Vouched.resembles {receipts : List TransactionReceipt}
    (h : Vouched c w txHash payloads receipt payload receipts)
    (htruth : Commits c payload (truth payload))
    (hroot : ∀ encoded encoded', collectResults encodeReceipt receipts = .ok encoded →
      collectResults encodeReceipt (truth payload) = .ok encoded' →
      c.orderedTrieRoot encoded = c.orderedTrieRoot encoded' → encoded = encoded') :
    ∃ true' ∈ truth payload, Resembles receipt true' := by
  obtain ⟨encoded, hencoded, hencoded'⟩ := h.agree htruth hroot
  obtain ⟨i, hi⟩ := List.getElem?_of_mem h.listed
  obtain ⟨true', htrue, b, hb, hb'⟩ := encodings_agree hencoded hencoded' hi
  exact ⟨true', List.mem_of_getElem? htrue, (resembles_iff hb').1 hb⟩

/-- Every stored payload has its true receipts, and no other receipts have their root. -/
structure KnownReceipts (c : Crates) (payloads : Payloads)
    (truth : ExecutionPayload → List TransactionReceipt) : Prop where
  commits : ∀ (blockNumber : UInt64) (payload : ExecutionPayload),
    payloads[blockNumber]? = some payload → Commits c payload (truth payload)
  root : ∀ (blockNumber : UInt64) (payload : ExecutionPayload)
    (receipts : List TransactionReceipt) (encoded encoded' : List Bytes),
    payloads[blockNumber]? = some payload →
    collectResults encodeReceipt receipts = .ok encoded →
    collectResults encodeReceipt (truth payload) = .ok encoded' →
    c.orderedTrieRoot encoded = c.orderedTrieRoot encoded' → encoded = encoded'

/-- **What a server can make the client say of a receipt**: it names a stored block and resembles a
    true receipt of that block, any of them, whatever transaction was asked for. -/
theorem receipt_answers_iff (c : Crates) (payloads : Payloads)
    (truth : ExecutionPayload → List TransactionReceipt)
    (hknown : KnownReceipts c payloads truth) (txHash : H256) (receipt : TransactionReceipt) :
    (∃ w, getTransactionReceipt c w txHash payloads = .ok (some receipt)) ↔
      ∃ blockNumber payload true', receipt.blockNumber = some blockNumber ∧
        payloads[blockNumber]? = some payload ∧ true' ∈ truth payload ∧
        Resembles receipt true' := by
  simp only [getTransactionReceipt_some]
  constructor
  · rintro ⟨w, payload, receipts, h⟩
    obtain ⟨blockNumber, hnumber, hpayload⟩ := h.stored
    obtain ⟨true', hmem, hresembles⟩ := h.resembles (hknown.commits _ _ hpayload)
      fun _ _ => hknown.root _ _ _ _ _ hpayload
    exact ⟨blockNumber, payload, true', hnumber, hpayload, hmem, hresembles⟩
  · rintro ⟨blockNumber, payload, true', hnumber, hpayload, hmem, hresembles⟩
    obtain ⟨w, receipts, h⟩ := exists_vouched hnumber hpayload (hknown.commits _ _ hpayload) hmem
      hresembles txHash
    exact ⟨w, payload, receipts, h⟩

/-! ## Logs -/

theorem Resembles.lists {log : Log} (h : Resembles receipt true') :
    receipt.Lists log ↔ true'.Lists log := by
  unfold TransactionReceipt.Lists
  rw [h.1.2.2.2]

/-- A true receipt resembles itself, wherever it claims to be. -/
theorem EnvelopeType.resembles (h : EnvelopeType true') (blockNumber : UInt64) :
    Resembles { true' with blockNumber := some blockNumber } true' := by
  obtain ⟨txType, htype, _⟩ := h
  exact ⟨⟨rfl, rfl, rfl, rfl⟩, txType, txType, htype, htype, Or.inl rfl⟩

theorem length_le_list {x : Rlp.Item} {items : List Rlp.Item} (h : x ∈ items) :
    x.encode.length ≤ (Rlp.Item.list items).encode.length := by
  have hle := Rlp.length_le_encodeItems h
  rw [Rlp.encode_list, List.length_append]
  omega

/-- The logs of a receipt are shorter than its encoding. -/
theorem encodeLog_length_lt {status txType : UInt64} {log : Log}
    (h : Encodable receipt status txType) (hmem : log ∈ receipt.logs) :
    (encodeLog log).length < 2 ^ 64 := by
  have hlog : (logItem log).encode.length ≤
      (Rlp.Item.list (receipt.logs.map logItem)).encode.length :=
    length_le_list (List.mem_map_of_mem hmem)
  have hlogs : (Rlp.Item.list (receipt.logs.map logItem)).encode.length ≤
      (legacyReceipt status receipt).encode.length :=
    length_le_list (by simp)
  have hlength := h.length_lt
  unfold encodeLog
  omega

/-- **An encoded log is found exactly when its fields are.** -/
theorem encodeLog_mem_iff {status txType : UInt64} {log : Log}
    (h : Encodable receipt status txType) :
    encodeLog log ∈ receipt.logs.map encodeLog ↔ receipt.Lists log := by
  unfold TransactionReceipt.Lists
  rw [List.mem_map, List.mem_map]
  constructor
  · rintro ⟨found, hmem, heq⟩
    exact ⟨found, hmem, logItem_fields (Rlp.encode_injective (encodeLog_length_lt h hmem) heq)⟩
  · rintro ⟨found, hmem, heq⟩
    refine ⟨found, hmem, ?_⟩
    have hitems : [found].map logItem = [log].map logItem := logItems_of_fields (by simp [heq])
    rw [List.map_singleton, List.map_singleton, List.singleton_inj] at hitems
    unfold encodeLog
    rw [hitems]

/-- Without an upper bound of its own, a filter is given the newest stored block. -/
theorem boundFilter_ok_iff {filter : Filter} :
    (∃ bounded, boundFilter filter payloads = .ok bounded) ↔
      (filter.getToBlock = none → filter.getBlockHash = none → lastKey? payloads ≠ none) := by
  unfold boundFilter
  simp only [Bool.and_eq_true, Option.isNone_iff_eq_none]
  by_cases hopen : filter.getToBlock = none ∧ filter.getBlockHash = none
  · rw [if_pos hopen]
    cases hlast : lastKey? payloads with
    | none => simp [hopen]
    | some block =>
      simp only [hopen, ne_eq, reduceCtorEq, not_false_eq_true, implies_true, iff_true]
      split <;> exact ⟨_, rfl⟩
  · rw [if_neg hopen]
    simp only [Except.ok.injEq, exists_eq', true_iff]
    intro hto hhash
    exact absurd ⟨hto, hhash⟩ hopen

/-- A log that a server can get through the check: it names a transaction, any, and a true receipt
    of a stored block lists it. -/
def Listable (payloads : Payloads) (truth : ExecutionPayload → List TransactionReceipt)
    (log : Log) : Prop :=
  log.transactionHash ≠ none ∧ ∃ (blockNumber : UInt64) (payload : ExecutionPayload)
    (true' : TransactionReceipt), payloads[blockNumber]? = some payload ∧ true' ∈ truth payload ∧
      true'.Lists log

theorem exists_logPasses_iff (hknown : KnownReceipts c payloads truth) {log : Log} :
    (∃ w, LogPasses c w payloads log) ↔ Listable payloads truth log := by
  constructor
  · rintro ⟨w, txHash, receipt, payload, receipts, htx, h, hlisted⟩
    obtain ⟨blockNumber, _, hpayload⟩ := h.stored
    obtain ⟨true', hmem, hresembles⟩ := h.resembles (hknown.commits _ _ hpayload)
      fun _ _ => hknown.root _ _ _ _ _ hpayload
    obtain ⟨encoded, hencoded, _⟩ := (hknown.commits _ _ hpayload).root
    obtain ⟨i, hi⟩ := List.getElem?_of_mem hmem
    obtain ⟨b, _, hb⟩ := collectResults_getElem? hencoded hi
    obtain ⟨status, txType, hencodable⟩ := Encodable.of_ok ((resembles_iff hb).2 hresembles)
    rw [encodeLog_mem_iff hencodable, hresembles.lists] at hlisted
    exact ⟨by rw [htx]; exact Option.some_ne_none _, blockNumber, payload, true', hpayload, hmem,
      hlisted⟩
  · rintro ⟨htx, blockNumber, payload, true', hpayload, hmem, hlists⟩
    obtain ⟨txHash, htx⟩ := Option.ne_none_iff_exists'.1 htx
    have hcommits := hknown.commits _ _ hpayload
    have hresembles := (hcommits.types _ hmem).resembles blockNumber
    obtain ⟨w, receipts, h⟩ := exists_vouched rfl hpayload hcommits hmem hresembles txHash
    obtain ⟨encoded, hencoded, _⟩ := hcommits.root
    obtain ⟨i, hi⟩ := List.getElem?_of_mem hmem
    obtain ⟨b, _, hb⟩ := collectResults_getElem? hencoded hi
    obtain ⟨status, txType, hencodable⟩ := Encodable.of_ok ((resembles_iff hb).2 hresembles)
    refine ⟨w, txHash, _, payload, receipts, htx, h, ?_⟩
    rw [encodeLog_mem_iff hencodable, hresembles.lists]
    exact hlists

/-- **What a server can make the client say of logs**: any list of at most five, each of which a
    true receipt of some stored block lists.  The filter has no say, and nothing has to be told. -/
theorem log_answers_iff (c : Crates) (payloads : Payloads)
    (truth : ExecutionPayload → List TransactionReceipt)
    (hknown : KnownReceipts c payloads truth) (filter : Filter) (logs : List Log) :
    (∃ rpc ws, getLogs c rpc ws filter payloads = .ok logs) ↔
      (filter.getToBlock = none → filter.getBlockHash = none → lastKey? payloads ≠ none) ∧
        logs.length ≤ maxSupportedLogsNumber ∧ ∀ log ∈ logs, Listable payloads truth log := by
  simp only [getLogs_ok_iff, ← boundFilter_ok_iff]
  constructor
  · rintro ⟨rpc, ws, ⟨bounded, hbounded, _⟩, hshort, hpassed⟩
    refine ⟨⟨bounded, hbounded⟩, hshort, fun log hlog => ?_⟩
    obtain ⟨pos, hpos⟩ := List.getElem?_of_mem hlog
    exact (exists_logPasses_iff hknown).1 ⟨ws pos, hpassed pos log hpos⟩
  · rintro ⟨⟨bounded, hbounded⟩, hshort, hlistable⟩
    -- the server of each log answers at that log's own moments
    choose pick hpick using fun pos : Fin logs.length =>
      (exists_logPasses_iff hknown).2 (hlistable logs[pos] (List.getElem_mem pos.isLt))
    let ws : Nat → ExecutionWorld := fun pos =>
      if h : pos < logs.length then pick ⟨pos, h⟩ else listingWorld []
    refine ⟨{ listingWorld [] 0 with getLogs := fun _ => .ok logs }, ws, ⟨bounded, hbounded, rfl⟩,
      hshort, fun pos log hpos => ?_⟩
    obtain ⟨hlt, rfl⟩ := List.getElem?_eq_some_iff.1 hpos
    show LogPasses c (if h : pos < logs.length then _ else _) payloads _
    rw [dif_pos hlt]
    exact hpick ⟨pos, hlt⟩

/-! ## Two transfers and a log -/

/-- One block, with a root that only its receipts have. -/
theorem singlePayload_known {receipts : List TransactionReceipt} {encodings : List Bytes}
    (hok : collectResults encodeReceipt receipts = .ok encodings)
    (hroots : ∀ encoded, c.orderedTrieRoot encoded =
      if encoded = encodings then payload.receiptsRoot else zeroBytes 32)
    (hne : zeroBytes 32 ≠ payload.receiptsRoot)
    (hcommits : ∀ (blockNumber : UInt64) (found : ExecutionPayload),
      (singlePayload payload)[blockNumber]? = some found → Commits c found receipts) :
    KnownReceipts c (singlePayload payload) fun _ => receipts where
  commits := hcommits
  root blockNumber found answered encoded encoded' _ _ htrue heq := by
    obtain rfl := Except.ok.inj (hok.symm.trans htrue)
    simp only [hroots, if_true] at heq
    split at heq
    · assumption
    · exact absurd heq hne

/-- Asked for the first receipt, the client can be given the second under the first one's hash. -/
theorem receipt_answers_transfers : ∃ w, getTransactionReceipt receiptCrates w
    askedReceipt.transactionHash (singlePayload receiptPayload) =
      .ok (some { otherReceipt with transactionHash := askedReceipt.transactionHash }) := by
  have hknown : KnownReceipts receiptCrates (singlePayload receiptPayload)
      fun _ => [askedReceipt, otherReceipt] :=
    singlePayload_known transferEncodings_ok (fun _ => rfl) transferReceiptsRoot_ne
      receiptPayload_commits
  exact (receipt_answers_iff receiptCrates _ _ hknown _ _).2 ⟨7, receiptPayload, otherReceipt, rfl,
    by decide +kernel, by simp, ⟨rfl, rfl, rfl, rfl⟩, 0, 0, rfl, rfl, Or.inl rfl⟩

/-- Asked for the logs of another address, it can be given one log twice. -/
theorem log_answers_repeated : ∃ rpc ws, getLogs loggedCrates rpc ws
    (addressFilter (Vector.replicate 20 0x33)) (singlePayload loggedPayload) =
      .ok [emittedLog, emittedLog] := by
  have hknown : KnownReceipts loggedCrates (singlePayload loggedPayload)
      fun _ => [loggedReceipt] :=
    singlePayload_known loggedEncodings_ok (fun _ => rfl) (by decide +kernel)
      loggedPayload_commits
  have hlistable : Listable (singlePayload loggedPayload) (fun _ => [loggedReceipt]) emittedLog :=
    ⟨by decide, 7, loggedPayload, loggedReceipt, by decide +kernel, List.mem_singleton_self _,
      List.mem_singleton_self _⟩
  refine (log_answers_iff loggedCrates _ _ hknown _ _).2 ⟨by decide +kernel, by decide, ?_⟩
  intro log hlog
  simp only [List.mem_cons, List.not_mem_nil, or_false, or_self] at hlog
  exact hlog ▸ hlistable

end Helios
