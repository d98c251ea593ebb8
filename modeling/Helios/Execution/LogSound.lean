import Helios.Execution.Logs

/-!
# Which logs are served

`get_logs` hands the filter to the server and then looks each answered log up in the receipt of the
transaction that the log names.  Nothing compares the log with the filter.

* `Filter.Matches` — a log is one that the filter asks for; the tags of a range are given meaning by
  a function.
* `LogOccurs` — a log occurs in the true receipt of its transaction.
* `LogsPass`, `getLogs_ok_iff` — what the server has to answer for logs to be served.
* `log_sound_iff` — **the logs served are as claimed exactly when** the logs that the server answers
  fit the filter and belong to the transactions they name.
-/

set_option autoImplicit false

namespace Helios

variable {c : Crates} {payloads : Payloads}

/-! ## Filters -/

namespace ValueOrArray

/-- An empty list of alternatives asks for nothing. -/
def Admits {α : Type} (alternatives : ValueOrArray α) (a : α) : Prop :=
  match alternatives with
  | .value b => a = b
  | .array bs => bs = [] ∨ a ∈ bs

instance {α : Type} [DecidableEq α] (alternatives : ValueOrArray α) (a : α) :
    Decidable (alternatives.Admits a) := by
  cases alternatives with
  | value b => exact inferInstanceAs (Decidable (a = b))
  | array bs => exact inferInstanceAs (Decidable (bs = [] ∨ a ∈ bs))

end ValueOrArray

/-- One position of the topics; a missing topic among the alternatives admits everything. -/
def TopicAdmits (position : Option (ValueOrArray (Option H256))) (topic : Option H256) : Prop :=
  ∀ alternatives, position = some alternatives →
    alternatives.Admits none ∨ alternatives.Admits topic

/-- The number of a bound; a range without it means the latest block. -/
def boundNumber (tag : BlockNumber → UInt64) : Option BlockNumber → UInt64
  | some (.number num) => num
  | some bound => tag bound
  | none => tag .latest

/-- The block of a log is asked for. -/
def FilterBlockOption.Admits (tag : BlockNumber → UInt64) (blockOption : FilterBlockOption)
    (log : Log) : Prop :=
  match blockOption with
  | .range fromBlock toBlock => ∃ blockNumber, log.blockNumber = some blockNumber ∧
      boundNumber tag fromBlock ≤ blockNumber ∧ blockNumber ≤ boundNumber tag toBlock
  | .atBlockHash hash => log.blockHash = some hash

/-- The log is one that the filter asks for. -/
structure Filter.Matches (tag : BlockNumber → UInt64) (filter : Filter) (log : Log) : Prop where
  address : ∀ addresses, filter.address = some addresses → addresses.Admits log.address
  topics : ∀ i : Fin 4, TopicAdmits filter.topics[i] log.topics[i.val]?
  block : filter.blockOption.Admits tag log

/-! ## Occurrences -/

/-- A receipt lists a log with the same address, topics and data. -/
def TransactionReceipt.Lists (receipt : TransactionReceipt) (log : Log) : Prop :=
  log.fields ∈ receipt.logs.map Log.fields

/-- The log occurs in the true receipt of its transaction, in a stored block. -/
def LogOccurs (c : Crates) (payloads : Payloads)
    (truth : ExecutionPayload → List TransactionReceipt) (log : Log) : Prop :=
  ∃ (txHash : H256) (blockNumber : UInt64) (payload : ExecutionPayload) (i : Nat)
    (receipt : TransactionReceipt), log.transactionHash = some txHash ∧
      payloads[blockNumber]? = some payload ∧ (txHashes c payload)[i]? = some txHash ∧
      (truth payload)[i]? = some receipt ∧ receipt.Lists log

/-! ## What the server answers -/

/-- The check of one log passes: the server's answers vouch for a receipt, and it lists the log. -/
def LogPasses (c : Crates) (w : ExecutionWorld) (payloads : Payloads) (log : Log) : Prop :=
  ∃ txHash receipt payload receipts, log.transactionHash = some txHash ∧
    Vouched c w txHash payloads receipt payload receipts ∧
    encodeLog log ∈ receipt.logs.map encodeLog

/-- The server's answers let the logs through. -/
structure LogsPass (c : Crates) (rpc : ExecutionRpc) (ws : Nat → ExecutionWorld) (filter : Filter)
    (payloads : Payloads) (logs : List Log) : Prop where
  answered : ∃ bounded, boundFilter filter payloads = .ok bounded ∧ rpc.getLogs bounded = .ok logs
  short : logs.length ≤ maxSupportedLogsNumber
  passed : ∀ (pos : Nat) (log : Log), logs[pos]? = some log → LogPasses c (ws pos) payloads log

theorem checkLog_ok_iff {w : ExecutionWorld} {log : Log} :
    checkLog c w payloads log = .ok () ↔ LogPasses c w payloads log := by
  unfold checkLog
  constructor
  · intro h
    split at h
    · cases h
    rename_i txHash htx
    split at h
    · cases h
    · cases h
    rename_i receipt hreceipt
    simp only at h
    split at h
    · split at h <;> cases h
    · rename_i hlisted
      rw [not_not, List.contains_iff_mem] at hlisted
      obtain ⟨payload, receipts, hvouched⟩ := getTransactionReceipt_some.1 hreceipt
      exact ⟨txHash, receipt, payload, receipts, htx, hvouched, hlisted⟩
  · rintro ⟨txHash, receipt, payload, receipts, htx, hvouched, hlisted⟩
    have hreceipt := getTransactionReceipt_some.2 ⟨payload, receipts, hvouched⟩
    simp only [htx, hreceipt]
    rw [if_neg]
    rw [not_not, List.contains_iff_mem]
    exact hlisted

theorem checkLogs_ok_iff {ws : Nat → ExecutionWorld} {logs : List Log} :
    (∃ units, checkLogs c ws payloads logs = .ok units) ↔
      ∀ (pos : Nat) (log : Log), logs[pos]? = some log → LogPasses c (ws pos) payloads log := by
  simp only [checkLogs,
    collectResults_mapIdx (f := fun pos log => checkLog c (ws pos) payloads log)]
  constructor
  · rintro ⟨units, hlen, h⟩ pos log hlog
    have hpos : pos < units.length := hlen ▸ (List.getElem?_eq_some_iff.1 hlog).1
    exact checkLog_ok_iff.1 (h pos log () hlog (List.getElem?_eq_getElem hpos))
  · intro h
    refine ⟨List.replicate logs.length (), List.length_replicate, ?_⟩
    intro pos log _ hlog _
    exact checkLog_ok_iff.2 (h pos log hlog)

/-- **What `get_logs` serves.** -/
theorem getLogs_ok_iff {rpc : ExecutionRpc} {ws : Nat → ExecutionWorld} {filter : Filter}
    {logs : List Log} :
    getLogs c rpc ws filter payloads = .ok logs ↔ LogsPass c rpc ws filter payloads logs := by
  unfold getLogs
  constructor
  · intro h
    split at h
    · cases h
    rename_i bounded hbounded
    split at h
    · cases h
    rename_i found hfound
    rw [answer_ok] at hfound
    split at h
    · cases h
    rename_i hshort
    split at h
    · cases h
    · rename_i units hunits
      cases h
      exact ⟨⟨bounded, hbounded, hfound⟩, Nat.le_of_not_lt hshort,
        checkLogs_ok_iff.1 ⟨units, hunits⟩⟩
  · rintro ⟨⟨bounded, hbounded, hfound⟩, hshort, hpassed⟩
    obtain ⟨units, hunits⟩ := checkLogs_ok_iff.2 hpassed
    simp only [hbounded, hfound, answer]
    rw [if_neg (Nat.not_lt.2 hshort), hunits]

/-! ## Soundness -/

/-- A receipt with this encoding lists the log. -/
def EncodingLists (encoded : Bytes) (log : Log) : Prop :=
  ∃ receipt, EnvelopeType receipt ∧ encodeReceipt receipt = .ok encoded ∧ receipt.Lists log

/-- The log belongs to the transaction it names: where the block of the first answer lists the
    transaction, the server's own receipt lists the log (or, if another stored block lists the
    transaction too, the receipt there does). -/
def RightLog (c : Crates) (payloads : Payloads)
    (truth : ExecutionPayload → List TransactionReceipt) (txHash : H256)
    (receipt : TransactionReceipt) (payload : ExecutionPayload)
    (receipts : List TransactionReceipt) (log : Log) : Prop :=
  (∃ (i : Nat) (other : TransactionReceipt) (encoded : Bytes),
      (txHashes c payload)[i]? = some txHash ∧ receipts[i]? = some other ∧
      encodeReceipt other = .ok encoded ∧ EncodingLists encoded log) ∨
    ∃ (blockNumber : UInt64) (elsewhere : ExecutionPayload) (i : Nat)
      (other : TransactionReceipt), receipt.blockNumber ≠ some blockNumber ∧
        payloads[blockNumber]? = some elsewhere ∧ (txHashes c elsewhere)[i]? = some txHash ∧
        (truth elsewhere)[i]? = some other ∧ other.Lists log

/-- Fields decide which logs are listed. -/
theorem lists_of_fields {r s : TransactionReceipt} {log : Log} (h : r.fields = s.fields)
    (hlists : r.Lists log) : s.Lists log := by
  have hlogs : r.logs.map Log.fields = s.logs.map Log.fields := congrArg ReceiptFields.logs h
  rw [TransactionReceipt.Lists, ← hlogs]
  exact hlists

variable {truth : ExecutionPayload → List TransactionReceipt} {w : ExecutionWorld}
  {txHash : H256} {receipt : TransactionReceipt} {payload : ExecutionPayload}
  {receipts : List TransactionReceipt} {log : Log}

/-- A vouched log occurs exactly when it is the right one. -/
theorem logOccurs_iff (htx : log.transactionHash = some txHash)
    (htruth : ∀ (blockNumber : UInt64) (payload : ExecutionPayload),
      payloads[blockNumber]? = some payload → Commits c payload (truth payload))
    (hv : Vouched c w txHash payloads receipt payload receipts)
    (hagree : ∃ encoded, collectResults encodeReceipt receipts = .ok encoded ∧
      collectResults encodeReceipt (truth payload) = .ok encoded) :
    LogOccurs c payloads truth log ↔
      RightLog c payloads truth txHash receipt payload receipts log := by
  obtain ⟨number, hnumber, hpayload⟩ := hv.stored
  obtain ⟨encodings, hencoded, hencoded'⟩ := hagree
  constructor
  · rintro ⟨txHash', blockNumber, found, i, true', htx', hfound, hi, htrue, hlists⟩
    obtain rfl := Option.some.inj (htx.symm.trans htx')
    by_cases hsame : receipt.blockNumber = some blockNumber
    · left
      obtain rfl := Option.some.inj (hnumber.symm.trans hsame)
      obtain rfl := Option.some.inj (hpayload.symm.trans hfound)
      obtain ⟨other, hother, b, hb, hb'⟩ := encodings_agree hencoded' hencoded htrue
      have htype := (htruth _ _ hpayload).types _ (List.mem_of_getElem? htrue)
      exact ⟨i, other, b, hi, hother, hb', true', htype, hb, hlists⟩
    · exact Or.inr ⟨blockNumber, found, i, true', hsame, hfound, hi, htrue, hlists⟩
  · rintro (⟨i, other, b, hi, hother, hb, listing, htype, hlisting, hlists⟩ |
      ⟨blockNumber, found, i, other, _, hfound, hi, hother, hlists⟩)
    · obtain ⟨true', htrue, b', hb', htrueb⟩ := encodings_agree hencoded hencoded' hother
      obtain rfl := Except.ok.inj (hb.symm.trans hb')
      have htype' := (htruth _ _ hpayload).types _ (List.mem_of_getElem? htrue)
      exact ⟨txHash, number, payload, i, true', htx, hpayload, hi, htrue,
        lists_of_fields (encodeReceipt_fields hlisting htrueb htype htype') hlists⟩
    · exact ⟨txHash, blockNumber, found, i, other, htx, hfound, hi, hother, hlists⟩

/-- **Which logs are served.**  Let the stored payloads be authentic, each with its true receipts,
    and let no list of receipts that the server answers collide with a true one under the ordered
    trie root.  Then the logs served always fit the filter and occur in the receipts of the
    transactions they name if and only if the logs that the server answers do, whenever its
    answers let them through. -/
theorem log_sound_iff (c : Crates) (rpc : ExecutionRpc) (ws : Nat → ExecutionWorld)
    (filter : Filter) (payloads : Payloads) (truth : ExecutionPayload → List TransactionReceipt)
    (tag : BlockNumber → UInt64)
    (htruth : ∀ (blockNumber : UInt64) (payload : ExecutionPayload),
      payloads[blockNumber]? = some payload → Commits c payload (truth payload))
    (hroot : ∀ (pos : Nat) (blockNumber : UInt64) (payload : ExecutionPayload)
      (receipts : List TransactionReceipt) (encoded encoded' : List Bytes),
      payloads[blockNumber]? = some payload → Answered c (ws pos) payload receipts →
      collectResults encodeReceipt receipts = .ok encoded →
      collectResults encodeReceipt (truth payload) = .ok encoded' →
      c.orderedTrieRoot encoded = c.orderedTrieRoot encoded' → encoded = encoded') :
    (∀ logs, getLogs c rpc ws filter payloads = .ok logs →
        ∀ log ∈ logs, filter.Matches tag log ∧ LogOccurs c payloads truth log) ↔
      ∀ logs, LogsPass c rpc ws filter payloads logs →
        ∀ (pos : Nat) (log : Log) (txHash : H256) (receipt : TransactionReceipt)
          (payload : ExecutionPayload) (receipts : List TransactionReceipt),
          logs[pos]? = some log → log.transactionHash = some txHash →
          Vouched c (ws pos) txHash payloads receipt payload receipts →
            filter.Matches tag log ∧
              RightLog c payloads truth txHash receipt payload receipts log := by
  -- the server's receipts encode like the true ones
  have hagree : ∀ {pos txHash receipt payload receipts},
      Vouched c (ws pos) txHash payloads receipt payload receipts →
      ∃ encoded, collectResults encodeReceipt receipts = .ok encoded ∧
        collectResults encodeReceipt (truth payload) = .ok encoded := by
    intro pos txHash receipt payload receipts hv
    obtain ⟨blockNumber, _, hpayload⟩ := hv.stored
    exact hv.agree (htruth _ _ hpayload) fun _ _ => hroot pos _ _ _ _ _ hpayload hv.answered
  constructor
  · intro h logs hpass pos log txHash receipt payload receipts hlog htx hv
    obtain ⟨hmatches, hoccurs⟩ :=
      h logs (getLogs_ok_iff.2 hpass) log (List.mem_of_getElem? hlog)
    exact ⟨hmatches, (logOccurs_iff htx htruth hv (hagree hv)).1 hoccurs⟩
  · intro h logs hserved log hmem
    have hpass := getLogs_ok_iff.1 hserved
    obtain ⟨pos, hlog⟩ := List.getElem?_of_mem hmem
    obtain ⟨txHash, receipt, payload, receipts, htx, hv, _⟩ := hpass.passed pos log hlog
    obtain ⟨hmatches, hright⟩ := h logs hpass pos log txHash receipt payload receipts hlog htx hv
    exact ⟨hmatches, (logOccurs_iff htx htruth hv (hagree hv)).2 hright⟩

/-! ## A log that was not asked for -/

/-- A log of the first transfer's block, emitted by one address. -/
def emittedLog : Log where
  address := Vector.replicate 20 0x22
  topics := []
  data := [1]
  blockHash := some (zeroBytes 32)
  blockNumber := some 7
  transactionHash := some askedReceipt.transactionHash
  logIndex := some 0
  rest := []

/-- The receipt of the first transfer, with the log. -/
def loggedReceipt : TransactionReceipt := { askedReceipt with logs := [emittedLog] }

def loggedEncodings : List Bytes := [(legacyReceipt 1 loggedReceipt).encode]

def loggedReceiptsRoot : H256 :=
  beBytes 32 0x263cb6f89f19f2ef51a7f87653a384512aa1116a8e6c130e0b50c3390a20d965

/-- The functions of `transferCrates`, with the ordered trie root of the one receipt. -/
def loggedCrates : Crates :=
  { transferCrates with
    orderedTrieRoot := fun encoded =>
      if encoded = loggedEncodings then loggedReceiptsRoot else zeroBytes 32 }

/-- A block with the one transfer. -/
def loggedPayload : ExecutionPayload :=
  { (default : ExecutionPayload) with
    blockNumber := 7, transactions := [askedRlp], receiptsRoot := loggedReceiptsRoot }

/-- A server that answers every filter with the log, and every request for a receipt honestly. -/
def loggedRpc : ExecutionRpc :=
  { substitutingRpc with
    getTransactionReceipt := fun _ => .ok (some loggedReceipt)
    getLogs := fun _ => .ok [emittedLog] }

/-- The logs of one address in block 7. -/
def addressFilter (address : Address) : Filter where
  blockOption := .range (some (.number 7)) (some (.number 7))
  address := some (.value address)
  topics := Vector.replicate 4 none

theorem loggedEncodings_ok : collectResults encodeReceipt [loggedReceipt] = .ok loggedEncodings := by
  decide +kernel

theorem loggedCrates_orderedTrieRoot :
    loggedCrates.orderedTrieRoot loggedEncodings = loggedReceiptsRoot := by
  simp only [loggedCrates, if_true]

theorem loggedPayload_commits (blockNumber : UInt64) (payload : ExecutionPayload)
    (h : (singlePayload loggedPayload)[blockNumber]? = some payload) :
    Commits loggedCrates payload [loggedReceipt] := by
  rw [singlePayload_getElem? h]
  refine ⟨rfl, ⟨loggedEncodings, loggedEncodings_ok, loggedCrates_orderedTrieRoot⟩, ?_⟩
  intro receipt hr
  rw [List.mem_singleton.1 hr]
  exact ⟨0, rfl, by decide⟩

theorem loggedCrates_root (_pos : Nat) (blockNumber : UInt64) (payload : ExecutionPayload)
    (receipts : List TransactionReceipt) (encoded encoded' : List Bytes)
    (_ : (singlePayload loggedPayload)[blockNumber]? = some payload)
    (_ : Answered loggedCrates (fun _ => loggedRpc) payload receipts)
    (_ : collectResults encodeReceipt receipts = .ok encoded)
    (h : collectResults encodeReceipt [loggedReceipt] = .ok encoded')
    (heq : loggedCrates.orderedTrieRoot encoded = loggedCrates.orderedTrieRoot encoded') :
    encoded = encoded' := by
  have hne : zeroBytes 32 ≠ loggedReceiptsRoot := by decide +kernel
  rw [loggedEncodings_ok, Except.ok.injEq] at h
  subst h
  simp only [loggedCrates, if_true] at heq
  split at heq
  · assumption
  · exact absurd heq hne

theorem log_sound_logged :
    (∀ logs, getLogs loggedCrates loggedRpc (fun _ _ => loggedRpc)
        (addressFilter (Vector.replicate 20 0x22)) (singlePayload loggedPayload) = .ok logs →
      ∀ log ∈ logs, (addressFilter (Vector.replicate 20 0x22)).Matches (fun _ => 7) log ∧
        LogOccurs loggedCrates (singlePayload loggedPayload) (fun _ => [loggedReceipt]) log) ↔
      ∀ logs, LogsPass loggedCrates loggedRpc (fun _ _ => loggedRpc)
          (addressFilter (Vector.replicate 20 0x22)) (singlePayload loggedPayload) logs →
        ∀ (pos : Nat) (log : Log) (txHash : H256) (receipt : TransactionReceipt)
          (payload : ExecutionPayload) (receipts : List TransactionReceipt),
          logs[pos]? = some log → log.transactionHash = some txHash →
          Vouched loggedCrates (fun _ => loggedRpc) txHash (singlePayload loggedPayload) receipt
            payload receipts →
            (addressFilter (Vector.replicate 20 0x22)).Matches (fun _ => 7) log ∧
              RightLog loggedCrates (singlePayload loggedPayload) (fun _ => [loggedReceipt]) txHash
                receipt payload receipts log :=
  log_sound_iff loggedCrates loggedRpc (fun _ _ => loggedRpc)
    (addressFilter (Vector.replicate 20 0x22)) (singlePayload loggedPayload)
    (fun _ => [loggedReceipt]) (fun _ => 7) loggedPayload_commits loggedCrates_root

/-- Asked for the logs of one address, `get_logs` serves the log of another. -/
theorem log_unsound :
    ¬ ∀ (c : Crates) (rpc : ExecutionRpc) (ws : Nat → ExecutionWorld) (filter : Filter)
      (payloads : Payloads) (truth : ExecutionPayload → List TransactionReceipt)
      (tag : BlockNumber → UInt64),
      (∀ (blockNumber : UInt64) (payload : ExecutionPayload),
        payloads[blockNumber]? = some payload → Commits c payload (truth payload)) →
      (∀ (pos : Nat) (blockNumber : UInt64) (payload : ExecutionPayload)
        (receipts : List TransactionReceipt) (encoded encoded' : List Bytes),
        payloads[blockNumber]? = some payload → Answered c (ws pos) payload receipts →
        collectResults encodeReceipt receipts = .ok encoded →
        collectResults encodeReceipt (truth payload) = .ok encoded' →
        c.orderedTrieRoot encoded = c.orderedTrieRoot encoded' → encoded = encoded') →
      ∀ logs, getLogs c rpc ws filter payloads = .ok logs →
        ∀ log ∈ logs, filter.Matches tag log ∧ LogOccurs c payloads truth log := by
  intro h
  have hserved : getLogs loggedCrates loggedRpc (fun _ _ => loggedRpc)
      (addressFilter (Vector.replicate 20 0x33)) (singlePayload loggedPayload) =
        .ok [emittedLog] := by
    decide +kernel
  have haddress := (h _ _ _ _ _ (fun _ => [loggedReceipt]) (fun _ => 7) loggedPayload_commits
    loggedCrates_root _ hserved emittedLog (List.mem_singleton_self _)).1.address _ rfl
  revert haddress
  decide +kernel

end Helios
