import Helios.Client.Queries
import Helios.Client.Heads
import Helios.Client.Storage

/-!
# The staleness gate of the queries

Each query that names a block by a tag has its own gate, from two helpers or none.

* `Behind`, `Ahead` — the optimistic header against the clock; `checkHeadAge_outOfSync_iff` — the
  gate refuses in both cases, since its subtraction wraps.
* `TaggedQuery`, `Refused` — the seven queries, and what a refusal is.
* `refused_iff` — **when each of them is refused**.
* `staleness_uniform_iff` — **where that is what a uniform gate would do**.
* `staleness_not_uniform` — a stale count is served, and a historical slot is refused.
-/

set_option autoImplicit false

namespace Helios

/-- Every error of the server is the error of a request (`RpcError`). -/
structure ExecutionRpc.Wraps (rpc : ExecutionRpc) : Prop where
  getProof : ∀ address slots block error, rpc.getProof address slots block = .error error →
    ∃ method, error = .rpc method
  getCode : ∀ address block error, rpc.getCode address block = .error error →
    ∃ method, error = .rpc method
  getTransaction : ∀ hash error, rpc.getTransaction hash = .error error →
    ∃ method, error = .rpc method

namespace Node

open ConsensusClient

variable {c : Crates} {e : EvmCrate} {node : Node} {now : UInt64} {w w' : ExecutionWorld}
  {block : BlockTag}

/-! ## The gate -/

/-- The optimistic header is more than ten slots behind the clock. -/
def Behind (node : Node) (now : UInt64) : Prop :=
  ∃ expected, node.consensus.expectedCurrentSlot now = .ok expected ∧
    node.consensus.getHeader.slot.toNat + 10 < expected.toNat

/-- The optimistic header is ahead of the clock, but not by nearly the whole range of slots. -/
def Ahead (node : Node) (now : UInt64) : Prop :=
  ∃ expected, node.consensus.expectedCurrentSlot now = .ok expected ∧
    expected.toNat < node.consensus.getHeader.slot.toNat ∧
    node.consensus.getHeader.slot.toNat + 10 < expected.toNat + 2 ^ 64

/-- The result is the staleness error. -/
def OutOfSync {α : Type} (r : Result α) : Prop := ∃ slots, r = .error (.err (.outOfSync slots))

theorem not_outOfSync_ok {α : Type} {a : α} : ¬ OutOfSync (.ok a : Result α) := by
  rintro ⟨slots, h⟩
  cases h

/-- A fault that is handed on is no refusal when it was none before. -/
theorem not_outOfSync_of_eq {α β : Type} {r : Result α} {fault : Fault} (hr : r = .error fault)
    (h : ¬ OutOfSync r) : ¬ OutOfSync (.error fault : Result β) := by
  rintro ⟨slots, heq⟩
  cases heq
  exact h ⟨slots, hr⟩

/-- **The gate refuses a header behind the clock, and one ahead of it.** -/
theorem checkHeadAge_outOfSync_iff :
    OutOfSync (node.checkHeadAge now) ↔ node.Behind now ∨ node.Ahead now := by
  unfold OutOfSync checkHeadAge Behind Ahead
  cases hexpected : node.consensus.expectedCurrentSlot now with
  | error f =>
    have hf : f = .panic .clockBeforeGenesis := by
      unfold ConsensusClient.expectedCurrentSlot at hexpected
      simp only at hexpected
      split at hexpected
      · cases hexpected
        rfl
      · cases hexpected
    subst hf
    simp
  | ok expected =>
    have hexp := expected.toNat_lt
    have hslot := node.consensus.getHeader.slot.toNat_lt
    have hdelay : (expected - node.consensus.getHeader.slot > 10) ↔
        10 < (2 ^ 64 - node.consensus.getHeader.slot.toNat + expected.toNat) % 2 ^ 64 := by
      rw [gt_iff_lt, UInt64.lt_iff_toNat_lt, UInt64.toNat_sub]
      rfl
    simp only [Except.ok.injEq, exists_eq_left']
    constructor
    · rintro ⟨slots, h⟩
      split at h
      · rename_i hgt
        rw [hdelay] at hgt
        omega
      · cases h
    · intro h
      have hgt : expected - node.consensus.getHeader.slot > 10 := by
        rw [hdelay]
        omega
      exact ⟨_, if_pos hgt⟩

/-- Behind and ahead exclude each other. -/
theorem not_behind_and_ahead (hbehind : node.Behind now) (hahead : node.Ahead now) : False := by
  obtain ⟨expected, hexpected, hlt⟩ := hbehind
  obtain ⟨expected', hexpected', hgt, _⟩ := hahead
  rw [hexpected] at hexpected'
  cases hexpected'
  omega

theorem checkBlocktagAge_outOfSync_iff :
    OutOfSync (node.checkBlocktagAge now block) ↔
      block = .latest ∧ (node.Behind now ∨ node.Ahead now) := by
  cases block with
  | latest => simp [checkBlocktagAge, checkHeadAge_outOfSync_iff]
  | finalized => simp [checkBlocktagAge, OutOfSync]
  | number num => simp [checkBlocktagAge, OutOfSync]

/-! ## No other step refuses -/

theorem getPayload_not_outOfSync : ¬ OutOfSync (node.getPayload block) := by
  rintro ⟨slots, h⟩
  unfold getPayload at h
  simp only at h
  split at h <;> cases h

theorem not_outOfSync_panics {α : Type} {r : Result α} (h : OnlyPanics r) : ¬ OutOfSync r := by
  rintro ⟨slots, hr⟩
  exact h _ hr

theorem answer_not_outOfSync {α : Type} {r : Except Report α}
    (h : ∀ error, r = .error error → ∃ method, error = .rpc method) : ¬ OutOfSync (answer r) := by
  rintro ⟨slots, hr⟩
  cases r with
  | ok a => cases hr
  | error error =>
    obtain ⟨method, rfl⟩ := h error rfl
    cases hr

theorem verifySlots_not_outOfSync {address : Address} {storageHash : H256} :
    ∀ {proofs : List StorageProof} {slotMap : Std.HashMap H256 U256},
      ¬ OutOfSync (verifySlots c address storageHash proofs slotMap) := by
  intro proofs
  induction proofs with
  | nil =>
    intro slotMap
    exact not_outOfSync_ok
  | cons storageProof rest ih =>
    intro slotMap
    rw [verifySlots, hexStrToBytes_encodeHex]
    simp only
    split
    · rename_i fault hverify
      exact not_outOfSync_of_eq hverify (not_outOfSync_panics verifyProof_panics)
    · split
      · simp [OutOfSync]
      · exact ih

theorem fetchCode_not_outOfSync {rpc : ExecutionRpc} (hrpc : rpc.Wraps) {address : Address}
    {blockNumber : UInt64} {expected : H256} :
    ¬ OutOfSync (fetchCode c rpc address blockNumber expected) := by
  unfold fetchCode
  split
  · exact not_outOfSync_ok
  · split
    · rename_i fault hcode
      exact not_outOfSync_of_eq hcode (answer_not_outOfSync (hrpc.getCode address blockNumber))
    · simp only
      split
      · simp [OutOfSync]
      · exact not_outOfSync_ok

theorem getAccount_not_outOfSync (hw : ∀ i, (w i).Wraps) {address : Address}
    {slots : Option (List H256)} {payload : ExecutionPayload} :
    ¬ OutOfSync (getAccount c w address slots payload) := by
  unfold getAccount
  simp only
  split
  · rename_i fault hproof
    exact not_outOfSync_of_eq hproof
      (answer_not_outOfSync ((hw 0).getProof address (slots.getD []) payload.blockNumber))
  split
  · rename_i fault hverify
    exact not_outOfSync_of_eq hverify (not_outOfSync_panics verifyProof_panics)
  split
  · simp [OutOfSync]
  split
  · rename_i fault hslots
    exact not_outOfSync_of_eq hslots verifySlots_not_outOfSync
  split
  · rename_i fault hcode
    exact not_outOfSync_of_eq hcode (fetchCode_not_outOfSync (hw 1))
  · exact not_outOfSync_ok

theorem getTransaction_not_outOfSync {rpc : ExecutionRpc} (hrpc : rpc.Wraps) {hash : H256}
    {payloads : Payloads} : ¬ OutOfSync (getTransaction c rpc hash payloads) := by
  unfold getTransaction
  split
  · rename_i fault htx
    exact not_outOfSync_of_eq htx (answer_not_outOfSync (hrpc.getTransaction hash))
  · exact not_outOfSync_ok
  split
  · exact not_outOfSync_ok
  split
  · exact not_outOfSync_ok
  simp only
  split
  · simp [OutOfSync]
  · exact not_outOfSync_ok

theorem collectResults_not_outOfSync {α β : Type} {f : α → Result β} {as : List α}
    (h : ∀ a ∈ as, ¬ OutOfSync (f a)) : ¬ OutOfSync (collectResults f as) := by
  rintro ⟨slots, hr⟩
  obtain ⟨a, ha, hf⟩ := collectResults_error hr
  exact h a ha ⟨slots, hf⟩

theorem getBlock_not_outOfSync (hw : ∀ i, (w i).Wraps) {payload : ExecutionPayload}
    {fullTx : Bool} : ¬ OutOfSync (getBlock c w payload fullTx) := by
  have hfetch : ¬ OutOfSync (fetchTransactions c w payload) := by
    apply collectResults_not_outOfSync
    intro request _
    have htx : ¬ OutOfSync
        (getTransaction c (w request.1) request.2 (singlePayload payload)) :=
      getTransaction_not_outOfSync (hw request.1)
    unfold orNotReachable
    split
    · rename_i fault heq
      exact not_outOfSync_of_eq heq htx
    · simp [OutOfSync]
    · exact not_outOfSync_ok
  unfold getBlock
  cases fullTx with
  | false => simp [OutOfSync]
  | true =>
    cases htxs : fetchTransactions c w payload with
    | error fault => exact not_outOfSync_of_eq htxs hfetch
    | ok txs => simp [OutOfSync]

/-- The errors of the EVM are its own; the prefetch and the database can only panic otherwise. -/
theorem evmCall_not_outOfSync {evm : Env → Program} {db : ProofDB} {chainId : UInt64}
    {opts : CallOpts} : ¬ OutOfSync (evmCall c evm w w' db chainId opts) := by
  have hbatch : ¬ OutOfSync (batchFetchAccounts c w db opts) := by
    unfold batchFetchAccounts
    simp only
    cases (w 0).createAccessList opts db.currentPayload.blockNumber with
    | error error => simp [answer, mapErr, OutOfSync]
    | ok list => exact not_outOfSync_panics fetchAccounts_panics
  have htransact : ¬ OutOfSync (transact c evm w w' db chainId opts) := by
    unfold transact
    split
    · rename_i fault heq
      exact not_outOfSync_of_eq heq hbatch
    simp only
    split
    · rename_i fault heq
      exact not_outOfSync_of_eq heq (not_outOfSync_panics getEnv_panics)
    · exact not_outOfSync_panics Program.run_panics
  unfold evmCall
  split
  · rename_i fault heq
    exact not_outOfSync_of_eq heq htransact
  split
  · simp [OutOfSync]
  · split <;> simp [OutOfSync]
  · split <;> simp [OutOfSync]
  · simp [OutOfSync]

/-! ## The queries -/

/-- The queries of a node that name a block by a tag. -/
inductive TaggedQuery where
  | call (opts : CallOpts)
  | getBalance (address : Address)
  | getNonce (address : Address)
  | getCode (address : Address)
  | getStorageAt (address : Address) (slot : H256)
  | getBlockByNumber (fullTx : Bool)
  | getBlockTransactionCountByNumber

/-- The query ends in the staleness error. -/
def Refused (c : Crates) (e : EvmCrate) (node : Node) (now : UInt64) (w w' : ExecutionWorld)
    (block : BlockTag) : TaggedQuery → Prop
  | .call opts => OutOfSync (node.call c e now w w' opts block)
  | .getBalance address => OutOfSync (node.getBalance c now w address block)
  | .getNonce address => OutOfSync (node.getNonce c now w address block)
  | .getCode address => OutOfSync (node.getCode c now w address block)
  | .getStorageAt address slot => OutOfSync (node.getStorageAt c now w address slot block)
  | .getBlockByNumber fullTx => OutOfSync (node.getBlockByNumber c now w block fullTx)
  | .getBlockTransactionCountByNumber => OutOfSync (node.getBlockTransactionCountByNumber block)

/-- A step behind a gate: only the gate refuses. -/
theorem outOfSync_gate {α : Type} {gate : Result Unit} {step : Result α}
    (hstep : ¬ OutOfSync step) :
    OutOfSync (match gate with
      | .error fault => .error fault
      | .ok () => step) ↔ OutOfSync gate := by
  cases gate with
  | error fault => simp [OutOfSync]
  | ok u =>
    constructor
    · intro h
      exact absurd h hstep
    · intro h
      exact absurd h not_outOfSync_ok

/-- A query that looks up its payload first. -/
theorem not_outOfSync_payload {α : Type} {step : ExecutionPayload → Result α}
    (hstep : ∀ payload, ¬ OutOfSync (step payload)) :
    ¬ OutOfSync (match node.getPayload block with
      | .error fault => .error fault
      | .ok payload => step payload) := by
  cases hpayload : node.getPayload block with
  | error fault => exact not_outOfSync_of_eq hpayload getPayload_not_outOfSync
  | ok payload => exact hstep payload

theorem getAccountField_outOfSync_iff {α : Type} {field : Account → α} {address : Address}
    (hw : ∀ i, (w i).Wraps) : OutOfSync (getAccountField c field node now w address block) ↔
      OutOfSync (node.checkBlocktagAge now block) := by
  unfold getAccountField
  apply outOfSync_gate
  apply not_outOfSync_payload
  intro payload
  split
  · rename_i fault haccount
    exact not_outOfSync_of_eq haccount (getAccount_not_outOfSync hw)
  · exact not_outOfSync_ok

/-- **When each query is refused.**  Five have the gate of their tag, one has the gate of the head
    for every tag, and one has none. -/
theorem refused_iff (hw : ∀ i, (w i).Wraps) (query : TaggedQuery) :
    Refused c e node now w w' block query ↔
      match query with
      | .getStorageAt _ _ => node.Behind now ∨ node.Ahead now
      | .getBlockTransactionCountByNumber => False
      | _ => block = .latest ∧ (node.Behind now ∨ node.Ahead now) := by
  cases query with
  | call opts =>
    rw [← checkBlocktagAge_outOfSync_iff]
    exact outOfSync_gate (not_outOfSync_payload fun payload => evmCall_not_outOfSync)
  | getBalance address =>
    rw [← checkBlocktagAge_outOfSync_iff]
    exact getAccountField_outOfSync_iff hw
  | getNonce address =>
    rw [← checkBlocktagAge_outOfSync_iff]
    exact getAccountField_outOfSync_iff hw
  | getCode address =>
    rw [← checkBlocktagAge_outOfSync_iff]
    exact getAccountField_outOfSync_iff hw
  | getStorageAt address slot =>
    rw [← checkHeadAge_outOfSync_iff]
    refine outOfSync_gate (not_outOfSync_payload fun payload => ?_)
    split
    · rename_i fault haccount
      exact not_outOfSync_of_eq haccount (getAccount_not_outOfSync hw)
    · split <;> simp [OutOfSync]
  | getBlockByNumber fullTx =>
    rw [← checkBlocktagAge_outOfSync_iff]
    apply outOfSync_gate
    split
    · exact not_outOfSync_ok
    · split
      · rename_i fault hblock
        exact not_outOfSync_of_eq hblock (getBlock_not_outOfSync hw)
      · exact not_outOfSync_ok
  | getBlockTransactionCountByNumber =>
    simp only [iff_false]
    exact not_outOfSync_payload fun payload => not_outOfSync_ok

/-! ## Uniformity -/

/-- Where a query's own gate does what a uniform one would: the header is not ahead of the clock
    when a gate is passed through, `get_storage_at` is asked for the latest block or the header is
    recent, and `get_block_transaction_count_by_number` is not asked for a stale latest block. -/
def GateFits (node : Node) (now : UInt64) (block : BlockTag) : TaggedQuery → Prop
  | .getStorageAt _ _ => ¬ node.Ahead now ∧ (block = .latest ∨ ¬ node.Behind now)
  | .getBlockTransactionCountByNumber => ¬ (block = .latest ∧ node.Behind now)
  | _ => block = .latest → ¬ node.Ahead now

/-- **The staleness gate is uniform exactly there.**  A query is refused if and only if its tag is
    `Latest` and the optimistic header is more than ten slots behind, in every state and at every
    time in which its gate fits, and in no other. -/
theorem staleness_uniform_iff (c : Crates) (e : EvmCrate) (node : Node) (now : UInt64)
    (w w' : ExecutionWorld) (hw : ∀ i, (w i).Wraps) (block : BlockTag) (query : TaggedQuery) :
    (Refused c e node now w w' block query ↔ block = .latest ∧ node.Behind now) ↔
      GateFits node now block query := by
  have hexclusive : node.Behind now → ¬ node.Ahead now := not_behind_and_ahead
  rw [refused_iff hw]
  cases query <;> unfold GateFits <;> simp only <;> tauto

/-! ## A stale node -/

/-- One hour after the head. -/
def hourLater : UInt64 := 1683627659

theorem hourLater_behind : (afterSync honestBlocks).Behind hourLater := by
  refine ⟨6400303, by decide +kernel, ?_⟩
  decide +kernel

/-- An hour without an update: the latest transaction count is served, and the storage of a
    historical block is refused. -/
theorem staleness_not_uniform :
    (serving chainCrates mainnet checkpointRoot.toList fun _ _ _ _ => True).Reachable
        (afterSync honestBlocks) ∧
      (afterSync honestBlocks).Behind hourLater ∧
      (afterSync honestBlocks).getBlockTransactionCountByNumber .latest = .ok 0 ∧
      (afterSync honestBlocks).getPayload (.number 17000000) = .ok checkpointPayload ∧
      (afterSync honestBlocks).getStorageAt sampleCrates hourLater (fun _ => sampleRpc)
        sampleAddress sampleSlot (.number 17000000) = .error (.err (.outOfSync 301)) := by
  refine ⟨afterSync_reachable trivial, hourLater_behind, by decide +kernel, by decide +kernel, ?_⟩
  have hage : (afterSync honestBlocks).checkHeadAge hourLater =
      .error (.err (.outOfSync 301)) := by
    decide +kernel
  rw [getStorageAt, hage]

theorem sampleRpc_wraps : sampleRpc.Wraps := by
  refine ⟨fun _ _ _ error h => ?_, fun _ _ error h => ?_, fun _ error h => ?_⟩
  · cases h
  · cases h
    exact ⟨_, rfl⟩
  · cases h

theorem staleness_uniform_latest :
    Refused sampleCrates ⟨fun _ => .done ⟨.stop, .call [], 0⟩, id⟩ (afterSync honestBlocks)
      hourLater (fun _ => sampleRpc) (fun _ => sampleRpc) .latest (.getBalance sampleAddress) := by
  have hfits : GateFits (afterSync honestBlocks) hourLater .latest (.getBalance sampleAddress) :=
    fun _ => not_behind_and_ahead hourLater_behind
  exact ((staleness_uniform_iff sampleCrates ⟨fun _ => .done ⟨.stop, .call [], 0⟩, id⟩
    (afterSync honestBlocks) hourLater (fun _ => sampleRpc) (fun _ => sampleRpc)
    (fun _ => sampleRpc_wraps) .latest (.getBalance sampleAddress)).2 hfits).2
      ⟨rfl, hourLater_behind⟩

end Node

end Helios
