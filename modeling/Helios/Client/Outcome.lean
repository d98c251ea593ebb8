import Helios.Client.Deception

/-!
# What a lying server can make of a call

A call of the EVM asks for accounts and slots, and goes on with the answers.  The server chooses the
access list, may refuse any question, and answers the others as well as it can prove.

* `InfoAnswer`, `ValueAnswer` — the answers that it can prove.
* `Outcome` — the executions of a program over a state in which each question is answered so or
  refused; nothing is fetched ahead.
* `run_outcome`, `outcome_run` — the runs against the database have these outcomes, and all of them.
* `call_answers_iff` — **so these are exactly the outputs of `eth_call` that a server can bring
  about**, and the same of `eth_estimateGas`.
-/

set_option autoImplicit false

namespace Helios

variable {c : Crates} {state : ChainState c} {payload : ExecutionPayload} {payloads : Payloads}
  {address : Address}

/-! ## Answers -/

/-- The account as it is, or the account that does not exist. -/
def InfoAnswer (state : ChainState c) (address : Address) (info : AccountInfo) : Prop :=
  state.trie.root.isEmpty = false ∧
    (info = ⟨(state.account address).balance, (state.account address).nonce,
        (state.account address).code⟩ ∨
      info = ⟨0, 0, []⟩ ∧ Deniable state address)

def ValueAnswer (state : ChainState c) (address : Address) (slot value : U256) : Prop :=
  (state.account address).storage.root.isEmpty = false ∧
    SlotAnswer (state.account address) (ProofDB.slotOf slot) value

/-- A program over a state: what each question is answered with, and the result.  Block hashes are
    those of the payloads at hand. -/
inductive Outcome (state : ChainState c) (payloads : Payloads) :
    Program → ExecutionResult → Prop
  | done (result : ExecutionResult) : Outcome state payloads (.done result) result
  | precompile {address : Address} {next : Except Report (Option AccountInfo) → Program}
      {result : ExecutionResult} : isPrecompile address = true →
      Outcome state payloads (next (.ok (some ⟨0, 0, []⟩))) result →
      Outcome state payloads (.basic address next) result
  | account {address : Address} {next : Except Report (Option AccountInfo) → Program}
      {info : AccountInfo} {result : ExecutionResult} : isPrecompile address = false →
      InfoAnswer state address info → Outcome state payloads (next (.ok (some info))) result →
      Outcome state payloads (.basic address next) result
  | accountRefused {address : Address} {next : Except Report (Option AccountInfo) → Program}
      {result : ExecutionResult} (report : Report) : isPrecompile address = false →
      Outcome state payloads (next (.error report)) result →
      Outcome state payloads (.basic address next) result
  | slot {address : Address} {slot value : U256} {next : Except Report U256 → Program}
      {result : ExecutionResult} : ValueAnswer state address slot value →
      Outcome state payloads (next (.ok value)) result →
      Outcome state payloads (.storage address slot next) result
  | slotRefused {address : Address} {slot : U256} {next : Except Report U256 → Program}
      {result : ExecutionResult} (report : Report) :
      Outcome state payloads (next (.error report)) result →
      Outcome state payloads (.storage address slot next) result
  | blockHash {number : U256} {next : Except Report H256 → Program} {payload : ExecutionPayload}
      {result : ExecutionResult} : number.toNat < 2 ^ 64 →
      payloads[UInt64.ofNat number.toNat]? = some payload →
      Outcome state payloads (next (.ok payload.blockHash)) result →
      Outcome state payloads (.blockHash number next) result
  | noBlockHash {number : U256} {next : Except Report H256 → Program}
      {result : ExecutionResult} : number.toNat < 2 ^ 64 →
      payloads[UInt64.ofNat number.toNat]? = none →
      Outcome state payloads
        (next (.error (.blockNotFound (.number (UInt64.ofNat number.toNat))))) result →
      Outcome state payloads (.blockHash number next) result
  | codeByHash {codeHash : H256} {next : Except Report Bytes → Program}
      {result : ExecutionResult} :
      Outcome state payloads (next (.error (.message "should never be called"))) result →
      Outcome state payloads (.codeByHash codeHash next) result

/-! ## The answers of the database -/

/-- Every account of a map is an answer of `get_account`. -/
def AccountsAnswered (c : Crates) (payload : ExecutionPayload)
    (accounts : Std.HashMap Address Account) : Prop :=
  ∀ (address : Address) (account : Account), accounts[address]? = some account →
    ∃ w slots, getAccount c w address slots payload = .ok account

theorem fetchAccounts_answered {list : List AccessListItem} :
    ∀ {w : ExecutionWorld} {accountMap result : Std.HashMap Address Account},
      AccountsAnswered c payload accountMap →
        fetchAccounts c payload w list accountMap = .ok result →
          AccountsAnswered c payload result := by
  induction list with
  | nil =>
    intro w accountMap result hmap h
    cases h
    exact hmap
  | cons item rest ih =>
    intro w accountMap result hmap h
    rw [fetchAccounts] at h
    split at h
    · cases h
    · exact ih hmap h
    · rename_i account haccount
      refine ih (fun address found hfound => ?_) h
      rw [Std.HashMap.getElem?_insert] at hfound
      split at hfound
      · rename_i heq
        rw [beq_iff_eq] at heq
        cases hfound
        exact heq ▸ ⟨w, _, haccount⟩
      · exact hmap address found hfound

section Answers

variable (hempty : c.keccak256 [] = keccakEmpty) (hzero : c.hash [0x80] = emptyStorageHash)
  (hs : SealedState state) (hroot : payload.stateRoot = state.stateRoot)
include hempty hzero hs hroot

theorem getAccount_info {w : ExecutionWorld} {slots : Option (List H256)} {account : Account}
    (h : getAccount c w address slots payload = .ok account) :
    InfoAnswer state address (ProofDB.accountInfo account) := by
  obtain ⟨hne, hanswer⟩ := getAccount_answer hempty hzero hs hroot h
  refine ⟨hne, ?_⟩
  unfold ProofDB.accountInfo
  rcases hanswer with ⟨hnonce, hbalance, hcode, _⟩ | ⟨hnonce, hbalance, hcode, hdeniable, _⟩
  · exact Or.inl (by rw [hnonce, hbalance, hcode])
  · exact Or.inr ⟨by rw [hnonce, hbalance, hcode], hdeniable⟩

theorem getAccount_value {w : ExecutionWorld} {slots : Option (List H256)} {account : Account}
    (h : getAccount c w address slots payload = .ok account) {slot value : U256}
    (hslot : account.slots[ProofDB.slotOf slot]? = some value) :
    ValueAnswer state address slot value := by
  obtain ⟨_, ⟨_, _, _, hstorage⟩ | ⟨_, _, _, _, hnone⟩⟩ :=
    getAccount_answer hempty hzero hs hroot h
  · have hproved := (getAccount_proved hempty h).slots _ _ hslot
    rw [hstorage] at hproved
    exact (slotProved_iff (hs.slots address)).1 hproved
  · rw [hnone] at hslot
    cases hslot

variable {db : ProofDB} (hdb : AccountsAnswered c payload db.accounts)
  (hpayload : db.currentPayload = payload)
include hdb hpayload

/-- An account that the database serves, whether it was fetched ahead or is fetched now. -/
theorem basic_answer {w : ExecutionWorld} (hpre : isPrecompile address = false)
    {info : Option AccountInfo} (h : db.basic c w address = .ok info) :
    ∃ i, info = some i ∧ InfoAnswer state address i := by
  unfold ProofDB.basic at h
  rw [if_neg (by simp [hpre])] at h
  split at h
  · rename_i account haccount
    cases h
    obtain ⟨w, slots, hanswered⟩ := hdb address account haccount
    exact ⟨_, rfl, getAccount_info hempty hzero hs hroot hanswered⟩
  · split at h
    · cases h
    rename_i account haccount
    cases h
    unfold ProofDB.getAccount at haccount
    rw [hpayload] at haccount
    exact ⟨_, rfl, getAccount_info hempty hzero hs hroot haccount⟩

theorem storage_answer {w : ExecutionWorld} {slot value : U256}
    (h : db.storage c w address slot = .ok value) : ValueAnswer state address slot value := by
  have hfetch : db.fetchSlot c w address (ProofDB.slotOf slot) = .ok value →
      ValueAnswer state address slot value := by
    intro h
    unfold ProofDB.fetchSlot ProofDB.getAccount at h
    rw [hpayload] at h
    split at h
    · cases h
    rename_i account haccount
    split at h
    · rename_i found hfound
      cases h
      exact getAccount_value hempty hzero hs hroot haccount hfound
    · cases h
  unfold ProofDB.storage at h
  simp only at h
  split at h
  · rename_i account haccount
    split at h
    · rename_i found hfound
      cases h
      obtain ⟨w, slots, hanswered⟩ := hdb address account haccount
      exact getAccount_value hempty hzero hs hroot hanswered hfound
    · exact hfetch h
  · exact hfetch h

/-- **The runs against the database have these outcomes**, whatever the server answers.  Induction
    on the program; the database does not change on the way. -/
theorem run_outcome {program : Program} :
    ∀ {w : ExecutionWorld} {result : ExecutionResult}, program.run c db w = .ok result →
      Outcome state db.payloads program result := by
  induction program with
  | done result =>
    intro w result' h
    cases h
    exact .done result
  | basic address next ih =>
    intro w result h
    rw [Program.run] at h
    split at h
    · cases h
    rename_i answer hanswer
    have hnext := ih answer h
    cases hpre : isPrecompile address with
    | true =>
      have hbasic : db.basic c w address = .ok (some ⟨0, 0, []⟩) := by
        unfold ProofDB.basic
        rw [if_pos hpre]
      rw [hbasic] at hanswer
      cases hanswer
      exact .precompile hpre hnext
    | false =>
      cases answer with
      | error report => exact .accountRefused report hpre hnext
      | ok info =>
        obtain ⟨i, rfl, hinfo⟩ :=
          basic_answer hempty hzero hs hroot hdb hpayload hpre (asAnswer_ok hanswer)
        exact .account hpre hinfo hnext
  | storage address slot next ih =>
    intro w result h
    rw [Program.run] at h
    split at h
    · cases h
    rename_i answer hanswer
    have hnext := ih answer h
    cases answer with
    | error report => exact .slotRefused report hnext
    | ok value =>
      exact .slot (storage_answer hempty hzero hs hroot hdb hpayload (asAnswer_ok hanswer)) hnext
  | blockHash number next ih =>
    intro w result h
    rw [Program.run] at h
    split at h
    · cases h
    rename_i answer hanswer
    have hnext := ih answer h
    unfold ProofDB.blockHash asU64 at hanswer
    by_cases hnumber : number.toNat < 2 ^ 64
    · rw [if_pos hnumber] at hanswer
      simp only at hanswer
      split at hanswer
      · rename_i found hfound
        cases hanswer
        exact .blockHash hnumber hfound hnext
      · rename_i hnone
        cases hanswer
        exact .noBlockHash hnumber hnone hnext
    · rw [if_neg hnumber] at hanswer
      cases hanswer
  | codeByHash codeHash next ih =>
    intro w result h
    rw [Program.run] at h
    split at h
    · cases h
    rename_i answer hanswer
    cases hanswer
    exact .codeByHash (ih _ h)

end Answers

/-! ## A server for every outcome -/

/-- A server that has no access list and refuses every proof. -/
def refusing (report : Report) : ExecutionWorld := fun _ =>
  { getProof := fun _ _ _ => .error report
    createAccessList := fun _ _ => .ok []
    getCode := fun _ _ => .error report
    getTransactionReceipt := fun _ => .ok none
    getTransaction := fun _ => .ok none }

/-- Two moments of one server, and then those of another. -/
def ahead (w w' : ExecutionWorld) : ExecutionWorld := fun i => if i < 2 then w i else w' (i - 2)

theorem ahead_drop {w w' : ExecutionWorld} : (ahead w w').drop 2 = w' := by
  funext i
  unfold ExecutionWorld.drop ahead
  rw [if_neg (by omega), Nat.add_sub_cancel]

/-- With nothing at hand an account is fetched. -/
theorem new_basic {w : ExecutionWorld} (hpre : isPrecompile address = false) :
    (ProofDB.new payload payloads).basic c w address =
      (getAccount c w address (some []) payload).map
        fun account => some (ProofDB.accountInfo account) := by
  unfold ProofDB.basic ProofDB.getAccount ProofDB.new
  rw [if_neg (by simp [hpre])]
  simp only [Std.HashMap.getElem?_empty]
  cases getAccount c w address (some []) payload <;> rfl

theorem new_storage {w : ExecutionWorld} {slot : U256} :
    (ProofDB.new payload payloads).storage c w address slot =
      (ProofDB.new payload payloads).fetchSlot c w address (ProofDB.slotOf slot) := by
  unfold ProofDB.storage ProofDB.new
  simp only [Std.HashMap.getElem?_empty]

section Servers

variable (hempty : c.keccak256 [] = keccakEmpty) (hzero : c.hash [0x80] = emptyStorageHash)
  (hs : SealedState state) (hroot : payload.stateRoot = state.stateRoot)
include hempty hzero hs hroot

theorem exists_basic (hpre : isPrecompile address = false) {info : AccountInfo}
    (h : InfoAnswer state address info) :
    ∃ w, (ProofDB.new payload payloads).basic c w address = .ok (some info) := by
  have hiff := @getAccount_answers_iff c state address payload hempty hzero hs hroot
  obtain ⟨w, account, haccount, hinfo⟩ : ∃ w account,
      getAccount c w address (some []) payload = .ok account ∧
        ProofDB.accountInfo account = info := by
    obtain ⟨hne, rfl | ⟨rfl, hdeniable⟩⟩ := h
    · obtain ⟨w, account, haccount, hnonce, hbalance, hcode⟩ := hiff.2 ⟨hne, Or.inl ⟨rfl, rfl, rfl⟩⟩
      exact ⟨w, account, haccount, by rw [ProofDB.accountInfo, hnonce, hbalance, hcode]⟩
    · obtain ⟨w, account, haccount, hnonce, hbalance, hcode⟩ :=
        hiff.2 ⟨hne, Or.inr ⟨rfl, rfl, rfl, hdeniable⟩⟩
      exact ⟨w, account, haccount, by rw [ProofDB.accountInfo, hnonce, hbalance, hcode]⟩
  refine ⟨w, ?_⟩
  rw [new_basic hpre, haccount, ← hinfo]
  rfl

theorem exists_storage {slot value : U256} (h : ValueAnswer state address slot value) :
    ∃ w, (ProofDB.new payload payloads).storage c w address slot = .ok value := by
  obtain ⟨w, account, haccount, hslot⟩ := (getAccount_slot_iff hempty hzero hs hroot).2 h
  refine ⟨w, ?_⟩
  rw [new_storage]
  unfold ProofDB.fetchSlot ProofDB.getAccount ProofDB.new
  simp only [haccount, hslot]

/-- **Every outcome is that of a run**, with nothing at hand.  Induction on the outcome: the server
    of the rest is put behind two moments of the server for the first question. -/
theorem outcome_run {program : Program} {result : ExecutionResult}
    (h : Outcome state payloads program result) :
    ∃ w, program.run c (ProofDB.new payload payloads) w = .ok result := by
  induction h with
  | done result => exact ⟨refusing (.rpc "get_proof"), rfl⟩
  | @precompile address next result hpre _ ih =>
    obtain ⟨w, hrun⟩ := ih
    have hbasic : (ProofDB.new payload payloads).basic c (ahead w w) address =
        .ok (some ⟨0, 0, []⟩) := by
      unfold ProofDB.basic
      rw [if_pos hpre]
    refine ⟨ahead w w, ?_⟩
    rw [Program.run, hbasic, ahead_drop]
    exact hrun
  | @account address next info result hpre hinfo _ ih =>
    obtain ⟨w, hrun⟩ := ih
    obtain ⟨w', hbasic⟩ := exists_basic hempty hzero hs hroot hpre hinfo
    refine ⟨ahead w' w, ?_⟩
    have hahead : (ProofDB.new payload payloads).basic c (ahead w' w) address = _ := hbasic
    rw [Program.run, hahead, ahead_drop]
    exact hrun
  | @accountRefused address next result report hpre _ ih =>
    obtain ⟨w, hrun⟩ := ih
    have hbasic : (ProofDB.new payload payloads).basic c (ahead (refusing report) w) address =
        .error (.err report) := by
      rw [new_basic hpre]
      rfl
    refine ⟨ahead (refusing report) w, ?_⟩
    rw [Program.run, hbasic, ahead_drop]
    exact hrun
  | @slot address slot value next result hvalue _ ih =>
    obtain ⟨w, hrun⟩ := ih
    obtain ⟨w', hstorage⟩ := exists_storage hempty hzero hs hroot hvalue
    refine ⟨ahead w' w, ?_⟩
    have hahead : (ProofDB.new payload payloads).storage c (ahead w' w) address slot = _ :=
      hstorage
    rw [Program.run, hahead, ahead_drop]
    exact hrun
  | @slotRefused address slot next result report _ ih =>
    obtain ⟨w, hrun⟩ := ih
    have hstorage : (ProofDB.new payload payloads).storage c (ahead (refusing report) w) address
        slot = .error (.err report) := by
      rw [new_storage]
      rfl
    refine ⟨ahead (refusing report) w, ?_⟩
    rw [Program.run, hstorage, ahead_drop]
    exact hrun
  | @blockHash number next found result hnumber hfound _ ih =>
    obtain ⟨w, hrun⟩ := ih
    have hhash : (ProofDB.new payload payloads).blockHash number = .ok found.blockHash := by
      unfold ProofDB.blockHash asU64 ProofDB.new
      simp only [if_pos hnumber, hfound]
    refine ⟨ahead w w, ?_⟩
    rw [Program.run, hhash, ahead_drop]
    exact hrun
  | @noBlockHash number next result hnumber hnone _ ih =>
    obtain ⟨w, hrun⟩ := ih
    have hhash : (ProofDB.new payload payloads).blockHash number =
        .error (.err (.blockNotFound (.number (UInt64.ofNat number.toNat)))) := by
      unfold ProofDB.blockHash asU64 ProofDB.new
      simp only [if_pos hnumber, hnone]
    refine ⟨ahead w w, ?_⟩
    rw [Program.run, hhash, ahead_drop]
    exact hrun
  | @codeByHash codeHash next result _ ih =>
    obtain ⟨w, hrun⟩ := ih
    refine ⟨ahead w w, ?_⟩
    rw [Program.run, ahead_drop]
    exact hrun

/-- A call executes with a result that is an outcome; and with each of them, when the server has no
    access list and refuses the accounts that are fetched ahead. -/
theorem transact_answers_iff {evm : Env → Program} {chainId : UInt64} {opts : CallOpts}
    {result : ExecutionResult} :
    (∃ w w', transact c evm w w' (ProofDB.new payload payloads) chainId opts = .ok result) ↔
      ∃ env, getEnv payload chainId opts = .ok env ∧
        Outcome state payloads (evm env) result := by
  constructor
  · rintro ⟨w, w', h⟩
    unfold transact at h
    split at h
    · cases h
    rename_i accountMap hfetch
    simp only at h
    split at h
    · cases h
    rename_i env henv
    have hanswered : AccountsAnswered c payload accountMap := by
      unfold batchFetchAccounts at hfetch
      simp only at hfetch
      split at hfetch
      · cases hfetch
      · exact fetchAccounts_answered (fun address account h => by simp at h) hfetch
    exact ⟨env, henv, run_outcome hempty hzero hs hroot hanswered rfl h⟩
  · rintro ⟨env, henv, h⟩
    obtain ⟨w', hrun⟩ := outcome_run hempty hzero hs hroot h
    have hfetch : batchFetchAccounts c (refusing (.rpc "get_proof"))
        (ProofDB.new payload payloads) opts = .ok ∅ := rfl
    refine ⟨refusing (.rpc "get_proof"), w', ?_⟩
    unfold transact
    rw [hfetch]
    have henv' : getEnv ((ProofDB.new payload payloads).setAccounts ∅).currentPayload chainId
        opts = .ok env := henv
    simp only [henv']
    exact hrun

theorem transact_exists_iff {evm : Env → Program} {chainId : UInt64} {opts : CallOpts}
    {P : ExecutionResult → Prop} :
    (∃ w w' result, transact c evm w w' (ProofDB.new payload payloads) chainId opts = .ok result ∧
        P result) ↔
      ∃ env result, getEnv payload chainId opts = .ok env ∧
        Outcome state payloads (evm env) result ∧ P result := by
  constructor
  · rintro ⟨w, w', result, htransact, hresult⟩
    obtain ⟨env, henv, houtcome⟩ :=
      (transact_answers_iff hempty hzero hs hroot).1 ⟨w, w', htransact⟩
    exact ⟨env, result, henv, houtcome, hresult⟩
  · rintro ⟨env, result, henv, houtcome, hresult⟩
    obtain ⟨w, w', htransact⟩ :=
      (transact_answers_iff hempty hzero hs hroot).2 ⟨env, henv, houtcome⟩
    exact ⟨w, w', result, htransact, hresult⟩

end Servers

/-! ## The queries -/

/-- The execution came to its end. -/
def ExecutionResult.Ended (result : ExecutionResult) : Prop :=
  result.exitReason = .ret ∨ result.exitReason = .stop

theorem evmCall_ok_iff {evm : Env → Program} {w w' : ExecutionWorld} {db : ProofDB}
    {chainId : UInt64} {opts : CallOpts} {output : Bytes} :
    evmCall c evm w w' db chainId opts = .ok output ↔
      ∃ result, transact c evm w w' db chainId opts = .ok result ∧ result.Ended ∧
        result.out = .call output := by
  unfold evmCall ExecutionResult.Ended
  cases transact c evm w w' db chainId opts with
  | error e => simp
  | ok result =>
    obtain ⟨reason, out, gas⟩ := result
    cases reason <;> cases out <;> simp

theorem estimateGas_ok_iff {evm : Env → Program} {scale : UInt64 → UInt64}
    {w w' : ExecutionWorld} {db : ProofDB} {chainId : UInt64} {opts : CallOpts} {gas : UInt64} :
    estimateGas c evm scale w w' db chainId opts = .ok gas ↔
      ∃ result, transact c evm w w' db chainId opts = .ok result ∧ result.Ended ∧
        scale result.gasUsed = gas := by
  unfold estimateGas ExecutionResult.Ended
  cases transact c evm w w' db chainId opts with
  | error e => simp
  | ok result =>
    obtain ⟨reason, out, gas⟩ := result
    cases reason <;> simp

namespace Node

/-- **What a server can make of a call** on a block whose payload claims the root of a state.  The
    outputs of `eth_call` are those of the executions over the state in which every question for an
    account or a slot is answered as a server can prove it, or refused; the estimates of
    `eth_estimateGas` are those of the same executions on the latest block. -/
theorem call_answers_iff (c : Crates) (e : EvmCrate) (hempty : c.keccak256 [] = keccakEmpty)
    (hzero : c.hash [0x80] = emptyStorageHash) (state : ChainState c) (hs : SealedState state)
    (node : Node) (now : UInt64) (opts : CallOpts) (payload : ExecutionPayload)
    (hroot : payload.stateRoot = state.stateRoot) :
    (∀ block output, node.checkBlocktagAge now block = .ok () →
      node.getPayload block = .ok payload →
      ((∃ w w', node.call c e now w w' opts block = .ok output) ↔
        ∃ env result, getEnv payload node.chainId opts = .ok env ∧
          Outcome state node.payloads (e.evm env) result ∧ result.Ended ∧
          result.out = .call output)) ∧
    (∀ gas, node.checkHeadAge now = .ok () → node.getPayload .latest = .ok payload →
      ((∃ w w', node.estimateGas c e now w w' opts = .ok gas) ↔
        ∃ env result, getEnv payload node.chainId opts = .ok env ∧
          Outcome state node.payloads (e.evm env) result ∧ result.Ended ∧
          e.scaleGas result.gasUsed = gas)) := by
  refine ⟨fun block output hage hpayload => ?_, fun gas hage hpayload => ?_⟩
  · unfold call proofDB
    simp only [hage, hpayload, evmCall_ok_iff]
    exact transact_exists_iff hempty hzero hs hroot
  · unfold estimateGas proofDB
    simp only [hage, hpayload, estimateGas_ok_iff]
    exact transact_exists_iff hempty hzero hs hroot

/-! ## A call that reads a slot -/

/-- It returns the slot, or nothing if it is refused. -/
def slotReader : EvmCrate where
  evm := fun _ => .storage sampleAddress 1 fun answer =>
    .done ⟨.ret, .call (answer.toOption.elim [] fun value => Rlp.natBytes value.toNat), 0⟩
  scaleGas := id

/-- The server can bring about the slot as it is, what it puts in its place, and nothing. -/
theorem call_answers_slotReader : {output | ∃ w w', holding.call heldCrates slotReader
    1606824023 w w' ⟨none, none, none, none, none, none⟩ .latest = .ok output} =
      {Rlp.natBytes hashlike.toNat, [], Rlp.natBytes 495} := by
  ext output
  rw [Set.mem_ofPred_eq, Set.mem_insert_iff, Set.mem_insert_iff, Set.mem_singleton_iff,
    (call_answers_iff heldCrates slotReader (by decide +kernel) (by decide +kernel) heldState
      heldState_sealed holding 1606824023 ⟨none, none, none, none, none, none⟩ _
      (by decide +kernel)).1 .latest output holding_inSync holding_getPayload]
  constructor
  · rintro ⟨env, result, _, houtcome, _, hout⟩
    cases houtcome with
    | slot hvalue hdone =>
      cases hdone
      cases hout
      have hanswer := hvalue.2
      rw [heldState_account] at hanswer
      rcases heldSlot_answer_iff.1 hanswer with rfl | rfl | rfl
      · exact Or.inl rfl
      · exact Or.inr (Or.inl (by decide +kernel))
      · exact Or.inr (Or.inr rfl)
    | slotRefused report hdone =>
      cases hdone
      cases hout
      exact Or.inr (Or.inl rfl)
  · have hanswered : ∀ value, SlotAnswer heldAccount sampleSlot value →
        ValueAnswer heldState sampleAddress 1 value := by
      intro value hanswer
      refine ⟨?_, ?_⟩
      · rw [heldState_account]
        rfl
      · rw [heldState_account]
        exact hanswer
    rintro (rfl | rfl | rfl)
    · exact ⟨_, _, rfl, .slot (hanswered _ (heldSlot_answer_iff.2 (Or.inl rfl))) (.done _),
        Or.inl rfl, rfl⟩
    · exact ⟨_, _, rfl, .slotRefused (.rpc "get_proof") (.done _), Or.inl rfl, rfl⟩
    · exact ⟨_, _, rfl,
        .slot (hanswered _ (heldSlot_answer_iff.2 (Or.inr (Or.inr rfl)))) (.done _), Or.inl rfl,
        rfl⟩

end Node

end Helios
