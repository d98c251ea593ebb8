import Helios.Client.Backfill
import Helios.Client.Client

/-!
# When the services that name checkpoints are asked

`start` turns to them when the first `sync` fails with `CheckpointTooOld`.

* `RpcErrors` — a request that fails gives an `RpcError`; `RefusedForAge` — the age check of a
  strict configuration, reached and not passed.
* `sync_tooOld_iff` — **the first `sync` fails so exactly when the checkpoint is refused for its
  age**.
* `boot_snd` — what every call keeps, and every rebuilding for an `Offered` checkpoint.
* `Replaces`, `boot_replaces` — the checkpoint of a client that has started after that.
* `start_fallbacks` — **services have a say only then, the public ones only if asked for, and the
  checkpoint that replaces the old one is young**.
-/

set_option autoImplicit false

namespace Helios

open Attempt

variable {k : ConsensusCrates}

namespace ConsensusClient

variable {client client' : ConsensusClient} {now now' : UInt64} {update : GenericUpdate} {w : World}

/-- Every request that fails gives an `RpcError`. -/
structure RpcErrors (w : World) : Prop where
  updates : ∀ i period count e, (w i).rpc.getUpdates period count = .error e →
    ∃ method, e = .rpc method
  finality : ∀ i e, (w i).rpc.getFinalityUpdate = .error e → ∃ method, e = .rpc method
  optimistic : ∀ i e, (w i).rpc.getOptimisticUpdate = .error e → ∃ method, e = .rpc method
  chainId : ∀ i e, (w i).rpc.chainId = .error e → ∃ method, e = .rpc method

theorem RpcErrors.drop (h : RpcErrors w) (n : Nat) : RpcErrors (w.drop n) :=
  ⟨fun _ => h.updates _, fun _ => h.finality _, fun _ => h.optimistic _, fun _ => h.chainId _⟩

/-- The error of a checkpoint that is too old. -/
abbrev tooOld : Fault := .err (.consensus .checkpointTooOld)

theorem answer_ne_tooOld {α : Type} {r : Except Report α}
    (h : ∀ e, r = .error e → ∃ method, e = .rpc method) : answer r ≠ .error tooOld := by
  cases r with
  | ok a => exact fun h => by cases h
  | error e =>
    obtain ⟨method, rfl⟩ := h e rfl
    exact fun h => by cases h

theorem verifyGenericUpdate_ne_tooOld :
    client.verifyGenericUpdate k now update ≠ .error tooOld := by
  intro h
  unfold verifyGenericUpdate at h
  simp only at h
  split at h
  · cases h
  split at h
  · rename_i he
    cases h
    have := expectedCurrentSlot_error he
    cases this
  split at h
  · cases h
  split at h
  · cases h
  rename_i hperiod
  obtain ⟨committee, hcommittee⟩ := signingCommittee_ok (by simpa using hperiod)
  rw [hcommittee] at h
  simp only at h
  split at h
  · cases h
  split at h
  · cases h
  split at h
  · cases h
  split at h
  · rename_i he
    cases h
    obtain ⟨pk, _, hpk⟩ := collectResults_error he
    split at hpk <;> cases hpk
  · split at h <;> cases h

/-- Applying an update only fails in a panic. -/
theorem applyGenericUpdate_ne_err {e : Report} :
    client.applyGenericUpdate k now now' update ≠ .error (.err e) := by
  intro h
  have hage : ∀ {client : ConsensusClient} {now slot : UInt64}, client.age now slot ≠
      .error (.err e) := by
    intro client now slot he
    rcases age_error he with he | he <;> cases he
  unfold applyGenericUpdate at h
  simp only at h
  split at h
  · rename_i he
    cases h
    unfold applyOptimistic at he
    simp only at he
    split at he
    · split at he
      · rename_i hfault
        cases he
        exact hage hfault
      · cases he
    · cases he
  · rename_i mid _
    split at h
    · obtain ⟨rotated, hrotated⟩ : ∃ rotated, mid.applyCommittee update = .ok rotated :=
        applyCommittee_total
      rw [hrotated] at h
      simp only at h
      unfold applyFinalized at h
      split at h
      · split at h
        · cases h
        · split at h
          · rename_i hfault
            cases h
            exact hage hfault
          · cases h
      · cases h
    · cases h

theorem verifyAndApply_ne_tooOld : (verifyAndApply k w update client).1 ≠ .error tooOld := by
  unfold verifyAndApply
  refine request_ne_error verifyGenericUpdate_ne_tooOld fun _ => ?_
  exact request_ne_error applyGenericUpdate_ne_err fun _ h => by cases h

theorem applyUpdates_ne_tooOld : ∀ {updates : List Update} {w : World} {client : ConsensusClient},
    (applyUpdates k w updates client).1 ≠ .error tooOld
  | [], _, _ => fun h => by cases h
  | update :: updates, _, _ => by
    rw [applyUpdates]
    exact andThen_ne_error verifyAndApply_ne_tooOld fun _ => applyUpdates_ne_tooOld

theorem followHead_ne_tooOld (h : RpcErrors w) : (followHead k w client).1 ≠ .error tooOld := by
  unfold followHead
  refine request_ne_error (answer_ne_tooOld (h.finality 0)) fun _ => ?_
  refine andThen_ne_error verifyAndApply_ne_tooOld fun _ => ?_
  exact request_ne_error (answer_ne_tooOld (h.optimistic 4)) fun _ => verifyAndApply_ne_tooOld

/-- The bootstrap of the checkpoint is answered, and its header is too old for a strict
    configuration. -/
def RefusedForAge (w : World) (client : ConsensusClient) : Prop :=
  client.config.strictCheckpointAge = true ∧
    ∃ boot, (w 0).rpc.getBootstrap client.initialCheckpoint = .ok boot ∧
      client.isValidCheckpoint (w 1).now boot.header.slot = .ok false

theorem isValidCheckpoint_ne_err {slot : UInt64} {e : Report} :
    client.isValidCheckpoint now slot ≠ .error (.err e) := by
  intro h
  unfold isValidCheckpoint at h
  split at h
  · rename_i hslot
    cases h
    have := expectedCurrentSlot_error hslot
    cases this
  · cases h

theorem bootstrap_tooOld_iff : (bootstrap k w client).1 = .error tooOld ↔
    RefusedForAge w client := by
  unfold bootstrap RefusedForAge
  cases hboot : (w 0).rpc.getBootstrap client.initialCheckpoint with
  | error e => simp [answer, mapErr, request]
  | ok boot =>
    simp only [answer, mapErr, request, Except.ok.injEq, exists_eq_left']
    cases hvalid : client.isValidCheckpoint (w 1).now boot.header.slot with
    | error e =>
      refine iff_of_false (fun h => ?_) fun h => by cases h.2
      rw [Except.error.inj h] at hvalid
      exact isValidCheckpoint_ne_err hvalid
    | ok isValid =>
      by_cases hrefused : isValid = false ∧ client.config.strictCheckpointAge = true
      · simp [hrefused]
      · -- past the age check no error is this one
        have hno : ¬ (client.config.strictCheckpointAge = true ∧
            (Except.ok isValid : Result Bool) = .ok false) :=
          fun h => hrefused ⟨Except.ok.inj h.2, h.1⟩
        simp only [if_neg hrefused]
        refine iff_of_false (request_ne_error (fun h => ?_) fun root h => ?_) hno
        · cases hroot : k.headerRoot boot.header <;> rw [hroot] at h <;> cases h
        · split at h
          · cases h
          · split at h <;> cases h

/-- **A checkpoint is too old exactly when the age check refuses it.** -/
theorem sync_tooOld_iff (h : RpcErrors w) :
    (sync k w client).1 = .error tooOld ↔ RefusedForAge w client := by
  rw [← @bootstrap_tooOld_iff k client w, sync]
  obtain ⟨r, booted⟩ := bootstrap k w client
  cases r with
  | error e => exact Iff.rfl
  | ok u =>
    refine iff_of_false (request_ne_error (answer_ne_tooOld (h.updates 2 _ _)) fun updates => ?_)
      fun h => by cases h
    exact andThen_ne_error applyUpdates_ne_tooOld fun _ => followHead_ne_tooOld (h.drop _)

end ConsensusClient

namespace Node

open ConsensusClient

variable {node node' : Node} {w w' : World}

/-- The age check of the checkpoint is reached, and refuses it. -/
structure RefusedForAge (w : World) (node : Node) : Prop where
  execution : node.checkExecutionRpc w = .ok ()
  consensus : node.consensus.checkRpc (w.drop 1) = .ok ()
  age : ConsensusClient.RefusedForAge (w.drop 2) node.consensus

theorem mapErr_eq_err {α : Type} {f : Report → Report} {r : Result α} {e : Report} :
    mapErr f r = .error (.err e) ↔ ∃ e', r = .error (.err e') ∧ f e' = e := by
  cases r with
  | ok a => simp [mapErr]
  | error fault => cases fault <;> simp [mapErr]

theorem updatePayloads_ne_sync {e : Report} :
    (node.updatePayloads k w).1 ≠ .error (.err (.consensusSyncError e)) := by
  have hno : ∀ {α : Type} {r : Result α},
      mapErr .consensusPayloadError r ≠ .error (.err (.consensusSyncError e)) := by
    intro α r h
    obtain ⟨_, _, he⟩ := mapErr_eq_err.1 h
    cases he
  unfold updatePayloads
  refine request_ne_error hno fun _ => request_ne_error hno fun _ => ?_
  exact request_ne_error hno fun _ h => by cases h

/-- **The first `sync` asks for a newer checkpoint exactly when the age check refuses it.** -/
theorem sync_tooOld_iff (h : RpcErrors w) :
    (node.sync k w w').1 = .error (.err (.consensusSyncError (.consensus .checkpointTooOld))) ↔
      node.RefusedForAge w := by
  have hage := @ConsensusClient.sync_tooOld_iff k node.consensus _ (h.drop 2)
  have hparts : node.RefusedForAge w ↔ node.checkExecutionRpc w = .ok () ∧
      node.consensus.checkRpc (w.drop 1) = .ok () ∧
        ConsensusClient.RefusedForAge (w.drop 2) node.consensus :=
    ⟨fun ⟨hexecution, hconsensus, hrefused⟩ => ⟨hexecution, hconsensus, hrefused⟩,
      fun ⟨hexecution, hconsensus, hrefused⟩ => ⟨hexecution, hconsensus, hrefused⟩⟩
  rw [hparts, ← hage]
  unfold Node.sync syncConsensus
  cases hexecution : node.checkExecutionRpc w with
  | error e =>
    cases e <;> simp [mapErr, request, andThen]
  | ok u =>
    cases hconsensus : node.consensus.checkRpc (w.drop 1) with
    | error e =>
      have hne : e ≠ tooOld := by
        rintro rfl
        unfold checkRpc at hconsensus
        split at hconsensus
        · rename_i hanswer
          cases hconsensus
          exact answer_ne_tooOld (h.chainId 1) hanswer
        · split at hconsensus <;> cases hconsensus
      cases e with
      | panic p => simp [mapErr, request, andThen]
      | err e =>
        have hne' : e ≠ .consensus .checkpointTooOld := fun h => hne (by rw [h])
        simp [mapErr, request, andThen, hne']
    | ok u =>
      simp only [mapErr, request, true_and]
      unfold withConsensus
      obtain ⟨r, client⟩ := node.consensus.sync k (w.drop 2)
      cases r with
      | error e => cases e <;> simp [mapErr, andThen]
      | ok u => exact iff_of_false updatePayloads_ne_sync fun h => by cases h

/-! ## What the calls leave alone -/

theorem updatePayloads_config : (node.updatePayloads k w).2.config = node.config := by
  have h : Updated k w node (node.updatePayloads k w) := updatePayloads_updated
  generalize node.updatePayloads k w = r at h
  cases h with
  | kept _ => rfl
  | heads _ _ => rfl
  | full _ _ _ =>
    unfold prune insertBackfill
    rw [foldl_insertPayload]
    rfl

theorem run_config {call : Call} : (node.run k call w w').2.config = node.config := by
  have hhalf : (node.consensusHalf k call w).2.config = node.config := by
    obtain ⟨client, hframe⟩ : SamePayloads node (node.consensusHalf k call w).2 :=
      consensusHalf_frame
    rw [hframe]
  rcases run_cases with ⟨_, hrun⟩ | ⟨mid, hmid, hrun⟩
  · rw [hrun]
    exact hhalf
  · rw [hmid] at hhalf
    rw [hrun, updatePayloads_config]
    exact hhalf

/-- A node of a configuration, whose consensus client was built for a checkpoint. -/
structure Installed (config : Config) (checkpoint : Bytes) (node : Node) : Prop where
  configured : Configured config checkpoint node
  config : node.config = config

variable {config : Config} {checkpoint : Bytes}

theorem installed_new : Installed config checkpoint (Node.new checkpoint config) :=
  ⟨⟨rfl, rfl, rfl⟩, rfl⟩

theorem Installed.run (call : Call) (w w' : World) (h : Installed config checkpoint node) :
    Installed config checkpoint (node.run k call w w').2 :=
  ⟨configured_run h.configured, run_config.trans h.config⟩

/-- The consensus client is rebuilt for another checkpoint. -/
theorem Installed.rebuild (h : Installed config checkpoint node) (other : Bytes) :
    Installed config other { node with consensus := ConsensusClient.new other node.config } :=
  ⟨⟨h.config, rfl, h.configured.historySize⟩, h.config⟩

end Node

namespace ConsensusClient

variable {client client' : ConsensusClient} {w : World}

/-- **Whose bootstrap has succeeded has a header of an age that is taken.** -/
theorem bootstrap_age (h : bootstrap k w client = (.ok (), client')) :
    ∃ (boot : Bootstrap) (root : Bytes32) (isValid : Bool),
      k.headerRoot boot.header = some root ∧
      root.toList = client.initialCheckpoint ∧
      client.isValidCheckpoint (w 1).now boot.header.slot = .ok isValid ∧
      (isValid = true ∨ client.config.strictCheckpointAge = false) := by
  unfold bootstrap at h
  obtain ⟨boot, _, h⟩ := request_ok.1 h
  obtain ⟨isValid, hvalid, h⟩ := request_ok.1 h
  split at h
  · cases h
  rename_i hage
  obtain ⟨root, hroot, h⟩ := request_ok.1 h
  split at h
  · cases h
  rename_i hcheckpoint
  refine ⟨boot, root, isValid, rooted_ok.1 hroot, not_not.1 hcheckpoint, hvalid, ?_⟩
  cases isValid with
  | true => exact Or.inl rfl
  | false => exact Or.inr (by simpa using hage)

/-- A checkpoint whose header is young enough at a moment. -/
def Young (k : ConsensusCrates) (config : Config) (now : UInt64) (checkpoint : Bytes) : Prop :=
  ∃ (header : Header) (root : Bytes32), k.headerRoot header = some root ∧
    root.toList = checkpoint ∧
    (ConsensusClient.new checkpoint config).isValidCheckpoint now header.slot = .ok true

end ConsensusClient

namespace Node

open ConsensusClient

variable {node node' : Node} {w w' : World} {config : Config} {checkpoint : Bytes}

/-- A `sync` that is refused for the age of the checkpoint leaves the node alone. -/
theorem sync_refused (h : node.RefusedForAge w) : node.sync k w w' =
    (.error (.err (.consensusSyncError (.consensus .checkpointTooOld))), node) := by
  obtain ⟨hstrict, boot, hboot, hvalid⟩ := h.age
  have hrun : node.consensus.sync k (w.drop 2) = (.error tooOld, node.consensus) := by
    unfold ConsensusClient.sync bootstrap
    simp [hboot, hvalid, hstrict, answer, mapErr, request, andThen]
  unfold Node.sync syncConsensus
  rw [h.execution, h.consensus, hrun]
  rfl

/-- Under a strict configuration a `sync` that succeeds was for a young checkpoint. -/
theorem sync_young (h : Installed config checkpoint node)
    (hstrict : config.strictCheckpointAge = true) (hrun : node.sync k w w' = (.ok (), node')) :
    Young k config ((w.drop 2) 1).now checkpoint := by
  obtain ⟨mid, hmid, _⟩ := andThen_ok.1 hrun
  have hhalf : (node.consensusHalf k .sync w).1 ≠ .ok () ∧
      (node.consensusHalf k .sync w).2.consensus = node.consensus ∨ _ := consensusHalf_sync
  rcases hhalf with ⟨herr, _⟩ | ⟨client, hboot, _⟩
  · refine absurd ?_ herr
    change (node.syncConsensus k w).1 = .ok ()
    rw [hmid]
  · obtain ⟨boot, root, isValid, hroot, hcheckpoint, hvalid, hage⟩ := bootstrap_age hboot
    rw [h.configured.initialCheckpoint] at hcheckpoint
    refine ⟨boot.header, root, hroot, hcheckpoint, ?_⟩
    have htrue : isValid = true := by
      rcases hage with hage | hage
      · exact hage
      · rw [h.configured.config, hstrict] at hage
        cases hage
    have hconfig := h.configured.config
    subst hconfig
    rw [← htrue, ← hvalid]
    rfl

end Node

namespace Client

open ConsensusClient

variable {DB : Type} [Database DB] {world world' : StartWorld} {fallback : Option String}
  {loadExternalFallback : Bool} {node node' : Node} {config : Config} {checkpoint : Bytes}

/-! ## Booting -/

/-- A checkpoint that a service has named: the configured one, or the public ones if asked for. -/
inductive Offered (world : StartWorld) (fallback : Option String) (loadExternalFallback : Bool)
    (network : Network) : H256 → Prop
  | api {url : String} {root : H256} : fallback = some url →
      fetchCheckpointFromApi world.api url = .ok root →
      Offered world fallback loadExternalFallback network root
  | external {root : H256} : loadExternalFallback = true → fetchExternal world network = .ok root →
      Offered world fallback loadExternalFallback network root

/-- A condition on nodes that every call keeps, and every rebuilding for an offered checkpoint. -/
theorem bootFromFallback_snd {I : Node → Prop}
    (hsync : ∀ node w w', I node → I (node.sync k w w').2)
    (hrebuild : ∀ node root, I node →
      Offered world fallback loadExternalFallback (fallbackNetwork node) root →
      I { node with consensus := ConsensusClient.new root.toList node.config })
    (h : I node) : I (bootFromFallback k world fallback node).2 := by
  unfold bootFromFallback
  split
  · exact h
  · refine request_snd h fun root hroot => hsync _ _ _ (hrebuild _ _ h ?_)
    exact .api rfl (mapErr_ok.1 hroot)

theorem boot_snd {I : Node → Prop} (hsync : ∀ node w w', I node → I (node.sync k w w').2)
    (hrebuild : ∀ node root, I node →
      Offered world fallback loadExternalFallback (fallbackNetwork node) root →
      I { node with consensus := ConsensusClient.new root.toList node.config })
    (h : I node) : I (boot k world fallback loadExternalFallback node).2 := by
  have hown := hsync node world.sync.1 world.sync.2 h
  unfold boot
  split
  · rename_i hrun
    rw [hrun] at hown
    exact hown
  · rename_i hrun
    rw [hrun] at hown
    exact hown
  · rename_i hrun
    rw [hrun] at hown
    split
    · have hnext := bootFromFallback_snd (k := k) hsync hrebuild hown
      split
      · rename_i hnode
        rw [hnode] at hnext
        exact hnext
      · rename_i hnode
        rw [hnode] at hnext
        exact hnext
      · rename_i hnode
        rw [hnode] at hnext
        split
        · rename_i hload
          unfold bootFromExternalFallbacks
          refine request_snd hnext fun root hroot => hsync _ _ _ (hrebuild _ _ hnext ?_)
          exact .external hload hroot
        · exact hnext
    · exact hown
  · rename_i hrun
    rw [hrun] at hown
    exact hown

/-! ## Where a newer checkpoint comes from -/

/-- The checkpoint that replaces one that is too old: that of the configured service, or, when that
    way has failed and they are asked for, that of the public ones. -/
inductive Replaces (k : ConsensusCrates) (world : StartWorld) (config : Config)
    (fallback : Option String) (loadExternalFallback : Bool) (node : Node) : H256 → Prop
  | api {url : String} {root : H256} : fallback = some url →
      fetchCheckpointFromApi world.api url = .ok root →
      Young k config ((world.apiSync.1.drop 2) 1).now root.toList →
      Replaces k world config fallback loadExternalFallback node root
  | external {root : H256} : loadExternalFallback = true →
      (bootFromFallback k world fallback node).1 ≠ .ok () →
      fetchExternal world (fallbackNetwork node) = .ok root →
      Young k config ((world.externalSync.1.drop 2) 1).now root.toList →
      Replaces k world config fallback loadExternalFallback node root

theorem syncFrom_ok {root : H256} {w : World × World} (h : Node.Installed config checkpoint node)
    (hstrict : config.strictCheckpointAge = true)
    (hrun : syncFrom k root w node = (.ok (), node')) :
    Node.Installed config root.toList node' ∧
      Young k config ((w.1.drop 2) 1).now root.toList := by
  have hrebuilt := h.rebuild root.toList
  refine ⟨?_, Node.sync_young hrebuilt hstrict hrun⟩
  have hkept : Node.Installed config root.toList (syncFrom k root w node).2 :=
    hrebuilt.run .sync w.1 w.2
  rw [hrun] at hkept
  exact hkept

theorem boot_replaces (hnode : Node.Installed config checkpoint node)
    (h : node.RefusedForAge world.sync.1)
    (hrun : boot k world fallback loadExternalFallback node = (.ok (), node')) :
    ∃ root, Replaces k world config fallback loadExternalFallback node root ∧
      Node.Installed config root.toList node' := by
  have hstrict : config.strictCheckpointAge = true := by
    rw [← hnode.configured.config]
    exact h.age.1
  unfold boot at hrun
  rw [Node.sync_refused h] at hrun
  simp only [if_true] at hrun
  have hinstalled : ∃ other, Node.Installed config other
      (bootFromFallback k world fallback node).2 := by
    refine bootFromFallback_snd (I := fun node => ∃ other, Node.Installed config other node)
      ?_ (fun node root hother (_ : Offered world fallback loadExternalFallback _ _) => ?_)
      ⟨_, hnode⟩
    · rintro node w w' ⟨other, hnode⟩
      exact ⟨other, hnode.run .sync w w'⟩
    · obtain ⟨other, hnode⟩ := hother
      exact ⟨_, hnode.rebuild _⟩
  split at hrun
  · rename_i hfallback
    cases hrun
    unfold bootFromFallback at hfallback
    split at hfallback
    · cases hfallback
    · obtain ⟨root, hfetch, hsync⟩ := request_ok.1 hfallback
      obtain ⟨hnode', hyoung⟩ := syncFrom_ok hnode hstrict hsync
      exact ⟨root, .api rfl (mapErr_ok.1 hfetch) hyoung, hnode'⟩
  · cases hrun
  · rename_i mid hfallback
    rw [hfallback] at hinstalled
    obtain ⟨other, hmid⟩ := hinstalled
    split at hrun
    · rename_i hload
      obtain ⟨root, hfetch, hsync⟩ := request_ok.1 hrun
      obtain ⟨hnode', hyoung⟩ := syncFrom_ok hmid hstrict hsync
      have hnetwork : fallbackNetwork mid = fallbackNetwork node := by
        unfold fallbackNetwork
        rw [hmid.config, hnode.config]
      rw [hnetwork] at hfetch
      exact ⟨root, .external hload (by rw [hfallback]; simp) hfetch hyoung, hnode'⟩
    · cases hrun

/-- The server socket, the first `sync` and the disk of two runs are the same. -/
structure SameServers (world world' : StartWorld) : Prop where
  bind : world.bind = world'.bind
  sync : world.sync = world'.sync
  save : world.save = world'.save

/-- And so is the configured service, and what a `sync` from its checkpoint meets. -/
structure SameFallback (world world' : StartWorld) : Prop extends SameServers world world' where
  api : world.api = world'.api
  apiSync : world.apiSync = world'.apiSync

theorem boot_same (hrpc : RpcErrors world.sync.1) (h : ¬ node.RefusedForAge world.sync.1)
    (hsync : world.sync = world'.sync) :
    boot k world fallback loadExternalFallback node =
      boot k world' fallback loadExternalFallback node := by
  have hne : (node.sync k world.sync.1 world.sync.2).1 ≠
      .error (.err (.consensusSyncError (.consensus .checkpointTooOld))) :=
    mt (Node.sync_tooOld_iff hrpc).1 h
  unfold boot
  rw [← hsync]
  generalize node.sync k world.sync.1 world.sync.2 = r at hne ⊢
  split
  · rfl
  · rfl
  · rename_i e mid
    have htoo : e ≠ .consensus .checkpointTooOld := by
      rintro rfl
      exact hne rfl
    rw [if_neg htoo, if_neg htoo]
  · rfl

theorem boot_sameFallback (h : SameFallback world world') :
    boot k world fallback false node = boot k world' fallback false node := by
  have hfallback : bootFromFallback k world fallback = bootFromFallback k world' fallback := by
    unfold bootFromFallback
    rw [h.api, h.apiSync]
  unfold boot
  rw [h.sync, hfallback]
  simp only [Bool.false_eq_true, if_false]

/-- **What the services that name checkpoints have a say in.**  When the first `sync` does not reach
    the age check, or passes it, `start` does the same whatever all of them do, and without
    `load_external_fallback` whatever the public ones do.  When a strict age check refuses the
    checkpoint, a client that starts has one that replaces it, whose header passed the check at the
    moment of its own `sync`. -/
theorem start_fallbacks (k : ConsensusCrates) (client : Client DB) (disk : Disk)
    (world world' : StartWorld) (hrpc : RpcErrors world.sync.1) :
    (¬ client.node.RefusedForAge world.sync.1 → SameServers world world' →
      start k world (client, disk) = start k world' (client, disk)) ∧
    (client.loadExternalFallback = false → SameFallback world world' →
      start k world (client, disk) = start k world' (client, disk)) ∧
    ∀ config checkpoint s', client.node.RefusedForAge world.sync.1 →
      Node.Installed config checkpoint client.node →
      start k world (client, disk) = (.ok (), s') →
      ∃ root, Replaces k world config client.fallback client.loadExternalFallback client.node root ∧
        s'.1.node.consensus.initialCheckpoint = root.toList := by
  refine ⟨fun hage hsame => ?_, fun hload hsame => ?_, fun config checkpoint s' hage hnode h => ?_⟩
  · unfold start startRpc
    rw [boot_same hrpc hage hsame.sync, hsame.bind, hsame.save]
  · unfold start startRpc
    rw [hload, boot_sameFallback hsame, hsame.bind, hsame.save]
  · obtain ⟨_, _, hrun⟩ := request_ok.1 h
    split at hrun
    · cases hrun
    · rename_i hboot
      cases hrun
      obtain ⟨root, hreplaces, hnode'⟩ := boot_replaces hnode hage hboot
      exact ⟨root, hreplaces, hnode'.configured.initialCheckpoint⟩

/-! ## A service that names the checkpoint -/

section Service

open Node

/-- Mainnet, with a strict age check. -/
def strictMainnet : Config := { mainnet with strictCheckpointAge := true }

/-- The server answers every bootstrap with a header of the first slot. -/
def agedMoment : Moment :=
  { headMoment [] with
    rpc :=
      { (headMoment []).rpc with
        getBootstrap := fun _ => .ok
          { checkpointBootstrap with header := { checkpointHeader with slot := 0 } } } }

/-- The checkpoint is too old, and a service names another one. -/
def serviceWorld : StartWorld where
  bind _ := .ok ()
  sync := (fun _ => agedMoment, fun _ => agedMoment)
  api _ := some ⟨⟨[⟨6400000, some checkpointRoot, none, 200000⟩]⟩⟩
  apiSync := (fun _ => headMoment honestBlocks, fun _ => headMoment honestBlocks)
  servicesList := none
  order := storedOrder
  queryService _ _ := none
  externalSync := (fun _ => agedMoment, fun _ => agedMoment)
  save := ⟨true, .upTo 32⟩

def agedNode : Node := Node.new (zeroBytes 32).toList strictMainnet

def serviceClient : Client FileDB where
  node := agedNode
  rpc := none
  db := ⟨"data", []⟩
  fallback := some "service"
  loadExternalFallback := false

theorem agedNode_refused : agedNode.RefusedForAge serviceWorld.sync.1 where
  execution := rfl
  consensus := rfl
  age := ⟨rfl, { checkpointBootstrap with header := { checkpointHeader with slot := 0 } }, rfl,
    by decide +kernel⟩

theorem serviceWorld_rpcErrors : RpcErrors serviceWorld.sync.1 where
  updates _ _ _ _ h := by
    simp [serviceWorld, agedMoment, headMoment, chainMoment, checkpointRpc] at h
  finality _ _ h := by
    simp [serviceWorld, agedMoment, headMoment, chainMoment, checkpointRpc] at h
  optimistic _ _ h := by
    simp [serviceWorld, agedMoment, headMoment, chainMoment, checkpointRpc] at h
  chainId _ _ h := by
    simp [serviceWorld, agedMoment, headMoment, chainMoment, checkpointRpc] at h

/-- The client of the checkpoint that the service names, following the head. -/
def strictClient : ConsensusClient := { clientAt headHeader with config := strictMainnet }

theorem strict_sync : ConsensusClient.sync chainCrates (fun _ => headMoment honestBlocks)
    (ConsensusClient.new checkpointRoot.toList strictMainnet) = (.ok (), strictClient) := by
  have hage : (ConsensusClient.new checkpointRoot.toList strictMainnet).isValidCheckpoint
      1683624059 checkpointBootstrap.header.slot = .ok true := by
    decide +kernel
  have hroot : chainCrates.headerRoot checkpointBootstrap.header = some checkpointRoot := by
    decide +kernel
  have hboot : bootstrap chainCrates (fun _ => headMoment honestBlocks)
      (ConsensusClient.new checkpointRoot.toList strictMainnet) =
        (.ok (), { bootstrapped with config := strictMainnet }) := by
    rw [bootstrap_of_valid rfl hage hroot rfl chain_committee_valid]
    rfl
  have hfollow : followHead chainCrates (fun _ => headMoment honestBlocks)
      { bootstrapped with config := strictMainnet } = (.ok (), strictClient) :=
    followHead_chain (by decide +kernel) (apply_oneBit rfl rfl) (by decide +kernel)
      (apply_oneBit rfl rfl)
  unfold ConsensusClient.sync
  exact andThen_ok.2 ⟨_, hboot, request_ok.2 ⟨[], rfl, andThen_ok.2 ⟨_, rfl, hfollow⟩⟩⟩

theorem syncFrom_of_half {root : H256} {w : World × World} {node mid : Node}
    (h : ({ node with consensus := ConsensusClient.new root.toList node.config }).syncConsensus
      k w.1 = (.ok (), mid)) :
    syncFrom k root w node = mid.updatePayloads k w.2 := by
  have hhalf : consensusHalf k .sync w.1 _ = _ := h
  exact run_of_half hhalf

/-- A start by way of the configured service. -/
theorem start_of_service {client : Client DB} {disk : Disk} {url : String} {root : H256}
    (hrpc : startRpc world client = .ok ()) (hfallback : client.fallback = some url)
    (h : client.node.RefusedForAge world.sync.1)
    (hfetch : fetchCheckpointFromApi world.api url = .ok root)
    (hsync : (syncFrom k root world.apiSync client.node).1 = .ok ()) :
    (start k world (client, disk)).1 = .ok () ∧ (start k world (client, disk)).2.1.node =
      (syncFrom k root world.apiSync client.node).2 := by
  have hservice : bootFromFallback k world (some url) client.node =
      (.ok (), (syncFrom k root world.apiSync client.node).2) := by
    unfold bootFromFallback
    exact request_ok.2 ⟨root, mapErr_ok.2 hfetch, Attempt.eq_ok hsync rfl⟩
  have hboot : boot k world client.fallback client.loadExternalFallback client.node =
      (.ok (), (syncFrom k root world.apiSync client.node).2) := by
    unfold boot
    rw [sync_refused h, hfallback]
    simp only [if_true, hservice]
  unfold start
  simp only [hrpc, request, hboot, and_self]

theorem strict_half : ({ agedNode with
      consensus := ConsensusClient.new checkpointRoot.toList agedNode.config }).syncConsensus
        chainCrates serviceWorld.apiSync.1 =
      (.ok (), { agedNode with consensus := strictClient }) := by
  unfold syncConsensus
  refine request_ok.2 ⟨(), rfl, request_ok.2 ⟨(), rfl, ?_⟩⟩
  have hsync : ConsensusClient.sync chainCrates (serviceWorld.apiSync.1.drop 2)
      (ConsensusClient.new checkpointRoot.toList agedNode.config) = (.ok (), strictClient) :=
    strict_sync
  simp only [hsync]
  rfl

theorem service_syncFrom :
    (syncFrom chainCrates checkpointRoot serviceWorld.apiSync serviceClient.node).1 = .ok () := by
  have hnode : serviceClient.node = agedNode := rfl
  rw [hnode, syncFrom_of_half strict_half]
  decide +kernel

theorem service_start :
    (start chainCrates serviceWorld (serviceClient, fun _ => none)).1 = .ok () ∧
      (start chainCrates serviceWorld (serviceClient, fun _ => none)).2.1.node.consensus =
        strictClient := by
  have hfetch : fetchCheckpointFromApi serviceWorld.api "service" = .ok checkpointRoot := rfl
  obtain ⟨hok, hnode⟩ : (start chainCrates serviceWorld (serviceClient, fun _ => none)).1 =
      .ok () ∧ _ := start_of_service rfl rfl agedNode_refused hfetch service_syncFrom
  refine ⟨hok, ?_⟩
  have hsame : serviceClient.node = agedNode := rfl
  rw [hnode, hsame, syncFrom_of_half strict_half, updatePayloads_frame.1]

/-- The checkpoint is refused for its age, and the client starts from the one the service names. -/
theorem start_fallbacks_service : ∃ root,
    Replaces chainCrates serviceWorld strictMainnet (some "service") false agedNode root ∧
      (start chainCrates serviceWorld
        (serviceClient, fun _ => none)).2.1.node.consensus.initialCheckpoint = root.toList := by
  obtain ⟨_, _, hreplaced⟩ := start_fallbacks chainCrates serviceClient (fun _ => none) serviceWorld
    serviceWorld serviceWorld_rpcErrors
  exact hreplaced strictMainnet _ _ agedNode_refused installed_new
    (Attempt.eq_ok service_start.1 rfl)

end Service

end Client

end Helios
