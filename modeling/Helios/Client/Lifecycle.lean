import Helios.Client.Start
import Helios.Consensus.Checkpoint
import Helios.Consensus.Members

/-!
# Restarts

One process at a time runs a client over one disk.  It can be killed at any moment, a save can stop
anywhere, and the servers answer what they like.

* `Host`, `HostStep` — the disk and the process, and what can happen to them.
* `TrueChain` — what the signers are trusted for; `trueChain_of_faithful` — it is enough that a
  third of every committee is faithful.
* `Node.Trusted`, `Host.Trusted` — the invariant; `hostStep_trusted` — one step keeps it.
* `lifecycle_safe` — **a client that is synced follows the chain, whatever happened before, and no
  other checkpoint is ever found on the disk**.
-/

set_option autoImplicit false

namespace Helios

open Attempt CutWrite

/-- A disk, and the client that the process runs, if there is one. -/
structure Host (DB : Type) where
  disk : Disk
  running : Option (Client DB)

inductive Event where
  | launch (config : ClientConfig) (io : Extent)
  | start (world : StartWorld)
  | advance (w w' : World)
  | shutdown (io : SaveIo)
  | exit

namespace Client

variable {DB : Type}

/-- One round of the thread that `start` spawns. -/
def advance (k : ConsensusCrates) (w w' : World) (s : Client DB × Disk) :
    Attempt Fault (Client DB × Disk) :=
  ((s.1.node.advance k w w').1, ({ s.1 with node := (s.1.node.advance k w w').2 }, s.2))

end Client

/-- The process after a call: a panic aborts it. -/
def Host.after {DB : Type} (r : Attempt Fault (Client DB × Disk)) : Host DB :=
  match r.1 with
  | .error (.panic _) => ⟨r.2.2, none⟩
  | .error (.err _) => ⟨r.2.2, some r.2.1⟩
  | .ok () => ⟨r.2.2, some r.2.1⟩

/-- What can happen to a host.  A start that fails may be tried again. -/
inductive HostStep {DB : Type} [Database DB] (k : ConsensusCrates) :
    Host DB → Event → Host DB → Prop
  | launch {disk : Disk} {parses : String → Bool} {config : ClientConfig} {io : Extent}
      {client : Client DB} : Client.new parses config io disk = .ok client →
      HostStep k ⟨disk, none⟩ (.launch config io) ⟨disk, some client⟩
  | start {disk : Disk} {client : Client DB} {world : StartWorld} :
      HostStep k ⟨disk, some client⟩ (.start world) (.after (Client.start k world (client, disk)))
  | advance {disk : Disk} {client : Client DB} {w w' : World} :
      HostStep k ⟨disk, some client⟩ (.advance w w') (.after (Client.advance k w w' (client, disk)))
  | shutdown {disk : Disk} {client : Client DB} {io : SaveIo} :
      HostStep k ⟨disk, some client⟩ (.shutdown io) ⟨client.shutdown io disk, some client⟩
  | exit {disk : Disk} {client : Client DB} :
      HostStep k ⟨disk, some client⟩ .exit ⟨disk, none⟩

/-- The runs of a host, from a disk of which a condition holds, whose events meet one. -/
def hosting {DB : Type} [Database DB] (k : ConsensusCrates) (OnDisk : Disk → Prop)
    (Meets : Host DB → Event → Prop) : System (Host DB) where
  init host := OnDisk host.disk ∧ host.running = none
  step host host' := ∃ event, Meets host event ∧ HostStep k host event host'

variable {k : ConsensusCrates} {config : Config} {checkpoint : Bytes}
  {comm : UInt64 → SyncCommittee} {final : UInt64 → Header}

/-! ## The chain -/

/-- `comm` and `final` name the committee of each period and the finalized header of each slot.  A
    header of the chain commits to its committee, two thirds of a committee never sign for another
    next committee or another finalized header, and no two headers have one root. -/
structure TrueChain (k : ConsensusCrates) (config : Config) (comm : UInt64 → SyncCommittee)
    (final : UInt64 → Header) : Prop where
  current : ∀ header committee branch, header = final header.slot →
    isCurrentCommitteeProofValid k header committee branch = true →
    committee = comm (calcSyncPeriod header.slot)
  next : ∀ update committee branch,
    ConsensusClient.SignedBy k config (comm (calcSyncPeriod update.signatureSlot)) update →
    update.nextSyncCommittee = some committee → update.nextSyncCommitteeBranch = some branch →
    isNextCommitteeProofValid k update.attestedHeader committee branch = true →
    committee = comm (calcSyncPeriod update.attestedHeader.slot + 1)
  finalized : ∀ update header branch,
    ConsensusClient.SignedBy k config (comm (calcSyncPeriod update.signatureSlot)) update →
    update.finalizedHeader = some header → update.finalityBranch = some branch →
    isFinalityProofValid k update.attestedHeader header branch = true →
    header = final header.slot
  roots : ∀ header header' root, k.headerRoot header = some root →
    k.headerRoot header' = some root → header = header'

section Chain

open ConsensusClient

/-- What 171 faithful members of each committee are good for. -/
theorem trueChain_of_faithful {Attested : Header → Prop} {Signed : k.PublicKey → Bytes → Prop}
    {faithful : UInt64 → Finset (Fin 512)} (hsigned : Unforgeable k Signed)
    (hchain : ChainStates k comm final Attested)
    (hfaithful : FaithfulMembers k config comm Attested Signed faithful)
    (henough : ∀ period, 171 ≤ (faithful period).card)
    (hroots : ∀ header header' root, k.headerRoot header = some root →
      k.headerRoot header' = some root → header = header') : TrueChain k config comm final where
  current := hchain.current
  next _ _ _ hby _ _ hvalid :=
    hchain.next _ _ _ (hby.attested hsigned hfaithful (henough _)) hvalid
  finalized _ _ _ hby _ _ hvalid :=
    hchain.finalized _ _ _ (hby.attested hsigned hfaithful (henough _)) hvalid
  roots := hroots

theorem TrueChain.committees (h : TrueChain k config comm final)
    (hcheckpoint : OfChain k final checkpoint) : TrueCommittees k config checkpoint comm where
  bootstrap := by
    rintro client ⟨w, client₀, _, rfl, hboot⟩
    obtain ⟨boot, root, hroot, heq, hvalid, rfl⟩ := bootstrap_ok hboot
    exact h.current _ _ _ (hcheckpoint _ _ hroot heq) hvalid
  signed := h.next

theorem TrueChain.headers (h : TrueChain k config comm final)
    (hcheckpoint : OfChain k final checkpoint) : TrueHeaders k config checkpoint comm final where
  bootstrap := by
    rintro client ⟨w, client₀, _, rfl, hboot⟩
    obtain ⟨boot, root, hroot, heq, _, rfl⟩ := bootstrap_ok hboot
    exact hcheckpoint _ _ hroot heq
  signed := h.finalized

/-- The root of a header of the chain is a canonical checkpoint. -/
theorem TrueChain.canonical (h : TrueChain k config comm final) {header : Header} {root : Bytes32}
    (hheader : header = final header.slot) (hroot : k.headerRoot header = some root) :
    OfChain k final root.toList := by
  intro other root' hother heq
  have hsame : root' = root := Vector.toList_inj.1 heq
  rw [hsame] at hother
  rw [h.roots _ _ _ hother hroot]
  exact hheader

end Chain

namespace ConsensusClient

variable {client client' : ConsensusClient}

/-- The checkpoint that would be saved. -/
def SavesOnly (P : Bytes → Prop) (client : ConsensusClient) : Prop :=
  ∀ checkpoint, client.lastCheckpoint = some checkpoint → P checkpoint ∧ checkpoint.length = 32

theorem updateStep_saves {update : GenericUpdate} {P : Bytes → Prop}
    (h : UpdateStep k client update client') (hsaves : client.SavesOnly P)
    (hnew : ∀ root, k.headerRoot client'.store.finalizedHeader = some root → P root.toList) :
    client'.SavesOnly P := by
  obtain ⟨_, _, now, now', happly⟩ := h
  intro checkpoint hlast
  rcases applied_checkpoint happly with ⟨_, hsame⟩ | ⟨_, _, hchecked⟩
  · rw [hsame] at hlast
    exact hsaves _ hlast
  · rw [hchecked] at hlast
    unfold checkpointOf at hlast
    split at hlast
    · split at hlast
      · rename_i root hroot
        cases hlast
        exact ⟨hnew root hroot, Vector.length_toList⟩
      · exact hsaves _ hlast
    · exact hsaves _ hlast

/-- **Only checkpoints of the chain are saved.** -/
theorem updateSteps_saves (hchain : TrueChain k config comm final)
    (hcheckpoint : OfChain k final checkpoint)
    (h : (lightClient k config checkpoint).Reachable client)
    (hsaves : client.SavesOnly (OfChain k final)) (hsteps : UpdateSteps k client client') :
    client'.SavesOnly (OfChain k final) := by
  induction hsteps with
  | refl => exact hsaves
  | @tail mid client' hsteps hlast ih =>
    have hmid : (lightClient k config checkpoint).Reachable mid := h.steps hsteps
    obtain ⟨update, hstep⟩ := hlast
    refine updateStep_saves hstep ih fun root hroot => hchain.canonical ?_ hroot
    exact reachable_final (hchain.committees hcheckpoint) (hchain.headers hcheckpoint)
      (hmid.step ⟨update, hstep⟩)

end ConsensusClient

namespace Node

open ConsensusClient

variable {node node' : Node} {call : Call} {w w' : World}

/-- A node that was built for a checkpoint of the chain, and saves no other. -/
structure Trusted (k : ConsensusCrates) (config : Config) (final : UInt64 → Header) (node : Node) :
    Prop where
  followed : ∃ checkpoint, OfChain k final checkpoint ∧ Installed config checkpoint node ∧
    Followed k config checkpoint node
  saves : node.consensus.SavesOnly (OfChain k final)

theorem trusted_new (hcheckpoint : OfChain k final checkpoint) :
    Trusted k config final (Node.new checkpoint config) where
  followed := ⟨checkpoint, hcheckpoint, installed_new, Or.inl ⟨rfl, rfl, rfl⟩⟩
  saves _ h := by cases h

theorem Trusted.rebuild (h : Trusted k config final node) {root : H256}
    (hroot : OfChain k final root.toList) : Trusted k config final
      { node with consensus := ConsensusClient.new root.toList node.config } := by
  obtain ⟨checkpoint, _, hinstalled, _⟩ := h.followed
  have hrebuilt := hinstalled.rebuild root.toList
  refine ⟨⟨root.toList, hroot, hrebuilt, Or.inl ⟨rfl, hrebuilt.configured.config, rfl⟩⟩, ?_⟩
  intro checkpoint hlast
  cases hlast

/-- **A call saves only checkpoints of the chain.** -/
theorem run_saves (hzero : k.publicKey (zeroBytes 48) = none)
    (hchain : TrueChain k config comm final) (hcheckpoint : OfChain k final checkpoint)
    (hconfigured : Configured config checkpoint node)
    (hfollowed : Followed k config checkpoint node)
    (hsaves : node.consensus.SavesOnly (OfChain k final)) :
    (node.run k call w w').2.consensus.SavesOnly (OfChain k final) := by
  have hhalf : (node.consensusHalf k call w).2.consensus.SavesOnly (OfChain k final) := by
    cases call with
    | sync =>
      rcases consensusHalf_sync with ⟨_, hsame⟩ | ⟨client, hboot, hsteps⟩
      · rw [hsame]
        exact hsaves
      · have hclient : (lightClient k config checkpoint).Reachable client :=
          .init ⟨_, _, hconfigured.config, hconfigured.initialCheckpoint, hboot⟩
        refine updateSteps_saves hchain hcheckpoint hclient ?_ hsteps
        obtain ⟨_, _, _, _, _, rfl⟩ := bootstrap_ok hboot
        exact hsaves
    | advance =>
      rw [consensusHalf_advance.2]
      rcases hfollowed with hunsynced | hreachable
      · rw [(advance_unsynced hzero hunsynced.1).2]
        exact hsaves
      · exact updateSteps_saves hchain hcheckpoint hreachable hsaves advance_steps
  rcases run_cases with ⟨_, hrun⟩ | ⟨mid, hmid, hrun⟩
  · rw [hrun]
    exact hhalf
  · rw [hmid] at hhalf
    rw [hrun, updatePayloads_frame.1]
    exact hhalf

theorem Trusted.run (hzero : k.publicKey (zeroBytes 48) = none)
    (hchain : TrueChain k config comm final) (call : Call) (w w' : World)
    (h : Trusted k config final node) :
    Trusted k config final (node.run k call w w').2 := by
  obtain ⟨checkpoint, hcheckpoint, hinstalled, hfollowed⟩ := h.followed
  exact ⟨⟨checkpoint, hcheckpoint, hinstalled.run call w w', followed_run hzero hfollowed⟩,
    run_saves hzero hchain hcheckpoint hinstalled.configured hfollowed h.saves⟩

/-- The store of a synced node is of the chain. -/
structure OnChain (comm : UInt64 → SyncCommittee) (final : UInt64 → Header)
    (store : LightClientStore) : Prop where
  finalized : store.finalizedHeader = final store.finalizedHeader.slot
  committees : Aligned comm store

theorem Trusted.onChain (hchain : TrueChain k config comm final) (h : Trusted k config final node)
    (hsynced : node.consensus.store ≠ default) : OnChain comm final node.consensus.store := by
  obtain ⟨checkpoint, hcheckpoint, _, hfollowed⟩ := h.followed
  rcases hfollowed with hunsynced | hreachable
  · exact absurd hunsynced.1 hsynced
  · have hcommittees := hchain.committees hcheckpoint
    exact ⟨reachable_final hcommittees (hchain.headers hcheckpoint) hreachable,
      reachable_aligned hcommittees hreachable⟩

end Node

/-! ## The host -/

section Host

variable {DB : Type} {disk : Disk} {client : Client DB} {host host' : Host DB} {event : Event}

structure Host.Trusted (k : ConsensusCrates) (config : Config) (final : UInt64 → Header)
    (host : Host DB) : Prop where
  disk : host.disk.Holds (OfChain k final)
  node : ∀ client, host.running = some client → client.node.Trusted k config final

theorem Host.after_cases (r : Attempt Fault (Client DB × Disk)) :
    (Host.after r).disk = r.2.2 ∧
      ((Host.after r).running = none ∨ (Host.after r).running = some r.2.1) := by
  obtain ⟨result, client, disk⟩ := r
  cases result with
  | ok u => exact ⟨rfl, Or.inr rfl⟩
  | error e =>
    cases e with
    | panic p => exact ⟨rfl, Or.inl rfl⟩
    | err e => exact ⟨rfl, Or.inr rfl⟩

theorem Host.after_ok {r : Attempt Fault (Client DB × Disk)} (h : r.1 = .ok ()) :
    Host.after r = ⟨r.2.2, some r.2.1⟩ := by
  unfold Host.after
  rw [h]

theorem Host.trusted_after {r : Attempt Fault (Client DB × Disk)}
    (hdisk : r.2.2.Holds (OfChain k final)) (hnode : r.2.1.node.Trusted k config final) :
    (Host.after r).Trusted k config final := by
  obtain ⟨hsame, hrunning⟩ := Host.after_cases r
  refine ⟨by rwa [hsame], fun client hclient => ?_⟩
  rcases hrunning with hnone | hsome
  · rw [hnone] at hclient
    cases hclient
  · rw [hsome] at hclient
    cases hclient
    exact hnode

variable [Database DB]

/-- What is trusted from outside: the checkpoints that are configured, and those that services
    name. -/
def TrustedEvent (k : ConsensusCrates) (config : Config) (final : UInt64 → Header)
    (host : Host DB) : Event → Prop
  | .launch given _ => given.toConfig = config ∧ given.Names (OfChain k final)
  | .start world => ∀ client root, host.running = some client →
      Client.Offered world client.fallback client.loadExternalFallback
        (Client.fallbackNetwork client.node) root → OfChain k final root.toList
  | .advance _ _ => True
  | .shutdown _ => True
  | .exit => True

namespace Client

/-- A client that is built has the configured checkpoint, or the one that the database loads. -/
theorem new_ok {parses : String → Bool} {given : ClientConfig} {io : Extent}
    (h : Client.new parses given io disk = .ok client) :
    ∃ checkpoint, (given.checkpoint = some checkpoint ∨ given.checkpoint = none ∧
        Database.loadCheckpoint client.db io disk = .ok checkpoint) ∧
      Database.new given = .ok client.db ∧
      client.node = Node.new checkpoint given.toConfig ∧ client.fallback = given.fallback ∧
      client.loadExternalFallback = given.loadExternalFallback := by
  unfold Client.new at h
  split at h
  · cases h
  rename_i db hdb
  simp only at h
  split at h
  · cases h
  rename_i checkpoint hcheckpoint
  split at h
  · cases h
  cases h
  refine ⟨checkpoint, ?_, hdb, rfl, rfl, rfl⟩
  split at hcheckpoint
  · rename_i hgiven
    cases hcheckpoint
    exact Or.inl hgiven
  · rename_i hnone
    exact Or.inr ⟨hnone, hcheckpoint⟩

theorem saveLastCheckpoint_holds (hsound : Database.Sound DB) {P : Bytes → Prop} {io : SaveIo}
    (hdisk : disk.Holds P) (hsaves : client.node.consensus.SavesOnly P) :
    (client.saveLastCheckpoint io disk).Holds P := by
  unfold saveLastCheckpoint
  split
  · rename_i checkpoint hlast
    obtain ⟨hcheckpoint, hlength⟩ := hsaves _ hlast
    exact hsound.saves P client.db io checkpoint disk hdisk hcheckpoint hlength
  · exact hdisk

/-- A start leaves everything alone, or ends with the node of the boot and perhaps with a save. -/
theorem start_snd (k : ConsensusCrates) (client : Client DB) (world : StartWorld) (disk : Disk) :
    (start k world (client, disk)).2 = (client, disk) ∨
      ((start k world (client, disk)).2.1 = { client with
          node := (boot k world client.fallback client.loadExternalFallback client.node).2 } ∧
        ((start k world (client, disk)).2.2 = disk ∨
          (start k world (client, disk)).2.2 = (start k world (client, disk)).2.1.saveLastCheckpoint
            world.save disk)) := by
  unfold start
  cases startRpc world client with
  | error e => exact Or.inl rfl
  | ok u =>
    right
    simp only [request]
    split
    · rename_i hboot
      rw [hboot]
      exact ⟨rfl, Or.inl rfl⟩
    · rename_i hboot
      rw [hboot]
      exact ⟨rfl, Or.inr rfl⟩

end Client

theorem fallbackNetwork_eq {node node' : Node} (h : node.Trusted k config final)
    (h' : node'.Trusted k config final) :
    Client.fallbackNetwork node = Client.fallbackNetwork node' := by
  obtain ⟨_, _, hinstalled, _⟩ := h.followed
  obtain ⟨_, _, hinstalled', _⟩ := h'.followed
  unfold Client.fallbackNetwork
  rw [hinstalled.config, hinstalled'.config]

/-- **One step keeps the invariant.** -/
theorem hostStep_trusted (hsound : Database.Sound DB)
    (hzero : k.publicKey (zeroBytes 48) = none) (hchain : TrueChain k config comm final)
    (h : host.Trusted k config final) (hevent : TrustedEvent k config final host event)
    (hstep : HostStep k host event host') : host'.Trusted k config final := by
  cases hstep with
  | @launch disk parses given io client hnew =>
    obtain ⟨rfl, hnames⟩ := hevent
    obtain ⟨checkpoint, hfrom, hdb, hnode, _⟩ := Client.new_ok hnew
    refine ⟨h.disk, fun other hother => ?_⟩
    cases hother
    rw [hnode]
    refine Node.trusted_new ?_
    rcases hfrom with hgiven | ⟨_, hload⟩
    · exact hnames.given _ hgiven
    · exact hsound.loads _ _ _ _ _ _ hdb hnames h.disk hload
  | @start disk client world =>
    have hnode := h.node client rfl
    have hboot : (Client.boot k world client.fallback client.loadExternalFallback
        client.node).2.Trusted k config final := by
      refine Client.boot_snd (fun node w w' hother => ?_) (fun node root hother hroot => ?_) hnode
      · exact hother.run hzero hchain .sync w w'
      · refine hother.rebuild (hevent client root rfl ?_)
        rwa [fallbackNetwork_eq hother hnode] at hroot
    rcases Client.start_snd k client world disk with
      hsame | ⟨hclient, hsaved⟩
    · refine Host.trusted_after ?_ ?_
      · rw [hsame]
        exact h.disk
      · rw [hsame]
        exact hnode
    · refine Host.trusted_after ?_ ?_
      · rcases hsaved with hsame | hsaved
        · rw [hsame]
          exact h.disk
        · rw [hsaved]
          refine Client.saveLastCheckpoint_holds hsound h.disk ?_
          rw [hclient]
          exact hboot.saves
      · rw [hclient]
        exact hboot
  | @advance disk client w w' =>
    have hnode : ((client.node.run k .advance w w').2).Trusted k config final :=
      (h.node client rfl).run hzero hchain .advance w w'
    exact Host.trusted_after h.disk hnode
  | @shutdown disk client io =>
    refine ⟨Client.saveLastCheckpoint_holds hsound h.disk (h.node client rfl).saves, ?_⟩
    intro other hother
    cases hother
    exact h.node client rfl
  | @exit disk client => exact ⟨h.disk, fun other hother => by cases hother⟩

theorem hosting_trusted (hsound : Database.Sound DB)
    (hzero : k.publicKey (zeroBytes 48) = none) (hchain : TrueChain k config comm final)
    (h : (hosting k (fun disk => disk.Holds (OfChain k final))
      (TrustedEvent k config final)).Reachable host) : host.Trusted k config final := by
  refine System.invariant (S := hosting k (fun disk => disk.Holds (OfChain k final))
    (TrustedEvent k config final)) (I := Host.Trusted k config final) ?_ ?_ h
  · rintro host ⟨hdisk, hnone⟩
    refine ⟨hdisk, fun client hclient => ?_⟩
    rw [hnone] at hclient
    cases hclient
  · rintro host host' _ hhost ⟨event, hevent, hstep⟩
    exact hostStep_trusted hsound hzero hchain hhost hevent hstep

/-- **Restarts are safe.**  Two hosts trust one chain, and the checkpoints that are configured and
    that services name.  Whatever their other servers answer, and whenever their processes stop,
    also in the middle of a save: a file never holds another checkpoint, a client that has bootstrapped has the finalized header
    and the committees of the chain, and two such clients never disagree. -/
theorem lifecycle_safe {DB' : Type} [Database DB'] (k : ConsensusCrates) (config config' : Config)
    (comm : UInt64 → SyncCommittee) (final : UInt64 → Header)
    (hzero : k.publicKey (zeroBytes 48) = none) (hchain : TrueChain k config comm final)
    (hchain' : TrueChain k config' comm final) (hsound : Database.Sound DB)
    (hsound' : Database.Sound DB') (host : Host DB) (host' : Host DB')
    (h : (hosting k (fun disk => disk.Holds (OfChain k final))
      (TrustedEvent k config final)).Reachable host)
    (h' : (hosting k (fun disk => disk.Holds (OfChain k final))
      (TrustedEvent k config' final)).Reachable host') :
    host.disk.Holds (OfChain k final) ∧
    (∀ client, host.running = some client → client.node.consensus.store ≠ default →
      Node.OnChain comm final client.node.consensus.store) ∧
    ∀ client client', host.running = some client → host'.running = some client' →
      client.node.consensus.store ≠ default → client'.node.consensus.store ≠ default →
      (client.node.consensus.store.finalizedHeader.slot =
          client'.node.consensus.store.finalizedHeader.slot →
        client.node.consensus.store.finalizedHeader =
          client'.node.consensus.store.finalizedHeader) ∧
      (calcSyncPeriod client.node.consensus.store.finalizedHeader.slot =
          calcSyncPeriod client'.node.consensus.store.finalizedHeader.slot →
        client.node.consensus.store.currentSyncCommittee =
          client'.node.consensus.store.currentSyncCommittee) := by
  have htrusted := hosting_trusted hsound hzero hchain h
  have htrusted' := hosting_trusted hsound' hzero hchain' h'
  refine ⟨htrusted.disk, fun client hclient hsynced =>
    (htrusted.node client hclient).onChain hchain hsynced,
    fun client client' hclient hclient' hsynced hsynced' => ?_⟩
  have honChain := (htrusted.node client hclient).onChain hchain hsynced
  have honChain' := (htrusted'.node client' hclient').onChain hchain' hsynced'
  refine ⟨fun hslot => ?_, fun hperiod => ?_⟩
  · rw [honChain.finalized, honChain'.finalized, hslot]
  · rw [honChain.committees.current, honChain'.committees.current, hperiod]

end Host

/-! ## A host that has started -/

section Service

open Client Node ConsensusClient

/-- The finalized header of each slot of the chain. -/
def chainFinal (slot : UInt64) : Header :=
  if slot = 6400002 then headHeader else if slot = 6400042 then laterHeader else checkpointHeader

theorem chain_header {header : Header} {root : Bytes32}
    (h : chainCrates.headerRoot header = some root) : (header, root) ∈ headerRoots := by
  obtain ⟨l₁, l₂, hl, _⟩ := List.lookup_eq_some_iff.1 h
  rw [hl]
  exact List.mem_append_right _ List.mem_cons_self

theorem chain_final {header : Header} {root : Bytes32}
    (h : chainCrates.headerRoot header = some root) : header = chainFinal header.slot := by
  have hmem := chain_header h
  simp only [headerRoots, List.mem_cons, Prod.mk.injEq, List.not_mem_nil, or_false] at hmem
  rcases hmem with ⟨rfl, _⟩ | ⟨rfl, _⟩ | ⟨rfl, _⟩ <;> rfl

theorem chain_canonical (checkpoint : Bytes) : OfChain chainCrates chainFinal checkpoint :=
  fun _ _ hroot _ => chain_final hroot

theorem chain_committee {header : Header} {committee : SyncCommittee} {branch : List Bytes32}
    {depth index : Nat}
    (h : isProofValid chainCrates header (chainCrates.committeeRoot committee) branch depth
      index = true) : committee = memberCommittee := by
  have hroot : chainCrates.committeeRoot = memberRoots := rfl
  by_contra hne
  simp [hroot, memberRoots, hne, isProofValid] at h

theorem chain_true : TrueChain chainCrates strictMainnet (fun _ => memberCommittee) chainFinal where
  current _ _ _ _ hvalid := chain_committee hvalid
  next _ _ _ _ _ _ hvalid := chain_committee hvalid
  finalized update header branch _ _ _ hvalid := by
    unfold isFinalityProofValid isProofValid at hvalid
    split at hvalid
    · rename_i root hroot
      exact chain_final hroot
    · cases hvalid
  roots header header' root h h' := by
    have hdistinct : (headerRoots.map Prod.snd).Nodup := by decide +kernel
    have heq := List.inj_on_of_nodup_map hdistinct (chain_header h) (chain_header h') rfl
    exact congrArg Prod.fst heq

def serviceConfig : ClientConfig where
  toConfig := strictMainnet
  consensusRpc := ""
  executionRpc := ""
  rpcBindIp := none
  rpcPort := none
  defaultCheckpoint := []
  checkpoint := some (zeroBytes 32).toList
  dataDir := some "data"
  fallback := some "service"
  loadExternalFallback := false

/-- The host after its launch and a start. -/
def startedHost : Host FileDB :=
  .after (start chainCrates serviceWorld (serviceClient, fun _ => none))

theorem startedHost_reachable :
    (hosting chainCrates (fun disk => disk.Holds (OfChain chainCrates chainFinal))
      (TrustedEvent chainCrates strictMainnet chainFinal)).Reachable startedHost := by
  have hnew : Client.new (fun _ => true) serviceConfig .unopened (fun _ => none) =
      .ok serviceClient := rfl
  have hlaunch : TrustedEvent chainCrates strictMainnet chainFinal
      (⟨fun _ => none, none⟩ : Host FileDB) (.launch serviceConfig .unopened) :=
    ⟨rfl, chain_canonical _, fun _ _ => chain_canonical _⟩
  have hstart : TrustedEvent chainCrates strictMainnet chainFinal
      (⟨fun _ => none, some serviceClient⟩ : Host FileDB) (.start serviceWorld) :=
    fun _ _ _ _ => chain_canonical _
  refine .step (.step (.init ⟨fun _ _ h => ?_, rfl⟩) ⟨_, hlaunch, .launch hnew⟩)
    ⟨_, hstart, .start⟩
  cases h

/-- The client follows the chain after a start from the checkpoint of a service. -/
theorem lifecycle_safe_service : ∃ client, startedHost.running = some client ∧
    Node.OnChain (fun _ => memberCommittee) chainFinal client.node.consensus.store := by
  obtain ⟨hok, hconsensus⟩ := service_start
  have hrunning : startedHost.running =
      some (start chainCrates serviceWorld (serviceClient, fun _ => none)).2.1 := by
    unfold startedHost
    rw [Host.after_ok hok]
  have hsynced : Client.strictClient.store ≠ default := by
    intro h
    have hslot := congrArg (fun store => store.finalizedHeader.slot) h
    exact absurd hslot (by decide)
  refine ⟨_, hrunning, ?_⟩
  refine (lifecycle_safe chainCrates strictMainnet strictMainnet (fun _ => memberCommittee)
    chainFinal (by decide +kernel) chain_true chain_true fileDB_sound fileDB_sound startedHost
    startedHost startedHost_reachable startedHost_reachable).2.1 _ hrunning ?_
  rw [hconsensus]
  exact hsynced

end Service

end Helios
