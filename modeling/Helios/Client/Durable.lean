import Helios.Client.Lifecycle

/-!
# The file never gets older

A client that only goes by its file, as the command line runs it: no checkpoint is given, no service
is asked, and `start` is called once.  Its servers are not trusted here.

* `AtSlot` — the slot of the header whose root a checkpoint is.
* `Onward` — what is finalized, and what would be saved, is not older than a slot.
* `Session`, `Settled` — the invariant: a running client is ahead of its own file, or has not
  bootstrapped from it yet; `hostStep_settled` — one step keeps it.
* `Host.HasReached` — the file has a checkpoint of a slot or of a later one.
* `file_advances` — **so only a save that is cut short loses what the file has reached**.
-/

set_option autoImplicit false

namespace Helios

open Attempt CutWrite ConsensusClient

variable {k : ConsensusCrates} {checkpoint : Bytes} {slot low : UInt64}

/-- No two headers have one root. -/
def DistinctRoots (k : ConsensusCrates) : Prop :=
  ∀ header header' root, k.headerRoot header = some root → k.headerRoot header' = some root →
    header = header'

/-- The checkpoint is the root of a header of this slot. -/
def AtSlot (k : ConsensusCrates) (checkpoint : Bytes) (slot : UInt64) : Prop :=
  ∃ (header : Header) (root : Bytes32), k.headerRoot header = some root ∧
    root.toList = checkpoint ∧ header.slot = slot

theorem AtSlot.unique (hroots : DistinctRoots k) {slot' : UInt64} (h : AtSlot k checkpoint slot)
    (h' : AtSlot k checkpoint slot') : slot = slot' := by
  obtain ⟨header, root, hroot, rfl, rfl⟩ := h
  obtain ⟨header', root', hroot', heq, rfl⟩ := h'
  rw [Vector.toList_inj.1 heq] at hroot'
  rw [hroots _ _ _ hroot hroot']

theorem AtSlot.length (h : AtSlot k checkpoint slot) : checkpoint.length = 32 := by
  obtain ⟨_, root, _, rfl, _⟩ := h
  exact Vector.length_toList

/-! ## One session -/

/-- The finalized header, and the checkpoint that would be saved, are not older than a slot. -/
structure Onward (k : ConsensusCrates) (low : UInt64) (client : ConsensusClient) : Prop where
  finalized : low ≤ client.store.finalizedHeader.slot
  last : ∀ checkpoint, client.lastCheckpoint = some checkpoint → ∃ slot,
    AtSlot k checkpoint slot ∧ low ≤ slot ∧ slot ≤ client.store.finalizedHeader.slot

variable {client client' : ConsensusClient}

theorem bounded_default : Bounded (default : LightClientStore) :=
  ⟨UInt64.le_refl _, UInt64.zero_le, UInt64.zero_le⟩

/-- **One update** leaves the client no further behind. -/
theorem Onward.step {update : GenericUpdate} (h : Onward k low client)
    (hstep : UpdateStep k client update client') : Onward k low client' := by
  obtain ⟨_, _, now, now', happly⟩ := hstep
  rcases applied_checkpoint happly with ⟨hfinalized, hlast⟩ | ⟨hnewer, _, hlast⟩
  · refine ⟨by rw [hfinalized]; exact h.finalized, fun checkpoint hsome => ?_⟩
    rw [hlast] at hsome
    rw [hfinalized]
    exact h.last checkpoint hsome
  · have hlow := UInt64.le_trans h.finalized (UInt64.le_of_lt hnewer)
    have hold : ∀ checkpoint, client.lastCheckpoint = some checkpoint → ∃ slot,
        AtSlot k checkpoint slot ∧ low ≤ slot ∧ slot ≤ client'.store.finalizedHeader.slot := by
      intro checkpoint hsome
      obtain ⟨slot, hslot, hle, hle'⟩ := h.last checkpoint hsome
      exact ⟨slot, hslot, hle, UInt64.le_trans hle' (UInt64.le_of_lt hnewer)⟩
    refine ⟨hlow, fun checkpoint hsome => ?_⟩
    rw [hlast] at hsome
    unfold checkpointOf at hsome
    split at hsome
    · split at hsome
      · rename_i root hroot
        cases hsome
        exact ⟨_, ⟨_, root, hroot, rfl, rfl⟩, hlow, UInt64.le_refl _⟩
      · exact hold checkpoint hsome
    · exact hold checkpoint hsome

theorem Onward.steps (h : Onward k low client) (hsteps : UpdateSteps k client client') :
    Onward k low client' := by
  induction hsteps with
  | refl => exact h
  | tail _ hlast ih =>
    obtain ⟨update, hstep⟩ := hlast
    exact ih.step hstep

/-- A client that has been built for the checkpoint, or is ahead of it. -/
def Abreast (k : ConsensusCrates) (checkpoint : Bytes) (slot : UInt64) (client : ConsensusClient) :
    Prop :=
  (client.store = default ∧ client.initialCheckpoint = checkpoint ∧
    client.lastCheckpoint = none) ∨ Onward k slot client

/-- A bootstrap installs the header of the checkpoint. -/
theorem Onward.bootstrap {w : World} (h : Onward k low client) (hstore : client.store = default)
    (hboot : ConsensusClient.bootstrap k w client = (.ok (), client')) : Onward k low client' := by
  obtain ⟨boot, root, hroot, hcheckpoint, _, rfl⟩ := bootstrap_ok hboot
  have hzero : ∀ slot : UInt64, slot ≤ client.store.finalizedHeader.slot →
      slot ≤ boot.header.slot := by
    intro slot hle
    rw [hstore] at hle
    exact UInt64.le_trans hle UInt64.zero_le
  refine ⟨hzero _ h.finalized, fun checkpoint hlast => ?_⟩
  obtain ⟨slot, hslot, hle, hle'⟩ := h.last checkpoint hlast
  exact ⟨slot, hslot, hle, hzero _ hle'⟩

theorem Abreast.bootstrap {w : World} (hroots : DistinctRoots k)
    (h : Abreast k checkpoint slot client) (hslot : AtSlot k checkpoint slot)
    (hstore : client.store = default)
    (hboot : ConsensusClient.bootstrap k w client = (.ok (), client')) : Onward k slot client' := by
  rcases h with ⟨_, hcheckpoint, hnone⟩ | honward
  · obtain ⟨boot, root, hroot, heq, _, rfl⟩ := bootstrap_ok hboot
    have hheader : AtSlot k checkpoint boot.header.slot :=
      ⟨boot.header, root, hroot, heq.trans hcheckpoint, rfl⟩
    refine ⟨UInt64.le_of_eq (hslot.unique hroots hheader), fun last hlast => ?_⟩
    rw [hnone] at hlast
    cases hlast
  · exact honward.bootstrap hstore hboot

namespace Node

variable {node : Node} {call : Call} {w w' : World}

/-- What a call does to the consensus client, when `sync` is called before any bootstrap only. -/
inductive Moved (k : ConsensusCrates) (client : ConsensusClient) : ConsensusClient → Prop
  | kept : Moved k client client
  | booted {w : World} {booted client' : ConsensusClient} : client.store = default →
      ConsensusClient.bootstrap k w client = (.ok (), booted) → UpdateSteps k booted client' →
      Moved k client client'
  | advanced {client' : ConsensusClient} : client.store ≠ default → UpdateSteps k client client' →
      Moved k client client'

theorem run_moved (hzero : k.publicKey (zeroBytes 48) = none) (call : Call) (w w' : World)
    (hcall : call = .sync → node.consensus.store = default) :
    Moved k node.consensus (node.run k call w w').2.consensus := by
  rw [run_consensus]
  cases call with
  | sync =>
    rcases consensusHalf_sync with ⟨_, hsame⟩ | ⟨booted, hboot, hsteps⟩
    · rw [hsame]
      exact .kept
    · exact .booted (hcall rfl) hboot hsteps
  | advance =>
    rw [consensusHalf_advance.2]
    by_cases hstore : node.consensus.store = default
    · rw [(advance_unsynced hzero hstore).2]
      exact .kept
    · exact .advanced hstore advance_steps

theorem Moved.bounded (h : Moved k client client') (hbounded : Bounded client.store) :
    Bounded client'.store := by
  cases h with
  | kept => exact hbounded
  | booted _ hboot hsteps =>
    obtain ⟨_, _, _, _, _, rfl⟩ := bootstrap_ok hboot
    exact (headers_steps ⟨UInt64.le_refl _, UInt64.zero_le, UInt64.zero_le⟩ hsteps).1
  | advanced _ hsteps => exact (headers_steps hbounded hsteps).1

theorem Moved.onward (h : Moved k client client') (honward : Onward k low client) :
    Onward k low client' := by
  cases h with
  | kept => exact honward
  | booted hstore hboot hsteps => exact (honward.bootstrap hstore hboot).steps hsteps
  | advanced _ hsteps => exact honward.steps hsteps

theorem Moved.abreast (hroots : DistinctRoots k) (h : Moved k client client')
    (hslot : AtSlot k checkpoint slot) (habreast : Abreast k checkpoint slot client) :
    Abreast k checkpoint slot client' := by
  cases h with
  | kept => exact habreast
  | booted hstore hboot hsteps =>
    exact Or.inr ((habreast.bootstrap hroots hslot hstore hboot).steps hsteps)
  | advanced hstore hsteps =>
    rcases habreast with ⟨hdefault, _⟩ | honward
    · exact absurd hdefault hstore
    · exact Or.inr (honward.steps hsteps)

end Node

/-! ## The host -/

variable {dir : String} {file : Option Bytes} {host host' : Host FileDB} {event : Event}
  {disk : Disk}

/-- A client that only goes by the file of a directory. -/
structure Session (k : ConsensusCrates) (dir : String) (file : Option Bytes)
    (client : Client FileDB) : Prop where
  dataDir : client.db.dataDir = dir
  fallback : client.fallback = none
  external : client.loadExternalFallback = false
  bounded : Bounded client.node.consensus.store
  onward : Onward k 0 client.node.consensus
  abreast : ∀ checkpoint slot, held 32 file = some checkpoint → AtSlot k checkpoint slot →
    Abreast k checkpoint slot client.node.consensus

theorem Session.move {client : Client FileDB} (hroots : DistinctRoots k)
    (h : Session k dir file client) {node : Node}
    (hmoved : Node.Moved k client.node.consensus node.consensus) :
    Session k dir file { client with node := node } where
  dataDir := h.dataDir
  fallback := h.fallback
  external := h.external
  bounded := hmoved.bounded h.bounded
  onward := hmoved.onward h.onward
  abreast checkpoint slot hheld hslot :=
    hmoved.abreast hroots hslot (h.abreast checkpoint slot hheld hslot)

/-- The file of the directory is no longer than a checkpoint, and the client goes by it. -/
structure Settled (k : ConsensusCrates) (dir : String) (host : Host FileDB) : Prop where
  short : ∀ content, host.disk dir = some content → content.length ≤ 32
  session : ∀ client, host.running = some client → Session k dir (host.disk dir) client

/-- The client goes by the file alone, reads all of it, and is started until it has bootstrapped. -/
def GoesByFile (dir : String) (host : Host FileDB) : Event → Prop
  | .launch config io => config.checkpoint = none ∧ config.dataDir = some dir ∧
      config.fallback = none ∧ config.loadExternalFallback = false ∧
      ∃ count, 32 ≤ count ∧ io = .upTo count
  | .start _ => ∀ client, host.running = some client → client.node.consensus.store = default
  | .advance _ _ => True
  | .shutdown _ => True
  | .exit => True

namespace Client

variable {client : Client FileDB}

/-- Without services the node of a boot is the one that `sync` leaves. -/
theorem boot_alone {world : StartWorld} {node : Node} :
    (boot k world none false node).2 = (node.sync k world.sync.1 world.sync.2).2 := by
  unfold boot
  split
  · rename_i hrun
    rw [hrun]
  · rename_i hrun
    rw [hrun]
  · rename_i hrun
    rw [hrun]
    split
    · rfl
    · rfl
  · rename_i hrun
    rw [hrun]

/-- A save leaves the file alone, or writes the last checkpoint to it. -/
theorem saveLastCheckpoint_file (io : SaveIo) (disk : Disk) (hdir : client.db.dataDir = dir) :
    client.saveLastCheckpoint io disk dir = disk dir ∨
      ∃ checkpoint, client.node.consensus.lastCheckpoint = some checkpoint ∧
        io.createDirAll = true ∧
        client.saveLastCheckpoint io disk dir = write io.write checkpoint (disk dir) := by
  unfold saveLastCheckpoint
  cases hlast : client.node.consensus.lastCheckpoint with
  | none => exact Or.inl rfl
  | some checkpoint =>
    have hsnd := client.db.saveCheckpoint_snd io checkpoint disk
    change (Database.saveCheckpoint client.db io checkpoint disk).2 = _ at hsnd
    simp only [hsnd, hdir]
    split
    · exact Or.inl rfl
    · rename_i hcreate
      exact Or.inr ⟨checkpoint, rfl, Bool.eq_true_of_not_eq_false hcreate,
        Function.update_self ..⟩

end Client

/-- **A save keeps the invariant**, wherever it stops. -/
theorem Session.save {client : Client FileDB} (io : SaveIo) (hroots : DistinctRoots k)
    (h : Session k dir (disk dir) client)
    (hshort : ∀ content, disk dir = some content → content.length ≤ 32) :
    (∀ content, client.saveLastCheckpoint io disk dir = some content → content.length ≤ 32) ∧
      Session k dir (client.saveLastCheckpoint io disk dir) client := by
  rcases Client.saveLastCheckpoint_file io disk h.dataDir with
    hsame | ⟨checkpoint, hlast, _, hwrite⟩
  · rw [hsame]
    exact ⟨hshort, h⟩
  · obtain ⟨slot, hslot, _, hle⟩ := h.onward.last checkpoint hlast
    rw [hwrite]
    refine ⟨?_, h.dataDir, h.fallback, h.external, h.bounded, h.onward, ?_⟩
    · have hlength : ∀ w ∈ [(io.write, checkpoint)], w.2.length = 32 := by
        intro w hw
        rw [List.mem_singleton.1 hw]
        exact hslot.length
      exact writeAll_length hlength hshort
    · intro found slot' hfound hslot'
      have hover : Overwritten checkpoint (held 32 (disk dir))
          (held 32 (write io.write checkpoint (disk dir))) :=
        held_write io.write hslot.length
      rw [hfound] at hover
      generalize hbefore : held 32 (disk dir) = before at hover
      cases hover with
      | kept => exact h.abreast found slot' hbefore hslot'
      | replaced =>
        refine Or.inr ⟨?_, fun last hsome => ?_⟩
        · rw [hslot'.unique hroots hslot]
          exact hle
        · rw [hlast] at hsome
          cases hsome
          exact ⟨slot', hslot', UInt64.le_refl _, by rwa [hslot'.unique hroots hslot]⟩

theorem settled_after {r : Attempt Fault (Client FileDB × Disk)}
    (hshort : ∀ content, r.2.2 dir = some content → content.length ≤ 32)
    (hsession : Session k dir (r.2.2 dir) r.2.1) : Settled k dir (Host.after r) := by
  obtain ⟨hsame, hrunning⟩ := Host.after_cases r
  refine ⟨by rwa [hsame], fun client hclient => ?_⟩
  rw [hsame]
  rcases hrunning with hnone | hsome
  · rw [hnone] at hclient
    cases hclient
  · rw [hsome] at hclient
    cases hclient
    exact hsession

/-- A client that is built from the file has its checkpoint. -/
theorem launch_session {parses : String → Bool} {config : ClientConfig} {io : Extent}
    {client : Client FileDB} (hgoes : GoesByFile dir ⟨disk, none⟩ (.launch config io))
    (hshort : ∀ content, disk dir = some content → content.length ≤ 32)
    (hnew : Client.new parses config io disk = .ok client) : Session k dir (disk dir) client := by
  obtain ⟨hgiven, hdir, hfallback, hexternal, count, hcount, rfl⟩ := hgoes
  obtain ⟨checkpoint, hfrom, hdb, hnode, hfallback', hexternal'⟩ := Client.new_ok hnew
  have hload : client.db.loadCheckpoint (.upTo count) disk = .ok checkpoint := by
    rcases hfrom with hsome | ⟨_, hload⟩
    · rw [hgiven] at hsome
      cases hsome
    · exact hload
  have hdataDir : client.db.dataDir = dir := by
    change FileDB.new config = .ok client.db at hdb
    unfold FileDB.new at hdb
    rw [hdir] at hdb
    rw [← Except.ok.inj hdb]
  have hfresh : client.node.consensus = ConsensusClient.new checkpoint config.toConfig := by
    rw [hnode]
    rfl
  refine ⟨hdataDir, hfallback'.trans hfallback, hexternal'.trans hexternal, ?_, ?_, ?_⟩
  · rw [hfresh]
    exact bounded_default
  · refine ⟨UInt64.zero_le, fun last hlast => ?_⟩
    rw [hfresh] at hlast
    cases hlast
  · intro found slot hfound _
    left
    unfold FileDB.loadCheckpoint at hload
    rw [hdataDir, read_held hshort hcount, hfound] at hload
    cases hload
    rw [hfresh]
    exact ⟨rfl, rfl, rfl⟩

/-- **One step keeps the invariant.** -/
theorem hostStep_settled (hzero : k.publicKey (zeroBytes 48) = none) (hroots : DistinctRoots k)
    (h : Settled k dir host) (hgoes : GoesByFile dir host event)
    (hstep : HostStep k host event host') : Settled k dir host' := by
  cases hstep with
  | @launch disk parses config io client hnew =>
    refine ⟨h.short, fun other hother => ?_⟩
    cases hother
    exact launch_session hgoes h.short hnew
  | @start disk client world =>
    have hsession := h.session client rfl
    rcases Client.start_snd k client world disk with hsame | ⟨hclient, hsaved⟩
    · refine settled_after ?_ ?_
      · rw [hsame]
        exact h.short
      · rw [hsame]
        exact hsession
    · have hmoved : Session k dir (disk dir) (Client.start k world (client, disk)).2.1 := by
        rw [hclient]
        refine hsession.move hroots ?_
        rw [hsession.fallback, hsession.external, Client.boot_alone]
        exact Node.run_moved hzero .sync _ _ fun _ => hgoes client rfl
      rcases hsaved with hkept | hsaved
      · refine settled_after ?_ ?_
        · rw [hkept]
          exact h.short
        · rw [hkept]
          exact hmoved
      · obtain ⟨hshort, hsession'⟩ := hmoved.save world.save hroots h.short
        refine settled_after ?_ ?_
        · rw [hsaved]
          exact hshort
        · rw [hsaved]
          exact hsession'
  | @advance disk client w w' =>
    refine settled_after h.short ?_
    exact (h.session client rfl).move hroots
      (Node.run_moved hzero .advance w w' fun hsync => by cases hsync)
  | @shutdown disk client io =>
    obtain ⟨hshort, hsession⟩ := (h.session client rfl).save io hroots h.short
    refine ⟨hshort, fun other hother => ?_⟩
    cases hother
    exact hsession
  | @exit disk client => exact ⟨h.short, fun other hother => by cases hother⟩

/-! ## What the file has reached -/

/-- The file has a checkpoint of this slot or of a later one. -/
def HasReached (k : ConsensusCrates) (slot : UInt64) (file : Option Bytes) : Prop :=
  ∃ checkpoint slot', held 32 file = some checkpoint ∧ AtSlot k checkpoint slot' ∧ slot ≤ slot'

/-- A save that opens the file writes all of it. -/
def SaveIo.Whole (io : SaveIo) : Prop :=
  io.createDirAll = true → ∀ count, io.write = .upTo count → 32 ≤ count

def Event.Whole : Event → Prop
  | .launch _ _ => True
  | .start world => world.save.Whole
  | .advance _ _ => True
  | .shutdown io => io.Whole
  | .exit => True

/-- **A save that is not cut short leaves the file with as new a checkpoint.** -/
theorem Session.save_reached {client : Client FileDB} {io : SaveIo} (hwhole : io.Whole)
    (h : Session k dir (disk dir) client) (hreached : HasReached k slot (disk dir)) :
    HasReached k slot (client.saveLastCheckpoint io disk dir) := by
  obtain ⟨checkpoint, slot', hheld, hslot', hle⟩ := hreached
  rcases Client.saveLastCheckpoint_file io disk h.dataDir with
    hsame | ⟨last, hlast, hcreate, hwrite⟩
  · rw [hsame]
    exact ⟨checkpoint, slot', hheld, hslot', hle⟩
  rw [hwrite]
  rcases h.abreast checkpoint slot' hheld hslot' with ⟨_, _, hnone⟩ | honward
  · rw [hnone] at hlast
    cases hlast
  obtain ⟨slot'', hslot'', hlow, _⟩ := honward.last last hlast
  cases hextent : io.write with
  | unopened => exact ⟨checkpoint, slot', hheld, hslot', hle⟩
  | upTo count =>
    refine ⟨last, slot'', ?_, hslot'', UInt64.le_trans hle hlow⟩
    rw [write, held_take hslot''.length, if_pos (hwhole hcreate count hextent)]

/-- **One step** of which no save is cut short. -/
theorem hostStep_reached (hzero : k.publicKey (zeroBytes 48) = none) (hroots : DistinctRoots k)
    (h : Settled k dir host) (hgoes : GoesByFile dir host event) (hwhole : event.Whole)
    (hstep : HostStep k host event host') (hreached : HasReached k slot (host.disk dir)) :
    HasReached k slot (host'.disk dir) := by
  cases hstep with
  | @launch disk parses config io client hnew => exact hreached
  | @start disk client world =>
    have hsession := h.session client rfl
    rw [(Host.after_cases _).1]
    rcases Client.start_snd k client world disk with hsame | ⟨hclient, hkept | hsaved⟩
    · rw [hsame]
      exact hreached
    · rw [hkept]
      exact hreached
    · have hmoved : Session k dir (disk dir) (Client.start k world (client, disk)).2.1 := by
        rw [hclient]
        refine hsession.move hroots ?_
        rw [hsession.fallback, hsession.external, Client.boot_alone]
        exact Node.run_moved hzero .sync _ _ fun _ => hgoes client rfl
      rw [hsaved]
      exact hmoved.save_reached hwhole hreached
  | @advance disk client w w' =>
    rw [(Host.after_cases _).1]
    exact hreached
  | @shutdown disk client io => exact (h.session client rfl).save_reached hwhole hreached
  | @exit disk client => exact hreached

/-- **The file never gets older.**  A client goes by its file alone, whatever its servers answer and
    whenever its process stops.  From any state of such a run, as long as no save that opens the
    file is cut short, what the file has reached it keeps or passes, over any number of restarts. -/
theorem file_advances (k : ConsensusCrates) (hzero : k.publicKey (zeroBytes 48) = none)
    (hroots : DistinctRoots k) (dir : String) (host host' : Host FileDB)
    (h : (hosting k (fun disk => ∀ content, disk dir = some content → content.length ≤ 32)
      (GoesByFile dir)).Reachable host)
    (hsteps : (hosting k (fun _ => True)
      fun host event => GoesByFile dir host event ∧ event.Whole).Steps host host')
    (slot : UInt64) (hreached : HasReached k slot (host.disk dir)) :
    HasReached k slot (host'.disk dir) := by
  have hsettled : Settled k dir host := by
    refine System.invariant (S := hosting k _ (GoesByFile dir)) (I := Settled k dir) ?_ ?_ h
    · rintro host ⟨hshort, hnone⟩
      refine ⟨hshort, fun client hclient => ?_⟩
      rw [hnone] at hclient
      cases hclient
    · rintro host host' _ hhost ⟨event, hgoes, hstep⟩
      exact hostStep_settled hzero hroots hhost hgoes hstep
  -- along the steps the invariant and what is reached are kept together
  have hboth : Settled k dir host' ∧ HasReached k slot (host'.disk dir) := by
    induction hsteps with
    | refl => exact ⟨hsettled, hreached⟩
    | tail _ hlast ih =>
      obtain ⟨event, ⟨hgoes, hwhole⟩, hstep⟩ := hlast
      exact ⟨hostStep_settled hzero hroots ih.1 hgoes hstep,
        hostStep_reached hzero hroots ih.1 hgoes hwhole hstep ih.2⟩
  exact hboth.2

/-! ## A start that fails, and a shutdown -/

section Saved

open Client Node

/-- The roots of three headers, and the branches and the signature of the later ones. -/
def periodRoots : List (Header × Bytes32) :=
  [(periodStart, periodStartRoot), (laterCheckpoint, laterCheckpointRoot),
    (justifiedHeader, justifiedRoot)]

def startCrates : ConsensusCrates :=
  { periodCrates with headerRoot := fun header => periodRoots.lookup header }

theorem startCrates_root {header : Header} {root : Bytes32}
    (h : startCrates.headerRoot header = some root) : (header, root) ∈ periodRoots := by
  obtain ⟨l₁, l₂, hl, _⟩ := List.lookup_eq_some_iff.1 h
  rw [hl]
  exact List.mem_append_right _ List.mem_cons_self

theorem startCrates_distinct : DistinctRoots startCrates := by
  intro header header' root h h'
  have hdistinct : (periodRoots.map Prod.snd).Nodup := by decide +kernel
  have heq := List.inj_on_of_nodup_map hdistinct (startCrates_root h) (startCrates_root h') rfl
  exact congrArg Prod.fst heq

/-- The server has the bootstrap and a finality update, and then fails. -/
def finalityMoment : Moment :=
  { startMoment periodStart with
    rpc := { (startMoment periodStart).rpc with
      getUpdates := fun _ _ => .ok []
      getOptimisticUpdate := .error (.rpc "optimistic_update") } }

theorem finality_followHead : followHead startCrates (fun _ => finalityMoment)
    (startedAt periodStartRoot periodStart) =
      (.error (.err (.rpc "optimistic_update")), checkpointed) := by
  have hverify : (startedAt periodStartRoot periodStart).verifyGenericUpdate startCrates 1683699311
      justifiedFinality.toGeneric = .ok () := by
    decide +kernel
  have happly : (startedAt periodStartRoot periodStart).applyGenericUpdate startCrates 1683699311
      1683699311 justifiedFinality.toGeneric = .ok checkpointed := by
    have hbits : getBits justifiedFinality.toGeneric.syncAggregate.syncCommitteeBits = 512 :=
      allBits_getBits
    rw [applyGenericUpdate, hbits]
    rfl
  have hfinality : answer finalityMoment.rpc.getFinalityUpdate = .ok justifiedFinality := rfl
  have hoptimistic : answer finalityMoment.rpc.getOptimisticUpdate =
      .error (.err (.rpc "optimistic_update")) := rfl
  have hnow : finalityMoment.now = 1683699311 := rfl
  simp only [followHead, verifyAndApply, hfinality, hoptimistic, hnow, request, andThen,
    World.drop_const, hverify, happly]

/-- A `sync` that finds no updates goes on to the head. -/
theorem sync_of_bootstrap {w : World} {booted : ConsensusClient}
    (hboot : ConsensusClient.bootstrap k w client = (.ok (), booted))
    (hupdates : (w 2).rpc.getUpdates (calcSyncPeriod booted.store.finalizedHeader.slot)
      maxRequestLightClientUpdates = .ok []) :
    client.sync k w = followHead k (w.drop 3) booted := by
  unfold ConsensusClient.sync
  rw [hboot]
  simp only [andThen, hupdates]
  rfl

theorem finality_sync : ConsensusClient.sync startCrates (fun _ => finalityMoment)
    (ConsensusClient.new periodStartRoot.toList mainnet) =
      (.error (.err (.rpc "optimistic_update")), checkpointed) := by
  have hage : (ConsensusClient.new periodStartRoot.toList mainnet).isValidCheckpoint 1683699311
      periodStart.slot = .ok true := by
    decide +kernel
  have hcommittee : isCurrentCommitteeProofValid startCrates periodStart memberCommittee
      (List.replicate 5 (zeroBytes 32)) = true := by
    have hroots : startCrates.committeeRoot = memberRoots := rfl
    rw [isCurrentCommitteeProofValid, hroots, memberRoots_member, isProofValid.eq_def]
    decide +kernel
  have hroot : startCrates.headerRoot periodStart = some periodStartRoot := by
    decide +kernel
  have hboot : ConsensusClient.bootstrap startCrates (fun _ => finalityMoment)
      (ConsensusClient.new periodStartRoot.toList mainnet) =
        (.ok (), startedAt periodStartRoot periodStart) :=
    @bootstrap_of_valid _ _ (fun _ => finalityMoment) _ _ rfl hage hroot rfl hcommittee
  rw [sync_of_bootstrap hboot rfl, World.drop_const]
  exact finality_followHead

def fileConfig : ClientConfig where
  toConfig := mainnet
  consensusRpc := ""
  executionRpc := ""
  rpcBindIp := none
  rpcPort := none
  defaultCheckpoint := []
  checkpoint := none
  dataDir := some "data"
  fallback := none
  loadExternalFallback := false

def fileClient : Client FileDB where
  node := Node.new periodStartRoot.toList mainnet
  rpc := none
  db := ⟨"data", []⟩
  fallback := none
  loadExternalFallback := false

def fileDisk : Disk := fun _ => some periodStartRoot.toList

/-- The client after the start that has failed. -/
def finalityClient : Client FileDB :=
  { fileClient with node := { fileClient.node with consensus := checkpointed } }

def finalityWorld : StartWorld :=
  { serviceWorld with sync := (fun _ => finalityMoment, fun _ => finalityMoment) }

theorem finality_node : fileClient.node.sync startCrates finalityWorld.sync.1 finalityWorld.sync.2 =
    (.error (.err (.consensusSyncError (.rpc "optimistic_update"))), finalityClient.node) := by
  have hexecution : fileClient.node.checkExecutionRpc finalityWorld.sync.1 = .ok () := rfl
  have hconsensus : fileClient.node.consensus.checkRpc (finalityWorld.sync.1.drop 1) = .ok () := rfl
  have hsync : fileClient.node.consensus.sync startCrates (finalityWorld.sync.1.drop 2) =
      (.error (.err (.rpc "optimistic_update")), checkpointed) := finality_sync
  unfold Node.sync syncConsensus
  rw [hexecution, hconsensus, hsync]
  rfl

/-- A start whose first `sync` fails for another reason than the age of the checkpoint. -/
theorem start_of_failed {DB : Type} [Database DB] {client : Client DB} {world : StartWorld}
    {node : Node} {e : Report} (hrpc : startRpc world client = .ok ())
    (hsync : client.node.sync k world.sync.1 world.sync.2 =
      (.error (.err (.consensusSyncError e)), node)) (he : e ≠ .consensus .checkpointTooOld) :
    start k world (client, disk) = (.error (.err e), ({ client with node := node }, disk)) := by
  unfold start boot
  simp only [hrpc, request, hsync, if_neg he]

/-- The start fails after a finality update, the shutdown saves what it finalized. -/
theorem file_advances_saved : ∃ host' : Host FileDB,
    held 32 (host'.disk "data") = some laterCheckpointRoot.toList ∧
      HasReached startCrates 6406144 (host'.disk "data") := by
  have hnew : Client.new (fun _ => true) fileConfig (.upTo 32) fileDisk = .ok fileClient := rfl
  have hstart : start startCrates finalityWorld (fileClient, fileDisk) =
      (.error (.err (.rpc "optimistic_update")), (finalityClient, fileDisk)) :=
    start_of_failed rfl finality_node (by decide)
  have hlaunched : GoesByFile "data" (⟨fileDisk, none⟩ : Host FileDB)
      (.launch fileConfig (.upTo 32)) := ⟨rfl, rfl, rfl, rfl, 32, Nat.le_refl _, rfl⟩
  have hstarted : GoesByFile "data" ⟨fileDisk, some fileClient⟩ (.start finalityWorld) := by
    intro client hclient
    cases hclient
    rfl
  have hwhole : SaveIo.Whole ⟨true, .upTo 32⟩ := by
    rintro _ count ⟨rfl⟩
    exact Nat.le_refl _
  have hafter : HostStep startCrates ⟨fileDisk, some fileClient⟩ (.start finalityWorld)
      ⟨fileDisk, some finalityClient⟩ := by
    have hstep := @HostStep.start FileDB _ startCrates fileDisk fileClient finalityWorld
    rw [hstart] at hstep
    exact hstep
  have hsteps : (hosting startCrates (fun _ => True) fun host event =>
      GoesByFile "data" host event ∧ event.Whole).Steps (⟨fileDisk, none⟩ : Host FileDB)
        ⟨finalityClient.shutdown ⟨true, .upTo 32⟩ fileDisk, some finalityClient⟩ :=
    .tail (.tail (.single ⟨_, ⟨hlaunched, trivial⟩, .launch hnew⟩)
      ⟨_, ⟨hstarted, hwhole⟩, hafter⟩) ⟨.shutdown ⟨true, .upTo 32⟩, ⟨trivial, hwhole⟩, .shutdown⟩
  have hperiod : AtSlot startCrates periodStartRoot.toList 6406144 :=
    ⟨periodStart, periodStartRoot, by decide +kernel, rfl, rfl⟩
  refine ⟨_, ?_, file_advances startCrates (by decide +kernel) startCrates_distinct "data"
    ⟨fileDisk, none⟩ _ (.init ⟨?_, rfl⟩) hsteps 6406144 ?_⟩
  · have hsaved : finalityClient.shutdown ⟨true, .upTo 32⟩ fileDisk "data" =
        write (.upTo 32) laterCheckpointRoot.toList (fileDisk "data") := rfl
    show held 32 (finalityClient.shutdown ⟨true, .upTo 32⟩ fileDisk "data") = _
    rw [hsaved]
    exact held_take Vector.length_toList
  · rintro content ⟨rfl⟩
    exact Nat.le_of_eq Vector.length_toList
  · exact ⟨_, _, held_of_length Vector.length_toList, hperiod, UInt64.le_refl _⟩

end Saved

end Helios
