import Helios.Config.Config
import Helios.Lib.System
import Helios.Lib.CutWrite

/-!
# Where the checkpoint is kept (`client/src/database.rs`)

* `Disk` — the file `checkpoint` of every data directory; `SaveIo` — how far a save gets.
* `Database` — the trait; `FileDB`, `ConfigDB` — its two implementations.
* `Database.Sound` — the law that the client relies on: a load returns a checkpoint of the
  configuration, or one that was saved in full.
* `fileDB_loads` — **after any saves, each of which stops anywhere, a load returns the checkpoint of
  the last one that opened the file, or the default one**.
-/

set_option autoImplicit false

namespace Helios

open CutWrite Attempt

/-- The file `checkpoint` of every data directory, if there is one. -/
abbrev Disk := String → Option Bytes

/-- Whether the directory can be created, and how far the file is written. -/
structure SaveIo where
  createDirAll : Bool
  write : Extent

/-- `trait Database`; how far its operations get is decided outside. -/
class Database (DB : Type) where
  new : ClientConfig → Result DB
  saveCheckpoint : DB → SaveIo → Bytes → Disk → Attempt Fault Disk
  loadCheckpoint : DB → Extent → Disk → Result Bytes

/-! ## A file -/

structure FileDB where
  dataDir : String
  defaultCheckpoint : Bytes

namespace FileDB

def new (config : ClientConfig) : Result FileDB :=
  match config.dataDir with
  | some dataDir => .ok ⟨dataDir, config.defaultCheckpoint⟩
  | none => .error (.err (.message "data dir not in config"))

/-- The file is truncated when it is opened; `write_all` fails when it cannot write all of it. -/
def saveCheckpoint (db : FileDB) (io : SaveIo) (checkpoint : Bytes) (disk : Disk) :
    Attempt Fault Disk :=
  if io.createDirAll = false then (.error (.err (.message "create dir")), disk)
  else
    let disk' := Function.update disk db.dataDir (write io.write checkpoint (disk db.dataDir))
    match io.write with
    | .unopened => (.error (.err (.message "open")), disk')
    | .upTo count =>
      if count < checkpoint.length then (.error (.err (.message "write all")), disk')
      else (.ok (), disk')

/-- Only the result of opening the file is looked at; a read that fails midway leaves a shorter
    buffer. -/
def loadCheckpoint (db : FileDB) (io : Extent) (disk : Disk) : Result Bytes :=
  match read 32 io (disk db.dataDir) with
  | some buf => .ok buf
  | none => .ok db.defaultCheckpoint

instance database : Database FileDB := ⟨new, saveCheckpoint, loadCheckpoint⟩

end FileDB

/-! ## The configuration alone -/

structure ConfigDB where
  checkpoint : Bytes

namespace ConfigDB

def new (config : ClientConfig) : Result ConfigDB :=
  .ok ⟨config.checkpoint.getD config.defaultCheckpoint⟩

def saveCheckpoint (_db : ConfigDB) (_io : SaveIo) (_checkpoint : Bytes) (disk : Disk) :
    Attempt Fault Disk :=
  (.ok (), disk)

def loadCheckpoint (db : ConfigDB) (_io : Extent) (_disk : Disk) : Result Bytes := .ok db.checkpoint

instance database : Database ConfigDB := ⟨new, saveCheckpoint, loadCheckpoint⟩

end ConfigDB

/-! ## What the client relies on -/

variable {P : Bytes → Prop} {disk : Disk} {config : ClientConfig}

/-- Every checkpoint that a load could find in a file meets a condition. -/
def Disk.Holds (disk : Disk) (P : Bytes → Prop) : Prop :=
  ∀ dir checkpoint, held 32 (disk dir) = some checkpoint → P checkpoint

/-- The checkpoints that the configuration names meet it. -/
structure ClientConfig.Names (config : ClientConfig) (P : Bytes → Prop) : Prop where
  default : P config.defaultCheckpoint
  given : ∀ checkpoint, config.checkpoint = some checkpoint → P checkpoint

structure Database.Sound (DB : Type) [Database DB] : Prop where
  saves : ∀ (P : Bytes → Prop) (db : DB) (io : SaveIo) (checkpoint : Bytes) (disk : Disk),
    disk.Holds P → P checkpoint → checkpoint.length = 32 →
    (Database.saveCheckpoint db io checkpoint disk).2.Holds P
  loads : ∀ (P : Bytes → Prop) (config : ClientConfig) (db : DB) (io : Extent) (disk : Disk)
    (checkpoint : Bytes), Database.new config = .ok db → config.Names P → disk.Holds P →
    Database.loadCheckpoint db io disk = .ok checkpoint → P checkpoint

/-- A save replaces the file of its own directory, or leaves the disk alone. -/
theorem FileDB.saveCheckpoint_snd (db : FileDB) (io : SaveIo) (checkpoint : Bytes) (disk : Disk) :
    (db.saveCheckpoint io checkpoint disk).2 = if io.createDirAll = false then disk
      else Function.update disk db.dataDir (write io.write checkpoint (disk db.dataDir)) := by
  unfold saveCheckpoint
  split
  · rfl
  · simp only
    split
    · rfl
    · split <;> rfl

theorem fileDB_sound : Database.Sound FileDB where
  saves P db io checkpoint disk hdisk hcheckpoint hlength := by
    intro dir found hfound
    have hsnd := db.saveCheckpoint_snd io checkpoint disk
    change (Database.saveCheckpoint db io checkpoint disk).2 = _ at hsnd
    rw [hsnd] at hfound
    split at hfound
    · exact hdisk dir found hfound
    · by_cases hdir : dir = db.dataDir
      · rw [hdir, Function.update_self] at hfound
        have hwrite : Overwritten checkpoint (held 32 (disk db.dataDir)) _ :=
          held_write io.write hlength
        rw [hfound] at hwrite
        generalize hbefore : held 32 (disk db.dataDir) = before at hwrite
        cases hwrite with
        | kept => exact hdisk _ found hbefore
        | replaced => exact hcheckpoint
      · rw [Function.update_of_ne hdir] at hfound
        exact hdisk dir found hfound
  loads P config db io disk checkpoint hnew hconfig hdisk hload := by
    change db.loadCheckpoint io disk = .ok checkpoint at hload
    unfold FileDB.loadCheckpoint at hload
    split at hload
    · rename_i buf hread
      cases hload
      exact hdisk _ _ (held_of_read hread)
    · cases hload
      change FileDB.new config = .ok db at hnew
      unfold FileDB.new at hnew
      split at hnew
      · cases hnew
        exact hconfig.default
      · cases hnew

theorem configDB_sound : Database.Sound ConfigDB where
  saves _ _ _ _ _ hdisk _ _ := hdisk
  loads P config db io disk checkpoint hnew hconfig _ hload := by
    cases hnew
    cases hload
    cases hcheckpoint : config.checkpoint with
    | none => exact hconfig.default
    | some given => exact hconfig.given given hcheckpoint

/-! ## Any number of saves -/

/-- A save: the database, how far it gets, and the checkpoint. -/
structure Save where
  db : FileDB
  io : SaveIo
  checkpoint : Bytes

def saveAll (saves : List Save) (disk : Disk) : Disk :=
  saves.foldl (fun disk s => (s.db.saveCheckpoint s.io s.checkpoint disk).2) disk

/-- The writes of the saves into a directory. -/
def writesOf (dir : String) (saves : List Save) : List (Extent × Bytes) :=
  saves.filterMap fun s =>
    if s.io.createDirAll ∧ s.db.dataDir = dir then some (s.io.write, s.checkpoint) else none

theorem writesOf_cons (dir : String) (s : Save) (saves : List Save) :
    writesOf dir (s :: saves) = if s.io.createDirAll ∧ s.db.dataDir = dir then
      (s.io.write, s.checkpoint) :: writesOf dir saves else writesOf dir saves := by
  unfold writesOf
  rw [List.filterMap_cons]
  split <;> rename_i hsome <;> split at hsome <;> cases hsome <;> rename_i h
  · rw [if_neg h]
  · rw [if_pos h]

/-- The saves into a directory are the writes of its file. -/
theorem saveAll_dir (dir : String) : ∀ (saves : List Save) (disk : Disk),
    saveAll saves disk dir = writeAll (writesOf dir saves) (disk dir)
  | [], _ => rfl
  | s :: saves, disk => by
    have hrest := saveAll_dir dir saves (s.db.saveCheckpoint s.io s.checkpoint disk).2
    have hcons : saveAll (s :: saves) disk =
        saveAll saves (s.db.saveCheckpoint s.io s.checkpoint disk).2 := rfl
    rw [hcons, hrest, writesOf_cons, FileDB.saveCheckpoint_snd]
    by_cases hdir : s.db.dataDir = dir
    · cases hdirs : s.io.createDirAll with
      | false => simp
      | true =>
        rw [if_neg (by simp), if_pos ⟨rfl, hdir⟩, hdir, Function.update_self]
        rfl
    · have hother : ¬ (s.io.createDirAll = true ∧ s.db.dataDir = dir) := fun h => hdir h.2
      rw [if_neg hother]
      split
      · rfl
      · rw [Function.update_of_ne (Ne.symm hdir)]

theorem writesOf_length {dir : String} {saves : List Save}
    (h : ∀ s ∈ saves, s.checkpoint.length = 32) : ∀ w ∈ writesOf dir saves, w.2.length = 32 := by
  intro w hw
  obtain ⟨s, hs, hsome⟩ := List.mem_filterMap.1 hw
  split at hsome
  · cases hsome
    exact h s hs
  · cases hsome

/-- **A cut save is never taken for a checkpoint.**  After any saves of 32 bytes, by any databases,
    each of which stops anywhere, a load that stops anywhere returns the default checkpoint or the
    one that survives in its directory: that of the last save that opened the file, if all of it
    was written.  A load that reads the whole file returns the surviving one, if the file was not
    longer than a checkpoint before the saves. -/
theorem fileDB_loads (db : FileDB) (disk : Disk) (saves : List Save)
    (hlength : ∀ s ∈ saves, s.checkpoint.length = 32) :
    (∀ io, db.loadCheckpoint io (saveAll saves disk) = .ok db.defaultCheckpoint ∨
      ∃ checkpoint, survivor 32 (writesOf db.dataDir saves) (disk db.dataDir) = some checkpoint ∧
        db.loadCheckpoint io (saveAll saves disk) = .ok checkpoint) ∧
    ((∀ content, disk db.dataDir = some content → content.length ≤ 32) →
      ∀ count, 32 ≤ count → db.loadCheckpoint (.upTo count) (saveAll saves disk) =
        .ok ((survivor 32 (writesOf db.dataDir saves) (disk db.dataDir)).getD
          db.defaultCheckpoint)) := by
  have hwrites : ∀ w ∈ writesOf db.dataDir saves, w.2.length = 32 := writesOf_length hlength
  rw [← held_writeAll hwrites, ← saveAll_dir]
  constructor
  · intro io
    unfold FileDB.loadCheckpoint
    split
    · rename_i buf hread
      exact Or.inr ⟨buf, held_of_read hread, rfl⟩
    · exact Or.inl rfl
  · intro hfile count hcount
    have hshort := writeAll_length hwrites hfile
    rw [← saveAll_dir] at hshort
    rw [FileDB.loadCheckpoint, read_held hshort hcount]
    cases held 32 (saveAll saves disk db.dataDir) <;> rfl

/-- A checkpoint is saved, and the next save stops after 31 bytes. -/
theorem fileDB_loads_cut :
    (fun io => (⟨"data", [1]⟩ : FileDB).loadCheckpoint io (saveAll
        [⟨⟨"data", []⟩, ⟨true, .upTo 32⟩, List.replicate 32 7⟩,
          ⟨⟨"data", []⟩, ⟨true, .upTo 31⟩, List.replicate 32 8⟩] fun _ => none)) =
      fun _ => .ok [1] := by
  funext io
  obtain ⟨hload, _⟩ := fileDB_loads ⟨"data", [1]⟩ (fun _ => none)
    [⟨⟨"data", []⟩, ⟨true, .upTo 32⟩, List.replicate 32 7⟩,
      ⟨⟨"data", []⟩, ⟨true, .upTo 31⟩, List.replicate 32 8⟩] (by decide)
  rcases hload io with hdefault | ⟨checkpoint, hsurvivor, _⟩
  · exact hdefault
  · have hnone : survivor 32 (writesOf "data"
        [⟨⟨"data", []⟩, ⟨true, .upTo 32⟩, List.replicate 32 7⟩,
          ⟨⟨"data", []⟩, ⟨true, .upTo 31⟩, List.replicate 32 8⟩]) none = (none : Option Bytes) := by
      decide +kernel
    rw [hnone] at hsurvivor
    cases hsurvivor

end Helios
