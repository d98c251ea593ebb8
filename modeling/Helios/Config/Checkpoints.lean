import Helios.Common.Types
import Helios.Lib.Plurality

/-!
# Fallback checkpoints (`config/src/checkpoints.rs`)

Each service is asked for its slots at its own moment, and may fail to answer.

* `fetchSlot` — the slot of a service; `fetchLatestCheckpointFromServices` — the most common root of
  the newest epoch.
* `fetchCheckpointFromApi` — the root of the first slot of one service; `CheckpointFallback.build` —
  the services of the fetched list.
* `firstSlots` — the first slots with a root; `IsNewest` — the largest of their epochs;
  `newestRoots` — the roots of that epoch.
* `fetchLatestCheckpoint_eq` — the answer is the most common of these.
* `fallback_plurality` — **an error when no slot is left, and otherwise a plurality of the newest
  epoch, whatever the order of the services and of the hash map**.
-/

set_option autoImplicit false

namespace Helios

open Plurality

structure Slot where
  slot : UInt64
  blockRoot : Option H256
  stateRoot : Option H256
  epoch : UInt64
  deriving DecidableEq

structure RawSlotResponseData where
  slots : List Slot

structure RawSlotResponse where
  data : RawSlotResponseData

/-- A service; only its endpoint and its state are read. -/
structure CheckpointFallbackService where
  endpoint : String
  state : Bool

/-! ## The query -/

/-- The slot of a service, from its answer. -/
def fetchSlot (response : Option RawSlotResponse) : Result Slot :=
  match response with
  | some raw =>
    if raw.data.slots.isEmpty then .error (.err (.message "no slots"))
    else
      match raw.data.slots.find? fun s => s.blockRoot.isSome with
      | some slot => .ok slot
      | none => .error (.err (.message "no valid slots"))
  | none => .error (.err (.message "failed to query service"))

/-- `Ok(s) => Some(s.clone()), _ => None` -/
def okSlot : Result Slot → Option Slot
  | .ok s => some s
  | .error _ => none

/-- The answers of the services to their queries. -/
def responses (queryService : Nat → String → Option RawSlotResponse)
    (services : List CheckpointFallbackService) : List (Option RawSlotResponse) :=
  services.mapIdx fun i service => queryService i service.endpoint

def fetchLatestCheckpointFromServices (order : IterationOrder H256)
    (queryService : Nat → String → Option RawSlotResponse)
    (services : List CheckpointFallbackService) : Result H256 :=
  let tasks := (responses queryService services).map fetchSlot
  let slots := (tasks.filterMap okSlot).filter fun s => s.blockRoot.isSome
  match maxByKey (fun s : Slot => s.epoch.toNat) slots with
  | none => .error (.err (.message "Failed to find max epoch from checkpoint slots"))
  | some maxEpochSlot =>
    let maxEpoch := maxEpochSlot.epoch
    -- only the slots of the newest epoch
    let slots := slots.filter fun s => s.epoch = maxEpoch
    let checkpoints := slots.filterMap Slot.blockRoot
    match mostCommon order checkpoints with
    | none => .error (.err (.message "No checkpoint found"))
    | some root => .ok root

inductive Network where
  | mainnet
  | goerli
  deriving DecidableEq

/-- The services of the networks; a network without an entry has none. -/
structure CheckpointFallback where
  services : Network → Option (List CheckpointFallbackService)

namespace CheckpointFallback

/-- `self.services[network]` panics on a missing key. -/
def getHealthyFallbackServices (fallback : CheckpointFallback) (network : Network) :
    Result (List CheckpointFallbackService) :=
  match fallback.services network with
  | none => .error (.panic .keyNotFound)
  | some services => .ok (services.filter fun service => service.state)

def fetchLatestCheckpoint (fallback : CheckpointFallback) (order : IterationOrder H256)
    (queryService : Nat → String → Option RawSlotResponse) (network : Network) : Result H256 :=
  match fallback.getHealthyFallbackServices network with
  | .error e => .error e
  | .ok services => fetchLatestCheckpointFromServices order queryService services

end CheckpointFallback

/-! ## One service, and the list of services -/

def constructUrl (endpoint : String) : String := endpoint ++ "/checkpointz/v1/beacon/slots"

/-- `raw.data.slots[0]` panics on an empty list. -/
def fetchCheckpointFromApi (get : String → Option RawSlotResponse) (url : String) : Result H256 :=
  match get (constructUrl url) with
  | none => .error (.err (.message "error sending request"))
  | some raw =>
    match raw.data.slots with
    | [] => .error (.panic .indexOutOfBounds)
    | slot :: _ =>
      match slot.blockRoot with
      | some root => .ok root
      | none => .error (.err (.message "Checkpoint not in returned slot"))

/-- `network.to_string()` -/
def Network.display : Network → String
  | .mainnet => "MAINNET"
  | .goerli => "GOERLI"

/-- `network.to_string().to_lowercase()` -/
def Network.key : Network → String
  | .mainnet => "mainnet"
  | .goerli => "goerli"

/-- The entries of the fetched list; one may not parse. -/
abbrev ServicesList := String → Option (Option (List CheckpointFallbackService))

namespace CheckpointFallback

/-- `CheckpointFallback::new().networks` -/
def networks : List Network := [.mainnet, .goerli]

/-- The entry of a network.  The text for one that does not parse is that of the YAML crate. -/
def parseServices (list : ServicesList) (network : Network) :
    Result (Network × List CheckpointFallbackService) :=
  match list network.key with
  | none =>
    .error (.err (.message ("missing " ++ network.display ++ " fallback checkpoint services")))
  | some none => .error (.err (.message "invalid fallback checkpoint services"))
  | some (some services) => .ok (network, services)

/-- `CheckpointFallback::new().build()` -/
def build (list : Option ServicesList) : Result CheckpointFallback :=
  match list with
  | none => .error (.err (.message "error sending request"))
  | some list =>
    match collectResults (parseServices list) networks with
    | .error e => .error e
    | .ok services => .ok ⟨fun network => services.lookup network⟩

end CheckpointFallback

/-! ## Slots -/

/-- The first slots with a block root of the services that answer. -/
def firstSlots (responses : List (Option RawSlotResponse)) : List Slot :=
  responses.filterMap fun response =>
    response.bind fun raw => raw.data.slots.find? fun s => s.blockRoot.isSome

/-- The largest epoch of some slots. -/
structure IsNewest (slots : List Slot) (epoch : UInt64) : Prop where
  mem : ∃ s ∈ slots, s.epoch = epoch
  largest : ∀ s ∈ slots, s.epoch ≤ epoch

/-- The roots of the slots of an epoch. -/
def newestRoots (slots : List Slot) (epoch : UInt64) : List H256 :=
  (slots.filter fun s => s.epoch = epoch).filterMap Slot.blockRoot

variable {order order' : IterationOrder H256}
  {queryService queryService' : Nat → String → Option RawSlotResponse}
  {services services' : List CheckpointFallbackService} {slots : List Slot} {epoch : UInt64}

theorem okSlot_fetchSlot (response : Option RawSlotResponse) :
    okSlot (fetchSlot response) =
      response.bind fun raw => raw.data.slots.find? fun s => s.blockRoot.isSome := by
  cases response with
  | none => rfl
  | some raw =>
    rw [fetchSlot, Option.bind_some]
    cases hslots : raw.data.slots with
    | nil => rfl
    | cons s rest =>
      simp only [List.isEmpty_cons, Bool.false_eq_true, if_false]
      cases (s :: rest).find? fun s => s.blockRoot.isSome <;> rfl

theorem firstSlots_root {responses : List (Option RawSlotResponse)} {s : Slot}
    (h : s ∈ firstSlots responses) : s.blockRoot.isSome = true := by
  obtain ⟨response, _, hfirst⟩ := List.mem_filterMap.1 h
  obtain ⟨raw, _, hfind⟩ := Option.bind_eq_some_iff.1 hfirst
  have hroot := List.find?_some hfind
  exact hroot

/-- The slots that are left after the queries are the first ones with a root. -/
theorem fetchedSlots_eq (responses : List (Option RawSlotResponse)) :
    ((responses.map fetchSlot).filterMap okSlot).filter (fun s => s.blockRoot.isSome) =
      firstSlots responses := by
  have hslots : (responses.map fetchSlot).filterMap okSlot = firstSlots responses := by
    rw [List.filterMap_map]
    exact List.filterMap_congr fun response _ => okSlot_fetchSlot response
  rw [hslots, List.filter_eq_self]
  exact fun s hs => firstSlots_root hs

theorem IsNewest.unique {epoch' : UInt64} (h : IsNewest slots epoch) (h' : IsNewest slots epoch') :
    epoch = epoch' := by
  obtain ⟨s, hs, rfl⟩ := h.mem
  obtain ⟨s', hs', rfl⟩ := h'.mem
  exact UInt64.le_antisymm (h'.largest s hs) (h.largest s' hs')

theorem isNewest_of_maxByKey {s : Slot}
    (h : maxByKey (fun s : Slot => s.epoch.toNat) slots = some s) : IsNewest slots s.epoch where
  mem := ⟨s, maxByKey_mem h, rfl⟩
  largest _ ht := UInt64.le_iff_toNat_le.2 (le_of_maxByKey h ht)

/-- There is a root in the newest epoch. -/
theorem newestRoots_ne_nil (hroot : ∀ s ∈ slots, s.blockRoot.isSome) (h : IsNewest slots epoch) :
    newestRoots slots epoch ≠ [] := by
  obtain ⟨s, hs, hepoch⟩ := h.mem
  obtain ⟨root, hs'⟩ := Option.isSome_iff_exists.1 (hroot s hs)
  apply List.ne_nil_of_mem (a := root)
  rw [newestRoots, List.mem_filterMap]
  exact ⟨s, List.mem_filter.2 ⟨hs, decide_eq_true hepoch⟩, hs'⟩

/-- **The answer**: an error without slots, and otherwise the most common root of the newest
    epoch. -/
theorem fetchLatestCheckpoint_eq :
    (firstSlots (responses queryService services) = [] ∧
      fetchLatestCheckpointFromServices order queryService services =
        .error (.err (.message "Failed to find max epoch from checkpoint slots"))) ∨
    ∃ epoch root, IsNewest (firstSlots (responses queryService services)) epoch ∧
      mostCommon order (newestRoots (firstSlots (responses queryService services)) epoch) =
        some root ∧
      fetchLatestCheckpointFromServices order queryService services = .ok root := by
  unfold fetchLatestCheckpointFromServices
  simp only [fetchedSlots_eq]
  cases hmax : maxByKey (fun s : Slot => s.epoch.toNat)
      (firstSlots (responses queryService services)) with
  | none => exact Or.inl ⟨maxByKey_eq_none.1 hmax, rfl⟩
  | some s =>
    right
    have hnewest := isNewest_of_maxByKey hmax
    obtain ⟨root, hroot⟩ := @exists_mostCommon _ _ _ _ _ order
      (newestRoots_ne_nil (fun _ hs => firstSlots_root hs) hnewest)
    refine ⟨s.epoch, root, hnewest, hroot, ?_⟩
    rw [newestRoots] at hroot
    simp only [hroot]

theorem fetchLatestCheckpoint_ok {root : H256}
    (h : fetchLatestCheckpointFromServices order queryService services = .ok root) :
    ∃ epoch, IsNewest (firstSlots (responses queryService services)) epoch ∧
      mostCommon order (newestRoots (firstSlots (responses queryService services)) epoch) =
        some root := by
  rcases @fetchLatestCheckpoint_eq order queryService services with ⟨_, herr⟩ | hok
  · rw [herr] at h
    cases h
  · obtain ⟨epoch, root', hnewest, hcommon, hok⟩ := hok
    rw [hok] at h
    cases h
    exact ⟨epoch, hnewest, hcommon⟩

/-- The checkpoint of a network is a plurality among its services in a good state. -/
theorem CheckpointFallback.fetchLatestCheckpoint_plurality {fallback : CheckpointFallback}
    {network : Network} {root : H256}
    (h : fallback.fetchLatestCheckpoint order queryService network = .ok root) :
    ∃ services epoch, fallback.services network = some services ∧
      IsNewest (firstSlots (responses queryService (services.filter fun s => s.state))) epoch ∧
      IsPlurality
        (newestRoots (firstSlots (responses queryService (services.filter fun s => s.state))) epoch)
        root := by
  unfold fetchLatestCheckpoint getHealthyFallbackServices at h
  cases hservices : fallback.services network with
  | none =>
    rw [hservices] at h
    cases h
  | some services =>
    rw [hservices] at h
    obtain ⟨epoch, hnewest, hcommon⟩ := fetchLatestCheckpoint_ok h
    exact ⟨services, epoch, rfl, hnewest, mostCommon_plurality hcommon⟩

/-! ## The order of the services -/

theorem IsNewest.perm {slots' : List Slot} (hperm : slots.Perm slots') (h : IsNewest slots epoch) :
    IsNewest slots' epoch where
  mem := by
    obtain ⟨s, hs, hepoch⟩ := h.mem
    exact ⟨s, hperm.mem_iff.1 hs, hepoch⟩
  largest s hs := h.largest s (hperm.mem_iff.2 hs)

theorem newestRoots_perm {slots' : List Slot} (hperm : slots.Perm slots') :
    (newestRoots slots epoch).Perm (newestRoots slots' epoch) :=
  (hperm.filter _).filterMap _

theorem firstSlots_perm
    (hperm : (responses queryService services).Perm (responses queryService' services')) :
    (firstSlots (responses queryService services)).Perm
      (firstSlots (responses queryService' services')) :=
  hperm.filterMap _

/-- The query fails exactly when no slot is left. -/
theorem fetchLatestCheckpoint_error_iff :
    (∃ e, fetchLatestCheckpointFromServices order queryService services = .error (.err e)) ↔
      firstSlots (responses queryService services) = [] := by
  rcases @fetchLatestCheckpoint_eq order queryService services with
    ⟨hnil, herr⟩ | ⟨epoch, root, hnewest, _, hok⟩
  · exact ⟨fun _ => hnil, fun _ => ⟨_, herr⟩⟩
  · obtain ⟨s, hs, _⟩ := hnewest.mem
    constructor
    · rintro ⟨e, herr⟩
      rw [hok] at herr
      cases herr
    · intro hnil
      rw [hnil] at hs
      cases hs

/-- The only plurality is found in every order of the services and of the hash map. -/
theorem fetchLatestCheckpoint_unique {root : H256}
    (hnewest : IsNewest (firstSlots (responses queryService services)) epoch)
    (hplurality : IsPlurality (newestRoots (firstSlots (responses queryService services)) epoch) root)
    (hunique : ∀ other, IsPlurality
      (newestRoots (firstSlots (responses queryService services)) epoch) other → other = root)
    (hperm : (responses queryService services).Perm (responses queryService' services')) :
    fetchLatestCheckpointFromServices order' queryService' services' = .ok root := by
  have hnewest' := hnewest.perm (firstSlots_perm hperm)
  rcases @fetchLatestCheckpoint_eq order' queryService' services' with
    ⟨hnil, _⟩ | ⟨epoch', root', hfound, hcommon, hok⟩
  · obtain ⟨s, hs, _⟩ := hnewest'.mem
    rw [hnil] at hs
    cases hs
  · obtain rfl : epoch = epoch' := hnewest'.unique hfound
    have hroots := @newestRoots_perm _ epoch _ (firstSlots_perm hperm)
    have honly := @mostCommon_unique _ _ _ _ _ _ order' (hplurality.perm hroots)
      fun other hother => hunique other (hother.perm hroots.symm)
    rw [hcommon] at honly
    cases honly
    exact hok

/-- **The fallback checkpoint is a plurality of the newest epoch.**  The query fails exactly when no
    service answers with a slot that has a root.  Otherwise it returns a root of the newest epoch
    that no other root exceeds; and if there is only one such root, it returns that one in every
    order of the services and of the hash map. -/
theorem fallback_plurality (order : IterationOrder H256)
    (queryService : Nat → String → Option RawSlotResponse)
    (services : List CheckpointFallbackService) :
    ((∃ e, fetchLatestCheckpointFromServices order queryService services = .error (.err e)) ↔
      firstSlots (responses queryService services) = []) ∧
    (firstSlots (responses queryService services) ≠ [] →
      ∃ epoch root, IsNewest (firstSlots (responses queryService services)) epoch ∧
        fetchLatestCheckpointFromServices order queryService services = .ok root ∧
        IsPlurality (newestRoots (firstSlots (responses queryService services)) epoch) root) ∧
    ∀ epoch root, IsNewest (firstSlots (responses queryService services)) epoch →
      IsPlurality (newestRoots (firstSlots (responses queryService services)) epoch) root →
      (∀ other, IsPlurality (newestRoots (firstSlots (responses queryService services)) epoch)
        other → other = root) →
      ∀ (order' : IterationOrder H256) (queryService' : Nat → String → Option RawSlotResponse)
        (services' : List CheckpointFallbackService),
        (responses queryService services).Perm (responses queryService' services') →
        fetchLatestCheckpointFromServices order' queryService' services' = .ok root := by
  refine ⟨fetchLatestCheckpoint_error_iff, ?_, ?_⟩
  · intro hne
    rcases @fetchLatestCheckpoint_eq order queryService services with
      ⟨hnil, _⟩ | ⟨epoch, root, hnewest, hcommon, hok⟩
    · exact absurd hnil hne
    · exact ⟨epoch, root, hnewest, hok, mostCommon_plurality hcommon⟩
  · intro epoch root hnewest hplurality hunique order' queryService' services' hperm
    exact fetchLatestCheckpoint_unique hnewest hplurality hunique hperm

/-! ## Four services -/

/-- The order in which the entries are stored. -/
def storedOrder : IterationOrder H256 where
  entries m := m.toList
  perm _ := List.Perm.refl _

/-- A slot of an epoch, with a number as its root. -/
def rootedSlot (epoch : UInt64) (root : Nat) : Slot where
  slot := 32 * epoch
  blockRoot := some (beBytes 32 root)
  stateRoot := none
  epoch := epoch

/-- Three services answer in epoch 5, one of them with another root, and one fails. -/
def fourAnswers : Nat → String → Option RawSlotResponse
  | 0, _ => some ⟨⟨[{ rootedSlot 6 0 with blockRoot := none }, rootedSlot 5 1, rootedSlot 4 3]⟩⟩
  | 1, _ => some ⟨⟨[rootedSlot 5 2]⟩⟩
  | 2, _ => none
  | _, _ => some ⟨⟨[rootedSlot 5 1]⟩⟩

def fourServices : List CheckpointFallbackService := List.replicate 4 ⟨"", true⟩

theorem fourRoots : newestRoots (firstSlots (responses fourAnswers fourServices)) 5 =
    [beBytes 32 1, beBytes 32 2, beBytes 32 1] := by decide +kernel

theorem fourRoots_count (b : H256) :
    [beBytes 32 1, beBytes 32 2, (beBytes 32 1 : H256)].count b =
      if b = beBytes 32 1 then 2 else if b = beBytes 32 2 then 1 else 0 := by
  have hne : (beBytes 32 1 : H256) ≠ beBytes 32 2 := by decide +kernel
  by_cases h1 : b = beBytes 32 1
  · subst h1
    simp [hne.symm]
  by_cases h2 : b = beBytes 32 2
  · subst h2
    simp [hne, hne.symm]
  · simp [h1, h2, Ne.symm h1, Ne.symm h2]

/-- The root that two of the services name. -/
theorem fallback_plurality_four :
    fetchLatestCheckpointFromServices storedOrder fourAnswers fourServices =
      .ok (beBytes 32 1) := by
  apply (fallback_plurality storedOrder fourAnswers fourServices).2.2 5 (beBytes 32 1)
  · exact ⟨⟨rootedSlot 5 1, by decide +kernel, rfl⟩, by decide +kernel⟩
  · rw [fourRoots]
    refine ⟨List.mem_cons_self, fun b => ?_⟩
    rw [fourRoots_count, fourRoots_count, if_pos rfl]
    split
    · exact Nat.le_refl _
    · split <;> omega
  · intro other hother
    have hmost := hother.most (beBytes 32 1)
    rw [fourRoots, fourRoots_count, fourRoots_count, if_pos rfl] at hmost
    by_contra hother'
    rw [if_neg hother'] at hmost
    split at hmost <;> omega
  · exact List.Perm.refl _

end Helios
