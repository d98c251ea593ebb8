import Helios.Execution.Proof
import Helios.Lib.Patricia

/-!
# What `verify_proof` accepts against a Merkle-Patricia trie

The proof list is the server's; only the root is the trie's.  `verifyProofFrom_step` says once what
one pass through the loop accepts, and `verifyProofFrom_iff` unfolds it along the trie: the
accepted proofs are exactly `Accepted`, a recursion over the trie with one case per node kind.

* `Forged` — what the loop accepts once the path is used up.  The loop reads a leaf that is not the
  last node as if it were an extension, so the stored value becomes the next expected hash.
* `ReadsNodes`, `NoCollision` — what is asked of the RLP reader and of the hash.
* `StopsAtExtension`, `RunsPastLeaf` — the two ways an accepted proof differs from an honest one.
* `accepted_find`, `accepted_iff_of_find` — what acceptance says about the key.
-/

set_option autoImplicit false

namespace Helios

open Nibble Patricia

variable {c : Crates} {path value : Bytes}

/-! ## One pass through the loop -/

/-- What is left of the path at an offset. -/
abbrev restOf (path : Bytes) (offset : Nat) : List (Fin 16) := (nibbles path).drop offset

/-- The path a two-item node stands for. -/
abbrev nodePathOf (nodePath : Bytes) : List (Fin 16) :=
  (nibbles nodePath).drop (skipLength nodePath)

theorem restOf_add (path : Bytes) (offset n : Nat) :
    restOf path (offset + n) = (restOf path offset).drop n := by
  simp only [restOf, List.drop_drop]

theorem length_nodePathOf (nodePath : Bytes) :
    (nodePathOf nodePath).length = nodePath.length * 2 - skipLength nodePath := by
  rw [drop_nibbles_length, Nat.mul_comm]

/-- What one pass accepts when its node is a branch. -/
def BranchStep (c : Crates) (path value : Bytes) (offset : Nat) (nodeList rest : List Bytes) :
    Prop :=
  ∃ n key child, restOf path offset = n :: key ∧ nodeList[n.val]? = some child ∧
    (if rest = [] then child = [] ∧ isEmptyValue value = true
     else verifyProofFrom c path value child (offset + 1) rest = .ok true)

/-- What one pass accepts when its node has two items. -/
def PairStep (c : Crates) (path value : Bytes) (offset : Nat) (nodePath item : Bytes)
    (rest : List Bytes) : Prop :=
  if rest = [] then
    (nodePathOf nodePath ≠ restOf path offset ∧ isEmptyValue value = true) ∨
      (nodePathOf nodePath = restOf path offset ∧ item = value)
  else
    nodePathOf nodePath <+: restOf path offset ∧
      verifyProofFrom c path value item (offset + (nodePathOf nodePath).length) rest = .ok true

/-- A branch with a child at the nibble of the path. -/
theorem branchStep_child {offset : Nat} {nodeList rest : List Bytes} {n : Fin 16}
    {key : List (Fin 16)} {child : Bytes} (hrest : restOf path offset = n :: key)
    (hchild : nodeList[n.val]? = some child) :
    BranchStep c path value offset nodeList rest ↔
      (if rest = [] then child = [] ∧ isEmptyValue value = true
       else verifyProofFrom c path value child (offset + 1) rest = .ok true) := by
  unfold BranchStep
  constructor
  · rintro ⟨m, k, child', hkey, hc, h⟩
    rw [hrest] at hkey
    cases hkey
    rw [hchild] at hc
    cases hc
    exact h
  · exact fun h => ⟨n, key, child, hrest, hchild, h⟩

theorem branchStep_iff {offset : Nat} {nodeList rest : List Bytes} :
    (match getNibble path offset with
      | .error e => .error e
      | .ok nibble =>
        match nodeList[nibble.toNat]? with
        | none => .error (.panic .indexOutOfBounds)
        | some child =>
          if rest.isEmpty then
            if child.isEmpty && isEmptyValue value then .ok true else .ok false
          else verifyProofFrom c path value child (offset + 1) rest : Result Bool) = .ok true ↔
      BranchStep c path value offset nodeList rest := by
  cases hr : restOf path offset with
  | nil =>
    have hout : 2 * path.length ≤ offset := by
      have hlen := congrArg List.length hr
      rw [drop_nibbles_length, List.length_nil] at hlen
      omega
    rw [getNibble_out hout, BranchStep, hr]
    simp
  | cons n key =>
    rw [getNibble_eq (getElem?_of_drop hr)]
    simp only [nibbleByte_toNat]
    cases hc : nodeList[n.val]? with
    | none =>
      simp only [reduceCtorEq, false_iff]
      rintro ⟨m, k, child, hkey, h, _⟩
      rw [hr] at hkey
      cases hkey
      rw [hc] at h
      cases h
    | some child =>
      rw [branchStep_child hr hc]
      cases rest with
      | nil =>
        simp only [List.isEmpty_nil, if_true, Bool.and_eq_true, List.isEmpty_iff]
        constructor
        · intro h
          split at h
          · assumption
          · cases h
        · intro hb
          rw [if_pos hb]
      | cons node rest =>
        simp only [List.isEmpty_cons, Bool.false_eq_true, if_false, reduceCtorEq]

theorem pairStep_iff {offset : Nat} (hoff : offset ≤ 2 * path.length) {nodePath item : Bytes}
    {rest : List Bytes} :
    (if rest.isEmpty then
      match pathsMatch nodePath (skipLength nodePath) path offset with
      | .error e => .error e
      | .ok isMatch =>
        if !isMatch && isEmptyValue value then .ok true
        else if item == value then .ok isMatch
        else .ok false
    else
      match sharedPrefixLength path offset nodePath with
      | .error e => .error e
      | .ok prefixLength =>
        if prefixLength < nodePath.length * 2 - skipLength nodePath then .ok false
        else verifyProofFrom c path value item (offset + prefixLength) rest : Result Bool) =
        .ok true ↔
      PairStep c path value offset nodePath item rest := by
  have hskip := skipLength_le nodePath
  unfold PairStep
  cases rest with
  | nil =>
    rw [pathsMatch_eq (by omega) hoff]
    by_cases hm : nodePathOf nodePath = restOf path offset
    · simp only [hm, List.isEmpty_nil, if_true, decide_true, Bool.not_true, Bool.false_and,
        Bool.false_eq_true, if_false, ne_eq, not_true_eq_false, false_and, true_and, false_or]
      by_cases hi : item = value <;> simp [hi]
    · simp only [hm, List.isEmpty_nil, if_true, decide_false, Bool.not_false, Bool.true_and,
        ne_eq, not_false_eq_true, true_and, false_and, or_false]
      by_cases he : isEmptyValue value = true <;> simp [he]
  | cons node rest =>
    rw [show sharedPrefixLength path offset nodePath =
      .ok (commonPrefixLength (restOf path offset) (nodePathOf nodePath)) from sharedPrefixLength_eq]
    have hle := commonPrefixLength_le_right (restOf path offset) (nodePathOf nodePath)
    have hiff := commonPrefixLength_eq_length_iff (restOf path offset) (nodePathOf nodePath)
    simp only [List.isEmpty_cons, Bool.false_eq_true, if_false, reduceCtorEq,
      ← length_nodePathOf, ← hiff]
    constructor
    · intro h
      split at h
      · cases h
      · have heq : commonPrefixLength (restOf path offset) (nodePathOf nodePath) =
            (nodePathOf nodePath).length := by omega
        exact ⟨heq, heq ▸ h⟩
    · rintro ⟨heq, h⟩
      rw [if_neg (by rw [heq]; omega), heq]
      exact h

/-- **What one pass through the loop accepts.** -/
theorem verifyProofFrom_step {offset : Nat} (hoff : offset ≤ 2 * path.length)
    {expected node : Bytes} {rest : List Bytes} :
    verifyProofFrom c path value expected offset (node :: rest) = .ok true ↔
      expected = c.hash node ∧ ∃ nodeList, c.decodeList node = some nodeList ∧
        ((nodeList.length = 17 ∧ BranchStep c path value offset nodeList rest) ∨
          ∃ nodePath item, nodeList = [nodePath, item] ∧
            PairStep c path value offset nodePath item rest) := by
  rw [verifyProofFrom]
  by_cases hx : expected = c.hash node
  · rw [if_neg (by simp [hx])]
    cases hd : c.decodeList node with
    | none => simp
    | some nodeList =>
      simp only [hx, true_and, Option.some.injEq, exists_eq_left']
      by_cases h17 : nodeList.length = 17
      · rw [if_pos h17]
        constructor
        · exact fun h => Or.inl ⟨h17, branchStep_iff.1 h⟩
        · rintro (⟨_, h⟩ | ⟨nodePath, item, rfl, _⟩)
          · exact branchStep_iff.2 h
          · simp at h17
      · rw [if_neg h17]
        simp only [h17, false_and, false_or]
        constructor
        · intro h
          split at h
          · exact ⟨_, _, rfl, (pairStep_iff hoff).1 h⟩
          · cases h
        · rintro ⟨nodePath, item, rfl, h⟩
          exact (pairStep_iff hoff).2 h
  · rw [if_pos hx]
    simp [hx]

/-! ## Past the end of the path -/

/-- The proofs accepted once the path is used up: every node hashes to the item before it, holds
    two items, and all but the last have an empty path. -/
def Forged (c : Crates) (value : Bytes) : Bytes → List Bytes → Prop
  | _, [] => False
  | expected, node :: rest =>
    expected = c.hash node ∧ ∃ nodePath item, c.decodeList node = some [nodePath, item] ∧
      (if rest = [] then
        (nodePathOf nodePath ≠ [] ∧ isEmptyValue value = true) ∨
          (nodePathOf nodePath = [] ∧ item = value)
       else nodePathOf nodePath = [] ∧ Forged c value item rest)

theorem verifyProofFrom_exhausted : ∀ (proof : List Bytes) (expected : Bytes) (offset : Nat),
    offset = 2 * path.length →
      (verifyProofFrom c path value expected offset proof = .ok true ↔
        Forged c value expected proof)
  | [], _, _, _ => by simp [verifyProofFrom, Forged]
  | node :: rest, expected, offset, hoff => by
    have hnil : restOf path offset = [] :=
      List.drop_eq_nil_of_le (by rw [nibbles_length, hoff])
    have hbranch : ∀ nodeList, ¬ BranchStep c path value offset nodeList rest := by
      rintro nodeList ⟨n, key, child, hr, _⟩
      rw [hnil] at hr
      cases hr
    have hpair : ∀ nodePath item, PairStep c path value offset nodePath item rest ↔
        (if rest = [] then
          (nodePathOf nodePath ≠ [] ∧ isEmptyValue value = true) ∨
            (nodePathOf nodePath = [] ∧ item = value)
         else nodePathOf nodePath = [] ∧ Forged c value item rest) := by
      intro nodePath item
      unfold PairStep
      rw [hnil]
      split
      · rfl
      · rw [List.prefix_nil]
        refine and_congr_right fun hp => ?_
        rw [hp, List.length_nil, Nat.add_zero]
        exact verifyProofFrom_exhausted rest item offset hoff
    rw [verifyProofFrom_step (by omega), Forged]
    simp only [hbranch, and_false, false_or, hpair]
    refine and_congr_right fun _ => ?_
    constructor
    · rintro ⟨_, hd, nodePath, item, rfl, h⟩
      exact ⟨nodePath, item, hd, h⟩
    · rintro ⟨nodePath, item, hd, h⟩
      exact ⟨_, hd, nodePath, item, rfl, h⟩

/-! ## Along the trie -/

/-- `decode_list` inverts the RLP list encoding on the nodes of a trie: it returns the byte strings
    of a list, panics on a list inside it, and finds no items in the empty node. -/
structure ReadsNodes (c : Crates) (t : Node) : Prop where
  list : ∀ s items, t.Within s → s.item c.hash = .list items →
    c.decodeList (s.encode c.hash) = strings items
  empty : ∀ nodeList, c.decodeList (Node.empty.encode c.hash) = some nodeList → nodeList = []

/-- The reader of the `rlp` crate reads every trie whose nodes fit into RLP. -/
theorem readsNodes_of_readList {t : Node} (hc : c.decodeList = readList)
    (hlen : ∀ s, t.Within s → (s.encode c.hash).length < 2 ^ 64) : ReadsNodes c t := by
  refine ⟨fun s items hs hitem => ?_, fun nodeList h => ?_⟩
  · have hlt := hlen s hs
    rw [Node.encode, hitem] at hlt
    rw [hc, Node.encode, hitem, readList_encode hlt]
  · rw [hc] at h
    cases h
    rfl

/-- No proof node collides with a node of the trie. -/
def NoCollision (c : Crates) (t : Node) (proof : List Bytes) : Prop :=
  ∀ b ∈ proof, ∀ s, t.Within s → c.hash b = c.hash (s.encode c.hash) → b = s.encode c.hash

/-- The proofs accepted for a key from a node of the trie on. -/
def Accepted (c : Crates) (value : Bytes) : Node → List (Fin 16) → List Bytes → Prop
  | _, _, [] => False
  | .empty, _, _ :: _ => False
  | .leaf path w, key, node :: rest =>
    node = (Node.leaf path w).encode c.hash ∧
      (if rest = [] then (path ≠ key ∧ isEmptyValue value = true) ∨ (path = key ∧ w = value)
       else path = key ∧ Forged c value w rest)
  | .ext path child, key, node :: rest =>
    node = (Node.ext path child).encode c.hash ∧ (c.decodeList node).isSome ∧
      (if rest = [] then isEmptyValue value = true
       else path <+: key ∧ Accepted c value child (key.drop path.length) rest)
  | .branch _, [], _ :: _ => False
  | .branch children, n :: key, node :: rest =>
    node = (Node.branch children).encode c.hash ∧ (c.decodeList node).isSome ∧
      (if rest = [] then (children n).isEmpty = true ∧ isEmptyValue value = true
       else Accepted c value (children n) key rest)

theorem NoCollision.tail {t s : Node} {node : Bytes} {rest : List Bytes}
    (h : NoCollision c t (node :: rest)) (hs : ∀ u, s.Within u → t.Within u) :
    NoCollision c s rest :=
  fun b hb u hu he => h b (List.mem_cons_of_mem _ hb) u (hs u hu) he

theorem ReadsNodes.mono {t s : Node} (h : ReadsNodes c t) (hs : ∀ u, s.Within u → t.Within u) :
    ReadsNodes c s :=
  ⟨fun u items hu => h.list u items (hs u hu), h.empty⟩

/-- The first node of an accepted proof is the node of the trie. -/
theorem NoCollision.head_iff {t : Node} {node : Bytes} {rest : List Bytes}
    (h : NoCollision c t (node :: rest)) :
    t.rootHash c.hash = c.hash node ↔ node = t.encode c.hash := by
  constructor
  · intro he
    exact h node List.mem_cons_self t (.refl t) he.symm
  · intro he
    rw [he, Node.rootHash]

theorem hash_ne_nil {b : Bytes} : c.hash b ≠ [] := by
  intro h
  have hlen := congrArg List.length h
  rw [c.hash_length, List.length_nil] at hlen
  cases hlen

theorem not_accepted_of_isEmpty {t : Node} {key : List (Fin 16)} {proof : List Bytes}
    (h : t.isEmpty = true) : ¬ Accepted c value t key proof := by
  cases t with
  | empty => cases proof <;> simp [Accepted]
  | leaf p w => cases h
  | ext p child => cases h
  | branch children => cases h

/-- No two-item or seventeen-item node hangs below an empty slot. -/
theorem verifyProofFrom_nil_hash {offset : Nat} (hoff : offset ≤ 2 * path.length) :
    ∀ rest : List Bytes, verifyProofFrom c path value [] offset rest ≠ .ok true
  | [] => by simp [verifyProofFrom]
  | node :: rest => by
    rw [ne_eq, verifyProofFrom_step hoff]
    rintro ⟨h, _⟩
    exact hash_ne_nil h.symm

theorem leaf_iff {p w : List _} {key : List (Fin 16)} {offset : Nat} {proof : List Bytes}
    (hoff : offset ≤ 2 * path.length) (hrest : restOf path offset = key)
    (hwf : p.length = key.length) (hread : ReadsNodes c (.leaf p w))
    (hcol : NoCollision c (.leaf p w) proof) :
    verifyProofFrom c path value ((Node.leaf p w).rootHash c.hash) offset proof = .ok true ↔
      Accepted c value (.leaf p w) key proof := by
  cases proof with
  | nil => simp [verifyProofFrom, Accepted]
  | cons node rest =>
    rw [verifyProofFrom_step hoff, hcol.head_iff, Accepted]
    refine and_congr_right fun hnode => ?_
    have hdec : c.decodeList node = some [hexPrefix true p, w] := by
      rw [hnode, hread.list _ _ (.refl _) rfl]
      rfl
    have hpair : PairStep c path value offset (hexPrefix true p) w rest ↔
        (if rest = [] then (p ≠ key ∧ isEmptyValue value = true) ∨ (p = key ∧ w = value)
         else p = key ∧ Forged c value w rest) := by
      unfold PairStep
      rw [nodePathOf, nibbles_drop_skipLength, hrest]
      split
      · rfl
      · have hpre : p <+: key ↔ p = key :=
          ⟨fun h => h.eq_of_length hwf, fun h => h ▸ List.prefix_refl _⟩
        rw [hpre]
        refine and_congr_right fun _ => verifyProofFrom_exhausted rest w _ ?_
        have hlen := congrArg List.length hrest
        rw [drop_nibbles_length] at hlen
        omega
    rw [hdec]
    simp only [Option.some.injEq, exists_eq_left', List.length_cons, List.length_nil,
      Nat.reduceAdd, Nat.reduceEqDiff, false_and, false_or, List.cons.injEq, and_true]
    rw [← hpair]
    constructor
    · rintro ⟨_, _, ⟨rfl, rfl⟩, h⟩
      exact h
    · exact fun h => ⟨_, _, ⟨rfl, rfl⟩, h⟩

/-- Reading an extension: its child is named by hash, or the reader panics. -/
theorem decodeList_ext {p : List (Fin 16)} {child : Node} (hread : ReadsNodes c (.ext p child))
    (hchild : child.isBranch = true) :
    c.decodeList ((Node.ext p child).encode c.hash) = none ∨
      c.decodeList ((Node.ext p child).encode c.hash) =
        some [hexPrefix false p, child.rootHash c.hash] := by
  rw [hread.list _ _ (.refl _) rfl]
  cases hs : strings [.str (hexPrefix false p), reference c.hash (child.item c.hash)] with
  | none => exact Or.inl rfl
  | some bs =>
    right
    rw [strings_eq_some_iff] at hs
    obtain _ | ⟨b, _ | ⟨s, _ | ⟨_, _⟩⟩⟩ := bs <;> simp at hs
    obtain ⟨rfl, hs⟩ := hs
    rcases reference_asStr hs with ⟨he, _⟩ | ⟨_, rfl⟩
    · cases child <;> simp [Node.isEmpty, Node.isBranch] at he hchild
    · rfl

theorem ext_iff {p : List (Fin 16)} {child : Node} {key : List (Fin 16)} {offset : Nat}
    {proof : List Bytes} (hoff : offset ≤ 2 * path.length) (hrest : restOf path offset = key)
    (hlt : p.length < key.length) (hchild : child.isBranch = true)
    (hread : ReadsNodes c (.ext p child)) (hcol : NoCollision c (.ext p child) proof)
    (ih : ∀ rest, NoCollision c child rest → p <+: key →
      (verifyProofFrom c path value (child.rootHash c.hash) (offset + p.length) rest = .ok true ↔
        Accepted c value child (key.drop p.length) rest)) :
    verifyProofFrom c path value ((Node.ext p child).rootHash c.hash) offset proof = .ok true ↔
      Accepted c value (.ext p child) key proof := by
  cases proof with
  | nil => simp [verifyProofFrom, Accepted]
  | cons node rest =>
    rw [verifyProofFrom_step hoff, hcol.head_iff, Accepted]
    refine and_congr_right fun hnode => ?_
    have hcol' : NoCollision c child rest := hcol.tail fun u hu => .ext hu
    have hpair : PairStep c path value offset (hexPrefix false p) (child.rootHash c.hash) rest ↔
        (if rest = [] then isEmptyValue value = true
         else p <+: key ∧ Accepted c value child (key.drop p.length) rest) := by
      unfold PairStep
      rw [nodePathOf, nibbles_drop_skipLength, hrest]
      split
      · have hne : p ≠ key := fun h => by rw [h] at hlt; omega
        simp [hne]
      · exact and_congr_right fun hp => ih rest hcol' hp
    subst hnode
    rcases decodeList_ext hread hchild with hd | hd
    · simp [hd]
    · simp only [hd, Option.some.injEq, exists_eq_left', List.length_cons, List.length_nil,
        Nat.reduceAdd, Nat.reduceEqDiff, false_and, false_or, List.cons.injEq, and_true,
        Option.isSome_some, true_and]
      rw [← hpair]
      constructor
      · rintro ⟨_, _, ⟨rfl, rfl⟩, h⟩
        exact h
      · exact fun h => ⟨_, _, ⟨rfl, rfl⟩, h⟩

theorem branch_iff {children : Fin 16 → Node} {n : Fin 16} {key : List (Fin 16)} {offset : Nat}
    {proof : List Bytes} (hoff : offset < 2 * path.length)
    (hrest : restOf path offset = n :: key)
    (hread : ReadsNodes c (.branch children)) (hcol : NoCollision c (.branch children) proof)
    (ih : ∀ rest, NoCollision c (children n) rest →
      (verifyProofFrom c path value ((children n).rootHash c.hash) (offset + 1) rest = .ok true ↔
        Accepted c value (children n) key rest)) :
    verifyProofFrom c path value ((Node.branch children).rootHash c.hash) offset proof = .ok true ↔
      Accepted c value (.branch children) (n :: key) proof := by
  cases proof with
  | nil => simp [verifyProofFrom, Accepted]
  | cons node rest =>
    rw [verifyProofFrom_step (Nat.le_of_lt hoff), hcol.head_iff, Accepted]
    refine and_congr_right fun hnode => ?_
    have hcol' : NoCollision c (children n) rest := hcol.tail fun u hu => .branch n hu
    have hlist := hread.list _ _ (.refl _) (show (Node.branch children).item c.hash = .list _ from rfl)
    subst hnode
    cases hd : c.decodeList ((Node.branch children).encode c.hash) with
    | none => simp
    | some nodeList =>
      rw [hd, eq_comm, strings_eq_some_iff] at hlist
      obtain ⟨h17, hchildren⟩ := branch_strings hlist
      obtain ⟨s, hs, href⟩ := hchildren n
      have hpair : ∀ nodePath item, nodeList ≠ [nodePath, item] := by
        rintro nodePath item rfl
        simp at h17
      have hbranch : BranchStep c path value offset nodeList rest ↔
          (if rest = [] then (children n).isEmpty = true ∧ isEmptyValue value = true
           else Accepted c value (children n) key rest) := by
        rw [branchStep_child hrest hs]
        rcases reference_asStr href with ⟨he, rfl⟩ | ⟨he, rfl⟩
        · have hrec : ¬ Accepted c value (children n) key rest := not_accepted_of_isEmpty he
          have hnil : verifyProofFrom c path value [] (offset + 1) rest ≠ .ok true :=
            verifyProofFrom_nil_hash (by omega) rest
          simp only [he, true_and, hrec, hnil]
        · have hne : (children n).rootHash c.hash ≠ [] := hash_ne_nil
          simp only [he, hne, Bool.false_eq_true, false_and, ih rest hcol']
      simp only [Option.some.injEq, exists_eq_left', h17, hbranch, hpair, Option.isSome_some,
        true_and, false_and, exists_false, or_false]

/-- **The accepted proofs are exactly `Accepted`**, from any node of the trie on. -/
theorem verifyProofFrom_iff : ∀ {t : Node} {key : List (Fin 16)} {offset : Nat}
    {proof : List Bytes}, t.WellFormed key.length → offset ≤ 2 * path.length →
      restOf path offset = key → ReadsNodes c t → NoCollision c t proof →
      (verifyProofFrom c path value (t.rootHash c.hash) offset proof = .ok true ↔
        Accepted c value t key proof)
  | .empty, key, offset, proof, _, hoff, _, hread, hcol => by
    cases proof with
    | nil => simp [verifyProofFrom, Accepted]
    | cons node rest =>
      rw [verifyProofFrom_step hoff, hcol.head_iff, Accepted, iff_false]
      rintro ⟨rfl, nodeList, hd, h⟩
      have := hread.empty nodeList hd
      subst this
      rcases h with ⟨h, _⟩ | ⟨_, _, h, _⟩ <;> cases h
  | .leaf p w, key, offset, proof, hwf, hoff, hrest, hread, hcol =>
    leaf_iff hoff hrest hwf.1 hread hcol
  | .ext p child, key, offset, proof, hwf, hoff, hrest, hread, hcol => by
    obtain ⟨_, hle, hb, hchild⟩ := hwf
    have hlt : p.length < key.length := by
      cases child with
      | branch children =>
        have := hchild.1
        omega
      | empty => simp [Node.isBranch] at hb
      | leaf p' w => simp [Node.isBranch] at hb
      | ext p' ch => simp [Node.isBranch] at hb
    refine ext_iff hoff hrest hlt hb hread hcol fun rest hcol' hp => ?_
    have hlen := congrArg List.length hrest
    rw [drop_nibbles_length] at hlen
    refine verifyProofFrom_iff ?_ (by omega) ?_ (hread.mono fun u hu => .ext hu) hcol'
    · rw [length_drop_of_path rfl]
      exact hchild
    · rw [restOf_add, hrest]
  | .branch children, [], offset, proof, hwf, _, _, _, _ => absurd hwf.1 (by simp)
  | .branch children, n :: key, offset, proof, hwf, hoff, hrest, hread, hcol => by
    have hlen := congrArg List.length hrest
    rw [drop_nibbles_length, List.length_cons] at hlen
    refine branch_iff (by omega) hrest hread hcol fun rest hcol' => ?_
    refine verifyProofFrom_iff ?_ (by omega) ?_ (hread.mono fun u hu => .branch n hu) hcol'
    · have := hwf.2.1 n
      rwa [List.length_cons, Nat.add_sub_cancel] at this
    · rw [restOf_add, hrest, List.drop_succ_cons, List.drop_zero]

/-! ## Accepted proofs of a stored key -/

/-- The proof lists the encodings of these nodes, and each of them reads as a list of byte
    strings. -/
def Follows (c : Crates) (nodes : List Node) (proof : List Bytes) : Prop :=
  proof = nodes.map (Node.encode c.hash) ∧ ∀ node ∈ proof, (c.decodeList node).isSome

/-- The proof is the walk cut short right after one of its extensions. -/
def StopsAtExtension (c : Crates) (walk : List Node) (proof : List Bytes) : Prop :=
  ∃ pre path child, pre ++ [Node.ext path child] <+: walk ∧
    Follows c (pre ++ [Node.ext path child]) proof

/-- The proof is the whole walk, ending at the leaf that holds `w`, with more nodes behind it. -/
def RunsPastLeaf (c : Crates) (value w : Bytes) (walk : List Node) (proof : List Bytes) : Prop :=
  ∃ honest extra, proof = honest ++ extra ∧ Follows c walk honest ∧ Forged c value w extra

theorem follows_nil {proof : List Bytes} : Follows c [] proof ↔ proof = [] := by
  constructor
  · exact fun h => h.1
  · rintro rfl
    exact ⟨rfl, by simp⟩

theorem follows_cons {s : Node} {nodes : List Node} {proof : List Bytes} :
    Follows c (s :: nodes) proof ↔
      ∃ rest, proof = s.encode c.hash :: rest ∧ (c.decodeList (s.encode c.hash)).isSome ∧
        Follows c nodes rest := by
  unfold Follows
  constructor
  · rintro ⟨rfl, h⟩
    exact ⟨_, rfl, h _ List.mem_cons_self, rfl, fun node hn => h node (List.mem_cons_of_mem _ hn)⟩
  · rintro ⟨rest, rfl, hs, rfl, h⟩
    refine ⟨rfl, fun node hn => ?_⟩
    rcases List.mem_cons.1 hn with rfl | hn
    · exact hs
    · exact h node hn

theorem stopsAtExtension_nil {proof : List Bytes} : ¬ StopsAtExtension c [] proof := by
  rintro ⟨pre, path, child, h, _⟩
  rw [List.prefix_nil] at h
  simp at h

theorem stopsAtExtension_cons {s : Node} {walk : List Node} {proof : List Bytes} :
    StopsAtExtension c (s :: walk) proof ↔
      ∃ rest, proof = s.encode c.hash :: rest ∧ (c.decodeList (s.encode c.hash)).isSome ∧
        ((s.isExt = true ∧ rest = []) ∨ StopsAtExtension c walk rest) := by
  constructor
  · rintro ⟨pre, path, child, hpre, hf⟩
    cases pre with
    | nil =>
      obtain ⟨rfl, _⟩ := List.cons_prefix_cons.1 hpre
      obtain ⟨rest, rfl, hs, hrest⟩ := follows_cons.1 hf
      exact ⟨rest, rfl, hs, Or.inl ⟨rfl, follows_nil.1 hrest⟩⟩
    | cons a pre =>
      obtain ⟨rfl, htail⟩ := List.cons_prefix_cons.1 (List.cons_append ▸ hpre)
      obtain ⟨rest, rfl, hs, hrest⟩ := follows_cons.1 hf
      exact ⟨rest, rfl, hs, Or.inr ⟨pre, path, child, htail, hrest⟩⟩
  · rintro ⟨rest, rfl, hs, ⟨he, rfl⟩ | ⟨pre, path, child, hpre, hf⟩⟩
    · cases s with
      | ext path child =>
        refine ⟨[], path, child, ?_, follows_cons.2 ⟨[], rfl, hs, follows_nil.2 rfl⟩⟩
        exact List.cons_prefix_cons.2 ⟨rfl, List.nil_prefix⟩
      | empty => cases he
      | leaf p w => cases he
      | branch children => cases he
    · refine ⟨s :: pre, path, child, ?_, follows_cons.2 ⟨rest, rfl, hs, hf⟩⟩
      exact List.cons_prefix_cons.2 ⟨rfl, hpre⟩

theorem runsPastLeaf_nil {w : Bytes} {proof : List Bytes} :
    RunsPastLeaf c value w [] proof ↔ Forged c value w proof := by
  constructor
  · rintro ⟨honest, extra, rfl, hf, h⟩
    rw [follows_nil.1 hf]
    exact h
  · exact fun h => ⟨[], proof, rfl, follows_nil.2 rfl, h⟩

theorem runsPastLeaf_cons {w : Bytes} {s : Node} {walk : List Node} {proof : List Bytes} :
    RunsPastLeaf c value w (s :: walk) proof ↔
      ∃ rest, proof = s.encode c.hash :: rest ∧ (c.decodeList (s.encode c.hash)).isSome ∧
        RunsPastLeaf c value w walk rest := by
  constructor
  · rintro ⟨honest, extra, rfl, hf, h⟩
    obtain ⟨rest, rfl, hs, hf⟩ := follows_cons.1 hf
    exact ⟨rest ++ extra, rfl, hs, rest, extra, rfl, hf, h⟩
  · rintro ⟨_, rfl, hs, honest, extra, rfl, hf, h⟩
    exact ⟨s.encode c.hash :: honest, extra, rfl, follows_cons.2 ⟨honest, rfl, hs, hf⟩, h⟩

/-- The shapes of an accepted proof of a stored key: the walk cut short at an extension, with an
    empty value; the walk itself, with the stored value; or the walk and forged nodes. -/
def WalkAccepted (c : Crates) (value w : Bytes) (walk : List Node) (proof : List Bytes) : Prop :=
  (isEmptyValue value = true ∧ StopsAtExtension c walk proof) ∨
    (Follows c walk proof ∧ w = value) ∨ RunsPastLeaf c value w walk proof

theorem walkAccepted_nil {w : Bytes} {s : Node} {walk : List Node} :
    ¬ WalkAccepted c value w (s :: walk) [] := by
  unfold WalkAccepted
  rw [stopsAtExtension_cons, follows_cons, runsPastLeaf_cons]
  simp

/-- Above the leaf a proof goes on along the walk, or stops at an extension. -/
theorem walkAccepted_cons {w : Bytes} {s u : Node} {walk : List Node} {node : Bytes}
    {rest : List Bytes} :
    WalkAccepted c value w (s :: u :: walk) (node :: rest) ↔
      node = s.encode c.hash ∧ (c.decodeList node).isSome ∧
        (if rest = [] then s.isExt = true ∧ isEmptyValue value = true
         else WalkAccepted c value w (u :: walk) rest) := by
  have hshape : WalkAccepted c value w (s :: u :: walk) (node :: rest) ↔
      node = s.encode c.hash ∧ (c.decodeList node).isSome ∧
        ((rest = [] ∧ s.isExt = true ∧ isEmptyValue value = true) ∨
          WalkAccepted c value w (u :: walk) rest) := by
    unfold WalkAccepted
    rw [stopsAtExtension_cons, follows_cons (s := s), runsPastLeaf_cons (s := s)]
    constructor
    · rintro (⟨hv, _, he, hd, ⟨hx, rfl⟩ | h⟩ | ⟨⟨_, he, hd, h⟩, hw⟩ | ⟨_, he, hd, h⟩) <;>
        obtain ⟨rfl, rfl⟩ := List.cons.inj he
      · exact ⟨rfl, hd, Or.inl ⟨rfl, hx, hv⟩⟩
      · exact ⟨rfl, hd, Or.inr (Or.inl ⟨hv, h⟩)⟩
      · exact ⟨rfl, hd, Or.inr (Or.inr (Or.inl ⟨h, hw⟩))⟩
      · exact ⟨rfl, hd, Or.inr (Or.inr (Or.inr h))⟩
    · rintro ⟨rfl, hd, ⟨hr, hx, hv⟩ | ⟨hv, h⟩ | ⟨h, hw⟩ | h⟩
      · exact Or.inl ⟨hv, _, rfl, hd, Or.inl ⟨hx, hr⟩⟩
      · exact Or.inl ⟨hv, _, rfl, hd, Or.inr h⟩
      · exact Or.inr (Or.inl ⟨⟨_, rfl, hd, h⟩, hw⟩)
      · exact Or.inr (Or.inr ⟨_, rfl, hd, h⟩)
  rw [hshape]
  cases rest with
  | nil => simp [walkAccepted_nil]
  | cons next rest => simp

theorem walkAccepted_leaf {w : Bytes} {path : List (Fin 16)} {proof : List Bytes}
    (hd : (c.decodeList ((Node.leaf path w).encode c.hash)).isSome) :
    WalkAccepted c value w [.leaf path w] proof ↔
      ∃ rest, proof = (Node.leaf path w).encode c.hash :: rest ∧
        (if rest = [] then w = value else Forged c value w rest) := by
  unfold WalkAccepted
  rw [stopsAtExtension_cons, follows_cons, runsPastLeaf_cons]
  simp only [hd, true_and, stopsAtExtension_nil, follows_nil, runsPastLeaf_nil, Node.isExt,
    Bool.false_eq_true, false_and, or_false, and_false, exists_false, false_or]
  constructor
  · rintro (⟨⟨_, rfl, rfl⟩, hw⟩ | ⟨rest, rfl, h⟩)
    · exact ⟨[], rfl, by rw [if_pos rfl]; exact hw⟩
    · cases rest with
      | nil => exact absurd h (by simp [Forged])
      | cons next rest => exact ⟨next :: rest, rfl, by rw [if_neg (by simp)]; exact h⟩
  · rintro ⟨rest, rfl, h⟩
    split at h
    · rename_i hr
      exact Or.inl ⟨⟨rest, rfl, hr⟩, h⟩
    · exact Or.inr ⟨rest, rfl, h⟩

/-- An accepted proof of a value that is not empty ends at a stored key. -/
theorem accepted_find (hv : isEmptyValue value = false) :
    ∀ {t : Node} {key : List (Fin 16)} {proof : List Bytes}, Accepted c value t key proof →
      ∃ w, t.find key = some w
  | .empty, _, [], h => absurd h (by simp [Accepted])
  | .leaf _ _, _, [], h => absurd h (by simp [Accepted])
  | .ext _ _, _, [], h => absurd h (by simp [Accepted])
  | .branch _, _, [], h => absurd h (by simp [Accepted])
  | .empty, _, _ :: _, h => absurd h (by simp [Accepted])
  | .leaf path w, key, node :: rest, h => by
    have hp : path = key := by
      rw [Accepted, hv] at h
      obtain ⟨_, h⟩ := h
      split at h
      · exact (h.resolve_left (by simp)).1
      · exact h.1
    exact ⟨w, by rw [Node.find, if_pos hp]⟩
  | .ext path child, key, node :: rest, h => by
    rw [Accepted, hv] at h
    obtain ⟨_, _, h⟩ := h
    split at h
    · cases h
    · obtain ⟨hp, h⟩ := h
      obtain ⟨w, hw⟩ := accepted_find hv h
      exact ⟨w, by rw [find_ext_of_path hp, hw]⟩
  | .branch _, [], _ :: _, h => absurd h (by simp [Accepted])
  | .branch children, n :: key, node :: rest, h => by
    rw [Accepted, hv] at h
    obtain ⟨_, _, h⟩ := h
    split at h
    · cases h.2
    · obtain ⟨w, hw⟩ := accepted_find hv h
      exact ⟨w, by rw [Node.find, hw]⟩

/-- **The accepted proofs of a stored key** have one of the shapes of `WalkAccepted`. -/
theorem accepted_iff_of_find : ∀ {t : Node} {key : List (Fin 16)} {w : Bytes}
    {proof : List Bytes}, ReadsNodes c t → t.find key = some w →
      (Accepted c value t key proof ↔ WalkAccepted c value w (t.walk key) proof)
  | .empty, _, _, _, _, h => by simp [Node.find] at h
  | .leaf path w', key, w, proof, hread, h => by
    simp only [Node.find] at h
    split at h
    case isFalse => cases h
    rename_i hp
    obtain rfl : w' = w := Option.some.inj h
    have hdec : (c.decodeList ((Node.leaf path w').encode c.hash)).isSome := by
      rw [hread.list _ _ (.refl _) rfl]
      rfl
    rw [Node.walk, walkAccepted_leaf hdec]
    cases proof with
    | nil => simp [Accepted]
    | cons node rest =>
      simp only [Accepted, hp, true_and, ne_eq, not_true_eq_false, false_and, false_or,
        List.cons.injEq]
      constructor
      · exact fun h => ⟨rest, ⟨h.1, rfl⟩, h.2⟩
      · rintro ⟨_, ⟨h, rfl⟩, h'⟩
        exact ⟨h, h'⟩
  | .ext path child, key, w, proof, hread, h => by
    simp only [Node.find] at h
    split at h
    case isFalse => cases h
    rename_i hp
    have ih : ∀ rest, Accepted c value child (key.drop path.length) rest ↔
        WalkAccepted c value w (child.walk (key.drop path.length)) rest :=
      fun _ => accepted_iff_of_find (hread.mono fun u hu => .ext hu) h
    obtain ⟨u, tail, hwalk⟩ := walk_cons_of_find h
    rw [hwalk] at ih
    rw [Node.walk, if_pos hp, hwalk]
    cases proof with
    | nil => simp [Accepted, walkAccepted_nil]
    | cons node rest => simp only [walkAccepted_cons, Accepted, hp, ih, true_and, Node.isExt]
  | .branch _, [], _, _, _, h => by simp [Node.find] at h
  | .branch children, n :: key, w, proof, hread, h => by
    simp only [Node.find] at h
    have ih : ∀ rest, Accepted c value (children n) key rest ↔
        WalkAccepted c value w ((children n).walk key) rest :=
      fun _ => accepted_iff_of_find (hread.mono fun u hu => .branch n hu) h
    obtain ⟨u, tail, hwalk⟩ := walk_cons_of_find h
    rw [hwalk] at ih
    rw [Node.walk, hwalk]
    cases proof with
    | nil => simp [Accepted, walkAccepted_nil]
    | cons node rest =>
      simp only [walkAccepted_cons, Accepted, ih, Node.isExt, isEmpty_of_find h,
        Bool.false_eq_true, false_and]

end Helios
