import Helios.Execution.Types
import Helios.Lib.Patricia
import Helios.Lib.RlpView

/-!
# `verify_proof` and its nibble helpers (`execution/src/proof.rs`)

RLP streams are `Rlp.Item`s.

* `getNibble`, `skipLength`, `pathsMatch`, `sharedPrefixLength`, `isEmptyValue`, `verifyProof` and
  `encodeAccount` follow the source; a `for` loop over a range is a recursion over its offsets.
* `getNibble_eq`, `pathsMatch_eq`, `sharedPrefixLength_eq` — the helpers compute on the nibble
  lists of their arguments, and no index leaves its bounds.
* `skipLength_hexPrefix`, `nibbles_drop_skipLength` — the flags of a hex-prefix path are skipped
  exactly.
-/

set_option autoImplicit false

namespace Helios

open Nibble

def getNibble (path : Bytes) (offset : Nat) : Result UInt8 :=
  match path[offset / 2]? with
  | none => .error (.panic .indexOutOfBounds)
  | some byte => .ok (if offset % 2 = 0 then byte >>> 4 else byte &&& 0xF)

def skipLength (node : Bytes) : Nat :=
  if node.isEmpty then 0
  else
    match getNibble node 0 with
    | .ok 0 => 2
    | .ok 1 => 1
    | .ok 2 => 2
    | .ok 3 => 1
    | _ => 0

/-- The loop of `paths_match` over the remaining offsets. -/
def pathsMatchLoop (p1 : Bytes) (s1 : Nat) (p2 : Bytes) (s2 : Nat) : List Nat → Result Bool
  | [] => .ok true
  | offset :: rest =>
    match getNibble p1 (s1 + offset) with
    | .error e => .error e
    | .ok n1 =>
      match getNibble p2 (s2 + offset) with
      | .error e => .error e
      | .ok n2 => if n1 ≠ n2 then .ok false else pathsMatchLoop p1 s1 p2 s2 rest

def pathsMatch (p1 : Bytes) (s1 : Nat) (p2 : Bytes) (s2 : Nat) : Result Bool :=
  let len1 := p1.length * 2 - s1
  let len2 := p2.length * 2 - s2
  if len1 ≠ len2 then .ok false else pathsMatchLoop p1 s1 p2 s2 (List.range len1)

/-- The loop of `shared_prefix_length` over the remaining offsets. -/
def sharedPrefixLoop (path : Bytes) (pathOffset : Nat) (nodePath : Bytes) (skip : Nat) :
    List Nat → Nat → Result Nat
  | [], prefixLen => .ok prefixLen
  | i :: rest, prefixLen =>
    match getNibble path (i + pathOffset) with
    | .error e => .error e
    | .ok pathNibble =>
      match getNibble nodePath (i + skip) with
      | .error e => .error e
      | .ok nodePathNibble =>
        if pathNibble = nodePathNibble then
          sharedPrefixLoop path pathOffset nodePath skip rest (prefixLen + 1)
        else .ok prefixLen

def sharedPrefixLength (path : Bytes) (pathOffset : Nat) (nodePath : Bytes) : Result Nat :=
  let skip := skipLength nodePath
  let len := min (nodePath.length * 2 - skip) (path.length * 2 - pathOffset)
  sharedPrefixLoop path pathOffset nodePath skip (List.range len) 0

def emptyStorageHash : Bytes :=
  [0x56, 0xe8, 0x1f, 0x17, 0x1b, 0xcc, 0x55, 0xa6, 0xff, 0x83, 0x45, 0xe6, 0x92, 0xc0, 0xf8, 0x6e,
   0x5b, 0x48, 0xe0, 0x1b, 0x99, 0x6c, 0xad, 0xc0, 0x01, 0x62, 0x2f, 0xb5, 0xe3, 0x63, 0xb4, 0x21]

def emptyCodeHash : Bytes :=
  [0xc5, 0xd2, 0x46, 0x01, 0x86, 0xf7, 0x23, 0x3c, 0x92, 0x7e, 0x7d, 0xb2, 0xdc, 0xc7, 0x03, 0xc0,
   0xe5, 0x00, 0xb6, 0x53, 0xca, 0x82, 0x27, 0x3b, 0x7b, 0xfa, 0xd8, 0x04, 0x5d, 0x85, 0xa4, 0x70]

/-- The encoding of an account that does not exist. -/
def emptyAccount : Bytes :=
  (Rlp.Item.list [.str [], .str [], .str emptyStorageHash, .str emptyCodeHash]).encode

def isEmptyValue (value : Bytes) : Bool :=
  let isEmptySlot := value == [0x80]
  let isEmptyAccount := value == emptyAccount
  isEmptySlot || isEmptyAccount

/-- The loop of `verify_proof`; the node in hand is the last one when `rest` is empty. -/
def verifyProofFrom (c : Crates) (path value : Bytes) : Bytes → Nat → List Bytes → Result Bool
  | _, _, [] => .ok false
  | expectedHash, pathOffset, node :: rest =>
    if expectedHash ≠ c.hash node then .ok false
    else
      match c.decodeList node with
      | none => .error (.panic .untrustedRlp)
      | some nodeList =>
        if nodeList.length = 17 then
          match getNibble path pathOffset with
          | .error e => .error e
          | .ok nibble =>
            match nodeList[nibble.toNat]? with
            | none => .error (.panic .indexOutOfBounds)
            | some child =>
              if rest.isEmpty then
                -- exclusion proof
                if child.isEmpty && isEmptyValue value then .ok true else .ok false
              else verifyProofFrom c path value child (pathOffset + 1) rest
        else
          match nodeList with
          | [nodePath, item] =>
            if rest.isEmpty then
              match pathsMatch nodePath (skipLength nodePath) path pathOffset with
              | .error e => .error e
              | .ok isMatch =>
                -- exclusion proof
                if !isMatch && isEmptyValue value then .ok true
                -- inclusion proof
                else if item == value then .ok isMatch
                else .ok false
            else
              match sharedPrefixLength path pathOffset nodePath with
              | .error e => .error e
              | .ok prefixLength =>
                -- a divergent path before the end of the proof
                if prefixLength < nodePath.length * 2 - skipLength nodePath then .ok false
                else verifyProofFrom c path value item (pathOffset + prefixLength) rest
          | _ => .ok false

def verifyProof (c : Crates) (proof : List Bytes) (root path value : Bytes) : Result Bool :=
  verifyProofFrom c path value root 0 proof

/-- The RLP of an account. -/
def accountRlp (nonce : UInt64) (balance : U256) (storageHash codeHash : H256) : Bytes :=
  (Rlp.Item.list [.str (Rlp.natBytes nonce.toNat), .str (Rlp.natBytes balance.toNat),
    .str storageHash.toList, .str codeHash.toList]).encode

def encodeAccount (proof : EIP1186ProofResponse) : Bytes :=
  accountRlp proof.nonce proof.balance proof.storageHash proof.codeHash

/-- `rlp::decode_list` for byte strings: it reads every item it finds and panics on one that is a
    list or no canonical byte string. What is no list, and what is cut before an item, has fewer
    items or none. -/
def readList (bytes : Bytes) : Option (List Bytes) := (Rlp.listItems bytes).mapM Rlp.decodeValue

theorem readValues_encode : ∀ {items : List Rlp.Item}, (Rlp.encodeItems items).length < 2 ^ 64 →
    (items.map Rlp.Item.encode).mapM Rlp.decodeValue = Patricia.strings items
  | [], _ => rfl
  | x :: xs, h => by
    rw [Rlp.encodeItems, List.length_append] at h
    have hx : x.encode.length < 2 ^ 64 := by omega
    rw [List.map_cons, List.mapM_cons, readValues_encode (show _ < 2 ^ 64 by omega)]
    cases x with
    | str bytes =>
      rw [Rlp.Item.encode] at hx ⊢
      rw [Rlp.decodeValue_encodeStr (Nat.lt_of_le_of_lt (Rlp.length_le_encodeStr bytes) hx),
        Patricia.strings]
      cases Patricia.strings xs <;> rfl
    | list items =>
      rw [Rlp.decodeValue_list hx]
      rfl

/-- On a canonical list `decode_list` is exact: the byte strings, or a panic on a list among
    them. -/
theorem readList_encode {items : List Rlp.Item}
    (h : (Rlp.Item.list items).encode.length < 2 ^ 64) :
    readList (Rlp.Item.list items).encode = Patricia.strings items := by
  rw [readList, Rlp.listItems_encode h]
  rw [Rlp.encode_list, List.length_append] at h
  exact readValues_encode (by omega)

-- a length that one byte could hold, an item cut short, and a small byte behind a prefix
example : readList [0xf8, 1, 1] = some [] ∧ readList [0xc3, 0xb8, 1, 5] = some [] ∧
    readList [0xc2, 0x81, 5] = none := by decide

/-! ## The helpers on nibble lists -/

/-- A nibble as the `u8` that `get_nibble` returns. -/
def nibbleByte (n : Fin 16) : UInt8 := UInt8.ofNat n.val

theorem nibbleByte_toNat (n : Fin 16) : (nibbleByte n).toNat = n.val := by
  have := n.isLt
  exact UInt8.toNat_ofNat_of_lt' (by show _ < 256; omega)

theorem nibbleByte_injective {m n : Fin 16} (h : nibbleByte m = nibbleByte n) : m = n := by
  apply Fin.ext
  rw [← nibbleByte_toNat m, h, nibbleByte_toNat]

theorem shiftRight_four (b : UInt8) : b >>> 4 = nibbleByte (hi b) := by
  apply UInt8.toNat_inj.1
  rw [nibbleByte_toNat, UInt8.toNat_shiftRight]
  show b.toNat >>> 4 = b.toNat / 16
  rw [Nat.shiftRight_eq_div_pow]

theorem and_fifteen (b : UInt8) : b &&& 0xF = nibbleByte (lo b) := by
  apply UInt8.toNat_inj.1
  rw [nibbleByte_toNat, UInt8.toNat_and]
  exact Nat.and_two_pow_sub_one_eq_mod b.toNat 4

theorem getNibble_eq {path : Bytes} {offset : Nat} {n : Fin 16}
    (h : (nibbles path)[offset]? = some n) : getNibble path offset = .ok (nibbleByte n) := by
  rw [nibbles_getElem?] at h
  unfold getNibble
  cases hb : path[offset / 2]? with
  | none => rw [hb] at h; cases h
  | some byte =>
    rw [hb, Option.map_some, Option.some.injEq] at h
    subst h
    simp only [shiftRight_four, and_fifteen]
    split <;> rfl

theorem getNibble_out {path : Bytes} {offset : Nat} (h : 2 * path.length ≤ offset) :
    getNibble path offset = .error (.panic .indexOutOfBounds) := by
  unfold getNibble
  rw [List.getElem?_eq_none (by omega)]

/-- Before the end of the path, `get_nibble` is the nibble at the offset. -/
theorem getNibble_nibbles {path : Bytes} {offset : Nat} (h : offset < 2 * path.length) :
    ∃ n, (nibbles path)[offset]? = some n ∧ getNibble path offset = .ok (nibbleByte n) := by
  have hin : offset < (nibbles path).length := by
    rw [nibbles_length]
    exact h
  have hget := List.getElem?_eq_getElem hin
  exact ⟨_, hget, getNibble_eq hget⟩

theorem skipLength_le (node : Bytes) : skipLength node ≤ node.length * 2 := by
  unfold skipLength
  cases node with
  | nil => simp
  | cons b bs =>
    simp only [List.isEmpty_cons, Bool.false_eq_true, if_false, List.length_cons]
    split <;> omega

theorem pathsMatchLoop_eq {p1 p2 : Bytes} {s1 s2 : Nat} {a b : List (Fin 16)} :
    ∀ (n i : Nat), (nibbles p1).drop (s1 + i) = a → (nibbles p2).drop (s2 + i) = b →
      a.length = n → b.length = n →
      pathsMatchLoop p1 s1 p2 s2 (List.range' i n) = .ok (decide (a = b)) := by
  intro n
  induction n generalizing a b with
  | zero =>
    intro i _ _ ha hb
    rw [List.length_eq_zero_iff] at ha hb
    subst ha hb
    rfl
  | succ n ih =>
    intro i h1 h2 ha hb
    obtain ⟨x, a, rfl⟩ := List.exists_cons_of_length_eq_add_one ha
    obtain ⟨y, b, rfl⟩ := List.exists_cons_of_length_eq_add_one hb
    have g1 : (nibbles p1)[s1 + i]? = some x := getElem?_of_drop h1
    have g2 : (nibbles p2)[s2 + i]? = some y := getElem?_of_drop h2
    have t1 : (nibbles p1).drop (s1 + (i + 1)) = a := drop_succ_of_drop h1
    have t2 : (nibbles p2).drop (s2 + (i + 1)) = b := drop_succ_of_drop h2
    have hrec := ih (i + 1) t1 t2 (by simpa using ha) (by simpa using hb)
    rw [List.range'_succ, pathsMatchLoop, getNibble_eq g1, getNibble_eq g2]
    simp only [hrec]
    by_cases hxy : x = y
    · subst hxy
      simp
    · have hne : nibbleByte x ≠ nibbleByte y := fun h => hxy (nibbleByte_injective h)
      simp [hne, hxy]

/-- `paths_match` compares the two nibble suffixes. -/
theorem pathsMatch_eq {p1 p2 : Bytes} {s1 s2 : Nat} (h1 : s1 ≤ 2 * p1.length)
    (h2 : s2 ≤ 2 * p2.length) :
    pathsMatch p1 s1 p2 s2 = .ok (decide ((nibbles p1).drop s1 = (nibbles p2).drop s2)) := by
  have l1 : ((nibbles p1).drop s1).length = p1.length * 2 - s1 := by
    rw [drop_nibbles_length]
    omega
  have l2 : ((nibbles p2).drop s2).length = p2.length * 2 - s2 := by
    rw [drop_nibbles_length]
    omega
  unfold pathsMatch
  simp only
  split
  · rename_i hne
    have : (nibbles p1).drop s1 ≠ (nibbles p2).drop s2 := by
      intro he
      exact hne (by rw [← l1, ← l2, he])
    simp [this]
  · rename_i heq
    rw [not_not] at heq
    rw [List.range_eq_range']
    exact pathsMatchLoop_eq _ 0 rfl rfl l1 (by rw [l2, heq])

theorem sharedPrefixLoop_eq {path nodePath : Bytes} {off skip : Nat} {a b : List (Fin 16)} :
    ∀ (n i acc : Nat), (nibbles path).drop (i + off) = a → (nibbles nodePath).drop (i + skip) = b →
      min b.length a.length = n →
      sharedPrefixLoop path off nodePath skip (List.range' i n) acc =
        .ok (acc + commonPrefixLength a b) := by
  intro n
  induction n generalizing a b with
  | zero =>
    intro i acc _ _ hn
    rcases (show b.length = 0 ∨ a.length = 0 by omega) with h | h
    · rw [List.length_eq_zero_iff] at h
      subst h
      cases a <;> rfl
    · rw [List.length_eq_zero_iff] at h
      subst h
      rfl
  | succ n ih =>
    intro i acc h1 h2 hn
    obtain ⟨x, a, rfl⟩ := List.exists_cons_of_length_pos (show 0 < a.length by omega)
    obtain ⟨y, b, rfl⟩ := List.exists_cons_of_length_pos (show 0 < b.length by omega)
    have g1 : (nibbles path)[i + off]? = some x := getElem?_of_drop h1
    have g2 : (nibbles nodePath)[i + skip]? = some y := getElem?_of_drop h2
    have t1 : (nibbles path).drop (i + 1 + off) = a := by
      rw [Nat.add_right_comm]
      exact drop_succ_of_drop h1
    have t2 : (nibbles nodePath).drop (i + 1 + skip) = b := by
      rw [Nat.add_right_comm]
      exact drop_succ_of_drop h2
    rw [List.range'_succ, sharedPrefixLoop, getNibble_eq g1, getNibble_eq g2]
    by_cases hxy : x = y
    · subst hxy
      simp only [List.length_cons] at hn
      simp only [if_true, ih (i + 1) (acc + 1) t1 t2 (by omega), commonPrefixLength]
      rw [Nat.add_assoc, Nat.add_comm 1]
    · have hne : nibbleByte x ≠ nibbleByte y := fun h => hxy (nibbleByte_injective h)
      simp [hne, hxy, commonPrefixLength]

/-- `shared_prefix_length` is the length of the longest common prefix. -/
theorem sharedPrefixLength_eq {path nodePath : Bytes} {off : Nat} :
    sharedPrefixLength path off nodePath =
      .ok (commonPrefixLength ((nibbles path).drop off)
        ((nibbles nodePath).drop (skipLength nodePath))) := by
  unfold sharedPrefixLength
  simp only
  rw [List.range_eq_range', sharedPrefixLoop_eq _ 0 0 (by rw [Nat.zero_add]) (by rw [Nat.zero_add]),
    Nat.zero_add]
  simp only [drop_nibbles_length, Nat.mul_comm]

/-! ## Hex-prefix paths -/

theorem skipLength_of_head {node : Bytes} {n : Fin 16} (h : (nibbles node)[0]? = some n) :
    skipLength node = if n.val = 0 ∨ n.val = 2 then 2 else if n.val = 1 ∨ n.val = 3 then 1 else 0 := by
  have hne : node.isEmpty = false := by
    cases node with
    | nil => simp [nibbles] at h
    | cons b bs => rfl
  unfold skipLength
  rw [hne, getNibble_eq h]
  clear h
  revert n
  decide

theorem skipLength_hexPrefix (leaf : Bool) (path : List (Fin 16)) :
    skipLength (hexPrefix leaf path) = (flags leaf path).length := by
  have hhead : (nibbles (hexPrefix leaf path))[0]? = (flags leaf path)[0]? := by
    rw [nibbles_hexPrefix, List.getElem?_append_left (by rw [flags_length]; omega)]
  unfold flags at hhead ⊢
  cases leaf <;> split at hhead <;> simp only [*, if_true, if_false] <;>
    exact skipLength_of_head hhead

/-- What is compared of a hex-prefix path is the path itself. -/
theorem nibbles_drop_skipLength (leaf : Bool) (path : List (Fin 16)) :
    (nibbles (hexPrefix leaf path)).drop (skipLength (hexPrefix leaf path)) = path := by
  rw [skipLength_hexPrefix, nibbles_hexPrefix, List.drop_left]

/-! ## Faults -/

/-- A check of a proof ends in an answer or a panic, never in an error. -/
def OnlyPanics {α : Type} (r : Result α) : Prop := ∀ e, r ≠ .error (.err e)

theorem getNibble_panics {path : Bytes} {offset : Nat} : OnlyPanics (getNibble path offset) := by
  intro e h
  unfold getNibble at h
  split at h <;> cases h

theorem pathsMatchLoop_panics {p1 p2 : Bytes} {s1 s2 : Nat} :
    ∀ {offsets : List Nat}, OnlyPanics (pathsMatchLoop p1 s1 p2 s2 offsets) := by
  intro offsets
  induction offsets with
  | nil => intro e h; cases h
  | cons offset rest ih =>
    intro e h
    rw [pathsMatchLoop] at h
    split at h
    · rename_i heq
      cases h
      exact getNibble_panics e heq
    split at h
    · rename_i heq
      cases h
      exact getNibble_panics e heq
    split at h
    · cases h
    · exact ih e h

theorem pathsMatch_panics {p1 p2 : Bytes} {s1 s2 : Nat} :
    OnlyPanics (pathsMatch p1 s1 p2 s2) := by
  intro e h
  unfold pathsMatch at h
  simp only at h
  split at h
  · cases h
  · exact pathsMatchLoop_panics e h

theorem sharedPrefixLoop_panics {path nodePath : Bytes} {off skip : Nat} :
    ∀ {offsets : List Nat} {len : Nat},
      OnlyPanics (sharedPrefixLoop path off nodePath skip offsets len) := by
  intro offsets
  induction offsets with
  | nil => intro len e h; cases h
  | cons i rest ih =>
    intro len e h
    rw [sharedPrefixLoop] at h
    split at h
    · rename_i heq
      cases h
      exact getNibble_panics e heq
    split at h
    · rename_i heq
      cases h
      exact getNibble_panics e heq
    split at h
    · exact ih e h
    · cases h

theorem verifyProofFrom_panics {c : Crates} {path value : Bytes} :
    ∀ {proof : List Bytes} {expectedHash : Bytes} {off : Nat},
      OnlyPanics (verifyProofFrom c path value expectedHash off proof) := by
  intro proof
  induction proof with
  | nil => intro expectedHash off e h; cases h
  | cons node rest ih =>
    intro expectedHash off e h
    rw [verifyProofFrom] at h
    split at h
    · cases h
    split at h
    · cases h
    split at h
    · -- a branch
      split at h
      · rename_i heq
        cases h
        exact getNibble_panics e heq
      split at h
      · cases h
      split at h
      · split at h <;> cases h
      · exact ih e h
    · -- a node with a path
      split at h
      · split at h
        · split at h
          · rename_i heq
            cases h
            exact pathsMatch_panics e heq
          split at h
          · cases h
          split at h <;> cases h
        · split at h
          · rename_i heq
            cases h
            exact sharedPrefixLoop_panics e heq
          split at h
          · cases h
          · exact ih e h
      · cases h

theorem verifyProof_panics {c : Crates} {proof : List Bytes} {root path value : Bytes} :
    OnlyPanics (verifyProof c proof root path value) :=
  verifyProofFrom_panics

end Helios
