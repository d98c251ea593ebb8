import Helios.Execution.Client
import Helios.Lib.Decimal

/-!
# The decoders of untrusted JSON (`consensus/src/types.rs`, `execution/src/types.rs`)

* `BoundedList`, `SszCrate` — the lists and the conversions of another crate; a list that does not
  fit is a panic or another list.
* `u64Deserialize`, `bytes32Deserialize`, … , `bytesDeserialize` — the decoders.
* `SpellsBytes` and, in the library, `Decimal.Spells` — what a string denotes.
* `WireField`, `WireField.Decodes` — a field and its decoder, and that the answer is what the string
  denotes, or an error; `WireField.WellFormed` — a string that denotes something.
* `wire_faithful_iff` — **only well-formed strings are decoded so**.
* `wire_unfaithful` — a call without its calldata, and a panic.
-/

set_option autoImplicit false

namespace Helios

/-! ## The decoders -/

/-- `List<T, N>` of `ssz_rs`. -/
structure BoundedList (α : Type) (n : Nat) where
  toList : List α
  bounded : toList.length ≤ n

/-- The conversions of `ssz_rs`; none is a panic in `from_iter`, and an error in `try_from`. -/
structure SszCrate where
  vectorTryFrom : (n : Nat) → Bytes → Option (Vector UInt8 n)
  listTryFrom : (n : Nat) → Bytes → Option (BoundedList UInt8 n)
  listFromIter : {α : Type} → (n : Nat) → List α → Option (BoundedList α n)

/-- What has the length is converted as it is. -/
structure SszCrate.Lawful (z : SszCrate) : Prop where
  vectorTryFrom : ∀ (n : Nat) (bytes : Bytes) (v : Vector UInt8 n),
    z.vectorTryFrom n bytes = some v ↔ v.toList = bytes
  listTryFrom : ∀ (n : Nat) (bytes : Bytes) (l : BoundedList UInt8 n),
    z.listTryFrom n bytes = some l ↔ l.toList = bytes
  listFromIter : ∀ {α : Type} (n : Nat) (xs : List α) (l : BoundedList α n), l.toList = xs →
    z.listFromIter n xs = some l

variable (z : SszCrate)

/-- `unwrap` -/
def unwrap {α : Type} (site : Panic) : Option α → Result α
  | some a => .ok a
  | none => .error (.panic site)

/-- `val.parse::<u64>()` -/
def parseU64 (val : List Char) : Option UInt64 := (Decimal.parse (2 ^ 64) val).map UInt64.ofNat

def u64Deserialize (val : List Char) : Result UInt64 := unwrap .parseUnwrap (parseU64 val)

/-- A decoder of bytes behind `"0x"`, with its conversion at the end. -/
def prefixedDeserialize {β : Type} (tryInto : Bytes → Option β) (bytes : List Char) : Result β :=
  match unwrap .hexPrefixUnwrap (strip0x bytes) with
  | .error e => .error e
  | .ok digits =>
    match unwrap .hexDecodeUnwrap (Hex.decode digits) with
    | .error e => .error e
    | .ok bytes => unwrap .tryIntoUnwrap (tryInto bytes)

def bytes32Deserialize : List Char → Result Bytes32 := prefixedDeserialize (z.vectorTryFrom 32)

def logsBloomDeserialize : List Char → Result (Vector UInt8 256) :=
  prefixedDeserialize (z.vectorTryFrom 256)

def addressDeserialize : List Char → Result Address := prefixedDeserialize (z.vectorTryFrom 20)

def extraDataDeserialize : List Char → Result (BoundedList UInt8 32) :=
  prefixedDeserialize (z.listTryFrom 32)

/-- A list of strings, each decoded, and collected (`collect::<List<T, N>>()`). -/
def listDeserialize {β : Type} (n : Nat) (decode : List Char → Result β)
    (elems : List (List Char)) : Result (BoundedList β n) :=
  match collectResults decode elems with
  | .error e => .error e
  | .ok values => unwrap .listOverflow (z.listFromIter n values)

def maxBytesPerTransaction : Nat := 1073741824

def maxTransactions : Nat := 1048576

def maxAttestingIndices : Nat := 2048

/-- The transaction of one string; the prefix may be missing. -/
def transactionDeserialize (tx : List Char) : Result (BoundedList UInt8 maxBytesPerTransaction) :=
  match hexStrToBytes tx with
  | .error _ => .error (.panic .hexDecodeUnwrap)
  | .ok tx => unwrap .listOverflow (z.listFromIter maxBytesPerTransaction tx)

def transactionsDeserialize : List (List Char) →
    Result (BoundedList (BoundedList UInt8 maxBytesPerTransaction) maxTransactions) :=
  listDeserialize z maxTransactions (transactionDeserialize z)

def attestingIndicesDeserialize : List (List Char) →
    Result (BoundedList UInt64 maxAttestingIndices) :=
  listDeserialize z maxAttestingIndices u64Deserialize

/-- `bytes_deserialize` of the execution types: what cannot be read is empty. -/
def bytesDeserialize : Option (List Char) → Result (Option Bytes)
  | none => .ok none
  | some bytes => .ok (some ((Hex.decode ((strip0x bytes).getD [])).getD []))

/-! ## What a string denotes -/

/-- The bytes of hexadecimal digits behind `"0x"`. -/
def SpellsBytes (s : List Char) (bytes : Bytes) : Prop :=
  ∃ digits, s = '0' :: 'x' :: digits ∧
    digits.map Hex.value = (Nibble.nibbles bytes).map some

/-- A string of hexadecimal digits behind `"0x"`, two for each byte. -/
def HexBytes (s : List Char) (size : Nat → Prop) : Prop :=
  ∃ digits count, s = '0' :: 'x' :: digits ∧ digits.length = 2 * count ∧ size count ∧
    ∀ c ∈ digits, (Hex.value c).isSome

/-- A string of decimal digits for a number of 64 bits. -/
def DecimalU64 (s : List Char) : Prop := ∃ n, n < 2 ^ 64 ∧ Decimal.Spells s n

/-- The answer is one that is denoted, or an error, and never a panic. -/
def Faithful {α : Type} (r : Result α) (Denotes : α → Prop) : Prop :=
  (∃ a, r = .ok a ∧ Denotes a) ∨ ∃ e, r = .error (.err e)

/-- A field of untrusted JSON, with the string or the strings in it. -/
inductive WireField where
  | u64 (val : List Char)
  | bytes32 (bytes : List Char)
  | address (bytes : List Char)
  | logsBloom (bytes : List Char)
  | extraData (bytes : List Char)
  | transactions (transactions : List (List Char))
  | attestingIndices (attestingIndices : List (List Char))
  | callData (bytes : List Char)

namespace WireField

/-- The decoder of the field answers what its strings denote, or an error. -/
def Decodes (z : SszCrate) : WireField → Prop
  | .u64 val => Faithful (u64Deserialize val) fun n => Decimal.Spells val n.toNat
  | .bytes32 bytes => Faithful (bytes32Deserialize z bytes) fun v => SpellsBytes bytes v.toList
  | .address bytes => Faithful (addressDeserialize z bytes) fun v => SpellsBytes bytes v.toList
  | .logsBloom bytes => Faithful (logsBloomDeserialize z bytes) fun v => SpellsBytes bytes v.toList
  | .extraData bytes => Faithful (extraDataDeserialize z bytes) fun l => SpellsBytes bytes l.toList
  | .transactions txs => Faithful (transactionsDeserialize z txs) fun l =>
      List.Forall₂ (fun tx value => SpellsBytes tx value.toList) txs l.toList
  | .attestingIndices indices => Faithful (attestingIndicesDeserialize z indices) fun l =>
      List.Forall₂ (fun i (n : UInt64) => Decimal.Spells i n.toNat) indices l.toList
  | .callData bytes => Faithful (bytesDeserialize (some bytes)) fun data =>
      ∃ value, data = some value ∧ SpellsBytes bytes value

/-- The strings denote a value of the field's type. -/
def WellFormed : WireField → Prop
  | .u64 val => DecimalU64 val
  | .bytes32 bytes => HexBytes bytes (· = 32)
  | .address bytes => HexBytes bytes (· = 20)
  | .logsBloom bytes => HexBytes bytes (· = 256)
  | .extraData bytes => HexBytes bytes (· ≤ 32)
  | .transactions txs =>
    txs.length ≤ maxTransactions ∧ ∀ tx ∈ txs, HexBytes tx (· ≤ maxBytesPerTransaction)
  | .attestingIndices indices =>
    indices.length ≤ maxAttestingIndices ∧ ∀ i ∈ indices, DecimalU64 i
  | .callData bytes => HexBytes bytes fun _ => True

end WireField

/-! ## One string -/

variable {z} {s : List Char} {bytes : Bytes}

theorem unwrap_ok {α : Type} {site : Panic} {o : Option α} {a : α} :
    unwrap site o = .ok a ↔ o = some a := by
  cases o <;> simp [unwrap]

theorem unwrap_not_err {α : Type} {site : Panic} {o : Option α} {e : Report} :
    unwrap site o ≠ .error (.err e) := by
  cases o <;> simp [unwrap]

theorem strip0x_eq_some_iff {digits : List Char} :
    strip0x s = some digits ↔ s = '0' :: 'x' :: digits := by
  unfold strip0x
  split
  · simp
  · rename_i hne
    simp only [reduceCtorEq, false_iff]
    exact hne digits

theorem spellsBytes_iff : SpellsBytes s bytes ↔
    ∃ digits, strip0x s = some digits ∧ Hex.decode digits = some bytes := by
  unfold SpellsBytes
  simp only [strip0x_eq_some_iff, Hex.decode_eq_some_iff]

/-- A string denotes bytes when it is made of hexadecimal digits, two for each. -/
theorem hexBytes_iff {size : Nat → Prop} :
    HexBytes s size ↔ ∃ bytes, SpellsBytes s bytes ∧ size bytes.length := by
  simp only [spellsBytes_iff, strip0x_eq_some_iff]
  constructor
  · rintro ⟨digits, count, hs, hlen, hsize, hdigits⟩
    obtain ⟨bytes, hbytes⟩ := Hex.decode_isSome_iff.2 ⟨by omega, hdigits⟩
    have hcount : count = bytes.length := by
      have hdecoded := Hex.decode_length hbytes
      omega
    exact ⟨bytes, ⟨digits, hs, hbytes⟩, hcount ▸ hsize⟩
  · rintro ⟨bytes, ⟨digits, hs, hbytes⟩, hsize⟩
    refine ⟨digits, bytes.length, hs, Hex.decode_length hbytes, hsize, ?_⟩
    exact (Hex.decode_isSome_iff.1 ⟨bytes, hbytes⟩).2

/-- An answer that is never an error: the field decodes faithfully when it answers what is denoted. -/
theorem faithful_iff {α : Type} {r : Result α} {Denotes : α → Prop}
    (h : ∀ e, r ≠ .error (.err e)) : Faithful r Denotes ↔ ∃ a, r = .ok a ∧ Denotes a := by
  constructor
  · rintro (hok | ⟨e, he⟩)
    · exact hok
    · exact absurd he (h e)
  · exact Or.inl

theorem prefixedDeserialize_ok {β : Type} {tryInto : Bytes → Option β} {value : β} :
    prefixedDeserialize tryInto s = .ok value ↔
      ∃ bytes, SpellsBytes s bytes ∧ tryInto bytes = some value := by
  unfold prefixedDeserialize
  simp only [spellsBytes_iff]
  cases strip0x s with
  | none => simp [unwrap]
  | some digits =>
    simp only [unwrap, Option.some.injEq, exists_eq_left']
    cases Hex.decode digits with
    | none => simp
    | some bytes =>
      simp only [Option.some.injEq, exists_eq_left']
      exact unwrap_ok

theorem prefixedDeserialize_not_err {β : Type} {tryInto : Bytes → Option β} {e : Report} :
    prefixedDeserialize tryInto s ≠ .error (.err e) := by
  unfold prefixedDeserialize
  cases strip0x s with
  | none => simp [unwrap]
  | some digits =>
    simp only [unwrap]
    cases Hex.decode digits with
    | none => simp
    | some bytes => exact unwrap_not_err

/-- The decoders of bytes behind a prefix: the conversion keeps the bytes, and fits some sizes. -/
theorem prefixed_faithful_iff {β : Type} {tryInto : Bytes → Option β} {toBytes : β → Bytes}
    {size : Nat → Prop} (hinto : ∀ bytes value, tryInto bytes = some value ↔ toBytes value = bytes)
    (hsize : ∀ bytes : Bytes, size bytes.length ↔ ∃ value, toBytes value = bytes) :
    Faithful (prefixedDeserialize tryInto s) (fun value => SpellsBytes s (toBytes value)) ↔
      HexBytes s size := by
  rw [faithful_iff fun e => prefixedDeserialize_not_err, hexBytes_iff]
  simp only [prefixedDeserialize_ok, hinto, hsize]
  constructor
  · rintro ⟨value, -, hspells⟩
    exact ⟨toBytes value, hspells, value, rfl⟩
  · rintro ⟨bytes, hspells, value, rfl⟩
    exact ⟨value, ⟨toBytes value, hspells, rfl⟩, hspells⟩

theorem fixed_faithful_iff (hz : z.Lawful) {n : Nat} :
    Faithful (prefixedDeserialize (z.vectorTryFrom n) s)
        (fun value => SpellsBytes s value.toList) ↔ HexBytes s (· = n) := by
  apply prefixed_faithful_iff (hz.vectorTryFrom n)
  intro bytes
  constructor
  · rintro rfl
    exact ⟨⟨bytes.toArray, by simp⟩, by simp⟩
  · rintro ⟨value, rfl⟩
    exact value.length_toList

/-! ## Numbers -/

theorem u64Deserialize_ok {n : UInt64} :
    u64Deserialize s = .ok n ↔ Decimal.Spells s n.toNat := by
  unfold u64Deserialize parseU64
  rw [unwrap_ok, Option.map_eq_some_iff]
  constructor
  · rintro ⟨m, hm, rfl⟩
    obtain ⟨hlt, hspells⟩ := (Decimal.parse_eq_some_iff (by decide)).1 hm
    rwa [UInt64.toNat_ofNat_of_lt' hlt]
  · intro hspells
    refine ⟨n.toNat, ?_, UInt64.ofNat_toNat⟩
    rw [Decimal.parse_eq_some_iff (by decide)]
    exact ⟨n.toNat_lt, hspells⟩

theorem u64Deserialize_not_err {e : Report} : u64Deserialize s ≠ .error (.err e) := unwrap_not_err

theorem decimalU64_iff : DecimalU64 s ↔ ∃ n : UInt64, Decimal.Spells s n.toNat := by
  constructor
  · rintro ⟨n, hlt, hspells⟩
    refine ⟨UInt64.ofNat n, ?_⟩
    rwa [UInt64.toNat_ofNat_of_lt' hlt]
  · rintro ⟨n, hspells⟩
    exact ⟨n.toNat, n.toNat_lt, hspells⟩

theorem u64Deserialize_faithful_iff :
    Faithful (u64Deserialize s) (fun n => Decimal.Spells s n.toNat) ↔ DecimalU64 s := by
  rw [faithful_iff fun _ => u64Deserialize_not_err, decimalU64_iff]
  simp only [u64Deserialize_ok, and_self]

/-! ## Lists -/

theorem collectResults_not_err {α β : Type} {f : α → Result β} {as : List α}
    (h : ∀ a e, f a ≠ .error (.err e)) (e : Report) : collectResults f as ≠ .error (.err e) := by
  intro he
  obtain ⟨a, _, ha⟩ := collectResults_error he
  exact h a e ha

theorem exists_forall₂_iff {α β : Type} {R : α → β → Prop} {as : List α} :
    (∃ bs, List.Forall₂ R as bs) ↔ ∀ a ∈ as, ∃ b, R a b := by
  induction as with
  | nil => simp
  | cons a as ih =>
    rw [List.forall_mem_cons, ← ih]
    constructor
    · rintro ⟨bs, h⟩
      cases h with
      | cons hab hrest => exact ⟨⟨_, hab⟩, _, hrest⟩
    · rintro ⟨⟨b, hab⟩, bs, hrest⟩
      exact ⟨b :: bs, .cons hab hrest⟩

/-- The decoders of lists of strings: the strings denote values, and there is room for them. -/
theorem list_faithful_iff (hz : z.Lawful) {β : Type} {n : Nat} {decode : List Char → Result β}
    {Denotes : List Char → β → Prop} {elems : List (List Char)}
    (herr : ∀ elem e, decode elem ≠ .error (.err e))
    (hok : ∀ elem value, Denotes elem value → decode elem = .ok value) :
    Faithful (listDeserialize z n decode elems)
        (fun l => List.Forall₂ Denotes elems l.toList) ↔
      elems.length ≤ n ∧ ∀ elem ∈ elems, ∃ value, Denotes elem value := by
  have hnot : ∀ e, listDeserialize z n decode elems ≠ .error (.err e) := by
    intro e
    unfold listDeserialize
    cases hcollect : collectResults decode elems with
    | error fault =>
      rintro ⟨rfl⟩
      exact collectResults_not_err herr e hcollect
    | ok values => exact unwrap_not_err
  rw [faithful_iff hnot, ← exists_forall₂_iff]
  constructor
  · rintro ⟨l, -, hall⟩
    refine ⟨?_, l.toList, hall⟩
    rw [hall.length_eq]
    exact l.bounded
  · rintro ⟨hlen, values, hall⟩
    have hbound : values.length ≤ n := hall.length_eq ▸ hlen
    refine ⟨⟨values, hbound⟩, ?_, hall⟩
    have hcollect : collectResults decode elems = .ok values :=
      collectResults_ok.2 (hall.imp hok)
    unfold listDeserialize
    rw [hcollect]
    exact unwrap_ok.2 (hz.listFromIter n values ⟨values, hbound⟩ rfl)

theorem transactionDeserialize_not_err {tx : List Char} {e : Report} :
    transactionDeserialize z tx ≠ .error (.err e) := by
  unfold transactionDeserialize
  split
  · simp
  · exact unwrap_not_err

theorem transactionDeserialize_ok (hz : z.Lawful) {tx : List Char}
    {value : BoundedList UInt8 maxBytesPerTransaction} (h : SpellsBytes tx value.toList) :
    transactionDeserialize z tx = .ok value := by
  obtain ⟨digits, hstrip, hdecode⟩ := spellsBytes_iff.1 h
  rw [strip0x_eq_some_iff] at hstrip
  subst hstrip
  unfold transactionDeserialize hexStrToBytes
  simp only [hdecode]
  exact unwrap_ok.2 (hz.listFromIter _ _ value rfl)

/-- The bytes of a string fit a list when there is a list of them. -/
theorem hexBytes_le_iff {n : Nat} :
    HexBytes s (· ≤ n) ↔ ∃ value : BoundedList UInt8 n, SpellsBytes s value.toList := by
  rw [hexBytes_iff]
  constructor
  · rintro ⟨bytes, hspells, hlen⟩
    exact ⟨⟨bytes, hlen⟩, hspells⟩
  · rintro ⟨value, hspells⟩
    exact ⟨value.toList, hspells, value.bounded⟩

theorem transactionsDeserialize_faithful_iff (hz : z.Lawful) {txs : List (List Char)} :
    Faithful (transactionsDeserialize z txs) (fun l =>
        List.Forall₂ (fun tx value => SpellsBytes tx value.toList) txs l.toList) ↔
      txs.length ≤ maxTransactions ∧ ∀ tx ∈ txs, HexBytes tx (· ≤ maxBytesPerTransaction) := by
  simp only [hexBytes_le_iff]
  exact list_faithful_iff hz (fun _ _ => transactionDeserialize_not_err)
    fun _ _ => transactionDeserialize_ok hz

theorem attestingIndicesDeserialize_faithful_iff (hz : z.Lawful) {indices : List (List Char)} :
    Faithful (attestingIndicesDeserialize z indices) (fun l =>
        List.Forall₂ (fun i (n : UInt64) => Decimal.Spells i n.toNat) indices l.toList) ↔
      indices.length ≤ maxAttestingIndices ∧ ∀ i ∈ indices, DecimalU64 i := by
  simp only [decimalU64_iff]
  exact list_faithful_iff hz (fun _ _ => u64Deserialize_not_err) fun _ _ => u64Deserialize_ok.2

/-! ## Calldata -/

/-- Calldata that cannot be read is replaced by none. -/
theorem bytesDeserialize_faithful_iff :
    Faithful (bytesDeserialize (some s))
        (fun data => ∃ value, data = some value ∧ SpellsBytes s value) ↔
      HexBytes s fun _ => True := by
  rw [faithful_iff (by simp [bytesDeserialize]), hexBytes_iff]
  simp only [and_true]
  constructor
  · rintro ⟨_, _, value, _, hspells⟩
    exact ⟨value, hspells⟩
  · rintro ⟨bytes, hspells⟩
    refine ⟨some bytes, ?_, bytes, rfl, hspells⟩
    obtain ⟨digits, hstrip, hdecode⟩ := spellsBytes_iff.1 hspells
    simp only [bytesDeserialize, hstrip, Option.getD_some, hdecode]

/-! ## All of them -/

/-- **The decoders answer what a string denotes exactly on the strings that denote something**: none
    of them rejects the others with an error. -/
theorem wire_faithful_iff (hz : z.Lawful) (field : WireField) :
    field.Decodes z ↔ field.WellFormed := by
  cases field with
  | u64 val => exact u64Deserialize_faithful_iff
  | bytes32 bytes => exact fixed_faithful_iff hz
  | address bytes => exact fixed_faithful_iff hz
  | logsBloom bytes => exact fixed_faithful_iff hz
  | extraData bytes =>
    apply prefixed_faithful_iff (hz.listTryFrom 32)
    intro bytes
    exact ⟨fun hlen => ⟨⟨bytes, hlen⟩, rfl⟩, fun ⟨value, hvalue⟩ => hvalue ▸ value.bounded⟩
  | transactions txs => exact transactionsDeserialize_faithful_iff hz
  | attestingIndices indices => exact attestingIndicesDeserialize_faithful_iff hz
  | callData bytes => exact bytesDeserialize_faithful_iff

/-! ## Strings that denote nothing -/

/-- The conversions, with a panic where a list has no room. -/
def exactSsz : SszCrate where
  vectorTryFrom n bytes := if h : bytes.length = n then some ⟨bytes.toArray, by simpa using h⟩ else none
  listTryFrom n bytes := if h : bytes.length ≤ n then some ⟨bytes, h⟩ else none
  listFromIter n xs := if h : xs.length ≤ n then some ⟨xs, h⟩ else none

theorem exactSsz_lawful : exactSsz.Lawful where
  vectorTryFrom n bytes v := by
    unfold exactSsz
    simp only
    split
    · rename_i h
      rw [Option.some.injEq]
      constructor
      · rintro rfl
        simp
      · rintro rfl
        apply Vector.toList_inj.1
        simp
    · rename_i h
      simp only [reduceCtorEq, false_iff]
      rintro rfl
      exact h v.length_toList
  listTryFrom n bytes l := by
    unfold exactSsz
    simp only
    split
    · rename_i h
      rw [Option.some.injEq]
      constructor
      · rintro rfl
        rfl
      · rintro rfl
        rfl
    · rename_i h
      simp only [reduceCtorEq, false_iff]
      rintro rfl
      exact h l.bounded
  listFromIter n xs l hl := by
    subst hl
    unfold exactSsz
    simp only
    rw [dif_pos l.bounded]

theorem wire_faithful_seventeen : (WireField.u64 ['1', '7']).Decodes exactSsz :=
  (wire_faithful_iff exactSsz_lawful (.u64 ['1', '7'])).2
    ⟨17, (Decimal.parse_eq_some_iff (by decide)).1 (by decide)⟩

/-- Calldata without a prefix is dropped, and a word for a number panics. -/
theorem wire_unfaithful :
    ¬ (∀ (z : SszCrate), z.Lawful → ∀ field : WireField, field.Decodes z) ∧
      bytesDeserialize (some ['f', 'f']) = .ok (some []) ∧
      u64Deserialize ['t', 'e', 'n'] = .error (.panic .parseUnwrap) := by
  refine ⟨fun h => ?_, by decide, by decide⟩
  have hdecodes := h exactSsz exactSsz_lawful (.callData ['f', 'f'])
  obtain ⟨digits, _, hs, _⟩ := bytesDeserialize_faithful_iff.1 hdecodes
  cases hs

end Helios
