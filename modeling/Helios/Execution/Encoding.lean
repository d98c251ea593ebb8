import Helios.Execution.Client

/-!
# The encoding of a receipt and the fields it determines

A typed receipt is one byte in front of an untyped one, and the byte is the lowest of a type of 64
bits.

* `ReceiptFields` — the fields that the encoding of a receipt holds.
* `Encodable` — the receipts that are encoded; `encodeReceipt_eq` — and how.
* `legacy_ne_typed` — **no untyped encoding is a typed one**, whatever the byte in front.
* `SharesTypeByte` — two types that the byte does not tell apart, on receipts of the same content.
* `fields_of_encodeReceipt`, `receiptsRoot_fields` — without such a pair the encoding and the root
  determine the consensus fields; `encodeReceipt_fields` — so they do for types that an envelope can
  have.
* `encodeReceipt_injective_iff` — **and with one they do not**; `encodeReceipt_collides` — types 1
  and 257.
-/

set_option autoImplicit false

namespace Helios

variable {r s : TransactionReceipt} {status status' txType txType' : UInt64}

/-! ## The content -/

/-- The consensus fields of a log. -/
structure LogFields where
  address : Address
  topics : List H256
  data : Bytes
  deriving DecidableEq

/-- The consensus fields of a receipt. -/
structure ReceiptFields where
  transactionType : Option UInt64
  status : Option UInt64
  cumulativeGasUsed : U256
  logsBloom : Vector UInt8 256
  logs : List LogFields
  deriving DecidableEq

def Log.fields (log : Log) : LogFields where
  address := log.address
  topics := log.topics
  data := log.data

def TransactionReceipt.fields (receipt : TransactionReceipt) : ReceiptFields where
  transactionType := receipt.transactionType
  status := receipt.status
  cumulativeGasUsed := receipt.cumulativeGasUsed
  logsBloom := receipt.logsBloom
  logs := receipt.logs.map Log.fields

theorem strItem_injective {n : Nat} :
    Function.Injective fun v : Vector UInt8 n => Rlp.Item.str v.toList := by
  intro a b h
  exact Vector.toList_inj.1 (Rlp.Item.str.inj h)

theorem logItem_fields {l m : Log} (h : logItem l = logItem m) : l.fields = m.fields := by
  unfold logItem at h
  simp only [Rlp.Item.list.injEq, List.cons.injEq, Rlp.Item.str.injEq, and_true] at h
  obtain ⟨haddress, htopics, hdata⟩ := h
  have htopics' : l.topics = m.topics := List.map_injective_iff.2 strItem_injective htopics
  rw [Log.fields, Log.fields, Vector.toList_inj.1 haddress, htopics', hdata]

theorem logItems_fields : ∀ {ls ms : List Log}, ls.map logItem = ms.map logItem →
    ls.map Log.fields = ms.map Log.fields
  | [], [], _ => rfl
  | [], _ :: _, h => by cases h
  | _ :: _, [], h => by cases h
  | l :: ls, m :: ms, h => by
    simp only [List.map_cons, List.cons.injEq] at h ⊢
    exact ⟨logItem_fields h.1, logItems_fields h.2⟩

/-- The items of logs only depend on their consensus fields. -/
theorem logItems_of_fields {ls ms : List Log} (h : ls.map Log.fields = ms.map Log.fields) :
    ls.map logItem = ms.map logItem := by
  have hitem : ∀ l : Log, logItem l = .list [.str l.fields.address.toList,
      .list (l.fields.topics.map fun topic => .str topic.toList), .str l.fields.data] :=
    fun _ => rfl
  have hmap : ∀ ls : List Log, ls.map logItem = (ls.map Log.fields).map fun f =>
      .list [.str f.address.toList, .list (f.topics.map fun topic => .str topic.toList),
        .str f.data] := by
    intro ls
    rw [List.map_map]
    exact List.map_congr_left fun l _ => hitem l
  rw [hmap, hmap, h]

theorem natBytes_u64 {a b : UInt64} (h : Rlp.natBytes a.toNat = Rlp.natBytes b.toNat) : a = b :=
  UInt64.toNat_inj.1 (Rlp.natBytes_injective h)

theorem legacyReceipt_fields {status status' : UInt64} {r s : TransactionReceipt}
    (h : legacyReceipt status r = legacyReceipt status' s) :
    status = status' ∧ r.cumulativeGasUsed = s.cumulativeGasUsed ∧ r.logsBloom = s.logsBloom ∧
      r.logs.map Log.fields = s.logs.map Log.fields := by
  unfold legacyReceipt at h
  simp only [Rlp.Item.list.injEq, List.cons.injEq, Rlp.Item.str.injEq, and_true] at h
  obtain ⟨hstatus, hgas, hbloom, hlogs⟩ := h
  exact ⟨natBytes_u64 hstatus, BitVec.eq_of_toNat_eq (Rlp.natBytes_injective hgas),
    Vector.toList_inj.1 hbloom, logItems_fields hlogs⟩

/-! ## The two forms -/

/-- A receipt with a status and a type whose encoding is a byte string that can be held. -/
structure Encodable (r : TransactionReceipt) (status txType : UInt64) : Prop where
  status_eq : r.status = some status
  type_eq : r.transactionType = some txType
  length_lt : (legacyReceipt status r).encode.length < 2 ^ 63

theorem encodeReceipt_eq (h : Encodable r status txType) :
    encodeReceipt r = .ok (if txType = 0 then (legacyReceipt status r).encode
      else txType.toUInt8 :: (legacyReceipt status r).encode) := by
  unfold encodeReceipt
  simp only [h.status_eq, h.type_eq]
  rw [if_neg (Nat.not_le_of_lt h.length_lt)]
  split <;> rfl

theorem Encodable.of_ok {encoded : Bytes} (h : encodeReceipt r = .ok encoded) :
    ∃ status txType, Encodable r status txType := by
  unfold encodeReceipt at h
  split at h
  · cases h
  rename_i status hstatus
  simp only at h
  split at h
  · cases h
  rename_i hlen
  split at h
  · cases h
  rename_i txType htype
  exact ⟨status, txType, ⟨hstatus, htype, Nat.lt_of_not_le hlen⟩⟩

theorem toUInt8_eq_iff : txType.toUInt8 = txType'.toUInt8 ↔ txType % 256 = txType' % 256 := by
  rw [← UInt8.toNat_inj, UInt64.toNat_toUInt8, UInt64.toNat_toUInt8, ← UInt64.toNat_inj,
    UInt64.toNat_mod, UInt64.toNat_mod]
  rfl

/-- An untyped receipt is a list that starts with its status and is made long by its bloom. -/
theorem legacyReceipt_payload (status : UInt64) (r : TransactionReceipt) :
    ∃ items first rest, legacyReceipt status r = .list items ∧
      Rlp.encodeItems items = first :: rest ∧ first.toNat < 0xc0 ∧
      56 ≤ (Rlp.encodeItems items).length := by
  have hstatus : (Rlp.natBytes status.toNat).length < 2 ^ 64 := by
    have hle : (Rlp.natBytes status.toNat).length ≤ 8 := Rlp.natBytes_length_le status.toNat_lt
    omega
  obtain ⟨first, rest, hfirst, hlow⟩ := Rlp.encodeStr_head hstatus
  refine ⟨_, first, rest ++ Rlp.encodeItems [.str (Rlp.natBytes r.cumulativeGasUsed.toNat),
    .str r.logsBloom.toList, .list (r.logs.map logItem)], rfl, ?_, hlow, ?_⟩
  · rw [Rlp.encodeItems, Rlp.Item.encode, hfirst, List.cons_append]
  · have hmem : Rlp.Item.str r.logsBloom.toList ∈ [Rlp.Item.str (Rlp.natBytes status.toNat),
        .str (Rlp.natBytes r.cumulativeGasUsed.toNat), .str r.logsBloom.toList,
        .list (r.logs.map logItem)] := by
      simp
    have hbloom := Rlp.length_le_encodeItems hmem
    have hle := Rlp.length_le_encodeStr r.logsBloom.toList
    rw [Rlp.Item.encode] at hbloom
    rw [Vector.length_toList] at hle
    omega

/-- **An untyped receipt is not a byte in front of another.** -/
theorem legacy_ne_typed {b : UInt8} (hlen : (legacyReceipt status' s).encode.length < 2 ^ 63) :
    (legacyReceipt status r).encode ≠ b :: (legacyReceipt status' s).encode := by
  obtain ⟨items, first, rest, hr, hfirst, hlow, -⟩ := legacyReceipt_payload status r
  obtain ⟨items', -, -, hs, -, -, hlong⟩ := legacyReceipt_payload status' s
  rw [hs, Rlp.encode_list, List.length_append] at hlen
  rw [hr, hs]
  exact Rlp.encode_list_ne_cons hfirst hlow hlong (by omega)

/-- Receipts with one encoding: the untyped encodings are the same, and so are the types, unless
    both are written in one byte. -/
theorem encodeReceipt_eq_iff (hr : Encodable r status txType)
    (hs : Encodable s status' txType') :
    encodeReceipt r = encodeReceipt s ↔
      (txType = txType' ∨ txType ≠ 0 ∧ txType' ≠ 0 ∧ txType % 256 = txType' % 256) ∧
        (legacyReceipt status r).encode = (legacyReceipt status' s).encode := by
  rw [encodeReceipt_eq hr, encodeReceipt_eq hs, Except.ok.injEq]
  by_cases hz : txType = 0
  · by_cases hz' : txType' = 0
    · simp [hz, hz']
    · rw [if_pos hz, if_neg hz']
      constructor
      · intro h
        exact absurd h (legacy_ne_typed hs.length_lt)
      · rintro ⟨heq | ⟨hne, -⟩, -⟩
        · exact absurd (heq.symm.trans hz) hz'
        · exact absurd hz hne
  · by_cases hz' : txType' = 0
    · rw [if_neg hz, if_pos hz']
      constructor
      · intro h
        exact absurd h.symm (legacy_ne_typed hr.length_lt)
      · rintro ⟨heq | ⟨-, hne, -⟩, -⟩
        · exact absurd (heq.trans hz') hz
        · exact absurd hz' hne
    · rw [if_neg hz, if_neg hz', List.cons.injEq, toUInt8_eq_iff]
      constructor
      · rintro ⟨hbyte, htail⟩
        exact ⟨Or.inr ⟨hz, hz', hbyte⟩, htail⟩
      · rintro ⟨rfl | ⟨-, -, hbyte⟩, htail⟩
        · exact ⟨rfl, htail⟩
        · exact ⟨hbyte, htail⟩

/-! ## One encoding -/

/-- The content that an untyped receipt holds. -/
def SameContent (r s : TransactionReceipt) : Prop :=
  r.status = s.status ∧ r.cumulativeGasUsed = s.cumulativeGasUsed ∧ r.logsBloom = s.logsBloom ∧
    r.logs.map Log.fields = s.logs.map Log.fields

/-- Two types, neither of them 0, with the same lowest byte, on receipts of the same content. -/
def SharesTypeByte (r s : TransactionReceipt) : Prop :=
  ∃ txType txType', r.transactionType = some txType ∧ s.transactionType = some txType' ∧
    txType ≠ 0 ∧ txType' ≠ 0 ∧ txType ≠ txType' ∧ txType % 256 = txType' % 256 ∧ SameContent r s

/-- The untyped encoding holds the content and nothing else. -/
theorem legacyReceipt_encode_iff (hr : Encodable r status txType)
    (hs : Encodable s status' txType') :
    (legacyReceipt status r).encode = (legacyReceipt status' s).encode ↔ SameContent r s := by
  unfold SameContent
  rw [hr.status_eq, hs.status_eq, Option.some.injEq]
  constructor
  · intro h
    exact legacyReceipt_fields (Rlp.encode_injective
      (Nat.lt_trans hr.length_lt (by decide)) h)
  · rintro ⟨rfl, hgas, hbloom, hlogs⟩
    have hitems : r.logs.map logItem = s.logs.map logItem := logItems_of_fields hlogs
    unfold legacyReceipt
    rw [hgas, hbloom, hitems]

theorem fields_eq_iff : r.fields = s.fields ↔
    r.transactionType = s.transactionType ∧ SameContent r s := by
  unfold TransactionReceipt.fields SameContent
  rw [ReceiptFields.mk.injEq]

/-- Away from two types with one lowest byte, the encoding determines the fields. -/
theorem fields_of_encodeReceipt (hr : Encodable r status txType)
    (hs : Encodable s status' txType') (hbytes : ¬ SharesTypeByte r s)
    (h : encodeReceipt r = encodeReceipt s) : r.fields = s.fields := by
  rw [encodeReceipt_eq_iff hr hs, legacyReceipt_encode_iff hr hs] at h
  rw [fields_eq_iff, hr.type_eq, hs.type_eq, Option.some.injEq]
  obtain ⟨heq | ⟨hz, hz', hbyte⟩, hcontent⟩ := h
  · exact ⟨heq, hcontent⟩
  · refine ⟨?_, hcontent⟩
    apply Classical.byContradiction
    intro hne
    exact hbytes ⟨_, _, hr.type_eq, hs.type_eq, hz, hz', hne, hbyte, hcontent⟩

/-- The encoding only depends on the consensus fields. -/
theorem encodeReceipt_of_fields {r s : TransactionReceipt} (h : r.fields = s.fields) :
    encodeReceipt r = encodeReceipt s := by
  have htype : r.transactionType = s.transactionType := congrArg ReceiptFields.transactionType h
  have hstatus : r.status = s.status := congrArg ReceiptFields.status h
  have hgas : r.cumulativeGasUsed = s.cumulativeGasUsed :=
    congrArg ReceiptFields.cumulativeGasUsed h
  have hbloom : r.logsBloom = s.logsBloom := congrArg ReceiptFields.logsBloom h
  have hlogs : r.logs.map Log.fields = s.logs.map Log.fields := congrArg ReceiptFields.logs h
  have hitems : r.logs.map logItem = s.logs.map logItem := logItems_of_fields hlogs
  have hlegacy : ∀ status, legacyReceipt status r = legacyReceipt status s := by
    intro status
    rw [legacyReceipt, legacyReceipt, hgas, hbloom, hitems]
  unfold encodeReceipt
  rw [hstatus]
  simp only [hlegacy, htype]

/-- A transaction type leaves the first byte of an RLP list free. -/
def EnvelopeType (receipt : TransactionReceipt) : Prop :=
  ∃ txType, receipt.transactionType = some txType ∧ txType < 0x80

/-- A receipt with the fields of one of envelope type has an envelope type. -/
theorem EnvelopeType.of_fields {r s : TransactionReceipt} (h : r.fields = s.fields)
    (hs : EnvelopeType s) : EnvelopeType r := by
  obtain ⟨txType, htype, hlt⟩ := hs
  exact ⟨txType, (congrArg ReceiptFields.transactionType h).trans htype, hlt⟩

/-- A type of one envelope byte is not taken for another. -/
theorem EnvelopeType.not_shares (hr : EnvelopeType r) (hs : EnvelopeType s) :
    ¬ SharesTypeByte r s := by
  obtain ⟨txType, htype, hlt⟩ := hr
  obtain ⟨txType', htype', hlt'⟩ := hs
  rintro ⟨t, t', ht, ht', -, -, hne, hbyte, -⟩
  obtain rfl := Option.some.inj (htype.symm.trans ht)
  obtain rfl := Option.some.inj (htype'.symm.trans ht')
  apply hne
  rw [← UInt64.toNat_inj, UInt64.toNat_mod, UInt64.toNat_mod] at hbyte
  rw [UInt64.lt_iff_toNat_lt] at hlt hlt'
  have h1 : txType.toNat < 128 := hlt
  have h2 : txType'.toNat < 128 := hlt'
  have h3 : txType.toNat % 256 = txType'.toNat % 256 := hbyte
  apply UInt64.toNat_inj.1
  omega

/-- **The encoding of a receipt determines its consensus fields.** -/
theorem encodeReceipt_fields {b : Bytes} (hr : encodeReceipt r = .ok b)
    (hs : encodeReceipt s = .ok b) (htr : EnvelopeType r) (hts : EnvelopeType s) :
    r.fields = s.fields := by
  obtain ⟨status, txType, hencodable⟩ := Encodable.of_ok hr
  obtain ⟨status', txType', hencodable'⟩ := Encodable.of_ok hs
  exact fields_of_encodeReceipt hencodable hencodable' (htr.not_shares hts) (hr.trans hs.symm)

/-! ## Receipts roots -/

/-- Two lists with the same encodings, place by place. -/
theorem encodings_agree {receipts truth : List TransactionReceipt} {encoded : List Bytes}
    (h : collectResults encodeReceipt receipts = .ok encoded)
    (h' : collectResults encodeReceipt truth = .ok encoded) {i : Nat}
    {receipt : TransactionReceipt} (hi : receipts[i]? = some receipt) :
    ∃ true', truth[i]? = some true' ∧ ∃ b, encodeReceipt receipt = .ok b ∧
      encodeReceipt true' = .ok b := by
  obtain ⟨b, hb, he⟩ := collectResults_getElem? h hi
  have hlen : i < truth.length := by
    rw [(collectResults_ok.1 h').length_eq]
    exact (List.getElem?_eq_some_iff.1 hb).1
  have htrue := List.getElem?_eq_getElem hlen
  obtain ⟨b', hb', he'⟩ := collectResults_getElem? h' htrue
  obtain rfl := Option.some.inj (hb.symm.trans hb')
  exact ⟨_, htrue, b, he, he'⟩

/-- **A receipts root determines the consensus fields of every receipt under it**, when no two lists
    of encodings share it and no type is taken for another. -/
theorem receiptsRoot_fields {c : Crates} {receipts truth : List TransactionReceipt}
    {encoded encoded' : List Bytes} (hr : collectResults encodeReceipt receipts = .ok encoded)
    (hs : collectResults encodeReceipt truth = .ok encoded')
    (hroot : c.orderedTrieRoot encoded = c.orderedTrieRoot encoded' → encoded = encoded')
    (hbytes : ∀ (i : Nat) (r s : TransactionReceipt), receipts[i]? = some r →
      truth[i]? = some s → ¬ SharesTypeByte r s)
    (h : c.orderedTrieRoot encoded = c.orderedTrieRoot encoded') :
    receipts.map TransactionReceipt.fields = truth.map TransactionReceipt.fields := by
  rw [← hroot h] at hs
  have hlen : receipts.length = truth.length := by
    rw [(collectResults_ok.1 hr).length_eq, (collectResults_ok.1 hs).length_eq]
  apply List.ext_getElem?
  intro i
  rw [List.getElem?_map, List.getElem?_map]
  cases hi : receipts[i]? with
  | none =>
    rw [List.getElem?_eq_none_iff, hlen, ← List.getElem?_eq_none_iff] at hi
    rw [hi]
  | some r =>
    obtain ⟨s, hsi, b, hb, hb'⟩ := encodings_agree hr hs hi
    obtain ⟨status, txType, hencodable⟩ := Encodable.of_ok hb
    obtain ⟨status', txType', hencodable'⟩ := Encodable.of_ok hb'
    rw [hsi, Option.map_some, Option.map_some, fields_of_encodeReceipt hencodable hencodable'
      (hbytes i r s hi hsi) (hb.trans hb'.symm)]

/-! ## The exact condition -/

/-- With two such types, two receipts have one encoding. -/
theorem SharesTypeByte.collides (hr : Encodable r status txType)
    (hs : Encodable s status' txType') (h : SharesTypeByte r s) :
    encodeReceipt r = encodeReceipt s ∧ r.fields ≠ s.fields := by
  obtain ⟨t, t', ht, ht', hz, hz', hne, hbyte, hcontent⟩ := h
  rw [hr.type_eq] at ht
  rw [hs.type_eq] at ht'
  cases ht
  cases ht'
  refine ⟨?_, ?_⟩
  · rw [encodeReceipt_eq_iff hr hs, legacyReceipt_encode_iff hr hs]
    exact ⟨Or.inr ⟨hz, hz', hbyte⟩, hcontent⟩
  · rw [Ne, fields_eq_iff, hr.type_eq, hs.type_eq, Option.some.injEq]
    exact fun hfields => hne hfields.1

/-- **The encoding determines the consensus fields of a receipt, except for two types that differ
    above their lowest byte.** -/
theorem encodeReceipt_injective_iff (hr : Encodable r status txType)
    (hs : Encodable s status' txType') :
    (encodeReceipt r = encodeReceipt s → r.fields = s.fields) ↔ ¬ SharesTypeByte r s := by
  constructor
  · intro h hshares
    obtain ⟨heq, hne⟩ := hshares.collides hr hs
    exact hne (h heq)
  · intro hbytes h
    exact fields_of_encodeReceipt hr hs hbytes h

/-- The receipt of a transfer, under a type. -/
def typedReceipt (txType : UInt64) : TransactionReceipt where
  transactionHash := zeroBytes 32
  blockNumber := some 7
  cumulativeGasUsed := 21000
  logs := []
  status := some 1
  logsBloom := zeroBytes 256
  transactionType := some txType
  rest := []

theorem typedReceipt_encodable (txType : UInt64) : Encodable (typedReceipt txType) 1 txType where
  status_eq := rfl
  type_eq := rfl
  length_lt := by
    have hlen : (legacyReceipt 1 (typedReceipt 0)).encode.length < 512 := by decide +kernel
    exact Nat.lt_trans hlen (by decide)

theorem encodeReceipt_injective_typed :
    (encodeReceipt (typedReceipt 0) = encodeReceipt (typedReceipt 2) →
        (typedReceipt 0).fields = (typedReceipt 2).fields) ↔
      ¬ SharesTypeByte (typedReceipt 0) (typedReceipt 2) :=
  encodeReceipt_injective_iff (typedReceipt_encodable 0) (typedReceipt_encodable 2)

/-- Types 1 and 257 are written as the same byte. -/
theorem encodeReceipt_collides :
    ¬ ∀ (r s : TransactionReceipt) (status status' txType txType' : UInt64),
      Encodable r status txType → Encodable s status' txType' →
        encodeReceipt r = encodeReceipt s → r.fields = s.fields := by
  intro h
  have hshares : SharesTypeByte (typedReceipt 1) (typedReceipt 257) :=
    ⟨1, 257, rfl, rfl, by decide, by decide, by decide, by decide, rfl, rfl, rfl, rfl⟩
  obtain ⟨heq, hne⟩ :=
    hshares.collides (typedReceipt_encodable 1) (typedReceipt_encodable 257)
  exact hne (h _ _ _ _ _ _ (typedReceipt_encodable 1) (typedReceipt_encodable 257) heq)

end Helios
