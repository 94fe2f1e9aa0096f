import Jaxnetd.Chaindata.Compress

/-!
# The spend journal

The records of `chaindb_io.go`: the outputs that a block has spent, and the rows of the set of unspent
outputs. A record of spent outputs does not say how many there are. The reader counts the inputs of the
block's transactions behind the first, and reads from the last of them to the first, as they were written.
-/

namespace Jaxnetd.Chaindata
open Wire TxScript Checks List

def ChainError.within (what : String) : ChainError → ChainError
  | .other message => .other (what ++ ": " ++ message)
  | e => e

/-! ## Spent outputs -/

/-- `uint64` of a signed integer. -/
def toUint64 (x : Int) : Nat := (x % 2 ^ 64).toNat

def spentTxOutHeaderCode (stxo : SpentTxOut) : Nat :=
  toUint64 stxo.height * 2 % 2 ^ 64 + if stxo.isCoinBase then 1 else 0

section
variable [Primitives] (stxo : SpentTxOut)

def spentTxOutSerializeSize : Nat :=
  serializeSizeVLQ (spentTxOutHeaderCode stxo) + (if 0 < stxo.height then serializeSizeVLQ 0 else 0) +
    compressedTxOutSize (toUint64 stxo.amount) stxo.pkScript

def putSpentTxOut : Bytes :=
  putVLQ (spentTxOutHeaderCode stxo) ++ (if 0 < stxo.height then putVLQ 0 else []) ++
    putCompressedTxOut (toUint64 stxo.amount) stxo.pkScript

variable (serialized : Bytes)

/-- The reserved field behind the header code, of which only the length matters. -/
def skipReserved (height : Int) (offset : Nat) : Except ChainError Nat :=
  if 0 < height then do
    let offset := offset + (deserializeVLQ (serialized.drop offset)).2
    failIf (serialized.length ≤ offset) (.other "unexpected end of data after reserved")
    return offset
  else .ok offset

/-- `decodeSpentTxOut`: the spent output and the count of bytes read. -/
def decodeSpentTxOut : Except ChainError (SpentTxOut × Nat) := do
  failIf (serialized = []) (.other "no serialized bytes")
  let (code, offset) := deserializeVLQ serialized
  failIf (serialized.length ≤ offset) (.other "unexpected end of data after header code")
  let height := wrap32 (code / 2 : Nat)
  let offset ← skipReserved serialized height offset
  let (amount, pkScript, bytesRead) ← (decodeCompressedTxOut (serialized.drop offset)).mapError
    (·.within "unable to decode txout")
  return (⟨wrap64 amount, pkScript, height, code % 2 ≠ 0⟩, offset + bytesRead)

variable {H : Type} [ChainHash H]

/-- The loops of `deserializeSpendJournalEntry` over the inputs, from the last to the first. -/
def decodeStxos : List (TxIn H) → Bytes → Except ChainError (List SpentTxOut)
  | [], _ => .ok []
  | txIn :: txIns, serialized => do
    let (stxo, n) ← (decodeSpentTxOut serialized).mapError
      (·.within ("unable to decode stxo for " ++ txIn.previousOutPoint.string))
    let stxos ← decodeStxos txIns (serialized.drop n)
    return stxo :: stxos

def deserializeSpendJournalEntry (txns : List (MsgTx H)) :
    Except ChainError (List SpentTxOut) :=
  let txIns := txns.flatMap MsgTx.txIn
  if serialized = [] then do
    failIf (txIns.length ≠ 0) (.assert ("mismatched spend journal serialization - no serialization for expected " ++
      toString txIns.length ++ " stxos"))
    return []
  else (decodeStxos txIns.reverse serialized).map List.reverse

omit [ChainHash H] in
def serializeSpendJournalEntry (stxos : List SpentTxOut) : Bytes := stxos.reverse.flatMap putSpentTxOut

/-! ## Rows of unspent outputs -/

def serializeUtxoEntry (row : SpentTxOut) : Bytes :=
  putVLQ (spentTxOutHeaderCode row) ++ putCompressedTxOut (toUint64 row.amount) row.pkScript

def deserializeUtxoEntry : Except ChainError SpentTxOut := do
  let (code, offset) := deserializeVLQ serialized
  failIf (serialized.length ≤ offset) (.other "unexpected end of data after header")
  let (amount, pkScript, _) ← (decodeCompressedTxOut (serialized.drop offset)).mapError
    (·.within "unable to decode utxo")
  return ⟨wrap64 amount, pkScript, wrap32 (code / 2 : Nat), code % 2 ≠ 0⟩

end

/-! ## What was written is read back -/

/-- The range of what is written: amounts as the validation lets them pass, any `int32` as height, and a script
that fits in the memory of a machine. -/
structure Storable (d : SpentTxOut) : Prop where
  amount_nonneg : 0 ≤ d.amount
  amount_le : d.amount ≤ maxCoinAmount
  height_ge : -2 ^ 31 ≤ d.height
  height_lt : d.height < 2 ^ 31
  script_lt : d.pkScript.length < 2 ^ 62

section
variable {d : SpentTxOut}

theorem Storable.amount (h : Storable d) : toUint64 d.amount < 2 ^ 60 ∧ wrap64 (toUint64 d.amount) = d.amount := by
  have h0 := h.amount_nonneg
  have hle := h.amount_le
  unfold toUint64 wrap64 maxCoinAmount at *
  omega

theorem Storable.headerCode (h : Storable d) : spentTxOutHeaderCode d < 2 ^ 64 ∧
    wrap32 (spentTxOutHeaderCode d / 2 : Nat) = d.height ∧ (spentTxOutHeaderCode d % 2 ≠ 0 ↔ d.isCoinBase) := by
  have hge := h.height_ge
  have hlt := h.height_lt
  unfold spentTxOutHeaderCode toUint64 wrap32
  cases d.isCoinBase
  · simp only [Bool.false_eq_true, if_false, iff_false]
    omega
  · simp only [if_true, iff_true]
    omega

variable [Primitives]

theorem putCompressedTxOut_pos (amount : Nat) (script : Bytes) : 0 < (putCompressedTxOut amount script).length := by
  rw [length_putCompressedTxOut, compressedTxOutSize]
  have := compressedScriptSize_pos script
  omega

omit [Primitives] in
theorem skipReserved_put {front tail : Bytes} (htail : 0 < tail.length) (height : Int) :
    skipReserved (front ++ ((if 0 < height then putVLQ 0 else []) ++ tail)) height front.length =
      .ok (front.length + (if 0 < height then putVLQ 0 else []).length) := by
  unfold skipReserved
  split
  · simp only [drop_left, deserializeVLQ_put (show 0 < 2 ^ 64 by decide), ok_rules, length_append, and_true]
    omega
  · rfl

theorem decodeSpentTxOut_put (hkeys : KeysRecoverable) (h : Storable d) (rest : Bytes) :
    decodeSpentTxOut (putSpentTxOut d ++ rest) = .ok (d, (putSpentTxOut d).length) := by
  obtain ⟨hcode, hheight, hflag⟩ := h.headerCode
  obtain ⟨hamount, hback⟩ := h.amount
  have htail : 0 < (putCompressedTxOut (toUint64 d.amount) d.pkScript ++ rest).length := by
    have := putCompressedTxOut_pos (toUint64 d.amount) d.pkScript
    rw [length_append]
    omega
  have hne : putVLQ (spentTxOutHeaderCode d) ++ ((if 0 < d.height then putVLQ 0 else []) ++
      (putCompressedTxOut (toUint64 d.amount) d.pkScript ++ rest)) ≠ [] := by
    intro hnil
    rw [(append_eq_nil_iff.1 (append_eq_nil_iff.1 hnil).2).2] at htail
    cases htail
  simp only [decodeSpentTxOut, putSpentTxOut, append_assoc, deserializeVLQ_put hcode, hheight,
    skipReserved_put htail, ← drop_drop, drop_left, decodeCompressedTxOut_put hkeys hamount h.script_lt,
    bind_eq_ok, exists_unit, failIf_eq_ok, Except.ok.injEq, exists_eq_left', mapError_eq_ok, hback, pure_eq_ok]
  refine ⟨hne, ?_, ?_⟩
  · rw [length_append, length_append]
    omega
  · have hcb : decide (spentTxOutHeaderCode d % 2 ≠ 0) = d.isCoinBase := by
      rw [Bool.eq_iff_iff, decide_eq_true_eq]
      exact hflag
    simp only [hcb, length_append, Nat.add_assoc]

variable {H : Type} [ChainHash H] {stxos : List SpentTxOut} {txIns : List (TxIn H)} {txns : List (MsgTx H)}

theorem decodeStxos_put (hkeys : KeysRecoverable) (hlen : stxos.length = txIns.length) (h : ∀ d ∈ stxos, Storable d) :
    decodeStxos txIns (stxos.flatMap putSpentTxOut) = .ok stxos := by
  induction txIns generalizing stxos with
  | nil =>
    obtain rfl := eq_nil_of_length_eq_zero hlen
    rfl
  | cons txIn txIns ih =>
    rcases stxos with _ | ⟨d, stxos⟩
    · simp at hlen
    rw [forall_mem_cons] at h
    have hrest := ih (by simpa using hlen) h.2
    simp only [decodeStxos, flatMap_cons, decodeSpentTxOut_put hkeys h.1, ok_rules, exists_eq_left', drop_left, hrest]

theorem deserialize_serialize (hkeys : KeysRecoverable)
    (hlen : stxos.length = (txns.flatMap MsgTx.txIn).length) (h : ∀ d ∈ stxos, Storable d) :
    deserializeSpendJournalEntry (serializeSpendJournalEntry stxos) txns = .ok stxos := by
  have hread : decodeStxos (txns.flatMap MsgTx.txIn).reverse (serializeSpendJournalEntry stxos) = .ok stxos.reverse :=
    decodeStxos_put hkeys (by simpa using hlen) (by simpa using h)
  simp only [deserializeSpendJournalEntry]
  split
  · next hempty =>
    -- no bytes at all: there was nothing to write
    have hnil : stxos = [] := by
      by_contra hne
      obtain ⟨d, hd⟩ := exists_mem_of_ne_nil _ (show stxos.reverse ≠ [] by simpa using hne)
      have hput : putSpentTxOut d = [] := flatMap_eq_nil_iff.1 hempty d hd
      have hpos := putCompressedTxOut_pos (toUint64 d.amount) d.pkScript
      rw [(append_eq_nil_iff.1 hput).2] at hpos
      cases hpos
    subst hnil
    simp only [← hlen, ok_rules]
    simp
  · rw [hread]
    simp [Except.map]

theorem length_decodeStxos {serialized : Bytes}
    (h : decodeStxos txIns serialized = .ok stxos) : stxos.length = txIns.length := by
  induction txIns generalizing serialized stxos with
  | nil =>
    cases h
    rfl
  | cons txIn txIns ih =>
    simp only [decodeStxos, bind_eq_ok, pure_eq_ok] at h
    obtain ⟨⟨d, n⟩, -, rest, hrest, rfl⟩ := h
    rw [length_cons, length_cons, ih hrest]

theorem length_deserialize {serialized : Bytes} (h : deserializeSpendJournalEntry serialized txns = .ok stxos) :
    stxos.length = (txns.flatMap MsgTx.txIn).length := by
  simp only [deserializeSpendJournalEntry] at h
  split at h
  · simp only [ok_rules] at h
    rw [← h.2, h.1]
    rfl
  · obtain ⟨read, hread, rfl⟩ := map_eq_ok.1 h
    simpa using length_decodeStxos hread

theorem deserializeUtxoEntry_serialize (hkeys : KeysRecoverable) (h : Storable d) :
    deserializeUtxoEntry (serializeUtxoEntry d) = .ok d := by
  obtain ⟨hcode, hheight, hflag⟩ := h.headerCode
  obtain ⟨hamount, hback⟩ := h.amount
  have hpos := putCompressedTxOut_pos (toUint64 d.amount) d.pkScript
  have hread := decodeCompressedTxOut_put hkeys hamount h.script_lt []
  rw [append_nil] at hread
  simp only [deserializeUtxoEntry, serializeUtxoEntry, deserializeVLQ_put hcode, drop_left, hread, ok_rules,
    exists_eq_left', hheight, hback, length_append]
  refine ⟨by omega, ?_⟩
  have hcb : decide (spentTxOutHeaderCode d % 2 ≠ 0) = d.isCoinBase := by
    rw [Bool.eq_iff_iff, decide_eq_true_eq]
    exact hflag
  rw [hcb]

omit [ChainHash H] in
theorem length_putSpentTxOut (d : SpentTxOut) : (putSpentTxOut d).length = spentTxOutSerializeSize d := by
  rw [putSpentTxOut, spentTxOutSerializeSize, length_append, length_append, length_putCompressedTxOut,
    putVLQ, Vlq.length_encode]
  split
  · rw [putVLQ, Vlq.length_encode]
    rfl
  · rfl

theorem length_serializeSpendJournalEntry (stxos : List SpentTxOut) :
    (serializeSpendJournalEntry stxos).length = (stxos.map spentTxOutSerializeSize).sum := by
  rw [serializeSpendJournalEntry, length_flatMap, map_reverse, sum_reverse]
  exact congrArg List.sum (map_congr_left fun d _ => length_putSpentTxOut d)

/-- Rows of unspent outputs, single entries of the journal, and the journal of a block come back as they were
written, from as many bytes as the size functions say. -/
theorem stored_outputs_read_back (hkeys : KeysRecoverable) :
    (∀ row : SpentTxOut, Storable row → deserializeUtxoEntry (serializeUtxoEntry row) = .ok row) ∧
    (∀ stxo : SpentTxOut, Storable stxo → (putSpentTxOut stxo).length = spentTxOutSerializeSize stxo ∧
      ∀ rest, decodeSpentTxOut (putSpentTxOut stxo ++ rest) = .ok (stxo, spentTxOutSerializeSize stxo)) ∧
    ∀ (txns : List (MsgTx H)) (stxos : List SpentTxOut), stxos.length = (txns.flatMap MsgTx.txIn).length →
      (∀ stxo ∈ stxos, Storable stxo) →
      (serializeSpendJournalEntry stxos).length = (stxos.map spentTxOutSerializeSize).sum ∧
        deserializeSpendJournalEntry (serializeSpendJournalEntry stxos) txns = .ok stxos := by
  refine ⟨fun row h => deserializeUtxoEntry_serialize hkeys h, fun stxo h => ⟨length_putSpentTxOut stxo, ?_⟩, ?_⟩
  · intro rest
    rw [decodeSpentTxOut_put hkeys h, length_putSpentTxOut]
  · intro txns stxos hlen h
    exact ⟨length_serializeSpendJournalEntry stxos, deserialize_serialize hkeys hlen h⟩

end

section Sample

@[reducible] def twoPointPrimitives : Primitives where
  ripemd160 b := b
  sha1 b := b
  PubKey := Bytes
  Signature := Unit
  parsePubKey key :=
    let y := fun parity : UInt8 => List.replicate 31 0 ++ [parity]
    match key with
    | 2 :: x => if x.length = 32 then some (4 :: x ++ y 0) else none
    | 3 :: x => if x.length = 32 then some (4 :: x ++ y 1) else none
    | 4 :: xy => if xy.length = 64 ∧ (xy.drop 32 = y 0 ∨ xy.drop 32 = y 1) then some (4 :: xy) else none
    | _ => none
  serializeUncompressed key := key
  parseSignature _ := none
  parseDERSignature _ := none
  verify _ _ _ := false
  isIP _ := false
  isURL _ := false

attribute [local instance] sumHash twoPointPrimitives

theorem twoPoint_keysRecoverable : KeysRecoverable := by
  intro key hlen h4 hparse
  obtain ⟨b, xy, rfl⟩ : ∃ b xy, key = b :: xy := exists_cons_of_length_pos (by omega)
  obtain rfl : b = 4 := h4
  have h32 : (xy.take 32).length = 32 := by simp at hlen ⊢; omega
  have hpoint : xy.drop 32 = List.replicate 31 0 ++ [0] ∨ xy.drop 32 = List.replicate 31 0 ++ [1] := by
    by_contra hno
    rw [show Primitives.parsePubKey (4 :: xy) = none from if_neg fun h => hno h.2] at hparse
    cases hparse
  have hlast : xy.getD 63 0 = (xy.drop 32).getD 31 0 := by
    rw [getD_eq_getElem?_getD, getD_eq_getElem?_getD, getElem?_drop]
  rw [getD_cons_succ, hlast, drop_succ_cons, drop_zero]
  rcases hpoint with hy | hy
  · refine ⟨4 :: xy.take 32 ++ xy.drop 32, ?_, congrArg (4 :: ·) (take_append_drop 32 xy)⟩
    rw [hy]
    exact if_pos h32
  · refine ⟨4 :: xy.take 32 ++ xy.drop 32, ?_, congrArg (4 :: ·) (take_append_drop 32 xy)⟩
    rw [hy]
    exact if_pos h32

def keyRow : SpentTxOut :=
  ⟨5000000000, [65, 4] ++ List.replicate 32 7 ++ List.replicate 31 0 ++ [1, 172], 2 ^ 31 - 1, true⟩

theorem keyRow_read_back : Storable keyRow ∧ deserializeUtxoEntry (serializeUtxoEntry keyRow) = .ok keyRow ∧
    decodeSpentTxOut (putSpentTxOut keyRow ++ [9]) = .ok (keyRow, spentTxOutSerializeSize keyRow) ∧
    deserializeSpendJournalEntry (serializeSpendJournalEntry [keyRow])
      [(⟨1, [⟨⟨(0 : Nat), 0⟩, [], [], 0⟩], [], 0⟩ : MsgTx Nat)] = .ok [keyRow] := by
  have hkey : Storable keyRow := by
    constructor <;> decide
  obtain ⟨hrow, hstxo, hjournal⟩ := stored_outputs_read_back (H := Nat) twoPoint_keysRecoverable
  exact ⟨hkey, hrow keyRow hkey, (hstxo keyRow hkey).2 [9], (hjournal _ [keyRow] rfl (by simpa using hkey)).2⟩

end Sample

end Jaxnetd.Chaindata
