import Jaxnetd.Lib.Vlq
import Jaxnetd.Chaindata.Inputs

/-!
# Compressed outputs

`compress.go`: amounts and scripts of outputs in the database. Functions that write into a slice give the bytes they write,
as many as the slice was made for (`length_putCompressedTxOut`). What is written is read back (`decodeCompressedTxOut_put`),
if a public key in the long form can be recovered from its first coordinate.
-/

namespace Jaxnetd.Chaindata
open Wire TxScript Checks List Primitives

def serializeSizeVLQ (n : Nat) : Nat := Vlq.size n

def putVLQ (n : Nat) : Bytes := Vlq.encode n

/-- `deserializeVLQ`: the number and the count of bytes read. -/
def deserializeVLQ (serialized : Bytes) : Nat × Nat := Vlq.decode serialized

/-! ## Amounts -/

/-- The loop of `compressTxOutAmount` that takes zeroes off the end, up to nine. -/
def stripZeros : Nat → Nat → Nat → Nat × Nat
  | 0, amount, exponent => (amount, exponent)
  | fuel + 1, amount, exponent =>
    if amount % 10 = 0 then stripZeros fuel (amount / 10) (exponent + 1) else (amount, exponent)

def compressTxOutAmount (amount : Nat) : Nat :=
  if amount = 0 then 0
  else
    let (amount, exponent) := stripZeros 9 amount 0
    if exponent < 9 then (1 + 10 * (9 * (amount / 10) + amount % 10 - 1) + exponent) % 2 ^ 64
    else (10 + 10 * (amount - 1)) % 2 ^ 64

/-- The loop that puts zeroes at the end. -/
def timesTen : Nat → Nat → Nat
  | 0, n => n
  | exponent + 1, n => timesTen exponent (n * 10 % 2 ^ 64)

def decompressTxOutAmount (amount : Nat) : Nat :=
  if amount = 0 then 0
  else
    let amount := amount - 1
    let exponent := amount % 10
    let amount := amount / 10
    timesTen exponent (if exponent < 9 then (amount / 9 * 10 + (amount % 9 + 1)) % 2 ^ 64 else amount + 1)

/-! ## Scripts -/

def ops (opcodes : List Nat) : Bytes := opcodes.map UInt8.ofNat

def isPubKeyHash (script : Bytes) : Option Bytes :=
  if script.length = 25 ∧ script.take 3 = ops [OP_DUP, OP_HASH160, OP_DATA_20] ∧
      script.drop 23 = ops [OP_EQUALVERIFY, OP_CHECKSIG] then some ((script.drop 3).take 20)
  else none

def isScriptHash (script : Bytes) : Option Bytes :=
  if script.length = 23 ∧ script.take 2 = ops [OP_HASH160, OP_DATA_20] ∧ script.drop 22 = ops [OP_EQUAL] then
    some ((script.drop 2).take 20)
  else none

def numSpecialScripts : Nat := 6

section
variable [Primitives]

def isPubKey (script : Bytes) : Option Bytes :=
  if script.length = 35 ∧ script.take 1 = ops [OP_DATA_33] ∧ script.drop 34 = ops [OP_CHECKSIG] ∧
      (script.getD 1 0 = 2 ∨ script.getD 1 0 = 3) ∧
      (parsePubKey ((script.drop 1).take 33)).isSome then some ((script.drop 1).take 33)
  else if script.length = 67 ∧ script.take 1 = ops [OP_DATA_65] ∧ script.drop 66 = ops [OP_CHECKSIG] ∧
      script.getD 1 0 = 4 ∧ (parsePubKey ((script.drop 1).take 65)).isSome then some ((script.drop 1).take 65)
  else none

def compressedScriptSize (pkScript : Bytes) : Nat :=
  if (isPubKeyHash pkScript).isSome then 21
  else if (isScriptHash pkScript).isSome then 21
  else if (isPubKey pkScript).isSome then 33
  else serializeSizeVLQ (pkScript.length + numSpecialScripts) + pkScript.length

def putCompressedScript (pkScript : Bytes) : Bytes :=
  match isPubKeyHash pkScript, isScriptHash pkScript, isPubKey pkScript with
  | some hash, _, _ => 0 :: hash
  | none, some hash, _ => 1 :: hash
  | none, none, some serializedPubKey =>
    let pubKeyFormat := serializedPubKey.getD 0 0
    -- the format is one of 2, 3 and 4
    (if pubKeyFormat = 4 then pubKeyFormat ||| (serializedPubKey.getD 64 0 &&& 1) else pubKeyFormat) ::
      (serializedPubKey.drop 1).take 32
  | none, none, none => putVLQ (pkScript.length + numSpecialScripts) ++ pkScript

def decodeCompressedScriptSize (serialized : Bytes) : Int :=
  let (scriptSize, bytesRead) := deserializeVLQ serialized
  if bytesRead = 0 then 0
  else if scriptSize ≤ 1 then 21
  else if scriptSize ≤ 5 then 33
  else wrap64 (scriptSize - numSpecialScripts + bytesRead)

def decompressScript (compressedPkScript : Bytes) : Bytes :=
  if compressedPkScript = [] then []
  else
    let (encodedScriptSize, bytesRead) := deserializeVLQ compressedPkScript
    let data := compressedPkScript.drop bytesRead
    match encodedScriptSize with
    | 0 => ops [OP_DUP, OP_HASH160, OP_DATA_20] ++ data.take 20 ++ ops [OP_EQUALVERIFY, OP_CHECKSIG]
    | 1 => ops [OP_HASH160, OP_DATA_20] ++ data.take 20 ++ ops [OP_EQUAL]
    | 2 => ops [OP_DATA_33] ++ 2 :: data.take 32 ++ ops [OP_CHECKSIG]
    | 3 => ops [OP_DATA_33] ++ 3 :: data.take 32 ++ ops [OP_CHECKSIG]
    | 4 => uncompressed 2 (compressedPkScript.drop 1)
    | 5 => uncompressed 3 (compressedPkScript.drop 1)
    | n => data.take (n - numSpecialScripts)
where
  /-- The script for the key with some first coordinate, or nothing if there is none. -/
  uncompressed (format : UInt8) (x : Bytes) : Bytes :=
    match parsePubKey (format :: x.take 32) with
    | none => []
    | some key => ops [OP_DATA_65] ++ serializeUncompressed key ++ ops [OP_CHECKSIG]

/-! ## Outputs -/

def compressedTxOutSize (amount : Nat) (pkScript : Bytes) : Nat :=
  serializeSizeVLQ (compressTxOutAmount amount) + compressedScriptSize pkScript

def putCompressedTxOut (amount : Nat) (pkScript : Bytes) : Bytes :=
  putVLQ (compressTxOutAmount amount) ++ putCompressedScript pkScript

def decodeCompressedTxOut (serialized : Bytes) : Except ChainError (Nat × Bytes × Nat) := do
  let (compressedAmount, bytesRead) := deserializeVLQ serialized
  failIf (serialized.length ≤ bytesRead) (.other "unexpected end of data after compressed amount")
  let rest := serialized.drop bytesRead
  let scriptSize := decodeCompressedScriptSize rest
  failIf (rest.length < scriptSize) (.other "unexpected end of data after script size")
  failIf (scriptSize < 0) (.other "slice bounds out of range")
  let script := decompressScript (rest.take scriptSize.toNat)
  return (decompressTxOutAmount compressedAmount, script, bytesRead + scriptSize.toNat)

end

/-! ## Amounts are read back -/

theorem stripZeros_spec (fuel amount exponent : Nat) (hpos : 0 < amount) :
    ∃ a e, stripZeros fuel amount exponent = (a, exponent + e) ∧ amount = a * 10 ^ e ∧ e ≤ fuel ∧ 0 < a ∧
      (e < fuel → a % 10 ≠ 0) := by
  induction fuel generalizing amount exponent with
  | zero => exact ⟨amount, 0, rfl, by simp, le_rfl, hpos, by omega⟩
  | succ fuel ih =>
    rw [stripZeros]
    split
    · next hzero =>
      obtain ⟨a, e, heq, hamount, hle, ha, hlast⟩ := ih (amount / 10) (exponent + 1) (by omega)
      refine ⟨a, e + 1, by rw [heq]; congr 1; omega, ?_, by omega, ha, fun h => hlast (by omega)⟩
      rw [Nat.pow_succ, ← Nat.mul_assoc, ← hamount]
      omega
    · next hne => exact ⟨amount, 0, rfl, by simp, by omega, hpos, fun _ => hne⟩

theorem timesTen_eq {exponent n : Nat} (h : n * 10 ^ exponent < 2 ^ 64) : timesTen exponent n = n * 10 ^ exponent := by
  induction exponent generalizing n with
  | zero => simp [timesTen]
  | succ exponent ih =>
    have hpow : n * 10 ^ (exponent + 1) = n * 10 * 10 ^ exponent := by ring
    have hstep : n * 10 < 2 ^ 64 := by
      refine lt_of_le_of_lt ?_ (hpow ▸ h)
      exact Nat.le_mul_of_pos_right _ (Nat.pow_pos (by decide))
    rw [timesTen, Nat.mod_eq_of_lt hstep, ih (hpow ▸ h), hpow]

theorem decompress_compress {amount : Nat} (h : amount < 2 ^ 60) :
    decompressTxOutAmount (compressTxOutAmount amount) = amount ∧ compressTxOutAmount amount < 2 ^ 64 := by
  rcases Nat.eq_zero_or_pos amount with rfl | hpos
  · decide
  obtain ⟨a, e, heq, hamount, hle, ha, hlast⟩ := stripZeros_spec 9 amount 0 hpos
  have hale : a ≤ amount := by
    rw [hamount]
    exact Nat.le_mul_of_pos_right _ (Nat.pow_pos (by decide))
  have hback : timesTen e a = amount := by rw [timesTen_eq (by omega), hamount]
  rw [Nat.zero_add] at heq
  simp only [compressTxOutAmount, heq, if_neg (show amount ≠ 0 by omega)]
  by_cases he : e < 9
  · have hdigit := hlast he
    obtain ⟨x, hx⟩ : ∃ x, 9 * (a / 10) + a % 10 - 1 = x := ⟨_, rfl⟩
    have hsmall : 1 + 10 * x + e < 2 ^ 64 := by omega
    rw [if_pos he, hx, Nat.mod_eq_of_lt hsmall]
    refine ⟨?_, hsmall⟩
    have hexp : (1 + 10 * x + e - 1) % 10 = e := by omega
    have hquot : (1 + 10 * x + e - 1) / 10 = x := by omega
    have hvalue : (x / 9 * 10 + (x % 9 + 1)) % 2 ^ 64 = a := by omega
    simp only [decompressTxOutAmount, if_neg (show 1 + 10 * x + e ≠ 0 by omega), hexp, hquot, if_pos he, hvalue, hback]
  · obtain rfl : e = 9 := by omega
    have hsmall : 10 + 10 * (a - 1) < 2 ^ 64 := by omega
    rw [if_neg he, Nat.mod_eq_of_lt hsmall]
    refine ⟨?_, hsmall⟩
    have hexp : (10 + 10 * (a - 1) - 1) % 10 = 9 := by omega
    have hquot : (10 + 10 * (a - 1) - 1) / 10 + 1 = a := by omega
    simp only [decompressTxOutAmount, if_neg (show 10 + 10 * (a - 1) ≠ 0 by omega), hexp, hquot, if_neg he, hback]

/-! ## Scripts are read back -/

variable {b : UInt8} {script : Bytes}

theorem deserializeVLQ_small (hb : b.toNat < 128) (bs : Bytes) : deserializeVLQ (b :: bs) = (b.toNat, 1) := by
  have hvalue : (0 * 128 % 2 ^ 64 + b.toNat % 128) % 2 ^ 64 = b.toNat := by omega
  simp only [deserializeVLQ, Vlq.decode, Vlq.decodeFrom, hvalue, if_pos hb]

theorem deserializeVLQ_put {n : Nat} (hn : n < 2 ^ 64) (bs : Bytes) :
    deserializeVLQ (putVLQ n ++ bs) = (n, (putVLQ n).length) := by
  rw [deserializeVLQ, putVLQ, Vlq.decode_encode_append hn, Vlq.length_encode]

theorem take_slice_drop {α : Type} (l : List α) (a n : Nat) : l.take a ++ (l.drop a).take n ++ l.drop (a + n) = l := by
  rw [append_assoc, ← drop_drop, take_append_drop, take_append_drop]

theorem isPubKeyHash_eq_some {hash : Bytes} (h : isPubKeyHash script = some hash) :
    script = ops [OP_DUP, OP_HASH160, OP_DATA_20] ++ hash ++ ops [OP_EQUALVERIFY, OP_CHECKSIG] ∧ hash.length = 20 := by
  simp only [isPubKeyHash, Option.ite_none_right_eq_some, Option.some.injEq] at h
  obtain ⟨⟨hlen, hfront, hback⟩, rfl⟩ := h
  rw [← hfront, ← hback]
  exact ⟨(take_slice_drop script 3 20).symm, by simp [hlen]⟩

theorem isScriptHash_eq_some {hash : Bytes} (h : isScriptHash script = some hash) :
    script = ops [OP_HASH160, OP_DATA_20] ++ hash ++ ops [OP_EQUAL] ∧ hash.length = 20 := by
  simp only [isScriptHash, Option.ite_none_right_eq_some, Option.some.injEq] at h
  obtain ⟨⟨hlen, hfront, hback⟩, rfl⟩ := h
  rw [← hfront, ← hback]
  exact ⟨(take_slice_drop script 2 20).symm, by simp [hlen]⟩

section
variable [Primitives]

theorem isPubKey_eq_some {key : Bytes} (h : isPubKey script = some key) :
    (script = ops [OP_DATA_33] ++ key ++ ops [OP_CHECKSIG] ∧ key.length = 33 ∧ (key.getD 0 0 = 2 ∨ key.getD 0 0 = 3)) ∨
    (script = ops [OP_DATA_65] ++ key ++ ops [OP_CHECKSIG] ∧ key.length = 65 ∧ key.getD 0 0 = 4 ∧
      (parsePubKey key).isSome) := by
  unfold isPubKey at h
  split at h
  · next hshort =>
    obtain ⟨hlen, hfront, hback, hformat, -⟩ := hshort
    rw [Option.some.injEq] at h
    subst h
    refine Or.inl ⟨?_, by simp [hlen], ?_⟩
    · rw [← hfront, ← hback]
      exact (take_slice_drop script 1 33).symm
    · simpa [getD_eq_getElem?_getD, getElem?_take] using hformat
  · split at h
    · next hlong =>
      obtain ⟨hlen, hfront, hback, hformat, hparse⟩ := hlong
      rw [Option.some.injEq] at h
      subst h
      refine Or.inr ⟨?_, by simp [hlen], ?_, hparse⟩
      · rw [← hfront, ← hback]
        exact (take_slice_drop script 1 65).symm
      · simpa [getD_eq_getElem?_getD, getElem?_take] using hformat
    · cases h

/-- A key in the long form can be recovered from its first coordinate and the parity of the second. -/
def KeysRecoverable : Prop := ∀ key : Bytes, key.length = 65 → key.getD 0 0 = 4 →
  (parsePubKey key).isSome → ∃ k, parsePubKey
    ((if key.getD 64 0 &&& 1 = 0 then 2 else 3) :: (key.drop 1).take 32) = some k ∧
      serializeUncompressed k = key

section
omit [Primitives]

theorem special_script {data : Bytes} (hb : b.toNat < 6)
    (hlen : data.length = if b.toNat ≤ 1 then 20 else 32) (rest : Bytes) :
    decodeCompressedScriptSize ((b :: data) ++ rest) = ((b :: data).length : Nat) := by
  simp only [decodeCompressedScriptSize, cons_append, deserializeVLQ_small (show b.toNat < 128 by omega),
    length_cons, hlen]
  split
  · omega
  · split
    · rfl
    · rw [if_pos (by omega)]
      rfl

theorem and_one_cases (y : UInt8) : y &&& 1 = 0 ∨ y &&& 1 = 1 := by
  have hmod : (y &&& 1).toNat = y.toNat % 2 := by
    exact Nat.and_two_pow_sub_one_eq_mod y.toNat 1
  rcases Nat.mod_two_eq_zero_or_one y.toNat with h | h
  · exact Or.inl (UInt8.toNat_inj.1 (hmod.trans h))
  · exact Or.inr (UInt8.toNat_inj.1 (hmod.trans h))

end

def ReadBack (script compressed : Bytes) : Prop :=
  (∀ rest, decodeCompressedScriptSize (compressed ++ rest) = (compressed.length : Nat)) ∧
    decompressScript compressed = script

theorem ReadBack.special {data : Bytes} (hb : b.toNat < 6) (hlen : data.length = if b.toNat ≤ 1 then 20 else 32)
    (h : decompressScript (b :: data) = script) : ReadBack script (b :: data) := ⟨special_script hb hlen, h⟩

theorem readBack_key (hkeys : KeysRecoverable) {key : Bytes} (h : isPubKey script = some key) :
    ReadBack script ((if key.getD 0 0 = 4 then key.getD 0 0 ||| (key.getD 64 0 &&& 1) else key.getD 0 0) ::
      (key.drop 1).take 32) := by
  rcases isPubKey_eq_some h with ⟨rfl, h33, hformat⟩ | ⟨rfl, h65, h4, hparse⟩
  · obtain ⟨b, data, rfl⟩ : ∃ b data, key = b :: data := exists_cons_of_length_pos (by omega)
    have h32 : data.length = 32 := by simpa using h33
    rw [getD_cons_zero] at hformat ⊢
    rw [drop_succ_cons, drop_zero, take_of_length_le (Nat.le_of_eq h32)]
    have hne : b ≠ 4 := by rcases hformat with rfl | rfl <;> decide
    rw [if_neg hne]
    rcases hformat with rfl | rfl
    · exact .special (by decide) h32 (by simp [decompressScript, deserializeVLQ_small, h32])
    · exact .special (by decide) h32 (by simp [decompressScript, deserializeVLQ_small, h32])
  · obtain ⟨k, hk, hserialize⟩ := hkeys key h65 h4 hparse
    have h32 : ((key.drop 1).take 32).length = 32 := by simp [h65]
    rw [if_pos h4, h4]
    rcases and_one_cases (key.getD 64 0) with hy | hy
    · rw [hy, if_pos rfl] at hk
      rw [hy]
      refine .special (by decide) h32 ?_
      simp [decompressScript, deserializeVLQ_small, decompressScript.uncompressed, take_take, -drop_one, hk, hserialize]
    · rw [hy, if_neg (by decide)] at hk
      rw [hy]
      refine .special (by decide) h32 ?_
      simp [decompressScript, deserializeVLQ_small, decompressScript.uncompressed, take_take, -drop_one, hk, hserialize]

theorem readBack_put (hkeys : KeysRecoverable) (hlen : script.length < 2 ^ 62) :
    ReadBack script (putCompressedScript script) := by
  unfold putCompressedScript
  split
  · next hash hhash =>
    obtain ⟨rfl, h20⟩ := isPubKeyHash_eq_some hhash
    exact .special (by decide) h20 (by simp [decompressScript, deserializeVLQ_small, h20])
  · next hash _ hhash =>
    obtain ⟨rfl, h20⟩ := isScriptHash_eq_some hhash
    exact .special (by decide) h20 (by simp [decompressScript, deserializeVLQ_small, h20])
  · next key _ _ hkey => exact readBack_key hkeys hkey
  · have hsize : script.length + numSpecialScripts < 2 ^ 64 := by unfold numSpecialScripts; omega
    have hbytes : (putVLQ (script.length + numSpecialScripts)).length ≠ 0 ∧
        (putVLQ (script.length + numSpecialScripts)).length ≤ 10 := by
      rw [putVLQ, Vlq.length_encode]
      exact ⟨(Vlq.size_pos _).ne', Vlq.size_le _⟩
    refine ⟨fun rest => ?_, ?_⟩
    · rw [append_assoc, length_append]
      simp only [decodeCompressedScriptSize, deserializeVLQ_put hsize, if_neg hbytes.1]
      rw [if_neg (by unfold numSpecialScripts; omega), if_neg (by unfold numSpecialScripts; omega),
        wrap64_of_range (by unfold numSpecialScripts; omega) (by unfold numSpecialScripts at *; omega)]
      push_cast
      ring
    · have hne : putVLQ (script.length + numSpecialScripts) ++ script ≠ [] := by
        intro hnil
        exact hbytes.1 (by rw [(append_eq_nil_iff.1 hnil).1]; rfl)
      simp only [decompressScript, if_neg hne, deserializeVLQ_put hsize, drop_left]
      change script.take (script.length + 6 - 6) = script
      rw [Nat.add_sub_cancel, take_length]

theorem length_putCompressedScript (script : Bytes) :
    (putCompressedScript script).length = compressedScriptSize script := by
  unfold putCompressedScript compressedScriptSize
  split
  · next hash hhash => simp [hhash, (isPubKeyHash_eq_some hhash).2]
  · next hash hno hhash => simp [hno, hhash, (isScriptHash_eq_some hhash).2]
  · next key hno hno' hkey =>
    have h33 : 33 ≤ key.length := by
      rcases isPubKey_eq_some hkey with ⟨-, h, -⟩ | ⟨-, h, -⟩ <;> omega
    simp [hno, hno', hkey]
    omega
  · next hno hno' hno'' => simp [hno, hno', hno'', putVLQ, serializeSizeVLQ]

theorem length_putCompressedTxOut (amount : Nat) (script : Bytes) :
    (putCompressedTxOut amount script).length = compressedTxOutSize amount script := by
  rw [putCompressedTxOut, length_append, length_putCompressedScript, putVLQ, Vlq.length_encode]
  rfl

theorem compressedScriptSize_pos (script : Bytes) : 0 < compressedScriptSize script := by
  have := Vlq.size_pos (script.length + numSpecialScripts)
  unfold compressedScriptSize serializeSizeVLQ
  split_ifs <;> omega

theorem decodeCompressedTxOut_put (hkeys : KeysRecoverable) {amount : Nat} (hamount : amount < 2 ^ 60)
    (hlen : script.length < 2 ^ 62) (rest : Bytes) :
    decodeCompressedTxOut (putCompressedTxOut amount script ++ rest) =
      .ok (amount, script, (putCompressedTxOut amount script).length) := by
  obtain ⟨hback, hcompressed⟩ := decompress_compress hamount
  obtain ⟨hsize, hscript⟩ := readBack_put hkeys hlen
  have hpos : 0 < (putCompressedScript script).length := by
    rw [length_putCompressedScript]
    exact compressedScriptSize_pos script
  simp only [decodeCompressedTxOut, putCompressedTxOut, append_assoc, deserializeVLQ_put hcompressed, drop_left, hsize,
    ok_rules, length_append, Int.toNat_natCast, take_left, hscript, hback, and_true]
  omega

end

end Jaxnetd.Chaindata
