import Jaxnetd.Wire.HeaderCodec
import Jaxnetd.Wire.Message

/-!
# Package `wire`: what the readers accept

The readers of numbers, scripts and transactions without witnesses accept exactly what the writers write, because
a number that could have been written shorter is refused. A header is accepted where its parts are; the length in
front of a chain weight may be any that can be allocated.
-/

namespace Jaxnetd.Wire
open TxScript ChainHash Decoder List

/-! ## Canonical strings -/

theorem canonical_full (n : Nat) : Canonical (readFull n) (fun w => w.length = n) id := by
  intro s w rest hrun
  unfold readFull at hrun
  split_ifs at hrun with hn
  cases hrun
  constructor
  · show (s.take n).length = n
    rw [length_take]
    omega
  · exact (take_append_drop n s).symm

theorem canonical_uint (w : Nat) : Canonical (readUint w) (fun n => n < 256 ^ w) (leBytes w) := by
  intro s n rest hrun
  simp only [readUint, bind_ok, pure_ok] at hrun
  obtain ⟨buf, s', hbuf, rfl, rfl⟩ := hrun
  obtain ⟨hlen, rfl⟩ := canonical_full w s buf s' hbuf
  have hbytes := leBytes_leNat buf
  have hlt := leNat_lt buf
  rw [hlen] at hbytes hlt
  exact ⟨hlt, by rw [hbytes]; rfl⟩

theorem canonical_int {w : Nat} (hw : 0 < w) :
    Canonical (readInt w) (fun x => -2 ^ (8 * w - 1) ≤ x ∧ x < 2 ^ (8 * w - 1)) (intBytes w) := by
  intro s x rest hrun
  simp only [readInt, bind_ok, pure_ok] at hrun
  obtain ⟨n, s', hn, rfl, rfl⟩ := hrun
  obtain ⟨hlt, rfl⟩ := canonical_uint w s n s' hn
  have hpow : (2 : Int) ^ (8 * w) = 2 * 2 ^ (8 * w - 1) := by
    rw [← pow_succ', show 8 * w - 1 + 1 = 8 * w by omega]
  have hpos : 0 < 2 ^ (8 * w) := Nat.two_pow_pos _
  refine ⟨⟨?_, ?_⟩, ?_⟩
  · have := @Int.le_bmod n (2 ^ (8 * w)) hpos
    push_cast at this
    omega
  · have := @Int.bmod_lt n (2 ^ (8 * w)) hpos
    push_cast at this
    omega
  · have hmod : (n : Int).bmod (2 ^ (8 * w)) % ((2 ^ (8 * w) : Nat) : Int) = (n : Int) % ((2 ^ (8 * w) : Nat) : Int) :=
      Int.bmod_emod
    have hsmall : (n : Int) % ((2 ^ (8 * w) : Nat) : Int) = n := by
      rw [show (256 : Nat) = 2 ^ 8 by rfl, ← Nat.pow_mul] at hlt
      exact Int.emod_eq_of_lt (by omega) (by exact_mod_cast hlt)
    rw [hsmall] at hmod
    push_cast at hmod
    rw [intBytes, hmod, Int.toNat_natCast]

theorem canonical_longInt (w min discriminant : Nat) :
    Canonical (readLongInt w min discriminant) (fun n => min ≤ n ∧ n < 256 ^ w) (leBytes w) := by
  intro s n rest hrun
  simp only [readLongInt, bind_ok, failIf_ok, pure_ok] at hrun
  obtain ⟨n, s', hn, _, _, ⟨hmin, rfl⟩, rfl, rfl⟩ := hrun
  obtain ⟨hlt, hs⟩ := canonical_uint w s n s' hn
  exact ⟨⟨Nat.not_lt.1 hmin, hlt⟩, hs⟩

theorem canonical_varInt : Canonical readVarInt (fun n => n < 2 ^ 64) varInt := by
  intro s n rest hrun
  simp only [readVarInt, bind_ok] at hrun
  obtain ⟨d, s', hd, hrun⟩ := hrun
  obtain ⟨hlt, rfl⟩ := canonical_uint 1 s d s' hd
  split_ifs at hrun with h8 h4 h2
  · obtain ⟨⟨hmin, hn⟩, rfl⟩ := canonical_longInt _ _ _ _ _ _ hrun
    refine ⟨by omega, ?_⟩
    rw [varInt, if_neg (by omega), if_neg (by omega), if_neg (by omega), h8]
    rfl
  · obtain ⟨⟨hmin, hn⟩, rfl⟩ := canonical_longInt _ _ _ _ _ _ hrun
    refine ⟨by omega, ?_⟩
    rw [varInt, if_neg (by omega), if_neg (by omega), if_pos (by omega), h4]
    rfl
  · obtain ⟨⟨hmin, hn⟩, rfl⟩ := canonical_longInt _ _ _ _ _ _ hrun
    refine ⟨by omega, ?_⟩
    rw [varInt, if_neg (by omega), if_pos (by omega), h2]
    rfl
  · obtain ⟨rfl, rfl⟩ := pure_ok.1 hrun
    refine ⟨by omega, ?_⟩
    rw [varInt, if_pos (by omega)]

theorem canonical_counted {maxAllowed : Nat} {f fieldName : String} {alloc : Nat → Nat} {r : Reader Bytes} (hr : r = do
      let count ← readVarInt
      checkCount f maxAllowed fieldName count
      makeSlice 1 (alloc count)
      readFull count) :
    Canonical r (fun bs => bs.length ≤ maxAllowed ∧ bs.length < 2 ^ 64) varBytes := by
  subst hr
  intro s bs rest hrun
  simp only [checkCount, makeSlice, bind_ok, failIf_ok] at hrun
  obtain ⟨count, s₁, hcount, _, _, ⟨hmax, rfl⟩, _, _, ⟨-, rfl⟩, hfull⟩ := hrun
  obtain ⟨hlt, rfl⟩ := canonical_varInt _ _ _ hcount
  obtain ⟨rfl, rfl⟩ := canonical_full _ _ _ _ hfull
  exact ⟨⟨Nat.not_lt.1 hmax, hlt⟩, (append_assoc ..).symm⟩

theorem canonical_script (maxAllowed : Nat) (fieldName : String) :
    Canonical (readScript maxAllowed fieldName) (fun bs => bs.length ≤ maxAllowed ∧ bs.length < 2 ^ 64) varBytes :=
  @canonical_counted maxAllowed _ fieldName (fun count => max count 512) _ rfl

theorem canonical_varBytes (maxAllowed : Nat) (fieldName : String) :
    Canonical (readVarBytes maxAllowed fieldName) (fun bs => bs.length ≤ maxAllowed ∧ bs.length < 2 ^ 64) varBytes :=
  @canonical_counted maxAllowed _ fieldName (fun count => count) _ rfl

theorem canonical_txOut : Canonical readTxOut TxOut.InLimits TxOut.write := by
  intro s out rest hrun
  simp only [readTxOut, bind_ok, pure_ok] at hrun
  obtain ⟨value, s₁, hvalue, pkScript, s₂, hscript, rfl, rfl⟩ := hrun
  obtain ⟨⟨hlow, hhigh⟩, rfl⟩ := canonical_int (by decide) _ _ _ hvalue
  obtain ⟨⟨hmax, -⟩, rfl⟩ := canonical_script _ _ _ _ _ hscript
  exact ⟨⟨hlow, hhigh, hmax⟩, (append_assoc ..).symm⟩

variable {H : Type} [ChainHash H] [HashArray H]

theorem canonical_hash : Canonical (readHash : Reader H) (fun _ => True) bytes := by
  intro s h rest hrun
  simp only [readHash, bind_ok, pure_ok] at hrun
  obtain ⟨buf, s', hbuf, rfl, rfl⟩ := hrun
  obtain ⟨hlen, rfl⟩ := canonical_full _ _ _ _ hbuf
  exact ⟨trivial, by rw [HashArray.bytes_ofBytes hlen]; rfl⟩

theorem canonical_txIn : Canonical (readTxIn : Reader (TxIn H))
    (fun txIn => txIn.InLimits ∧ txIn.witness = []) TxIn.write := by
  intro s txIn rest hrun
  simp only [readTxIn, readOutPoint, bind_ok, pure_ok] at hrun
  obtain ⟨_, _, ⟨hash, s₁, hhash, index, s₂, hindex, rfl, rfl⟩, script, s₃, hscript, sequence, s₄, hsequence, rfl, rfl⟩ :=
    hrun
  obtain ⟨-, rfl⟩ := canonical_hash _ _ _ hhash
  obtain ⟨hi, rfl⟩ := canonical_uint _ _ _ _ hindex
  obtain ⟨⟨hmax, -⟩, rfl⟩ := canonical_script _ _ _ _ _ hscript
  obtain ⟨hs, rfl⟩ := canonical_uint _ _ _ _ hsequence
  refine ⟨⟨⟨by omega, hmax, Nat.zero_le _, (fun _ hw => nomatch hw), by omega⟩, rfl⟩, ?_⟩
  simp [TxIn.write, OutPoint.write]

def MsgTx.Plain (tx : MsgTx H) : Prop := tx.InLimits ∧ tx.txIn.map TxIn.stripWitness = tx.txIn

theorem canonical_txWitness : Canonical readTxWitness (fun _ => True) writeTxWitness := by
  intro s wit rest hrun
  simp only [readTxWitness, makeSlice, bind_ok, failIf_ok] at hrun
  obtain ⟨count, s₁, hcount, _, _, ⟨-, rfl⟩, _, _, ⟨-, rfl⟩, hitems⟩ := hrun
  obtain ⟨-, rfl⟩ := canonical_varInt _ _ _ hcount
  obtain ⟨⟨rfl, -⟩, rfl⟩ := (canonical_script _ _).repeatN count _ _ _ hitems
  exact ⟨trivial, (append_assoc ..).symm⟩

omit [ChainHash H] [HashArray H] in
theorem moveScripts_ok {tx tx' : MsgTx H} {s rest : Bytes} (hrun : tx.moveScripts s = .ok (tx', rest)) :
    (tx.scripts.map length).sum ≤ maxAlloc ∧ tx' = tx ∧ rest = s := by
  obtain ⟨_, _, hmake, -⟩ := bind_ok.1 hrun
  have hsize := (failIf_ok.1 hmake).1
  rw [Nat.one_mul, Nat.not_lt] at hsize
  have hmove : tx.moveScripts s = .ok (tx, s) := reads_moveScripts hsize s
  rw [hrun, Except.ok.injEq, Prod.mk.injEq] at hmove
  exact ⟨hsize, hmove⟩

theorem canonical_tx : Canonical (MsgTx.btcDecode false : Reader (MsgTx H)) MsgTx.Plain fun tx => tx.btcEncode false := by
  intro s tx rest hrun
  simp only [MsgTx.btcDecode, readFlag, MsgTx.readBody, readWitnesses, makeSlice, bind_ok, failIf_ok, pure_ok,
    Bool.false_eq_true, and_false, if_false] at hrun
  obtain ⟨version, s₁, hversion, count, s₂, hcount, _, _, ⟨rfl, rfl⟩, _, _, ⟨hin, rfl⟩, _, _, ⟨-, rfl⟩, _, _, ⟨-, rfl⟩,
    txIn, s₃, hins, count', s₄, hcount', _, _, ⟨hout, rfl⟩, _, _, ⟨-, rfl⟩, _, _, ⟨-, rfl⟩, txOut, s₅, houts, _, _,
    ⟨rfl, rfl⟩, lockTime, s₆, hlock, hmove⟩ := hrun
  obtain ⟨hbuffer, rfl, rfl⟩ := moveScripts_ok hmove
  obtain ⟨⟨hlow, hhigh⟩, rfl⟩ := canonical_int (by decide) _ _ _ hversion
  obtain ⟨-, rfl⟩ := canonical_varInt _ _ _ hcount
  obtain ⟨⟨rfl, hin'⟩, rfl⟩ := canonical_txIn.repeatN _ _ _ _ hins
  obtain ⟨-, rfl⟩ := canonical_varInt _ _ _ hcount'
  obtain ⟨⟨rfl, hout'⟩, rfl⟩ := canonical_txOut.repeatN _ _ _ _ houts
  obtain ⟨hlt, rfl⟩ := canonical_uint _ _ _ _ hlock
  refine ⟨⟨⟨hlow, hhigh, Nat.not_lt.1 hin, fun i hi => (hin' i hi).1, Nat.not_lt.1 hout, hout', hlt, hbuffer⟩, ?_⟩, ?_⟩
  · conv_rhs => rw [← map_id txIn]
    refine map_congr_left fun i hi => ?_
    rw [TxIn.stripWitness, ← (hin' i hi).2, id]
  · simp [MsgTx.btcEncode_eq, MsgTx.writeBody]

theorem canonical_slice : Canonical readSlice (fun bs => bs.length < 2 ^ 32) writeSlice := by
  intro s bs rest hrun
  simp only [readSlice, makeSlice, bind_ok, failIf_ok] at hrun
  obtain ⟨count, s₁, hcount, _, _, ⟨-, rfl⟩, hfull⟩ := hrun
  obtain ⟨hlt, rfl⟩ := canonical_uint _ _ _ _ hcount
  obtain ⟨rfl, rfl⟩ := canonical_full _ _ _ _ hfull
  exact ⟨by omega, (append_assoc ..).symm⟩

/-! ## Formats -/

def anyBytes (n : Nat) : Language UInt8 := {w | w.length = n}

def anyVarInt : Language UInt8 := written (fun n => n < 2 ^ 64) varInt

def anySlice : Language UInt8 := written (fun bs => bs.length < 2 ^ 32) writeSlice

def counted (elemSize : Nat) (L : Nat → Language UInt8) : Language UInt8 :=
  {w | ∃ n v, n < 2 ^ 64 ∧ elemSize * n ≤ maxAlloc ∧ v ∈ L n ∧ w = varInt n ++ v}

def tooLarge (elemSize : Nat) : Language UInt8 :=
  {w | ∃ n v, n < 2 ^ 64 ∧ maxAlloc < elemSize * n ∧ w = varInt n ++ v}

/-- A chain weight: the length read first only has to be one that can be allocated. -/
def anyBigInt : Language UInt8 := counted 1 fun _ => anySlice

def anyHashes : Language UInt8 := counted 32 fun n => anyBytes 32 ^ n

def plainTx (H : Type) [ChainHash H] : Language UInt8 := written MsgTx.Plain fun tx : MsgTx H => tx.btcEncode false

theorem accepts_full (n : Nat) : Accepts (readFull n) (anyBytes n) := by
  intro s rest
  constructor
  · rintro ⟨w, hrun⟩
    obtain ⟨hlen, hs⟩ := canonical_full n s w rest hrun
    exact ⟨w, hlen, hs⟩
  · rintro ⟨w, hlen, rfl⟩
    exact ⟨w, reads_full hlen rest⟩

theorem accepts_varInt : Accepts readVarInt anyVarInt := canonical_varInt.accepts fun _ h => reads_varInt h

theorem accepts_slice : Accepts readSlice anySlice := canonical_slice.accepts fun _ h => reads_slice h

theorem accepts_tx : Accepts (MsgTx.btcDecode false : Reader (MsgTx H)) (plainTx H) :=
  canonical_tx.accepts fun _ h => reads_btcDecode h.1 (fun hwe => Bool.noConfusion hwe) fun _ => h.2

theorem anyBytes_mul (m n : Nat) : anyBytes m * anyBytes n = anyBytes (m + n) := by
  ext w
  constructor
  · rintro ⟨a, ha, b, hb, rfl⟩
    show (a ++ b).length = m + n
    rw [length_append, show a.length = m from ha, show b.length = n from hb]
  · intro hw
    have hlen : w.length = m + n := hw
    refine ⟨w.take m, ?_, w.drop m, ?_, take_append_drop m w⟩
    · show (w.take m).length = m
      rw [length_take]
      omega
    · show (w.drop m).length = n
      rw [length_drop]
      omega

end Jaxnetd.Wire
