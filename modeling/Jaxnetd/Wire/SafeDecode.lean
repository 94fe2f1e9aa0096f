import Jaxnetd.Wire.Grammar

/-!
# Package `wire`: when reading ends in a panic

Transactions are read without a panic: each count in them is compared with a bound, and the buffer for the scripts
is no longer than the message. The counts in front of a chain weight, of an array of hashes and of the addresses of
an exchange agent go to `make` as they are read.
-/

namespace Jaxnetd.Wire
open TxScript ChainHash Decoder List

abbrev Safe {α : Type} (N : Nat) (r : Reader α) : Prop := Tame WireError.IsPanic N r

/-- The accepted strings, and those up to length `N` that end in a panic. -/
abbrev Splits {α : Type} (N : Nat) (r : Reader α) (L S : Language UInt8) : Prop := Parses WireError.IsPanic N r L S

variable {H α β : Type} {N : Nat} {L S : Language UInt8}

/-! ## Elements -/

theorem not_isPanic_message {f description : String} : ¬(WireError.message f description).IsPanic := by
  rintro ⟨_, h⟩
  cases h

variable {elemSize : Nat} {r : Reader α} {f : Nat → Reader α}

theorem safe_make {n : Nat} (h : elemSize * n ≤ maxAlloc) (hr : Safe N r) :
    Safe N (makeSlice elemSize n >>= fun _ => r) := by
  unfold makeSlice
  rw [Decoder.failIf, if_neg (Nat.not_lt.2 h)]
  exact hr

theorem safe_full (n : Nat) : Safe N (readFull n) := by
  intro s _
  rw [readFull]
  by_cases hn : n ≤ s.length
  · simp [hn]
  · rw [if_neg hn]
    rintro ⟨text, h⟩
    split_ifs at h

variable (w : Nat)

theorem safe_uint : Safe N (readUint w) := (safe_full w).bind fun _ => Tame.pure _

theorem safe_int : Safe N (readInt w) := (safe_uint w).bind fun _ => Tame.pure _

theorem safe_longInt (w min discriminant : Nat) : Safe N (readLongInt w min discriminant) :=
  (safe_uint w).bind fun rv => Tame.guard not_isPanic_message fun _ => Tame.pure rv

theorem safe_varInt : Safe N readVarInt := by
  refine (safe_uint 1).bind fun discriminant => ?_
  split_ifs
  · exact safe_longInt 8 _ _
  · exact safe_longInt 4 _ _
  · exact safe_longInt 2 _ _
  · exact Tame.pure discriminant

theorem safe_script {maxAllowed : Nat} {fieldName : String} (h : maxAllowed ≤ maxMessagePayload) :
    Safe N (readScript maxAllowed fieldName) := by
  refine safe_varInt.bind fun count => ?_
  refine Tame.guard not_isPanic_message fun hcount => safe_make ?_ (safe_full count)
  unfold maxMessagePayload at h
  unfold maxAlloc
  omega

theorem safe_varBytes {maxAllowed : Nat} {fieldName : String} (h : maxAllowed ≤ maxMessagePayload) :
    Safe N (readVarBytes maxAllowed fieldName) := by
  refine safe_varInt.bind fun count => ?_
  refine Tame.guard not_isPanic_message fun hcount => safe_make ?_ (safe_full count)
  unfold maxMessagePayload at h
  unfold maxAlloc
  omega

theorem splits_full (n : Nat) : Splits N (readFull n) (anyBytes n) 0 := ⟨accepts_full n, (safe_full n).failsOn⟩

theorem splits_uint : Splits N (readUint w) (anyBytes w) 0 := (splits_full w).last

theorem splits_int : Splits N (readInt w) (anyBytes w) 0 := (splits_uint w).last

theorem splits_varInt : Splits N readVarInt anyVarInt 0 := ⟨accepts_varInt, safe_varInt.failsOn⟩

theorem splits_slice : Splits N readSlice anySlice 0 := by
  refine ⟨accepts_slice, Tame.failsOn ?_⟩
  refine (safe_uint 4).thenWritten (canonical_uint 4) fun length _ hlength _ => safe_make ?_ (safe_full length)
  unfold maxAlloc
  omega

/-- A count that goes to `make` as it is read. -/
theorem failsOn_counted (h : ∀ n, Safe N (f n)) : FailsOn WireError.IsPanic N (do
      let n ← readVarInt
      makeSlice elemSize n
      f n) (tooLarge elemSize) := by
  intro s hs
  constructor
  · rintro ⟨e, hrun, hpanic⟩
    simp only [makeSlice, bind_error, failIf_error, failIf_ok] at hrun
    rcases hrun with hcount | ⟨n, s', hn, ⟨hsize, -⟩ | ⟨_, _, ⟨-, rfl⟩, hf⟩⟩
    · exact absurd ((safe_varInt.failsOn s hs).1 ⟨e, hcount, hpanic⟩) (Language.notMem_zero s)
    · obtain ⟨hlt, rfl⟩ := canonical_varInt _ _ _ hn
      exact ⟨n, s', hlt, hsize, rfl⟩
    · have hs' := safe_varInt.left hs hn
      exact absurd (((h n).failsOn s' (by omega)).1 ⟨e, hf, hpanic⟩) (Language.notMem_zero s')
  · rintro ⟨n, v, hlt, hsize, rfl⟩
    have hmake : makeSlice elemSize n v = .error (.panic "runtime error: makeslice: len out of range") :=
      failIf_error.2 ⟨hsize, rfl⟩
    exact ⟨_, bind_error.2 (.inr ⟨n, v, reads_varInt hlt v, bind_error.2 (.inl hmake)⟩), _, rfl⟩

theorem splits_counted {L : Nat → Language UInt8} (h : ∀ n, Splits N (f n) (L n) 0) : Splits N (do
      let n ← readVarInt
      makeSlice elemSize n
      f n) (counted elemSize L) (tooLarge elemSize) := by
  refine ⟨fun s rest => ⟨?_, ?_⟩, failsOn_counted fun n => (h n).tame⟩
  · rintro ⟨a, hrun⟩
    simp only [makeSlice, bind_ok, failIf_ok] at hrun
    obtain ⟨n, s', hn, _, _, ⟨hsize, rfl⟩, hf⟩ := hrun
    obtain ⟨hlt, rfl⟩ := canonical_varInt _ _ _ hn
    obtain ⟨v, hv, rfl⟩ := ((h n).accepts s' rest).1 ⟨a, hf⟩
    exact ⟨varInt n ++ v, ⟨n, v, hlt, Nat.not_lt.1 hsize, hv, rfl⟩, (append_assoc ..).symm⟩
  · rintro ⟨_, ⟨n, v, hlt, hsize, hv, rfl⟩, rfl⟩
    obtain ⟨a, hf⟩ := ((h n).accepts (v ++ rest) rest).2 ⟨v, hv, rfl⟩
    refine ⟨a, ?_⟩
    simp only [makeSlice, bind_ok, failIf_ok, append_assoc]
    exact ⟨n, v ++ rest, reads_varInt hlt _, (), v ++ rest, ⟨Nat.not_lt.2 hsize, rfl⟩, hf⟩

/-- A field of a fixed size in front of others. -/
theorem splits_field {n m : Nat} {f : α → Reader β} (h : Splits N r (anyBytes n) 0)
    (h' : ∀ a, Splits N (f a) (anyBytes m * L) (anyBytes m * S)) :
    Splits N (r >>= f) (anyBytes (m + n) * L) (anyBytes (m + n) * S) := by
  simpa only [Nat.add_comm m n, ← anyBytes_mul, mul_assoc] using h.after h'

/-! ## Transactions -/

theorem safe_txOut : Safe N readTxOut := by
  refine (safe_int 8).bind fun value => ?_
  refine (safe_script (Nat.le_refl _)).bind fun pkScript => ?_
  exact Tame.pure _

theorem safe_txWitness : Safe N readTxWitness := by
  refine safe_varInt.bind fun count => ?_
  refine Tame.guard not_isPanic_message fun hcount => safe_make ?_ ?_
  · unfold maxWitnessItemsPerInput at hcount
    unfold maxAlloc
    omega
  · exact (safe_script (by decide)).repeatN count

def giveWitnesses (txIns : List (TxIn H)) (witnesses : List (List Bytes)) : List (TxIn H) :=
  txIns.zipWith (fun txIn witness => { txIn with witness }) witnesses

theorem witnesses_le (txIns : List (TxIn H)) : (txIns.map fun txIn => (txIn.witness.map List.length).sum).sum ≤
      (txIns.flatMap fun txIn => writeTxWitness txIn.witness).length := by
  rw [length_flatMap]
  refine sum_le_sum fun txIn _ => ?_
  have hitems : (txIn.witness.map List.length).sum ≤ (txIn.witness.flatMap varBytes).length := by
    rw [length_flatMap]
    refine sum_le_sum fun item _ => ?_
    rw [length_varBytes]
    exact Nat.le_add_left _ _
  rw [writeTxWitness, length_append]
  exact hitems.trans (Nat.le_add_left _ _)

section
variable [ChainHash H]

theorem scripts_le (tx : MsgTx H) : (tx.scripts.map List.length).sum ≤ (tx.txIn.flatMap TxIn.write).length +
      (tx.txIn.map fun txIn => (txIn.witness.map List.length).sum).sum + (tx.txOut.flatMap TxOut.write).length := by
  have hins : ((tx.txIn.flatMap fun txIn => txIn.signatureScript :: txIn.witness).map List.length).sum ≤
      (tx.txIn.flatMap TxIn.write).length + (tx.txIn.map fun txIn => (txIn.witness.map List.length).sum).sum := by
    rw [length_flatMap, ← sum_map_add, map_flatMap, flatMap_def, sum_flatten, map_map]
    refine sum_le_sum fun txIn _ => ?_
    simp only [Function.comp, map_cons, sum_cons, TxIn.write, length_varBytes, length_append]
    omega
  have houts : ((tx.txOut.map TxOut.pkScript).map List.length).sum ≤ (tx.txOut.flatMap TxOut.write).length := by
    rw [length_flatMap, map_map]
    refine sum_le_sum fun out _ => ?_
    simp only [Function.comp, TxOut.write, length_varBytes, length_append]
    omega
  rw [MsgTx.scripts, map_append, sum_append]
  omega

theorem canonical_witnesses (flag : Bool) (txIns : List (TxIn H)) : Canonical (readWitnesses flag txIns)
      (fun txIns' => txIns'.flatMap TxIn.write = txIns.flatMap TxIn.write ∧ (flag = false → txIns' = txIns))
      fun txIns' => if flag then txIns'.flatMap fun txIn => writeTxWitness txIn.witness else [] := by
  intro s txIns' rest hrun
  cases flag with
  | false =>
    obtain ⟨rfl, rfl⟩ := pure_ok.1 hrun
    exact ⟨⟨rfl, fun _ => rfl⟩, rfl⟩
  | true =>
    simp only [readWitnesses, if_true, bind_ok, pure_ok] at hrun
    obtain ⟨witnesses, s', hwitnesses, rfl, rfl⟩ := hrun
    obtain ⟨⟨hlen, -⟩, rfl⟩ := canonical_txWitness.repeatN _ _ _ _ hwitnesses
    have hzip : ∀ (txIns : List (TxIn H)) (witnesses : List (List Bytes)), witnesses.length = txIns.length →
        (giveWitnesses txIns witnesses).flatMap TxIn.write = txIns.flatMap TxIn.write ∧
          witnesses.flatMap writeTxWitness =
            (giveWitnesses txIns witnesses).flatMap fun txIn => writeTxWitness txIn.witness := by
      intro txIns witnesses hlen
      induction txIns generalizing witnesses with
      | nil =>
        rw [length_eq_zero_iff.1 hlen]
        exact ⟨rfl, rfl⟩
      | cons txIn txIns ih =>
        cases witnesses with
        | nil => cases hlen
        | cons witness witnesses =>
          obtain ⟨hwrite, hwit⟩ := ih witnesses (Nat.succ.inj hlen)
          rw [flatMap_cons, flatMap_cons, hwit, ← hwrite]
          exact ⟨rfl, rfl⟩
    obtain ⟨hwrite, hwit⟩ := hzip txIns witnesses hlen
    refine ⟨⟨hwrite, fun h => Bool.noConfusion h⟩, ?_⟩
    show witnesses.flatMap writeTxWitness ++ s' = _
    rw [hwit]
    rfl

omit [ChainHash H] in
theorem safe_witnesses (flag : Bool) (txIns : List (TxIn H)) : Safe N (readWitnesses flag txIns) := by
  unfold readWitnesses
  split
  · exact (safe_txWitness.repeatN _).bind fun _ => Tame.pure _
  · exact Tame.pure _

variable [HashArray H]

theorem safe_hash : Safe N (readHash : Reader H) := (safe_full 32).bind fun _ => Tame.pure _

theorem safe_txIn : Safe N (readTxIn : Reader (TxIn H)) := by
  have hpoint : Safe N (readOutPoint : Reader (OutPoint H)) :=
    safe_hash.bind fun _ => (safe_uint 4).bind fun _ => Tame.pure _
  refine hpoint.bind fun _ => ?_
  refine (safe_script (Nat.le_refl _)).bind fun _ => ?_
  exact (safe_uint 4).bind fun _ => Tame.pure _

omit [ChainHash H] [HashArray H] in
theorem safe_moveScripts {tx : MsgTx H} (h : (tx.scripts.map List.length).sum ≤ maxAlloc) : Safe N tx.moveScripts := by
  intro s _
  have hmove : tx.moveScripts s = .ok (tx, s) := reads_moveScripts h s
  rw [hmove]

theorem safe_readBody (hN : N ≤ maxAlloc) (version : Int) (flag : Bool) (count : Nat) :
    Safe N (MsgTx.readBody version flag count : Reader (MsgTx H)) := by
  have hmax : maxTxInPerMessage = 19182 ∧ maxTxOutPerMessage = 87382 := by decide
  refine Tame.guard not_isPanic_message fun hin => ?_
  refine safe_make (by unfold maxAlloc; omega) (safe_make (by unfold maxAlloc; omega) ?_)
  refine (safe_txIn.repeatN count).thenWritten (canonical_txIn.repeatN count) fun txIn n htxIn hlen => ?_
  refine safe_varInt.bind fun count' => ?_
  refine Tame.guard not_isPanic_message fun hout => ?_
  refine safe_make (by unfold maxAlloc; omega) (safe_make (by unfold maxAlloc; omega) ?_)
  refine (safe_txOut.repeatN count').thenWritten (canonical_txOut.repeatN count') fun txOut n' _ hlen' => ?_
  refine (safe_witnesses flag txIn).thenWritten (canonical_witnesses flag txIn) fun txIn' n'' htxIn' hlen'' => ?_
  refine (safe_uint 4).bind fun lockTime => safe_moveScripts ?_
  -- the scripts are part of what was read before
  have hscripts : ((MsgTx.mk version txIn' txOut lockTime).scripts.map List.length).sum ≤
      (txIn'.flatMap TxIn.write).length + (txIn'.map fun txIn => (txIn.witness.map List.length).sum).sum +
        (txOut.flatMap TxOut.write).length := scripts_le _
  have hwitness : (txIn'.map fun txIn => (txIn.witness.map List.length).sum).sum ≤
      (if flag then txIn'.flatMap fun txIn => writeTxWitness txIn.witness else []).length := by
    cases flag with
    | true => exact witnesses_le txIn'
    | false =>
      rw [htxIn'.2 rfl]
      refine Nat.le_of_eq (sum_eq_zero fun n hn => ?_)
      obtain ⟨txIn, hmem, rfl⟩ := mem_map.1 hn
      rw [(htxIn.2 txIn hmem).2]
      rfl
  rw [htxIn'.1] at hscripts
  omega

theorem safe_btcDecode (hN : N ≤ maxAlloc) (witnessEncoding : Bool) :
    Safe N (MsgTx.btcDecode witnessEncoding : Reader (MsgTx H)) := by
  refine (safe_int 4).bind fun version => ?_
  refine safe_varInt.bind fun count => ?_
  have hflag : Safe N (readFlag witnessEncoding count) := by
    unfold readFlag
    split_ifs
    · refine (safe_full 1).bind fun flag => ?_
      refine Tame.guard not_isPanic_message fun _ => ?_
      exact safe_varInt.bind fun _ => Tame.pure _
    · exact Tame.pure _
  exact hflag.bind fun r => safe_readBody hN version r.1 r.2

/-! ## Headers -/

theorem splits_hash : Splits N (readHash : Reader H) (anyBytes 32) 0 := (splits_full 32).last

theorem splits_bigInt : Splits N readBigInt anyBigInt (tooLarge 1) := splits_counted fun _ => splits_slice.last

theorem splits_hashArray : Splits N (readHashArray : Reader (List H)) anyHashes (tooLarge 32) :=
  splits_counted fun n => splits_hash.repeatN n

variable (H)

def coinbaseOverflow : Language UInt8 := plainTx H * tooLarge 32

def beaconFields : Language UInt8 := anyBytes 156 * (anySlice * anyBytes 4)

def beaconBody : Language UInt8 :=
  beaconFields * (anyBigInt * (anyHashes * (anyBytes 80 * (plainTx H * anyHashes))))

/-- In a beacon header: the chain weight, the merge-mining proof or the proof of the BTC coinbase is too large. -/
def beaconOverflow : Language UInt8 :=
  beaconFields * (tooLarge 1 + anyBigInt * (tooLarge 32 + anyHashes * (anyBytes 80 * coinbaseOverflow H)))

def shardBody : Language UInt8 :=
  anyBytes 104 * (anyBigInt * (anyHashes * ({[beaconMagicByte]} * beaconBody H * (plainTx H * anyHashes))))

/-- In a shard header: the chain weight, the shard proof, something in the beacon header or the proof of the beacon
coinbase is too large. -/
def shardOverflow : Language UInt8 :=
  anyBytes 104 * (tooLarge 1 + anyBigInt * (tooLarge 32 + anyHashes *
    ({[beaconMagicByte]} * (beaconOverflow H + beaconBody H * coinbaseOverflow H))))

def headerOverflow : Language UInt8 := {[beaconMagicByte]} * beaconOverflow H + {[shardMagic]} * shardOverflow H

variable {H}

theorem splits_coinbaseAux (hN : N ≤ maxAlloc) :
    Splits N (readCoinbaseAux : Reader (CoinbaseAux H)) (plainTx H * anyHashes) (coinbaseOverflow H) := by
  have htx : Splits N (MsgTx.btcDecode false : Reader (MsgTx H)) (plainTx H) 0 :=
    ⟨accepts_tx, (safe_btcDecode hN false).failsOn⟩
  exact htx.after fun tx => splits_hashArray.last

theorem splits_btcBlockHeader (hN : N ≤ maxAlloc) : Splits N (readBTCBlockHeader : Reader (BTCBlockAux H))
    (anyBytes 80 * (plainTx H * anyHashes)) (anyBytes 80 * coinbaseOverflow H) := by
  refine splits_field (splits_int 4) fun _ => splits_field splits_hash fun _ => splits_field splits_hash fun _ => ?_
  refine splits_field (splits_uint 4) fun _ => splits_field (splits_uint 4) fun _ => (splits_uint 4).after fun _ => ?_
  exact (splits_coinbaseAux hN).last

theorem splits_beaconBody (hN : N ≤ maxAlloc) :
    Splits N (readBeaconBody : Reader (BeaconHeader H)) (beaconBody H) (beaconOverflow H) := by
  simp only [beaconBody, beaconOverflow, beaconFields, mul_assoc]
  refine splits_field (splits_int 4) fun _ => splits_field (splits_int 4) fun _ => splits_field splits_hash fun _ => ?_
  refine splits_field splits_hash fun _ => splits_field splits_hash fun _ => splits_field splits_hash fun _ => ?_
  refine splits_field (splits_uint 4) fun _ => splits_field (splits_uint 4) fun _ => splits_field (splits_uint 4) fun _ => ?_
  refine splits_field (splits_uint 4) fun _ => (splits_uint 4).after fun _ => splits_slice.after fun _ => ?_
  refine (splits_uint 4).after fun _ => splits_bigInt.bind fun _ => splits_hashArray.bind fun _ => ?_
  exact (splits_btcBlockHeader hN).last

omit [ChainHash H] [HashArray H] in
theorem splits_magic (magic : UInt8) (expected : String) : Splits N (readMagic magic expected) {[magic]} 0 := by
  constructor
  · intro s rest
    constructor
    · rintro ⟨_, hrun⟩
      simp only [readMagic, bind_ok, failIf_ok, not_not] at hrun
      obtain ⟨_, _, hfull, rfl, rfl⟩ := hrun
      exact ⟨[magic], rfl, (canonical_full 1 _ _ _ hfull).2⟩
    · rintro ⟨_, rfl, rfl⟩
      exact ⟨(), reads_magic magic expected rest⟩
  · refine ((safe_full 1).bind fun _ => Tame.failIf ?_).failsOn
    rintro ⟨_, h⟩
    cases h

theorem splits_beaconBlockHeader (hN : N ≤ maxAlloc) : Splits N (readBeaconBlockHeader : Reader (BeaconHeader H))
    ({[beaconMagicByte]} * beaconBody H) ({[beaconMagicByte]} * beaconOverflow H) :=
  (splits_magic _ _).after fun _ => splits_beaconBody hN

theorem splits_shardBlockHeader (hN : N ≤ maxAlloc) : Splits N (readShardBlockHeader : Reader (ShardHeader H))
    ({[shardMagic]} * shardBody H) ({[shardMagic]} * shardOverflow H) := by
  refine (splits_magic _ _).after fun _ => ?_
  rw [shardBody, shardOverflow, mul_add {[beaconMagicByte]}, ← mul_assoc {[beaconMagicByte]}]
  refine splits_field (splits_int 4) fun _ => splits_field splits_hash fun _ => splits_field splits_hash fun _ => ?_
  refine splits_field splits_hash fun _ => (splits_uint 4).after fun _ => splits_bigInt.bind fun _ => ?_
  refine splits_hashArray.bind fun _ => (splits_beaconBlockHeader hN).bind fun _ => ?_
  exact (splits_coinbaseAux hN).last

/-- The magic byte selects one of the two readers. -/
theorem decodeHeader_iff (s rest : Bytes) : ((∃ h, (decodeHeader : Reader (BlockHeader H)) s = .ok (h, rest)) ↔
      (∃ h, (readBeaconBlockHeader : Reader (BeaconHeader H)) s = .ok (h, rest)) ∨
        ∃ h, (readShardBlockHeader : Reader (ShardHeader H)) s = .ok (h, rest)) ∧
    ((∃ e, (decodeHeader : Reader (BlockHeader H)) s = .error e ∧ e.IsPanic) ↔
      (∃ e, (readBeaconBlockHeader : Reader (BeaconHeader H)) s = .error e ∧ e.IsPanic) ∨
        ∃ e, (readShardBlockHeader : Reader (ShardHeader H)) s = .error e ∧ e.IsPanic) := by
  cases s with
  | nil => simp [decodeHeader, readBeaconBlockHeader, readShardBlockHeader, readMagic, readFull, bind_error, bind_ok]
  | cons magic s =>
    have hfull : readFull 1 (magic :: s) = .ok ([magic], s) := by simp [readFull]
    have hother : ∀ text, ¬(WireError.other text).IsPanic := by
      rintro _ ⟨_, h⟩
      cases h
    simp only [decodeHeader, readBeaconBlockHeader, readShardBlockHeader, readMagic, bind_error, bind_ok, hfull,
      failIf_error, failIf_ok, Except.ok.injEq, Prod.mk.injEq, reduceCtorEq, false_or]
    by_cases hbeacon : magic = beaconMagicByte
    · subst hbeacon
      have hshard : [beaconMagicByte] ≠ [shardMagic] := by decide
      simp [hshard, hother, bind_error, bind_ok, pure_run]
    · by_cases hshard : magic = shardMagic
      · subst hshard
        simp [hbeacon, hother, bind_error, bind_ok, pure_run]
      · simp [hbeacon, hshard, hother, Decoder.fail]

theorem splits_decodeHeader (hN : N ≤ maxAlloc) : Splits N (decodeHeader : Reader (BlockHeader H))
    ({[beaconMagicByte]} * beaconBody H + {[shardMagic]} * shardBody H) (headerOverflow H) := by
  constructor
  · intro s rest
    rw [(decodeHeader_iff s rest).1, (splits_beaconBlockHeader hN).accepts, (splits_shardBlockHeader hN).accepts]
    simp only [Language.mem_add, or_and_right, exists_or]
  · intro s hs
    rw [(decodeHeader_iff s []).2, (splits_beaconBlockHeader hN).fails s hs, (splits_shardBlockHeader hN).fails s hs]
    rfl

theorem splits_readHeader (hN : N ≤ maxAlloc) (header : Option (BlockHeader H)) :
    ∃ L, Splits N (readHeader header) L (match header with
      | none => headerOverflow H
      | some (.beacon _) => {[beaconMagicByte]} * beaconOverflow H
      | some (.shard _) => {[shardMagic]} * shardOverflow H) := by
  match header with
  | none => exact ⟨_, splits_decodeHeader hN⟩
  | some (.beacon _) => exact ⟨_, (splits_beaconBlockHeader hN).last⟩
  | some (.shard _) => exact ⟨_, (splits_shardBlockHeader hN).last⟩

/-! ## Messages -/

theorem failsOn_block (hN : N ≤ maxAlloc) {header : Option (BlockHeader H)} (h : Splits N (readHeader header) L S)
    (witnessEncoding : Bool) : FailsOn WireError.IsPanic N (MsgBlock.btcDecode header witnessEncoding) S := by
  refine h.thenTame fun _ => safe_varInt.bind fun txCount => ?_
  refine Tame.guard not_isPanic_message fun hcount => safe_make ?_ ?_
  · have hmax : maxTxPerBlock = 78644 := by decide
    unfold maxAlloc
    omega
  · exact ((safe_btcDecode hN witnessEncoding).repeatN txCount).bind fun _ => Tame.pure _

theorem safe_address : Safe N (EADAddress.btcDecode : Reader (EADAddress H)) := by
  refine (safe_uint 4).bind fun _ => (safe_uint 4).bind fun _ => safe_hash.bind fun _ => (safe_uint 4).bind fun _ => ?_
  refine (safe_int 8).bind fun _ => (safe_uint 1).bind fun _ => ?_
  split_ifs
  · exact (safe_full 16).bind fun _ => Tame.pure _
  · exact (safe_varBytes (by decide)).bind fun _ => Tame.pure _

def eadOverflow : Language UInt8 :=
  anyVarInt * (written (fun bs => bs.length ≤ 65 * 2 ∧ bs.length < 2 ^ 64) varBytes * tooLarge 96)

theorem failsOn_addresses : FailsOn WireError.IsPanic N (EADAddresses.btcDecode : Reader (EADAddresses H)) eadOverflow := by
  have hkey : Splits N (readVarBytes (65 * 2) "OwnerPubKey")
      (written (fun bs => bs.length ≤ 65 * 2 ∧ bs.length < 2 ^ 64) varBytes) 0 := by
    refine ⟨(canonical_varBytes _ _).accepts fun bs ⟨hmax, hlt⟩ => (reads_varInt hlt).bind ?_,
      (safe_varBytes (by decide)).failsOn⟩
    refine (Reads.failIf (Nat.not_lt.2 hmax)).step ((reads_make ?_).step (reads_full rfl))
    unfold maxAlloc
    omega
  have hfails : FailsOn WireError.IsPanic N (EADAddresses.btcDecode : Reader (EADAddresses H))
      (0 + anyVarInt * (0 + _ * tooLarge 96)) :=
    splits_varInt.thenFails fun _ => hkey.thenFails fun _ =>
      failsOn_counted fun n => (safe_address.repeatN n).bind fun _ => Tame.pure _
  rwa [zero_add, zero_add] at hfails

def NoPanic {α : Type} (r : Reader α) (s : Bytes) : Prop := ∀ e, r s = .error e → ¬e.IsPanic

theorem noPanic_iff {S : Language UInt8} (h : FailsOn WireError.IsPanic N r S) {s : Bytes}
    (hs : s.length ≤ N) : NoPanic r s ↔ s ∉ S := by
  rw [← h s hs, not_exists]
  constructor
  · rintro hno e ⟨he, hpanic⟩
    exact hno e he hpanic
  · intro hno e he hpanic
    exact hno e ⟨he, hpanic⟩

/-- A message is decoded without a panic, whatever it is decoded as, exactly when no count that the headers and the
addresses hand to `make` unchecked is too large in it. -/
theorem decoders_noPanic_iff {s : Bytes} (hs : s.length ≤ maxMessagePayload) :
    ((∀ header witnessEncoding, NoPanic (MsgBlock.btcDecode header witnessEncoding : Reader (MsgBlock H)) s) ∧
      (∀ witnessEncoding, NoPanic (MsgTx.btcDecode witnessEncoding : Reader (MsgTx H)) s) ∧
      NoPanic (decodeHeader : Reader (BlockHeader H)) s ∧ NoPanic (EADAddresses.btcDecode : Reader (EADAddresses H)) s) ↔
    s ∉ headerOverflow H ∧ s ∉ eadOverflow := by
  have hN : maxMessagePayload ≤ maxAlloc := by decide
  rw [noPanic_iff (splits_decodeHeader hN).fails hs, noPanic_iff failsOn_addresses hs]
  constructor
  · rintro ⟨-, -, hheader, head⟩
    exact ⟨hheader, head⟩
  · rintro ⟨hheader, head⟩
    refine ⟨?_, fun witnessEncoding => ?_, hheader, head⟩
    · intro header witnessEncoding
      obtain ⟨L, hsplits⟩ := splits_readHeader hN header
      rw [noPanic_iff (failsOn_block hN hsplits witnessEncoding) hs]
      -- a receiver that has a header reads one kind only
      match header with
      | none => exact hheader
      | some (.beacon _) => exact fun h => hheader (.inl h)
      | some (.shard _) => exact fun h => hheader (.inr h)
    · rw [noPanic_iff (safe_btcDecode hN witnessEncoding).failsOn hs]
      exact Language.notMem_zero s

end

section Sample
attribute [local instance] headHash headHashArray

def hugeWeight : Bytes := [beaconMagicByte] ++ List.replicate 164 0 ++ varInt (2 ^ 64 - 1)

set_option maxRecDepth 100000 in
/-- It ends in a panic, as a header and as the start of a block. -/
theorem hugeWeight_panics : (decodeHeader : Reader (BlockHeader HeadHash)) hugeWeight =
      .error (.panic "runtime error: makeslice: len out of range") ∧
    (MsgBlock.btcDecode none true : Reader (MsgBlock HeadHash)) hugeWeight =
      .error (.panic "runtime error: makeslice: len out of range") := by
  constructor <;> rfl

set_option maxRecDepth 100000 in
theorem decoders_hugeWeight :
    hugeWeight.length = 174 ∧ (hugeWeight ∈ headerOverflow HeadHash ∨ hugeWeight ∈ eadOverflow) := by
  refine ⟨by decide, ?_⟩
  by_contra h
  rw [not_or] at h
  have hsafe := (decoders_noPanic_iff (H := HeadHash) (s := hugeWeight) (by decide)).2 h
  exact hsafe.2.2.1 _ rfl ⟨_, rfl⟩

end Sample

end Jaxnetd.Wire
