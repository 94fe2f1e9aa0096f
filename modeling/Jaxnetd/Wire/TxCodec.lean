import Jaxnetd.Wire.Decode

/-!
# Package `wire`: transactions are read as they were written

Every reader returns what its writer wrote and stops right behind it. The scripts of a transaction end up as
slices of one buffer; a slice of it is the script copied there.
-/

namespace Jaxnetd.Wire
open TxScript ChainHash Decoder List MsgTx TxOut

/-! ## Elements -/

theorem leNat_leBytes (w n : Nat) : leNat (leBytes w n) = n % 256 ^ w := by
  induction w generalizing n with
  | zero => simp [leBytes, leNat, Nat.mod_one]
  | succ w ih =>
    rw [leBytes, leNat, ih, UInt8.toNat_ofNat', Nat.pow_succ 256, Nat.mul_comm (256 ^ w) 256, Nat.mod_mul]
    omega

variable {n : Nat} {H : Type} {tx : MsgTx H} {txIn : TxIn H}

theorem reads_full {w : Bytes} (h : w.length = n) : Reads (readFull n) w w := by
  intro rest
  subst h
  simp [readFull]

theorem reads_uint {w : Nat} (h : n < 256 ^ w) : Reads (readUint w) (leBytes w n) n := by
  have hread : Reads (readUint w) (leBytes w n) (leNat (leBytes w n)) := (reads_full (length_leBytes w n)).last
  rwa [leNat_leBytes, Nat.mod_eq_of_lt h] at hread

theorem reads_int {w : Nat} (hw : 0 < w) {x : Int} (h : -2 ^ (8 * w - 1) ≤ x) (h' : x < 2 ^ (8 * w - 1)) :
    Reads (readInt w) (intBytes w x) x := by
  have hpow : (2 : Int) ^ (8 * w) = 2 * 2 ^ (8 * w - 1) := by
    rw [← pow_succ', show 8 * w - 1 + 1 = 8 * w by omega]
  have h0 : (0 : Int) ≤ x % 2 ^ (8 * w) := Int.emod_nonneg _ (by positivity)
  have hlt : x % 2 ^ (8 * w) < 2 ^ (8 * w) := Int.emod_lt_of_pos _ (by positivity)
  have hnat : (x % 2 ^ (8 * w)).toNat < 256 ^ w := by
    rw [show (256 : Nat) = 2 ^ 8 by rfl, ← Nat.pow_mul]
    zify
    rw [Int.toNat_of_nonneg h0]
    exact hlt
  have hread : Reads (readInt w) (intBytes w x) (((x % 2 ^ (8 * w)).toNat : Int).bmod (2 ^ (8 * w))) :=
    (reads_uint hnat).last
  have hx : ((x % 2 ^ (8 * w)).toNat : Int).bmod (2 ^ (8 * w)) = x := by
    rw [Int.toNat_of_nonneg h0]
    have : (x % ((2 ^ (8 * w) : Nat) : Int)).bmod (2 ^ (8 * w)) = x.bmod (2 ^ (8 * w)) := Int.emod_bmod ..
    push_cast at this
    rw [this]
    apply Int.bmod_eq_of_le
    · push_cast
      omega
    · push_cast
      omega
  rwa [hx] at hread

theorem reads_longInt {w min discriminant : Nat} (hmin : min ≤ n) (h : n < 256 ^ w) :
    Reads (readLongInt w min discriminant) (leBytes w n) n := by
  refine (reads_uint h).check ?_
  exact (Reads.failIf (by omega)).step (Reads.pure n)

theorem reads_varInt (h : n < 2 ^ 64) : Reads readVarInt (varInt n) n := by
  unfold varInt
  split_ifs with h1 h2 h3
  · refine (reads_uint (by omega)).check ?_
    rw [if_neg (by omega), if_neg (by omega), if_neg (by omega)]
    exact Reads.pure n
  · exact (reads_uint (w := 1) (n := 0xfd) (by decide)).bind (reads_longInt (by omega) (by omega))
  · exact (reads_uint (w := 1) (n := 0xfe) (by decide)).bind (reads_longInt (by omega) (by omega))
  · exact (reads_uint (w := 1) (n := 0xff) (by decide)).bind (reads_longInt (by omega) (by omega))

theorem reads_make {elemSize : Nat} (h : elemSize * n ≤ maxAlloc) : Reads (makeSlice elemSize n) [] () :=
  Reads.failIf (Nat.not_lt.2 h)

theorem reads_script {maxAllowed : Nat} {fieldName : String} {bs : Bytes} (h : bs.length ≤ maxAllowed)
    (hmax : maxAllowed ≤ maxMessagePayload) : Reads (readScript maxAllowed fieldName) (varBytes bs) bs := by
  have hlen : bs.length < 2 ^ 31 := by unfold maxMessagePayload at hmax; omega
  refine (reads_varInt (by omega)).bind ?_
  refine (Reads.failIf (Nat.not_lt.2 h)).step ?_
  refine (reads_make ?_).step ?_
  · unfold maxAlloc
    omega
  · exact reads_full rfl

/-! ## The buffer of the scripts -/

theorem copyAt_fits {dst src : Bytes} {off : Nat} (h : off + src.length ≤ dst.length) :
    copyAt dst off src = dst.take off ++ src ++ dst.drop (off + src.length) := by
  unfold copyAt
  rw [take_of_length_le (by omega : src.length ≤ dst.length - off)]

theorem placeScripts_eq {buf : Bytes} {offset : Nat} {scripts : List Bytes}
    (h : buf.length = offset + (scripts.map List.length).sum) :
    ∃ places, placeScripts buf offset scripts = .ok (buf.take offset ++ scripts.flatten, places) ∧
      places.map (sliceAt (buf.take offset ++ scripts.flatten)) = scripts := by
  induction scripts generalizing buf offset with
  | nil =>
    refine ⟨[], ?_, rfl⟩
    simp only [map_nil, sum_nil, Nat.add_zero] at h
    simp [placeScripts, ← h]
  | cons script rest ih =>
    rw [map_cons, sum_cons] at h
    have hcopy := @copyAt_fits buf script offset (by omega)
    have htake : (copyAt buf offset script).take (offset + script.length) = buf.take offset ++ script := by
      rw [hcopy, take_left']
      rw [length_append, length_take]
      omega
    have hlen : (copyAt buf offset script).length = offset + script.length + (rest.map List.length).sum := by
      rw [hcopy, length_append, length_append, length_take, length_drop]
      omega
    obtain ⟨places, hplaces, hslices⟩ := ih hlen
    rw [htake, append_assoc, ← flatten_cons] at hplaces hslices
    refine ⟨(offset, offset + script.length) :: places, ?_, ?_⟩
    · rw [placeScripts, if_neg (by omega), hplaces]
      rfl
    · rw [map_cons, hslices]
      congr 1
      have hoff : (buf.take offset).length = offset := by rw [length_take]; omega
      unfold sliceAt
      rw [flatten_cons, ← append_assoc, take_left' (by rw [length_append, hoff]), drop_left' hoff]

theorem setInScripts_same (txIns : List (TxIn H)) (rest : List Bytes) :
    setInScripts txIns (txIns.flatMap (fun txIn => txIn.signatureScript :: txIn.witness) ++ rest) = (txIns, rest) := by
  induction txIns with
  | nil => cases rest <;> rfl
  | cons txIn txIns ih =>
    rw [flatMap_cons, cons_append, cons_append, append_assoc, setInScripts, drop_left, take_left, ih]

theorem MsgTx.setScripts_same (tx : MsgTx H) : tx.setScripts tx.scripts = tx := by
  have houts : tx.txOut.zipWith (fun out script => { out with pkScript := script }) (tx.txOut.map pkScript) =
      tx.txOut := by
    rw [zipWith_map_right]
    exact zipWith_self.trans (map_id _)
  unfold setScripts scripts
  rw [setInScripts_same]
  simp only [houts]

theorem reads_moveScripts (h : (tx.scripts.map List.length).sum ≤ maxAlloc) : Reads tx.moveScripts [] tx := by
  refine (reads_make (by omega)).step ?_
  intro rest
  obtain ⟨places, hplaces, hslices⟩ := @placeScripts_eq (List.replicate (tx.scripts.map List.length).sum 0) 0 tx.scripts
    (by rw [length_replicate, Nat.zero_add])
  rw [take_zero, nil_append] at hplaces hslices
  rw [hplaces]
  show Except.ok (tx.setScripts (places.map (sliceAt tx.scripts.flatten)), rest) = _
  rw [hslices, tx.setScripts_same]

/-! ## Transactions -/

/-- The ranges of the fields of an input and the limits on their lengths. -/
structure TxIn.InLimits (txIn : TxIn H) : Prop where
  index : txIn.previousOutPoint.index < 2 ^ 32
  script : txIn.signatureScript.length ≤ maxMessagePayload
  items : txIn.witness.length ≤ maxWitnessItemsPerInput
  item : ∀ w ∈ txIn.witness, w.length ≤ maxWitnessItemSize
  sequence : txIn.sequence < 2 ^ 32

structure TxOut.InLimits (out : TxOut) : Prop where
  low : -2 ^ 63 ≤ out.value
  high : out.value < 2 ^ 63
  script : out.pkScript.length ≤ maxMessagePayload

/-- The limits that `BtcDecode` sets. The scripts have to fit into one buffer. -/
structure MsgTx.InLimits (tx : MsgTx H) : Prop where
  low : -2 ^ 31 ≤ tx.version
  high : tx.version < 2 ^ 31
  inputs : tx.txIn.length ≤ maxTxInPerMessage
  ins : ∀ txIn ∈ tx.txIn, txIn.InLimits
  outputs : tx.txOut.length ≤ maxTxOutPerMessage
  outs : ∀ out ∈ tx.txOut, out.InLimits
  lockTime : tx.lockTime < 2 ^ 32
  buffer : (tx.scripts.map List.length).sum ≤ maxAlloc

def TxIn.stripWitness (txIn : TxIn H) : TxIn H := { txIn with witness := [] }

def MsgTx.stripWitness (tx : MsgTx H) : MsgTx H := { tx with txIn := tx.txIn.map TxIn.stripWitness }

theorem reads_txOut {out : TxOut} (h : out.InLimits) : Reads readTxOut out.write out := by
  refine (reads_int (by decide) h.low h.high).bind ?_
  exact (reads_script h.script (Nat.le_refl _)).last

theorem reads_txWitness (h : txIn.InLimits) : Reads readTxWitness (writeTxWitness txIn.witness) txIn.witness := by
  have hitems := h.items
  unfold maxWitnessItemsPerInput at hitems
  refine (reads_varInt (by omega)).bind ?_
  refine (Reads.failIf (Nat.not_lt.2 h.items)).step ?_
  refine (reads_make (by unfold maxAlloc; omega)).step ?_
  have hread : ∀ w ∈ txIn.witness, Reads (readScript maxWitnessItemSize "script witness item") (varBytes w) (id w) :=
    fun w hw => reads_script (h.item w hw) (by decide)
  simpa using Reads.repeatN hread

theorem reads_witnesses {txIns : List (TxIn H)} (h : ∀ txIn ∈ txIns, txIn.InLimits) {flag : Bool}
    (hflag : flag = false → txIns.map TxIn.stripWitness = txIns) :
    Reads (readWitnesses flag (txIns.map TxIn.stripWitness))
      (if flag then txIns.flatMap fun txIn => writeTxWitness txIn.witness else []) txIns := by
  cases flag with
  | false =>
    rw [hflag rfl]
    exact Reads.pure txIns
  | true =>
    have hread : Reads (repeatN readTxWitness (txIns.map TxIn.stripWitness).length)
        (txIns.flatMap fun txIn => writeTxWitness txIn.witness) (txIns.map TxIn.witness) := by
      rw [length_map]
      exact Reads.repeatN fun txIn hin => reads_txWitness (h txIn hin)
    have hzip : (txIns.map TxIn.stripWitness).zipWith (fun txIn witness => { txIn with witness })
        (txIns.map TxIn.witness) = txIns := by
      rw [zipWith_map]
      exact zipWith_self.trans (map_id _)
    have hlast := hread.last (f := (txIns.map TxIn.stripWitness).zipWith fun txIn witness => { txIn with witness })
    rwa [hzip] at hlast

section
variable [ChainHash H] [HashArray H]

theorem reads_hash (h : H) : Reads (readHash : Reader H) (bytes h) h := by
  have hread : Reads (readHash : Reader H) (bytes h) (HashArray.ofBytes (bytes h)) :=
    (reads_full (HashArray.length_bytes h)).last
  rwa [HashArray.ofBytes_bytes] at hread

theorem reads_outPoint {o : OutPoint H} (h : o.index < 2 ^ 32) : Reads readOutPoint o.write o := by
  refine (reads_hash o.hash).bind ?_
  exact (reads_uint (by omega)).last

theorem reads_txIn (h : txIn.InLimits) : Reads readTxIn txIn.write txIn.stripWitness := by
  unfold TxIn.write
  rw [append_assoc]
  refine (reads_outPoint h.index).bind ?_
  refine (reads_script h.script (Nat.le_refl _)).bind ?_
  have hsequence := h.sequence
  exact (reads_uint (by omega)).last

/-- What the reader of the body is given: the transaction behind the number of its inputs. -/
def MsgTx.writeBody (tx : MsgTx H) (doWitness : Bool) : Bytes :=
  tx.txIn.flatMap TxIn.write ++ (varInt tx.txOut.length ++ (tx.txOut.flatMap write ++
    ((if doWitness then tx.txIn.flatMap (fun txIn => writeTxWitness txIn.witness) else []) ++ leBytes 4 tx.lockTime)))

theorem reads_body (h : tx.InLimits) {flag : Bool} (hflag : flag = false → tx.txIn.map TxIn.stripWitness = tx.txIn) :
    Reads (readBody tx.version flag tx.txIn.length) (tx.writeBody flag) tx := by
  have hin : tx.txIn.length ≤ 19182 := h.inputs
  have hout : tx.txOut.length ≤ 87382 := h.outputs
  have hlock := h.lockTime
  refine (Reads.failIf (Nat.not_lt.2 h.inputs)).step ?_
  refine (reads_make (by unfold maxAlloc; omega)).step ?_
  refine (reads_make (by unfold maxAlloc; omega)).step ?_
  refine (Reads.repeatN fun txIn hin => reads_txIn (h.ins txIn hin)).bind ?_
  refine (reads_varInt (by omega)).bind ?_
  refine (Reads.failIf (Nat.not_lt.2 h.outputs)).step ?_
  refine (reads_make (by unfold maxAlloc; omega)).step ?_
  refine (reads_make (by unfold maxAlloc; omega)).step ?_
  have houts : Reads (repeatN readTxOut tx.txOut.length) (tx.txOut.flatMap write) (tx.txOut.map id) :=
    Reads.repeatN fun out hout => reads_txOut (h.outs out hout)
  rw [map_id] at houts
  refine houts.bind ?_
  refine (reads_witnesses h.ins hflag).bind ?_
  exact (reads_uint (by omega)).check (reads_moveScripts h.buffer)

omit [HashArray H] in
theorem MsgTx.btcEncode_eq (tx : MsgTx H) (witnessEncoding : Bool) :
    tx.btcEncode witnessEncoding = intBytes 4 tx.version ++
      ((if witnessEncoding && tx.hasWitness then varInt 0 ++ ([0x01] ++ varInt tx.txIn.length) else varInt tx.txIn.length) ++
        tx.writeBody (witnessEncoding && tx.hasWitness)) := by
  have hmarker : varInt 0 = [0x00] := rfl
  unfold btcEncode writeBody
  cases witnessEncoding && tx.hasWitness <;> simp [hmarker]

theorem reads_btcDecode (h : tx.InLimits) {witnessEncoding : Bool} (hin : witnessEncoding = true → tx.txIn ≠ [])
    (hwitness : (witnessEncoding && tx.hasWitness) = false → tx.txIn.map TxIn.stripWitness = tx.txIn) :
    Reads (btcDecode witnessEncoding) (tx.btcEncode witnessEncoding) tx := by
  have hcount : tx.txIn.length ≤ 19182 := h.inputs
  have hbody := reads_body h hwitness
  rw [tx.btcEncode_eq]
  refine (reads_int (by decide) h.low h.high).bind ?_
  cases hdo : witnessEncoding && tx.hasWitness with
  | false =>
    rw [hdo] at hbody
    refine (reads_varInt (by omega)).bind ?_
    have hflag : Reads (readFlag witnessEncoding tx.txIn.length) [] (false, tx.txIn.length) := by
      unfold readFlag
      rw [if_neg fun ⟨hzero, hwe⟩ => hin hwe (length_eq_zero_iff.1 hzero)]
      exact Reads.pure _
    exact hflag.step hbody
  | true =>
    rw [hdo] at hbody
    rw [Bool.and_eq_true] at hdo
    simp only [if_true, append_assoc]
    refine (reads_varInt (by decide)).bind ?_
    have hflag : Reads (readFlag witnessEncoding 0) ([0x01] ++ varInt tx.txIn.length) (true, tx.txIn.length) := by
      unfold readFlag
      rw [if_pos ⟨rfl, hdo.1⟩]
      refine (reads_full (n := 1) (w := [0x01]) rfl).bind ?_
      refine (Reads.failIf (by decide)).step ?_
      exact (reads_varInt (by omega)).last
    exact hflag.bind hbody

/-! ## Sizes -/

theorem length_varBytes (bs : Bytes) : (varBytes bs).length = varIntSerializeSize bs.length + bs.length := by
  rw [varBytes, length_append, length_varInt]

section
omit [HashArray H] [ChainHash H]

theorem TxOut.length_write (out : TxOut) : out.write.length = out.serializeSize := by
  rw [write, length_append, intBytes, length_leBytes, length_varBytes, serializeSize]
  omega

theorem length_writeTxWitness (wit : List Bytes) : (writeTxWitness wit).length = witnessSerializeSize wit := by
  simp [writeTxWitness, length_varInt, length_varBytes, witnessSerializeSize]

end

theorem TxIn.length_write (txIn : TxIn H) : txIn.write.length = txIn.serializeSize := by
  simp only [TxIn.write, OutPoint.write, length_append, length_leBytes, length_varBytes, HashArray.length_bytes,
    TxIn.serializeSize]
  omega

theorem MsgTx.length_btcEncode (tx : MsgTx H) (witnessEncoding : Bool) :
    (tx.btcEncode witnessEncoding).length = if witnessEncoding then tx.serializeSize else tx.serializeSizeStripped := by
  have hins : (tx.txIn.flatMap TxIn.write).length = (tx.txIn.map TxIn.serializeSize).sum := by
    simp [TxIn.length_write]
  have houts : (tx.txOut.flatMap TxOut.write).length = (tx.txOut.map TxOut.serializeSize).sum := by
    simp [TxOut.length_write]
  have hwits : (tx.txIn.flatMap fun txIn => writeTxWitness txIn.witness).length =
      (tx.txIn.map fun txIn => witnessSerializeSize txIn.witness).sum := by
    simp [length_writeTxWitness]
  unfold btcEncode serializeSize serializeSizeStripped
  simp only [length_append, intBytes, length_leBytes, length_varInt, hins, houts]
  cases witnessEncoding with
  | false => simp; omega
  | true =>
    cases tx.hasWitness with
    | false => simp; omega
    | true => simp [hwits]; omega

/-! ## The codec -/

section
omit [ChainHash H] [HashArray H]

theorem stripWitness_of_hasWitness (h : tx.hasWitness = false) : tx.txIn.map TxIn.stripWitness = tx.txIn := by
  unfold hasWitness at h
  rw [any_eq_false] at h
  refine (map_congr_left fun txIn hin => ?_).trans (map_id _)
  have hnil : txIn.witness = [] := by simpa using h txIn hin
  show { txIn with witness := [] } = txIn
  rw [← hnil]

theorem MsgTx.hasWitness_stripWitness (tx : MsgTx H) : tx.stripWitness.hasWitness = false := by
  simp [hasWitness, stripWitness, TxIn.stripWitness]

theorem TxIn.InLimits.strip (h : txIn.InLimits) : txIn.stripWitness.InLimits where
  index := h.index
  script := h.script
  items := Nat.zero_le _
  item := fun _ hw => nomatch hw
  sequence := h.sequence

theorem MsgTx.scripts_stripWitness_le (tx : MsgTx H) :
    (tx.stripWitness.scripts.map List.length).sum ≤ (tx.scripts.map List.length).sum := by
  have hins : ∀ txIns : List (TxIn H),
      (((txIns.map TxIn.stripWitness).flatMap fun txIn => txIn.signatureScript :: txIn.witness).map List.length).sum ≤
        ((txIns.flatMap fun txIn => txIn.signatureScript :: txIn.witness).map List.length).sum := by
    intro txIns
    induction txIns with
    | nil => exact Nat.le_refl _
    | cons txIn txIns ih =>
      simp only [map_cons, flatMap_cons, map_append, sum_append, TxIn.stripWitness, map_nil, sum_cons, sum_nil] at ih ⊢
      omega
  have h := hins tx.txIn
  simp only [scripts, stripWitness, map_append, sum_append] at h ⊢
  omega

theorem MsgTx.InLimits.strip (h : tx.InLimits) : tx.stripWitness.InLimits where
  low := h.low
  high := h.high
  inputs := by
    have := h.inputs
    rwa [stripWitness, length_map]
  ins := by
    intro txIn hin
    obtain ⟨txIn', hin', rfl⟩ := mem_map.1 hin
    exact (h.ins txIn' hin').strip
  outputs := h.outputs
  outs := h.outs
  lockTime := h.lockTime
  buffer := Nat.le_trans tx.scripts_stripWitness_le h.buffer

end

omit [HashArray H] in
theorem MsgTx.btcEncode_stripWitness (tx : MsgTx H) (witnessEncoding : Bool) :
    tx.stripWitness.btcEncode witnessEncoding = tx.btcEncode false := by
  unfold btcEncode
  rw [tx.hasWitness_stripWitness, Bool.and_false, Bool.false_and]
  simp only [stripWitness, length_map, flatMap_map]
  rfl

theorem reads_stripped (h : tx.stripWitness.InLimits) {witnessEncoding : Bool}
    (hin : witnessEncoding = true → tx.txIn ≠ []) :
    Reads (btcDecode witnessEncoding) (tx.btcEncode false) tx.stripWitness := by
  rw [← tx.btcEncode_stripWitness witnessEncoding]
  refine reads_btcDecode h (fun hwe => ?_) fun _ => stripWitness_of_hasWitness tx.hasWitness_stripWitness
  simpa [stripWitness] using hin hwe

theorem reads_witnessed (h : tx.InLimits) (hin : tx.txIn ≠ []) : Reads (btcDecode true) (tx.btcEncode true) tx :=
  reads_btcDecode h (fun _ => hin) fun hdo => stripWitness_of_hasWitness (by simpa using hdo)

/-- The codec of transactions: both encodings are read back, whatever follows them, the sizes are those of the
bytes, the hash is that of the base encoding and the witness encoding tells transactions apart. -/
theorem tx_codec {tx : MsgTx H} (hin : tx.txIn ≠ []) (h : tx.InLimits) :
    (∀ rest, btcDecode true (tx.btcEncode true ++ rest) = .ok (tx, rest)) ∧
      (∀ witnessEncoding rest, btcDecode witnessEncoding (tx.btcEncode false ++ rest) =
        .ok (tx.stripWitness, rest)) ∧
      (tx.btcEncode true).length = tx.serializeSize ∧
      (tx.btcEncode false).length = tx.serializeSizeStripped ∧
      (∀ tx' : MsgTx H, tx'.btcEncode false = tx.btcEncode false → tx'.txHash = tx.txHash) ∧
      ∀ tx' : MsgTx H, tx'.txIn ≠ [] → tx'.InLimits → tx'.btcEncode true = tx.btcEncode true → tx' = tx := by
  refine ⟨reads_witnessed h hin, fun _ => reads_stripped h.strip fun _ => hin, tx.length_btcEncode true,
    tx.length_btcEncode false, ?_, ?_⟩
  · intro tx' hbase
    unfold txHash serializeNoWitness
    rw [hbase]
  · intro tx' hin' h' hwitness
    have hread := reads_witnessed h' hin'
    rw [hwitness] at hread
    exact hread.unique (reads_witnessed h hin)

end

section Sample
attribute [local instance] headHash headHashArray

def witnessedTx : MsgTx HeadHash :=
  ⟨2, [⟨⟨headHash.zeroHash, 0⟩, [0x51], [[0x30], []], 7⟩, ⟨⟨headHash.zeroHash, 1⟩, [], [], 0xffffffff⟩],
    [⟨-1, [0x6a]⟩, ⟨5, []⟩], 12⟩

theorem witnessedTx_inLimits : witnessedTx.InLimits where
  low := by decide
  high := by decide
  inputs := by decide
  ins := by
    intro txIn hin
    simp only [witnessedTx, mem_cons, not_mem_nil, or_false] at hin
    rcases hin with rfl | rfl
    · exact ⟨by decide, by decide, by decide, by decide, by decide⟩
    · exact ⟨by decide, by decide, by decide, by decide, by decide⟩
  outputs := by decide
  outs := by
    intro out hout
    simp only [witnessedTx, mem_cons, not_mem_nil, or_false] at hout
    rcases hout with rfl | rfl
    · exact ⟨by decide, by decide, by decide⟩
    · exact ⟨by decide, by decide, by decide⟩
  lockTime := by decide
  buffer := by decide

theorem tx_codec_witnessed : witnessedTx.hasWitness = true ∧ (witnessedTx.btcEncode true).length = 119 ∧
    btcDecode true (witnessedTx.btcEncode true ++ [0xff]) = .ok (witnessedTx, [0xff]) :=
  ⟨by decide, (tx_codec (by decide) witnessedTx_inLimits).2.2.1.trans (by decide),
    (tx_codec (by decide) witnessedTx_inLimits).1 [0xff]⟩

end Sample

end Jaxnetd.Wire
