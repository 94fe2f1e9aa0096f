import Jaxnetd.TxScript.SigHash
import Jaxnetd.TxScript.LockScript

/-!
# The digest of a version 0 witness signature

What a signature under `calcWitnessSignatureHash` says about the script it is checked in. The digest
holds the script as a string with its length in front, so equal digests come from equal strings. The
string is not always the script: of nine opcodes only the fifth and the sixth are written.
-/

namespace Jaxnetd.TxScript
open Wire Checks ChainHash List Function

/-! ## Strings with their length in front -/

theorem length_varInt (n : Nat) : (varInt n).length = varIntSerializeSize n := by
  unfold varInt varIntSerializeSize
  split_ifs <;> simp [length_leBytes]

theorem headD_varBytes (bs : Bytes) : (varBytes bs).headD 0 = (varInt bs.length).headD 0 := by
  have h : 0 < (varInt bs.length).length := by
    rw [length_varInt, varIntSerializeSize]
    split_ifs <;> omega
  unfold varBytes
  match hv : varInt bs.length with
  | [] => simp [hv] at h
  | b :: rest => rfl

theorem varBytes_injective : Injective varBytes := by
  intro a b h
  have hlen : a.length = b.length := by
    -- the first byte tells the size of the length, and then the whole length decides
    have hhead : ((varInt a.length).headD 0).toNat = ((varInt b.length).headD 0).toNat := by
      rw [← headD_varBytes, ← headD_varBytes, h]
    have hall : varIntSerializeSize a.length + a.length = varIntSerializeSize b.length + b.length := by
      have := congrArg List.length h
      rwa [varBytes, varBytes, length_append, length_append, length_varInt, length_varInt] at this
    unfold varIntSerializeSize at hall
    split_ifs at hhead hall <;> omega
  unfold varBytes at h
  rw [hlen] at h
  exact append_cancel_left h

/-! ## Parsed scripts -/

theorem opLength_cases (value : Nat) :
    opLength value < 0 ∨ opLength value = 1 ∨ 1 ≤ value ∧ value ≤ 75 ∧ opLength value = value + 1 := by
  unfold opLength
  split_ifs
  · omega
  · split <;> omega

variable {pop : ParsedOpcode} {pops : List ParsedOpcode} {script : Bytes}

theorem bytes_parseOpcode {instr : UInt8} {rest rest' : Bytes}
    (h : parseOpcode instr rest = .ok (pop, rest')) : ∃ bs, pop.bytes = .ok bs ∧ instr :: rest = bs ++ rest' := by
  simp only [parseOpcode] at h
  split at h
  · next h1 =>
    obtain ⟨rfl, rfl⟩ := h
    exact ⟨[instr], by simp [ParsedOpcode.bytes, h1, failIf], rfl⟩
  split at h
  · next h1 hpos =>
    simp only [ok_rules] at h
    obtain ⟨hlen, rfl, rfl⟩ := h
    refine ⟨instr :: rest.take ((opLength instr.toNat).toNat - 1), ?_, by simp⟩
    have hshort : min ((opLength instr.toNat).toNat - 1) rest.length + 1 = (opLength instr.toNat).toNat := by omega
    simp [ParsedOpcode.bytes, h1, show ¬ opLength instr.toNat < 0 by omega, hshort, failIf]
  · next h1 hpos =>
    simp only [ok_rules] at h
    have hneg : opLength instr.toNat < 0 := by
      have := opLength_cases instr.toNat
      omega
    generalize hw : (opLength instr.toNat).natAbs = w at h
    obtain ⟨hwidth, hrest, rfl, rfl⟩ := h
    have hsize : (rest.take w).length = w := by
      rw [length_take]
      omega
    have hlt := leNat_lt (rest.take w)
    have hle := leBytes_leNat (rest.take w)
    rw [hsize] at hlt hle
    have hdata : ((rest.drop w).take (leNat (rest.take w))).length = leNat (rest.take w) := by
      rw [length_take]
      omega
    refine ⟨instr :: (rest.take w ++ (rest.drop w).take (leNat (rest.take w))), ?_, ?_⟩
    · simp only [ParsedOpcode.bytes, h1, hneg, hw, if_true, if_false, hdata, hle, Nat.mod_eq_of_lt hlt, ok_rules,
      UInt8.ofNat_toNat, cons_append, and_true]
      rw [length_cons, length_append, length_cons, hdata]
      omega
    · rw [cons_append, append_assoc, take_append_drop, take_append_drop]

theorem parsed_induct {P : List ParsedOpcode → Bytes → Prop} (hnil : P [] [])
    (hcons : ∀ {pop bs pops rest}, pop.bytes = .ok bs → 0 < bs.length → P pops rest → P (pop :: pops) (bs ++ rest))
    (h : parsed script = .ok pops) : P pops script := by
  induction hlen : script.length using Nat.strong_induction_on generalizing script pops with | _ n ih =>
  cases script with
  | nil =>
    cases h
    exact hnil
  | cons instr rest =>
    rcases hp : parseOpcode instr rest with e | ⟨pop, rest'⟩
    · simp only [parsed, parseScript, length_cons, parseLoop, hp] at h
      cases h
    · rw [parsed_cons hp, map_eq_ok] at h
      obtain ⟨pops', hrest, rfl⟩ := h
      obtain ⟨bs, hbs, heq⟩ := bytes_parseOpcode hp
      have hshort := parseOpcode_shorter hp
      have hsplit := congrArg List.length heq
      rw [length_cons, length_append] at hsplit
      rw [length_cons] at hlen
      rw [heq]
      exact hcons hbs (by omega) (ih _ (by omega) hrest rfl)

def Writable (pops : List ParsedOpcode) : Prop := ∀ pop ∈ pops, ∃ bs, pop.bytes = .ok bs

theorem unparseScript_cons {bs : Bytes} (h : pop.bytes = .ok bs) (h' : unparseScript pops = .ok script) :
    unparseScript (pop :: pops) = .ok (bs ++ script) := by
  simp only [unparseScript, ok_rules, mapM_cons] at h' ⊢
  obtain ⟨parts, hparts, rfl⟩ := h'
  exact ⟨bs :: parts, ⟨bs, h, parts, hparts, rfl⟩, rfl⟩

theorem unparse_parsed (h : parsed script = .ok pops) : unparseScript pops = .ok script ∧ Writable pops := by
  refine parsed_induct (P := fun pops script => unparseScript pops = .ok script ∧ Writable pops) ⟨rfl, nofun⟩ ?_ h
  rintro pop bs pops rest hbs - ⟨hun, hw⟩
  exact ⟨unparseScript_cons hbs hun, forall_mem_cons.2 ⟨⟨bs, hbs⟩, hw⟩⟩

theorem unparsed_parsed (h : parsed script = .ok pops) :
    unparsed pops = script := by rw [unparsed, (unparse_parsed h).1]

theorem data_length_of_bytes {bs : Bytes} (h : pop.bytes = .ok bs) (hv : pop.value = OP_DATA_20) :
    pop.data.length = 20 := by
  have hlen : opLength OP_DATA_20 = 21 := rfl
  simp only [ParsedOpcode.bytes, hv, hlen] at h
  rw [if_neg (by decide)] at h
  simp only [ok_rules] at h
  simpa using h.1

/-! ## The script that a signature is for -/

/-- The script code of BIP143: the script as it is written, and for a witness key hash the script that
pays to the hash. -/
def signedScript (pops : List ParsedOpcode) : Bytes :=
  if isWitnessPubKeyHash pops then
    [UInt8.ofNat OP_DUP, UInt8.ofNat OP_HASH160, UInt8.ofNat OP_DATA_20] ++ (opAt pops 1).data ++
      [UInt8.ofNat OP_EQUALVERIFY, UInt8.ofNat OP_CHECKSIG]
  else unparsed pops

theorem isWitnessPubKeyHash_inv (h : isWitnessPubKeyHash pops) : ∃ a b, pops = [a, b] ∧ b.value = OP_DATA_20 := by
  have hv : pops.map ParsedOpcode.value = [OP_0, OP_DATA_20] := of_decide_eq_true h
  obtain ⟨a, rest, rfl, -, hrest⟩ := map_eq_cons_iff.1 hv
  obtain ⟨b, rest, rfl, hb, hnil⟩ := map_eq_cons_iff.1 hrest
  rw [map_eq_nil_iff.1 hnil]
  exact ⟨a, b, rfl, hb⟩

theorem Writable.hash_length (hw : Writable pops) (h : isWitnessPubKeyHash pops) : (opAt pops 1).data.length = 20 := by
  obtain ⟨a, b, rfl, hb⟩ := isWitnessPubKeyHash_inv h
  obtain ⟨bs, hbs⟩ := hw b (by simp)
  exact data_length_of_bytes hbs hb

theorem Writable.extract (hw : Writable pops) : Writable (extractWitnessProgram pops) := by
  unfold extractWitnessProgram
  split
  · intro pop hpop
    rcases mem_cons.1 hpop with rfl | hpop
    · exact hw _ (getElem_mem _)
    · rw [mem_singleton.1 hpop]
      exact hw _ (getElem_mem _)
  · exact hw

theorem scriptCode_eq (hw : Writable pops) :
    scriptCode pops = varBytes (signedScript (extractWitnessProgram pops)) := by
  simp only [scriptCode, signedScript]
  split
  · next h =>
    rw [varBytes, length_append, length_append, hw.extract.hash_length h]
    rfl
  · rfl

theorem parsed_signedScript (h : parsed script = .ok pops) :
    ∃ pops', parsed (signedScript pops) = .ok pops' ∧ (pops' = pops ∨ pops'.length = 5 ∧ pops.length = 2) := by
  unfold signedScript
  split
  · next hwkh =>
    let address : Address := .pubKeyHash ⟨(opAt pops 1).data, (unparse_parsed h).2.hash_length hwkh⟩
    have hbytes : [UInt8.ofNat OP_DUP, UInt8.ofNat OP_HASH160, UInt8.ofNat OP_DATA_20] ++ (opAt pops 1).data ++
        [UInt8.ofNat OP_EQUALVERIFY, UInt8.ofNat OP_CHECKSIG] = ((addressChunks address).map Prod.fst).flatten := by
      simp [address, addressChunks, opChunk, pushChunk, (unparse_parsed h).2.hash_length hwkh, OP_DATA_20]
    obtain ⟨a, b, rfl, -⟩ := isWitnessPubKeyHash_inv hwkh
    rw [hbytes, parsed_flatten (writes_address address).encodes]
    exact ⟨_, rfl, .inr ⟨rfl, rfl⟩⟩
  · rw [unparsed_parsed h]
    exact ⟨pops, h, .inl rfl⟩

theorem eq_of_signedScript {s t : Bytes} {p q : List ParsedOpcode} (hp : parsed s = .ok p) (hq : parsed t = .ok q)
    (h9 : p.length = 9) (h : signedScript p = signedScript q) : p = q := by
  obtain ⟨p', hp', hpp⟩ := parsed_signedScript hp
  obtain ⟨q', hq', hqq⟩ := parsed_signedScript hq
  rw [h, hq'] at hp'
  obtain rfl := Except.ok.inj hp'
  rcases hpp with rfl | ⟨-, h2⟩
  · rcases hqq with rfl | ⟨h5, -⟩
    · rfl
    · omega
  · omega

/-! ## Equal digests -/

/-- Different scripts for which one string is signed: of a script with nine opcodes only the fifth and
the sixth count. -/
def Clash (p q : List ParsedOpcode) : Prop :=
  p.length = 9 ∧ q.length = 9 ∧ p ≠ q ∧ signedScript [opAt p 4, opAt p 5] = signedScript [opAt q 4, opAt q 5] ∨
    p.length = 9 ∧ q.length ≠ 9 ∧ signedScript [opAt p 4, opAt p 5] = signedScript q ∨
    p.length ≠ 9 ∧ q.length = 9 ∧ signedScript p = signedScript [opAt q 4, opAt q 5]

instance (p q : List ParsedOpcode) : Decidable (Clash p q) := by unfold Clash; infer_instance

theorem clash_iff {s t : Bytes} {p q : List ParsedOpcode} (hp : parsed s = .ok p) (hq : parsed t = .ok q) :
    Clash p q ↔ signedScript (extractWitnessProgram p) = signedScript (extractWitnessProgram q) ∧
      signedScript p ≠ signedScript q := by
  simp only [Clash, extractWitnessProgram, getElem_eq_opAt, dite_eq_ite]
  by_cases h9 : p.length = 9 <;> by_cases h9' : q.length = 9
  · simp only [h9, h9', if_true, true_and, not_true_eq_false, false_and, and_false, or_false, ne_eq]
    rw [and_comm, and_congr_right_iff]
    refine fun _ => not_congr ⟨fun h => h ▸ rfl, eq_of_signedScript hp hq h9⟩
  · have hne : signedScript p ≠ signedScript q := fun h => h9' (eq_of_signedScript hp hq h9 h ▸ h9)
    simp [h9, h9', hne]
  · have hne : signedScript p ≠ signedScript q := fun h => h9 (eq_of_signedScript hq hp h9' h.symm ▸ h9')
    simp [h9, h9', hne]
  · simp [h9, h9']

section Main
variable {H : Type} [ChainHash H]

theorem calcWitnessSignatureHash_inj (hinj : Injective (doubleHashB H)) (tx : MsgTx H) {idx : Nat}
    (hidx : idx < tx.txIn.length) (hashType : Nat) (amt : Int) (p q : List ParsedOpcode) :
    calcWitnessSignatureHash p hashType tx idx amt = calcWitnessSignatureHash q hashType tx idx amt ↔
      scriptCode p = scriptCode q := by
  simp only [calcWitnessSignatureHash, getElem?_eq_getElem hidx, Except.ok.injEq, hinj.eq_iff,
    append_left_inj, append_right_inj]

theorem exists_digest (tx : MsgTx H) {idx : Nat} (hidx : idx < tx.txIn.length) (hashType : Nat) (amt : Int)
    (p : List ParsedOpcode) : ∃ digest, calcWitnessSignatureHash p hashType tx idx amt = .ok digest := by
  simp only [calcWitnessSignatureHash, getElem?_eq_getElem hidx]
  exact ⟨_, rfl⟩

/-- Two scripts whose digests agree are signed as one script, unless one has nine opcodes of which the
fifth and the sixth clash with the other script. -/
theorem witness_digest_commits_iff (hinj : Injective (doubleHashB H)) (tx : MsgTx H) {idx : Nat}
    (hidx : idx < tx.txIn.length) (hashType : Nat) (amt : Int) {s t : Bytes} {p q : List ParsedOpcode}
    (hp : parsed s = .ok p) (hq : parsed t = .ok q) :
    (∀ digest, calcWitnessSignatureHash p hashType tx idx amt = .ok digest →
      calcWitnessSignatureHash q hashType tx idx amt = .ok digest → signedScript p = signedScript q) ↔
      ¬ Clash p q := by
  have hsame : calcWitnessSignatureHash p hashType tx idx amt = calcWitnessSignatureHash q hashType tx idx amt ↔
      signedScript (extractWitnessProgram p) = signedScript (extractWitnessProgram q) := by
    rw [calcWitnessSignatureHash_inj hinj tx hidx, scriptCode_eq (unparse_parsed hp).2,
      scriptCode_eq (unparse_parsed hq).2, varBytes_injective.eq_iff]
  rw [clash_iff hp hq, ← hsame, not_and, not_not]
  constructor
  · intro h heq
    obtain ⟨digest, hd⟩ := exists_digest tx hidx hashType amt q
    exact h digest (heq.trans hd) hd
  · intro h digest hdp hdq
    exact h (hdp.trans hdq.symm)

end Main

/-! ## Samples -/

section Sample

@[reducible] def plainHash : ChainHash Bytes where
  zeroHash := []
  bytes := id
  hashH := id

attribute [local instance] plainHash

theorem plainHash_injective : Injective (doubleHashB Bytes) := injective_id

def nineOpcodes (last : UInt8) : Bytes := [0x51, 0x51, 0x51, 0x51, 0x52, 0xac, 0x51, 0x51, last]

def spendingTx : MsgTx Bytes := ⟨1, [⟨⟨[7], 0⟩, [], [], 0⟩], [⟨5, []⟩], 0⟩

/-- The last opcode of the script can be changed under one digest. -/
theorem witness_digest_hides_opcode : ∃ p q, parsed (nineOpcodes 0x51) = .ok p ∧ parsed (nineOpcodes 0x52) = .ok q ∧
    Injective (doubleHashB Bytes) ∧
    calcWitnessSignatureHash p 1 spendingTx 0 5 = calcWitnessSignatureHash q 1 spendingTx 0 5 ∧
    signedScript p ≠ signedScript q := by
  refine ⟨_, _, rfl, rfl, plainHash_injective, ?_, ?_⟩
  · decide
  · decide

theorem witness_digest_commits_nine : ∃ p q, parsed (nineOpcodes 0x51) = .ok p ∧ parsed [0x51, 0xac] = .ok q ∧
    ∀ digest, calcWitnessSignatureHash p 1 spendingTx 0 5 = .ok digest →
      calcWitnessSignatureHash q 1 spendingTx 0 5 = .ok digest → signedScript p = signedScript q := by
  refine ⟨_, _, rfl, rfl, ?_⟩
  exact (witness_digest_commits_iff (s := nineOpcodes 0x51) (t := [0x51, 0xac]) plainHash_injective spendingTx
    (by decide) 1 5 rfl rfl).2 (by decide)

end Sample

end Jaxnetd.TxScript
