import Jaxnetd.TxScript.Standard
import Jaxnetd.TxScript.ScriptNum

/-!
# Package `txscript`: lock scripts

`ScriptBuilder` (`scriptbuilder.go`) and `HTLCScript` (`lock_script.go`). A built script parses to
the opcodes it was built of (`parsed_htlcScript`).
-/

namespace Jaxnetd.TxScript
open Checks List UInt8

/-! ## `ScriptBuilder` -/

def notCanonical (what : String) (limit : Nat) : ScriptError :=
  ⟨.other, "adding " ++ what ++ " of " ++ toString limit⟩

/-- `AddOp` on the script built so far. The builder keeps its first error. -/
def addOp (opcode : Nat) (script : Bytes) : Except ScriptError Bytes := do
  failIf (maxScriptSize < script.length + 1)
    (notCanonical "an opcode would exceed the maximum allowed canonical script length" maxScriptSize)
  return script ++ [ofNat opcode]

def canonicalDataSize (data : Bytes) : Nat :=
  let first := (data.headD 0).toNat
  if data.length = 0 then 1
  else if data.length = 1 ∧ first ≤ 16 then 1
  else if data.length = 1 ∧ first = 0x81 then 1
  else if data.length < OP_PUSHDATA1 then 1 + data.length
  else if data.length ≤ 0xff then 2 + data.length
  else if data.length ≤ 0xffff then 3 + data.length
  else 5 + data.length

/-- What `addData` puts at the end of the script. -/
def dataPush (data : Bytes) : Bytes :=
  let first := (data.headD 0).toNat
  if data.length = 0 ∨ data.length = 1 ∧ first = 0 then [ofNat OP_0]
  else if data.length = 1 ∧ first ≤ 16 then [ofNat (OP_1 - 1 + first)]
  else if data.length = 1 ∧ first = 0x81 then [ofNat OP_1NEGATE]
  else if data.length < OP_PUSHDATA1 then ofNat (OP_DATA_1 - 1 + data.length) :: data
  else if data.length ≤ 0xff then ofNat OP_PUSHDATA1 :: leBytes 1 data.length ++ data
  else if data.length ≤ 0xffff then ofNat OP_PUSHDATA2 :: leBytes 2 data.length ++ data
  else ofNat OP_PUSHDATA4 :: leBytes 4 data.length ++ data

def addData (data script : Bytes) : Except ScriptError Bytes := do
  failIf (maxScriptSize < script.length + canonicalDataSize data)
    (notCanonical (toString (canonicalDataSize data) ++
      " bytes of data would exceed the maximum allowed canonical script length") maxScriptSize)
  failIf (maxScriptElementSize < data.length)
    (notCanonical ("a data element of " ++ toString data.length ++
      " bytes would exceed the maximum allowed script element size") maxScriptElementSize)
  return script ++ dataPush data

def addInt64 (val : Int) (script : Bytes) : Except ScriptError Bytes := do
  failIf (maxScriptSize < script.length + 1)
    (notCanonical "an integer would exceed the maximum allow canonical script length" maxScriptSize)
  if val = 0 then return script ++ [ofNat OP_0]
  else if val = -1 ∨ 1 ≤ val ∧ val ≤ 16 then return script ++ [ofNat ((OP_1 - 1 : Nat) + val).toNat]
  else addData (scriptNumBytes val) script

def payToScriptHashScript (scriptHash : Bytes) : Except ScriptError Bytes := do
  let script ← addOp OP_HASH160 []
  let script ← addData scriptHash script
  addOp OP_EQUAL script

/-! ## `HTLCScript` -/

abbrev FixedBytes (n : Nat) := { b : Bytes // b.length = n }

/-- The addresses of package `jaxutil`, by their `ScriptAddress`. -/
inductive Address where
  | pubKey (key : { b : Bytes // b.length = 33 ∨ b.length = 65 })
  | pubKeyHash (hash : FixedBytes 20)
  | scriptHash (hash : FixedBytes 20)
  | witnessPubKeyHash (program : FixedBytes 20)
  | witnessScriptHash (program : FixedBytes 32)
  | htlc (script : Bytes)

/-- The branch of `HTLCScript` for an address. -/
def addAddress (address : Address) (script : Bytes) : Except ScriptError Bytes :=
  match address with
  | .pubKey key => do
    let script ← addData key.1 script
    addOp OP_CHECKSIG script
  | .pubKeyHash hash => do
    let script ← addOp OP_DUP script
    let script ← addOp OP_HASH160 script
    let script ← addData hash.1 script
    let script ← addOp OP_EQUALVERIFY script
    addOp OP_CHECKSIG script
  | .scriptHash hash => do
    let script ← addOp OP_HASH160 script
    let script ← addData hash.1 script
    addOp OP_EQUAL script
  | .witnessPubKeyHash program => do
    let script ← addOp OP_0 script
    addData program.1 script
  | .witnessScriptHash program => do
    let script ← addOp OP_0 script
    addData program.1 script
  | .htlc _ => .error ⟨.other, "unsupported address type"⟩

def htlcScript (address : Address) (lockPeriod : Int) : Except ScriptError Bytes := do
  let script ← addOp OP_INPUTAGE []
  let script ← addInt64 lockPeriod script
  let script ← addOp OP_GREATERTHAN script
  let script ← addOp OP_IF script
  let script ← addAddress address script
  let script ← addOp OP_ELSE script
  let script ← addOp OP_RETURN script
  addOp OP_ENDIF script

/-! ## Parsing what was built -/

theorem parsed_cons {instr : UInt8} {rest rest' : Bytes} {pop : ParsedOpcode}
    (h : parseOpcode instr rest = .ok (pop, rest')) : parsed (instr :: rest) = (parsed rest').map (pop :: ·) := by
  have hmono := parseLoop_mono (le_refl rest'.length) (parseOpcode_shorter h)
  simp only [parsed, parseScript, length_cons, parseLoop, h, hmono]
  rcases parseLoop rest'.length rest' with ⟨pops, _ | e⟩ <;> rfl

def Encodes (bs : Bytes) (pop : ParsedOpcode) : Prop := ∀ rest, parsed (bs ++ rest) = (parsed rest).map (pop :: ·)

theorem encodes_op {value : Nat} (h : value < 256) (hlen : opLength value = 1) :
    Encodes [ofNat value] ⟨value, []⟩ := by
  intro rest
  refine parsed_cons ?_
  have hvalue : (ofNat value).toNat = value := by
    rw [toNat_ofNat']
    omega
  simp [parseOpcode, hvalue, hlen]

theorem encodes_push {data : Bytes} (h : 1 ≤ data.length) (h' : data.length ≤ 75) :
    Encodes (ofNat data.length :: data) ⟨data.length, data⟩ := by
  intro rest
  rw [cons_append]
  refine parsed_cons ?_
  have hvalue : (ofNat data.length).toNat = data.length := by
    rw [toNat_ofNat']
    omega
  have hlen : opLength data.length = data.length + 1 := if_pos ⟨h, h'⟩
  have hone : ¬((data.length : Int) + 1 = 1) := by omega
  simp only [parseOpcode, hvalue, hlen, if_neg hone, show (1 : Int) < data.length + 1 by omega, if_true, ok_rules,
    length_append, show ((data.length : Int) + 1).toNat - 1 = data.length by omega, take_left, drop_left, and_true]
  omega

variable {chunks : List (Bytes × ParsedOpcode)} {f : Bytes → Except ScriptError Bytes} {script : Bytes}

theorem parsed_flatten (h : ∀ c ∈ chunks, Encodes c.1 c.2) :
    parsed (chunks.map Prod.fst).flatten = .ok (chunks.map Prod.snd) := by
  induction chunks with
  | nil => rfl
  | cons c chunks ih =>
    rw [forall_mem_cons] at h
    rw [map_cons, flatten_cons, h.1, ih h.2]
    rfl

def opChunk (value : Nat) : Bytes × ParsedOpcode := ([ofNat value], ⟨value, []⟩)

def pushChunk (data : Bytes) : Bytes × ParsedOpcode := (ofNat data.length :: data, ⟨data.length, data⟩)

/-- What `AddInt64` adds for a nonnegative number. -/
def intChunk (n : Int) : Bytes × ParsedOpcode :=
  if n = 0 then opChunk OP_0 else if n ≤ 16 then opChunk (OP_1 - 1 + n.toNat) else pushChunk (scriptNumBytes n)

def addressChunks : Address → List (Bytes × ParsedOpcode)
  | .pubKey key => [pushChunk key.1, opChunk OP_CHECKSIG]
  | .pubKeyHash hash => [opChunk OP_DUP, opChunk OP_HASH160, pushChunk hash.1, opChunk OP_EQUALVERIFY, opChunk OP_CHECKSIG]
  | .scriptHash hash => [opChunk OP_HASH160, pushChunk hash.1, opChunk OP_EQUAL]
  | .witnessPubKeyHash program => [opChunk OP_0, pushChunk program.1]
  | .witnessScriptHash program => [opChunk OP_0, pushChunk program.1]
  | .htlc _ => []

def htlcChunks (address : Address) (lockPeriod : Int) : List (Bytes × ParsedOpcode) :=
  opChunk OP_INPUTAGE :: intChunk lockPeriod :: opChunk OP_GREATERTHAN :: opChunk OP_IF :: addressChunks address ++
    [opChunk OP_ELSE, opChunk OP_RETURN, opChunk OP_ENDIF]

/-- What a step of a builder appends parses to the opcodes of the chunks, whatever follows. -/
structure Writes (f : Bytes → Except ScriptError Bytes) (chunks : List (Bytes × ParsedOpcode)) : Prop where
  appends : ∀ {script script' : Bytes}, f script = .ok script' → script' = script ++ (chunks.map Prod.fst).flatten
  encodes : ∀ c ∈ chunks, Encodes c.1 c.2

theorem Writes.andThen {g : Bytes → Except ScriptError Bytes} {chunks' : List (Bytes × ParsedOpcode)}
    (h : Writes f chunks) (h' : Writes g chunks') : Writes (fun script => f script >>= g) (chunks ++ chunks') where
  appends hfg := by
    obtain ⟨script₁, hf, hg⟩ := bind_eq_ok.1 hfg
    rw [h'.appends hg, h.appends hf, map_append, flatten_append, append_assoc]
  encodes := forall_mem_append.2 ⟨h.encodes, h'.encodes⟩

theorem Writes.parsed
    (h : Writes f chunks) (hf : f [] = .ok script) : TxScript.parsed script = .ok (chunks.map Prod.snd) := by
  rw [h.appends hf, nil_append]
  exact parsed_flatten h.encodes

theorem writes_op (opcode : Nat) (h : opcode < 256 ∧ opLength opcode = 1 := by decide) :
    Writes (addOp opcode) [opChunk opcode] where
  appends hadd := by
    simp only [addOp, ok_rules] at hadd
    rw [← hadd.2]
    simp [opChunk]
  encodes := forall_mem_singleton.2 (encodes_op h.1 h.2)

theorem writes_data {data : Bytes} (h2 : 2 ≤ data.length) (h75 : data.length ≤ 75) :
    Writes (addData data) [pushChunk data] where
  appends hadd := by
    simp only [addData, ok_rules] at hadd
    rw [← hadd.2.2, dataPush, if_neg (by omega), if_neg (by omega), if_neg (by omega),
      if_pos (show data.length < OP_PUSHDATA1 by unfold OP_PUSHDATA1; omega)]
    simp [pushChunk, OP_DATA_1]
  encodes := forall_mem_singleton.2 (encodes_push (by omega) h75)

variable {n : Int} {address : Address}

theorem dataPush_scriptNumBytes (h : 16 < n) : 1 ≤ (scriptNumBytes n).length ∧ (scriptNumBytes n).length ≤ 75 ∧
      dataPush (scriptNumBytes n) = (pushChunk (scriptNumBytes n)).1 := by
  have h9 := length_magnitudeBytes_le 9 n.natAbs
  obtain ⟨init, t, heq, ht, hval, hlong, hshort, -⟩ := scriptNumBytes_split (show n ≠ 0 by omega)
  rw [if_neg (show ¬n < 0 by omega), Nat.add_zero] at heq
  rcases eq_or_ne init [] with rfl | hne
  · have hread := leNat_magnitudeBytes (hlong.trans_lt (by decide))
    have hbyte : (ofNat t).toNat = t := by
      rw [toNat_ofNat']
      omega
    simp only [leNat, length_nil, pow_zero, zero_add, hread] at hval
    rw [heq, nil_append]
    refine ⟨by simp, by simp, ?_⟩
    simp only [dataPush, pushChunk, length_singleton, headD_cons, hbyte]
    rw [if_neg (by omega), if_neg (by omega), if_neg (by omega), if_pos (by decide)]
    rfl
  · have hlen : (scriptNumBytes n).length = init.length + 1 := by rw [heq, length_append, length_singleton]
    have hpos := length_pos_iff.2 hne
    refine ⟨by omega, by omega, ?_⟩
    rw [dataPush, if_neg (by omega), if_neg (by omega), if_neg (by omega),
      if_pos (show (scriptNumBytes n).length < OP_PUSHDATA1 by unfold OP_PUSHDATA1; omega)]
    simp [pushChunk, OP_DATA_1]

theorem writes_int (hn : 0 ≤ n) : Writes (addInt64 n) [intChunk n] := by
  have hall : ∀ k < 17, OP_1 - 1 + k < 256 ∧ opLength (OP_1 - 1 + k) = 1 := by decide
  have hpush := @dataPush_scriptNumBytes n
  unfold intChunk
  split_ifs with h0 h16
  · refine ⟨fun h => ?_, (writes_op OP_0).encodes⟩
    simp only [addInt64, if_pos h0, ok_rules] at h
    simp [← h.2, opChunk]
  · refine ⟨fun h => ?_, (writes_op _ (hall n.toNat (by omega))).encodes⟩
    simp only [addInt64, if_neg h0, if_pos (show n = -1 ∨ 1 ≤ n ∧ n ≤ 16 by omega), ok_rules] at h
    simp [← h.2, opChunk, show ((OP_1 - 1 : Nat) + n).toNat = OP_1 - 1 + n.toNat by omega]
  · obtain ⟨h1, h75, hdata⟩ := hpush (by omega)
    refine ⟨fun h => ?_, forall_mem_singleton.2 (encodes_push h1 h75)⟩
    simp only [addInt64, if_neg h0, if_neg (show ¬(n = -1 ∨ 1 ≤ n ∧ n ≤ 16) by omega), addData, ok_rules] at h
    simp [← h.2.2.2, hdata]

theorem writes_address (address : Address) : Writes (addAddress address) (addressChunks address) := by
  have hhash : ∀ hash : FixedBytes 20, Writes (addData hash.1) [pushChunk hash.1] := fun hash =>
    writes_data (by rw [hash.2]; decide) (by rw [hash.2]; decide)
  cases address with
  | pubKey key =>
    exact (writes_data (by omega) (by omega)).andThen (writes_op OP_CHECKSIG)
  | pubKeyHash hash =>
    exact (writes_op OP_DUP).andThen ((writes_op OP_HASH160).andThen ((hhash hash).andThen
      ((writes_op OP_EQUALVERIFY).andThen (writes_op OP_CHECKSIG))))
  | scriptHash hash => exact (writes_op OP_HASH160).andThen ((hhash hash).andThen (writes_op OP_EQUAL))
  | witnessPubKeyHash program => exact (writes_op OP_0).andThen (hhash program)
  | witnessScriptHash program =>
    exact (writes_op OP_0).andThen (writes_data (by rw [program.2]; decide) (by rw [program.2]; decide))
  | htlc script => exact ⟨nofun, nofun⟩

theorem parsed_htlcScript (hn : 0 ≤ n)
    (h : htlcScript address n = .ok script) : parsed script = .ok ((htlcChunks address n).map Prod.snd) := by
  have hwrites := (writes_op OP_INPUTAGE).andThen ((writes_int hn).andThen ((writes_op OP_GREATERTHAN).andThen
    ((writes_op OP_IF).andThen ((writes_address address).andThen ((writes_op OP_ELSE).andThen
      ((writes_op OP_RETURN).andThen (writes_op OP_ENDIF)))))))
  exact hwrites.parsed h

theorem parsed_payToScriptHashScript {scriptHash : FixedBytes 20}
    (h : payToScriptHashScript scriptHash.1 = .ok script) :
    parsed script = .ok ((addressChunks (.scriptHash scriptHash)).map Prod.snd) :=
  (writes_address (.scriptHash scriptHash)).parsed h

/-! ## Opcodes of the templates -/

section
variable {pops inner : List ParsedOpcode} {c : ScriptClass}

theorem isScriptHash_inv (h : isScriptHash pops) : ∃ d₁ data d₂, pops =
    [⟨OP_HASH160, d₁⟩, ⟨OP_DATA_20, data⟩, ⟨OP_EQUAL, d₂⟩] := by
  have hv : pops.map ParsedOpcode.value = [OP_HASH160, OP_DATA_20, OP_EQUAL] := of_decide_eq_true h
  have hlen := congrArg List.length hv
  match pops, hlen with
  | [⟨_, d₁⟩, ⟨_, data⟩, ⟨_, d₂⟩], _ =>
    obtain ⟨rfl, rfl, rfl⟩ := hv
    exact ⟨d₁, data, d₂, rfl⟩

theorem opAt_tail {front back : List ParsedOpcode} {n i k : Nat} (hfront : front.length = n)
    (hi : i = inner.length + n + k) : opAt (front ++ (inner ++ back)) i = opAt back k := by
  subst hi
  have hk : inner.length + n + k - (front ++ inner).length = k := by
    rw [length_append]
    omega
  rw [opAt, opAt, getD_eq_getElem?_getD, getD_eq_getElem?_getD, ← append_assoc,
    getElem?_append_right (by rw [length_append]; omega), hk]

theorem exists_append_of_le {α : Type} {l : List α} {k : Nat} (h : k ≤ l.length) :
    ∃ front back, l = front ++ back ∧ back.length = k :=
  ⟨l.take (l.length - k), l.drop (l.length - k), (take_append_drop _ l).symm, by simp; omega⟩

structure HtlcOps (pops : List ParsedOpcode) (lock : ParsedOpcode) (inner : List ParsedOpcode) : Prop where
  pops_eq : ∃ d₁ d₂ d₃ d₄ d₅ d₆, pops = [⟨OP_INPUTAGE, d₁⟩, lock, ⟨OP_GREATERTHAN, d₂⟩, ⟨OP_IF, d₃⟩] ++
    (inner ++ [⟨OP_ELSE, d₄⟩, ⟨OP_RETURN, d₅⟩, ⟨OP_ENDIF, d₆⟩])
  number : isNumber lock

theorem isHTLC_inv (h : isHTLC pops = some c) : ∃ lock inner, HtlcOps pops lock inner ∧
    (c = .pubKeyTy → isPubkey inner) ∧ (c = .pubKeyHashTy → isPubkeyHash inner) ∧
    (c = .scriptHashTy → isScriptHash inner) := by
  simp only [isHTLC, getElem_eq_opAt] at h
  split at h
  · nomatch h
  next hlen =>
  split at h
  · nomatch h
  next htemplate =>
  simp only [Bool.not_eq_true', Bool.not_eq_false, Bool.and_eq_true, Classical.not_not] at hlen htemplate
  obtain ⟨⟨⟨⟨⟨⟨h0, h1⟩, h2⟩, h3⟩, helse⟩, hreturn⟩, hend⟩ := htemplate
  obtain ⟨front, rest, rfl, hfront⟩ : ∃ front rest, pops = front ++ rest ∧ front.length = 4 :=
    ⟨pops.take 4, pops.drop 4, (take_append_drop 4 pops).symm, by simp; omega⟩
  have hrest : 3 ≤ rest.length := by
    rw [length_append, hfront] at hlen
    omega
  obtain ⟨inner, back, rfl, hback⟩ := exists_append_of_le hrest
  have hlength : (front ++ (inner ++ back)).length = inner.length + 7 := by
    rw [length_append, length_append, hfront, hback]
    omega
  have hpart : ((front ++ (inner ++ back)).drop 4).take (inner.length + 7 - 7) = inner := by
    rw [← hfront, drop_left, Nat.add_sub_cancel, take_left]
  rw [opAt_tail (k := 0) hfront (by omega)] at helse
  rw [opAt_tail (k := 1) hfront (by omega)] at hreturn
  rw [opAt_tail (k := 2) hfront (by omega)] at hend
  match front, hfront, back, hback with
  | [⟨v₁, d₁⟩, lock, ⟨v₂, d₂⟩, ⟨v₃, d₃⟩], _, [⟨v₄, d₄⟩, ⟨v₅, d₅⟩, ⟨v₆, d₆⟩], _ =>
    obtain rfl : v₁ = OP_INPUTAGE := of_decide_eq_true h0
    obtain rfl : v₂ = OP_GREATERTHAN := of_decide_eq_true h2
    obtain rfl : v₃ = OP_IF := of_decide_eq_true h3
    obtain rfl : v₄ = OP_ELSE := of_decide_eq_true helse
    obtain rfl : v₅ = OP_RETURN := of_decide_eq_true hreturn
    obtain rfl : v₆ = OP_ENDIF := of_decide_eq_true hend
    refine ⟨lock, inner, ⟨⟨d₁, d₂, d₃, d₄, d₅, d₆, rfl⟩, h1⟩, ?_, ?_, ?_⟩
    all_goals
      rintro rfl
      split_ifs at h <;> simp_all

end

/-! ## Room for what is added -/

section Room
variable {data script : Bytes}

theorem canonicalDataSize_le (h : data.length ≤ 0xffff) : canonicalDataSize data ≤ data.length + 3 := by
  unfold canonicalDataSize
  dsimp only
  split_ifs <;> omega

theorem length_dataPush_le (h : data.length ≤ maxScriptElementSize) : (dataPush data).length ≤ data.length + 3 := by
  have helement : maxScriptElementSize = 520 := rfl
  unfold dataPush
  dsimp only
  split_ifs <;> simp [length_leBytes] <;> omega

theorem addData_item (h : data.length ≤ maxScriptElementSize) (hsize : script.length + data.length + 3 ≤ maxScriptSize) :
    addData data script = .ok (script ++ dataPush data) := by
  have helement : maxScriptElementSize = 520 := rfl
  have hcanonical : canonicalDataSize data ≤ data.length + 3 := canonicalDataSize_le (by omega)
  simp only [addData, ok_rules, and_true]
  constructor <;> omega

/-- The step succeeds on a script with room for `k` bytes more, and appends no more. -/
def Room (k : Nat) (f : Bytes → Except ScriptError Bytes) : Prop :=
  ∀ script, script.length + k ≤ maxScriptSize → ∃ script', f script = .ok script' ∧ script'.length ≤ script.length + k

section
variable {k l : Nat} {f g : Bytes → Except ScriptError Bytes}

theorem Room.mono (h : Room k f) (hle : k ≤ l) : Room l f := by
  intro script hl
  obtain ⟨script', hf, hlen⟩ := h script (by omega)
  exact ⟨script', hf, by omega⟩

theorem Room.andThen (h : Room k f) (h' : Room l g) : Room (k + l) (fun script => f script >>= g) := by
  intro script hle
  obtain ⟨script₁, hf, hlen⟩ := h script (by omega)
  obtain ⟨script₂, hg, hlen'⟩ := h' script₁ (by omega)
  exact ⟨script₂, bind_eq_ok.2 ⟨script₁, hf, hg⟩, by omega⟩

end

theorem room_op (opcode : Nat) : Room 1 (addOp opcode) := by
  intro script hle
  simp only [addOp, ok_rules]
  exact ⟨_, ⟨Nat.not_lt.2 hle, rfl⟩, by simp⟩

theorem room_data (h : data.length ≤ maxScriptElementSize) : Room (data.length + 3) (addData data) := by
  intro script hle
  have hlen := length_dataPush_le h
  exact ⟨_, addData_item h (by omega), by rw [length_append]; omega⟩

theorem room_int {n : Int} (hn : 0 ≤ n) : Room 78 (addInt64 n) := by
  intro script hle
  have hone : ¬maxScriptSize < script.length + 1 := by omega
  simp only [addInt64, ok_rules, hone, not_false_eq_true, true_and]
  split_ifs with h0 hsmall
  · exact ⟨_, rfl, by simp⟩
  · exact ⟨_, rfl, by simp⟩
  · obtain ⟨-, hlen, -⟩ := dataPush_scriptNumBytes (n := n) (by omega)
    exact (room_data (hlen.trans (by decide))).mono (by omega) script hle

end Room

end Jaxnetd.TxScript
