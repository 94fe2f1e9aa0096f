import Jaxnetd.TxScript.MultiSig

/-!
# Runs through a multisig lock

`MultiSigLockScript` (`multisig.go`) compares the age of the input with its period. Below it the signatures of the keys are
asked for, from it on that of the refund key. A run that succeeds has found them on the stack left by the signature script
(`multiSigLock_signed`).
-/

namespace Jaxnetd.TxScript
open Wire Checks Engine Stack List

/-! ## `MultiSigLockScript` -/

/-- `ScriptAddress` of an `AddressPubKey`. -/
abbrev PubKeyBytes := { b : Bytes // b.length = 33 ∨ b.length = 65 }

variable (pubkeys : List PubKeyBytes)

def pubKeysToAddresses (sortKeys : Bool) : List PubKeyBytes :=
  if sortKeys then pubkeys.mergeSort fun a b => !decide (b.1 < a.1) else pubkeys

def addKeys : List PubKeyBytes → Bytes → Except ScriptError Bytes
  | [], script => .ok script
  | key :: keys, script => do
    let script ← addData key.1 script
    addKeys keys script

def multiSigLockScript (sigRequired : Int) (refundAddress : PubKeyBytes)
    (refundDeferringPeriod : Int) (sortKeys : Bool) : Except ScriptError Bytes := do
  failIf ((pubkeys.length : Int) < sigRequired) ⟨.other, "unable to generate multisig script with " ++
    toString sigRequired ++ " required signatures when there are only " ++ toString pubkeys.length ++
    " public keys available"⟩
  let script ← addOp OP_INPUTAGE []
  let script ← addInt64 refundDeferringPeriod script
  let script ← addOp OP_LESSTHAN script
  let script ← addOp OP_IF script
  let script ← addInt64 sigRequired script
  let script ← addKeys (pubKeysToAddresses pubkeys sortKeys) script
  let script ← addInt64 pubkeys.length script
  let script ← addOp OP_CHECKMULTISIG script
  let script ← addOp OP_ELSE script
  let script ← addData refundAddress.1 script
  let script ← addOp OP_CHECKSIG script
  let script ← addOp OP_NIP script
  addOp OP_ENDIF script

/-! ## Its opcodes -/

def multiSigChunks (m : Int) (keys : List PubKeyBytes) : List (Bytes × ParsedOpcode) :=
  intChunk m :: keys.map (fun key => pushChunk key.1) ++ [intChunk keys.length, opChunk OP_CHECKMULTISIG]

def refundChunks (refund : PubKeyBytes) : List (Bytes × ParsedOpcode) :=
  [pushChunk refund.1, opChunk OP_CHECKSIG, opChunk OP_NIP]

def multiSigLockChunks (m : Int) (keys : List PubKeyBytes) (refund : PubKeyBytes) (period : Int) :
    List (Bytes × ParsedOpcode) :=
  [opChunk OP_INPUTAGE, intChunk period, opChunk OP_LESSTHAN, opChunk OP_IF] ++ multiSigChunks m keys ++
    opChunk OP_ELSE :: refundChunks refund ++ [opChunk OP_ENDIF]

theorem length_pubKeysToAddresses (sortKeys : Bool) :
    (pubKeysToAddresses pubkeys sortKeys).length = pubkeys.length := by
  unfold pubKeysToAddresses
  split <;> simp

theorem writes_key (key : PubKeyBytes) : Writes (addData key.1) [pushChunk key.1] := by
  exact writes_data (by omega) (by omega)

theorem writes_keys (keys : List PubKeyBytes) : Writes (addKeys keys) (keys.map fun key => pushChunk key.1) := by
  induction keys with
  | nil => exact ⟨fun h => by cases h; simp, nofun⟩
  | cons key keys ih => exact (writes_key key).andThen ih

variable {pubkeys keys : List PubKeyBytes} {m period : Int} {refund : PubKeyBytes} {sortKeys : Bool} {script : Bytes}

theorem parsed_multiSigLockScript (hm : 0 ≤ m) (hperiod : 0 ≤ period)
    (h : multiSigLockScript pubkeys m refund period sortKeys = .ok script) :
    parsed script = .ok ((multiSigLockChunks m (pubKeysToAddresses pubkeys sortKeys) refund period).map Prod.snd) := by
  obtain ⟨-, -, h⟩ := bind_eq_ok.1 h
  have hwrites := (writes_op OP_INPUTAGE).andThen ((writes_int hperiod).andThen ((writes_op OP_LESSTHAN).andThen
    ((writes_op OP_IF).andThen ((writes_int hm).andThen ((writes_keys (pubKeysToAddresses pubkeys sortKeys)).andThen
    ((writes_int (Int.natCast_nonneg pubkeys.length)).andThen ((writes_op OP_CHECKMULTISIG).andThen
    ((writes_op OP_ELSE).andThen ((writes_key refund).andThen ((writes_op OP_CHECKSIG).andThen
    ((writes_op OP_NIP).andThen (writes_op OP_ENDIF))))))))))))
  rw [hwrites.parsed h]
  simp [multiSigLockChunks, multiSigChunks, refundChunks, length_pubKeysToAddresses]

/-! ## Inside the public key script -/

section Run
variable {H : Type} [ChainHash H] [Primitives] {ctx : EngineCtx H} {vm : Engine} {Q : Engine → Prop}
  {pops front back : List ParsedOpcode} {op next : ParsedOpcode} {stk : List Bytes} {cond cs : List OpCond} {n : Int}
  {c : OpCond}

/-- What a handler sees of the engine in a script that has no code separator and is no witness program. -/
structure Ready (vm : Engine) (pops : List ParsedOpcode) (stk : List Bytes) (cond : List OpCond) : Prop where
  subScript : vm.subScript = pops
  witnessProgram : vm.witnessProgram = none
  stk : vm.dstack.stk = stk
  cond : vm.condStack = cond

/-- The engine between `front` and `back` in the public key script, which is the last one. -/
structure InScript (vm : Engine) (front back : List ParsedOpcode) (stk : List Bytes) (cond : List OpCond) : Prop where
  place : At vm 1 front back
  length : vm.scripts.length = 2
  lastCodeSep : vm.lastCodeSep = 0
  witnessProgram : vm.witnessProgram = none
  stk : vm.dstack.stk = stk
  cond : vm.condStack = cond

def Does (ctx : EngineCtx H) (op : ParsedOpcode) (pops : List ParsedOpcode) (stk : List Bytes) (cond : List OpCond)
    (R : List Bytes → List OpCond → Prop) : Prop :=
  ∀ vm vm', Ready vm pops stk cond → opfunc ctx op vm = .ok ((), vm') →
    R vm'.dstack.stk vm'.condStack ∧ vm'.lastCodeSep = vm.lastCodeSep

omit [ChainHash H] [Primitives] in
theorem InScript.ready (h : InScript vm front back stk cond) (off n : Nat) :
    Ready { vm with scriptOff := off, numOps := n } (front ++ back) stk cond := by
  refine ⟨?_, h.witnessProgram, h.stk, h.cond⟩
  simp [Engine.subScript, Engine.script, getD_eq_getElem?_getD, h.place.scriptIdx, h.place.script, h.lastCodeSep]

variable {R : List Bytes → List OpCond → Prop} {age : Int}

theorem InScript.exec (h : InScript vm front (op :: next :: back) stk cond)
    (hrun : vm.isBranchExecuting ∨ op.isConditional) (hdoes : Does ctx op (front ++ op :: next :: back) stk cond R)
    (hnext : ∀ vm' stk' cond', R stk' cond' → InScript vm' (front ++ [op]) (next :: back) stk' cond' → Yields ctx vm' Q) :
    Yields ctx vm Q := by
  refine h.place.yields_exec hrun fun n vm' hfunc hat => ?_
  obtain ⟨hR, hsep⟩ := hdoes _ vm' (h.ready _ _) hfunc
  have hsame := keeps_opfunc ctx op _ _ _ hfunc
  exact hnext vm' _ _ hR ⟨hat, by rw [hsame.scripts]; exact h.length, by rw [hsep]; exact h.lastCodeSep,
    by rw [hsame.witnessProgram]; exact h.witnessProgram, rfl, rfl⟩

theorem InScript.skip {ops : List ParsedOpcode}
    (h : InScript vm front (ops ++ next :: back) stk (.condFalse :: cs)) (hops : ∀ op ∈ ops, ¬op.isConditional)
    (hnext : ∀ vm', InScript vm' (front ++ ops) (next :: back) stk (.condFalse :: cs) → Yields ctx vm' Q) :
    Yields ctx vm Q := by
  induction ops generalizing vm front with
  | nil => exact hnext vm (by simpa using h)
  | cons op ops ih =>
    rw [forall_mem_cons] at hops
    obtain ⟨next', rest, hrest⟩ : ∃ next' rest, ops ++ next :: back = next' :: rest := by
      cases ops <;> exact ⟨_, _, rfl⟩
    have hplace := h.place
    rw [cons_append, hrest] at hplace
    refine hplace.yields fun vm' hexec hat => ?_
    obtain ⟨n, hn⟩ := executeOpcode_ok hexec
    have hbranch : ¬vm.advance.isBranchExecuting := by
      simp [isBranchExecuting, h.cond]
    rw [if_neg (by simp [hbranch, hops.1])] at hn
    subst hn
    rw [← hrest] at hat
    refine ih ⟨hat, h.length, h.lastCodeSep, h.witnessProgram, h.stk, h.cond⟩ hops.2 fun vm'' hvm'' => hnext vm'' ?_
    rwa [append_assoc, singleton_append] at hvm''

theorem InScript.last (h : InScript vm front [op] stk cond) (hbip16 : ctx.bip16 = false)
    (hrun : vm.isBranchExecuting ∨ op.isConditional) (hdoes : Does ctx op (front ++ [op]) stk cond R)
    (hend : ∀ last cond', R last.dstack.stk cond' → Q last) : Yields ctx vm Q := by
  refine .of_step fun done vm' hstep => ?_
  obtain ⟨vm₁, hstepped, hlen⟩ := h.place.stepped hstep
  obtain ⟨-, vm₂, hfinish, hdone, hvm'⟩ := hstepped.finished (Nat.le_of_eq hlen)
  obtain ⟨n, hfunc⟩ := opfunc_of_executeOpcode (by exact hrun) hstepped.executed
  obtain ⟨hR, -⟩ := hdoes _ vm₁ (h.ready _ _) hfunc
  have hsame := keeps_opfunc ctx op _ _ _ hfunc
  have hidx : vm₁.scriptIdx = 1 := hsame.scriptIdx.trans h.place.scriptIdx
  have hwitness : vm₁.witnessProgram = none := hsame.witnessProgram.trans h.witnessProgram
  have hscripts : vm₁.scripts.length = 2 := by rw [hsame.scripts]; exact h.length
  rw [finishScript, hidx] at hfinish
  simp only [hbip16, hwitness] at hfinish
  cases hfinish
  subst hvm'
  subst hdone
  simp only [hscripts]
  exact hend _ _ hR

/-! ## Opcodes of the lock -/

def Stacks (stk : List Bytes) (cond : List OpCond) (stk' : List Bytes) (cond' : List OpCond) : Prop :=
  stk' = stk ∧ cond' = cond

theorem does_onD {m : StackM Unit} {stk' : List Bytes} (hop : opfunc ctx op = onD m)
    (hm : ∀ d d', d.stk = stk → m d = .ok ((), d') → d'.stk = stk') : Does ctx op pops stk cond (Stacks stk' cond) := by
  intro vm vm' hready hfunc
  rw [hop] at hfunc
  obtain ⟨d, hd, rfl⟩ := onD_ok hfunc
  exact ⟨⟨hm _ _ hready.stk hd, hready.cond⟩, rfl⟩

theorem does_pushBytes {data : Bytes} (hop : opfunc ctx op = onD (pushByteArray data)) :
    Does ctx op pops stk cond (Stacks (data :: stk) cond) := by
  refine does_onD hop fun d d' hd h => ?_
  cases h
  simp [hd]

theorem does_inputAge : Does ctx (opChunk OP_INPUTAGE).2 pops stk cond (Stacks (scriptNumBytes ctx.inputAge :: stk) cond) :=
  does_pushBytes rfl

theorem does_int (hn : 0 ≤ n) : Does ctx (intChunk n).2 pops stk cond (Stacks (scriptNumBytes n :: stk) cond) :=
  does_pushBytes (opfunc_intChunk hn)

theorem does_key (key : PubKeyBytes) : Does ctx (pushChunk key.1).2 pops stk cond (Stacks (key.1 :: stk) cond) := by
  exact does_pushBytes (opfunc_data (by simp only [pushChunk, OP_PUSHDATA4]; omega))

theorem does_lessThan : Does ctx (opChunk OP_LESSTHAN).2 pops (scriptNumBytes n :: scriptNumBytes age :: stk) cond
    (Stacks (scriptNumBytes (if age < n then 1 else 0) :: stk) cond) := by
  intro vm vm' hready hfunc
  obtain ⟨x₀, x₁, s, v₀, v₁, hpop, hnum₀, hnum₁, rfl⟩ := numTest_ok (by exact hfunc)
  obtain ⟨rfl, htail⟩ := List.cons.inj (hready.stk.symm.trans hpop)
  obtain ⟨rfl, rfl⟩ := List.cons.inj htail
  obtain rfl := makeScriptNum_scriptNumBytes (by decide) hnum₀
  obtain rfl := makeScriptNum_scriptNumBytes (by decide) hnum₁
  exact ⟨⟨by simp, hready.cond⟩, rfl⟩

theorem does_nip {x : Bytes} : Does ctx (opChunk OP_NIP).2 pops (x :: stk) cond fun stk' cond' =>
    (∃ rest, stk' = x :: rest) ∧ cond' = cond := by
  intro vm vm' hready hfunc
  obtain ⟨d, hd, rfl⟩ := onD_ok (show onD (nipN 1 >>= fun _ => pure ()) vm = .ok ((), vm') from hfunc)
  obtain ⟨_, d₁, hnip, hd⟩ := stateT_bind_ok hd
  simp only [nipN, ok_rules] at hnip
  obtain ⟨_, -, -, rfl⟩ := hnip
  cases hd
  refine ⟨⟨⟨stk.eraseIdx 0, ?_⟩, hready.cond⟩, rfl⟩
  rw [hready.stk]
  rfl

theorem does_if {x : Bytes} : Does ctx (opChunk OP_IF).2 pops (x :: stk) []
    (Stacks stk [if asBool x then .condTrue else .condFalse]) := by
  intro vm vm' hready hfunc
  obtain ⟨y, s, hy, rfl⟩ := opcodeIf_ok hready.cond hfunc
  obtain ⟨rfl, hstk⟩ := List.cons.inj (hready.stk.symm.trans hy)
  exact ⟨⟨hstk.symm, rfl⟩, rfl⟩

theorem does_else (hc : c ≠ .condSkip) : Does ctx (opChunk OP_ELSE).2 pops stk (c :: cs)
    (Stacks stk ((if c = .condTrue then .condFalse else .condTrue) :: cs)) := by
  intro vm vm' hready hfunc
  cases (opcodeElse_eq hc hready.cond).symm.trans hfunc
  exact ⟨⟨hready.stk, rfl⟩, rfl⟩

theorem does_endif : Does ctx (opChunk OP_ENDIF).2 pops stk (c :: cs) (Stacks stk cs) := by
  intro vm vm' hready hfunc
  cases (opcodeEndif_eq hready.cond).symm.trans hfunc
  exact ⟨⟨hready.stk, rfl⟩, rfl⟩

/-! ## Signatures -/

/-- A signature, with its hash type behind it, is valid for the input under a key, when `script` is what is signed. -/
def ValidFor (ctx : EngineCtx H) (script : List ParsedOpcode) (key fullSig : Bytes) : Prop :=
  ∃ pubKey signature, Primitives.parsePubKey key = some pubKey ∧ parseSig ctx (splitSig fullSig).2 = some signature ∧
    Primitives.verify signature (calcSignatureHash script (splitSig fullSig).1 ctx.tx ctx.txIdx) pubKey = true

omit [Primitives] in
theorem sigHash_eq {script : List ParsedOpcode} {hashType : Nat} {hash : Bytes} (hwitness : vm.witnessProgram = none)
    (h : sigHash ctx vm script hashType = .ok hash) : hash = calcSignatureHash script hashType ctx.tx ctx.txIdx := by
  rw [sigHash, if_neg (by simp [isWitnessVersionActive, hwitness])] at h
  exact (Except.ok.inj h).symm

theorem checkSig_valid {key fullSig : Bytes} (hready : Ready vm pops stk cond) (h : checkSig ctx vm key fullSig = .ok true) :
    ValidFor ctx (removeOpcodeByData pops fullSig) key fullSig := by
  unfold checkSig at h
  split at h
  · cases h
  have hactive : vm.isWitnessVersionActive 0 = false := by simp [isWitnessVersionActive, hready.witnessProgram]
  simp only [ok_rules, hactive, hready.subScript, Bool.false_eq_true, if_false] at h
  obtain ⟨-, -, -, hash, hhash, h⟩ := h
  rw [sigHash_eq hready.witnessProgram hhash] at h
  split at h
  · next pubKey signature hkey hsig =>
    simp only [ok_rules] at h
    exact ⟨pubKey, signature, hkey, hsig, h.2⟩
  · cases h

theorem does_checkSig {key : Bytes} : Does ctx (opChunk OP_CHECKSIG).2 pops (key :: stk) cond fun stk' cond' =>
    ∃ sig rest valid, stk = sig :: rest ∧ stk' = fromBool valid :: rest ∧ cond' = cond ∧
      (valid = true → ValidFor ctx (removeOpcodeByData pops sig) key sig) := by
  intro vm vm' hready hfunc
  have hfunc' : opcodeCheckSig ctx vm = .ok ((), vm') := hfunc
  obtain ⟨pk, vm₁, hpk, hfunc'⟩ := stateT_bind_ok hfunc'
  obtain ⟨d₁, hd₁, rfl⟩ := onD_ok hpk
  obtain ⟨sig, vm₂, hsig, hfunc'⟩ := stateT_bind_ok hfunc'
  obtain ⟨d₂, hd₂, rfl⟩ := onD_ok hsig
  obtain ⟨vm₃, vm₄, hget, hfunc'⟩ := stateT_bind_ok hfunc'
  cases hget
  obtain ⟨valid, vm₅, hvalid, hfunc'⟩ := stateT_bind_ok hfunc'
  obtain ⟨valid', hcheck, hpure⟩ := bind_eq_ok.1 hvalid
  cases hpure
  obtain ⟨d₃, hd₃, rfl⟩ := onD_ok hfunc'
  cases hd₃
  have hkey := (popByteArray_ok hd₁).1
  rw [hready.stk, List.cons.injEq] at hkey
  obtain ⟨rfl, hrest⟩ := hkey
  have hstk := (popByteArray_ok hd₂).1
  refine ⟨⟨sig, d₂.stk, valid, hrest.trans hstk, rfl, hready.cond, fun hv => ?_⟩, rfl⟩
  subst hv
  exact checkSig_valid ⟨hready.subScript, hready.witnessProgram, rfl, rfl⟩ hcheck

/-- Signatures and keys that the loop has matched, each key at a place behind that of the signature before. -/
def Matched (ctx : EngineCtx H) (script : List ParsedOpcode) : List Bytes → List Bytes → Prop := InOrder (ValidFor ctx script)

theorem matched_of_loop {script : List ParsedOpcode} (hwitness : vm.witnessProgram = none) {keys sigs : List Bytes}
    (h : multiSigLoop ctx vm script keys sigs = .ok true) : Matched ctx script keys sigs := by
  obtain ⟨-, -, -, hiff⟩ := multiSigLoop_iff h
  refine (hiff.1 rfl).imp fun key sig _ hverifies => ?_
  obtain ⟨-, pubKey, signature, digest, hkey, hsig, hdigest, hverify⟩ := hverifies
  exact ⟨pubKey, signature, hkey, hsig, sigHash_eq hwitness hdigest ▸ hverify⟩

omit [ChainHash H] [Primitives] in
theorem scriptNumInt32_eq {k : Int} (hn : 0 ≤ n) (hk : k < maxInt32) (h : scriptNumInt32 n = k) : n = k := by
  have hmin : minInt32 = -2 ^ 31 := rfl
  rw [scriptNumInt32] at h
  split_ifs at h
  · omega
  · omega
  · exact h

theorem does_checkMultiSig {keys : List Bytes} {n : Nat} {m : Int} (hlen : keys.length = n) (hm : 0 ≤ m) :
    Does ctx (opChunk OP_CHECKMULTISIG).2 pops (scriptNumBytes n :: (keys ++ scriptNumBytes m :: stk)) cond
      fun stk' cond' => ∃ sigs dummy rest success, stk = sigs ++ dummy :: rest ∧ (sigs.length : Int) = m ∧
        stk' = fromBool success :: rest ∧ cond' = cond ∧
        (success = true → Matched ctx (sigs.foldl removeOpcodeByData pops) keys sigs) := by
  intro vm vm' hready hfunc
  obtain ⟨_, _, keys', sigs, success, hchecked⟩ := opcodeCheckMultiSig_ok (by exact hfunc)
  obtain ⟨so, so', dummy, rest, hstk, hnum, hnum', hstk'⟩ := hchecked.stk
  obtain ⟨d, numOps, rfl⟩ := hchecked.engine
  obtain ⟨rfl, htail⟩ := List.cons.inj (hready.stk.symm.trans hstk)
  obtain rfl := makeScriptNum_scriptNumBytes (by decide) hnum
  have hmax : (keys'.length : Int) < maxInt32 := Int.lt_of_le_of_lt (Int.ofNat_le.2 hchecked.few) (by decide)
  have hlen := scriptNumInt32_eq (Int.natCast_nonneg _) hmax hchecked.numKeys
  obtain ⟨rfl, hrest⟩ := append_inj htail (by omega)
  obtain ⟨rfl, rfl⟩ := List.cons.inj hrest
  obtain rfl := makeScriptNum_scriptNumBytes (by decide) hnum'
  refine ⟨⟨sigs, dummy, rest, success, rfl, ?_, hstk', hready.cond, fun hs => ?_⟩, rfl⟩
  · have hfewer := hchecked.fewer
    exact (scriptNumInt32_eq hm (by omega) hchecked.numSigs).symm
  · subst hs
    have hmatched := matched_of_loop hready.witnessProgram hchecked.loop
    rwa [multiSigScript, if_neg (by simp [isWitnessVersionActive, hready.witnessProgram]), hready.subScript] at hmatched

/-! ## Through the lock -/

section
omit [ChainHash H] [Primitives]

theorem InScript.running (h : InScript vm front back stk (.condTrue :: cs)) : vm.isBranchExecuting ∨ op.isConditional :=
  Or.inl (by simp [isBranchExecuting, h.cond])

theorem value_key (key : PubKeyBytes) : (pushChunk key.1).2.value ≤ OP_16 := by
  simp only [pushChunk, OP_16]
  omega

theorem value_int (hn : 0 ≤ n) : (intChunk n).2.value ≤ OP_16 := by
  unfold intChunk
  split
  · exact Nat.zero_le _
  · split
    · simp only [opChunk, OP_1, OP_16]
      omega
    · exact (dataPush_scriptNumBytes (show 16 < n by omega)).2.1.trans (by decide)

theorem not_conditional_multiSig (hm : 0 ≤ m) : ∀ op ∈ (multiSigChunks m keys).map Prod.snd, ¬op.isConditional := by
  intro op hop
  simp only [multiSigChunks, map_cons, map_append, map_map, cons_append, map_nil, mem_cons,
    mem_append, mem_map, Function.comp_apply, not_mem_nil, or_false] at hop
  rcases hop with rfl | ⟨key, -, rfl⟩ | rfl | rfl
  · exact not_conditional_push (value_int hm)
  · exact not_conditional_push (value_key key)
  · exact not_conditional_push (value_int (Int.natCast_nonneg _))
  · decide

theorem not_conditional_refund : ∀ op ∈ (refundChunks refund).map Prod.snd, ¬op.isConditional := by
  intro op hop
  simp only [refundChunks, map_cons, map_nil, mem_cons, not_mem_nil, or_false] at hop
  rcases hop with rfl | rfl | rfl
  · exact not_conditional_push (value_key refund)
  · decide
  · decide

end

theorem InScript.pushKeys {keys : List PubKeyBytes}
    (h : InScript vm front (keys.map (fun key => (pushChunk key.1).2) ++ next :: back) stk (.condTrue :: cs))
    (hnext : ∀ vm', InScript vm' (front ++ keys.map fun key => (pushChunk key.1).2) (next :: back)
      ((keys.map Subtype.val).reverse ++ stk) (.condTrue :: cs) → Yields ctx vm' Q) : Yields ctx vm Q := by
  induction keys generalizing vm front stk with
  | nil => exact hnext vm (by simpa using h)
  | cons key keys ih =>
    obtain ⟨next', rest, hrest⟩ : ∃ next' rest, keys.map (fun key => (pushChunk key.1).2) ++ next :: back =
      next' :: rest := by
      cases keys <;> exact ⟨_, _, rfl⟩
    rw [map_cons, cons_append, hrest] at h
    refine h.exec h.running (does_key key) fun vm₁ _ _ hR hvm₁ => ?_
    obtain ⟨rfl, rfl⟩ := hR
    rw [← hrest] at hvm₁
    refine ih hvm₁ fun vm' hvm' => hnext vm' ?_
    simpa using hvm'

/-- `m` signatures on top of the stack are valid, each under a key of its own. -/
def MultiSigned (ctx : EngineCtx H) (pops : List ParsedOpcode) (m : Int) (keys : List PubKeyBytes) (stk : List Bytes) :
    Prop :=
  ∃ sigs rest, stk = sigs ++ rest ∧ (sigs.length : Int) = m ∧ ∃ position : Fin sigs.length → Fin keys.length,
    Function.Injective position ∧
      ∀ i, ValidFor ctx (sigs.foldl removeOpcodeByData pops) (keys.get (position i)).1 (sigs.get i)

def RefundSigned (ctx : EngineCtx H) (pops : List ParsedOpcode) (refund : PubKeyBytes) (stk : List Bytes) : Prop :=
  ∃ sig rest, stk = sig :: rest ∧ ValidFor ctx (removeOpcodeByData pops sig) refund.1 sig

theorem multiSigned_of_matched {sigs rest : List Bytes} (hstk : stk = sigs ++ rest) (hlen : (sigs.length : Int) = m)
    (h : Matched ctx (sigs.foldl removeOpcodeByData pops) (keys.map Subtype.val).reverse sigs) :
    MultiSigned ctx pops m keys stk := by
  obtain ⟨f, hmono, hall⟩ := InOrder.iff_position.1 h
  have hkeys : (keys.map Subtype.val).reverse.length = keys.length := by simp
  refine ⟨sigs, rest, hstk, hlen, fun i => ((f i).cast hkeys).rev, fun i j hij => ?_, fun i => ?_⟩
  · exact hmono.injective (Fin.cast_injective _ (Fin.rev_injective hij))
  · have hkey : (keys.get ((f i).cast hkeys).rev).1 = (keys.map Subtype.val).reverse.get (f i) := by
      simp only [get_eq_getElem, getElem_reverse, getElem_map, Fin.rev, Fin.val_cast, length_map]
      congr 2
      omega
    rw [hkey]
    exact hall i

theorem InScript.multiSig (hm : 0 ≤ m)
    (h : InScript vm front ((multiSigChunks m keys).map Prod.snd ++ next :: back) stk [.condTrue])
    (hnext : ∀ vm' success rest,
      InScript vm' (front ++ (multiSigChunks m keys).map Prod.snd) (next :: back) (fromBool success :: rest) [.condTrue] →
      (success = true → MultiSigned ctx (front ++ ((multiSigChunks m keys).map Prod.snd ++ next :: back)) m keys stk) →
      Yields ctx vm' Q) : Yields ctx vm Q := by
  have hops : (multiSigChunks m keys).map Prod.snd = (intChunk m).2 :: (keys.map (fun key => (pushChunk key.1).2) ++
      [(intChunk keys.length).2, (opChunk OP_CHECKMULTISIG).2]) := by
    simp [multiSigChunks, Function.comp_def]
  rw [hops] at h hnext
  obtain ⟨op, more, hmore⟩ : ∃ op more, keys.map (fun key => (pushChunk key.1).2) ++
      [(intChunk keys.length).2, (opChunk OP_CHECKMULTISIG).2] ++ next :: back = op :: more := by
    cases keys <;> exact ⟨_, _, rfl⟩
  rw [cons_append, hmore] at h
  refine h.exec h.running (does_int hm) fun vm₁ _ _ hR h₁ => ?_
  obtain ⟨rfl, rfl⟩ := hR
  rw [← hmore, append_assoc] at h₁
  refine h₁.pushKeys fun vm₂ h₂ => h₂.exec h₂.running (does_int (Int.natCast_nonneg _)) fun vm₃ _ _ hR h₃ => ?_
  obtain ⟨rfl, rfl⟩ := hR
  refine h₃.exec h₃.running (does_checkMultiSig (by simp) hm) fun vm₄ _ _ hR h₄ => ?_
  obtain ⟨sigs, dummy, rest, success, hstk, hlen, rfl, rfl, hmatched⟩ := hR
  refine hnext vm₄ success rest (by simpa using h₄) fun hsuccess => multiSigned_of_matched hstk hlen ?_
  simpa using hmatched hsuccess

theorem InScript.refundSig (h : InScript vm front ((refundChunks refund).map Prod.snd ++ next :: back) stk [.condTrue])
    (hnext : ∀ vm' success rest,
      InScript vm' (front ++ (refundChunks refund).map Prod.snd) (next :: back) (fromBool success :: rest) [.condTrue] →
      (success = true → RefundSigned ctx (front ++ ((refundChunks refund).map Prod.snd ++ next :: back)) refund stk) →
      Yields ctx vm' Q) : Yields ctx vm Q := by
  simp only [refundChunks, map_cons, map_nil, cons_append, nil_append] at h hnext
  refine h.exec h.running (does_key refund) fun vm₁ _ _ hR h₁ => ?_
  obtain ⟨rfl, rfl⟩ := hR
  refine h₁.exec h₁.running does_checkSig fun vm₂ _ _ hR h₂ => ?_
  obtain ⟨sig, rest, success, rfl, rfl, rfl, hvalid⟩ := hR
  refine h₂.exec h₂.running does_nip fun vm₃ _ _ hR h₃ => ?_
  obtain ⟨⟨rest', rfl⟩, rfl⟩ := hR
  refine hnext vm₃ success rest' (by simpa using h₃) fun hsuccess => ⟨sig, rest, rfl, ?_⟩
  simpa using hvalid hsuccess

def multiSigLockOps (m : Int) (keys : List PubKeyBytes) (refund : PubKeyBytes) (period : Int) : List ParsedOpcode :=
  (multiSigLockChunks m keys refund period).map Prod.snd

def Signed (ctx : EngineCtx H) (m : Int) (keys : List PubKeyBytes) (refund : PubKeyBytes) (period : Int)
    (stk : List Bytes) : Prop :=
  (ctx.inputAge < period → MultiSigned ctx (multiSigLockOps m keys refund period) m keys stk) ∧
    (period ≤ ctx.inputAge → RefundSigned ctx (multiSigLockOps m keys refund period) refund stk)

theorem InScript.result {success : Bool} {rest : List Bytes} {P : Prop} (hbip16 : ctx.bip16 = false)
    (h : InScript vm front [(opChunk OP_ENDIF).2] (fromBool success :: rest) [c]) (hsigned : success = true → P) :
    Yields ctx vm fun last => checkErrorCondition ctx true last = .ok () → P := by
  refine h.last hbip16 (Or.inr rfl) does_endif fun last _ hR hcheck => hsigned ?_
  obtain ⟨x, rest', hstk, htrue⟩ := top_of_checkErrorCondition hcheck
  rw [hR.1, List.cons.injEq] at hstk
  rw [← hstk.1] at htrue
  cases success with
  | true => rfl
  | false => cases htrue

theorem InScript.signed (hm : 0 ≤ m) (hperiod : 0 ≤ period) (hbip16 : ctx.bip16 = false)
    (h : InScript vm [] (multiSigLockOps m keys refund period) stk []) :
    Yields ctx vm fun last => checkErrorCondition ctx true last = .ok () → Signed ctx m keys refund period stk := by
  have hops : multiSigLockOps m keys refund period = (opChunk OP_INPUTAGE).2 :: (intChunk period).2 ::
    (opChunk OP_LESSTHAN).2 ::
      (opChunk OP_IF).2 :: ((multiSigChunks m keys).map Prod.snd ++ (opChunk OP_ELSE).2 ::
        ((refundChunks refund).map Prod.snd ++ [(opChunk OP_ENDIF).2])) := by
    simp [multiSigLockOps, multiSigLockChunks]
  have hrun : ∀ {vm : Engine}, vm.condStack = [] → ∀ op : ParsedOpcode, vm.isBranchExecuting ∨ op.isConditional :=
    fun hcond op => Or.inl (isBranchExecuting_nil hcond)
  have hpart := h
  rw [hops] at hpart
  refine hpart.exec (hrun h.cond _) does_inputAge fun vm₁ _ _ hR h₁ => ?_
  obtain ⟨rfl, rfl⟩ := hR
  refine h₁.exec (hrun h₁.cond _) (does_int hperiod) fun vm₂ _ _ hR h₂ => ?_
  obtain ⟨rfl, rfl⟩ := hR
  refine h₂.exec (hrun h₂.cond _) does_lessThan fun vm₃ _ _ hR h₃ => ?_
  obtain ⟨rfl, rfl⟩ := hR
  obtain ⟨op, more, hmore⟩ : ∃ op more, (multiSigChunks m keys).map Prod.snd ++ (opChunk OP_ELSE).2 ::
        ((refundChunks refund).map Prod.snd ++ [(opChunk OP_ENDIF).2]) = op :: more := ⟨_, _, rfl⟩
  rw [hmore] at h₃
  refine h₃.exec (hrun h₃.cond _) does_if fun vm₄ _ _ hR h₄ => ?_
  obtain ⟨rfl, rfl⟩ := hR
  rw [← hmore] at h₄
  by_cases hage : ctx.inputAge < period
  · -- the signatures of the keys are checked, and the part for the refund key is passed over
    rw [if_pos hage] at h₄
    refine h₄.multiSig hm fun vm₅ success rest h₅ hsigned => ?_
    refine h₅.exec (Or.inr rfl) (does_else nofun) fun vm₆ _ _ hR h₆ => ?_
    obtain ⟨rfl, rfl⟩ := hR
    refine h₆.skip not_conditional_refund fun vm₇ h₇ => h₇.result hbip16 fun hsuccess => ⟨fun _ => ?_, fun hle => ?_⟩
    · rw [hops]
      simpa using hsigned hsuccess
    · omega
  · rw [if_neg hage] at h₄
    refine h₄.skip (not_conditional_multiSig hm) fun vm₅ h₅ => ?_
    refine h₅.exec (Or.inr rfl) (does_else nofun) fun vm₆ _ _ hR h₆ => ?_
    obtain ⟨rfl, rfl⟩ := hR
    refine h₆.refundSig fun vm₇ success rest h₇ hsigned => h₇.result hbip16 fun hsuccess =>
      ⟨fun hlt => absurd hlt hage, fun _ => ?_⟩
    rw [hops]
    simpa using hsigned hsuccess

/-! ## From the start of a run -/

section
omit [ChainHash H] [Primitives]

theorem newEngine_plain {pkScript : Bytes} {tx : MsgTx H} {i : Nat} {txIn : TxIn H} {flags : ScriptFlags} {amount : Int}
    (h : newEngine pkScript tx i txIn flags amount age = .ok (ctx, vm)) (hpops : parsed pkScript = .ok pops)
    (hhash : isScriptHash pops = false) (hhtlc : isHTLC pops = none) (hwitness : isWitnessProgramPops pops = false) :
    ctx.bip16 = false ∧ vm.witnessProgram = none ∧ vm.lastCodeSep = 0 := by
  simp only [newEngine, parseScripts, ok_rules] at h
  obtain ⟨-, -, -, sigPops, pkPops, ⟨_, -, _, ⟨-, hpk⟩, rfl, rfl⟩, -, -, program, hprogram, -, version, program', hinfo, rfl,
    rfl⟩ := h
  rw [hpops, Except.ok.injEq] at hpk
  subst hpk
  have hbip16 : (flags.bip16 && (isScriptHash pops || isHTLCWithScriptHash pops)) = false := by
    simp [hhash, isHTLCWithScriptHash, hhtlc]
  rw [hbip16] at hprogram
  have hnone : program = none := by
    simp only [witnessProgramOf, hwitness, isHTLCWitnessScript, hhtlc] at hprogram
    split at hprogram <;> simpa using hprogram.symm
  subst hnone
  cases hinfo
  exact ⟨hbip16, rfl, rfl⟩

theorem multiSigLock_plain (m : Int) (keys : List PubKeyBytes) (refund : PubKeyBytes) (period : Int) :
    isScriptHash (multiSigLockOps m keys refund period) = false ∧ isHTLC (multiSigLockOps m keys refund period) = none ∧
      isWitnessProgramPops (multiSigLockOps m keys refund period) = false := by
  obtain ⟨more, hmore⟩ : ∃ more, multiSigLockOps m keys refund period =
      (opChunk OP_INPUTAGE).2 :: (intChunk period).2 :: (opChunk OP_LESSTHAN).2 :: (opChunk OP_IF).2 :: more := ⟨_, rfl⟩
  rw [hmore]
  refine ⟨rfl, ?_, rfl⟩
  -- the comparison is the other way round
  have hthird : isOpCode (opAt ((opChunk OP_INPUTAGE).2 :: (intChunk period).2 :: (opChunk OP_LESSTHAN).2 ::
      (opChunk OP_IF).2 :: more) 2) OP_GREATERTHAN = false := rfl
  simp only [isHTLC, getElem_eq_opAt, hthird, Bool.and_false, Bool.false_and, Bool.not_false, if_true, dite_eq_ite, ite_self]

end

/-- The scripts of an input that spends a multisig lock succeed only if the signature script leaves the signatures
that the age asks for. -/
theorem signed_of_execute {tx : MsgTx H} {i : Nat} {txIn : TxIn H} {flags : ScriptFlags} {amount : Int} (hm : 0 ≤ m)
    (hperiod : 0 ≤ period) (hscript : multiSigLockScript pubkeys m refund period sortKeys = .ok script)
    (hnew : newEngine script tx i txIn flags amount age = .ok (ctx, vm)) (h : execute ctx vm = .ok ()) :
    ∃ vm', Leads ctx vm vm' ∧ At vm' 1 [] (multiSigLockOps m (pubKeysToAddresses pubkeys sortKeys) refund period) ∧
      Signed ctx m (pubKeysToAddresses pubkeys sortKeys) refund period vm'.dstack.stk := by
  obtain ⟨sigPops, pkPops, hstarted⟩ := newEngine_started hnew
  have hpops := hstarted.pkParsed
  have hparsed := parsed_multiSigLockScript hm hperiod hscript
  rw [hparsed, Except.ok.injEq] at hpops
  subst hpops
  obtain ⟨hhash, hhtlc, hwitness⟩ := multiSigLock_plain m (pubKeysToAddresses pubkeys sortKeys) refund period
  obtain ⟨hbip16, hprogram, hsep⟩ := newEngine_plain hnew hparsed hhash hhtlc hwitness
  simp only [execute, bind_eq_ok] at h
  obtain ⟨last, hloop, hcheck⟩ := h
  refine hstarted.yields (Q := fun last => checkErrorCondition ctx true last = .ok () → _)
    (fun vm' hvm' => ?_) _ last hloop hcheck
  have hin : InScript vm' [] (multiSigLockOps m (pubKeysToAddresses pubkeys sortKeys) refund period) vm'.dstack.stk [] :=
    ⟨hvm'.atStart, by rw [hvm'.scripts]; rfl, hvm'.lastCodeSep hsep, hvm'.witnessProgram.trans hprogram, rfl, hvm'.condStack⟩
  intro fuel last' hrun hcheck'
  exact ⟨vm', hvm'.leads, hvm'.atStart, hin.signed hm hperiod hbip16 fuel last' hrun hcheck'⟩

end Run

end Jaxnetd.TxScript
