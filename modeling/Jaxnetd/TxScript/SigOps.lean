import Jaxnetd.TxScript.SavedStack

/-!
# Scripts that a run adds, and their signature operations

Behind the signature script and the public key script an engine runs up to two more: those that a script hash and a version
0 witness program stand for. They can be read off the input (`scripts_of_executeLoop`). `GetPreciseSigOpCount` and
`GetWitnessSigOpCount` find them by tests of their own (`p2shSigOps_eq`, `witness_counted`), which do not look through a
lock around a script hash and give up on a witness program in more than 42 bytes (`hidden_counts`).
-/

namespace Jaxnetd.TxScript
open Wire Checks Engine Stack List Option Bool

/-! ## The scripts that an input adds -/

def redeemScript (pkPops sigPops : List ParsedOpcode) : Option Bytes :=
  if isScriptHash pkPops || isHTLCWithScriptHash pkPops then (sigPops.map pushedItem).getLast? else none

def programScript (pkScript : Bytes) (pkPops sigPops : List ParsedOpcode) (witness : List Bytes) : Option Bytes :=
  if isWitnessProgramPops pkPops || isHTLCWitnessScript pkPops then some pkScript
  else if witness = [] then none
  else redeemScript pkPops sigPops

def witnessScript (witness : List Bytes) (script : Bytes) : Option Bytes :=
  match extractWitnessProgramInfo script with
  | .error _ => none
  | .ok (version, program) =>
    if version ≠ 0 then none
    else if program.length = payToWitnessPubKeyHashDataSize then some (payToPubKeyHashScript program)
    else if program.length = payToWitnessScriptHashDataSize then witness.getLast?
    else none

variable (script : Bytes)

def opcodes : List ParsedOpcode := (parseScript script).1

/-- The scripts run for an input besides its signature script and the public key script. -/
def addedScripts (pkScript : Bytes) (pkPops sigPops : List ParsedOpcode) (witness : List Bytes) : List Bytes :=
  (redeemScript pkPops sigPops).toList ++
    ((programScript pkScript pkPops sigPops witness).bind (witnessScript witness)).toList

variable {pops : List ParsedOpcode} {pop : ParsedOpcode} {bs : Bytes}

theorem isScriptHash_length (h : isScriptHash pops) : pops.length = 3 := by
  have hlen := congrArg List.length (of_decide_eq_true h)
  simpa [opValues] using hlen

theorem isHTLC_length {c : ScriptClass} (h : isHTLC pops = some c) :
    pops.length = 10 ∧ c = .scriptHashTy ∨ pops.length = 12 ∧ c = .pubKeyHashTy ∨
      pops.length = 9 ∧ (c = .pubKeyTy ∨ c = .witnessV0PubKeyHashTy ∨ c = .witnessV0ScriptHashTy) := by
  simp only [isHTLC, getElem_eq_opAt] at h
  split at h
  · cases h
  next hlen =>
  split at h
  · cases h
  split at h
  · next h9 => split_ifs at h <;> cases h <;> simp [h9]
  split at h
  · next h10 =>
    split_ifs at h
    cases h
    simp [h10]
  · next h9 h10 =>
    have h12 : pops.length = 12 := by simpa [h9, h10] using hlen
    split_ifs at h
    cases h
    simp [h12]

theorem isHTLCWitnessScript_length (h : isHTLCWitnessScript pops) : pops.length = 9 := by
  simp only [isHTLCWitnessScript, or_eq_true, decide_eq_true_eq] at h
  rcases h with h | h
  · simpa using isHTLC_length h
  · simpa using isHTLC_length h

theorem isWitnessProgramPops_iff : isWitnessProgramPops pops ↔ pops.length = 2 ∧ isSmallInt (opAt pops 0) ∧
    canonicalPush (opAt pops 1) ∧ 2 ≤ (opAt pops 1).data.length ∧ (opAt pops 1).data.length ≤ 40 := by
  by_cases h : pops.length = 2 <;> simp [isWitnessProgramPops, getElem_eq_opAt, h, Bool.and_assoc]

theorem not_scriptHash_of_program {pkPops : List ParsedOpcode}
    (h : isWitnessProgramPops pkPops ∨ isHTLCWitnessScript pkPops) :
    (isScriptHash pkPops || isHTLCWithScriptHash pkPops) = false := by
  have hlen : pkPops.length = 2 ∨ pkPops.length = 9 :=
    h.imp (fun h => (isWitnessProgramPops_iff.1 h).1) isHTLCWitnessScript_length
  refine or_eq_false_iff.2 ⟨eq_false_iff.2 fun hhash => ?_, eq_false_iff.2 fun hlock => ?_⟩
  · have := isScriptHash_length hhash
    omega
  · have hten : pkPops.length = 10 := by simpa using isHTLC_length (of_decide_eq_true hlock)
    omega

/-! ## What `NewEngine` selects -/

theorem opLength_eq_one {value : Nat} (h : ¬(1 ≤ value ∧ value ≤ OP_PUSHDATA4)) : opLength value = 1 := by
  simp only [OP_PUSHDATA4] at h
  unfold opLength
  rw [if_neg (by omega)]
  split
  · omega
  · omega
  · omega
  · rfl

theorem pushedItem_of_bytes (h : pop.bytes = .ok bs) (hdata : pop.data ≠ []) :
    (1 ≤ pop.value ∧ pop.value ≤ OP_PUSHDATA4) ∧ pushedItem pop = pop.data := by
  have hvalue : 1 ≤ pop.value ∧ pop.value ≤ OP_PUSHDATA4 := by
    by_contra hnot
    simp only [ParsedOpcode.bytes, opLength_eq_one hnot, if_true, ok_rules] at h
    exact hdata (length_eq_zero_iff.1 h.1)
  exact ⟨hvalue, if_pos hvalue⟩

section
variable {H : Type} {ctx : EngineCtx H} {vm vm' : Engine} {sigPops pkPops : List ParsedOpcode} {pkScript script : Bytes}
  {witness : List Bytes}

structure Selected (pkScript : Bytes) (pkPops sigPops : List ParsedOpcode) (witness : List Bytes)
    (ctx : EngineCtx H) (vm : Engine) : Prop where
  flag : ctx.flags.bip16
  bip16 : ctx.bip16 = (isScriptHash pkPops || isHTLCWithScriptHash pkPops)
  program : witnessInfo (programScript pkScript pkPops sigPops witness) = .ok (vm.witnessVersion, vm.witnessProgram)
  nested : ctx.bip16 → witness ≠ [] → ∃ pop, sigPops = [pop] ∧ canonicalPush pop ∧ isWitnessProgram pop.data

theorem data_ne_nil_of_isWitnessProgram (h : isWitnessProgram script) : script ≠ [] := by
  rintro rfl
  simp [isWitnessProgram] at h

theorem newEngine_selected {tx : MsgTx H} {i : Nat} {txIn : TxIn H} {flags : ScriptFlags} {amount age : Int}
    (hflags : flags.verifyWitness) (h : newEngine pkScript tx i txIn flags amount age = .ok (ctx, vm))
    (hsig : parsed txIn.signatureScript = .ok sigPops) (hpk : parsed pkScript = .ok pkPops) :
    Selected pkScript pkPops sigPops txIn.witness ctx vm := by
  simp only [newEngine, parseScripts, ok_rules] at h
  obtain ⟨-, -, -, _, _, ⟨_, ⟨-, hsig'⟩, _, ⟨-, hpk'⟩, rfl, rfl⟩, -, hbip16, program, hprogram, -, version, inner, hinfo,
    rfl, rfl⟩ := h
  cases hsig.symm.trans hsig'
  cases hpk.symm.trans hpk'
  have hflag : flags.bip16 = true := by simpa [hflags] using hbip16
  simp only [hflag, Bool.true_and] at hprogram
  simp only [witnessProgramOf, hflags, Bool.not_true, Bool.false_eq_true, if_false] at hprogram
  by_cases hnative : isWitnessProgramPops pkPops || isHTLCWitnessScript pkPops
  · have hnone := @not_scriptHash_of_program pkPops (by simpa using hnative)
    simp only [hnative, if_true, ok_rules] at hprogram
    obtain ⟨-, rfl⟩ := hprogram
    refine ⟨hflag, by simp [hflag], ?_, fun hbip16 => ?_⟩
    · rw [programScript, if_pos hnative]
      exact hinfo
    · simp [hnone] at hbip16
  · rw [if_neg hnative] at hprogram
    have hscript : programScript pkScript pkPops sigPops txIn.witness =
        if txIn.witness = [] then none else redeemScript pkPops sigPops := by rw [programScript, if_neg hnative]
    by_cases hnested : txIn.witness ≠ [] ∧ (isScriptHash pkPops || isHTLCWithScriptHash pkPops) = true
    · rw [if_pos hnested] at hprogram
      split at hprogram
      · next pop =>
        split at hprogram
        · next hpush =>
          rw [and_eq_true] at hpush
          cases hprogram
          obtain ⟨bs, hbs⟩ := (unparse_parsed hsig).2 pop mem_cons_self
          have hitem := (pushedItem_of_bytes hbs (data_ne_nil_of_isWitnessProgram hpush.2)).2
          refine ⟨hflag, by simp [hflag], ?_, fun _ _ => ⟨pop, rfl, hpush⟩⟩
          rw [hscript, if_neg hnested.1, redeemScript, if_pos hnested.2]
          simpa [hitem] using hinfo
        · cases hprogram
      · cases hprogram
    · rw [if_neg hnested] at hprogram
      cases hprogram
      refine ⟨hflag, by simp [hflag], ?_, fun hbip16 hwitness => ?_⟩
      · have hnone : programScript pkScript pkPops sigPops txIn.witness = none := by
          rw [hscript]
          split
          · rfl
          · next hwitness => exact if_neg fun hbip16 => hnested ⟨hwitness, hbip16⟩
        rw [hnone]
        exact hinfo
      · exact absurd ⟨hwitness, by simpa [hflag] using hbip16⟩ hnested

/-! ## The end of a script -/

variable [ChainHash H]

theorem witnessScript0_ok {program s : Bytes} {data : List Bytes}
    (hinfo : extractWitnessProgramInfo script = .ok (0, program))
    (h : witnessScript0 (H := H) program witness = .ok (s, data)) : witnessScript witness script = some s := by
  unfold witnessScript0 at h
  simp only [witnessScript, hinfo, ne_eq, not_true_eq_false, if_false]
  split at h
  · next h20 =>
    simp only [ok_rules] at h
    rw [if_pos h20, h.2.1]
  next h20 =>
  split at h
  · next h32 =>
    rw [if_neg h20, if_pos h32]
    split at h
    · cases h
    · next last hlast =>
      simp only [ok_rules] at h
      rw [hlast, h.2.2.1]
  · cases h

theorem verifyWitnessProgram_scripts (hinfo : witnessInfo (some script) = .ok (vm.witnessVersion, vm.witnessProgram))
    (h : verifyWitnessProgram ctx witness vm = .ok vm') :
    vm'.scripts = vm.scripts ++ (witnessScript witness script).toList.map opcodes := by
  simp only [witnessInfo, ok_rules] at hinfo
  obtain ⟨version, program, hextract, hversion, hprogram⟩ := hinfo
  simp only [verifyWitnessProgram, isWitnessVersionActive, ← hversion, ← hprogram, isSome_some, Bool.true_and,
    getD_some, decide_eq_true_eq] at h
  by_cases h0 : version = 0
  · subst h0
    simp only [if_true, ok_rules] at h
    obtain ⟨s, data, hscript, pops, hpops, h⟩ := h
    split at h
    · cases h
    · cases h
      rw [witnessScript0_ok hextract hscript]
      simp [Engine.enter, opcodes, parseScript_of_parsed hpops]
  · rw [if_neg h0] at h
    have hnone : witnessScript witness script = none := by simp [witnessScript, hextract, h0]
    split at h
    · cases h
    · cases h
      simp [hnone]

theorem finishScript_program {program : Option Bytes} (h : finishScript ctx vm = .ok vm')
    (hidx : vm.scriptIdx = 1 ∧ ctx.bip16 = false ∨ vm.scriptIdx = 2 ∧ ctx.bip16 = true)
    (hinfo : witnessInfo program = .ok (vm.witnessVersion, vm.witnessProgram)) :
    vm'.scripts = vm.scripts ++
      (program.bind (witnessScript ((ctx.tx.txIn[ctx.txIdx]?.map TxIn.witness).getD []))).toList.map opcodes := by
  simp only [finishScript] at h
  rw [if_neg (by rcases hidx with ⟨h1, h2⟩ | ⟨h1, h2⟩ <;> simp [h1, h2]),
    if_neg (by rcases hidx with ⟨h1, h2⟩ | ⟨h1, h2⟩ <;> simp [h1, h2])] at h
  cases program with
  | none =>
    have hnone : vm.witnessProgram = none := (congrArg Prod.snd (Except.ok.inj hinfo)).symm
    rw [if_neg (by simp [hnone])] at h
    cases h
    simp
  | some script =>
    have hsome : vm.witnessProgram.isSome := by
      simp only [witnessInfo, ok_rules] at hinfo
      obtain ⟨_, _, -, -, hprogram⟩ := hinfo
      simp [← hprogram]
    rw [if_pos ⟨hsome, by rcases hidx with ⟨h1, h2⟩ | ⟨h1, h2⟩ <;> simp [h1, h2]⟩] at h
    refine (verifyWitnessProgram_scripts ?_ h).trans rfl
    exact hinfo

theorem finishScript_last (h : finishScript ctx vm = .ok vm')
    (hidx : vm.scriptIdx = 2 ∧ ctx.bip16 = false ∨ 3 ≤ vm.scriptIdx) : vm'.scripts = vm.scripts := by
  simp only [finishScript] at h
  have hlater : ¬(vm.scriptIdx = 1 ∨ vm.scriptIdx = 2 ∧ ctx.bip16) := by
    rintro (h1 | ⟨h2, hbip16⟩)
    · omega
    · rcases hidx with ⟨-, hnot⟩ | h3
      · simp [hnot] at hbip16
      · omega
  rw [if_neg (by omega), if_neg (by omega), if_neg fun hboth => hlater hboth.2] at h
  cases h
  rfl

/-! ## Runs -/

variable [Primitives] {vm₀ : Engine} (hsel : Selected pkScript pkPops sigPops witness ctx vm₀)
  (hwitness : (ctx.tx.txIn[ctx.txIdx]?.map TxIn.witness).getD [] = witness) (hpush : ctx.bip16 → isPushOnly sigPops)

/-- Where a run stands, with the scripts it has by then and what it needs to choose the next one. -/
inductive Course (ctx : EngineCtx H) (pkScript : Bytes) (pkPops sigPops : List ParsedOpcode) (witness : List Bytes)
    (vm : Engine) : Prop where
  | signing : Signing ctx sigPops pkPops vm →
      witnessInfo (programScript pkScript pkPops sigPops witness) = .ok (vm.witnessVersion, vm.witnessProgram) →
      Course ctx pkScript pkPops sigPops witness vm
  | paying : vm.scripts = [sigPops, pkPops] → vm.scriptIdx = 1 →
      witnessInfo (programScript pkScript pkPops sigPops witness) = .ok (vm.witnessVersion, vm.witnessProgram) →
      (ctx.bip16 → vm.savedFirstStack.getLast? = redeemScript pkPops sigPops) →
      Course ctx pkScript pkPops sigPops witness vm
  | redeeming {script : Bytes} {pops : List ParsedOpcode} : redeemScript pkPops sigPops = some script →
      parsed script = .ok pops → vm.scripts = [sigPops, pkPops, pops] → vm.scriptIdx = 2 → ctx.bip16 = true →
      witnessInfo (programScript pkScript pkPops sigPops witness) = .ok (vm.witnessVersion, vm.witnessProgram) →
      Course ctx pkScript pkPops sigPops witness vm
  | ending : vm.scripts = [sigPops, pkPops] ++ (addedScripts pkScript pkPops sigPops witness).map opcodes →
      (vm.scriptIdx = 2 ∧ ctx.bip16 = false ∨ 3 ≤ vm.scriptIdx) → Course ctx pkScript pkPops sigPops witness vm

include hpush in
theorem Course.execute {op : ParsedOpcode} {vm₁ : Engine} (h : Course ctx pkScript pkPops sigPops witness vm)
    (hop : currentOpcode vm = some op)
    (hexec : executeOpcode ctx op vm.advance = .ok vm₁) :
    Course ctx pkScript pkPops sigPops witness vm₁ := by
  have hsame := keeps_executeOpcode hexec
  cases h with
  | signing hsign hinfo =>
    refine .signing (hsign.execute hpush hop hexec) ?_
    rw [hsame.witnessVersion, hsame.witnessProgram]
    exact hinfo
  | paying hscripts hidx hinfo hsaved =>
    refine .paying (hsame.scripts.trans hscripts) (hsame.scriptIdx.trans hidx) ?_ ?_
    · rw [hsame.witnessVersion, hsame.witnessProgram]
      exact hinfo
    · rw [hsame.savedFirstStack]
      exact hsaved
  | redeeming hredeem hparsed hscripts hidx hbip16 hinfo =>
    refine .redeeming hredeem hparsed (hsame.scripts.trans hscripts) (hsame.scriptIdx.trans hidx) hbip16 ?_
    rw [hsame.witnessVersion, hsame.witnessProgram]
    exact hinfo
  | ending hscripts hidx =>
    refine .ending (hsame.scripts.trans hscripts) ?_
    rw [hsame.scriptIdx]
    exact hidx

section
omit [ChainHash H] [Primitives]

theorem Selected.addedScripts_redeem (h : Selected pkScript pkPops sigPops witness ctx vm')
    (hbip16 : ctx.bip16 = true) (hredeem : redeemScript pkPops sigPops = some script) :
    addedScripts pkScript pkPops sigPops witness = script ::
      ((programScript pkScript pkPops sigPops witness).bind (witnessScript witness)).toList ∧
      (programScript pkScript pkPops sigPops witness = none ∨
        programScript pkScript pkPops sigPops witness = some script) := by
  refine ⟨by rw [addedScripts, hredeem]; rfl, ?_⟩
  have hnative : ¬(isWitnessProgramPops pkPops || isHTLCWitnessScript pkPops) := by
    intro hprogram
    have := not_scriptHash_of_program (by simpa using hprogram)
    rw [h.bip16, this] at hbip16
    nomatch hbip16
  rw [programScript, if_neg hnative, hredeem]
  split
  · exact Or.inl rfl
  · exact Or.inr rfl

theorem Selected.addedScripts_plain (h : Selected pkScript pkPops sigPops witness ctx vm')
    (hbip16 : ctx.bip16 = false) : addedScripts pkScript pkPops sigPops witness =
      ((programScript pkScript pkPops sigPops witness).bind (witnessScript witness)).toList := by
  have hnone : redeemScript pkPops sigPops = none := by
    rw [redeemScript, ← h.bip16, hbip16]
    rfl
  rw [addedScripts, hnone]
  rfl

end

include hsel hwitness

omit [Primitives] in
theorem Course.finish {vm₁ vm₂ : Engine} (h : Course ctx pkScript pkPops sigPops witness vm₁)
    (hend : (vm₁.script vm₁.scriptIdx).length ≤ vm₁.scriptOff) (hfinish : finishScript ctx vm₁ = .ok vm₂) :
    Course ctx pkScript pkPops sigPops witness vm₂ := by
  have hnext := (finishScript_place hfinish).1
  cases h with
  | signing hsign hinfo =>
    obtain ⟨hscripts₂, hidx₂, -⟩ := finishScript_first hfinish hsign.scriptIdx
    obtain ⟨hversion, hprogram⟩ := finishScript_keeps hfinish (Or.inl hsign.scriptIdx)
    refine .paying (hscripts₂.trans hsign.scripts) hidx₂ (by rw [hversion, hprogram]; exact hinfo) fun hbip16 => ?_
    rw [hsign.saved hbip16 hend hfinish, redeemScript, if_pos]
    rw [← hsel.bip16]
    exact hbip16
  | paying hscripts hidx hinfo hsaved =>
    cases hbip16 : ctx.bip16 with
    | true =>
      obtain ⟨-, script, pops, hlast, hpops, hscripts₂, hidx₂, -, -⟩ := finishScript_scriptHash hfinish hbip16 hidx
      obtain ⟨hversion, hprogram⟩ := finishScript_keeps hfinish (Or.inr ⟨hidx, hbip16⟩)
      refine .redeeming ((hsaved hbip16).symm.trans hlast) hpops ?_ hidx₂ hbip16 (by rw [hversion, hprogram]; exact hinfo)
      rw [hscripts₂, hscripts]
      rfl
    | false =>
      refine .ending ?_ (Or.inl ⟨by omega, hbip16⟩)
      rw [finishScript_program hfinish (Or.inl ⟨hidx, hbip16⟩) hinfo, hwitness, hscripts, hsel.addedScripts_plain hbip16]
  | redeeming hredeem hparsed hscripts hidx hbip16 hinfo =>
    refine .ending ?_ (Or.inr (by omega))
    rw [finishScript_program hfinish (Or.inr ⟨hidx, hbip16⟩) hinfo, hwitness, hscripts,
      (hsel.addedScripts_redeem hbip16 hredeem).1, map_cons, opcodes, parseScript_of_parsed hparsed]
    rfl
  | ending hscripts hidx =>
    refine .ending ((finishScript_last hfinish hidx).trans hscripts) ?_
    omega

omit [ChainHash H] [Primitives] hwitness in
/-- No script follows an empty one. -/
theorem Course.skip (h : Course ctx pkScript pkPops sigPops witness vm) (hlate : 1 ≤ vm.scriptIdx)
    (hempty : vm.script vm.scriptIdx = []) :
    vm.scripts = [sigPops, pkPops] ++ (addedScripts pkScript pkPops sigPops witness).map opcodes ∧
      (vm.scriptIdx = 1 ∧ ctx.bip16 = false ∨ 2 ≤ vm.scriptIdx) := by
  cases h with
  | signing hsign =>
    have := hsign.scriptIdx
    omega
  | paying hscripts hidx =>
    have hpk : pkPops = [] := by simpa [Engine.script, hscripts, hidx] using hempty
    subst hpk
    have hbip16 : ctx.bip16 = false := hsel.bip16
    refine ⟨?_, Or.inl ⟨hidx, hbip16⟩⟩
    have hprogram : programScript pkScript [] sigPops witness = none := by
      have hnative : (isWitnessProgramPops [] || isHTLCWitnessScript []) = false := rfl
      rw [programScript, hnative]
      split
      · contradiction
      split
      · rfl
      · rfl
    rw [hscripts, hsel.addedScripts_plain hbip16, hprogram]
    rfl
  | @redeeming script pops hredeem hparsed hscripts hidx hbip16 =>
    have hpops : pops = [] := by simpa [Engine.script, hscripts, hidx] using hempty
    subst hpops
    refine ⟨?_, Or.inr (by omega)⟩
    obtain ⟨hadded, hprogram⟩ := hsel.addedScripts_redeem hbip16 hredeem
    have hnone : witnessScript witness script = none := by
      have hnative : (!isWitnessProgramPops [] && !isHTLCWitnessScript []) = true := rfl
      simp [witnessScript, extractWitnessProgramInfo, hparsed, hnative, bind, Except.bind, failIf]
    have hbind : (programScript pkScript pkPops sigPops witness).bind (witnessScript witness) = none := by
      rcases hprogram with hprogram | hprogram
      · rw [hprogram]
        rfl
      · rw [hprogram]
        exact hnone
    rw [hadded, hbind, hscripts, map_cons, opcodes, parseScript_of_parsed hparsed]
    rfl
  | ending hscripts hidx => exact ⟨hscripts, by omega⟩

include hpush

theorem Course.step {done : Bool} (h : Course ctx pkScript pkPops sigPops witness vm)
    (hstep : step ctx vm = .ok (done, vm')) : Course ctx pkScript pkPops sigPops witness vm' ∧
      (done = true → vm'.scripts = [sigPops, pkPops] ++ (addedScripts pkScript pkPops sigPops witness).map opcodes) := by
  obtain ⟨op, vm₁, hstepped⟩ := step_ok hstep
  have hsame := keeps_executeOpcode hstepped.executed
  have hexec := h.execute hpush hstepped.opcode hstepped.executed
  rcases Nat.lt_or_ge (vm.scriptOff + 1) (vm.script vm.scriptIdx).length with hin | hend
  · obtain ⟨rfl, rfl⟩ := hstepped.inside hin
    exact ⟨hexec, fun hdone => nomatch hdone⟩
  obtain ⟨-, vm₂, hfinish, hdone, hvm'⟩ := hstepped.finished hend
  have hend₁ : (vm₁.script vm₁.scriptIdx).length ≤ vm₁.scriptOff := by
    rw [hsame.scriptOff, Engine.script, hsame.scripts, hsame.scriptIdx]
    exact hend
  have hfinished := hexec.finish hsel hwitness hend₁ hfinish
  obtain ⟨hidx, hoff⟩ := finishScript_place hfinish
  by_cases hskip : vm₂.scriptIdx < vm₂.scripts.length ∧ (vm₂.script vm₂.scriptIdx).length ≤ vm₂.scriptOff
  · rw [if_pos hskip] at hvm'
    have hempty : vm₂.script vm₂.scriptIdx = [] := length_eq_zero_iff.1 (by omega)
    obtain ⟨hscripts, hlate⟩ := hfinished.skip hsel (by omega) hempty
    subst hvm'
    refine ⟨.ending hscripts ?_, fun _ => hscripts⟩
    rcases hlate with ⟨hone, hbip16⟩ | htwo
    · exact Or.inl ⟨congrArg (· + 1) hone, hbip16⟩
    · exact Or.inr (Nat.succ_le_succ htwo)
  · rw [if_neg hskip] at hvm'
    subst hvm'
    -- the run only ends behind the last script
    cases hfinished with
    | signing hsign =>
      have := hsign.scriptIdx
      omega
    | paying hscripts hone hinfo hsaved =>
      refine ⟨.paying hscripts hone hinfo hsaved, fun htrue => ?_⟩
      simp [hdone, hscripts, hone] at htrue
    | redeeming hredeem hparsed hscripts htwo hbip16 hinfo =>
      refine ⟨.redeeming hredeem hparsed hscripts htwo hbip16 hinfo, fun htrue => ?_⟩
      simp [hdone, hscripts, htwo] at htrue
    | ending hscripts hlate => exact ⟨.ending hscripts hlate, fun _ => hscripts⟩

theorem Course.run {last : Engine} {fuel : Nat} (h : Course ctx pkScript pkPops sigPops witness vm)
    (hrun : executeLoop ctx fuel vm = .ok last) :
    last.scripts = [sigPops, pkPops] ++ (addedScripts pkScript pkPops sigPops witness).map opcodes := by
  refine Yields.of_invariant (Q := fun last => last.scripts = _) (fun vm done vm' hvm hstep => ?_) h fuel last hrun
  obtain ⟨hnext, hend⟩ := hvm.step hsel hwitness hpush hstep
  cases done with
  | true => exact hend rfl
  | false => exact Or.inl hnext

omit hsel hwitness hpush in
theorem scripts_of_executeLoop {tx : MsgTx H} {i : Nat} {txIn : TxIn H} {flags : ScriptFlags} {amount age : Int}
    {last : Engine} {fuel : Nat} (hflags : flags.verifyWitness) (htxIn : tx.txIn[i]? = some txIn)
    (hnew : newEngine pkScript tx i txIn flags amount age = .ok (ctx, vm)) (hrun : executeLoop ctx fuel vm = .ok last) :
    last.scripts.drop 2 =
      (addedScripts pkScript (opcodes pkScript) (opcodes txIn.signatureScript) txIn.witness).map opcodes := by
  obtain ⟨sigPops, pkPops, hstarted⟩ := newEngine_started hnew
  have hsel := newEngine_selected hflags hnew hstarted.sigParsed hstarted.pkParsed
  have hwitness : (ctx.tx.txIn[ctx.txIdx]?.map TxIn.witness).getD [] = txIn.witness := by
    simp only [newEngine, ok_rules] at hnew
    obtain ⟨-, -, -, _, _, -, -, -, _, -, -, _, _, -, rfl, -⟩ := hnew
    simp [htxIn]
  have hcourse : Course ctx pkScript pkPops sigPops txIn.witness vm := by
    by_cases hempty : txIn.signatureScript = []
    · have hidx : vm.scriptIdx = 1 := by rw [hstarted.scriptIdx, if_pos hempty]
      refine .paying hstarted.scripts hidx hsel.program fun _ => ?_
      have hsig : sigPops = [] := by
        have hparsed := hstarted.sigParsed
        rw [hempty] at hparsed
        exact (Except.ok.inj hparsed).symm
      rw [hstarted.saved, redeemScript, hsig]
      simp
    · have hidx : vm.scriptIdx = 0 := by rw [hstarted.scriptIdx, if_neg hempty]
      refine .signing ⟨hstarted.scripts, hidx, fun _ => ⟨hstarted.condStack, ?_⟩⟩ hsel.program
      rw [hstarted.stack, hstarted.scriptOff]
      rfl
  rw [hcourse.run hsel hwitness hstarted.pushOnly hrun, opcodes, opcodes, parseScript_of_parsed hstarted.pkParsed,
    parseScript_of_parsed hstarted.sigParsed]
  rfl

end

/-! ## Signature operations -/

def preciseSigOps : Nat := countSigOps (opcodes script) true

def SigFree : Prop :=
  ∀ op ∈ opcodes script, op.value ∉ [OP_CHECKSIG, OP_CHECKSIGVERIFY, OP_CHECKMULTISIG, OP_CHECKMULTISIGVERIFY]

theorem multiSig_ne_zero (prev : Option ParsedOpcode) : (match prev with
      | some p => if true ∧ OP_1 ≤ p.value ∧ p.value ≤ OP_16 then asSmallInt p else maxPubKeysPerMultiSig
      | none => maxPubKeysPerMultiSig) ≠ 0 := by
  split
  · next p =>
    split_ifs with hp
    · simp only [OP_1, OP_16] at hp
      rw [asSmallInt, if_neg (by simp only [OP_0]; omega)]
      simp only [OP_1]
      omega
    · decide
  · decide

theorem sigOpLoop_eq_zero {prev : Option ParsedOpcode} : sigOpLoop true prev pops = 0 ↔
    ∀ op ∈ pops, op.value ∉ [OP_CHECKSIG, OP_CHECKSIGVERIFY, OP_CHECKMULTISIG, OP_CHECKMULTISIGVERIFY] := by
  induction pops generalizing prev with
  | nil => simp [sigOpLoop]
  | cons op pops ih =>
    unfold sigOpLoop
    rw [Nat.add_eq_zero_iff, ih, forall_mem_cons]
    refine and_congr_left' ?_
    split
    · next heq => exact iff_of_false Nat.one_ne_zero (not_not.2 (heq ▸ by decide))
    · next heq => exact iff_of_false Nat.one_ne_zero (not_not.2 (heq ▸ by decide))
    · next heq => exact iff_of_false (multiSig_ne_zero prev) (not_not.2 (heq ▸ by decide))
    · next heq => exact iff_of_false (multiSig_ne_zero prev) (not_not.2 (heq ▸ by decide))
    · next h1 h2 h3 h4 => exact iff_of_true rfl (by simpa using ⟨h1, h2, h3, h4⟩)

variable {script : Bytes}

theorem preciseSigOps_eq_zero : preciseSigOps script = 0 ↔ SigFree script := sigOpLoop_eq_zero

theorem preciseSigOps_pushedItem (h : pop.bytes = .ok bs) :
    preciseSigOps (pushedItem pop) = if pop.data = [] then 0 else preciseSigOps pop.data := by
  have hnumber : ∀ n < 17, preciseSigOps (scriptNumBytes (n : Nat)) = 0 := by decide
  split_ifs with hdata
  · unfold pushedItem
    split_ifs with h1 h2 h3
    · rw [hdata]
      rfl
    · refine hnumber _ ?_
      simp only [OP_1, OP_16] at *
      omega
    · rfl
    · rfl
  · rw [(pushedItem_of_bytes h hdata).2]

theorem preciseSigOps_payToPubKeyHashScript {hash : Bytes} (h : hash.length = 20) :
    preciseSigOps (payToPubKeyHashScript hash) = 1 := by
  have hparsed := parsed_flatten (writes_address (.pubKeyHash ⟨hash, h⟩)).encodes
  have hscript : ((addressChunks (.pubKeyHash ⟨hash, h⟩)).map Prod.fst).flatten = payToPubKeyHashScript hash := by
    simp [addressChunks, opChunk, pushChunk, payToPubKeyHashScript]
  rw [hscript] at hparsed
  rw [preciseSigOps, opcodes, parseScript_of_parsed hparsed]
  simp [addressChunks, opChunk, pushChunk, countSigOps, sigOpLoop, h, OP_DUP, OP_HASH160, OP_EQUALVERIFY, OP_CHECKSIG]

theorem getWitnessSigOps_eq (script : Bytes) (witness : List Bytes) :
    getWitnessSigOps script witness = ((witnessScript witness script).map preciseSigOps).getD 0 := by
  unfold getWitnessSigOps witnessScript
  rcases extractWitnessProgramInfo script with _ | ⟨version, program⟩
  · rfl
  dsimp only
  split_ifs with h0 h20 h32
  · rfl
  · rw [map_some, getD_some, preciseSigOps_payToPubKeyHashScript h20]
  · rcases witness.getLast? with _ | last
    · rfl
    · rfl
  · rfl

/-! ## What the counters find -/

def p2shSigOps (sigScript pkScript : Bytes) : Nat :=
  if isPayToScriptHash pkScript then getPreciseSigOpCount sigScript pkScript true else 0

section
variable {sigScript pkScript : Bytes} {sigPops pkPops : List ParsedOpcode} {witness : List Bytes}

theorem isPayToScriptHash_of_parsed (hpk : parsed pkScript = .ok pkPops) :
    isPayToScriptHash pkScript = isScriptHash pkPops := by
  rw [isPayToScriptHash, hpk]

theorem p2shSigOps_eq (hsig : parsed sigScript = .ok sigPops) (hpk : parsed pkScript = .ok pkPops)
    (hpush : isScriptHash pkPops → isPushOnly sigPops) (hlock : isHTLCWithScriptHash pkPops = false) :
    p2shSigOps sigScript pkScript = ((redeemScript pkPops sigPops).map preciseSigOps).getD 0 := by
  unfold p2shSigOps redeemScript
  rw [isPayToScriptHash_of_parsed hpk, hlock, Bool.or_false]
  split_ifs with hhash
  · simp only [getPreciseSigOpCount, parseScript_of_parsed hpk, hhash, hsig, hpush hhash, Bool.and_self, Bool.not_true,
      false_eq_true, if_false, getLast?_map]
    cases hlast : sigPops.getLast? with
    | none => rfl
    | some pop =>
      obtain ⟨bs, hbs⟩ := (unparse_parsed hsig).2 pop (mem_of_getLast? hlast)
      exact (preciseSigOps_pushedItem hbs).symm
  · rfl

theorem p2shSigOps_eq_zero (hpk : parsed pkScript = .ok pkPops) (h : isScriptHash pkPops = false) :
    p2shSigOps sigScript pkScript = 0 := by
  rw [p2shSigOps, isPayToScriptHash_of_parsed hpk, h]
  rfl

theorem length_le_of_parsed (h : parsed script = .ok pops) : pops.length ≤ script.length := by
  refine parsed_induct (P := fun pops script => pops.length ≤ script.length) (le_refl _) ?_ h
  intro pop bs pops rest _ hpos hle
  rw [length_cons, length_append]
  omega

theorem bytes_of_canonicalPush (h : pop.bytes = .ok bs) (hcanonical : canonicalPush pop)
    (h2 : 2 ≤ pop.data.length) (h75 : pop.data.length ≤ 75) : bs = UInt8.ofNat pop.value :: pop.data := by
  have hne : pop.data ≠ [] := by
    rintro hnil
    simp [hnil] at h2
  obtain ⟨hvalue, -⟩ := pushedItem_of_bytes h hne
  have hdirect : pop.value ≤ 75 := by
    by_contra hlong
    have hwide : pop.value = 76 ∨ pop.value = 77 ∨ pop.value = 78 := by
      simp only [OP_PUSHDATA4] at hvalue
      omega
    -- the wider pushes are for more data
    rcases hwide with hv | hv | hv
    · simp [canonicalPush, hv, OP_16, OP_PUSHDATA1] at hcanonical
      omega
    · simp [canonicalPush, hv, OP_16, OP_PUSHDATA1, OP_PUSHDATA2] at hcanonical
      omega
    · simp [canonicalPush, hv, OP_16, OP_PUSHDATA1, OP_PUSHDATA2, OP_PUSHDATA4] at hcanonical
      omega
  have hlen : opLength pop.value = pop.value + 1 := if_pos ⟨hvalue.1, hdirect⟩
  simp only [ParsedOpcode.bytes, hlen] at h
  rw [if_neg (by omega)] at h
  simp only [ok_rules, show ¬((pop.value : Int) + 1 < 0) by omega, if_false] at h
  exact h.2.symm

theorem length_of_isWitnessProgramPops (hpk : parsed pkScript = .ok pkPops) (h : isWitnessProgramPops pkPops) :
    4 ≤ pkScript.length ∧ pkScript.length ≤ 42 := by
  obtain ⟨hlen, hsmall, hpush, h2, h40⟩ := isWitnessProgramPops_iff.1 h
  match pkPops, hlen with
  | [a, b], _ =>
    obtain ⟨hun, hw⟩ := unparse_parsed hpk
    obtain ⟨bs, hbs⟩ := hw a (by simp)
    obtain ⟨cs, hcs⟩ := hw b (by simp)
    have hscript : pkScript = bs ++ cs := by
      have hnil : unparseScript [] = .ok [] := rfl
      have hboth := unparseScript_cons hbs (unparseScript_cons hcs hnil)
      rw [hun, append_nil] at hboth
      exact Except.ok.inj hboth
    have hone : bs.length = 1 := by
      have hop : opLength a.value = 1 := by
        simp only [opAt, getD_cons_zero, isSmallInt, or_eq_true, and_eq_true, decide_eq_true_eq, OP_0, OP_1,
          OP_16] at hsmall
        exact opLength_eq_one (by simp only [OP_PUSHDATA4]; omega)
      simp only [ParsedOpcode.bytes, hop, if_true, ok_rules] at hbs
      rw [← hbs.2]
      rfl
    change 2 ≤ b.data.length at h2
    change b.data.length ≤ 40 at h40
    have hdata := bytes_of_canonicalPush hcs hpush h2 (by omega)
    rw [hscript, length_append, hone, hdata, length_cons]
    omega

theorem not_isWitnessProgram_of_scriptHash (h : isPayToScriptHash script) : isWitnessProgram script = false := by
  unfold isPayToScriptHash at h
  split at h
  · next pops hpops =>
    have hlen := isScriptHash_length h
    have hhtlc : isHTLC pops = none := by simp [isHTLC, hlen]
    simp [isWitnessProgram, hpops, isWitnessProgramPops, isHTLCWitnessScript, hlen, hhtlc]
  · cases h

theorem getWitnessSigOpCount_eq_none :
    getWitnessSigOpCount sigScript pkScript witness = none ↔ sigScript = [] ∧ isPayToScriptHash pkScript := by
  constructor
  · intro h
    unfold getWitnessSigOpCount at h
    split at h
    · nomatch h
    split at h
    · nomatch h
    split at h
    · next hhash =>
      split at h
      · exact ⟨rfl, (and_eq_true _ _ ▸ hhash).1⟩
      · nomatch h
    · nomatch h
  · rintro ⟨rfl, hhash⟩
    have hparsed : parsed [] = .ok [] := rfl
    have hpush : isPushOnly [] = true := rfl
    simp [getWitnessSigOpCount, not_isWitnessProgram_of_scriptHash hhash, hparsed, hhash, hpush]

theorem isWitnessProgram_of_program (hpk : parsed pkScript = .ok pkPops)
    (h : isWitnessProgramPops pkPops || isHTLCWitnessScript pkPops)
    (hlen : isHTLCWitnessScript pkPops → pkScript.length ≤ 42) :
    isWitnessProgram pkScript := by
  have hlength : 4 ≤ pkScript.length ∧ pkScript.length ≤ 42 := by
    rcases or_eq_true _ _ ▸ h with hplain | hlock
    · exact length_of_isWitnessProgramPops hpk hplain
    · refine ⟨?_, hlen hlock⟩
      have hmany := length_le_of_parsed hpk
      rw [isHTLCWitnessScript_length hlock] at hmany
      omega
  simp only [isWitnessProgram, hpk, h]
  rw [if_neg (by simp; omega)]

theorem getWitnessSigOpCount_of_program (h : isWitnessProgram pkScript) :
    getWitnessSigOpCount sigScript pkScript witness = some (getWitnessSigOps pkScript witness) := by
  unfold getWitnessSigOpCount
  rw [if_pos h]

theorem getWitnessSigOpCount_nested (hsig : parsed sigScript = .ok [pop])
    (hpk : isPayToScriptHash pkScript) (hpush : isPushOnly [pop]) (hcanonical : canonicalPush pop)
    (hprogram : isWitnessProgram pop.data) :
    getWitnessSigOpCount sigScript pkScript witness = some (getWitnessSigOps pop.data witness) := by
  obtain ⟨hun, hw⟩ := unparse_parsed hsig
  obtain ⟨bs, hbs⟩ := hw pop mem_cons_self
  have hlen : 4 ≤ pop.data.length ∧ pop.data.length ≤ 42 := by
    unfold isWitnessProgram at hprogram
    split at hprogram
    · nomatch hprogram
    · next hlen => simpa using hlen
  have hscript : sigScript = UInt8.ofNat pop.value :: pop.data := by
    have hone := unparseScript_cons hbs (show unparseScript [] = .ok [] from rfl)
    rw [hun, append_nil] at hone
    rw [Except.ok.inj hone]
    exact bytes_of_canonicalPush hbs hcanonical (by omega) (by omega)
  unfold getWitnessSigOpCount
  rw [not_isWitnessProgram_of_scriptHash hpk, hsig]
  simp [hpk, hpush, hscript, hprogram]

section
variable (hsig : parsed sigScript = .ok sigPops)
include hsig

theorem getWitnessSigOpCount_other (hprogram : isWitnessProgram pkScript = false)
    (hpk : isPayToScriptHash pkScript = false) : getWitnessSigOpCount sigScript pkScript witness = some 0 := by
  unfold getWitnessSigOpCount
  rw [hprogram, hsig]
  simp [hpk]

/-- The script behind a witness program is counted, unless a lock hides the program. -/
theorem witness_counted {H : Type} {ctx : EngineCtx H} {vm : Engine} (hpk : parsed pkScript = .ok pkPops)
    (hsel : Selected pkScript pkPops sigPops witness ctx vm) (hpush : ctx.bip16 → isPushOnly sigPops)
    (hlock : isHTLCWithScriptHash pkPops = false) (hlen : isHTLCWitnessScript pkPops → pkScript.length ≤ 42)
    (h : (programScript pkScript pkPops sigPops witness).bind (witnessScript witness) = some script) :
    getWitnessSigOpCount sigScript pkScript witness = some (preciseSigOps script) := by
  by_cases hnative : isWitnessProgramPops pkPops || isHTLCWitnessScript pkPops
  · rw [programScript, if_pos hnative, bind_some] at h
    rw [getWitnessSigOpCount_of_program (isWitnessProgram_of_program hpk hnative hlen), getWitnessSigOps_eq, h]
    rfl
  · rw [programScript, if_neg hnative] at h
    by_cases hempty : witness = []
    · simp [hempty] at h
    rw [if_neg hempty] at h
    by_cases hhash : isScriptHash pkPops || isHTLCWithScriptHash pkPops
    · have hbip16 : ctx.bip16 = true := hsel.bip16.trans hhash
      obtain ⟨pop, rfl, hcanonical, hprogram⟩ := hsel.nested hbip16 hempty
      obtain ⟨bs, hbs⟩ := (unparse_parsed hsig).2 pop mem_cons_self
      have hitem := (pushedItem_of_bytes hbs (data_ne_nil_of_isWitnessProgram hprogram)).2
      rw [redeemScript, if_pos hhash, map_cons, map_nil, getLast?_singleton, hitem, bind_some] at h
      rw [hlock, Bool.or_false, ← isPayToScriptHash_of_parsed hpk] at hhash
      rw [getWitnessSigOpCount_nested hsig hhash (hpush hbip16) hcanonical hprogram, getWitnessSigOps_eq, h]
      rfl
    · rw [redeemScript, if_neg hhash] at h
      nomatch h

theorem hidden_counts (hpk : parsed pkScript = .ok pkPops)
    (h : isHTLCWithScriptHash pkPops ∨ isHTLCWitnessScript pkPops ∧ 42 < pkScript.length) :
    p2shSigOps sigScript pkScript = 0 ∧ getWitnessSigOpCount sigScript pkScript witness = some 0 := by
  have hlen : 9 ≤ pkPops.length := by
    rcases h with h | ⟨h, -⟩
    · have := isHTLC_length (of_decide_eq_true h)
      omega
    · exact (isHTLCWitnessScript_length h).ge
  have hhash : isScriptHash pkPops = false := eq_false_iff.2 fun hhash => by
    have := isScriptHash_length hhash
    omega
  have hprogram : isWitnessProgram pkScript = false := by
    rcases h with h | ⟨-, hlong⟩
    · have hplain : isWitnessProgramPops pkPops = false := by simp [isWitnessProgramPops, show pkPops.length ≠ 2 by omega]
      have hscript : isHTLC pkPops = some .scriptHashTy := of_decide_eq_true h
      simp [isWitnessProgram, hpk, hplain, isHTLCWitnessScript, hscript]
    · simp [isWitnessProgram, hlong]
  exact ⟨p2shSigOps_eq_zero hpk hhash,
    getWitnessSigOpCount_other hsig hprogram ((isPayToScriptHash_of_parsed hpk).trans hhash)⟩

end

end

end Jaxnetd.TxScript
