import Jaxnetd.TxScript.HtlcRun
import Jaxnetd.TxScript.WitnessDigest

/-!
# The saved stack of a script hash

Behind the public key script of a script hash, or of a lock around one, `Step` takes the last item of the stack that
the signature script left, without a look at its length. The item is always there: a nonempty signature script
pushes, and above an empty one neither public key script comes to its end.
-/

namespace Jaxnetd.TxScript
open Wire Checks Engine Stack List Bool

section
variable {H : Type} [ChainHash H] [Primitives] {ctx : EngineCtx H} {vm vm' : Engine} {k : Nat}
  {front back : List ParsedOpcode} {op next : ParsedOpcode}

/-- The end of a script reads the last item of an empty saved stack. -/
def finishPanics (ctx : EngineCtx H) (vm : Engine) : Bool :=
  vm.scriptIdx = 1 && ctx.bip16 && vm.savedFirstStack.isEmpty &&
    (checkErrorCondition ctx false { vm with scriptIdx := 2 }).toBool

def stepPanics (ctx : EngineCtx H) (vm : Engine) : Bool :=
  match currentOpcode vm with
  | none => false
  | some op =>
    match executeOpcode ctx op vm.advance with
    | .error _ => false
    | .ok vm => (vm.script vm.scriptIdx).length ≤ vm.scriptOff && vm.condStack.isEmpty &&
        vm.dstack.depth + vm.astack.depth ≤ maxStackSize && finishPanics ctx vm

def NoPanic (ctx : EngineCtx H) (vm : Engine) : Prop := ∀ fuel, ∀ vm' ∈ runStates ctx fuel vm, stepPanics ctx vm' = false

theorem stepPanics_inv (h : stepPanics ctx vm = true) : (vm.script vm.scriptIdx).length ≤ vm.scriptOff + 1 ∧
    vm.scriptIdx = 1 ∧ ctx.bip16 ∧ vm.savedFirstStack = [] := by
  unfold stepPanics at h
  split at h
  · nomatch h
  split at h
  · nomatch h
  · next vm₁ hexec =>
    have hsame := keeps_executeOpcode hexec
    have hscript : vm₁.script vm₁.scriptIdx = vm.script vm.scriptIdx := by
      rw [Engine.script, hsame.scripts, hsame.scriptIdx]
      rfl
    simp only [finishPanics, and_eq_true, decide_eq_true_eq, List.isEmpty_iff] at h
    obtain ⟨⟨⟨hend, -⟩, -⟩, ⟨⟨hidx, hbip16⟩, hsaved⟩, -⟩ := h
    rw [hscript, show vm₁.scriptOff = vm.scriptOff + 1 from hsame.scriptOff] at hend
    exact ⟨hend, hsame.scriptIdx.symm.trans hidx, hbip16, hsame.savedFirstStack.symm.trans hsaved⟩

theorem NoPanic.of_invariant {P : Engine → Prop} (hnow : ∀ vm, P vm → stepPanics ctx vm = false)
    (hstep : ∀ vm vm', P vm → step ctx vm = .ok (false, vm') → P vm') (h : P vm) : NoPanic ctx vm := by
  intro fuel
  induction fuel generalizing vm with
  | zero => exact fun _ hnil => nomatch hnil
  | succ fuel ih =>
    intro vm' hvm'
    rcases mem_cons.1 hvm' with rfl | hvm'
    · exact hnow _ h
    · split at hvm'
      · next hnext => exact ih (hstep _ _ h hnext) vm' hvm'
      · nomatch hvm'

theorem Breaks.noPanic (h : Breaks ctx vm) : NoPanic ctx vm := by
  refine .of_invariant (P := Breaks ctx) (fun vm hvm => ?_) (fun vm vm' hvm hstep => ?_) h
  · obtain ⟨hin, -⟩ := hvm
    refine eq_false_iff.2 fun hpanic => ?_
    have := (stepPanics_inv hpanic).1
    omega
  · obtain ⟨hin, hnext⟩ := hvm
    obtain ⟨op, vm₁, hstepped⟩ := step_ok hstep
    obtain ⟨-, rfl⟩ := hstepped.inside hin
    exact hnext op _ hstepped.opcode hstepped.executed

/-! ## Public key scripts above an empty stack -/

variable {d₀ d₁ d₂ d₃ d₄ : Bytes} {last : ParsedOpcode} {inner sigPops : List ParsedOpcode}

theorem breaks_hash160 (h : At vm k front (⟨OP_HASH160, d₀⟩ :: next :: back)) (hbranch : vm.isBranchExecuting)
    (hstk : vm.dstack.stk = []) : Breaks ctx vm := by
  refine h.breaks_exec (Or.inl hbranch) fun n vm' hfunc _ => ?_
  have hhandler : opfunc ctx ⟨OP_HASH160, d₀⟩ = opcodeHash160 H := rfl
  obtain ⟨s, hs, -⟩ := onD_ok hfunc
  obtain ⟨x, s₁, hx, -⟩ := stateT_bind_ok hs
  exact absurd (hstk.symm.trans (popByteArray_ok hx).1) (cons_ne_nil _ _).symm

theorem breaks_if {x : Bytes} (h : At vm k front (⟨OP_IF, d₂⟩ :: ⟨OP_HASH160, d₃⟩ :: next :: inner ++
    ⟨OP_ELSE, d₀⟩ :: ⟨OP_RETURN, d₁⟩ :: last :: back)) (hinner : ∀ op ∈ next :: inner, ¬op.isConditional)
    (hcond : vm.condStack = []) (hstk : vm.dstack.stk = [x]) : Breaks ctx vm := by
  refine h.breaks_exec (Or.inr rfl) fun n vm' hfunc hat => ?_
  obtain ⟨y, s, hy, rfl⟩ := opcodeIf_ok (by exact hcond) hfunc
  have hempty : s.stk = [] := (cons.inj (hstk.symm.trans hy)).2.symm
  by_cases htrue : asBool y
  · exact breaks_hash160 hat (by simp [isBranchExecuting, htrue]) hempty
  · have hhash : (⟨OP_HASH160, d₃⟩ : ParsedOpcode).isConditional = false := rfl
    have hskipped : ∀ op ∈ ⟨OP_HASH160, d₃⟩ :: next :: inner, ¬op.isConditional :=
      forall_mem_cons.2 ⟨by simp [hhash], hinner⟩
    exact breaks_inner hat hskipped (by simp [htrue])

theorem breaks_greaterThan {x y : Bytes} (h : At vm k front (⟨OP_GREATERTHAN, d₄⟩ :: ⟨OP_IF, d₂⟩ ::
    ⟨OP_HASH160, d₃⟩ :: next :: inner ++ ⟨OP_ELSE, d₀⟩ :: ⟨OP_RETURN, d₁⟩ :: last :: back))
    (hinner : ∀ op ∈ next :: inner, ¬op.isConditional) (hcond : vm.condStack = []) (hstk : vm.dstack.stk = [y, x]) :
    Breaks ctx vm := by
  refine h.breaks_exec (Or.inl (isBranchExecuting_nil hcond)) fun ops vm' hfunc hat => ?_
  obtain ⟨x₀, x₁, s, _, _, hpop, -, -, rfl⟩ := numTest_ok (by exact hfunc)
  have hnone : s.stk = [] := (cons.inj (cons.inj (hstk.symm.trans hpop)).2).2.symm
  exact breaks_if hat hinner hcond (congrArg _ hnone)

section
omit [ChainHash H] [Primitives]

theorem isNumber_le {op : ParsedOpcode} (h : isNumber op) : op.value ≤ OP_16 := by
  simp only [isNumber, isSmallInt, or_eq_true, and_eq_true, decide_eq_true_eq] at h
  simp only [OP_0, OP_1, OP_16, OP_DATA_1, OP_DATA_4] at h ⊢
  omega

end

theorem breaks_scriptHash {pkPops : List ParsedOpcode} (h : At vm k [] pkPops)
    (hhash : isScriptHash pkPops ∨ isHTLCWithScriptHash pkPops) (hcond : vm.condStack = []) (hstk : vm.dstack.stk = []) :
    Breaks ctx vm := by
  rcases hhash with hhash | hlock
  · obtain ⟨d, data, d', rfl⟩ := isScriptHash_inv hhash
    exact breaks_hash160 h (isBranchExecuting_nil hcond) hstk
  · obtain ⟨n, inner, ⟨⟨d₀, d₁, d₂, d₅, d₆, d₇, rfl⟩, hn⟩, -, -, hinner⟩ := isHTLC_inv (of_decide_eq_true hlock)
    obtain ⟨d₃, data, d₄, rfl⟩ := isScriptHash_inv (hinner rfl)
    refine h.breaks_exec (Or.inl (isBranchExecuting_nil hcond)) fun ops vm₁ hfunc hat => ?_
    have hhandler : opfunc ctx ⟨OP_INPUTAGE, d₀⟩ = opcodeInputAge ctx := rfl
    obtain ⟨s, hs, rfl⟩ := onD_ok hfunc
    cases hs
    refine hat.breaks_exec (Or.inl (isBranchExecuting_nil hcond)) fun ops vm₂ hfunc hat => ?_
    rw [opfunc_push (isNumber_le hn) hfunc] at hat ⊢
    have hinner : ∀ op ∈ [⟨OP_DATA_20, data⟩, ⟨OP_EQUAL, d₄⟩], ¬ParsedOpcode.isConditional op := by
      simp [ParsedOpcode.isConditional, OP_DATA_20, OP_EQUAL, OP_IF, OP_NOTIF, OP_ELSE, OP_ENDIF]
    exact breaks_greaterThan hat hinner hcond (congrArg (_ :: ·) (congrArg (_ :: ·) hstk))

/-! ## Runs -/

section
omit [Primitives]

theorem verifyWitnessProgram_place {witness : List Bytes} (h : verifyWitnessProgram ctx witness vm = .ok vm') :
    vm'.scriptIdx = vm.scriptIdx ∧ vm'.scriptOff = vm.scriptOff := by
  unfold verifyWitnessProgram at h
  split at h
  · simp only [ok_rules] at h
    obtain ⟨_, _, -, _, -, h⟩ := h
    split at h
    · cases h
    · cases h
      exact ⟨rfl, rfl⟩
  split at h
  · cases h
  · cases h
    exact ⟨rfl, rfl⟩

theorem finishScript_place (h : finishScript ctx vm = .ok vm') : vm'.scriptIdx = vm.scriptIdx + 1 ∧ vm'.scriptOff = 0 := by
  simp only [finishScript] at h
  split at h
  · cases h
    exact ⟨rfl, rfl⟩
  split at h
  · simp only [ok_rules] at h
    obtain ⟨-, h⟩ := h
    split at h
    · cases h
    · obtain ⟨_, -, h⟩ := bind_eq_ok.1 h
      cases h
      exact ⟨rfl, rfl⟩
  split at h
  · exact verifyWitnessProgram_place h
  · cases h
    exact ⟨rfl, rfl⟩

end

/-- Where an engine stands under a script hash: it runs the signature script, or the stack was saved with an item, or
the saved stack has been used. -/
inductive Backed (ctx : EngineCtx H) (sigPops pkPops : List ParsedOpcode) (vm : Engine) : Prop where
  | signing : Signing ctx sigPops pkPops vm → Backed ctx sigPops pkPops vm
  | saved : vm.scriptIdx = 1 → vm.savedFirstStack ≠ [] → Backed ctx sigPops pkPops vm
  | used : 2 ≤ vm.scriptIdx → Backed ctx sigPops pkPops vm

variable {pkPops : List ParsedOpcode}

section
variable (h : Backed ctx sigPops pkPops vm)
include h

theorem Backed.not_stepPanics : stepPanics ctx vm = false := by
  refine eq_false_iff.2 fun hpanic => ?_
  obtain ⟨-, hidx, -, hempty⟩ := stepPanics_inv hpanic
  cases h with
  | signing hsign =>
    have := hsign.scriptIdx
    omega
  | saved _ hsaved => exact hsaved hempty
  | used hlate => omega

theorem Backed.execute {vm₁ : Engine} (hpush : isPushOnly sigPops)
    (hop : currentOpcode vm = some op)
    (hexec : executeOpcode ctx op vm.advance = .ok vm₁) : Backed ctx sigPops pkPops vm₁ := by
  have hsame := keeps_executeOpcode hexec
  cases h with
  | signing hsign => exact .signing (hsign.execute (fun _ => hpush) hop hexec)
  | saved hidx hsaved =>
    refine .saved (hsame.scriptIdx.trans hidx) ?_
    rw [hsame.savedFirstStack]
    exact hsaved
  | used hlate =>
    refine .used ?_
    rw [hsame.scriptIdx]
    exact hlate

omit [Primitives] in
theorem Backed.finish (hbip16 : ctx.bip16) (hne : sigPops ≠ [])
    (hend : (vm.script vm.scriptIdx).length ≤ vm.scriptOff) (hfinish : finishScript ctx vm = .ok vm') :
    Backed ctx sigPops pkPops vm' := by
  have hnext := (finishScript_place hfinish).1
  cases h with
  | signing hsign =>
    refine .saved (hnext.trans (congrArg (· + 1) hsign.scriptIdx)) ?_
    simpa [hsign.saved hbip16 hend hfinish] using hne
  | saved hidx _ => exact .used (by omega)
  | used hlate => exact .used (by omega)

theorem Backed.step (hbip16 : ctx.bip16) (hpush : isPushOnly sigPops)
    (hne : sigPops ≠ []) {done : Bool} (hstep : step ctx vm = .ok (done, vm')) : Backed ctx sigPops pkPops vm' := by
  obtain ⟨op, vm₁, hstepped⟩ := step_ok hstep
  have hsame := keeps_executeOpcode hstepped.executed
  have hbacked := h.execute hpush hstepped.opcode hstepped.executed
  rcases Nat.lt_or_ge (vm.scriptOff + 1) (vm.script vm.scriptIdx).length with hin | hend
  · obtain ⟨-, rfl⟩ := hstepped.inside hin
    exact hbacked
  · obtain ⟨-, vm₂, hfinish, -, rfl⟩ := hstepped.finished hend
    have hend₁ : (vm₁.script vm₁.scriptIdx).length ≤ vm₁.scriptOff := by
      rw [hsame.scriptOff, Engine.script, hsame.scripts, hsame.scriptIdx]
      exact hend
    have hidx := (finishScript_place hfinish).1
    cases hbacked.finish hbip16 hne hend₁ hfinish with
    | signing hsign =>
      have := hsign.scriptIdx
      omega
    | saved hone hsaved =>
      -- an empty public key script is passed over
      by_cases hskip : vm₂.scriptIdx < vm₂.scripts.length ∧ (vm₂.script vm₂.scriptIdx).length ≤ vm₂.scriptOff
      · exact .used (by simp only [if_pos hskip]; omega)
      · exact .saved (by simp only [if_neg hskip]; exact hone) hsaved
    | used hlate =>
      refine .used ?_
      simp only
      split <;> omega

theorem Backed.noPanic (hbip16 : ctx.bip16) (hpush : isPushOnly sigPops)
    (hne : sigPops ≠ []) : NoPanic ctx vm :=
  .of_invariant (fun _ hvm => hvm.not_stepPanics) (fun _ _ hvm hstep => hvm.step hbip16 hpush hne hstep) h

end

omit [ChainHash H] [Primitives] in
theorem newEngine_bip16 {pkScript : Bytes} {tx : MsgTx H} {i : Nat} {txIn : TxIn H} {flags : ScriptFlags}
    {amount age : Int} {pkPops : List ParsedOpcode} (h : newEngine pkScript tx i txIn flags amount age = .ok (ctx, vm))
    (hpk : parsed pkScript = .ok pkPops) (hbip16 : ctx.bip16) : isScriptHash pkPops ∨ isHTLCWithScriptHash pkPops := by
  simp only [newEngine, parseScripts, ok_rules] at h
  obtain ⟨-, -, -, _, _, ⟨_, ⟨-, -⟩, _, ⟨-, hpk'⟩, rfl, rfl⟩, -, -, _, -, -, _, _, -, rfl, rfl⟩ := h
  cases hpk.symm.trans hpk'
  simp only [and_eq_true, or_eq_true] at hbip16
  exact hbip16.2

theorem noPanic_newEngine {pkScript : Bytes} {tx : MsgTx H} {i : Nat} {txIn : TxIn H} {flags : ScriptFlags}
    {amount age : Int} (h : newEngine pkScript tx i txIn flags amount age = .ok (ctx, vm)) : NoPanic ctx vm := by
  obtain ⟨sigPops, pkPops, hstart⟩ := newEngine_started h
  by_cases hbip16 : ctx.bip16
  swap
  · intro fuel vm' _
    exact eq_false_iff.2 fun hpanic => hbip16 (stepPanics_inv hpanic).2.2.1
  have hscript := newEngine_bip16 h hstart.pkParsed hbip16
  have hidx := hstart.scriptIdx
  by_cases hempty : txIn.signatureScript = []
  · rw [if_pos hempty] at hidx
    have hat : At vm 1 [] pkPops := ⟨by rw [hstart.scripts]; rfl, hidx, hstart.scriptOff⟩
    exact (breaks_scriptHash hat hscript hstart.condStack hstart.stack).noPanic
  · rw [if_neg hempty] at hidx
    have hsign : Signing ctx sigPops pkPops vm :=
      ⟨hstart.scripts, hidx, fun _ => ⟨hstart.condStack, by rw [hstart.stack, hstart.scriptOff]; rfl⟩⟩
    refine Backed.noPanic (.signing hsign) hbip16 (hstart.pushOnly hbip16) ?_
    rintro rfl
    exact hempty (Except.ok.inj (unparse_parsed hstart.sigParsed).1).symm

end

end Jaxnetd.TxScript
