import Jaxnetd.TxScript.Engine

/-!
# Runs of the engine and the lock times they check

`runStates` lists the engines at which a run executes an opcode. In a run that succeeds each makes its step, so an
`OP_CHECKLOCKTIMEVERIFY` among them has compared its operand with the lock time, if its flag is set.
-/

namespace Jaxnetd.TxScript
open Wire Checks Engine

section
variable {H : Type} [ChainHash H] [Primitives] (ctx : EngineCtx H)

def runStates : Nat → Engine → List Engine
  | 0, _ => []
  | fuel + 1, vm => vm :: match step ctx vm with
    | .ok (false, vm) => runStates fuel vm
    | _ => []

theorem step_of_mem_runStates {fuel : Nat} {vm last : Engine} (h : executeLoop ctx fuel vm = .ok last) :
    ∀ vm' ∈ runStates ctx fuel vm, ∃ r, step ctx vm' = .ok r := by
  induction fuel generalizing vm with
  | zero => cases h
  | succ fuel ih =>
    simp only [executeLoop, ok_rules] at h
    obtain ⟨done, vm₁, hstep, h⟩ := h
    rw [runStates, List.forall_mem_cons]
    refine ⟨⟨_, hstep⟩, ?_⟩
    rw [hstep]
    cases done with
    | true => simp
    | false => exact ih (by simpa using h)

end

/-- The operand of the `OP_CHECKLOCKTIMEVERIFY` that the engine is about to execute. -/
def lockTimeAt (vm : Engine) : Option Int := do
  let op ← currentOpcode vm
  if op.value = OP_CHECKLOCKTIMEVERIFY ∧ vm.isBranchExecuting then (lockOperand vm).toOption else none

def lockTimes {H : Type} [ChainHash H] [Primitives] (ctx : EngineCtx H) (vm : Engine) : List Int :=
  (runStates ctx maxSteps vm).filterMap lockTimeAt

section
variable {H : Type} [ChainHash H] [Primitives] {ctx : EngineCtx H} {vm : Engine}

structure LockTimeChecked (ctx : EngineCtx H) (L : Int) : Prop where
  nonneg : 0 ≤ L
  kind : (ctx.tx.lockTime < lockTimeThreshold ↔ L < lockTimeThreshold)
  le : L ≤ ctx.tx.lockTime
  sequence : ctx.sequence ≠ maxTxInSequenceNum

omit [ChainHash H] [Primitives] in
theorem checkLockTime_ok {L : Int} (hL : lockOperand vm = .ok L) (h : checkLockTime ctx vm = .ok ()) :
    LockTimeChecked ctx L := by
  simp only [checkLockTime, verifyLockTime, hL, ok_rules, exists_eq_left', Int.not_lt] at h
  obtain ⟨h0, ⟨hkind, hle⟩, hseq⟩ := h
  exact ⟨h0, by omega, hle, hseq⟩

theorem executeOpcode_ok {op : ParsedOpcode} {vm' : Engine} (h : executeOpcode ctx op vm = .ok vm') :
    ∃ n, if vm.isBranchExecuting ∨ op.isConditional then opfunc ctx op { vm with numOps := n } = .ok ((), vm')
      else vm' = { vm with numOps := n } := by
  obtain ⟨n, hn⟩ : ∃ n, (if OP_16 < op.value then { vm with numOps := vm.numOps + 1 } else vm) =
      { vm with numOps := n } := by
    split
    · exact ⟨_, rfl⟩
    · exact ⟨vm.numOps, rfl⟩
  refine ⟨n, ?_⟩
  have hbranch : { vm with numOps := n }.isBranchExecuting = vm.isBranchExecuting := rfl
  simp only [executeOpcode, hn, hbranch, ok_rules] at h
  obtain ⟨-, -, -, -, h⟩ := h
  split at h
  · next hskip =>
    rw [if_neg (by simpa using hskip)]
    exact (pure_eq_ok.1 h).symm
  · next hrun =>
    rw [if_pos (by simpa using Classical.or_iff_not_imp_left.2 (by simpa using hrun))]
    simp only [ok_rules] at h
    obtain ⟨-, vm₁, hfunc, rfl⟩ := h
    exact hfunc

theorem opfunc_of_executeOpcode {op : ParsedOpcode} {vm' : Engine} (hrun : vm.isBranchExecuting ∨ op.isConditional)
    (h : executeOpcode ctx op vm = .ok vm') : ∃ n, opfunc ctx op { vm with numOps := n } = .ok ((), vm') := by
  obtain ⟨n, hn⟩ := executeOpcode_ok h
  rw [if_pos hrun] at hn
  exact ⟨n, hn⟩

theorem checkLockTime_of_step (hflag : ctx.flags.verifyCheckLockTimeVerify) {r : Bool × Engine}
    (hstep : step ctx vm = .ok r) {L : Int} (hL : lockTimeAt vm = some L) : LockTimeChecked ctx L := by
  obtain ⟨op, hop, hL⟩ := Option.bind_eq_some_iff.1 hL
  rw [Option.ite_none_right_eq_some] at hL
  obtain ⟨⟨hvalue, hbranch⟩, hL⟩ := hL
  have hoperand : lockOperand vm = .ok L := by
    rcases hresult : lockOperand vm with e | L'
    · simp [hresult, Except.toOption] at hL
    · simpa [hresult, Except.toOption] using hL
  simp only [step, hop, ok_rules, Option.some.injEq, exists_eq_left'] at hstep
  obtain ⟨vm₁, hexec, -⟩ := hstep
  have hbranch' : { vm with scriptOff := vm.scriptOff + 1 }.isBranchExecuting = true := hbranch
  obtain ⟨n, hn⟩ := opfunc_of_executeOpcode (Or.inl hbranch') hexec
  obtain ⟨value, data⟩ := op
  subst hvalue
  have hhandler : opfunc ctx ⟨OP_CHECKLOCKTIMEVERIFY, data⟩ = opcodeCheckLockTimeVerify ctx := rfl
  simp only [hhandler, opcodeCheckLockTimeVerify, softForkedNop, hflag, if_true, ok_rules] at hn
  exact checkLockTime_ok hoperand hn.1

end

end Jaxnetd.TxScript
