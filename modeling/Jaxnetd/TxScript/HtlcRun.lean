import Jaxnetd.TxScript.EngineRun
import Jaxnetd.TxScript.LockScript

/-!
# Runs through a lock script

A lock compares the age of the input with its period and returns early if the age is not above it. No run gets
past a lock whose period has not passed (`breaks_htlc`), nor past a script hash of such a lock
(`fails_scriptHash`).
-/

namespace Jaxnetd.TxScript
open Wire Checks Engine Stack

/-! ## Methods of the stack -/

variable {vm' : Engine}

theorem onD_ok {α : Type} {m : StackM α} {vm : Engine} {a : α} (h : onD m vm = .ok (a, vm')) :
    ∃ s, m vm.dstack = .ok (a, s) ∧ vm' = { vm with dstack := s } := by
  simp only [onD, ok_rules] at h
  obtain ⟨_, s, hm, rfl, rfl⟩ := h
  exact ⟨s, hm, rfl⟩

theorem stateT_bind_ok {σ α β : Type} {m : StateT σ (Except ScriptError) α} {f : α → StateT σ (Except ScriptError) β}
    {s s' : σ} {b : β} (h : (m >>= f) s = .ok (b, s')) : ∃ a s₁, m s = .ok (a, s₁) ∧ f a s₁ = .ok (b, s') := by
  obtain ⟨⟨a, s₁⟩, h₁, h₂⟩ := bind_eq_ok.1 h
  exact ⟨a, s₁, h₁, h₂⟩

theorem popByteArray_ok {s s' : Stack} {x : Bytes} (h : popByteArray s = .ok (x, s')) :
    s.stk = x :: s'.stk ∧ s'.verifyMinimalData = s.verifyMinimalData := by
  simp only [popByteArray, nipN, item, Int.lt_irrefl, if_false, ok_rules] at h
  obtain ⟨y, hy, rfl, rfl⟩ := h
  rcases hs : s.stk with _ | ⟨z, rest⟩
  · simp [hs] at hy
  · simp_all

theorem popInt_ok {s s' : Stack} {x : Int} (h : popInt s = .ok (x, s')) :
    ∃ so, s.stk = so :: s'.stk ∧ makeScriptNum so s.verifyMinimalData defaultScriptNumLen = .ok x ∧
      s'.verifyMinimalData = s.verifyMinimalData := by
  obtain ⟨so, s₁, hpop, h⟩ := stateT_bind_ok h
  obtain ⟨s₂, s₃, hget, h⟩ := stateT_bind_ok h
  cases hget
  obtain ⟨y, hnum, h⟩ := bind_eq_ok.1 h
  cases h
  obtain ⟨hstk, hmin⟩ := popByteArray_ok hpop
  exact ⟨so, hstk, hmin ▸ hnum, hmin⟩

section
variable {H : Type} [ChainHash H] [Primitives] {ctx : EngineCtx H} {vm : Engine} {k : Nat}
  {front back inner : List ParsedOpcode} {last op : ParsedOpcode} {d d' : Bytes}

section
omit [ChainHash H] [Primitives]

theorem isBranchExecuting_nil (hcond : vm.condStack = []) : vm.isBranchExecuting := by simp [isBranchExecuting, hcond]

theorem popIfBool_ok {v : Bool} (h : popIfBool ctx vm = .ok (v, vm')) :
    ∃ x s, vm.dstack.stk = x :: s.stk ∧ v = asBool x ∧ vm' = { vm with dstack := s } := by
  obtain ⟨vm₀, vm₁, hget, h⟩ := stateT_bind_ok h
  cases hget
  split at h
  · obtain ⟨s, hs, rfl⟩ := onD_ok h
    obtain ⟨so, s₁, hso, hs⟩ := stateT_bind_ok hs
    cases hs
    exact ⟨so, s, (popByteArray_ok hso).1, rfl, rfl⟩
  · obtain ⟨so, vm₁, hso, h⟩ := stateT_bind_ok h
    obtain ⟨s, hs, rfl⟩ := onD_ok hso
    split at h
    · nomatch h
    split at h
    · nomatch h
    cases h
    exact ⟨so, s, (popByteArray_ok hs).1, rfl, rfl⟩

end

/-! ## Opcodes of a lock, from the last one back -/

theorem opcodeIf_ok (hcond : vm.condStack = []) (h : opfunc ctx ⟨OP_IF, d⟩ vm = .ok ((), vm')) :
    ∃ x s, vm.dstack.stk = x :: s.stk ∧
      vm' = { vm with dstack := s, condStack := [if asBool x then .condTrue else .condFalse] } := by
  have h' : pushCondition ctx true vm = .ok ((), vm') := h
  obtain ⟨vm₀, vm₁, hget, h'⟩ := stateT_bind_ok h'
  cases hget
  simp only [isBranchExecuting_nil hcond, if_true] at h'
  obtain ⟨ok, vm₁, hok, h'⟩ := stateT_bind_ok h'
  obtain ⟨x, s, hx, rfl, rfl⟩ := popIfBool_ok hok
  cases h'
  exact ⟨x, s, hx, by rw [hcond]⟩

omit [ChainHash H] [Primitives] in
theorem numTest_ok {f : Int → Int → Bool} (h : numTest f vm = .ok ((), vm')) :
    ∃ (x₀ x₁ : Bytes) (s : Stack) (v₀ v₁ : Int), vm.dstack.stk = x₀ :: x₁ :: s.stk ∧
      makeScriptNum x₀ vm.dstack.verifyMinimalData defaultScriptNumLen = .ok v₀ ∧
      makeScriptNum x₁ vm.dstack.verifyMinimalData defaultScriptNumLen = .ok v₁ ∧
      vm' = { vm with dstack := { s with stk := scriptNumBytes (if f v₀ v₁ then 1 else 0) :: s.stk } } := by
  obtain ⟨s, hs, rfl⟩ := onD_ok h
  obtain ⟨v₀, s₁, hv₀, hs⟩ := stateT_bind_ok hs
  obtain ⟨v₁, s₂, hv₁, hs⟩ := stateT_bind_ok hs
  obtain ⟨x₀, hx₀, hnum₀, hmin⟩ := popInt_ok hv₀
  obtain ⟨x₁, hx₁, hnum₁, -⟩ := popInt_ok hv₁
  cases hs
  exact ⟨x₀, x₁, s₂, v₀, v₁, by rw [hx₀, hx₁], hnum₀, hmin ▸ hnum₁, rfl⟩

theorem opcodeElse_eq {c : OpCond} {cs : List OpCond} (hc : c ≠ .condSkip) (h : vm.condStack = c :: cs) :
    opfunc ctx ⟨OP_ELSE, d⟩ vm =
      .ok ((), { vm with condStack := (if c = .condTrue then .condFalse else .condTrue) :: cs }) := by
  obtain ⟨scripts, idx, off, sep, dstk, astk, conds, num, saved, version, program⟩ := vm
  subst h
  cases c with
  | condTrue | condFalse => rfl
  | condSkip => exact absurd rfl hc

theorem opcodeEndif_eq {c : OpCond} {cs : List OpCond} (h : vm.condStack = c :: cs) :
    opfunc ctx ⟨OP_ENDIF, d⟩ vm = .ok ((), { vm with condStack := cs }) := by
  obtain ⟨scripts, idx, off, sep, dstk, astk, conds, num, saved, version, program⟩ := vm
  subst h
  rfl

theorem breaks_else (h : At vm k front (⟨OP_ELSE, d⟩ :: ⟨OP_RETURN, d'⟩ :: last :: back))
    (hcond : vm.condStack = [.condFalse]) : Breaks ctx vm := by
  refine h.breaks_exec (Or.inr rfl) fun n vm₁ hfunc hat => ?_
  cases (opcodeElse_eq (c := .condFalse) nofun (by exact hcond)).symm.trans hfunc
  refine hat.breaks_exec (Or.inl rfl) fun n vm₂ hfunc _ => ?_
  cases hfunc

theorem breaks_inner (h : At vm k front (inner ++ ⟨OP_ELSE, d⟩ :: ⟨OP_RETURN, d'⟩ :: last :: back))
    (hinner : ∀ op ∈ inner, ¬op.isConditional) (hcond : vm.condStack = [.condFalse]) : Breaks ctx vm := by
  induction inner generalizing vm front with
  | nil => exact breaks_else h hcond
  | cons op inner ih =>
    rw [List.forall_mem_cons] at hinner
    obtain ⟨next, rest, hrest⟩ : ∃ next rest, inner ++ ⟨OP_ELSE, d⟩ :: ⟨OP_RETURN, d'⟩ :: last :: back = next :: rest := by
      cases inner <;> exact ⟨_, _, rfl⟩
    rw [List.cons_append, hrest] at h
    refine h.breaks fun vm' hexec hat => ih (hrest ▸ hat) hinner.2 ?_
    have hbranch : ¬vm.advance.isBranchExecuting := by
      simp [isBranchExecuting, hcond]
    exact (executeOpcode_skipped hbranch hinner.1 hexec).trans hcond

variable {n : Int} {sigPops pkPops back : List ParsedOpcode}

/-- A comparison that does not hold leads past the first branch to the return. -/
theorem breaks_compare (hage : ctx.inputAge ≤ n)
    (h : At vm k front (⟨OP_GREATERTHAN, []⟩ :: ⟨OP_IF, []⟩ :: inner ++ ⟨OP_ELSE, []⟩ :: ⟨OP_RETURN, []⟩ :: last :: back))
    (hinner : ∀ op ∈ inner, ¬op.isConditional) (hcond : vm.condStack = []) {rest : List Bytes}
    (hstk : vm.dstack.stk = scriptNumBytes n :: scriptNumBytes ctx.inputAge :: rest) : Breaks ctx vm := by
  obtain ⟨next, more, hmore⟩ : ∃ next more, inner ++ ⟨OP_ELSE, []⟩ :: ⟨OP_RETURN, []⟩ :: last :: back = next :: more := by
    cases inner <;> exact ⟨_, _, rfl⟩
  rw [List.cons_append, List.cons_append, hmore] at h
  refine h.breaks_exec (Or.inl (isBranchExecuting_nil hcond)) fun ops vm' hfunc hat => ?_
  obtain ⟨x₀, x₁, s, v₀, v₁, hpop, hnum₀, hnum₁, rfl⟩ := numTest_ok (by exact hfunc)
  obtain ⟨rfl, htail⟩ := List.cons.inj (hstk.symm.trans hpop)
  obtain ⟨rfl, -⟩ := List.cons.inj htail
  have hn := makeScriptNum_scriptNumBytes (by decide) hnum₀
  have hinput := makeScriptNum_scriptNumBytes (by decide) hnum₁
  have hnot : ¬v₀ < v₁ := by omega
  refine hat.breaks_exec (Or.inr rfl) fun ops' vm' hfunc hat => breaks_inner (hmore ▸ hat) hinner ?_
  obtain ⟨x, s', hx, rfl⟩ := opcodeIf_ok (by exact hcond) hfunc
  obtain ⟨rfl, -⟩ := List.cons.inj hx
  simp [hnot, scriptNumBytes, asBool]

theorem opfunc_data (h : 1 ≤ op.value ∧ op.value ≤ OP_PUSHDATA4) : opfunc ctx op = opcodePushData op := if_pos h

theorem opfunc_intChunk (hn : 0 ≤ n) : opfunc ctx (intChunk n).2 = onD (pushByteArray (scriptNumBytes n)) := by
  unfold intChunk
  split
  · next h0 =>
    subst h0
    rfl
  · split
    · next h0 h16 =>
      obtain ⟨m, rfl⟩ : ∃ m : Nat, n = m := ⟨n.toNat, by omega⟩
      have hdata : ¬(1 ≤ OP_1 - 1 + m ∧ OP_1 - 1 + m ≤ OP_PUSHDATA4) := by
        simp only [OP_1, OP_PUSHDATA4]
        omega
      have hsmall : OP_1 ≤ OP_1 - 1 + m ∧ OP_1 - 1 + m ≤ OP_16 := by
        simp only [OP_1, OP_16]
        omega
      rw [opfunc, opChunk, Int.toNat_natCast, if_neg hdata, if_pos hsmall, opcodeN, pushInt,
        show OP_1 - 1 + m - (OP_1 - 1) = m by omega]
    · next h16 =>
      have hpush := dataPush_scriptNumBytes (show 16 < n by omega)
      exact opfunc_data ⟨hpush.1, hpush.2.1.trans (by decide)⟩

omit [ChainHash H] [Primitives] in
theorem not_conditional_push (h : op.value ≤ OP_16) : ¬op.isConditional := by
  simp only [OP_16] at h
  simp [ParsedOpcode.isConditional, OP_IF, OP_NOTIF, OP_ELSE, OP_ENDIF]
  omega

omit [Primitives] in
theorem not_conditional_address (address : Address) :
    ∀ op ∈ (addressChunks address).map Prod.snd, ¬op.isConditional := by
  have hop : ∀ v ∈ [OP_0, OP_DUP, OP_HASH160, OP_EQUALVERIFY, OP_EQUAL, OP_CHECKSIG],
      (opChunk v).2.isConditional = false := by
    decide
  have hpush : ∀ data : Bytes, data.length ≤ 65 → (pushChunk data).2.isConditional = false := by
    intro data hlen
    exact Bool.eq_false_of_not_eq_true (not_conditional_push (hlen.trans (by decide)))
  cases address with
  | pubKey key =>
    have hkey := hpush key.1 (by omega)
    simp [addressChunks, hop, hkey]
  | pubKeyHash hash => simp [addressChunks, hop, hpush, hash.2]
  | scriptHash hash => simp [addressChunks, hop, hpush, hash.2]
  | witnessPubKeyHash program => simp [addressChunks, hop, hpush, program.2]
  | witnessScriptHash program => simp [addressChunks, hop, hpush, program.2]
  | htlc script => simp [addressChunks]

theorem breaks_htlc {address : Address} (hn : 0 ≤ n) (hage : ctx.inputAge ≤ n)
    (h : At vm k [] ((htlcChunks address n).map Prod.snd)) (hcond : vm.condStack = []) : Breaks ctx vm := by
  simp only [htlcChunks, List.map_cons, List.map_append, List.cons_append] at h
  refine h.breaks_exec (Or.inl (isBranchExecuting_nil hcond)) fun ops vm₁ hfunc hat => ?_
  obtain ⟨s, hs, rfl⟩ := onD_ok (show onD (pushInt ctx.inputAge) _ = _ from hfunc)
  cases hs
  refine hat.breaks_exec (Or.inl (isBranchExecuting_nil hcond)) fun ops' vm₂ hfunc' hat' => ?_
  rw [opfunc_intChunk hn] at hfunc'
  obtain ⟨s, hs, rfl⟩ := onD_ok hfunc'
  cases hs
  exact breaks_compare hage hat' (not_conditional_address address) hcond rfl

/-! ## Script hashes -/

variable (H) in
def hash160 (buf : Bytes) : Bytes := Primitives.ripemd160 (hashB H buf)

omit [ChainHash H] [Primitives] in
theorem top_of_checkErrorCondition {final : Bool} (h : checkErrorCondition ctx final vm = .ok ()) :
    ∃ x rest, vm.dstack.stk = x :: rest ∧ asBool x := by
  simp only [checkErrorCondition, ok_rules] at h
  obtain ⟨-, -, -, -, v, s, hpop, hv⟩ := h
  obtain ⟨x, s₁, hx, hret⟩ := stateT_bind_ok hpop
  cases hret
  exact ⟨x, _, (popByteArray_ok hx).1, by simpa using hv⟩

omit [Primitives] in
theorem finishScript_scriptHash (h : finishScript ctx vm = .ok vm') (hbip16 : ctx.bip16)
    (hidx : vm.scriptIdx = 1) : (∃ x rest, vm.dstack.stk = x :: rest ∧ asBool x) ∧
      ∃ script pops, vm.savedFirstStack.getLast? = some script ∧ parsed script = .ok pops ∧
        vm'.scripts = vm.scripts ++ [pops] ∧ vm'.scriptIdx = 2 ∧ vm'.scriptOff = 0 ∧ vm'.condStack = vm.condStack := by
  rw [finishScript, hidx] at h
  simp only [hbip16, Nat.one_ne_zero, if_false, and_true, if_true, ok_rules] at h
  obtain ⟨hcheck, h⟩ := h
  have htop := top_of_checkErrorCondition hcheck
  refine ⟨htop, ?_⟩
  split at h
  · cases h
  · next script hscript =>
    simp only [ok_rules] at h
    obtain ⟨pops, hpops, rfl⟩ := h
    exact ⟨script, pops, hscript, hpops, rfl, rfl, rfl, rfl⟩

section Hash
variable {address : Address} {n : Int} {script : Bytes} {hash : FixedBytes 20} {sigPops pkPops : List ParsedOpcode}
  {x : Bytes} {rest : List Bytes} (hn : 0 ≤ n) (hage : ctx.inputAge ≤ n) (hscript : htlcScript address n = .ok script)
  (hhash : hash.1 = hash160 H script) (hbip16 : ctx.bip16)
include hn hage hscript hhash hbip16

section
variable (hunique : hash160 H x = hash160 H script → x = script) (hscripts : vm.scripts = [sigPops, pkPops])
include hunique hscripts

theorem fails_equal
    (h : At vm 1 front [⟨OP_EQUAL, []⟩]) (hcond : vm.condStack = []) (hlast : vm.savedFirstStack.getLast? = some x)
    (hstk : vm.dstack.stk = hash.1 :: hash160 H x :: rest) : Fails ctx vm := by
  refine h.last (Or.inl (isBranchExecuting_nil hcond)) fun ops vm₁ vm₂ hfunc hcond₁ hfinish => ?_
  have hhandler : opfunc ctx ⟨OP_EQUAL, []⟩ = opcodeEqual := rfl
  obtain ⟨s, hs, rfl⟩ := onD_ok hfunc
  obtain ⟨a, s₂, ha, hs⟩ := stateT_bind_ok hs
  obtain ⟨b, s₃, hb, hs⟩ := stateT_bind_ok hs
  cases hs
  obtain ⟨rfl, htail⟩ := List.cons.inj (hstk.symm.trans (popByteArray_ok ha).1)
  obtain ⟨rfl, -⟩ := List.cons.inj (htail.trans (popByteArray_ok hb).1)
  obtain ⟨⟨y, rest', hy, htrue⟩, script', pops, hscript', hpops, hscripts', hidx, hoff, hcond₂⟩ :=
    finishScript_scriptHash hfinish hbip16 h.scriptIdx
  -- the script that was pushed is the lock
  have heq : hash160 H x = hash160 H script := by
    obtain ⟨rfl, -⟩ := List.cons.inj hy
    by_contra hne
    have hneq : ¬hash.1 = hash160 H x := fun h => hne (h ▸ hhash)
    simp [fromBool, hneq, asBool] at htrue
  have hx : x = script' := Option.some.inj (hlast.symm.trans hscript')
  rw [← hx, hunique heq, parsed_htlcScript hn hscript, Except.ok.injEq] at hpops
  have hat : At vm₂ 2 [] ((htlcChunks address n).map Prod.snd) := by
    refine ⟨?_, hidx, hoff⟩
    rw [hscripts', hpops]
    simp [hscripts]
  exact ⟨2, _, _, hat, Breaks.fails (breaks_htlc hn hage ⟨hat.script, hat.scriptIdx, hat.scriptOff⟩ (hcond₂.trans hcond₁))⟩

theorem fails_pushHash (h : At vm 1 front [(pushChunk hash.1).2, ⟨OP_EQUAL, []⟩])
    (hcond : vm.condStack = []) (hlast : vm.savedFirstStack.getLast? = some x)
    (hstk : vm.dstack.stk = hash160 H x :: rest) : Fails ctx vm := by
  refine h.yields_exec (Or.inl (isBranchExecuting_nil hcond)) fun ops vm₁ hfunc hat => ?_
  rw [opfunc_data (by simp [pushChunk, hash.2, OP_PUSHDATA4])] at hfunc
  obtain ⟨s, hs, rfl⟩ := onD_ok hfunc
  cases hs
  exact fails_equal hn hage hscript hhash hbip16 hunique hscripts hat hcond hlast (congrArg (hash.1 :: ·) hstk)

end

theorem fails_scriptHash (hunique : ∀ x ∈ vm.dstack.stk, hash160 H x = hash160 H script → x = script)
    (hscripts : vm.scripts = [sigPops, pkPops]) (h : At vm 1 [] ((addressChunks (.scriptHash hash)).map Prod.snd))
    (hcond : vm.condStack = []) (hsaved : vm.savedFirstStack = vm.dstack.toArray) : Fails ctx vm := by
  refine h.yields_exec (Or.inl (isBranchExecuting_nil hcond)) fun ops vm₁ hfunc hat => ?_
  have hhandler : opfunc ctx (opChunk OP_HASH160).2 = digestOp (hash160 H) := rfl
  obtain ⟨s, hs, rfl⟩ := onD_ok hfunc
  obtain ⟨x, s₁, hx, hs⟩ := stateT_bind_ok hs
  cases hs
  -- the item whose hash is taken is the last one of the saved stack
  have hlast : vm.savedFirstStack.getLast? = some x := by
    rw [hsaved, toArray, List.getLast?_reverse]
    exact congrArg List.head? (popByteArray_ok hx).1
  have hmem : x ∈ vm.dstack.stk := by
    rw [show vm.dstack.stk = x :: s₁.stk from (popByteArray_ok hx).1]
    exact List.mem_cons_self
  exact fails_pushHash hn hage hscript hhash hbip16 (hunique x hmem) hscripts hat hcond hlast rfl

end Hash

/-! ## The start of a run -/

structure Started (pkScript : Bytes) (txIn : TxIn H) (flags : ScriptFlags) (age : Int) (sigPops pkPops : List ParsedOpcode)
    (ctx : EngineCtx H) (vm : Engine) : Prop where
  sigParsed : parsed txIn.signatureScript = .ok sigPops
  pkParsed : parsed pkScript = .ok pkPops
  inputAge : ctx.inputAge = age
  bip16 : flags.verifyWitness → isScriptHash pkPops → ctx.bip16
  pushOnly : ctx.bip16 → isPushOnly sigPops
  scripts : vm.scripts = [sigPops, pkPops]
  scriptIdx : vm.scriptIdx = if txIn.signatureScript = [] then 1 else 0
  scriptOff : vm.scriptOff = 0
  condStack : vm.condStack = []
  stack : vm.dstack.stk = []
  saved : vm.savedFirstStack = []

variable {flags : ScriptFlags} {pkScript : Bytes} {txIn : TxIn H} {age : Int}

omit [ChainHash H] [Primitives] in
theorem newEngine_started {tx : MsgTx H} {i : Nat}
    {amount : Int} (h : newEngine pkScript tx i txIn flags amount age = .ok (ctx, vm)) :
    ∃ sigPops pkPops, Started pkScript txIn flags age sigPops pkPops ctx vm := by
  simp only [newEngine, parseScripts, ok_rules] at h
  obtain ⟨-, -, -, sigPops, pkPops, ⟨_, ⟨-, hsig⟩, _, ⟨-, hpk⟩, rfl, rfl⟩, hpush, hflags, _, -, -, _, _, -, rfl, rfl⟩ := h
  refine ⟨_, _, hsig, hpk, rfl, fun hwitness hhash => ?_, fun hbip16 => ?_, rfl, rfl, rfl, rfl, rfl, rfl⟩
  · simp_all
  · by_contra hnot
    exact hpush ⟨hbip16, hnot⟩

def pushedItem (pop : ParsedOpcode) : Bytes :=
  if 1 ≤ pop.value ∧ pop.value ≤ OP_PUSHDATA4 then pop.data
  else if OP_1 ≤ pop.value ∧ pop.value ≤ OP_16 then scriptNumBytes (pop.value - (OP_1 - 1) : Nat)
  else if pop.value = OP_1NEGATE then scriptNumBytes (-1)
  else []

def pushedItems (script : Bytes) : List Bytes := (parseScript script).1.map pushedItem

theorem opfunc_push (hop : op.value ≤ OP_16) (h : opfunc ctx op vm = .ok ((), vm')) :
    vm' = { vm with dstack := { vm.dstack with stk := pushedItem op :: vm.dstack.stk } } := by
  have hpush : ∀ data, onD (pushByteArray data) vm = .ok ((), vm') →
      vm' = { vm with dstack := { vm.dstack with stk := data :: vm.dstack.stk } } := by
    intro data hdata
    cases hdata
    rfl
  unfold pushedItem
  by_cases hdata : 1 ≤ op.value ∧ op.value ≤ OP_PUSHDATA4
  · rw [opfunc_data hdata] at h
    rw [if_pos hdata]
    exact hpush _ h
  by_cases hsmall : OP_1 ≤ op.value ∧ op.value ≤ OP_16
  · rw [opfunc, if_neg hdata, if_pos hsmall] at h
    rw [if_neg hdata, if_pos hsmall]
    exact hpush _ h
  -- what is left are the three opcodes with values of their own
  obtain ⟨value, data⟩ := op
  have hvalue : value = OP_0 ∨ value = OP_1NEGATE ∨ value = OP_RESERVED := by
    simp only [OP_0, OP_1NEGATE, OP_RESERVED, OP_PUSHDATA4, OP_1, OP_16] at *
    omega
  rcases hvalue with rfl | rfl | rfl
  · exact hpush _ h
  · exact hpush _ h
  · cases h

theorem executeOpcode_push {vm₁ : Engine} (hop : op.value ≤ OP_16) (hcond : vm.condStack = [])
    (hexec : executeOpcode ctx op vm.advance = .ok vm₁) :
    vm₁.condStack = [] ∧ vm₁.dstack.stk = pushedItem op :: vm.dstack.stk := by
  obtain ⟨n, hfunc⟩ := opfunc_of_executeOpcode (Or.inl (isBranchExecuting_nil (by exact hcond))) hexec
  rw [opfunc_push hop hfunc]
  exact ⟨hcond, rfl⟩

/-- What is kept while the signature script runs: if it may only push, the stack has its items so far. -/
structure Signing (ctx : EngineCtx H) (sigPops pkPops : List ParsedOpcode) (vm : Engine) : Prop where
  scripts : vm.scripts = [sigPops, pkPops]
  scriptIdx : vm.scriptIdx = 0
  pushed : ctx.bip16 → vm.condStack = [] ∧ vm.dstack.stk = ((sigPops.take vm.scriptOff).map pushedItem).reverse

theorem Signing.execute (h : Signing ctx sigPops pkPops vm)
    (hpush : ctx.bip16 → isPushOnly sigPops) (hop : currentOpcode vm = some op) {vm₁ : Engine}
    (hexec : executeOpcode ctx op vm.advance = .ok vm₁) :
    Signing ctx sigPops pkPops vm₁ := by
  have hsame := keeps_executeOpcode hexec
  refine ⟨hsame.scripts.trans h.scripts, hsame.scriptIdx.trans h.scriptIdx, fun hbip16 => ?_⟩
  obtain ⟨hcond, hitems⟩ := h.pushed hbip16
  have hat : sigPops[vm.scriptOff]? = some op := by simpa [currentOpcode, h.scripts, h.scriptIdx, bind] using hop
  have hvalue : op.value ≤ OP_16 := by simpa using List.all_eq_true.1 (hpush hbip16) op (List.mem_of_getElem? hat)
  obtain ⟨hcond', hstk⟩ := executeOpcode_push hvalue hcond hexec
  have hoff : vm₁.scriptOff = vm.scriptOff + 1 := hsame.scriptOff
  refine ⟨hcond', ?_⟩
  simp [hstk, hoff, hitems, List.take_add_one, hat]

section
omit [Primitives]

theorem finishScript_first (h : finishScript ctx vm = .ok vm') (hidx : vm.scriptIdx = 0) :
    vm'.scripts = vm.scripts ∧ vm'.scriptIdx = 1 ∧ vm'.scriptOff = 0 ∧ vm'.condStack = vm.condStack ∧
      vm'.dstack = vm.dstack ∧ (ctx.bip16 → vm'.savedFirstStack = vm'.dstack.toArray) := by
  rw [finishScript, hidx] at h
  by_cases hbip16 : ctx.bip16
  · rw [if_pos ⟨rfl, hbip16⟩] at h
    cases h
    exact ⟨rfl, rfl, rfl, rfl, rfl, fun _ => rfl⟩
  · rw [if_neg (by simp [hbip16]), if_neg (by simp), if_neg (by simp)] at h
    cases h
    exact ⟨rfl, rfl, rfl, rfl, rfl, fun h => absurd h hbip16⟩

theorem parseScript_of_parsed {script : Bytes} {pops : List ParsedOpcode} (h : parsed script = .ok pops) :
    (parseScript script).1 = pops := by
  unfold parsed at h
  split at h
  · next heq =>
    cases h
    rw [heq]
  · cases h

theorem Signing.saved (h : Signing ctx sigPops pkPops vm) (hbip16 : ctx.bip16)
    (hend : (vm.script vm.scriptIdx).length ≤ vm.scriptOff) (hfinish : finishScript ctx vm = .ok vm') :
    vm'.savedFirstStack = sigPops.map pushedItem := by
  obtain ⟨-, -, -, -, hdstack, hsaved⟩ := finishScript_first hfinish h.scriptIdx
  have hall : sigPops.take vm.scriptOff = sigPops :=
    List.take_of_length_le (by simpa [Engine.script, h.scripts, h.scriptIdx] using hend)
  rw [hsaved hbip16, hdstack, toArray, (h.pushed hbip16).2, hall, List.reverse_reverse]

theorem finishScript_keeps (h : finishScript ctx vm = .ok vm') (hidx : vm.scriptIdx = 0 ∨ vm.scriptIdx = 1 ∧ ctx.bip16) :
    vm'.witnessVersion = vm.witnessVersion ∧ vm'.witnessProgram = vm.witnessProgram := by
  simp only [finishScript] at h
  split at h
  · cases h
    exact ⟨rfl, rfl⟩
  split at h
  · simp only [ok_rules] at h
    obtain ⟨-, h⟩ := h
    split at h
    · cases h
    · obtain ⟨_, -, h⟩ := bind_eq_ok.1 h
      cases h
      exact ⟨rfl, rfl⟩
  · next h0 h1 =>
    have hzero : vm.scriptIdx = 0 := hidx.resolve_right h1
    rw [if_neg (by omega)] at h
    cases h
    exact ⟨rfl, rfl⟩

end

/-- The engine at the start of the public key script, when the run comes from `vm`. -/
structure Begins (ctx : EngineCtx H) (vm : Engine) (sigPops pkPops : List ParsedOpcode) (vm' : Engine) : Prop where
  leads : Leads ctx vm vm'
  scripts : vm'.scripts = [sigPops, pkPops]
  scriptIdx : vm'.scriptIdx = 1
  scriptOff : vm'.scriptOff = 0
  condStack : vm'.condStack = []
  lastCodeSep : vm.lastCodeSep = 0 → vm'.lastCodeSep = 0
  witnessProgram : vm'.witnessProgram = vm.witnessProgram
  saved : ctx.bip16 → vm'.savedFirstStack = vm'.dstack.toArray ∧ ∀ x ∈ vm'.dstack.stk, x ∈ sigPops.map pushedItem

theorem Begins.atStart (h : Begins ctx vm sigPops pkPops vm') : At vm' 1 [] pkPops :=
  ⟨by simp [h.scripts], h.scriptIdx, h.scriptOff⟩

section
variable (h : Started pkScript txIn flags age sigPops (op :: back) ctx vm)
include h

/-- The runs start with the public key script, whatever the signature script leaves on the stack. -/
theorem Started.yields
    {Q : Engine → Prop}
    (hnext : ∀ vm', Begins ctx vm sigPops (op :: back) vm' → Yields ctx vm' Q) : Yields ctx vm Q := by
  by_cases hsig : txIn.signatureScript = []
  · refine hnext vm ⟨.refl, h.scripts, ?_, h.scriptOff, h.condStack, id, rfl, fun _ => ⟨?_, by simp [h.stack]⟩⟩
    · rw [h.scriptIdx, if_pos hsig]
    · rw [h.saved, toArray, h.stack, List.reverse_nil]
  · have hidx : vm.scriptIdx = 0 := by rw [h.scriptIdx, if_neg hsig]
    -- the signature script runs, opcode by opcode
    refine Yields.of_invariant (P := fun vm' => Signing ctx sigPops (op :: back) vm' ∧ Leads ctx vm vm' ∧
      vm'.witnessProgram = vm.witnessProgram) (fun vm' done vm'' hvm hstep => ?_)
      ⟨⟨h.scripts, hidx, fun _ => ⟨h.condStack, by rw [h.stack, h.scriptOff]; rfl⟩⟩, .refl, rfl⟩
    obtain ⟨hvm, hleads, hwitness⟩ := hvm
    obtain ⟨op', vm₁, hstepped⟩ := step_ok hstep
    have hvm₁ := hvm.execute h.pushOnly hstepped.opcode hstepped.executed
    have hwitness₁ := (keeps_executeOpcode hstepped.executed).witnessProgram.trans hwitness
    by_cases hin : vm'.scriptOff + 1 < (vm'.script vm'.scriptIdx).length
    · obtain ⟨rfl, rfl⟩ := hstepped.inside hin
      exact Or.inl ⟨hvm₁, hleads.tail hstep, hwitness₁⟩
    · obtain ⟨hcond, vm₂, hfinish, -, -⟩ := hstepped.finished (by omega)
      obtain ⟨hscripts₂, hidx₂, hoff₂, hcond₂, hdstack, hsaved⟩ := finishScript_first hfinish hvm₁.scriptIdx
      have hat : At vm₂ 1 [] (op :: back) := ⟨by simp [hscripts₂, hvm₁.scripts], hidx₂, hoff₂⟩
      obtain ⟨rfl, rfl⟩ := hstepped.enter (by omega) hfinish hat
      have hitems : ctx.bip16 → ∀ x ∈ vm₂.dstack.stk, x ∈ sigPops.map pushedItem := by
        intro hbip16 x hx
        rw [hdstack, (hvm₁.pushed hbip16).2, List.mem_reverse, List.map_take] at hx
        exact List.mem_of_mem_take hx
      exact Or.inr (hnext _ ⟨hleads.tail hstep, hscripts₂.trans hvm₁.scripts, hidx₂, hoff₂, hcond₂.trans hcond,
        fun _ => rfl, (finishScript_keeps hfinish (Or.inl hvm₁.scriptIdx)).2.trans hwitness₁,
        fun hbip16 => ⟨hsaved hbip16, hitems hbip16⟩⟩)

theorem Started.fails
    (hnext : ∀ vm', vm'.scripts = [sigPops, op :: back] → At vm' 1 [] (op :: back) → vm'.condStack = [] →
      (ctx.bip16 → vm'.savedFirstStack = vm'.dstack.toArray ∧ ∀ x ∈ vm'.dstack.stk, x ∈ sigPops.map pushedItem) →
      Fails ctx vm') : Fails ctx vm :=
  h.yields fun vm' hvm' => hnext vm' hvm'.scripts hvm'.atStart hvm'.condStack hvm'.saved

end

/-! ## Lock periods -/

/-- The output is locked for a period: by a lock script, or by the hash of one, if the signature script pushes
nothing else with that hash. -/
inductive LockedFor (H : Type) [ChainHash H] [Primitives] (pkScript sigScript : Bytes) (n : Int) : Prop
  | script (address : Address) (hscript : htlcScript address n = .ok pkScript)
  | scriptHash (address : Address) (script : Bytes) (hash : FixedBytes 20) (hscript : htlcScript address n = .ok script)
      (hhash : hash.1 = hash160 H script)
      (hunique : ∀ x ∈ pushedItems sigScript, hash160 H x = hash160 H script → x = script)
      (hpkScript : payToScriptHashScript hash.1 = .ok pkScript)

/-- The scripts of an input succeed only once it is older than the lock period, whatever its signature script and
its witness. -/
theorem lt_age_of_execute {tx : MsgTx H} {i : Nat}
    {amount : Int} (hn : 0 ≤ n) (hlocked : LockedFor H pkScript txIn.signatureScript n) (hflags : flags.verifyWitness)
    (hnew : newEngine pkScript tx i txIn flags amount age = .ok (ctx, vm)) (h : execute ctx vm = .ok ()) : n < age := by
  obtain ⟨sigPops, pkPops, hstarted⟩ := newEngine_started hnew
  by_contra hnot
  have hage : ctx.inputAge ≤ n := by
    rw [hstarted.inputAge]
    omega
  cases hlocked with
  | script address hscript =>
    have hpops := hstarted.pkParsed
    rw [parsed_htlcScript hn hscript, Except.ok.injEq] at hpops
    subst hpops
    exact (hstarted.fails fun vm' _ hat hcond _ => (breaks_htlc hn hage hat hcond).fails).execute h
  | scriptHash address script hash hscript hhash hunique hpkScript =>
    have hpops := hstarted.pkParsed
    rw [parsed_payToScriptHashScript hpkScript, Except.ok.injEq] at hpops
    subst hpops
    have hbip16 := hstarted.bip16 hflags (by simp [isScriptHash, opValues, addressChunks, opChunk, pushChunk, hash.2,
      OP_DATA_20])
    have hitems : pushedItems txIn.signatureScript = sigPops.map pushedItem := by
      rw [pushedItems, parseScript_of_parsed hstarted.sigParsed]
    rw [hitems] at hunique
    exact (hstarted.fails fun vm' hscripts hat hcond hsaved =>
      fails_scriptHash hn hage hscript hhash hbip16 (fun x hx => hunique x ((hsaved hbip16).2 x hx)) hscripts hat hcond
        (hsaved hbip16).1).execute h

end

end Jaxnetd.TxScript
