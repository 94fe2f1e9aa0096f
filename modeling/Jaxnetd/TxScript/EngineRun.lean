import Jaxnetd.TxScript.LockTime

/-!
# Steps of the engine

No opcode changes the scripts or the place in them, so a run at a place in a script goes on with the opcodes behind it
(`At.yields`). `Fails` says that a run cannot succeed from an engine on.
-/

namespace Jaxnetd.TxScript
open Wire Checks Engine Stack List

/-! ## What no opcode changes -/

abbrev Engine.advance (vm : Engine) : Engine := { vm with scriptOff := vm.scriptOff + 1 }

structure SameCode (vm vm' : Engine) : Prop where
  scripts : vm'.scripts = vm.scripts
  scriptIdx : vm'.scriptIdx = vm.scriptIdx
  scriptOff : vm'.scriptOff = vm.scriptOff
  savedFirstStack : vm'.savedFirstStack = vm.savedFirstStack
  witnessVersion : vm'.witnessVersion = vm.witnessVersion
  witnessProgram : vm'.witnessProgram = vm.witnessProgram

theorem SameCode.refl (vm : Engine) : SameCode vm vm := ⟨rfl, rfl, rfl, rfl, rfl, rfl⟩

variable {vm vm' : Engine}

theorem SameCode.trans {vm'' : Engine} (h : SameCode vm vm') (h' : SameCode vm' vm'') : SameCode vm vm'' :=
  ⟨h'.1.trans h.1, h'.2.trans h.2, h'.3.trans h.3, h'.4.trans h.4, h'.5.trans h.5, h'.6.trans h.6⟩

def Keeps {α : Type} (m : OpM α) : Prop := ∀ vm a vm', m vm = .ok (a, vm') → SameCode vm vm'

namespace Keeps
variable {α β : Type} {m : OpM α}

theorem pure (a : α) : Keeps (pure a : OpM α) := by
  intro vm b vm' h
  cases h
  exact .refl vm

theorem bind {f : α → OpM β} (hm : Keeps m) (hf : ∀ a, Keeps (f a)) : Keeps (m >>= f) := by
  intro vm b vm' h
  obtain ⟨⟨a, vm₁⟩, h₁, h₂⟩ := bind_eq_ok.1 h
  exact (hm vm a vm₁ h₁).trans (hf a vm₁ b vm' h₂)

theorem fail (code : ErrorCode) (description : String) : Keeps (TxScript.fail code description : OpM α) := by
  intro vm a vm' h
  cases h

theorem get : Keeps (MonadState.get : OpM Engine) := by
  intro vm a vm' h
  cases h
  exact .refl vm

theorem ofModify {f : Engine → Engine} (hf : ∀ vm, SameCode vm (f vm)) : Keeps (modify f : OpM PUnit) := by
  intro vm a vm' h
  cases h
  exact hf vm

theorem onD (m : StackM α) : Keeps (Engine.onD m) := by
  intro vm a vm' h
  simp only [Engine.onD, ok_rules] at h
  obtain ⟨_, _, -, -, rfl⟩ := h
  exact ⟨rfl, rfl, rfl, rfl, rfl, rfl⟩

theorem onA (m : StackM α) : Keeps (Engine.onA m) := by
  intro vm a vm' h
  simp only [Engine.onA, ok_rules] at h
  obtain ⟨_, _, -, -, rfl⟩ := h
  exact ⟨rfl, rfl, rfl, rfl, rfl, rfl⟩

theorem lift (x : Except ScriptError α) : Keeps (liftM x : OpM α) := by
  intro vm a vm' h
  obtain ⟨_, -, h⟩ := bind_eq_ok.1 h
  cases h
  exact .refl vm

theorem ite {c : Prop} [Decidable c] {m' : OpM α} (h : Keeps m) (h' : Keeps m') : Keeps (if c then m else m') := by
  split
  · exact h
  · exact h'

theorem guard {c : Prop} [Decidable c] {code : ErrorCode} {description : String} (h : Keeps m) :
    Keeps (if c then (TxScript.fail code description : OpM PUnit) >>= fun _ => m else m) :=
  .ite (.bind (.fail _ _) fun _ => h) h

end Keeps

theorem keeps_abstractVerify (op : ParsedOpcode) (c : ErrorCode) : Keeps (abstractVerify op c) :=
  .bind (.onD _) fun _ => .ite (.pure _) (.fail _ _)

theorem keeps_popMany : ∀ n, Keeps (popMany n)
  | 0 => .pure _
  | n + 1 => .bind (.onD _) fun _ => .bind (keeps_popMany n) fun _ => .pure _

section
variable {H : Type} (ctx : EngineCtx H)

theorem keeps_popIfBool : Keeps (popIfBool ctx) :=
  .bind .get fun _ => .ite (.onD _) (.bind (.onD _) fun _ => .ite (.fail _ _) (.ite (.fail _ _) (.pure _)))

theorem keeps_pushCondition (want : Bool) : Keeps (pushCondition ctx want) := by
  have hpush : ∀ c : OpCond, Keeps (modify fun vm => { vm with condStack := c :: vm.condStack } : OpM PUnit) :=
    fun c => .ofModify fun vm => ⟨rfl, rfl, rfl, rfl, rfl, rfl⟩
  refine .bind .get fun vm => ?_
  refine .ite ?_ ?_
  · exact .bind (keeps_popIfBool ctx) fun _ => .bind (.pure _) fun c => hpush c
  · exact .bind (.pure _) fun c => hpush c

variable (op : ParsedOpcode)

theorem keeps_opcodeElse : Keeps (opcodeElse op) := by
  refine .bind .get fun vm => ?_
  split
  · exact .fail _ _
  · exact .ofModify fun vm => ⟨rfl, rfl, rfl, rfl, rfl, rfl⟩
  · exact .ofModify fun vm => ⟨rfl, rfl, rfl, rfl, rfl, rfl⟩
  · exact .pure _

theorem keeps_opcodeEndif : Keeps (opcodeEndif op) := by
  refine .bind .get fun vm => ?_
  split
  · exact .fail _ _
  · exact .ofModify fun vm => ⟨rfl, rfl, rfl, rfl, rfl, rfl⟩

theorem keeps_softForkedNop (active : Bool) (name : String) (check : Engine → Except ScriptError Unit) :
    Keeps (softForkedNop ctx active name check) := by
  intro vm a vm' h
  unfold softForkedNop at h
  split at h
  · simp only [ok_rules] at h
    obtain ⟨_, -, -, rfl⟩ := h
    exact .refl vm
  split at h
  · cases h
  · cases h
    exact .refl vm

variable [ChainHash H] [Primitives] {Q : Engine → Prop}

theorem keeps_opcodeCheckSig : Keeps (opcodeCheckSig ctx) :=
  .bind (.onD _) fun _ => .bind (.onD _) fun _ => .bind .get fun _ => .bind (.lift _) fun _ => .onD _

theorem keeps_opcodeCheckMultiSig : Keeps (opcodeCheckMultiSig ctx) := by
  refine .bind (.onD _) fun numPubKeys => .guard (.guard
    (.bind (.ofModify fun vm => ⟨rfl, rfl, rfl, rfl, rfl, rfl⟩) fun _ => ?_))
  refine .bind .get fun _ => .guard (.bind (keeps_popMany _) fun pubKeys => .bind (.onD _) fun numSignatures => ?_)
  refine .guard (.guard (.bind (keeps_popMany _) fun signatures => .bind (.onD _) fun dummy => .guard ?_))
  exact .bind .get fun vm => .bind (.lift _) fun success => .guard (.onD _)

theorem keeps_opfunc : Keeps (opfunc ctx op) := by
  unfold opfunc
  split
  · exact .onD _
  split
  · exact .onD _
  split
  all_goals first
    | exact .onD _
    | exact .fail _ _
    | exact keeps_abstractVerify _ _
    | exact keeps_pushCondition ctx _
    | exact keeps_opcodeElse _
    | exact keeps_opcodeEndif _
    | exact keeps_softForkedNop ctx _ _ _
    | exact keeps_opcodeCheckSig ctx
    | exact keeps_opcodeCheckMultiSig ctx
    | exact .bind (.onD _) fun _ => .onA _
    | exact .bind (.onA _) fun _ => .onD _
    | exact .bind (.onD _) fun _ => keeps_abstractVerify _ _
    | exact .bind (keeps_opcodeCheckSig ctx) fun _ => keeps_abstractVerify _ _
    | exact .bind (keeps_opcodeCheckMultiSig ctx) fun _ => keeps_abstractVerify _ _
    | exact .ofModify fun vm => ⟨rfl, rfl, rfl, rfl, rfl, rfl⟩
    | exact .ite (.fail _ _) (.pure _)
    | exact .ite (.fail _ _) (.fail _ _)

variable {ctx : EngineCtx H} {op : ParsedOpcode} {done : Bool}

theorem keeps_executeOpcode (h : executeOpcode ctx op vm = .ok vm') : SameCode vm vm' := by
  obtain ⟨n, hn⟩ := executeOpcode_ok h
  have hcounted : SameCode vm { vm with numOps := n } := ⟨rfl, rfl, rfl, rfl, rfl, rfl⟩
  split at hn
  · exact hcounted.trans (keeps_opfunc ctx op _ _ _ hn)
  · rw [hn]
    exact hcounted

theorem executeOpcode_skipped
    (hbranch : ¬vm.isBranchExecuting) (hop : ¬op.isConditional) (h : executeOpcode ctx op vm = .ok vm') :
    vm'.condStack = vm.condStack := by
  obtain ⟨n, hn⟩ := executeOpcode_ok h
  rw [if_neg (by simp [hbranch, hop])] at hn
  rw [hn]

/-! ## Steps -/

structure Stepped (ctx : EngineCtx H) (vm : Engine) (op : ParsedOpcode) (vm₁ : Engine) (done : Bool) (vm' : Engine) :
    Prop where
  opcode : currentOpcode vm = some op
  executed : executeOpcode ctx op vm.advance = .ok vm₁
  inside : vm.scriptOff + 1 < (vm.script vm.scriptIdx).length → done = false ∧ vm' = vm₁
  finished : (vm.script vm.scriptIdx).length ≤ vm.scriptOff + 1 → vm₁.condStack = [] ∧
    ∃ vm₂, finishScript ctx vm₁ = .ok vm₂ ∧ done = decide (vm'.scripts.length ≤ vm'.scriptIdx) ∧
      vm' = { vm₂ with
        scriptIdx := if vm₂.scriptIdx < vm₂.scripts.length ∧ (vm₂.script vm₂.scriptIdx).length ≤ vm₂.scriptOff then
          vm₂.scriptIdx + 1 else vm₂.scriptIdx
        lastCodeSep := 0 }

theorem step_ok (h : step ctx vm = .ok (done, vm')) :
    ∃ op vm₁, Stepped ctx vm op vm₁ done vm' := by
  simp only [step, ok_rules] at h
  obtain ⟨op, hop, vm₁, hexec, -, h⟩ := h
  have hsame := keeps_executeOpcode hexec
  have hscript : vm₁.script vm₁.scriptIdx = vm.script vm.scriptIdx := by
    rw [Engine.script, hsame.scripts, hsame.scriptIdx]
    rfl
  have hoff : vm₁.scriptOff = vm.scriptOff + 1 := hsame.scriptOff
  rw [hscript, hoff] at h
  refine ⟨op, vm₁, hop, hexec, fun hin => ?_, fun hend => ?_⟩
  · rw [if_pos hin] at h
    cases h
    exact ⟨rfl, rfl⟩
  · simp only [if_neg (Nat.not_lt.2 hend), ok_rules] at h
    obtain ⟨hcond, vm₂, hfinish, hdone, rfl⟩ := h
    exact ⟨hcond, vm₂, hfinish, hdone.symm, rfl⟩

/-- Every run from the engine on that comes to its end leaves an engine of which `Q` holds. -/
def Yields (ctx : EngineCtx H) (vm : Engine) (Q : Engine → Prop) : Prop :=
  ∀ fuel last, executeLoop ctx fuel vm = .ok last → Q last

theorem Yields.of_invariant {P : Engine → Prop}
    (hstep : ∀ vm done vm', P vm → step ctx vm = .ok (done, vm') → if done then Q vm' else P vm' ∨ Yields ctx vm' Q)
    (h : P vm) : Yields ctx vm Q := by
  intro fuel last
  induction fuel generalizing vm with
  | zero => nofun
  | succ fuel ih =>
    intro hrun
    simp only [executeLoop, ok_rules] at hrun
    obtain ⟨done, vm', hvm', hrun⟩ := hrun
    have hnext := hstep vm done vm' h hvm'
    cases done with
    | true =>
      cases hrun
      exact hnext
    | false =>
      rcases hnext with hnext | hnext
      · exact ih hnext hrun
      · exact hnext fuel last hrun

theorem Yields.of_step
    (h : ∀ done vm', step ctx vm = .ok (done, vm') → if done then Q vm' else Yields ctx vm' Q) : Yields ctx vm Q := by
  refine .of_invariant (fun vm₁ done vm' hvm₁ hstep => ?_) (Eq.refl vm)
  subst hvm₁
  have hnext := h done vm' hstep
  cases done with
  | true => exact hnext
  | false => exact Or.inr hnext

def Leads (ctx : EngineCtx H) : Engine → Engine → Prop := Relation.ReflTransGen fun vm vm' => step ctx vm = .ok (false, vm')

def Fails (ctx : EngineCtx H) (vm : Engine) : Prop := ∀ fuel last, executeLoop ctx fuel vm ≠ .ok last

theorem Fails.of_step
    (h : ∀ done vm', step ctx vm = .ok (done, vm') → done = false ∧ Fails ctx vm') : Fails ctx vm := by
  refine Yields.of_step fun done vm' hvm' => ?_
  obtain ⟨rfl, hnext⟩ := h done vm' hvm'
  exact hnext

theorem Fails.execute (h : Fails ctx vm) : TxScript.execute ctx vm ≠ .ok () := by
  intro hrun
  simp only [TxScript.execute, bind_eq_ok] at hrun
  obtain ⟨last, hloop, -⟩ := hrun
  exact h _ _ hloop

/-- The engine is at a place in a script: between `front` and `back`. -/
structure At (vm : Engine) (k : Nat) (front back : List ParsedOpcode) : Prop where
  script : vm.scripts[k]? = some (front ++ back)
  scriptIdx : vm.scriptIdx = k
  scriptOff : vm.scriptOff = front.length

variable {ctx : EngineCtx H} {vm : Engine} {k : Nat} {front back : List ParsedOpcode} {op next : ParsedOpcode}

section
omit [ChainHash H] [Primitives]

theorem At.currentOpcode (h : At vm k front (op :: back)) : currentOpcode vm = some op := by
  simp [TxScript.currentOpcode, h.scriptIdx, h.script, h.scriptOff]

theorem At.length_script (h : At vm k front back) : (vm.script vm.scriptIdx).length = front.length + back.length := by
  simp [Engine.script, getD_eq_getElem?_getD, h.scriptIdx, h.script]

end

theorem At.executed (h : At vm k front (op :: back))
    (hexec : executeOpcode ctx op vm.advance = .ok vm') : At vm' k (front ++ [op]) back := by
  have hsame := keeps_executeOpcode hexec
  refine ⟨?_, hsame.scriptIdx.trans h.scriptIdx, ?_⟩
  · rw [hsame.scripts]
    simpa using h.script
  · rw [hsame.scriptOff]
    simp [h.scriptOff]

theorem At.stepped (h : At vm k front (op :: back)) (hstep : step ctx vm = .ok (done, vm')) :
    ∃ vm₁, Stepped ctx vm op vm₁ done vm' ∧ (vm.script vm.scriptIdx).length = vm.scriptOff + 1 + back.length := by
  obtain ⟨op', vm₁, hstepped⟩ := step_ok hstep
  have hop := hstepped.opcode
  rw [h.currentOpcode, Option.some.injEq] at hop
  subst hop
  refine ⟨vm₁, hstepped, ?_⟩
  rw [h.length_script, h.scriptOff, length_cons]
  omega

theorem At.yields (h : At vm k front (op :: next :: back)) (hnext : ∀ vm', executeOpcode ctx op vm.advance = .ok vm' →
      At vm' k (front ++ [op]) (next :: back) → Yields ctx vm' Q) : Yields ctx vm Q := by
  refine .of_step fun done vm' hstep => ?_
  obtain ⟨vm₁, hstepped, hlen⟩ := h.stepped hstep
  obtain ⟨rfl, rfl⟩ := hstepped.inside (by rw [hlen, length_cons]; omega)
  exact hnext _ hstepped.executed (h.executed hstepped.executed)

theorem At.yields_exec (h : At vm k front (op :: next :: back)) (hrun : vm.isBranchExecuting ∨ op.isConditional)
    (hnext : ∀ n vm', opfunc ctx op { vm with scriptOff := vm.scriptOff + 1, numOps := n } = .ok ((), vm') →
      At vm' k (front ++ [op]) (next :: back) → Yields ctx vm' Q) : Yields ctx vm Q := by
  refine h.yields fun vm' hexec hat => ?_
  obtain ⟨n, hfunc⟩ := opfunc_of_executeOpcode (by exact hrun) hexec
  exact hnext n vm' hfunc hat

/-- Every run from the engine on stops before the last opcode of the script it is in. -/
inductive Breaks (ctx : EngineCtx H) : Engine → Prop where
  | step {vm : Engine} : vm.scriptOff + 1 < (vm.script vm.scriptIdx).length →
      (∀ op vm', currentOpcode vm = some op → executeOpcode ctx op vm.advance = .ok vm' →
        Breaks ctx vm') → Breaks ctx vm

theorem Breaks.fails (h : Breaks ctx vm) : Fails ctx vm := by
  induction h with
  | step hin hnext ih =>
    refine .of_step fun done vm' hstep => ?_
    obtain ⟨op, vm₁, hstepped⟩ := step_ok hstep
    obtain ⟨rfl, rfl⟩ := hstepped.inside hin
    exact ⟨rfl, ih op _ hstepped.opcode hstepped.executed⟩

theorem At.breaks (h : At vm k front (op :: next :: back)) (hnext : ∀ vm', executeOpcode ctx op vm.advance = .ok vm' →
      At vm' k (front ++ [op]) (next :: back) → Breaks ctx vm') : Breaks ctx vm := by
  have hlen := h.length_script
  simp only [length_cons] at hlen
  refine .step (by rw [hlen, h.scriptOff]; omega) fun op' vm' hop hexec => ?_
  rw [h.currentOpcode, Option.some.injEq] at hop
  subst hop
  exact hnext vm' hexec (h.executed hexec)

theorem At.breaks_exec (h : At vm k front (op :: next :: back)) (hrun : vm.isBranchExecuting ∨ op.isConditional)
    (hnext : ∀ n vm', opfunc ctx op { vm with scriptOff := vm.scriptOff + 1, numOps := n } = .ok ((), vm') →
      At vm' k (front ++ [op]) (next :: back) → Breaks ctx vm') : Breaks ctx vm := by
  refine h.breaks fun vm' hexec hat => ?_
  obtain ⟨n, hfunc⟩ := opfunc_of_executeOpcode (by exact hrun) hexec
  exact hnext n vm' hfunc hat

theorem Stepped.enter {vm₁ vm₂ : Engine} (h : Stepped ctx vm op vm₁ done vm')
    (hend : (vm.script vm.scriptIdx).length ≤ vm.scriptOff + 1) (hfinish : finishScript ctx vm₁ = .ok vm₂)
    (hat : At vm₂ k [] (next :: back)) : done = false ∧ vm' = { vm₂ with lastCodeSep := 0 } := by
  obtain ⟨-, vm₂', hfinish', rfl, rfl⟩ := h.finished hend
  rw [hfinish, Except.ok.injEq] at hfinish'
  subst hfinish'
  have hlt : vm₂.scriptIdx < vm₂.scripts.length := by
    rw [hat.scriptIdx]
    exact (List.getElem?_eq_some_iff.1 hat.script).1
  have hlen := hat.length_script
  have hoff := hat.scriptOff
  simp only [length_cons, length_nil] at hlen hoff
  rw [if_neg (by omega)]
  exact ⟨by simpa using hlt, rfl⟩

theorem At.last (h : At vm k front [op]) (hrun : vm.isBranchExecuting ∨ op.isConditional)
    (hnext : ∀ n vm₁ vm₂, opfunc ctx op { vm with scriptOff := vm.scriptOff + 1, numOps := n } = .ok ((), vm₁) →
      vm₁.condStack = [] → finishScript ctx vm₁ = .ok vm₂ →
      ∃ k' next back, At vm₂ k' [] (next :: back) ∧ Fails ctx { vm₂ with lastCodeSep := 0 }) : Fails ctx vm := by
  refine .of_step fun done vm' hstep => ?_
  obtain ⟨vm₁, hstepped, hlen⟩ := h.stepped hstep
  obtain ⟨hcond, vm₂, hfinish, -, -⟩ := hstepped.finished (Nat.le_of_eq hlen)
  obtain ⟨n, hfunc⟩ := opfunc_of_executeOpcode (by exact hrun) hstepped.executed
  obtain ⟨k', next, back, hat, hfails⟩ := hnext n vm₁ vm₂ hfunc hcond hfinish
  obtain ⟨hdone, rfl⟩ := hstepped.enter (Nat.le_of_eq hlen) hfinish hat
  exact ⟨hdone, hfails⟩

end

end Jaxnetd.TxScript
