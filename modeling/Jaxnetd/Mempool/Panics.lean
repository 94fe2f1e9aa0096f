import Jaxnetd.Mempool.PoolInv
import Jaxnetd.Chaindata.Fetch
import Jaxnetd.TxScript.SigOps

/-!
# Transactions that bring the memory pool down

Two checks of `maybeAcceptTransaction` read what need not be there: `checkInputsStandard` uses the entry of an input that a
swap transaction may lack, and `GetWitnessSigOpCount` cuts the first byte off a signature script that may be empty. On every
other path the call returns, whatever the pool and the chain hold.
-/

namespace Jaxnetd.Mempool
open Wire TxScript Chaindata Checks Blockchain TxPool List

section Main
variable {H : Type} [ChainHash H] [DecidableEq H] {mp : TxPool H} {cfg : Config H} {chain : ChainView H} {tx : MsgTx H}
  {view view' : UtxoViewpoint H}

/-! ## Errors of the chain -/

def IsOther (e : ChainError) : Prop := ∃ what, e = .other what

variable {code : Chaindata.ErrorCode}

theorem not_isOther_rule {text : String} : ¬IsOther (.rule code text) := fun ⟨_, h⟩ => nomatch h

theorem avoids_rule {α : Type} {c : Prop} [Decidable c] {text : String}
    {f : Unit → Except ChainError α} (h : Avoids IsOther (f ())) : Avoids IsOther (failIf c (.rule code text) >>= f) :=
  avoids_check not_isOther_rule fun _ => h

section
omit [ChainHash H] [DecidableEq H]

theorem isPanic_chainError {e : ChainError} : (chainError e : Stop H).IsPanic ↔ IsOther e := by
  cases e <;> simp [chainError, Stop.IsPanic, IsOther]

theorem ne_panic_iff {α : Type} {x : Except (Stop H) α} : (∀ what, x ≠ .error (.panic what)) ↔ Avoids Stop.IsPanic x := by
  constructor
  · rintro h e he ⟨what, rfl⟩
    exact h what he
  · exact fun h what he => h _ he ⟨what, rfl⟩

theorem avoids_chainError {α : Type} {x : Except ChainError α} :
    Avoids (Stop.IsPanic (H := H)) (x.mapError chainError) ↔ Avoids IsOther x := by
  simp only [avoids_mapError, isPanic_chainError]

theorem avoids_validateSwapTxStructure (tx : MsgTx H) (missed : Option Nat) :
    Avoids IsOther (validateSwapTxStructure tx missed) := by
  refine avoids_rule ?_
  cases missed with
  | none => exact avoids_ok
  | some missed => exact avoids_failIf.2 fun _ => not_isOther_rule

end

theorem avoids_checkOutputValues (total : Int) (outs : List TxOut) : Avoids IsOther (checkOutputValues total outs) := by
  induction outs generalizing total with
  | nil => exact avoids_ok
  | cons out outs ih =>
    refine avoids_rule ?_
    refine avoids_rule ?_
    refine avoids_rule ?_
    exact avoids_rule (ih _)

theorem avoids_checkTransactionSanity (tx : MsgTx H) : Avoids IsOther (checkTransactionSanity tx) := by
  refine avoids_rule ?_
  refine avoids_rule ?_
  refine avoids_bind.2 ⟨avoids_checkWhen.2 fun _ => avoids_validateSwapTxStructure tx none, fun _ _ => ?_⟩
  refine avoids_rule ?_
  refine avoids_bind.2 ⟨avoids_checkOutputValues _ _, fun _ _ => ?_⟩
  refine avoids_rule ?_
  split <;> exact avoids_failIf.2 fun _ => not_isOther_rule

omit [DecidableEq H] in
theorem avoids_checkInputs (tx : MsgTx H) (height : Int) (view : UtxoViewpoint H) (maturity i : Nat)
    (txIns : List (TxIn H)) (st : InputTotals) : Avoids IsOther (checkInputs tx height view maturity i txIns st) := by
  induction txIns generalizing i st with
  | nil => exact avoids_ok
  | cons txIn txIns ih =>
    unfold checkInputs
    split
    · split
      · exact ih _ _
      · exact avoids_error.2 not_isOther_rule
    · refine avoids_check not_isOther_rule fun _ => ?_
      refine avoids_rule ?_
      refine avoids_bind.2 ⟨avoids_checkWhen.2 fun _ => avoids_validateSwapTxStructure tx _, fun _ _ => ?_⟩
      refine avoids_rule ?_
      refine avoids_rule ?_
      exact avoids_rule (ih _ _)

theorem avoids_checkTransactionInputs (tx : MsgTx H) (height : Int) (view : UtxoViewpoint H) (maturity : Nat) :
    Avoids IsOther (checkTransactionInputs tx height view maturity) := by
  unfold checkTransactionInputs
  split
  · exact avoids_ok
  · refine avoids_bind.2 ⟨avoids_checkInputs _ _ _ _ _ _ _, fun _ _ => ?_⟩
    exact avoids_rule avoids_ok

/-! ## The view of a transaction -/

/-- The entries are unspent, and from a height of the chain or from the pool. -/
def Seen (chain : ChainView H) (view : UtxoViewpoint H) : Prop :=
  ∀ o e, view.lookupEntry o = some e →
    e.spent = false ∧ (0 ≤ e.height ∧ e.height ≤ chain.tip.height ∨ e.height = unminedHeight)

section
omit [ChainHash H]

theorem Seen.setEntry (h : Seen chain view) {o : OutPoint H} {entry : Option UtxoEntry} (hentry : ∀ e, entry = some e →
    e.spent = false ∧ (0 ≤ e.height ∧ e.height ≤ chain.tip.height ∨ e.height = unminedHeight)) :
    Seen chain (view.setEntry o entry) := by
  intro o' e he
  rw [UtxoViewpoint.lookupEntry_setEntry] at he
  split at he
  · exact hentry e he
  · exact h o' e he

theorem Seen.fetchUtxosMain (h : Seen chain view) (outpoints : List (OutPoint H)) :
    Seen chain (view.fetchUtxosMain chain.utxos outpoints) := by
  induction outpoints generalizing view with
  | nil => exact h
  | cons o outpoints ih =>
    refine ih (h.setEntry fun e he => ?_)
    obtain ⟨out, hout, rfl⟩ := Option.map_eq_some_iff.1 he
    exact ⟨rfl, Or.inl (chain.heights o out hout)⟩

theorem Seen.dropOwnOutputs {outpoints : List (OutPoint H)} (h : Seen chain view)
    (hrun : dropOwnOutputs outpoints view = .ok view') : Seen chain view' := by
  induction outpoints generalizing view with
  | nil =>
    cases hrun
    exact h
  | cons o outpoints ih =>
    obtain ⟨-, -, hrun⟩ := bind_eq_ok.1 hrun
    refine ih (fun o' e he => ?_) hrun
    simp only [UtxoViewpoint.lookupEntry, GoMap.get_delete] at he
    split at he
    · cases he
    · exact h o' e he

end

theorem Seen.addPoolOutputs (h : Seen chain view) (mp : TxPool H) (outpoints : List (OutPoint H)) :
    Seen chain (mp.addPoolOutputs outpoints view) := by
  induction outpoints generalizing view with
  | nil => exact h
  | cons o outpoints ih =>
    refine ih ?_
    split
    · exact h
    unfold addPoolOutput
    split
    · exact h
    split
    · exact h
    unfold UtxoViewpoint.addTxOut
    split
    · exact h
    · refine h.setEntry fun e he => ?_
      cases he
      exact ⟨rfl, Or.inr rfl⟩

theorem seen_of_unmined (hrun : dropOwnOutputs (ownOutputs tx) (mp.fetchInputUtxos cfg chain tx) = .ok view) :
    Seen chain view := by
  have hempty : Seen chain (newUtxoViewpoint cfg.chain.isBeacon ChainHash.zeroHash) := fun _ _ h => nomatch h
  exact ((hempty.fetchUtxosMain _).addPoolOutputs mp _).dropOwnOutputs hrun

/-! ## Locks -/

omit [ChainHash H] [DecidableEq H] in
theorem avoids_inputLock (b : BlockChain H) {node : BlockNode H} {inputHeight : Int} {sequence : Nat}
    {lock : SequenceLock} (h : (node.ancestor (max (inputHeight - 1) 0)).isSome) :
    Avoids IsOther (b.inputLock node inputHeight sequence lock) := by
  unfold BlockChain.inputLock
  split
  · exact avoids_ok
  split
  · refine avoids_bind.2 ⟨avoids_orFail.2 fun hnone => ?_, fun _ _ => avoids_ok⟩
    rw [hnone] at h
    nomatch h
  · exact avoids_ok

omit [DecidableEq H] in
theorem avoids_lockInputs (b : BlockChain H) (h : Seen chain view) (i : Nat) (txIns : List (TxIn H))
    (lock : SequenceLock) : Avoids IsOther (b.lockInputs chain.tip tx view i txIns lock) := by
  have htip := chain.tip_height
  induction txIns generalizing i lock with
  | nil => exact avoids_ok
  | cons txIn txIns ih =>
    unfold BlockChain.lockInputs
    split
    · split
      · exact ih _ _
      · exact avoids_error.2 not_isOther_rule
    · next utxo hutxo =>
      refine avoids_bind.2 ⟨avoids_inputLock b (chain.indexed _ (le_max_right _ _) ?_), fun _ _ => ih _ _⟩
      -- an output of the pool counts as one of the next block
      rcases (h _ _ hutxo).2 with ⟨hpos, hle⟩ | hpool
      · split <;> omega
      · rw [if_pos (show utxo.height = 0x7fffffff from hpool)]
        omega

theorem avoids_checkLocks (h : Seen chain view) : Avoids Stop.IsPanic (checkLocks cfg chain tx view) := by
  refine avoids_bind.2 ⟨avoids_chainError.2 ?_, fun _ _ => avoids_failIf.2 fun _ => not_isPanic_txRule⟩
  unfold BlockChain.calcSequenceLock
  simp only
  split
  · exact avoids_ok
  · exact avoids_lockInputs _ h _ _ _

/-! ## Missing inputs -/

section
variable [Primitives] {txIns : List (TxIn H)} {rank : H → Nat}

/-- The output of the input is there and has a standard script, with few signature operations behind a script hash. -/
def standardInput (view : UtxoViewpoint H) (txIn : TxIn H) : Bool :=
  match view.lookupEntry txIn.previousOutPoint with
  | none => false
  | some entry =>
    match getScriptClass entry.pkScript with
    | .scriptHashTy => getPreciseSigOpCount txIn.signatureScript entry.pkScript true ≤ maxStandardP2SHSigOps
    | .nonStandardTy => false
    | _ => true

/-- Behind standard inputs there is one whose output is missing. -/
def LacksInput (view : UtxoViewpoint H) (txIns : List (TxIn H)) : Prop :=
  ∃ front txIn back, txIns = front ++ txIn :: back ∧ (∀ t ∈ front, standardInput view t) ∧
    view.lookupEntry txIn.previousOutPoint = none

/-- All inputs are standard, and one of them spends a script hash with an empty signature script. -/
def OmitsScript (view : UtxoViewpoint H) (txIns : List (TxIn H)) : Prop :=
  (∀ t ∈ txIns, standardInput view t) ∧ ∃ t ∈ txIns, t.signatureScript = [] ∧
    ∃ entry, view.lookupEntry t.previousOutPoint = some entry ∧ isPayToScriptHash entry.pkScript

variable {i : Nat}

section
omit [ChainHash H] [DecidableEq H]

theorem lacksInput_cons {t : TxIn H} {ts : List (TxIn H)} : LacksInput view (t :: ts) ↔
    view.lookupEntry t.previousOutPoint = none ∨ standardInput view t ∧ LacksInput view ts := by
  constructor
  · rintro ⟨front, txIn, back, heq, hfront, hnone⟩
    cases front with
    | nil =>
      obtain ⟨rfl, -⟩ := cons.inj heq
      exact Or.inl hnone
    | cons t' front =>
      obtain ⟨rfl, hts⟩ := cons.inj heq
      rw [forall_mem_cons] at hfront
      exact Or.inr ⟨hfront.1, front, txIn, back, hts, hfront.2, hnone⟩
  · rintro (hnone | ⟨hstd, front, txIn, back, rfl, hfront, hnone⟩)
    · exact ⟨[], t, ts, rfl, fun _ h => (nomatch h), hnone⟩
    · exact ⟨t :: front, txIn, back, rfl, forall_mem_cons.2 ⟨hstd, hfront⟩, hnone⟩

theorem checkInputStandard_eq_ok {txIn : TxIn H} {entry : UtxoEntry}
    (hentry : view.lookupEntry txIn.previousOutPoint = some entry) :
    checkInputStandard i txIn entry.pkScript = .ok () ↔ standardInput view txIn := by
  unfold checkInputStandard standardInput
  split <;> simp_all

end

section
omit [ChainHash H]

theorem checkInputsStandard_eq_ok {context : String} :
    checkInputsStandard context view i txIns = .ok () ↔ ∀ t ∈ txIns, standardInput view t := by
  induction txIns generalizing i with
  | nil => simp [checkInputsStandard]
  | cons t ts ih =>
    simp only [checkInputsStandard, ok_rules, ih, forall_mem_cons]
    constructor
    · rintro ⟨entry, hentry, hstd, hrest⟩
      exact ⟨(checkInputStandard_eq_ok hentry).1 hstd, hrest⟩
    · rintro ⟨hstd, hrest⟩
      obtain ⟨entry, hentry⟩ : ∃ entry, view.lookupEntry t.previousOutPoint = some entry := by
        cases hentry : view.lookupEntry t.previousOutPoint with
        | none => simp [standardInput, hentry] at hstd
        | some entry => exact ⟨entry, rfl⟩
      exact ⟨entry, hentry, (checkInputStandard_eq_ok hentry).2 hstd, hrest⟩

theorem avoids_checkInputsStandard {context : String} :
    Avoids Stop.IsPanic (checkInputsStandard context view i txIns) ↔ ¬LacksInput view txIns := by
  induction txIns generalizing i with
  | nil =>
    have hnil : ¬LacksInput view [] := by
      rintro ⟨front, txIn, back, heq, -⟩
      exact absurd heq (by simp)
    simp [checkInputsStandard, avoids_ok, hnil]
  | cons t ts ih =>
    rw [lacksInput_cons, checkInputsStandard, avoids_bind, avoids_orFail]
    cases hentry : view.lookupEntry t.previousOutPoint with
    | none => simp [Stop.IsPanic]
    | some entry =>
      have hrule : Avoids (Stop.IsPanic (H := H))
          ((checkInputStandard i t entry.pkScript).mapError (TxRuleError.within context)) :=
        avoids_mapError.2 fun e _ ⟨_, h⟩ => nomatch h
      simp only [orFail, avoids_bind, ok_rules, ih, true_and, reduceCtorEq, false_or, false_implies]
      constructor
      · rintro h ⟨hstd, hlacks⟩
        exact (h entry rfl).2 () ((checkInputStandard_eq_ok hentry).2 hstd) hlacks
      · rintro h _ rfl
        exact ⟨hrule, fun _ hstd hlacks => h ⟨(checkInputStandard_eq_ok hentry).1 hstd, hlacks⟩⟩

end

/-! ## Empty signature scripts -/

omit [ChainHash H] [DecidableEq H] [Primitives] in
theorem avoids_witnessCost {txIn : TxIn H} {entry : UtxoEntry} : Avoids IsOther (witnessCost txIn entry) ↔
    ¬(txIn.signatureScript = [] ∧ isPayToScriptHash entry.pkScript) := by
  rw [witnessCost, avoids_orFail, getWitnessSigOpCount_eq_none]
  simp [IsOther]

def Present (view : UtxoViewpoint H) (txIns : List (TxIn H)) : Prop :=
  ∀ t ∈ txIns, ∃ entry, view.lookupEntry t.previousOutPoint = some entry ∧ entry.spent = false

omit [ChainHash H] [DecidableEq H] in
theorem present_of_standard (hseen : Seen chain view) (h : ∀ t ∈ txIns, standardInput view t) : Present view txIns := by
  intro t ht
  have hstd := h t ht
  unfold standardInput at hstd
  split at hstd
  · nomatch hstd
  · next entry hentry => exact ⟨entry, hentry, (hseen _ _ hentry).1⟩

section
omit [DecidableEq H] [Primitives]

theorem sigOpInputs_present {cost : TxIn H → UtxoEntry → Except ChainError Nat}
    (h : Present view txIns) (hcost : ∀ t e, ∃ n, cost t e = .ok n) (i total missing : Nat) :
    ∃ total', sigOpInputs tx view cost i txIns total missing = .ok (total', missing) := by
  induction txIns generalizing i total with
  | nil => exact ⟨total, rfl⟩
  | cons t ts ih =>
    obtain ⟨⟨entry, hentry, hspent⟩, hrest⟩ := forall_mem_cons.1 h
    obtain ⟨n, hn⟩ := hcost t entry
    obtain ⟨total', hrun⟩ := ih hrest (i + 1) (total + n)
    refine ⟨total', ?_⟩
    simp only [sigOpInputs, hentry, ok_rules, hspent]
    exact ⟨by simp, n, hn, hrun⟩

theorem avoids_sigOpInputs (h : Present view txIns) (i total missing : Nat) :
    Avoids IsOther (sigOpInputs tx view witnessCost i txIns total missing) ↔
      ∀ t ∈ txIns, ∀ entry, view.lookupEntry t.previousOutPoint = some entry → Avoids IsOther (witnessCost t entry) := by
  induction txIns generalizing i total with
  | nil => simp [sigOpInputs, avoids_ok]
  | cons t ts ih =>
    obtain ⟨⟨entry, hentry, hspent⟩, hrest⟩ := forall_mem_cons.1 h
    have hcost : Avoids IsOther (witnessCost t entry) → ∃ n, witnessCost t entry = .ok n := by
      intro hcost
      cases hwit : getWitnessSigOpCount t.signatureScript entry.pkScript t.witness with
      | none => exact absurd rfl (avoids_orFail.1 hcost hwit ⟨_, ·⟩)
      | some n => exact ⟨n, orFail_eq_ok.2 hwit⟩
    simp only [sigOpInputs, hentry, avoids_bind, ih hrest, forall_mem_cons, avoids_failIf, Option.some.injEq,
      forall_eq', hspent]
    constructor
    · rintro ⟨-, h⟩
      obtain ⟨havoid, hnext⟩ := h () (failIf_eq_ok.2 (by simp))
      obtain ⟨n, hn⟩ := hcost havoid
      exact ⟨havoid, hnext n hn⟩
    · rintro ⟨havoid, hnext⟩
      exact ⟨by simp, fun _ _ => ⟨havoid, fun _ _ => hnext⟩⟩

theorem countP2SHSigOps_present (h : Present view tx.txIn)
    (hswap : tx.swapTx → validateSwapTxStructure tx (some 0) = .ok ()) :
    ∃ n, countP2SHSigOps tx false view = .ok n := by
  unfold countP2SHSigOps
  simp only [Bool.false_eq_true, if_false, countInputs, ok_rules]
  obtain ⟨total, htotal⟩ := sigOpInputs_present h (fun _ _ => ⟨_, rfl⟩) 0 0 0
  exact ⟨total, total, 0, htotal, hswap, rfl⟩

theorem avoids_getSigOpCost (h : Present view tx.txIn)
    (hswap : tx.swapTx → validateSwapTxStructure tx (some 0) = .ok ()) :
    Avoids IsOther (getSigOpCost tx false view true true) ↔ ∀ t ∈ tx.txIn, ∀ entry,
      view.lookupEntry t.previousOutPoint = some entry → ¬(t.signatureScript = [] ∧ isPayToScriptHash entry.pkScript) := by
  obtain ⟨n, hn⟩ := countP2SHSigOps_present h hswap
  simp only [getSigOpCost, if_true, hn, Bool.not_false, Bool.and_self, avoids_bind, countInputs, avoids_sigOpInputs h,
    avoids_checkWhen, avoids_witnessCost]
  constructor
  · intro hall
    exact hall.1.1
  · intro hall
    exact ⟨⟨hall, fun _ _ => ⟨fun _ => avoids_validateSwapTxStructure _ _, fun _ _ => avoids_ok⟩⟩, fun _ _ => avoids_ok⟩

theorem swap_of_present (h : Present view tx.txIn)
    (hparents : checkMissingParents tx (missingParents view tx) = .ok ()) (hswap : tx.swapTx) :
    validateSwapTxStructure tx (some 0) = .ok () := by
  have hnone : missingParents view tx = [] := by
    refine map_eq_nil_iff.2 (filter_eq_nil_iff.2 fun o ho => ?_)
    obtain ⟨t, ht, rfl⟩ := mem_map.1 ho
    obtain ⟨entry, hentry, hspent⟩ := h t ht
    rw [UtxoViewpoint.lookupEntry_eq_some.1 hentry]
    simp [hspent]
  rw [hnone, checkMissingParents, if_pos hswap] at hparents
  exact mapError_eq_ok.1 hparents

end

/-! ## Scripts -/

section
omit [DecidableEq H]

theorem avoids_validateInputs (flags : ScriptFlags) (ages : List Int) (i : Nat) (txIns : List (TxIn H)) :
    Avoids IsOther (validateInputs view flags tx ages i txIns) := by
  induction txIns generalizing i with
  | nil => exact avoids_ok
  | cons txIn txIns ih =>
    refine avoids_bind.2 ⟨avoids_checkWhen.2 fun _ => ?_, fun _ _ => ih _⟩
    unfold validateInput
    split
    · exact avoids_failIf.2 fun _ => not_isOther_rule
    · refine avoids_bind.2 ⟨avoids_mapError.2 fun _ _ => not_isOther_rule, fun _ _ => ?_⟩
      exact avoids_mapError.2 fun _ _ => not_isOther_rule

theorem not_scriptPanics (ages : List Int) (i : Nat) (txIn : TxIn H) : scriptPanics view tx ages i txIn = false := by
  unfold scriptPanics
  split
  · rfl
  split
  · rfl
  · next ctx vm hengine =>
    refine any_eq_false.2 fun vm' hvm' => ?_
    rw [noPanic_newEngine hengine maxSteps vm' hvm']
    exact Bool.false_ne_true

theorem avoids_validateTransactionScripts (ages : List Int) :
    Avoids Stop.IsPanic (validateTransactionScripts tx view ages) := by
  refine avoids_bind.2 ⟨avoids_failIf.2 fun hany => ?_, fun _ _ => avoids_chainError.2 (avoids_validateInputs _ _ _ _)⟩
  obtain ⟨p, -, hp⟩ := any_eq_true.1 hany
  rw [not_scriptPanics] at hp
  nomatch hp

end

/-! ## The whole call -/

omit [ChainHash H] [Primitives] in
theorem avoids_dropOwnOutputs (outpoints : List (OutPoint H)) :
    Avoids Stop.IsPanic (dropOwnOutputs outpoints view) := by
  induction outpoints generalizing view with
  | nil => exact avoids_ok
  | cons o outpoints ih => exact avoids_check not_isPanic_txRule fun _ => ih

section
omit [DecidableEq H] [Primitives]

theorem avoids_checkSegwit : Avoids Stop.IsPanic (checkSegwit cfg chain tx) := by
  unfold checkSegwit
  split
  · refine avoids_bind.2 ⟨avoids_mapError.2 fun _ _ => by simp [Stop.IsPanic], fun _ _ => ?_⟩
    exact avoids_failIf.2 fun _ => not_isPanic_txRule
  · exact avoids_ok

theorem avoids_checkMissingParents (missing : List H) : Avoids Stop.IsPanic (checkMissingParents tx missing) := by
  unfold checkMissingParents
  split
  · exact avoids_mapError.2 fun _ _ => by simp [Stop.IsPanic]
  · exact avoids_failIf.2 fun _ => by simp [Stop.IsPanic]

theorem avoids_checkFee (txFee minFee : Int) (isNew : Bool) :
    Avoids Stop.IsPanic (checkFee cfg chain tx view txFee minFee isNew) := by
  refine avoids_check not_isPanic_txRule fun _ => ?_
  exact avoids_failIf.2 fun _ => not_isPanic_txRule

theorem avoids_limitRate (mp : TxPool H) (cfg : Config H) (tx : MsgTx H) (nowUnix : Int) :
    Avoids Stop.IsPanic (mp.limitRate cfg tx nowUnix).1 := by
  unfold limitRate
  simp only
  split
  · exact avoids_error.2 not_isPanic_txRule
  · exact avoids_ok

end

theorem avoids_checkRules (hinv : mp.Inv) (hlayered : Layered cfg.depth mp rank) (rejectDupOrphans : Bool) :
    Avoids Stop.IsPanic (mp.checkRules cfg chain tx rejectDupOrphans) := by
  refine avoids_bind.2 ⟨avoids_checkSegwit, fun _ _ => ?_⟩
  refine avoids_check not_isPanic_txRule fun _ => ?_
  refine avoids_bind.2 ⟨avoids_chainError.2 (avoids_checkTransactionSanity tx), fun _ _ => ?_⟩
  refine avoids_check not_isPanic_txRule fun _ => ?_
  refine avoids_bind.2 ⟨avoids_checkWhen.2 fun _ => avoids_mapError.2 fun _ _ ⟨_, h⟩ => (nomatch h), fun _ _ => ?_⟩
  refine avoids_bind.2 ⟨checkDoubleSpends_avoids hinv hlayered _ _, fun _ _ => ?_⟩
  refine avoids_bind.2 ⟨avoids_dropOwnOutputs _, fun view hview => ?_⟩
  refine avoids_bind.2 ⟨avoids_checkMissingParents _, fun _ _ => ?_⟩
  refine avoids_bind.2 ⟨avoids_checkLocks (seen_of_unmined hview), fun _ _ => ?_⟩
  exact avoids_bind.2 ⟨avoids_chainError.2 (avoids_checkTransactionInputs _ _ _ _), fun _ _ => avoids_ok⟩

theorem avoids_checkPolicy {candidate : Candidate H} (hstd : cfg.policy.acceptNonStd = false)
    (hseen : Seen chain candidate.view)
    (hparents : checkMissingParents tx (missingParents candidate.view tx) = .ok ()) (isNew : Bool) :
    Avoids Stop.IsPanic (checkPolicy cfg chain tx candidate isNew) ↔
      ¬(LacksInput candidate.view tx.txIn ∨ OmitsScript candidate.view tx.txIn) := by
  rw [checkPolicy, avoids_bind, avoids_checkWhen, avoids_checkInputsStandard, not_or]
  simp only [checkWhen_eq_ok, checkInputsStandard_eq_ok, hstd, Bool.false_eq_true, not_false_eq_true, forall_const]
  refine and_congr_right fun _ => ?_
  constructor
  · rintro h ⟨hall, t, ht, hempty, entry, hentry, hhash⟩
    have hpresent := present_of_standard hseen hall
    have hsig := (avoids_bind.1 (avoids_bind.1 (h hall)).1).1
    rw [avoids_chainError, avoids_getSigOpCost hpresent (swap_of_present hpresent hparents)] at hsig
    exact hsig t ht entry hentry ⟨hempty, hhash⟩
  · intro h hall
    have hpresent := present_of_standard hseen hall
    refine avoids_bind.2 ⟨avoids_bind.2 ⟨avoids_chainError.2 ?_, fun _ _ => ?_⟩, fun _ _ => avoids_checkFee _ _ _⟩
    · rw [avoids_getSigOpCost hpresent (swap_of_present hpresent hparents)]
      rintro t ht entry hentry ⟨hempty, hhash⟩
      exact h ⟨hall, t, ht, hempty, entry, hentry, hhash⟩
    · exact avoids_failIf.2 fun _ => not_isPanic_txRule

theorem avoids_commit {candidate : Candidate H} (hinv : mp.Inv) (hlayered : Layered cfg.depth mp rank) :
    Avoids Stop.IsPanic (mp.commit cfg chain tx candidate) := by
  have hreplaced : Avoids Stop.IsPanic (mp.replaced cfg tx candidate) := by
    unfold replaced
    split
    · exact validateReplacement_avoids hinv hlayered _
    · exact avoids_ok
  refine avoids_bind.2 ⟨hreplaced, fun conflicts hconflicts => ?_⟩
  refine avoids_bind.2 ⟨avoids_validateTransactionScripts _, fun _ _ => ?_⟩
  refine avoids_bind.2 ⟨evict_avoids ?_, fun _ _ => avoids_ok⟩
  unfold replaced at hconflicts
  split at hconflicts
  · exact validateReplacement_distinct hinv hconflicts
  · cases hconflicts
    exact .nil

/-- The transaction passes the checks up to its inputs, and its inputs then meet one of the two. -/
def BringsDown (mp : TxPool H) (cfg : Config H) (chain : ChainView H) (tx : MsgTx H) (rejectDupOrphans : Bool) : Prop :=
  ∃ view, mp.Admissible cfg chain tx rejectDupOrphans view ∧ (LacksInput view tx.txIn ∨ OmitsScript view tx.txIn)

theorem avoids_maybeAcceptTransaction (hinv : mp.Inv) (hlayered : Layered cfg.depth mp rank)
    (isNew rateLimit rejectDupOrphans : Bool) (nowUnix : Int) :
    Avoids Stop.IsPanic (mp.maybeAcceptTransaction cfg chain tx isNew rateLimit rejectDupOrphans nowUnix).1 ↔
      ∀ candidate, mp.checkRules cfg chain tx rejectDupOrphans = .ok candidate →
        Avoids Stop.IsPanic (checkPolicy cfg chain tx candidate isNew) := by
  unfold maybeAcceptTransaction
  have hrulesOk : Avoids Stop.IsPanic (mp.checkRules cfg chain tx rejectDupOrphans) := avoids_checkRules hinv hlayered _
  cases hrules : mp.checkRules cfg chain tx rejectDupOrphans with
  | error e =>
    rw [hrules] at hrulesOk
    simpa using avoids_error.2 (avoids_error.1 hrulesOk)
  | ok candidate =>
    cases hpolicy : checkPolicy cfg chain tx candidate isNew with
    | error e => simp [hpolicy, avoids_error]
    | ok u =>
      simp only [Except.ok.injEq, forall_eq', hpolicy, avoids_ok, iff_true]
      have hlimited : ∀ r mp₁, (if rateLimit && candidate.txFee < minFee cfg tx then mp.limitRate cfg tx nowUnix
          else (.ok (), mp)) = (r, mp₁) → Avoids Stop.IsPanic r ∧ mp₁.Inv ∧ Layered cfg.depth mp₁ rank := by
        intro r mp₁ heq
        split at heq
        · obtain ⟨hpool, houtpoints⟩ := limitRate_same mp cfg tx nowUnix
          have havoids := avoids_limitRate mp cfg tx nowUnix
          rw [heq] at hpool houtpoints havoids
          exact ⟨havoids, hinv.congr hpool houtpoints, hlayered.congr hpool⟩
        · cases heq
          exact ⟨avoids_ok, hinv, hlayered⟩
      split
      · next heq => exact avoids_error.2 (avoids_error.1 (hlimited _ _ heq).1)
      · next mp₁ heq =>
        obtain ⟨-, hinv₁, hlayered₁⟩ := hlimited _ _ heq
        have hcommit : Avoids Stop.IsPanic (mp₁.commit cfg chain tx candidate) := avoids_commit hinv₁ hlayered₁
        split
        · next hrun => exact avoids_error.2 (avoids_error.1 (hrun ▸ hcommit))
        · exact avoids_ok

theorem accept_returns_iff (cfg : Config H) (hstd : cfg.policy.acceptNonStd = false) (hreach : Reachable cfg mp)
    (hlayered : Layered cfg.depth mp rank) (chain : ChainView H) (tx : MsgTx H) (isNew rateLimit rejectDupOrphans : Bool)
    (nowUnix : Int) :
    (∀ what, (mp.maybeAcceptTransaction cfg chain tx isNew rateLimit rejectDupOrphans nowUnix).1 ≠ .error (.panic what)) ↔
      ¬BringsDown mp cfg chain tx rejectDupOrphans := by
  rw [ne_panic_iff, avoids_maybeAcceptTransaction hreach.inv hlayered]
  constructor
  · rintro h ⟨view, hadm, hinputs⟩
    obtain ⟨candidate, hrules, rfl⟩ := checkRules_eq_ok.2 hadm
    exact (avoids_checkPolicy hstd (seen_of_unmined hadm.unmined) hadm.parents isNew).1 (h candidate hrules) hinputs
  · intro h candidate hrules
    have hadm := checkRules_eq_ok.1 ⟨candidate, hrules, rfl⟩
    exact (avoids_checkPolicy hstd (seen_of_unmined hadm.unmined) hadm.parents isNew).2
      fun hinputs => h ⟨_, hadm, hinputs⟩

end

end Main

section Sample
attribute [local instance] sumHash toyPrimitives

def payScriptHash : Bytes := 0xa9 :: 0x14 :: replicate 20 0 ++ [0x87]

def payKeyHash : Bytes := 0x76 :: 0xa9 :: 0x14 :: replicate 20 0 ++ [0x88, 0xac]

def hashChain : ChainView Nat where
  utxos := GoMap.empty.set ⟨5, 0⟩ ⟨2000, payScriptHash, 0, false⟩
  tip := ⟨⟨⟨1, 0, 0, 0, 0, 1600000000, 0, 0, 0, 0, 7, 0⟩, 0, 0⟩, []⟩
  tip_height := by decide
  indexed := by
    intro h hpos hle
    obtain rfl : h = 0 := le_antisymm hle hpos
    decide
  heights := by
    intro o out h
    rw [GoMap.get_set] at h
    split at h
    · cases h
      decide
    · nomatch h

def standardConfig : Config Nat where
  policy := ⟨4, false, false, 15, 20000, 1000, false⟩
  chain := toyChain Nat
  simNet := false
  isSegwitActive := .ok true
  decay _ := 1
  formatFloat _ := ""
  depth := 10

def emptySpend : MsgTx Nat := ⟨1, [⟨⟨5, 0⟩, [], [], maxUint32⟩], [⟨1000, payKeyHash⟩], 0⟩

def swapAcross : MsgTx Nat :=
  ⟨4, [⟨⟨6, 0⟩, [0x51], [], maxUint32⟩, ⟨⟨5, 0⟩, [0x51], [], maxUint32⟩], [⟨1000, payKeyHash⟩, ⟨1000, payKeyHash⟩], 0⟩

def panicOf {α : Type} : Except (Stop Nat) α → Option String
  | .error (.panic what) => some what
  | _ => none

theorem eq_panic {α : Type} {x : Except (Stop Nat) α} {what : String} (h : panicOf x = some what) :
    x = .error (.panic what) := by
  unfold panicOf at h
  split at h
  · cases h
    rfl
  · nomatch h

theorem emptySpend_panics : panicOf ((new Nat).maybeAcceptTransaction standardConfig hashChain emptySpend true
    false true 0).1 = some "slice bounds out of range" := by
  decide +kernel

theorem swapAcross_panics : panicOf ((new Nat).maybeAcceptTransaction standardConfig hashChain swapAcross true
    false true 0).1 = some "nil pointer dereference" := by
  decide +kernel

/-- A swap transaction without one of its outputs, and a transaction without a signature script. -/
theorem accept_panics : Reachable standardConfig (new Nat) ∧
    ((new Nat).maybeAcceptTransaction standardConfig hashChain swapAcross true false true 0).1 =
      .error (.panic "nil pointer dereference") ∧
    ((new Nat).maybeAcceptTransaction standardConfig hashChain emptySpend true false true 0).1 =
      .error (.panic "slice bounds out of range") :=
  ⟨.new, eq_panic swapAcross_panics, eq_panic emptySpend_panics⟩

theorem layered_new : Layered standardConfig.depth (new Nat) (fun _ => 0) :=
  ⟨fun _ ⟨_, h, _⟩ => (nomatch h), fun _ => by decide⟩

theorem swapAcross_bringsDown : BringsDown (new Nat) standardConfig hashChain swapAcross true := by
  by_contra hnot
  exact (accept_returns_iff standardConfig rfl .new layered_new hashChain swapAcross true false true 0).2 hnot _
    (eq_panic swapAcross_panics)

end Sample

end Jaxnetd.Mempool
