import Jaxnetd.Mempool.Panics
import Jaxnetd.Chaindata.Inputs

/-!
# Replacement by fee

The walks over the pool find the transitive closures of spending, so a replacement takes out the transactions that it
conflicts with and everything that depends on them (`replaced_of_accept`).
-/

namespace Jaxnetd.Mempool
open Wire TxScript Chaindata Checks Blockchain List

variable {H : Type} [ChainHash H] {mp mp' mp₁ : TxPool H} {tx t c : MsgTx H}

def inputsOf (tx : MsgTx H) : List (OutPoint H) := tx.txIn.map TxIn.previousOutPoint

variable {cfg : Config H}

namespace TxPool

/-- Every input of a transaction of the pool is marked with it, and nothing else is. The fees are differences of amounts. -/
structure Consistent (mp : TxPool H) : Prop extends mp.Inv where
  marked : ∀ t, mp.Holds t → ∀ o ∈ inputsOf t, mp.outpoints.get o = some t
  fees : ∀ h d, mp.pool.get h = some d → -maxCoinAmount ≤ d.fee ∧ d.fee ≤ maxCoinAmount

def Child (mp : TxPool H) (p c : MsgTx H) : Prop := mp.Holds c ∧ ∃ o ∈ ownOutputs p, o ∈ inputsOf c

def Parent (mp : TxPool H) (c p : MsgTx H) : Prop := mp.Holds p ∧ ∃ o ∈ inputsOf c, o.hash = p.txHash

def Conflicting (mp : TxPool H) (tx c : MsgTx H) : Prop := mp.Holds c ∧ ∃ o ∈ inputsOf tx, o ∈ inputsOf c

def Signals (mp : TxPool H) (c : MsgTx H) : Prop :=
  ∃ a, Relation.ReflTransGen mp.Parent c a ∧ ∃ txIn ∈ a.txIn, txIn.sequence ≤ maxRBFSequence

def feeOf (mp : TxPool H) (c : MsgTx H) : Int := ((mp.pool.get c.txHash).map TxDesc.fee).getD 0

theorem Consistent.mem_redeemersOf_iff (h : mp.Consistent) {os : List (OutPoint H)} :
    c ∈ mp.redeemersOf os ↔ mp.Holds c ∧ ∃ o ∈ os, o ∈ inputsOf c := by
  constructor
  · intro hc
    obtain ⟨o, ho, hget⟩ := mem_filterMap.1 hc
    obtain ⟨hheld, hin⟩ := h.spender o c hget
    exact ⟨hheld, o, ho, hin⟩
  · rintro ⟨hheld, o, ho, hin⟩
    exact mem_filterMap.2 ⟨o, ho, h.marked c hheld o hin⟩

/-! ## Signals -/

variable {txIns : List (TxIn H)} {fee : Int} {conflicts txs result : List (MsgTx H)}

/-- An input signals by its sequence number, or by the transaction of the pool that it spends. -/
def InputSignals (mp : TxPool H) (txIn : TxIn H) : Prop :=
  txIn.sequence ≤ maxRBFSequence ∨ ∃ d, mp.pool.get txIn.previousOutPoint.hash = some d ∧ mp.Signals d.tx

theorem inputSignals_iff {txIn : TxIn H} {d : TxDesc H} (hseq : ¬txIn.sequence ≤ maxRBFSequence)
    (hd : mp.pool.get txIn.previousOutPoint.hash = some d) : mp.InputSignals txIn ↔ mp.Signals d.tx := by
  simp [InputSignals, hseq, hd]

theorem signals_iff (h : mp.Inv) : mp.Signals c ↔ ∃ txIn ∈ c.txIn, mp.InputSignals txIn := by
  constructor
  · rintro ⟨a, hreach, hopts⟩
    rcases Relation.ReflTransGen.cases_head hreach with rfl | ⟨b, ⟨⟨d, hd, rfl⟩, o, ho, hhash⟩, hrest⟩
    · obtain ⟨txIn, htxIn, hseq⟩ := hopts
      exact ⟨txIn, htxIn, .inl hseq⟩
    · obtain ⟨txIn, htxIn, rfl⟩ := mem_map.1 ho
      exact ⟨txIn, htxIn, .inr ⟨d, by rw [hhash, hd], a, hrest, hopts⟩⟩
  · rintro ⟨txIn, htxIn, hseq | ⟨d, hd, a, hreach, hopts⟩⟩
    · exact ⟨c, .refl, txIn, htxIn, hseq⟩
    · exact ⟨a, hreach.head ⟨h.holds hd, _, mem_map_of_mem htxIn, (h.keyed _ _ hd).symm⟩, hopts⟩

section
variable [DecidableEq H] {cache cache' : GoMap H Unit} {signals : Bool}

/-- The transactions in a cache do not signal. -/
abbrev Silent (mp : TxPool H) (cache : GoMap H Unit) : Prop :=
  Walk.Sound {t | mp.Holds t} MsgTx.txHash (fun t _ => ¬mp.Signals t) cache

theorem signalsInputs_spec (h : mp.Inv) {visit : MsgTx H → GoMap H Unit → Except (Stop H) (Bool × GoMap H Unit)}
    (hvisit : ∀ t, ∀ {cache cache' signals}, mp.Silent cache → visit t cache = .ok (signals, cache') →
      (signals = true ↔ mp.Signals t) ∧ mp.Silent cache')
    (hcache : mp.Silent cache) (hrun : mp.signalsInputs visit txIns cache = .ok (signals, cache')) :
    (signals = true ↔ ∃ txIn ∈ txIns, mp.InputSignals txIn) ∧ mp.Silent cache' := by
  induction txIns generalizing cache with
  | nil =>
    cases hrun
    simp [hcache]
  | cons txIn txIns ih =>
    -- an input that does not signal leaves the answer to those behind it
    have hskip : ¬mp.InputSignals txIn → ∀ {cache}, mp.Silent cache →
        mp.signalsInputs visit txIns cache = .ok (signals, cache') →
        (signals = true ↔ ∃ i ∈ txIn :: txIns, mp.InputSignals i) ∧ mp.Silent cache' := by
      intro hnot cache hcache hrun
      rw [exists_mem_cons_iff, or_iff_right hnot]
      exact ih hcache hrun
    rw [signalsInputs] at hrun
    split at hrun
    next hseq =>
      cases hrun
      simp [InputSignals, hseq, hcache]
    next hseq =>
    split at hrun
    next hnone => exact hskip (by simp [InputSignals, hseq, hnone]) hcache hrun
    next d hd =>
    have hinput := inputSignals_iff hseq hd
    have hkey : txIn.previousOutPoint.hash = d.tx.txHash := (h.keyed _ _ hd).symm
    split at hrun
    next hknown =>
      obtain ⟨u, hu⟩ := Option.isSome_iff_exists.1 hknown
      exact hskip (hinput.not.2 (hcache d.tx (h.holds hd) u (hkey ▸ hu))) hcache hrun
    · obtain ⟨⟨found, cache₁⟩, hcall, hrun⟩ := bind_eq_ok.1 hrun
      obtain ⟨hfound, hcache₁⟩ := hvisit d.tx hcache hcall
      dsimp only at hrun
      split at hrun
      next htrue =>
        cases hrun
        simp [hcache₁, hinput, hfound.1 htrue]
      next hfalse =>
        have hsilent : ¬mp.Signals d.tx := fun hsignals => hfalse (hfound.2 hsignals)
        rw [hkey] at hrun
        exact hskip (hinput.not.2 hsilent) (hcache₁.set holds_injOn (h.holds hd) hsilent) hrun

/-- With its cache the recursion finds out whether a transaction or one before it in the pool signals. -/
theorem signalsReplacement_spec (h : mp.Inv) {n : Nat} (hcache : mp.Silent cache)
    (hrun : mp.signalsReplacement n c cache = .ok (signals, cache')) :
    (signals = true ↔ mp.Signals c) ∧ mp.Silent cache' := by
  induction n generalizing c cache cache' signals with
  | zero => cases hrun
  | succ n ih =>
    rw [signals_iff h]
    exact signalsInputs_spec h (fun _ _ _ _ => ih) hcache hrun

theorem checkDoubleSpends_ok (h : mp.Inv) {before after : Bool} (hrun : mp.checkDoubleSpends cfg txIns before = .ok after) :
    (∀ o ∈ txIns.map TxIn.previousOutPoint, ∀ c, mp.outpoints.get o = some c → mp.Signals c ∧ after = true) ∧
      (before = true → after = true) := by
  induction txIns generalizing before with
  | nil =>
    cases hrun
    simp
  | cons txIn txIns ih =>
    rw [map_cons, forall_mem_cons]
    rw [checkDoubleSpends] at hrun
    split at hrun
    next hnone =>
      obtain ⟨hrest, hbefore⟩ := ih hrun
      exact ⟨⟨fun c hc => by simp [hnone] at hc, hrest⟩, hbefore⟩
    next conflict hconflict =>
      simp only [ok_rules] at hrun
      obtain ⟨replaceable, hrepl, htrue, hrun⟩ := hrun
      obtain ⟨hrest, hafter⟩ := ih hrun
      refine ⟨⟨fun c hc => ⟨?_, hafter rfl⟩, hrest⟩, fun _ => hafter rfl⟩
      rw [hconflict, Option.some.injEq] at hc
      subst hc
      unfold isReplaceable at hrepl
      split at hrepl
      · cases hrepl
        simp at htrue
      · simp only [ok_rules] at hrepl
        obtain ⟨_, cache, hrun, rfl⟩ := hrepl
        exact (signalsReplacement_spec h .empty hrun).1.1 (by simpa using htrue)

end

/-! ## Fees -/

theorem checkFeeRates_ok {rate total : Int} (h : mp.Consistent)
    (hrun : mp.checkFeeRates tx rate conflicts fee = .ok total) (hroom : |fee| + maxCoinAmount * conflicts.length < 2 ^ 63) :
    total = fee + (conflicts.map mp.feeOf).sum ∧ |total| ≤ |fee| + maxCoinAmount * conflicts.length ∧
      ∀ c ∈ conflicts, ∃ d, mp.pool.get c.txHash = some d ∧ d.feePerKB < rate := by
  induction conflicts generalizing fee with
  | nil =>
    cases hrun
    simp
  | cons c conflicts ih =>
    simp only [checkFeeRates, ok_rules] at hrun
    obtain ⟨d, hd, hrate, hrun⟩ := hrun
    have hfee : mp.feeOf c = d.fee := by rw [feeOf, hd]; rfl
    rw [length_cons, Nat.cast_add_one, mul_add_one] at hroom ⊢
    have habs : |fee + d.fee| ≤ |fee| + maxCoinAmount := (abs_add_le _ _).trans (by gcongr; exact abs_le.2 (h.fees _ _ hd))
    have hpos : 0 ≤ maxCoinAmount * (conflicts.length : Int) := by unfold maxCoinAmount; positivity
    rw [wrap64_of_range (by linarith [neg_abs_le (fee + d.fee)]) (by linarith [le_abs_self (fee + d.fee)])] at hrun
    obtain ⟨htotal, hle, hrest⟩ := ih hrun (by linarith)
    refine ⟨?_, by linarith, forall_mem_cons.2 ⟨⟨d, hd, not_le.1 hrate⟩, hrest⟩⟩
    rw [htotal, map_cons, sum_cons, hfee, add_assoc]

omit [ChainHash H] in
theorem minFee_range (cfg : Config H) (tx : MsgTx H) : 0 ≤ minFee cfg tx ∧ minFee cfg tx ≤ maxCoinAmount := by
  have hclamp : ∀ fee : Int, 0 ≤ (if fee < 0 ∨ maxCoinAmount < fee then maxCoinAmount else fee) ∧
      (if fee < 0 ∨ maxCoinAmount < fee then maxCoinAmount else fee) ≤ maxCoinAmount := by
    intro fee
    have hmax : 0 ≤ maxCoinAmount := by decide
    split <;> omega
  exact hclamp _

/-! ## Walks -/

variable [DecidableEq H]

theorem Consistent.mem_txConflicts (h : mp.Consistent) {depth : Nat} (hrun : mp.txConflicts depth tx = .ok result) :
    c ∈ result ↔ ∃ d, mp.Conflicting tx d ∧ Relation.ReflTransGen mp.Child d c := by
  have hchild : (fun a b => b ∈ mp.redeemersOf (ownOutputs a)) = mp.Child := by
    funext a b
    exact propext h.mem_redeemersOf_iff
  rw [(txConflicts_spec h.toInv hrun).2, hchild]
  simp only [h.mem_redeemersOf_iff]
  rfl

theorem Consistent.parents_subset (h : mp.Consistent) {depth : Nat} {cache : Cache H}
    (hrun : mp.txAncestors depth tx .empty = .ok (result, cache)) (hc : mp.Parent tx c) : c ∈ result := by
  obtain ⟨⟨d, hd, rfl⟩, o, ho, hhash⟩ := hc
  obtain ⟨txIn, htxIn, rfl⟩ := mem_map.1 ho
  refine ((txAncestors_closure h.toInv hrun).reached _).2 (.single (mem_filterMap.2 ⟨txIn, htxIn, ?_⟩))
  rw [hhash, hd]
  rfl

/-! ## Conflicts -/

/-- What `validateReplacement` establishes of the transactions to be evicted. -/
structure Replaces (mp : TxPool H) (cfg : Config H) (tx : MsgTx H) (txFee : Int) (conflicts : List (MsgTx H)) : Prop where
  distinct : mp.Distinct conflicts
  displaced : ∀ c, c ∈ conflicts ↔ ∃ d, mp.Conflicting tx d ∧ Relation.ReflTransGen mp.Child d c
  count : conflicts.length ≤ maxReplacementEvictions
  independent : ∀ c ∈ conflicts, ¬ mp.Parent tx c
  rate : ∀ c ∈ conflicts, ∃ d, mp.pool.get c.txHash = some d ∧ d.feePerKB < (wrap64 (txFee * 1000)).tdiv (getTxVirtualSize tx)
  fee : (conflicts.map mp.feeOf).sum + minFee cfg tx ≤ txFee
  known : ∀ p, mp.Parent tx p → ∃ c ∈ conflicts, mp.Parent c p

theorem Consistent.validateReplacement_ok (h : mp.Consistent) {txFee : Int}
    (hrun : mp.validateReplacement cfg tx txFee = .ok conflicts) : mp.Replaces cfg tx txFee conflicts := by
  obtain ⟨conflicts', hconflicts, hrun⟩ := bind_eq_ok.1 hrun
  obtain ⟨_, hcount, hrun⟩ := bind_eq_ok.1 hrun
  obtain ⟨⟨ancestors, cache⟩, hancestors, hrun⟩ := bind_eq_ok.1 hrun
  rw [failIf_eq_ok, not_lt] at hcount
  dsimp only at hrun
  split at hrun
  · cases hrun
  next hfind =>
  obtain ⟨conflictsFee, hrates, hrun⟩ := bind_eq_ok.1 hrun
  obtain ⟨_, hfee, hrun⟩ := bind_eq_ok.1 hrun
  rw [failIf_eq_ok, not_lt] at hfee
  split at hrun
  · cases hrun
  next hnew =>
  cases hrun
  have hmax : maxCoinAmount = 2100000000000000 ∧ maxReplacementEvictions = 100 := ⟨rfl, rfl⟩
  obtain ⟨htotal, hle, hrate⟩ := checkFeeRates_ok h hrates (by rw [hmax.1]; simp; omega)
  refine ⟨(txConflicts_spec h.toInv hconflicts).1, fun c => h.mem_txConflicts hconflicts, hcount, fun c hc hparent => ?_,
    hrate, ?_,
    ?_⟩
  · have := find?_eq_none.1 hfind c (h.parents_subset hancestors hparent)
    exact this (any_eq_true.2 ⟨c, hc, by simp⟩)
  · have hrange := minFee_range cfg tx
    rw [abs_zero, hmax.1] at hle
    rw [wrap64_of_range] at hfee
    · rw [← zero_add (List.sum _), ← htotal]
      exact hfee
    all_goals
      rw [show calcMinRequiredTxRelayFee _ _ _ = minFee cfg tx from rfl]
      have := abs_le.1 hle
      omega
  · rintro p ⟨⟨d, hd, rfl⟩, o, ho, hhash⟩
    obtain ⟨txIn, htxIn, rfl⟩ := mem_map.1 ho
    have hnot := filter_eq_nil_iff.1 hnew txIn htxIn
    simp only [isTransactionInPool, hhash, hd] at hnot
    simp at hnot
    obtain ⟨c, hc, i, hi, heq⟩ := hnot
    exact ⟨c, hc, ⟨d, hd, rfl⟩, _, mem_map_of_mem hi, heq⟩

omit [DecidableEq H] in
theorem Replaces.congr (hpool : mp₁.pool = mp.pool)
    (h : mp₁.Replaces cfg tx fee conflicts) : mp.Replaces cfg tx fee conflicts := by
  obtain ⟨pool, orphans, outpoints, penny, last⟩ := mp
  obtain ⟨pool₁, orphans₁, outpoints₁, penny₁, last₁⟩ := mp₁
  subst hpool
  exact ⟨⟨h.distinct.held, h.distinct.keys⟩, h.displaced, h.count, h.independent, h.rate, h.fee, h.known⟩

/-! ## Accepting -/

theorem get_evict (hrun : evict conflicts mp = .ok mp') (hash : H) :
    mp'.pool.get hash = if hash ∈ conflicts.map MsgTx.txHash then none else mp.pool.get hash := by
  induction conflicts generalizing mp with
  | nil =>
    cases hrun
    simp
  | cons c conflicts ih =>
    simp only [evict, ok_rules] at hrun
    obtain ⟨_, -, hrun⟩ := hrun
    rw [ih hrun, get_removeEntry]
    by_cases heq : hash = c.txHash <;> simp [heq]

omit [DecidableEq H] in
theorem Consistent.congr (h : mp.Consistent) (hpool : mp'.pool = mp.pool) (houtpoints : mp'.outpoints = mp.outpoints) :
    mp'.Consistent := by
  refine ⟨h.toInv.congr hpool houtpoints, fun t ht o ho => ?_, fun hash d hd => h.fees hash d (hpool ▸ hd)⟩
  rw [Holds, hpool] at ht
  rw [houtpoints, h.marked t ht o ho]

theorem Consistent.removeEntry (h : mp.Consistent) (hash : H) : (mp.removeEntry hash).Consistent := by
  refine ⟨h.toInv.removeEntry hash, fun t ht o ho => ?_, fun hash' d hd => ?_⟩
  · obtain ⟨d, hd, rfl⟩ := ht
    rw [get_removeEntry] at hd
    split at hd
    · cases hd
    next hne =>
    have hmarked := h.marked d.tx ⟨d, hd, rfl⟩ o ho
    unfold TxPool.removeEntry
    split
    · exact hmarked
    next d' hd' =>
      simp only [get_deleteAll]
      rw [if_neg, hmarked]
      -- an input that both spend is marked with both
      intro hin
      have hmarked' := h.marked d'.tx (h.holds hd') o hin
      rw [hmarked, Option.some.injEq] at hmarked'
      exact hne (hmarked' ▸ h.keyed _ _ hd')
  · rw [get_removeEntry] at hd
    split at hd
    · cases hd
    · exact h.fees hash' d hd

theorem Consistent.addTransaction (h : mp.Consistent) (hfresh : mp.pool.get tx.txHash = none)
    (hfree : ∀ o ∈ inputsOf tx, mp.outpoints.get o = none) (view : UtxoViewpoint H) (height : Int)
    (hfee : -maxCoinAmount ≤ fee ∧ fee ≤ maxCoinAmount) : (mp.addTransaction view tx height fee).2.Consistent := by
  refine ⟨h.toInv.addTransaction hfresh view height fee, fun t ht o ho => ?_, fun hash d hd => ?_⟩
  · obtain ⟨d, hd, rfl⟩ := ht
    simp only [TxPool.addTransaction, get_setAll, GoMap.get_set] at hd ⊢
    split at hd
    · cases hd
      exact if_pos ho
    · have hmarked := h.marked d.tx ⟨d, hd, rfl⟩ o ho
      rw [if_neg, hmarked]
      intro hin
      rw [hfree o hin] at hmarked
      cases hmarked
  · simp only [TxPool.addTransaction, GoMap.get_set] at hd
    split at hd
    · cases hd
      exact hfee
    · exact h.fees hash d hd

variable [Primitives] {cfg : Config H} {chain : ChainView H} {candidate : Candidate H} {txD : TxDesc H}
    {rejectDupOrphans : Bool}

theorem checkRules_candidate (hrules : mp.checkRules cfg chain tx rejectDupOrphans = .ok candidate) :
    mp.checkPoolDoubleSpend cfg tx = .ok candidate.isReplacement ∧ -maxCoinAmount ≤ candidate.txFee ∧
      candidate.txFee ≤ maxCoinAmount := by
  simp only [checkRules, ok_rules] at hrules
  obtain ⟨-, -, hsane, hcb, -, r, hspend, v, -, -, -, fee, ages, hinputs, rfl⟩ := hrules
  exact ⟨hspend, (checkTransactionInputs_ok (checkTransactionSanity_ok hsane) hcb hinputs).range⟩

theorem Consistent.replaced_ok (h : mp.Consistent) (hpool : mp₁.pool = mp.pool) (houtpoints : mp₁.outpoints = mp.outpoints)
    (hrules : mp.checkRules cfg chain tx rejectDupOrphans = .ok candidate)
    (hrun : mp₁.replaced cfg tx candidate = .ok conflicts) :
    if candidate.isReplacement then mp.Replaces cfg tx candidate.txFee conflicts else
      conflicts = [] ∧ ∀ o ∈ inputsOf tx, mp.outpoints.get o = none := by
  obtain ⟨hspend, -⟩ := checkRules_candidate hrules
  unfold replaced at hrun
  split at hrun
  next htrue =>
    rw [if_pos htrue]
    exact ((h.congr hpool houtpoints).validateReplacement_ok hrun).congr hpool
  next hfalse =>
    rw [if_neg hfalse]
    cases hrun
    refine ⟨rfl, fun o ho => ?_⟩
    by_contra hsome
    obtain ⟨c, hc⟩ := Option.ne_none_iff_exists'.1 hsome
    exact hfalse ((checkDoubleSpends_ok h.toInv hspend).1 o ho c hc).2

theorem Consistent.commit (h : mp.Consistent) (hrules : mp.checkRules cfg chain tx rejectDupOrphans = .ok candidate)
    (hpool : mp₁.pool = mp.pool) (houtpoints : mp₁.outpoints = mp.outpoints)
    (hrun : mp₁.commit cfg chain tx candidate = .ok (txD, mp')) : mp'.Consistent := by
  simp only [TxPool.commit, ok_rules] at hrun
  obtain ⟨conflicts, hreplaced, -, mp₂, hevict, hadd⟩ := hrun
  have hreplaces := h.replaced_ok hpool houtpoints hrules hreplaced
  have h₂ : mp₂.Consistent := evict_induct (fun _ hash h => h.removeEntry hash) (h.congr hpool houtpoints) hevict
  have hget := get_evict hevict
  rw [hpool] at hget
  have hfresh : mp₂.pool.get tx.txHash = none := by
    rw [hget, (checkRules_eq_ok.1 ⟨candidate, hrules, rfl⟩).fresh, ite_self]
  have hfree : ∀ o ∈ inputsOf tx, mp₂.outpoints.get o = none := by
    intro o ho
    by_contra hsome
    obtain ⟨c, hc⟩ := Option.ne_none_iff_exists'.1 hsome
    obtain ⟨⟨d, hd, rfl⟩, hin⟩ := h₂.spender o c hc
    rw [hget] at hd
    split at hd
    · cases hd
    next hkept =>
    split at hreplaces
    · exact hkept (mem_map_of_mem ((hreplaces.displaced d.tx).2 ⟨d.tx, ⟨⟨d, hd, rfl⟩, o, ho, hin⟩, .refl⟩))
    · have hmarked := h.marked d.tx ⟨d, hd, rfl⟩ o hin
      rw [hreplaces.2 o ho] at hmarked
      cases hmarked
  have hadded := h₂.addTransaction hfresh hfree candidate.view chain.tip.height (checkRules_candidate hrules).2
  rwa [hadd] at hadded

omit [Primitives] in
theorem holds_added {mp₂ : TxPool H} {view : UtxoViewpoint H} {height : Int}
    (hevict : evict conflicts mp₁ = .ok mp₂) (hpool : mp₁.pool = mp.pool)
    (hadd : mp₂.addTransaction view tx height fee = (txD, mp')) (hheld : ∀ c ∈ conflicts, mp.Holds c)
    (hfresh : mp.pool.get tx.txHash = none) (t : MsgTx H) : mp'.Holds t ↔ t = tx ∨ mp.Holds t ∧ t ∉ conflicts := by
  cases hadd
  simp only [Holds, GoMap.get_set, get_evict hevict, hpool]
  constructor
  · rintro ⟨d, hd, rfl⟩
    split at hd
    · cases hd
      exact .inl rfl
    split at hd
    · cases hd
    next hkept => exact .inr ⟨⟨d, hd, rfl⟩, fun hc => hkept (mem_map_of_mem hc)⟩
  · rintro (rfl | ⟨⟨d, hd, rfl⟩, hkept⟩)
    · exact ⟨_, if_pos rfl, rfl⟩
    refine ⟨d, ?_, rfl⟩
    rw [if_neg, if_neg, hd]
    · intro hmem
      obtain ⟨c, hc, heq⟩ := mem_map.1 hmem
      exact hkept ((hheld c hc).eq ⟨d, hd, rfl⟩ heq ▸ hc)
    · intro heq
      rw [heq, hfresh] at hd
      cases hd

structure Replaced (mp : TxPool H) (cfg : Config H) (tx : MsgTx H) (txD : TxDesc H) (mp' : TxPool H)
    (evicted : List (MsgTx H)) :
    Prop extends mp.Replaces cfg tx txD.fee evicted where
  gone : ∀ c, c ∈ evicted ↔ mp.Holds c ∧ ¬ mp'.Holds c
  signals : ∀ c, mp.Conflicting tx c → mp.Signals c
  unspent : ∀ p, mp'.Holds p → ∀ c ∈ evicted, ∀ o ∈ ownOutputs c, o ∉ inputsOf p

/-- A transaction that is accepted although it conflicts with the pool replaces what it conflicts with, and all that
depends on it. -/
theorem replaced_of_accept (h : mp.Consistent) {isNew rateLimit : Bool} {nowUnix : Int}
    (hrun : mp.maybeAcceptTransaction cfg chain tx isNew rateLimit rejectDupOrphans nowUnix = (.ok txD, mp'))
    (hconflict : ∃ c, mp.Conflicting tx c) : ∃ evicted, mp.Replaced cfg tx txD mp' evicted := by
  obtain ⟨mp₁, hpool, houtpoints, ⟨e, he⟩ | ⟨candidate, txD', mp'', hrules, hcommit, hok⟩⟩ :=
    mp.maybeAcceptTransaction_cases cfg chain tx isNew rateLimit rejectDupOrphans nowUnix
  · rw [hrun] at he
    cases he
  rw [hrun] at hok
  cases hok
  simp only [TxPool.commit, ok_rules] at hcommit
  obtain ⟨conflicts, hreplaced, -, mp₂, hevict, hadd⟩ := hcommit
  have hspends := (checkDoubleSpends_ok h.toInv (checkRules_candidate hrules).1).1
  have hreplaces := h.replaced_ok hpool houtpoints hrules hreplaced
  have hfresh := (checkRules_eq_ok.1 ⟨candidate, hrules, rfl⟩).fresh
  obtain ⟨c₀, hheld₀, o₀, ho₀, hin₀⟩ := hconflict
  rw [if_pos (hspends o₀ ho₀ c₀ (h.marked c₀ hheld₀ o₀ hin₀)).2] at hreplaces
  have hholds := holds_added hevict hpool hadd hreplaces.distinct.held hfresh
  have hfee : txD.fee = candidate.txFee := by
    cases hadd
    rfl
  rw [← hfee] at hreplaces
  refine ⟨conflicts, hreplaces, fun c => ?_, fun c hc => ?_, fun p hp c hc o ho hin => ?_⟩
  · rw [hholds, not_or, not_and, not_not]
    refine ⟨fun hc => ⟨hreplaces.distinct.held c hc, ?_, fun _ => hc⟩, fun hc => hc.2.2 hc.1⟩
    rintro rfl
    obtain ⟨d, hd, -⟩ := hreplaces.distinct.held c hc
    rw [hfresh] at hd
    cases hd
  · obtain ⟨hheld, o, ho, hin⟩ := hc
    exact (hspends o ho c (h.marked c hheld o hin)).1
  · rcases (hholds p).1 hp with rfl | ⟨hheld, hkept⟩
    · refine hreplaces.independent c hc ⟨hreplaces.distinct.held c hc, o, hin, ?_⟩
      obtain ⟨i, -, rfl⟩ := mem_map.1 ho
      rfl
    · obtain ⟨d, hd, hreach⟩ := (hreplaces.displaced c).1 hc
      exact hkept ((hreplaces.displaced p).2 ⟨d, hd, hreach.tail ⟨hheld, o, ho, hin⟩⟩)

end TxPool

theorem Reachable.consistent [Primitives] [DecidableEq H] (h : Reachable cfg mp) : mp.Consistent := by
  refine h.induct ⟨.new, ?_, fun _ _ h => nomatch h⟩ (fun _ _ hpool houtpoints h => h.congr hpool houtpoints)
    (fun _ hash h => h.removeEntry hash) fun _ _ _ _ _ _ _ _ hrules hpool houtpoints hcommit h =>
      h.commit hrules hpool houtpoints hcommit
  rintro t ⟨d, hd, -⟩
  nomatch hd

section Sample
attribute [local instance] sumHash toyPrimitives

def openChain : ChainView Nat where
  utxos := GoMap.empty.set ⟨5, 0⟩ ⟨8000, [0x51], 0, false⟩
  tip := hashChain.tip
  tip_height := hashChain.tip_height
  indexed := hashChain.indexed
  heights := by
    intro o out h
    rw [GoMap.get_set] at h
    split at h
    · cases h
      decide
    · nomatch h

def openConfig : Config Nat := { standardConfig with policy := ⟨4, false, true, 15, 20000, 1000, false⟩ }

def openSpend : MsgTx Nat := ⟨1, [⟨⟨5, 0⟩, [], [], 0⟩], [⟨3000, [0x51]⟩, ⟨3000, [0x51]⟩], 0⟩

def childSpend : MsgTx Nat := ⟨1, [⟨⟨openSpend.txHash, 0⟩, [], [], 0xffffffff⟩], [⟨2500, [0x51]⟩], 0⟩

/-- It spends from both, so that the walk meets it twice. -/
def joinSpend : MsgTx Nat :=
  ⟨1, [⟨⟨childSpend.txHash, 0⟩, [], [], 0xffffffff⟩, ⟨⟨openSpend.txHash, 1⟩, [], [], 0xffffffff⟩], [⟨5000, [0x51]⟩], 0⟩

/-- The first output once more, with a higher fee. -/
def dearSpend : MsgTx Nat := ⟨1, [⟨⟨5, 0⟩, [], [], 0⟩], [⟨100, [0x51]⟩], 0⟩

def accept (mp : TxPool Nat) (tx : MsgTx Nat) : Except (Stop Nat) (TxDesc Nat) × TxPool Nat :=
  mp.maybeAcceptTransaction openConfig openChain tx true false true 0

def openPool : TxPool Nat := (accept (accept (accept (.new Nat) openSpend).2 childSpend).2 joinSpend).2

theorem accept_ok : (accept (.new Nat) openSpend).1.isOk ∧ (accept (accept (.new Nat) openSpend).2 childSpend).1.isOk ∧
    (accept (accept (accept (.new Nat) openSpend).2 childSpend).2 joinSpend).1.isOk ∧ (accept openPool dearSpend).1.isOk ∧
    ∀ c ∈ [openSpend, childSpend, joinSpend], (openPool.pool.get c.txHash).map TxDesc.tx = some c ∧
      ((accept openPool dearSpend).2.pool.get c.txHash).isNone := by
  decide +kernel

theorem reachable_accept {mp : TxPool Nat} {tx : MsgTx Nat} (h : Reachable openConfig mp) (hok : (accept mp tx).1.isOk) :
    Reachable openConfig (accept mp tx).2 := by
  refine .accept openChain tx true false true 0 h fun what hpanic => ?_
  simp only [accept, hpanic] at hok
  cases hok

theorem replaced_of_accept_open : ∃ txD evicted,
    openPool.Replaced openConfig dearSpend txD (accept openPool dearSpend).2 evicted ∧
      [openSpend, childSpend, joinSpend] ⊆ evicted := by
  obtain ⟨hopen, hchild, hjoin, hdear, hgone⟩ := accept_ok
  have hreach : Reachable openConfig openPool := reachable_accept
    (reachable_accept (reachable_accept .new hopen) hchild) hjoin
  have hheld : ∀ c ∈ [openSpend, childSpend, joinSpend], openPool.Holds c := fun c hc =>
    Option.map_eq_some_iff.1 (hgone c hc).1
  obtain ⟨txD, hok⟩ := isOk_iff.1 hdear
  obtain ⟨evicted, hreplaced⟩ := TxPool.replaced_of_accept hreach.consistent (Prod.ext hok rfl)
    ⟨openSpend, hheld openSpend (by decide), ⟨5, 0⟩, by decide, by decide⟩
  refine ⟨txD, evicted, hreplaced, fun c hc => (hreplaced.gone c).2 ⟨hheld c hc, ?_⟩⟩
  change ¬(accept openPool dearSpend).2.Holds c
  rintro ⟨d, hd, -⟩
  have hnone := (hgone c hc).2
  rw [hd] at hnone
  cases hnone

end Sample

end Jaxnetd.Mempool
