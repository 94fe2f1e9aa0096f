import Jaxnetd.Mempool.Pool

/-!
# The pools that can be reached

Each transaction of a pool stands under its hash, and each outpoint marked as spent is an input of a transaction of the
pool. Both hold of every pool reached by accepting and removing transactions.
-/

namespace Jaxnetd.Mempool
open Wire TxScript Chaindata Checks Blockchain List TxPool

variable {H : Type} [ChainHash H] [DecidableEq H] {mp mp' : TxPool H} {tx : MsgTx H}

section
variable (txIns : List (TxIn H)) (m : GoMap (OutPoint H) (MsgTx H))

omit [ChainHash H]

theorem get_deleteAll (o : OutPoint H) :
    (txIns.foldl (fun m txIn => m.delete txIn.previousOutPoint) m).get o =
      if o ∈ txIns.map TxIn.previousOutPoint then none else m.get o := by
  induction txIns generalizing m with
  | nil => simp
  | cons txIn txIns ih =>
    rw [foldl_cons, ih, GoMap.get_delete]
    by_cases ho : o = txIn.previousOutPoint <;> simp [ho]

theorem get_setAll (tx : MsgTx H) (o : OutPoint H) :
    (txIns.foldl (fun m txIn => m.set txIn.previousOutPoint tx) m).get o =
      if o ∈ txIns.map TxIn.previousOutPoint then some tx else m.get o := by
  induction txIns generalizing m with
  | nil => simp
  | cons txIn txIns ih =>
    rw [foldl_cons, ih, GoMap.get_set]
    by_cases ho : o = txIn.previousOutPoint <;> simp [ho]

end

variable {outpoints : List (OutPoint H)} {P : TxPool H → Prop} {cfg : Config H}

namespace TxPool

def Holds (mp : TxPool H) (tx : MsgTx H) : Prop := ∃ d, mp.pool.get tx.txHash = some d ∧ d.tx = tx

structure Inv (mp : TxPool H) : Prop where
  keyed : ∀ h d, mp.pool.get h = some d → d.tx.txHash = h
  spender : ∀ o t, mp.outpoints.get o = some t → mp.Holds t ∧ o ∈ t.txIn.map TxIn.previousOutPoint

section
omit [DecidableEq H]

theorem Inv.new : (new H).Inv := ⟨fun _ _ h => (nomatch h), fun _ _ h => (nomatch h)⟩

theorem Inv.holds (h : mp.Inv) {hash : H} {d : TxDesc H} (hd : mp.pool.get hash = some d) : mp.Holds d.tx :=
  ⟨d, by rw [h.keyed _ _ hd, hd], rfl⟩

theorem Inv.congr (h : mp.Inv) (hpool : mp'.pool = mp.pool) (houtpoints : mp'.outpoints = mp.outpoints) : mp'.Inv := by
  refine ⟨fun hash d hd => h.keyed hash d (hpool ▸ hd), fun o t ho => ?_⟩
  rw [houtpoints] at ho
  rw [Holds, hpool]
  exact h.spender o t ho

end

/-! ## Removing -/

theorem Inv.removeEntry (h : mp.Inv) (hash : H) : (mp.removeEntry hash).Inv := by
  unfold TxPool.removeEntry
  split
  · exact h
  next d hd =>
  refine ⟨fun hash' d' hd' => ?_, fun o t ho => ?_⟩
  · simp only [GoMap.get_delete] at hd'
    split at hd'
    · nomatch hd'
    · exact h.keyed hash' d' hd'
  · simp only [get_deleteAll] at ho
    split at ho
    · nomatch ho
    next hnot =>
    obtain ⟨⟨d', hd', rfl⟩, hmem⟩ := h.spender o t ho
    have hne : d'.tx.txHash ≠ hash := by
      intro heq
      rw [heq, hd, Option.some.injEq] at hd'
      exact hnot (hd' ▸ hmem)
    exact ⟨⟨d', by simp only [GoMap.get_delete, if_neg hne, hd'], rfl⟩, hmem⟩

omit [ChainHash H] in
theorem get_removeEntry (hash hash' : H) :
    (mp.removeEntry hash).pool.get hash' = if hash' = hash then none else mp.pool.get hash' := by
  unfold removeEntry
  split
  next hnone =>
    split
    next heq => rw [heq, hnone]
    · rfl
  · exact GoMap.get_delete _ _ _

section
variable {P : TxPool H → Prop} {depth : Nat}

omit [ChainHash H] [DecidableEq H] in
theorem removeAll_induct {remove : TxPool H → MsgTx H → Except (Stop H) (TxPool H)}
    (hremove : ∀ mp t mp', P mp → remove mp t = .ok mp' → P mp') (h : P mp)
    (hrun : removeAll remove outpoints mp = .ok mp') : P mp' := by
  induction outpoints generalizing mp with
  | nil =>
    cases hrun
    exact h
  | cons o outpoints ih =>
    rw [removeAll] at hrun
    split at hrun
    · exact ih h hrun
    · obtain ⟨mp₁, hone, hrun⟩ := bind_eq_ok.1 hrun
      exact ih (hremove _ _ _ h hone) hrun

section
variable (hP : ∀ mp hash, P mp → P (mp.removeEntry hash)) (h : P mp)
include hP h

theorem removeRedeemers_induct (hrun : removeRedeemers depth mp tx = .ok mp') : P mp' := by
  induction depth generalizing mp mp' tx with
  | zero => nomatch hrun
  | succ depth ih =>
    simp only [removeRedeemers, ok_rules] at hrun
    obtain ⟨mp₁, hall, rfl⟩ := hrun
    exact hP _ _ (removeAll_induct (fun _ _ _ h hone => ih h hone) h hall)

theorem removeTransaction_induct {redeemers : Bool}
    (hrun : removeTransaction depth mp tx redeemers = .ok mp') : P mp' := by
  unfold removeTransaction at hrun
  split at hrun
  · exact removeRedeemers_induct hP h hrun
  · cases hrun
    exact hP _ _ h

theorem removeDoubleSpends_induct (hrun : removeDoubleSpends depth mp tx = .ok mp') : P mp' := by
  refine removeAll_induct (fun mp₁ t mp₂ h hone => ?_) h hrun
  split at hone
  · cases hone
    exact h
  · exact removeRedeemers_induct hP h hone

end

end

/-! ## Adding -/

theorem Inv.addTransaction (h : mp.Inv) (hfresh : mp.pool.get tx.txHash = none) (view : UtxoViewpoint H)
    (height fee : Int) : (mp.addTransaction view tx height fee).2.Inv := by
  refine ⟨fun hash d hd => ?_, fun o t ho => ?_⟩
  · simp only [TxPool.addTransaction, GoMap.get_set] at hd
    split at hd
    · next heq =>
      cases hd
      exact heq.symm
    · exact h.keyed hash d hd
  · simp only [TxPool.addTransaction, get_setAll] at ho
    split at ho
    · next hmem =>
      cases ho
      exact ⟨⟨_, GoMap.get_set_self _ _ _, rfl⟩, hmem⟩
    · obtain ⟨⟨d, hd, rfl⟩, hmem⟩ := h.spender o t ho
      have hne : d.tx.txHash ≠ tx.txHash := by
        intro heq
        rw [heq, hfresh] at hd
        nomatch hd
      exact ⟨⟨d, (GoMap.get_set_ne _ _ hne).trans hd, rfl⟩, hmem⟩

theorem evict_induct (hP : ∀ mp hash, P mp → P (mp.removeEntry hash)) {conflicts : List (MsgTx H)}
    (h : P mp) (hrun : evict conflicts mp = .ok mp') : P mp' := by
  induction conflicts generalizing mp with
  | nil =>
    cases hrun
    exact h
  | cons conflict conflicts ih =>
    simp only [evict, ok_rules] at hrun
    obtain ⟨_, -, hrun⟩ := hrun
    exact ih (hP _ _ h) hrun

variable [Primitives] {cfg : Config H} {chain : ChainView H} {candidate : Candidate H}

theorem Inv.commit {txD : TxDesc H} (h : mp.Inv) (hfresh : mp.pool.get tx.txHash = none)
    (hrun : mp.commit cfg chain tx candidate = .ok (txD, mp')) : mp'.Inv := by
  simp only [TxPool.commit, ok_rules] at hrun
  obtain ⟨conflicts, -, -, mp₁, hevict, hadd⟩ := hrun
  have h₁ : mp₁.Inv := evict_induct (fun _ hash h => h.removeEntry hash) h hevict
  have hfresh₁ : mp₁.pool.get tx.txHash = none :=
    evict_induct (P := fun mp => mp.pool.get tx.txHash = none) (fun _ _ h => by simp [get_removeEntry, h]) hfresh hevict
  have hinv := h₁.addTransaction hfresh₁ candidate.view chain.tip.height candidate.txFee
  rw [hadd] at hinv
  exact hinv

omit [DecidableEq H] [Primitives] in
theorem limitRate_same (mp : TxPool H) (cfg : Config H) (tx : MsgTx H) (nowUnix : Int) :
    (mp.limitRate cfg tx nowUnix).2.pool = mp.pool ∧ (mp.limitRate cfg tx nowUnix).2.outpoints = mp.outpoints := by
  unfold limitRate
  simp only
  split <;> exact ⟨rfl, rfl⟩

/-- The transaction passes all checks up to the one of its inputs, which sees the view. -/
structure Admissible (mp : TxPool H) (cfg : Config H) (chain : ChainView H) (tx : MsgTx H) (rejectDupOrphans : Bool)
    (view : UtxoViewpoint H) : Prop where
  segwit : checkSegwit cfg chain tx = .ok ()
  fresh : mp.pool.get tx.txHash = none
  noOrphan : rejectDupOrphans → mp.orphans.get tx.txHash = none
  sane : checkTransactionSanity tx = .ok ()
  standalone : isCoinBase tx = false
  standard : cfg.policy.acceptNonStd = false → checkTransactionStandard tx (nextBlockHeight chain)
    (medianTimePast cfg chain) cfg.policy.minRelayTxFee cfg.policy.maxTxVersion = .ok ()
  replaceable : ∃ isReplacement, mp.checkPoolDoubleSpend cfg tx = .ok isReplacement
  unmined : dropOwnOutputs (ownOutputs tx) (mp.fetchInputUtxos cfg chain tx) = .ok view
  parents : checkMissingParents tx (missingParents view tx) = .ok ()
  locks : checkLocks cfg chain tx view = .ok ()
  inputs : ∃ fee ages, checkTransactionInputs tx (nextBlockHeight chain) view cfg.chain.coinbaseMaturity = .ok (fee, ages)

theorem checkRules_eq_ok {rejectDupOrphans : Bool} {view : UtxoViewpoint H} :
    (∃ c, mp.checkRules cfg chain tx rejectDupOrphans = .ok c ∧ c.view = view) ↔
      mp.Admissible cfg chain tx rejectDupOrphans view := by
  simp only [checkRules, ok_rules, not_or, not_and, Bool.not_eq_true]
  simp only [isTransactionInPool, isOrphanInPool, Option.isSome_eq_false_iff, Option.isNone_iff_eq_none]
  constructor
  · rintro ⟨c, ⟨h₁, ⟨h₂, h₂'⟩, h₃, h₄, h₅, r, h₆, v, h₇, h₈, h₉, fee, ages, h₁₀, rfl⟩, rfl⟩
    exact ⟨h₁, h₂, h₂', h₃, h₄, h₅, ⟨r, h₆⟩, h₇, h₈, h₉, ⟨fee, ages, h₁₀⟩⟩
  · rintro ⟨h₁, h₂, h₂', h₃, h₄, h₅, ⟨r, h₆⟩, h₇, h₈, h₉, ⟨fee, ages, h₁₀⟩⟩
    exact ⟨_, ⟨h₁, ⟨h₂, h₂'⟩, h₃, h₄, h₅, r, h₆, view, h₇, h₈, h₉, fee, ages, h₁₀, rfl⟩, rfl⟩

/-- How a transaction is refused or accepted. The rate limiter changes none of the maps. -/
theorem maybeAcceptTransaction_cases (mp : TxPool H) (cfg : Config H) (chain : ChainView H) (tx : MsgTx H)
    (isNew rateLimit rejectDupOrphans : Bool) (nowUnix : Int) :
    ∃ mp₁ : TxPool H, mp₁.pool = mp.pool ∧ mp₁.outpoints = mp.outpoints ∧
      ((∃ e, mp.maybeAcceptTransaction cfg chain tx isNew rateLimit rejectDupOrphans nowUnix = (.error e, mp₁)) ∨
        ∃ candidate txD mp', mp.checkRules cfg chain tx rejectDupOrphans = .ok candidate ∧
          mp₁.commit cfg chain tx candidate = .ok (txD, mp') ∧
          mp.maybeAcceptTransaction cfg chain tx isNew rateLimit rejectDupOrphans nowUnix = (.ok txD, mp')) := by
  unfold maybeAcceptTransaction
  split
  · exact ⟨mp, rfl, rfl, .inl ⟨_, rfl⟩⟩
  next candidate hrules =>
  split
  · exact ⟨mp, rfl, rfl, .inl ⟨_, rfl⟩⟩
  have hlimited : ∀ r mp₁, (if rateLimit && candidate.txFee < minFee cfg tx then mp.limitRate cfg tx nowUnix
      else (.ok (), mp)) = (r, mp₁) → mp₁.pool = mp.pool ∧ mp₁.outpoints = mp.outpoints := by
    intro r mp₁ heq
    have hsame := limitRate_same mp cfg tx nowUnix
    split at heq
    · rwa [heq] at hsame
    · cases heq
      exact ⟨rfl, rfl⟩
  split
  next e mp₁ heq => exact ⟨mp₁, (hlimited _ _ heq).1, (hlimited _ _ heq).2, .inl ⟨e, rfl⟩⟩
  next mp₁ heq =>
    refine ⟨mp₁, (hlimited _ _ heq).1, (hlimited _ _ heq).2, ?_⟩
    split
    next e _ => exact .inl ⟨e, rfl⟩
    next txD mp' hcommit => exact .inr ⟨candidate, txD, mp', hrules, hcommit, rfl⟩

end TxPool

/-- The pools that a node can come to, over any chains. A panic ends the program. -/
inductive Reachable [Primitives] (cfg : Config H) : TxPool H → Prop where
  | new : Reachable cfg (new H)
  | accept {mp : TxPool H} (chain : ChainView H) (tx : MsgTx H) (isNew rateLimit rejectDupOrphans : Bool) (nowUnix : Int) :
      Reachable cfg mp →
      (∀ what, (mp.maybeAcceptTransaction cfg chain tx isNew rateLimit rejectDupOrphans nowUnix).1 ≠ .error (.panic what)) →
      Reachable cfg (mp.maybeAcceptTransaction cfg chain tx isNew rateLimit rejectDupOrphans nowUnix).2
  | remove {mp mp' : TxPool H} (tx : MsgTx H) (redeemers : Bool) : Reachable cfg mp →
      removeTransaction cfg.depth mp tx redeemers = .ok mp' → Reachable cfg mp'
  | doubleSpends {mp mp' : TxPool H} (tx : MsgTx H) : Reachable cfg mp →
      removeDoubleSpends cfg.depth mp tx = .ok mp' → Reachable cfg mp'
  | orphans {mp : TxPool H} (orphans : GoMap H (MsgTx H)) : Reachable cfg mp → Reachable cfg { mp with orphans }

theorem Reachable.induct [Primitives] (hnew : P (TxPool.new H))
    (hcongr : ∀ mp mp' : TxPool H, mp'.pool = mp.pool → mp'.outpoints = mp.outpoints → P mp → P mp')
    (hremove : ∀ mp hash, P mp → P (mp.removeEntry hash))
    (haccept : ∀ (mp mp₁ mp' : TxPool H) chain tx rejectDupOrphans candidate txD,
      mp.checkRules cfg chain tx rejectDupOrphans = .ok candidate → mp₁.pool = mp.pool → mp₁.outpoints = mp.outpoints →
      mp₁.commit cfg chain tx candidate = .ok (txD, mp') → P mp → P mp') (h : Reachable cfg mp) : P mp := by
  induction h with
  | new => exact hnew
  | @accept mp chain tx isNew rateLimit rejectDupOrphans nowUnix _ _ ih =>
    obtain ⟨mp₁, hpool, houtpoints, ⟨e, he⟩ | ⟨candidate, txD, mp', hrules, hcommit, hok⟩⟩ :=
      mp.maybeAcceptTransaction_cases cfg chain tx isNew rateLimit rejectDupOrphans nowUnix
    · rw [he]
      exact hcongr mp mp₁ hpool houtpoints ih
    · rw [hok]
      exact haccept mp mp₁ mp' chain tx rejectDupOrphans candidate txD hrules hpool houtpoints hcommit ih
  | remove tx redeemers _ hrun ih => exact removeTransaction_induct hremove ih hrun
  | doubleSpends tx _ hrun ih => exact removeDoubleSpends_induct hremove ih hrun
  | @orphans mp orphans _ ih => exact hcongr mp _ rfl rfl ih

theorem Reachable.inv [Primitives] (h : Reachable cfg mp) : mp.Inv := by
  refine h.induct .new (fun _ _ hpool houtpoints h => h.congr hpool houtpoints) (fun _ hash h => h.removeEntry hash) ?_
  intro mp mp₁ mp' chain tx rejectDupOrphans candidate txD hrules hpool houtpoints hcommit h
  refine (h.congr hpool houtpoints).commit ?_ hcommit
  rw [hpool]
  exact (checkRules_eq_ok.1 ⟨candidate, hrules, rfl⟩).fresh

/-! ## Calls along the pool -/

/-- Transactions rank above those they spend from, and calls have room for all ranks: no transaction spends from itself over
others, as its hash would have to be known before it is made. -/
structure Layered (depth : Nat) (mp : TxPool H) (rank : H → Nat) : Prop where
  spends : ∀ tx, mp.Holds tx → ∀ txIn ∈ tx.txIn, rank txIn.previousOutPoint.hash < rank tx.txHash
  bounded : ∀ h, rank h + 1 < depth

omit [DecidableEq H] in
theorem Layered.congr {rank : H → Nat} {depth : Nat} (h : Layered depth mp rank) (hpool : mp'.pool = mp.pool) :
    Layered depth mp' rank := by
  refine ⟨fun tx htx => h.spends tx ?_, h.bounded⟩
  rw [Holds, hpool] at htx
  exact htx

namespace TxPool
variable {rank : H → Nat} {depth n : Nat} {txs result conflicts : List (MsgTx H)} {t : MsgTx H}

section
omit [ChainHash H] [DecidableEq H]

theorem not_isPanic_txRule {c : RejectCode} {desc : String} : ¬(txRuleError c desc : Stop H).IsPanic :=
  fun ⟨_, h⟩ => nomatch h

end

section
omit [ChainHash H]

theorem signalsInputs_avoids {visit : MsgTx H → GoMap H Unit → Except (Stop H) (Bool × GoMap H Unit)}
    {txIns : List (TxIn H)} (hvisit : ∀ txIn ∈ txIns, ∀ d, mp.pool.get txIn.previousOutPoint.hash = some d →
      ∀ cache, Avoids Stop.IsPanic (visit d.tx cache)) (cache : GoMap H Unit) :
    Avoids Stop.IsPanic (mp.signalsInputs visit txIns cache) := by
  induction txIns generalizing cache with
  | nil => exact avoids_ok
  | cons txIn txIns ih =>
    rw [forall_mem_cons] at hvisit
    unfold signalsInputs
    split
    · exact avoids_ok
    split
    · exact ih hvisit.2 cache
    next d hd =>
    split
    · exact ih hvisit.2 cache
    · refine avoids_bind.2 ⟨hvisit.1 d hd cache, ?_⟩
      rintro ⟨signals, cache'⟩ -
      dsimp only
      split
      · exact avoids_ok
      · exact ih hvisit.2 _

end

theorem signalsReplacement_avoids (hinv : mp.Inv) (hlayered : Layered depth mp rank) (htx : mp.Holds tx)
    (hn : rank tx.txHash < n) (cache : GoMap H Unit) : Avoids Stop.IsPanic (mp.signalsReplacement n tx cache) := by
  induction n generalizing tx cache with
  | zero => exact absurd hn (Nat.not_lt_zero _)
  | succ n ih =>
    refine signalsInputs_avoids (fun txIn hmem d hd => ih (hinv.holds hd) ?_) cache
    have := hlayered.spends tx htx txIn hmem
    rw [hinv.keyed _ _ hd]
    omega

theorem isReplaceable_avoids (hinv : mp.Inv) (hlayered : Layered cfg.depth mp rank) (htx : mp.Holds tx) :
    Avoids Stop.IsPanic (mp.isReplaceable cfg tx) := by
  unfold isReplaceable
  split
  · exact avoids_ok
  · have := hlayered.bounded tx.txHash
    exact avoids_bind.2 ⟨signalsReplacement_avoids hinv hlayered htx (by omega) .empty, fun _ _ => avoids_ok⟩

theorem checkDoubleSpends_avoids (hinv : mp.Inv) (hlayered : Layered cfg.depth mp rank)
    (txIns : List (TxIn H)) (isReplacement : Bool) :
    Avoids Stop.IsPanic (mp.checkDoubleSpends cfg txIns isReplacement) := by
  induction txIns generalizing isReplacement with
  | nil => exact avoids_ok
  | cons txIn txIns ih =>
    unfold checkDoubleSpends
    split
    · exact ih _
    · next conflict hconflict =>
      refine avoids_bind.2 ⟨isReplaceable_avoids hinv hlayered (hinv.spender _ _ hconflict).1, fun _ _ => ?_⟩
      exact avoids_check not_isPanic_txRule fun _ => ih true

section
omit [DecidableEq H]

theorem mem_parents (hinv : mp.Inv) (h : t ∈ mp.parents tx) :
    mp.Holds t ∧ ∃ txIn ∈ tx.txIn, t.txHash = txIn.previousOutPoint.hash := by
  obtain ⟨txIn, hmem, hsome⟩ := mem_filterMap.1 h
  obtain ⟨d, hd, rfl⟩ := Option.map_eq_some_iff.1 hsome
  exact ⟨hinv.holds hd, txIn, hmem, hinv.keyed _ _ hd⟩

theorem mem_redeemersOf (hinv : mp.Inv) (h : t ∈ mp.redeemersOf outpoints) :
    mp.Holds t ∧ ∃ o ∈ outpoints, ∃ txIn ∈ t.txIn, txIn.previousOutPoint = o := by
  obtain ⟨o, hmem, hsome⟩ := mem_filterMap.1 h
  obtain ⟨hholds, hin⟩ := hinv.spender o t hsome
  obtain ⟨txIn, htxIn, rfl⟩ := mem_map.1 hin
  exact ⟨hholds, _, hmem, txIn, htxIn, rfl⟩

end

omit [DecidableEq H] in
theorem Holds.eq (h : mp.Holds t) (h' : mp.Holds tx) (heq : t.txHash = tx.txHash) : t = tx := by
  obtain ⟨d, hd, rfl⟩ := h
  obtain ⟨d', hd', rfl⟩ := h'
  rw [heq, hd', Option.some.injEq] at hd
  rw [hd]

omit [DecidableEq H] in
theorem holds_injOn : Set.InjOn MsgTx.txHash {t | mp.Holds t} := fun _ h _ h' => Holds.eq h h'

theorem txAncestors_avoids (hinv : mp.Inv) (hlayered : Layered depth mp rank) (cache : Cache H) :
    Avoids Stop.IsPanic (mp.txAncestors depth tx cache) := by
  obtain ⟨n, rfl⟩ : ∃ n, depth = n + 1 := ⟨depth - 1, by have := hlayered.bounded tx.txHash; omega⟩
  refine Walk.avoids_search {t | mp.Holds t} (fun t => rank t.txHash) (fun _ _ hc => (mem_parents hinv hc).1)
    (fun t ht c hc => ?_) (fun c _ => ?_) cache
  · obtain ⟨-, txIn, hmem, hhash⟩ := mem_parents hinv hc
    rw [hhash]
    exact hlayered.spends t ht txIn hmem
  · have := hlayered.bounded c.txHash
    omega

theorem txDescendants_avoids (hinv : mp.Inv) (hlayered : Layered depth mp rank) (cache : Cache H) :
    Avoids Stop.IsPanic (mp.txDescendants depth tx cache) := by
  have hrises : ∀ t, ∀ c ∈ mp.redeemersOf (ownOutputs t), rank t.txHash < rank c.txHash := by
    intro t c hc
    obtain ⟨hholds, o, ho, txIn, hmem, rfl⟩ := mem_redeemersOf hinv hc
    obtain ⟨i, -, hi⟩ := mem_map.1 ho
    have := hlayered.spends c hholds txIn hmem
    rwa [← hi] at this
  obtain ⟨n, rfl⟩ : ∃ n, depth = n + 1 := ⟨depth - 1, by have := hlayered.bounded tx.txHash; omega⟩
  refine Walk.avoids_search {t | mp.Holds t} (fun t => n - rank t.txHash)
    (fun _ _ hc => (mem_redeemersOf hinv hc).1) (fun t _ c hc => ?_) (fun c hc => ?_) cache
  · have := hrises t c hc
    have := hlayered.bounded c.txHash
    omega
  · have := hrises tx c hc
    have := hlayered.bounded c.txHash
    omega

/-! ## Conflicts -/

abbrev Distinct (mp : TxPool H) (txs : List (MsgTx H)) : Prop := Walk.Distinct {t | mp.Holds t} MsgTx.txHash txs

section
omit [DecidableEq H]

theorem checkFeeRates_avoids (h : ∀ t ∈ conflicts, mp.Holds t) (rate fee : Int) :
    Avoids Stop.IsPanic (mp.checkFeeRates tx rate conflicts fee) := by
  induction conflicts generalizing fee with
  | nil => exact avoids_ok
  | cons t conflicts ih =>
    rw [forall_mem_cons] at h
    obtain ⟨⟨d, hd, -⟩, hrest⟩ := h
    refine avoids_bind.2 ⟨avoids_orFail.2 fun hnone => ?_, fun _ _ => ?_⟩
    · rw [hd] at hnone
      nomatch hnone
    · exact avoids_check not_isPanic_txRule fun _ => ih hrest _

end

/-- The walks keep to the transactions of the pool, and find all that can be reached. -/
theorem txAncestors_closure (hinv : mp.Inv) {cache : Cache H} (hrun : mp.txAncestors n tx .empty = .ok (result, cache)) :
    Walk.Closure {t | mp.Holds t} MsgTx.txHash mp.parents tx result :=
  (Walk.search_spec holds_injOn (fun _ _ hc => (mem_parents hinv hc).1) .empty hrun).1

theorem txDescendants_closure (hinv : mp.Inv) {cache : Cache H}
    (hrun : mp.txDescendants n tx .empty = .ok (result, cache)) :
    Walk.Closure {t | mp.Holds t} MsgTx.txHash (fun tx => mp.redeemersOf (ownOutputs tx)) tx result :=
  (Walk.search_spec holds_injOn (fun _ _ hc => (mem_redeemersOf hinv hc).1) .empty hrun).1

theorem txConflicts_spec (hinv : mp.Inv) (hrun : mp.txConflicts n tx = .ok result) :
    mp.Distinct result ∧ ∀ c, c ∈ result ↔ ∃ t ∈ mp.redeemersOf (tx.txIn.map TxIn.previousOutPoint),
      Relation.ReflTransGen (fun a b => b ∈ mp.redeemersOf (ownOutputs a)) t c := by
  simp only [txConflicts, ok_rules] at hrun
  obtain ⟨_, cache, hrun, rfl⟩ := hrun
  obtain ⟨hdistinct, hmem, -⟩ := Walk.gather_spec (fun _ => True) holds_injOn
    (fun t _ _ more _ _ hmore => ⟨txDescendants_closure hinv hmore, trivial⟩)
    (fun _ ht => (mem_redeemersOf hinv ht).1) .nil trivial hrun
  exact ⟨hdistinct, by simpa using hmem⟩

theorem evict_avoids (h : mp.Distinct conflicts) : Avoids Stop.IsPanic (evict conflicts mp) := by
  induction conflicts generalizing mp with
  | nil => exact avoids_ok
  | cons t conflicts ih =>
    obtain ⟨hheld, hhashes⟩ := h
    rw [forall_mem_cons] at hheld
    rw [pairwise_cons] at hhashes
    obtain ⟨⟨d, hd, -⟩, hrest⟩ := hheld
    refine avoids_bind.2 ⟨avoids_orFail.2 fun hnone => ?_, fun _ _ => ih ⟨fun t' ht' => ?_, hhashes.2⟩⟩
    · rw [hd] at hnone
      nomatch hnone
    · obtain ⟨d', hd', htx⟩ := hrest t' ht'
      exact ⟨d', by rw [get_removeEntry, if_neg (hhashes.1 t' ht').symm, hd'], htx⟩

theorem validateReplacement_avoids (hinv : mp.Inv) (hlayered : Layered cfg.depth mp rank) (fee : Int) :
    Avoids Stop.IsPanic (mp.validateReplacement cfg tx fee) := by
  have hconflicts : Avoids Stop.IsPanic (mp.txConflicts cfg.depth tx) :=
    avoids_bind.2 ⟨Walk.avoids_gather (fun _ _ _ => txDescendants_avoids hinv hlayered .empty) _, fun _ _ => avoids_ok⟩
  refine avoids_bind.2 ⟨hconflicts, fun conflicts hconflicts => ?_⟩
  refine avoids_check not_isPanic_txRule fun _ => ?_
  refine avoids_bind.2 ⟨txAncestors_avoids hinv hlayered .empty, ?_⟩
  rintro ⟨ancestors, cache⟩ -
  dsimp only
  split
  · exact avoids_error.2 not_isPanic_txRule
  refine avoids_bind.2 ⟨checkFeeRates_avoids (txConflicts_spec hinv hconflicts).1.held _ _, fun _ _ => ?_⟩
  refine avoids_check not_isPanic_txRule fun _ => ?_
  split
  · exact avoids_error.2 not_isPanic_txRule
  · exact avoids_ok

theorem validateReplacement_distinct (hinv : mp.Inv) {fee : Int}
    (h : mp.validateReplacement cfg tx fee = .ok conflicts) : mp.Distinct conflicts := by
  obtain ⟨conflicts', hconflicts, h⟩ := bind_eq_ok.1 h
  obtain ⟨-, -, h⟩ := bind_eq_ok.1 h
  obtain ⟨⟨ancestors, cache⟩, -, h⟩ := bind_eq_ok.1 h
  dsimp only at h
  split at h
  · nomatch h
  simp only [bind_eq_ok] at h
  obtain ⟨_, -, -, -, h⟩ := h
  split at h
  · nomatch h
  · cases h
    exact (txConflicts_spec hinv hconflicts).1

end TxPool

end Jaxnetd.Mempool
