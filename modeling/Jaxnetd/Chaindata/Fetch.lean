import Jaxnetd.Chaindata.ViewOps
import Jaxnetd.Lib.Runs

/-!
# What `FetchInputUtxos` puts into a fresh view

An input whose transaction stands earlier in the block is not looked up in the database: all outputs of that transaction are
added to the view before it is connected. Every other input is looked up. `Fetched` says so; its list `needed` separates the
two.
-/

namespace Jaxnetd.Chaindata
open Wire TxScript Checks UtxoViewpoint List

variable {H : Type} [DecidableEq H] [ChainHash H]

def SpentLater (txs : List (MsgTx H)) (tx : MsgTx H) : Prop :=
  ∃ pre post, txs = pre ++ tx :: post ∧
    ∃ later ∈ post, ∃ txIn ∈ later.txIn, txIn.previousOutPoint.hash = tx.txHash

/-- The entry is an output of the transaction, added before the transaction is connected. -/
def AddedEarly (view : UtxoViewpoint H) (height : Int) (tx : MsgTx H) (o : OutPoint H) : Prop :=
  ∃ d, outputAt tx height o = some d ∧ view.entries.get o = some (some ⟨d, false, true⟩)

structure Fetched (db : UtxoSet H) (txs : List (MsgTx H)) (height : Int) (view : UtxoViewpoint H)
    (needed : List (OutPoint H)) : Prop where
  looked_up : ∀ o ∈ needed, view.entries.get o = some (fetchUtxoEntry db o)
  others : ∀ o ∉ needed, view.entries.get o = none ∨ ∃ tx ∈ txs, SpentLater txs tx ∧ AddedEarly view height tx o
  inputs : ∀ pre tx post, txs = pre ++ tx :: post → pre ≠ [] → ∀ txIn ∈ tx.txIn,
    txIn.previousOutPoint ∈ needed ∨ ∃ tx' ∈ pre, tx'.txHash = txIn.previousOutPoint.hash

namespace UtxoViewpoint

omit [ChainHash H] in
theorem get_fetchUtxosMain (db : UtxoSet H) (os : List (OutPoint H)) (view : UtxoViewpoint H) (o : OutPoint H) :
    (view.fetchUtxosMain db os).entries.get o = if o ∈ os then some (fetchUtxoEntry db o) else view.entries.get o := by
  induction os generalizing view with
  | nil => simp [fetchUtxosMain]
  | cons o' os ih =>
    rw [fetchUtxosMain, ih, get_setEntry]
    by_cases h : o = o' <;> simp [h]

variable {txs pre post : List (MsgTx H)} {i : Nat}

theorem get_txInFlight (hdistinct : (txs.map MsgTx.txHash).Nodup) {hash : H} {j : Nat} :
    (txInFlight txs).get hash = some j ↔ ∃ tx, txs[j]? = some tx ∧ tx.txHash = hash := by
  let rows := txs.zipIdx.map fun p => (p.1.txHash, p.2)
  have hrows : txInFlight txs = Ledger.setAll .empty rows := by
    simp only [rows, txInFlight, Ledger.setAll, foldl_map]
  have hkeys : rows.map Prod.fst = txs.map MsgTx.txHash := by
    conv_rhs => rw [← zipIdx_map_fst 0 txs]
    simp only [rows, map_map, Function.comp_def]
  have hmem : ∀ {tx j}, txs[j]? = some tx → (txInFlight txs).get tx.txHash = some j := by
    intro tx j htx
    rw [hrows]
    exact Ledger.get_setAll_of_mem (hkeys ▸ hdistinct)
      (mem_map.2 ⟨(tx, j), mem_zipIdx_iff_getElem?.2 htx, rfl⟩)
  constructor
  · intro hget
    by_cases hhash : hash ∈ rows.map Prod.fst
    · rw [hkeys, mem_map] at hhash
      obtain ⟨tx, htx, rfl⟩ := hhash
      obtain ⟨j', hj'⟩ := mem_iff_getElem?.1 htx
      rw [hmem hj', Option.some.injEq] at hget
      exact ⟨tx, hget ▸ hj', rfl⟩
    · rw [hrows, Ledger.get_setAll_of_notMem hhash] at hget
      cases hget
  · rintro ⟨tx, htx, rfl⟩
    exact hmem htx

theorem inFlight_eq_some (hdistinct : ((pre ++ post).map MsgTx.txHash).Nodup) (hi : pre.length = i + 1) {hash : H}
    {tx : MsgTx H} : (((txInFlight (pre ++ post)).get hash).filter (· ≤ i)).bind ((pre ++ post)[·]?) = some tx ↔
      tx ∈ pre ∧ tx.txHash = hash := by
  simp only [Option.bind_eq_some_iff, Option.filter_eq_some_iff, get_txInFlight hdistinct, decide_eq_true_eq]
  constructor
  · rintro ⟨j, ⟨⟨tx', htx', rfl⟩, hj⟩, htx⟩
    rw [htx', Option.some.injEq] at htx
    subst htx
    rw [getElem?_append_left (by omega)] at htx'
    exact ⟨mem_of_getElem? htx', rfl⟩
  · rintro ⟨hmem, rfl⟩
    obtain ⟨j, hj⟩ := mem_iff_getElem?.1 hmem
    have hlt : j < pre.length := (List.getElem?_eq_some_iff.1 hj).1
    have hget : (pre ++ post)[j]? = some tx := by rw [getElem?_append_left hlt, hj]
    exact ⟨j, ⟨⟨tx, hget, rfl⟩, by omega⟩, hget⟩

/-- Every entry so far is an output of a transaction that was passed, and that a later one names. -/
def EarlyOnly (txs pre : List (MsgTx H)) (height : Int) (view : UtxoViewpoint H) : Prop :=
  ∀ o, view.entries.get o = none ∨ ∃ tx ∈ pre, SpentLater txs tx ∧ AddedEarly view height tx o

theorem EarlyOnly.addTxOuts {height : Int} {view : UtxoViewpoint H} {tx : MsgTx H}
    (h : EarlyOnly txs pre height view) (htx : tx ∈ pre) (hlater : SpentLater txs tx) :
    EarlyOnly txs pre height (view.addTxOuts tx height) := by
  intro o
  unfold AddedEarly
  rw [get_addTxOuts]
  rcases hd : outputAt tx height o with _ | d
  · simpa [AddedEarly] using h o
  · exact Or.inr ⟨tx, htx, hlater, d, hd, rfl⟩

theorem fetchInputs_spec (hdistinct : ((pre ++ post).map MsgTx.txHash).Nodup) (hi : pre.length = i + 1)
    {height : Int} {txIns : List (TxIn H)}
    (hlater : ∀ tx ∈ pre, ∀ txIn ∈ txIns, txIn.previousOutPoint.hash = tx.txHash → SpentLater (pre ++ post) tx)
    {view : UtxoViewpoint H} {needed : List (OutPoint H)} (hearly : EarlyOnly (pre ++ post) pre height view) :
    EarlyOnly (pre ++ post) pre height (fetchInputs (pre ++ post) height i txIns (view, needed)).1 ∧
      needed ⊆ (fetchInputs (pre ++ post) height i txIns (view, needed)).2 ∧
      ∀ txIn ∈ txIns, txIn.previousOutPoint ∈ (fetchInputs (pre ++ post) height i txIns (view, needed)).2 ∨
        ∃ tx ∈ pre, tx.txHash = txIn.previousOutPoint.hash := by
  induction txIns generalizing view needed with
  | nil => exact ⟨hearly, List.Subset.refl _, by simp⟩
  | cons txIn txIns ih =>
    have hrest : ∀ tx ∈ pre, ∀ txIn ∈ txIns, txIn.previousOutPoint.hash = tx.txHash → SpentLater (pre ++ post) tx :=
      fun tx htx txIn h => hlater tx htx txIn (mem_cons_of_mem _ h)
    simp only [fetchInputs]
    split
    · next tx hfound =>
      obtain ⟨htx, hhash⟩ := (inFlight_eq_some hdistinct hi).1 hfound
      have hadded := hearly.addTxOuts htx (hlater tx htx txIn mem_cons_self hhash.symm)
      obtain ⟨h1, h2, h3⟩ := ih hrest hadded
      exact ⟨h1, h2, forall_mem_cons.2 ⟨Or.inr ⟨tx, htx, hhash⟩, h3⟩⟩
    · next hnone =>
      split
      · next hentry =>
        -- an entry belongs to a transaction that was passed, and that one would have been found
        exfalso
        rcases hearly txIn.previousOutPoint with h | ⟨tx, htx, _, d, hd, _⟩
        · simp [h] at hentry
        · have := (inFlight_eq_some hdistinct hi).2 ⟨htx, (hash_of_outputAt hd).symm⟩
          rw [hnone] at this
          cases this
      · obtain ⟨h1, h2, h3⟩ := @ih hrest view (txIn.previousOutPoint :: needed) hearly
        exact ⟨h1, fun o ho => h2 (mem_cons_of_mem _ ho),
          forall_mem_cons.2 ⟨Or.inl (h2 mem_cons_self), h3⟩⟩

theorem fetchTxs_spec (hdistinct : (txs.map MsgTx.txHash).Nodup) {height : Int} {i : Nat}
    {pre rest : List (MsgTx H)} (htxs : txs = pre ++ rest) (hi : pre.length = i + 1) {view : UtxoViewpoint H}
    {needed : List (OutPoint H)} (hearly : EarlyOnly txs pre height view)
    (hinputs : ∀ p tx q, pre = p ++ tx :: q → p ≠ [] → ∀ txIn ∈ tx.txIn,
      txIn.previousOutPoint ∈ needed ∨ ∃ tx' ∈ p, tx'.txHash = txIn.previousOutPoint.hash) :
    EarlyOnly txs txs height (fetchTxs txs height i rest (view, needed)).1 ∧
      ∀ p tx q, txs = p ++ tx :: q → p ≠ [] → ∀ txIn ∈ tx.txIn,
        txIn.previousOutPoint ∈ (fetchTxs txs height i rest (view, needed)).2 ∨
          ∃ tx' ∈ p, tx'.txHash = txIn.previousOutPoint.hash := by
  induction rest generalizing pre i view needed with
  | nil =>
    rw [append_nil] at htxs
    subst htxs
    exact ⟨hearly, hinputs⟩
  | cons tx rest ih =>
    have hlater : ∀ t ∈ pre, ∀ txIn ∈ tx.txIn, txIn.previousOutPoint.hash = t.txHash → SpentLater txs t := by
      intro t ht txIn htxIn hhash
      obtain ⟨p, q, rfl⟩ := append_of_mem ht
      exact ⟨p, q ++ tx :: rest, by simp [htxs], tx, by simp, txIn, htxIn, hhash⟩
    obtain ⟨h1, h2, h3⟩ := @fetchInputs_spec _ _ _ pre (tx :: rest) i (htxs ▸ hdistinct) hi height tx.txIn
      (htxs ▸ hlater) view needed (htxs ▸ hearly)
    rw [← htxs] at h1 h2 h3
    refine ih (show txs = (pre ++ [tx]) ++ rest by simp [htxs]) (by simp [hi]) ?_ ?_
    · intro o
      rcases h1 o with h | ⟨t, ht, h⟩
      · exact Or.inl h
      · exact Or.inr ⟨t, mem_append_left _ ht, h⟩
    · intro p t q hsplit hp txIn htxIn
      rcases Runs.concat_eq_append_cons hsplit with ⟨rfl, rfl⟩ | ⟨q', hpre⟩
      · exact h3 txIn htxIn
      · exact (hinputs p t q' hpre hp txIn htxIn).imp_left fun h => h2 h

end UtxoViewpoint

theorem fetchTxs_fetched {txs : List (MsgTx H)} (hdistinct : (txs.map MsgTx.txHash).Nodup) (hne : txs ≠ [])
    (db : UtxoSet H) (height : Int) (beacon : Bool) (best : H) :
    Fetched db txs height ((newUtxoViewpoint beacon best).fetchInputUtxos db txs height)
      (fetchTxs txs height 0 (txs.drop 1) (newUtxoViewpoint beacon best, [])).2 := by
  obtain ⟨first, rest, rfl⟩ := exists_cons_of_ne_nil hne
  obtain ⟨hearly, hinputs⟩ := @fetchTxs_spec _ _ _ _ hdistinct height 0 [first] rest rfl rfl
    (newUtxoViewpoint beacon best) [] (fun o => Or.inl rfl) (by
      intro p tx q hsplit hp
      rcases p with _ | ⟨_, p⟩
      · exact absurd rfl hp
      · simp at hsplit)
  simp only [fetchInputUtxos, drop_one, tail_cons]
  refine ⟨?_, ?_, hinputs⟩
  · intro o ho
    rw [get_fetchUtxosMain, if_pos ho]
  · intro o ho
    unfold AddedEarly
    rw [get_fetchUtxosMain, if_neg ho]
    exact hearly o

theorem fetchInputUtxos_fetched {txs : List (MsgTx H)} (hdistinct : (txs.map MsgTx.txHash).Nodup) (hne : txs ≠ [])
    (db : UtxoSet H) (height : Int) (beacon : Bool) (best : H) :
    ∃ needed, Fetched db txs height ((newUtxoViewpoint beacon best).fetchInputUtxos db txs height) needed :=
  ⟨_, fetchTxs_fetched hdistinct hne db height beacon best⟩

end Jaxnetd.Chaindata
