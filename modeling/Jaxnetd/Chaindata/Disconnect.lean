import Jaxnetd.Chaindata.ViewOps

/-!
# What disconnecting a transaction does to a view

`DisconnectTransactions` marks the outputs of a transaction spent and puts back its inputs, from the last
to the first, with the end of the list of spent outputs. `disconnectRest_cons` is one round of its loop, with
a list that ends in the outputs that the transaction itself has spent.
-/

namespace Jaxnetd.Chaindata
open Wire TxScript Checks UtxoViewpoint List TxIn

variable {H : Type} [DecidableEq H]

namespace UtxoViewpoint
variable {view : UtxoViewpoint H}

theorem get_disconnectOuts (hash : H) (cb : Bool) (height : Int) (i : Nat) (outs : List TxOut)
    (view : UtxoViewpoint H) (o : OutPoint H) : (disconnectOuts hash cb height i outs view).entries.get o =
      match outputsFrom hash cb height i outs o with
      | some d => some (some ((view.lookupEntry o).getD ⟨d, false, false⟩).spend)
      | none => view.entries.get o := by
  induction outs generalizing i view with
  | nil => simp [disconnectOuts, outputsFrom]
  | cons out outs ih =>
    rw [disconnectOuts, ih, outputsFrom_cons]
    by_cases ho : o = ⟨hash, i⟩
    · have hlater : outputsFrom hash cb height (i + 1) outs o = none := by simp [outputsFrom, ho]
      rw [hlater, if_pos ho]
      subst ho
      by_cases hu : isUnspendable out.pkScript <;> simp [hu, spendableOut, get_setEntry]
    · have hget : ∀ e, (view.setEntry (⟨hash, i⟩ : OutPoint H) e).entries.get o = view.entries.get o := by
        intro e
        rw [get_setEntry, if_neg ho]
      have hlookup : ∀ e, (view.setEntry (⟨hash, i⟩ : OutPoint H) e).lookupEntry o = view.lookupEntry o :=
        fun e => lookupEntry_congr (hget e)
      rw [if_neg ho]
      by_cases hu : isUnspendable out.pkScript
      · simp [hu]
      · simp [hu, hget, hlookup]

variable [ChainHash H]

def ownOutput (view : UtxoViewpoint H) (o : OutPoint H) : SpentTxOut := (view.dataAt o).getD ⟨0, [], 0, false⟩

section
omit [DecidableEq H] [ChainHash H]

theorem countSpentOutputs_eq {first : MsgTx H} {rest : List (MsgTx H)} (h : ∀ tx ∈ rest, ¬tx.swapTx) :
    countSpentOutputs (first :: rest) = (rest.flatMap MsgTx.txIn).length := by
  rw [countSpentOutputs, drop_one, tail_cons, length_flatMap]
  congr 1
  exact map_congr_left fun tx htx => if_neg (h tx htx)

theorem dataAt_eq_own {o : OutPoint H} (h : view.found o) : view.dataAt o = some (view.ownOutput o) := by
  obtain ⟨e, he⟩ := Option.isSome_iff_exists.1 h
  rw [ownOutput, dataAt_of_lookup he]
  rfl

end

section
variable {view' : UtxoViewpoint H} {tx : MsgTx H} {height : Int} {stxos stxos' : Option (List SpentTxOut)}

section
variable (h : Connected view tx height stxos view' stxos') (hcb : ¬isCoinBase tx) (hswap : ¬tx.swapTx)
include h hcb hswap

theorem Connected.found_inputs : ∀ o ∈ tx.txIn.map previousOutPoint, view.found o := by
  have hspent := h.regular hcb hswap
  rw [spentBy, if_neg hcb] at hspent
  exact filter_eq_self.1 hspent

theorem Connected.records : stxos' = stxos.map (· ++ (tx.txIn.map previousOutPoint).map view.ownOutput) := by
  have hown : (tx.txIn.map previousOutPoint).filterMap view.dataAt =
      (tx.txIn.map previousOutPoint).map view.ownOutput := by
    rw [← congrFun filterMap_eq_map (tx.txIn.map previousOutPoint)]
    exact filterMap_congr fun o ho => dataAt_eq_own (h.found_inputs hcb hswap o ho)
  rw [h.stxos, h.regular hcb hswap, hown]

end

end

variable (db : UtxoSet H)

theorem restoreInputs_own (hash : H) {own : OutPoint H → SpentTxOut} {txIns : List (TxIn H)}
    (hheight : ∀ o ∈ txIns.map previousOutPoint, (own o).height ≠ 0) (view : UtxoViewpoint H) :
    ∃ view', (∀ left, restoreInputs db hash txIns ((txIns.map previousOutPoint).map own ++ left) view =
        .ok (view', left)) ∧
      ∀ o, view'.entries.get o =
        if o ∈ txIns.map previousOutPoint then some (some ⟨own o, false, true⟩) else view.entries.get o := by
  induction txIns generalizing view with
  | nil => exact ⟨view, fun _ => rfl, by simp⟩
  | cons txIn txIns ih =>
    rw [map_cons, forall_mem_cons] at hheight
    obtain ⟨view', hrun, hentries⟩ := ih hheight.2
      (view.setEntry txIn.previousOutPoint (some ⟨own txIn.previousOutPoint, false, true⟩))
    refine ⟨view', fun left => ?_, fun o => ?_⟩
    · simp only [map_cons, cons_append, restoreInputs, resurrect, if_neg hheight.1]
      exact hrun left
    · rw [hentries o, get_setEntry]
      by_cases ho : o = txIn.previousOutPoint <;> simp [ho]

theorem disconnectRest_cons (height : Int) {tx : MsgTx H} {own : OutPoint H → SpentTxOut}
    (hheight : ∀ o ∈ tx.txIn.map previousOutPoint, (own o).height ≠ 0) (view : UtxoViewpoint H) :
    ∃ view', (∀ txs left, disconnectRest db height (tx :: txs)
          (((tx.txIn.map previousOutPoint).map own).reverse ++ left) view =
        disconnectRest db height txs left view') ∧
      ∀ o, view'.entries.get o = if o ∈ tx.txIn.map previousOutPoint then some (some ⟨own o, false, true⟩)
        else (disconnectOuts tx.txHash false height 0 tx.txOut view).entries.get o := by
  obtain ⟨view', hrun, hentries⟩ := @restoreInputs_own _ _ _ db tx.txHash own tx.txIn.reverse (by simpa using hheight)
    (disconnectOuts tx.txHash false height 0 tx.txOut view)
  refine ⟨view', fun txs left => ?_, fun o => ?_⟩
  · have hrev : ((tx.txIn.map previousOutPoint).map own).reverse =
        (tx.txIn.reverse.map previousOutPoint).map own := by simp
    rw [disconnectRest, hrev, hrun left]
    rfl
  · rw [hentries o]
    simp

theorem disconnectRest_append (height : Int) (txs txs' : List (MsgTx H)) (stxos : List SpentTxOut)
    (view : UtxoViewpoint H) : disconnectRest db height (txs ++ txs') stxos view =
      (disconnectRest db height txs stxos view >>= fun r => disconnectRest db height txs' r.2 r.1) := by
  induction txs generalizing stxos view with
  | nil => rfl
  | cons tx txs ih =>
    simp [disconnectRest, bind_assoc, ih]

/-! ## Entries without a height

A spent output of height zero is taken for one of an old database, and gets the height of an entry of the
transaction that spends it. -/

omit [DecidableEq H] [ChainHash H] in
theorem fetchEntryByHash_first {hash : H} {e : UtxoEntry} (h : view.lookupEntry ⟨hash, 0⟩ = some e) :
    view.fetchEntryByHash db hash = some e := by
  have hpos : 0 < maxOutputsPerBlock := by decide +kernel
  unfold fetchEntryByHash
  generalize maxOutputsPerBlock = n at hpos
  cases n with
  | zero => cases hpos
  | succ n => rw [range_succ_eq_map, findSome?_cons, h]

/-- No entry has height zero, and each of the transactions has an entry for its first output. -/
structure HeightsKnown (txs : List (MsgTx H)) (view : UtxoViewpoint H) : Prop where
  first : ∀ tx ∈ txs, (view.lookupEntry ⟨tx.txHash, 0⟩).isSome
  height : ∀ o e, view.lookupEntry o = some e → e.height ≠ 0

section
variable {txs : List (MsgTx H)}

theorem HeightsKnown.set (h : HeightsKnown txs view) (o : OutPoint H) {e : UtxoEntry} (he : e.height ≠ 0) :
    HeightsKnown txs (view.setEntry o (some e)) := by
  refine ⟨fun tx htx => ?_, fun o' e' h' => ?_⟩
  · rw [lookupEntry_setEntry]
    split
    · rfl
    · exact h.first tx htx
  · rw [lookupEntry_setEntry] at h'
    split at h'
    · cases h'
      exact he
    · exact h.height o' e' h'

theorem exists_heightsKnown (txs : List (MsgTx H)) : ∃ view, HeightsKnown txs view := by
  induction txs with
  | nil => exact ⟨newUtxoViewpoint false ChainHash.zeroHash, by simp, fun o e he => by cases he⟩
  | cons tx txs ih =>
    obtain ⟨view, h⟩ := ih
    have hset := h.set ⟨tx.txHash, 0⟩ (e := ⟨⟨0, [], 1, false⟩, false, false⟩) one_ne_zero
    exact ⟨_, forall_mem_cons.2 ⟨by simp [lookupEntry_setEntry], hset.first⟩, hset.height⟩

theorem HeightsKnown.disconnectOuts (h : HeightsKnown txs view) (hash : H) (cb : Bool) {height : Int}
    (hheight : height ≠ 0) (i : Nat) (outs : List TxOut) :
    HeightsKnown txs (disconnectOuts hash cb height i outs view) := by
  induction outs generalizing i view with
  | nil => exact h
  | cons out outs ih =>
    rw [UtxoViewpoint.disconnectOuts]
    split
    · exact ih h _
    · refine ih (h.set _ ?_) _
      cases hold : view.lookupEntry ⟨hash, i⟩ with
      | none => exact hheight
      | some e =>
        rw [Option.getD_some, UtxoEntry.spend]
        split <;> exact h.height _ e hold

theorem HeightsKnown.resurrect (h : HeightsKnown txs view) {tx : MsgTx H} (htx : tx ∈ txs) {o : OutPoint H}
    {stxo stxo' : SpentTxOut} (hrun : (if (view.lookupEntry o).isNone then
      view.setEntry o (some ⟨⟨0, [], 0, false⟩, false, false⟩) else view).resurrect db tx.txHash o stxo = .ok stxo') :
    stxo'.height ≠ 0 := by
  obtain ⟨e, he⟩ := Option.isSome_iff_exists.1 (h.first tx htx)
  -- the new entry is not at the first output, which has one
  have hfirst : (if (view.lookupEntry o).isNone then view.setEntry o (some ⟨⟨0, [], 0, false⟩, false, false⟩)
      else view).lookupEntry ⟨tx.txHash, 0⟩ = some e := by
    split
    next hnone =>
      rw [lookupEntry_setEntry, if_neg, he]
      rintro rfl
      simp [he] at hnone
    · exact he
  rw [UtxoViewpoint.resurrect, fetchEntryByHash_first db hfirst] at hrun
  split at hrun
  · cases hrun
    exact h.height _ e he
  next hne =>
    cases hrun
    exact hne

theorem HeightsKnown.restoreInputs {tx : MsgTx H} (htx : tx ∈ txs) {txIns : List (TxIn H)}
    {stxos left : List SpentTxOut} {view view' : UtxoViewpoint H} (h : HeightsKnown txs view)
    (hrun : restoreInputs db tx.txHash txIns stxos view = .ok (view', left)) : HeightsKnown txs view' := by
  induction txIns generalizing stxos view with
  | nil =>
    cases hrun
    exact h
  | cons txIn txIns ih =>
    cases stxos with
    | nil => cases hrun
    | cons stxo stxos =>
      simp only [UtxoViewpoint.restoreInputs, bind_eq_ok] at hrun
      obtain ⟨stxo', hstxo, hrest⟩ := hrun
      exact ih (h.set _ (h.resurrect db htx hstxo)) hrest

theorem HeightsKnown.disconnectRest {height : Int} (hheight : height ≠ 0) {rest : List (MsgTx H)} (hsub : rest ⊆ txs)
    {stxos left : List SpentTxOut} {view view' : UtxoViewpoint H} (h : HeightsKnown txs view)
    (hrun : disconnectRest db height rest stxos view = .ok (view', left)) : HeightsKnown txs view' := by
  induction rest generalizing stxos view with
  | nil =>
    cases hrun
    exact h
  | cons tx rest ih =>
    rw [cons_subset] at hsub
    simp only [UtxoViewpoint.disconnectRest, bind_eq_ok, Prod.exists] at hrun
    obtain ⟨view₁, stxos₁, htx, hrest⟩ := hrun
    exact ih hsub.2 ((h.disconnectOuts tx.txHash false hheight 0 tx.txOut).restoreInputs db hsub.1 htx) hrest

end

end UtxoViewpoint

end Jaxnetd.Chaindata
