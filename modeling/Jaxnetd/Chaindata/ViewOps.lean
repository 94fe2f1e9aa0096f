import Jaxnetd.Chaindata.UtxoView
import Jaxnetd.Lib.Ledger

/-!
# What connecting a transaction does to a view

A transaction is a transfer on the ledger of unspent outputs: `spentBy` and `createdBy` list the outpoints
that it takes and the outputs that it puts, given which of its inputs are found on this chain. The main
lemma, `connectTransaction_ok`, reads off every entry of the view behind `ConnectTransaction`.
-/

namespace Jaxnetd.Chaindata
open Wire TxScript Checks UtxoViewpoint List TxIn Option

variable {H : Type}

def spendableOut (isCoinBase : Bool) (height : Int) (out : TxOut) : Option SpentTxOut :=
  if isUnspendable out.pkScript then none else some ⟨out.value, out.pkScript, height, isCoinBase⟩

variable (e : UtxoEntry)

@[simp] theorem toSpentTxOut_spend : e.spend.toSpentTxOut = e.toSpentTxOut := by
  unfold UtxoEntry.spend
  split <;> rfl

@[simp] theorem spent_spend : e.spend.spent = true := by
  unfold UtxoEntry.spend
  split <;> simp_all

@[simp] theorem spend_spend : e.spend.spend = e.spend := by
  conv_lhs => rw [UtxoEntry.spend]
  exact if_pos (spent_spend e)

variable [DecidableEq H]

namespace UtxoViewpoint
variable {view view' : UtxoViewpoint H} {o o' : OutPoint H} {e : UtxoEntry} {hash : H}

def found (view : UtxoViewpoint H) (o : OutPoint H) : Bool := (view.lookupEntry o).isSome

def dataAt (view : UtxoViewpoint H) (o : OutPoint H) : Option SpentTxOut :=
  (view.lookupEntry o).map UtxoEntry.toSpentTxOut

def spentEntry (view : UtxoViewpoint H) (os : List (OutPoint H)) (o : OutPoint H) : Option (Option UtxoEntry) :=
  if o ∈ os then some ((view.lookupEntry o).map UtxoEntry.spend) else view.entries.get o

section
omit [DecidableEq H]

theorem lookupEntry_eq_some : view.lookupEntry o = some e ↔ view.entries.get o = some (some e) := by
  simp [lookupEntry, join_eq_some_iff]

theorem lookupEntry_congr (h : view'.entries.get o = view.entries.get o) : view'.lookupEntry o = view.lookupEntry o := by
  simp [lookupEntry, h]

end

theorem get_setEntry (entry : Option UtxoEntry) :
    (view.setEntry o entry).entries.get o' = if o' = o then some entry else view.entries.get o' :=
  GoMap.get_set ..

theorem lookupEntry_setEntry (entry : Option UtxoEntry) :
    (view.setEntry o entry).lookupEntry o' = if o' = o then entry else view.lookupEntry o' := by
  unfold lookupEntry
  rw [get_setEntry]
  split <;> rfl

theorem get_addTxOut (out : TxOut) (cb : Bool) (height : Int) : (view.addTxOut o out cb height).entries.get o' =
    (((if o' = o then spendableOut cb height out else none).map fun d => some ⟨d, false, true⟩).or
      (view.entries.get o')) := by
  unfold addTxOut spendableOut newEntry
  by_cases h : o' = o <;> by_cases hu : isUnspendable out.pkScript <;> simp [h, hu, get_setEntry]

def outputsFrom (hash : H) (cb : Bool) (height : Int) (i : Nat) (outs : List TxOut) (o : OutPoint H) :
    Option SpentTxOut :=
  if o.hash = hash ∧ i ≤ o.index then outs[o.index - i]?.bind (spendableOut cb height) else none

theorem outputsFrom_cons (hash : H) (cb : Bool) (height : Int) (i : Nat) (out : TxOut) (outs : List TxOut)
    (o : OutPoint H) : outputsFrom hash cb height i (out :: outs) o =
      if o = ⟨hash, i⟩ then spendableOut cb height out else outputsFrom hash cb height (i + 1) outs o := by
  obtain ⟨h, j⟩ := o
  simp only [outputsFrom, OutPoint.mk.injEq]
  by_cases hh : h = hash
  · rcases Nat.lt_trichotomy j i with hj | rfl | hj
    · simp [hh, show ¬ i ≤ j by omega, show j ≠ i by omega, show ¬ i + 1 ≤ j by omega]
    · simp [hh]
    · obtain ⟨k, rfl⟩ : ∃ k, j = i + 1 + k := ⟨j - (i + 1), by omega⟩
      simp [hh, show i ≤ i + 1 + k by omega, show i + 1 + k - i = k + 1 by omega, show i + 1 + k ≠ i by omega,
        show i + 1 + k - (i + 1) = k by omega]
  · simp [hh]

theorem get_addTxOutsFrom (hash : H) (cb : Bool) (height : Int) (i : Nat) (outs : List TxOut)
    (view : UtxoViewpoint H) (o : OutPoint H) : (addTxOutsFrom hash cb height i outs view).entries.get o =
      (((outputsFrom hash cb height i outs o).map fun d => some ⟨d, false, true⟩).or (view.entries.get o)) := by
  induction outs generalizing i view with
  | nil => simp [addTxOutsFrom, outputsFrom]
  | cons out outs ih =>
    rw [addTxOutsFrom, ih, get_addTxOut, outputsFrom_cons]
    by_cases h : o = ⟨hash, i⟩
    · have hlater : outputsFrom hash cb height (i + 1) outs o = none := by simp [outputsFrom, h]
      simp [h, h ▸ hlater]
    · simp [h]

/-! ## The outputs and inputs of a transaction -/

section
variable [ChainHash H] {tx : MsgTx H} {height : Int} {d : SpentTxOut} {found : OutPoint H → Bool}

def outputAt (tx : MsgTx H) (height : Int) (o : OutPoint H) : Option SpentTxOut :=
  outputsFrom tx.txHash (isCoinBase tx) height 0 tx.txOut o

theorem outputAt_eq_some : outputAt tx height o = some d ↔ o.hash = tx.txHash ∧
      ∃ out, tx.txOut[o.index]? = some out ∧ spendableOut (isCoinBase tx) height out = some d := by
  simp [outputAt, outputsFrom, bind_eq_some_iff]

section
variable (h : outputAt tx height o = some d)
include h

theorem outputAt_data :
    ∃ out, tx.txOut[o.index]? = some out ∧ d = ⟨out.value, out.pkScript, height, isCoinBase tx⟩ := by
  obtain ⟨-, out, hout, hd⟩ := outputAt_eq_some.1 h
  unfold spendableOut at hd
  split at hd
  · cases hd
  · exact ⟨out, hout, (some.inj hd).symm⟩

theorem hash_of_outputAt : o.hash = tx.txHash := (outputAt_eq_some.1 h).1

theorem index_lt_of_outputAt : o.index < tx.txOut.length := by
  obtain ⟨-, out, hout, -⟩ := outputAt_eq_some.1 h
  exact (List.getElem?_eq_some_iff.1 hout).1

end

theorem get_addTxOuts (view : UtxoViewpoint H) (tx : MsgTx H) (height : Int) (o : OutPoint H) :
    (view.addTxOuts tx height).entries.get o =
      (((outputAt tx height o).map fun d => some ⟨d, false, true⟩).or (view.entries.get o)) :=
  get_addTxOutsFrom ..

/-- The output at an index is created: in a swap transaction, if the input at the index is found. -/
def keeps (found : OutPoint H → Bool) (tx : MsgTx H) (i : Nat) : Bool :=
  isCoinBase tx || !tx.swapTx || tx.txIn[i]?.any fun txIn => found txIn.previousOutPoint

def spentBy (found : OutPoint H → Bool) (tx : MsgTx H) : List (OutPoint H) :=
  if isCoinBase tx then [] else (tx.txIn.map previousOutPoint).filter found

def createdAt (found : OutPoint H → Bool) (tx : MsgTx H) (height : Int) (o : OutPoint H) : Option SpentTxOut :=
  if keeps found tx o.index then outputAt tx height o else none

def createdBy (found : OutPoint H → Bool) (tx : MsgTx H) (height : Int) : List (OutPoint H × SpentTxOut) :=
  tx.txOut.zipIdx.filterMap fun p => if keeps found tx p.2 then
    (spendableOut (isCoinBase tx) height p.1).map fun d => (⟨tx.txHash, p.2⟩, d) else none

def transferOf (found : OutPoint H → Bool) (tx : MsgTx H) (height : Int) : Ledger.Transfer (OutPoint H) SpentTxOut :=
  ⟨spentBy found tx, createdBy found tx height⟩

theorem createdAt_eq_some :
    createdAt found tx height o = some d ↔ keeps found tx o.index ∧ outputAt tx height o = some d := by
  rw [createdAt, ite_none_right_eq_some]

theorem mem_createdBy : (o, d) ∈ createdBy found tx height ↔ createdAt found tx height o = some d := by
  obtain ⟨h, i⟩ := o
  rw [createdAt_eq_some, outputAt_eq_some]
  simp only [createdBy, mem_filterMap, ite_none_right_eq_some, map_eq_some_iff, Prod.mk.injEq,
    OutPoint.mk.injEq, Prod.exists, mem_zipIdx_iff_getElem?]
  constructor
  · rintro ⟨out, j, hout, hkeeps, d', hd, ⟨rfl, rfl⟩, rfl⟩
    exact ⟨hkeeps, rfl, out, hout, hd⟩
  · rintro ⟨hkeeps, rfl, out, hout, hd⟩
    exact ⟨out, i, hout, hkeeps, d, hd, ⟨rfl, rfl⟩, rfl⟩

theorem nodup_createdBy (found : OutPoint H → Bool) (tx : MsgTx H) (height : Int) :
    ((createdBy found tx height).map Prod.fst).Nodup := by
  have hindices : (tx.txOut.zipIdx.map Prod.snd).Nodup := by simp [nodup_range']
  have hkeys : (((createdBy found tx height).map Prod.fst).map OutPoint.index).Sublist
      (tx.txOut.zipIdx.map Prod.snd) := by
    unfold createdBy
    induction tx.txOut.zipIdx with
    | nil => simp
    | cons p ps ih =>
      rw [filterMap_cons, map_cons]
      split
      · exact ih.cons _
      · next q hq =>
        simp only [ite_none_right_eq_some, map_eq_some_iff] at hq
        obtain ⟨_, d, _, rfl⟩ := hq
        exact ih.cons_cons _
  exact (hkeys.nodup hindices).of_map _

theorem mem_keys_createdBy :
    o ∈ (createdBy found tx height).map Prod.fst ↔ ∃ d, createdAt found tx height o = some d := by
  simp [mem_createdBy]

end

/-! ## Spending inputs -/

section
variable (he : view.lookupEntry o = some e)
include he

theorem spentEntry_setEntry_spend (os : List (OutPoint H))
    (o' : OutPoint H) : (view.setEntry o (some e.spend)).spentEntry os o' = view.spentEntry (o :: os) o' := by
  by_cases h : o' = o
  · subst h
    simp [spentEntry, lookupEntry_setEntry, he, get_setEntry]
  · simp [spentEntry, lookupEntry_setEntry, h, get_setEntry]

theorem found_setEntry_spend :
    (view.setEntry o (some e.spend)).found = view.found := by
  funext o'
  by_cases h : o' = o
  · simp [found, lookupEntry_setEntry, h, he]
  · simp [found, lookupEntry_setEntry, h]

theorem dataAt_setEntry_spend :
    (view.setEntry o (some e.spend)).dataAt = view.dataAt := by
  funext o'
  by_cases h : o' = o
  · simp [dataAt, lookupEntry_setEntry, h, he]
  · simp [dataAt, lookupEntry_setEntry, h]

omit [DecidableEq H] in
theorem dataAt_of_lookup : view.dataAt o = some e.toSpentTxOut := by
  simp [dataAt, he]

end

theorem map_append_recordSpent (stxos : Option (List SpentTxOut)) (e : UtxoEntry) (l : List SpentTxOut) :
    (recordSpent stxos e).map (· ++ l) = stxos.map (· ++ e.toSpentTxOut :: l) := by
  cases stxos <;> simp [recordSpent]

theorem lookupEntry_addTxOut_of_ne (h : o' ≠ o) (out : TxOut) (cb : Bool) (height : Int) :
    (view.addTxOut o out cb height).lookupEntry o' = view.lookupEntry o' := by
  refine lookupEntry_congr ?_
  rw [get_addTxOut, if_neg h]
  rfl

theorem spentEntry_addTxOut {os : List (OutPoint H)} (hos : o ∉ os) (out : TxOut) (cb : Bool) (height : Int)
    (o' : OutPoint H) : (view.addTxOut o out cb height).spentEntry os o' =
      (((if o' = o then spendableOut cb height out else none).map fun d => some ⟨d, false, true⟩).or
        (view.spentEntry os o')) := by
  unfold spentEntry
  by_cases h : o' ∈ os
  · have hne : o' ≠ o := fun heq => hos (heq ▸ h)
    simp [h, hne, lookupEntry_addTxOut_of_ne hne]
  · rw [if_neg h, if_neg h, get_addTxOut]

variable {txIns : List (TxIn H)} {stxos stxos' : Option (List SpentTxOut)} {found : OutPoint H → Bool}

theorem spendInputs_ok [ChainHash H] (h : spendInputs txIns view stxos = .ok (view', stxos')) :
    (∀ o ∈ txIns.map previousOutPoint, view.found o) ∧
      (∀ o, view'.entries.get o = view.spentEntry (txIns.map previousOutPoint) o) ∧
      stxos' = stxos.map (· ++ (txIns.map previousOutPoint).filterMap view.dataAt) := by
  induction txIns generalizing view stxos with
  | nil =>
    obtain ⟨rfl, rfl⟩ := h
    simp [spentEntry]
  | cons txIn txIns ih =>
    simp only [spendInputs] at h
    rcases he : view.lookupEntry txIn.previousOutPoint with _ | entry
    · simp [he] at h
    · simp only [he] at h
      obtain ⟨hfound, hentries, hstxos⟩ := ih h
      simp only [found_setEntry_spend he, dataAt_setEntry_spend he] at hfound hstxos
      refine ⟨?_, fun o => ?_, ?_⟩
      · exact forall_mem_cons.2 ⟨by simp [found, he], hfound⟩
      · rw [hentries o, spentEntry_setEntry_spend he, map_cons]
      · rw [hstxos, map_append_recordSpent, map_cons, filterMap_cons_some (dataAt_of_lookup he)]

variable {height : Int} {i : Nat} {txIns : List (TxIn H)} {outs : List TxOut}

def swapOuts (found : OutPoint H → Bool) (hash : H) (height : Int) :
    Nat → List (TxIn H) → List TxOut → OutPoint H → Option SpentTxOut
  | i, txIn :: txIns, out :: outs, o =>
    if o = ⟨hash, i⟩ then if found txIn.previousOutPoint then spendableOut false height out else none
    else swapOuts found hash height (i + 1) txIns outs o
  | _, _, _, _ => none

theorem swapOuts_eq (hlen : txIns.length = outs.length) (o : OutPoint H) : swapOuts found hash height i txIns outs o =
      if txIns[o.index - i]?.any (fun txIn => found txIn.previousOutPoint) then
        outputsFrom hash false height i outs o else none := by
  induction txIns generalizing i outs with
  | nil => simp [swapOuts]
  | cons txIn txIns ih =>
    rcases outs with _ | ⟨out, outs⟩
    · simp at hlen
    rw [swapOuts, outputsFrom_cons, ih (by simpa using hlen)]
    by_cases ho : o = ⟨hash, i⟩
    · simp [ho]
    · simp only [if_neg ho]
      by_cases hin : o.hash = hash ∧ i + 1 ≤ o.index
      · rw [show o.index - i = (o.index - (i + 1)) + 1 by omega, getElem?_cons_succ]
      · have hnone : outputsFrom hash false height (i + 1) outs o = none := if_neg hin
        simp [hnone]

theorem swapOuts_eq_none (ho : o.hash ≠ hash ∨ o.index < i) : swapOuts found hash height i txIns outs o = none := by
  induction txIns generalizing i outs with
  | nil => rfl
  | cons txIn txIns ih =>
    rcases outs with _ | ⟨out, outs⟩
    · rfl
    have hne : o ≠ ⟨hash, i⟩ := by
      rintro rfl
      rcases ho with ho | ho
      · exact ho rfl
      · exact lt_irrefl _ ho
    rw [swapOuts, if_neg hne]
    exact ih (ho.imp_right Nat.lt_succ_of_lt)

theorem swapOuts_congr {found' : OutPoint H → Bool} (h : ∀ o ∈ txIns.map previousOutPoint, found' o = found o) :
    swapOuts found' hash height i txIns outs = swapOuts found hash height i txIns outs := by
  induction txIns generalizing i outs with
  | nil => rfl
  | cons txIn txIns ih =>
    rw [map_cons, forall_mem_cons] at h
    rcases outs with _ | ⟨out, outs⟩
    · rfl
    funext o
    rw [swapOuts, swapOuts, h.1, ih h.2]

theorem swapInputs_spec {stxos : Option (List SpentTxOut)} (hlen : txIns.length = outs.length)
    (hself : ∀ txIn ∈ txIns, txIn.previousOutPoint.hash ≠ hash) :
    (∀ o, (swapInputs hash height i txIns outs view stxos).1.entries.get o =
      ((swapOuts view.found hash height i txIns outs o).map fun d => some ⟨d, false, true⟩).or
        (view.spentEntry ((txIns.map previousOutPoint).filter view.found) o)) ∧
    (swapInputs hash height i txIns outs view stxos).2 =
      stxos.map (· ++ ((txIns.map previousOutPoint).filter view.found).filterMap view.dataAt) := by
  induction txIns generalizing i outs view stxos with
  | nil => simp [swapInputs, swapOuts, spentEntry]
  | cons txIn txIns ih =>
    rcases outs with _ | ⟨out, outs⟩
    · simp at hlen
    rw [forall_mem_cons] at hself
    have hlen' : txIns.length = outs.length := by simpa using hlen
    rcases he : view.lookupEntry txIn.previousOutPoint with _ | entry
    · have hnf : view.found txIn.previousOutPoint = false := by simp [found, he]
      obtain ⟨hentries, hstxos⟩ := @ih view (i + 1) outs stxos hlen' hself.2
      simp only [swapInputs, he]
      refine ⟨fun o => ?_, ?_⟩
      · rw [hentries o, swapOuts]
        by_cases ho : o = ⟨hash, i⟩
        · rw [swapOuts_eq_none (Or.inr (by simp [ho]))]
          simp [ho, hnf]
        · simp [ho, hnf]
      · rw [hstxos]
        simp [hnf]
    · have hf : view.found txIn.previousOutPoint = true := by simp [found, he]
      let spentView := view.setEntry txIn.previousOutPoint (some entry.spend)
      let added := spentView.addTxOut ⟨hash, i⟩ out false height
      -- no input is the output just added, so the rest of the inputs is looked up as before
      have hlookup : ∀ o ∈ txIns.map previousOutPoint, added.lookupEntry o = spentView.lookupEntry o := by
        intro o ho
        obtain ⟨txIn', htxIn', rfl⟩ := mem_map.1 ho
        exact lookupEntry_addTxOut_of_ne (fun heq => hself.2 txIn' htxIn' (by rw [heq])) _ _ _
      have hfound : ∀ o ∈ txIns.map previousOutPoint, added.found o = view.found o := by
        intro o ho
        rw [← found_setEntry_spend he]
        simp only [found, hlookup o ho, spentView]
      have hfilter := filter_congr hfound
      have hdata : ((txIns.map previousOutPoint).filter view.found).filterMap added.dataAt =
          ((txIns.map previousOutPoint).filter view.found).filterMap view.dataAt := by
        refine filterMap_congr fun o ho => ?_
        rw [← dataAt_setEntry_spend he]
        simp only [dataAt, hlookup o (mem_of_mem_filter ho), spentView]
      have hfresh : (⟨hash, i⟩ : OutPoint H) ∉ (txIns.map previousOutPoint).filter view.found := by
        intro hmem
        obtain ⟨txIn', htxIn', heq⟩ := mem_map.1 (mem_of_mem_filter hmem)
        exact hself.2 txIn' htxIn' (by rw [heq])
      obtain ⟨hentries, hstxos⟩ := @ih added (i + 1) outs (recordSpent stxos entry) hlen' hself.2
      simp only [swapInputs, he]
      refine ⟨fun o => ?_, ?_⟩
      · rw [hentries o, hfilter, swapOuts_congr hfound, spentEntry_addTxOut hfresh, spentEntry_setEntry_spend he, map_cons,
          filter_cons_of_pos hf, swapOuts]
        by_cases ho : o = ⟨hash, i⟩
        · rw [swapOuts_eq_none (Or.inr (by simp [ho]))]
          simp [ho, hf]
        · simp [ho]
      · rw [hstxos, hfilter, hdata, map_append_recordSpent, map_cons, filter_cons_of_pos hf,
          filterMap_cons_some (dataAt_of_lookup he)]

/-! ## Connecting a transaction -/

omit [DecidableEq H] in
theorem validateSwapTxStructure_ok {tx : MsgTx H} {missed : Option Nat} :
    validateSwapTxStructure tx missed = .ok () ↔ tx.txIn.length = tx.txOut.length ∧
      (tx.txIn.length = 2 ∨ tx.txIn.length = 4) ∧ ∀ n ∈ missed, n ≤ tx.txIn.length / 2 := by
  cases missed with
  | none => simp [validateSwapTxStructure]; omega
  | some n => simp [validateSwapTxStructure]; omega

variable [ChainHash H] [Primitives]

def NotSelf (tx : MsgTx H) : Prop :=
  tx.swapTx → ¬isCoinBase tx → ∀ txIn ∈ tx.txIn, txIn.previousOutPoint.hash ≠ tx.txHash

structure Connected (view : UtxoViewpoint H) (tx : MsgTx H) (height : Int) (stxos : Option (List SpentTxOut))
    (view' : UtxoViewpoint H) (stxos' : Option (List SpentTxOut)) : Prop where
  entries : ∀ o, view'.entries.get o =
    ((createdAt view.found tx height o).map fun d => some ⟨d, false, true⟩).or
      (view.spentEntry (spentBy view.found tx) o)
  stxos : stxos' = stxos.map (· ++ (spentBy view.found tx).filterMap view.dataAt)
  regular : ¬isCoinBase tx → ¬tx.swapTx → spentBy view.found tx = tx.txIn.map previousOutPoint
  swap : ¬isCoinBase tx → tx.swapTx →
    tx.txIn.length = tx.txOut.length ∧ (tx.txIn.length = 2 ∨ tx.txIn.length = 4)

theorem connectTransaction_ok {tx : MsgTx H} {height : Int}
    (hself : NotSelf tx) (h : view.connectTransaction tx height stxos = .ok (view', stxos')) :
    Connected view tx height stxos view' stxos' := by
  unfold connectTransaction at h
  split at h
  · next hcb =>
    obtain ⟨rfl, rfl⟩ := h
    refine ⟨fun o => ?_, ?_, fun hn => absurd hcb hn, fun hn => absurd hcb hn⟩
    · simp [get_addTxOuts, createdAt, keeps, hcb, spentBy, spentEntry]
    · simp [spentBy, hcb]
  next hcb =>
  split at h
  · next hswap =>
    simp only [connectSwapTransaction, ok_rules, validateSwapTxStructure_ok] at h
    obtain ⟨⟨hlen, hfour, _⟩, h⟩ := h
    obtain ⟨hentries, hstxos⟩ := @swapInputs_spec _ _ view tx.txHash height 0 _ _ stxos hlen (hself hswap hcb)
    rw [h] at hentries hstxos
    have hspent : spentBy view.found tx = (tx.txIn.map previousOutPoint).filter view.found := by
      simp [spentBy, hcb]
    refine ⟨fun o => ?_, by rw [hspent]; exact hstxos, fun _ hn => absurd hswap hn, fun _ _ => ⟨hlen, hfour⟩⟩
    rw [hentries o, swapOuts_eq hlen, hspent]
    simp [createdAt, keeps, hcb, hswap, outputAt]
  next hswap =>
  simp only [ok_rules] at h
  obtain ⟨-, view₁, stxos₁, hspend, -, rfl, rfl⟩ := h
  obtain ⟨hfound, hentries, hstxos⟩ := spendInputs_ok hspend
  have hspent : spentBy view.found tx = tx.txIn.map previousOutPoint := by
    simp only [spentBy, if_neg hcb]
    exact filter_eq_self.2 hfound
  refine ⟨fun o => ?_, by rw [hspent]; exact hstxos, fun _ _ => hspent, fun _ hs => absurd hs hswap⟩
  rw [get_addTxOuts, hentries o, hspent]
  simp [createdAt, keeps, hswap]

/-! ## What the steps of a connect keep -/

section
variable {P : UtxoViewpoint H → Option (List SpentTxOut) → Prop} {tx : MsgTx H} {height : Int}
  {stxos stxos' : Option (List SpentTxOut)}

omit [Primitives] in
/-- A property of the view and the spent outputs is kept when an input is spent and when an output is added. -/
structure KeptBy (tx : MsgTx H) (height : Int) (P : UtxoViewpoint H → Option (List SpentTxOut) → Prop) : Prop where
  spend : ∀ view stxos, ∀ txIn ∈ tx.txIn, ∀ e, ¬isCoinBase tx → view.lookupEntry txIn.previousOutPoint = some e →
    P view stxos → P (view.setEntry txIn.previousOutPoint (some e.spend)) (recordSpent stxos e)
  add : ∀ view stxos o d, outputAt tx height o = some d → P view stxos → P (view.setEntry o (some ⟨d, false, true⟩)) stxos

section
omit [Primitives]

theorem KeptBy.addTxOut (h : KeptBy tx height P) {i : Nat} {out : TxOut} (hout : tx.txOut[i]? = some out)
    (hP : P view stxos) : P (view.addTxOut ⟨tx.txHash, i⟩ out (isCoinBase tx) height) stxos := by
  unfold UtxoViewpoint.addTxOut
  split
  · exact hP
  · next hs => exact h.add _ _ _ _ (outputAt_eq_some.2 ⟨rfl, out, hout, if_neg hs⟩) hP

theorem KeptBy.addTxOuts (h : KeptBy tx height P) (hP : P view stxos) : P (view.addTxOuts tx height) stxos := by
  have hloop (outs : List TxOut) : ∀ i view, (∀ j, outs[j]? = tx.txOut[i + j]?) → P view stxos →
      P (addTxOutsFrom tx.txHash (isCoinBase tx) height i outs view) stxos := by
    induction outs with
    | nil => exact fun _ _ _ hP => hP
    | cons out outs ih =>
      intro i view hat hP
      refine ih (i + 1) _ (fun j => ?_) (h.addTxOut (hat 0).symm hP)
      rw [Nat.add_assoc, Nat.add_comm 1, ← hat]
      rfl
  exact hloop tx.txOut 0 view (fun j => by rw [Nat.zero_add]) hP

section
variable (h : KeptBy tx height P) (hcb : ¬isCoinBase tx) (hins : ∀ txIn ∈ txIns, txIn ∈ tx.txIn)
include h hcb hins

theorem KeptBy.spendInputs (hspend : spendInputs txIns view stxos = .ok (view', stxos'))
    (hP : P view stxos) : P view' stxos' := by
  induction txIns generalizing view stxos with
  | nil =>
    cases hspend
    exact hP
  | cons txIn txIns ih =>
    rw [forall_mem_cons] at hins
    simp only [UtxoViewpoint.spendInputs] at hspend
    split at hspend
    · cases hspend
    · next e he => exact ih hins.2 hspend (h.spend _ _ _ hins.1 e hcb he hP)

theorem KeptBy.swapInputs {outs : List TxOut}
    {i : Nat} (hat : ∀ j, outs[j]? = tx.txOut[i + j]?) (hP : P view stxos) :
    P (swapInputs tx.txHash height i txIns outs view stxos).1 (swapInputs tx.txHash height i txIns outs view stxos).2 := by
  induction txIns generalizing i outs view stxos with
  | nil => exact hP
  | cons txIn txIns ih =>
    rcases outs with _ | ⟨out, outs⟩
    · exact hP
    rw [forall_mem_cons] at hins
    have hrest : ∀ j, outs[j]? = tx.txOut[i + 1 + j]? := by
      intro j
      rw [Nat.add_assoc, Nat.add_comm 1, ← hat]
      rfl
    have hfalse : isCoinBase tx = false := by simpa using hcb
    simp only [UtxoViewpoint.swapInputs]
    split
    · exact ih hins.2 hrest hP
    · next e he =>
      have hadded := h.addTxOut (hat 0).symm (h.spend _ _ _ hins.1 e hcb he hP)
      rw [hfalse] at hadded
      exact ih hins.2 hrest hadded

end

end

theorem KeptBy.connect (h : KeptBy tx height P) (hconn : view.connectTransaction tx height stxos = .ok (view', stxos'))
    (hP : P view stxos) : P view' stxos' := by
  unfold connectTransaction at hconn
  split at hconn
  · cases hconn
    exact h.addTxOuts hP
  next hcb =>
  split at hconn
  · simp only [connectSwapTransaction, ok_rules] at hconn
    have hswap := h.swapInputs hcb (fun _ => id) (i := 0) (fun j => by rw [Nat.zero_add]) hP
    rwa [hconn.2] at hswap
  · simp only [ok_rules] at hconn
    obtain ⟨-, view₁, stxos₁, hspend, -, rfl, rfl⟩ := hconn
    exact h.addTxOuts (h.spendInputs hcb (fun _ => id) hspend hP)

end

end UtxoViewpoint

end Jaxnetd.Chaindata
