import Jaxnetd.Chaindata.ViewOps
import Jaxnetd.Chaindata.Validate

/-!
# What the checks of a transaction establish

`SaneTx` is what `CheckTransactionSanity` gives for the accounting, `InputsChecked` what the loop of
`CheckTransactionInputs` has seen. Sane amounts are so small that no sum wraps around.
-/

namespace Jaxnetd.Chaindata
open Wire TxScript Checks UtxoViewpoint List

theorem wrap64_of_range {x : Int} (h : -2 ^ 63 ≤ x) (h' : x < 2 ^ 63) : wrap64 x = x := by
  unfold wrap64
  omega

theorem wrap64_le {x : Int} (h : -2 ^ 63 ≤ x) : wrap64 x ≤ x := by
  unfold wrap64
  omega

/-! ## Outputs -/

def valueOf (outs : List TxOut) : Int := (outs.map TxOut.value).sum

structure SaneOuts (outs : List TxOut) : Prop where
  nonneg : ∀ out ∈ outs, 0 ≤ out.value
  bounded : valueOf outs ≤ maxCoinAmount

variable {outs : List TxOut}

theorem valueOf_nonneg (h : ∀ out ∈ outs, 0 ≤ out.value) : 0 ≤ valueOf outs :=
  sum_nonneg (by simpa using h)

theorem SaneOuts.of_sublist {outs' : List TxOut} (h : SaneOuts outs) (hsub : outs'.Sublist outs) : SaneOuts outs' where
  nonneg out hout := h.nonneg out (hsub.subset hout)
  bounded := by
    refine le_trans ?_ h.bounded
    exact (hsub.map TxOut.value).sum_le_sum (by simpa using h.nonneg)

theorem checkOutputValues_ok {total : Int} (hpos : 0 ≤ total) (hmax : total ≤ maxCoinAmount)
    (h : checkOutputValues total outs = .ok ()) :
    (∀ out ∈ outs, 0 ≤ out.value) ∧ total + valueOf outs ≤ maxCoinAmount := by
  induction outs generalizing total with
  | nil => simpa [valueOf] using hmax
  | cons out outs ih =>
    simp only [checkOutputValues, ok_rules, not_lt] at h
    obtain ⟨h0, hle, htotal, htotal', h⟩ := h
    have hwrap : wrap64 (total + out.value) = total + out.value :=
      wrap64_of_range (by omega) (by unfold maxCoinAmount at *; omega)
    obtain ⟨hnonneg, hsum⟩ := ih htotal htotal' h
    refine ⟨forall_mem_cons.2 ⟨h0, hnonneg⟩, ?_⟩
    simp only [valueOf, map_cons, sum_cons] at hsum ⊢
    omega

theorem foldl_wrap64_eq {total : Int} (hpos : 0 ≤ total)
    (hnonneg : ∀ out ∈ outs, 0 ≤ out.value) (hmax : total + valueOf outs ≤ maxCoinAmount) :
    outs.foldl (fun total out => wrap64 (total + out.value)) total = total + valueOf outs := by
  induction outs generalizing total with
  | nil => simp [valueOf]
  | cons out outs ih =>
    rw [forall_mem_cons] at hnonneg
    have hrest := valueOf_nonneg hnonneg.2
    have hcons : valueOf (out :: outs) = out.value + valueOf outs := by simp [valueOf]
    have hwrap : wrap64 (total + out.value) = total + out.value :=
      wrap64_of_range (by omega) (by unfold maxCoinAmount at hmax; omega)
    rw [foldl_cons, hwrap, ih (by omega) hnonneg.2 (by omega)]
    omega

theorem SaneOuts.sumValues_eq (h : SaneOuts outs) : sumValues outs = valueOf outs := by
  rw [sumValues, foldl_wrap64_eq le_rfl h.nonneg (by simpa using h.bounded), zero_add]

variable {H : Type} [DecidableEq H] [ChainHash H] {tx : MsgTx H} {view : UtxoViewpoint H} {txHeight height : Int}
  {maturity : Nat} {txIns : List (TxIn H)} {found : OutPoint H → Bool}

structure SaneTx (tx : MsgTx H) : Prop where
  inputs_ne : tx.txIn ≠ []
  scripts : ∀ out ∈ tx.txOut, out.pkScript.length ≤ maxBlockBaseSize
  outs : SaneOuts tx.txOut
  inputs_nodup : (tx.txIn.map TxIn.previousOutPoint).Nodup
  swap : tx.swapTx → tx.txIn.length = tx.txOut.length ∧ (tx.txIn.length = 2 ∨ tx.txIn.length = 4)

theorem checkTransactionSanity_ok (h : checkTransactionSanity tx = .ok ()) : SaneTx tx := by
  simp only [checkTransactionSanity, ok_rules] at h
  obtain ⟨hins, -, hswap, hsize, hvalues, hnodup, -⟩ := h
  obtain ⟨hnonneg, hbound⟩ := checkOutputValues_ok le_rfl (by decide) hvalues
  have hscripts : ∀ out ∈ tx.txOut, out.pkScript.length ≤ maxBlockBaseSize := by
    intro out hout
    have hle : out.serializeSize ≤ (tx.txOut.map TxOut.serializeSize).sum :=
      le_sum_of_mem (mem_map_of_mem hout)
    have hscript : out.pkScript.length ≤ out.serializeSize := by unfold TxOut.serializeSize; omega
    unfold MsgTx.serializeSizeStripped at hsize
    omega
  refine ⟨hins, hscripts, ⟨hnonneg, by simpa using hbound⟩, hnodup, fun hs => ?_⟩
  have hstruct := validateSwapTxStructure_ok.1 (hswap hs)
  exact ⟨hstruct.1, hstruct.2.1⟩

theorem SaneTx.not_coinbase (h : SaneTx tx) (hswap : tx.swapTx) : ¬isCoinBase tx := by
  intro hcb
  unfold isCoinBase at hcb
  split at hcb
  · next txIn heq =>
    have := (h.swap hswap).2
    simp [heq] at this
  · cases hcb

/-! ## Inputs -/

/-- The indices of the inputs not found, from an index on. -/
def missedFrom (found : OutPoint H → Bool) : Nat → List (TxIn H) → List Nat
  | _, [] => []
  | i, txIn :: txIns =>
    if found txIn.previousOutPoint then missedFrom found (i + 1) txIns else i :: missedFrom found (i + 1) txIns

def amountIn (view : UtxoViewpoint H) (os : List (OutPoint H)) : Int :=
  ((os.filterMap view.dataAt).map SpentTxOut.amount).sum

structure InputsChecked (tx : MsgTx H) (view : UtxoViewpoint H) (i : Nat) (txIns : List (TxIn H))
    (st st' : InputTotals) : Prop where
  total : st'.totalSatoshiIn = st.totalSatoshiIn + amountIn view (txIns.map TxIn.previousOutPoint)
  bounded : st.totalSatoshiIn ≤ maxCoinAmount → st'.totalSatoshiIn ≤ maxCoinAmount
  missed : st'.missedInputs = st.missedInputs ++ missedFrom view.found i txIns
  unspent : ∀ o ∈ txIns.map TxIn.previousOutPoint, ∀ e, view.lookupEntry o = some e →
    e.spent = false ∧ 0 ≤ e.amount ∧ e.amount ≤ maxCoinAmount
  regular : ¬tx.swapTx → ∀ o ∈ txIns.map TxIn.previousOutPoint, view.found o
  /-- At every input found the inputs missed before it are at most the half. -/
  swap : tx.swapTx → ∀ front txIn back, txIns = front ++ txIn :: back → view.found txIn.previousOutPoint →
    st.missedInputs.length + (missedFrom view.found i front).length ≤ tx.txIn.length / 2

/-- The age noted in an input: the blocks since the output it spends, if that is found. -/
def ageAt (view : UtxoViewpoint H) (txHeight : Int) (txIn : TxIn H) : Int :=
  match view.lookupEntry txIn.previousOutPoint with
  | none => 0
  | some utxo => txHeight - utxo.height

section
omit [DecidableEq H]

theorem checkInputs_ok {i : Nat}
    {st st' : InputTotals} (h : checkInputs tx txHeight view maturity i txIns st = .ok st') :
    InputsChecked tx view i txIns st st' := by
  induction txIns generalizing i st with
  | nil =>
    simp only [checkInputs, Except.ok.injEq] at h
    subst h
    exact ⟨by simp [amountIn], id, by simp [missedFrom], by simp, by simp, by simp⟩
  | cons txIn txIns ih =>
    rcases he : view.lookupEntry txIn.previousOutPoint with _ | e
    · have hnf : view.found txIn.previousOutPoint = false := by simp [found, he]
      simp only [checkInputs, he] at h
      split at h
      · next hswap =>
        have hr := ih h
        refine ⟨?_, hr.bounded, ?_, ?_, fun hn => absurd hswap hn, fun _ front x back hsplit hx => ?_⟩
        · rw [hr.total]
          simp [amountIn, dataAt, he]
        · rw [hr.missed]
          simp [missedFrom, hnf]
        · intro o ho e' he'
          rcases mem_cons.1 ho with rfl | ho
          · rw [he] at he'
            cases he'
          · exact hr.unspent o ho e' he'
        · rcases front with _ | ⟨y, front⟩
          · cases hsplit
            rw [hnf] at hx
            cases hx
          · cases hsplit
            have := hr.swap hswap front x back rfl hx
            simp only [length_append, length_singleton] at this
            simp only [missedFrom, hnf, Bool.false_eq_true, if_false, length_cons]
            omega
      · cases h
    · have hf : view.found txIn.previousOutPoint = true := by simp [found, he]
      simp only [checkInputs, he, ok_rules, not_lt, not_or] at h
      obtain ⟨hunspent, -, hstruct, hpos, hle, ⟨-, hmax⟩, h⟩ := h
      have hr := ih h
      refine ⟨?_, fun _ => hr.bounded hmax, ?_, ?_, ?_, fun hswap front x back hsplit hx => ?_⟩
      · rw [hr.total]
        simp [amountIn, dataAt_of_lookup he]
        ring
      · rw [hr.missed]
        simp [missedFrom, hf]
      · intro o ho e' he'
        rcases mem_cons.1 ho with rfl | ho
        · rw [he, Option.some.injEq] at he'
          subst he'
          exact ⟨by simpa using hunspent, hpos, hle⟩
        · exact hr.unspent o ho e' he'
      · intro hn
        exact forall_mem_cons.2 ⟨hf, hr.regular hn⟩
      · rcases front with _ | ⟨y, front⟩
        · simpa [missedFrom] using (validateSwapTxStructure_ok.1 (hstruct hswap)).2.2 _ rfl
        · cases hsplit
          have := hr.swap hswap front x back rfl hx
          simpa [missedFrom, hf] using this

theorem ages_of_checkInputs {i : Nat}
    {st st' : InputTotals} (h : checkInputs tx txHeight view maturity i txIns st = .ok st') :
    st'.ages = st.ages ++ txIns.map (ageAt view txHeight) := by
  induction txIns generalizing i st with
  | nil =>
    cases h
    simp
  | cons txIn txIns ih =>
    rcases he : view.lookupEntry txIn.previousOutPoint with _ | e
    · simp only [checkInputs, he] at h
      split at h
      · simp [ih h, ageAt, he]
      · cases h
    · simp only [checkInputs, he, ok_rules] at h
      obtain ⟨-, -, -, -, -, -, h⟩ := h
      simp [ih h, ageAt, he]

end

theorem ages_of_checkTransactionInputs {fee : Int}
    {ages : List Int} (hcb : ¬isCoinBase tx) (h : checkTransactionInputs tx txHeight view maturity = .ok (fee, ages)) :
    ages = tx.txIn.map (ageAt view txHeight) := by
  simp only [checkTransactionInputs, if_neg hcb, ok_rules] at h
  obtain ⟨st, hst, -, -, rfl⟩ := h
  simpa using ages_of_checkInputs hst

def keptOuts (found : OutPoint H → Bool) (tx : MsgTx H) : List TxOut :=
  presentOuts (missedFrom found 0 tx.txIn) tx.txOut

section
omit [DecidableEq H] [ChainHash H]

theorem mem_missedFrom {i j : Nat} : j ∈ missedFrom found i txIns ↔
      i ≤ j ∧ ∃ txIn, txIns[j - i]? = some txIn ∧ found txIn.previousOutPoint = false := by
  induction txIns generalizing i with
  | nil => simp [missedFrom]
  | cons txIn txIns ih =>
    rcases Nat.lt_trichotomy j i with hj | rfl | hj
    · unfold missedFrom
      split <;> simp [ih, show ¬ i ≤ j by omega, show ¬ i + 1 ≤ j by omega, show j ≠ i by omega]
    · unfold missedFrom
      split <;> simp_all
    · obtain ⟨k, rfl⟩ : ∃ k, j = i + 1 + k := ⟨j - (i + 1), by omega⟩
      unfold missedFrom
      split <;> simp [ih, show i + 1 + k - i = k + 1 by omega, show i ≤ i + 1 + k by omega, show i + 1 + k ≠ i by omega]

theorem presentOuts_sublist (missed : List Nat) (outs : List TxOut) : (presentOuts missed outs).Sublist outs := by
  have := (filter_sublist (l := outs.zipIdx) (p := fun p => decide (p.2 ∉ missed))).map Prod.fst
  rwa [zipIdx_map_fst] at this

end

structure FeeChecked (view : UtxoViewpoint H) (tx : MsgTx H) (fee : Int) : Prop where
  eq : fee = amountIn view (spentBy view.found tx) - valueOf (keptOuts view.found tx)
  range : -maxCoinAmount ≤ fee ∧ fee ≤ maxCoinAmount
  unspent : ∀ o ∈ spentBy view.found tx, ∃ e, view.lookupEntry o = some e ∧
    e.spent = false ∧ 0 ≤ e.amount ∧ e.amount ≤ maxCoinAmount
  swap : tx.swapTx → ∀ front txIn back, tx.txIn = front ++ txIn :: back → view.found txIn.previousOutPoint →
    (missedFrom view.found 0 front).length ≤ tx.txIn.length / 2

theorem checkTransactionInputs_ok {fee : Int} {ages : List Int} (hsane : SaneTx tx) (hcb : ¬isCoinBase tx)
    (h : checkTransactionInputs tx txHeight view maturity = .ok (fee, ages)) : FeeChecked view tx fee := by
  simp only [checkTransactionInputs, if_neg hcb, ok_rules] at h
  obtain ⟨st, hst, -, rfl, -⟩ := h
  have hchecked := checkInputs_ok hst
  have hspent : ∀ o ∈ spentBy view.found tx, ∃ e, view.lookupEntry o = some e ∧
      e.spent = false ∧ 0 ≤ e.amount ∧ e.amount ≤ maxCoinAmount := by
    intro o ho
    rw [spentBy, if_neg hcb, mem_filter] at ho
    obtain ⟨e, he⟩ := Option.isSome_iff_exists.1 ho.2
    exact ⟨e, he, hchecked.unspent o ho.1 e he⟩
  have hin : st.totalSatoshiIn = amountIn view (spentBy view.found tx) := by
    have hdrop : (tx.txIn.map TxIn.previousOutPoint).filterMap view.dataAt =
        (spentBy view.found tx).filterMap view.dataAt := by
      rw [spentBy, if_neg hcb, filterMap_filter]
      refine filterMap_congr fun o _ => ?_
      rcases he : view.lookupEntry o with _ | e <;> simp [found, dataAt, he]
    rw [hchecked.total, amountIn, hdrop, zero_add, amountIn]
  have hin0 : 0 ≤ st.totalSatoshiIn := by
    rw [hin]
    refine sum_nonneg fun a ha => ?_
    obtain ⟨d, hd, rfl⟩ := mem_map.1 ha
    obtain ⟨o, ho, hdata⟩ := mem_filterMap.1 hd
    obtain ⟨e, he, -, hpos, -⟩ := hspent o ho
    rw [dataAt_of_lookup he, Option.some.injEq] at hdata
    exact hdata ▸ hpos
  have hmissed : st.missedInputs = missedFrom view.found 0 tx.txIn := by simpa using hchecked.missed
  have hout : SaneOuts (keptOuts view.found tx) := hsane.outs.of_sublist (presentOuts_sublist _ _)
  have hout0 := valueOf_nonneg hout.nonneg
  have hmax := hchecked.bounded (by decide)
  have hfee : wrap64 (st.totalSatoshiIn - sumValues (presentOuts st.missedInputs tx.txOut)) =
      st.totalSatoshiIn - valueOf (keptOuts view.found tx) := by
    rw [hmissed, show presentOuts (missedFrom view.found 0 tx.txIn) tx.txOut = keptOuts view.found tx from rfl,
      hout.sumValues_eq]
    have := hout.bounded
    unfold maxCoinAmount at *
    exact wrap64_of_range (by omega) (by omega)
  refine ⟨by rw [hfee, hin], ?_, hspent, fun hswap => by simpa using hchecked.swap hswap⟩
  have := hout.bounded
  omega

/-! ## Created outputs -/

theorem filterMap_sublist_map_filter {α β : Type} {f : α → Option β} {g : α → β} {q : α → Bool} {l : List α}
    (h : ∀ a ∈ l, ∀ b, f a = some b → q a ∧ g a = b) : (l.filterMap f).Sublist ((l.filter q).map g) := by
  induction l with
  | nil => simp
  | cons a l ih =>
    rw [forall_mem_cons] at h
    rw [filterMap_cons]
    rcases hf : f a with _ | b
    · refine (ih h.2).trans (List.Sublist.map g ?_)
      exact (sublist_cons_self a l).filter q
    · obtain ⟨hq, rfl⟩ := h.1 b hf
      rw [filter_cons_of_pos hq, map_cons]
      exact (ih h.2).cons_cons _

theorem createdBy_amounts_sublist {q : TxOut × Nat → Bool} (h : ∀ p ∈ tx.txOut.zipIdx, keeps found tx p.2 → q p) :
    ((createdBy found tx height).map fun p => p.2.amount).Sublist
      (((tx.txOut.zipIdx.filter q).map Prod.fst).map TxOut.value) := by
  rw [createdBy, map_filterMap, map_map]
  refine filterMap_sublist_map_filter fun p hp b hb => ?_
  simp only [Option.map_eq_some_iff, Option.ite_none_right_eq_some, spendableOut] at hb
  obtain ⟨_, ⟨hkeeps, d, hd, rfl⟩, rfl⟩ := hb
  refine ⟨h p hp hkeeps, ?_⟩
  split at hd
  · cases hd
  · cases hd
    rfl

theorem created_le_kept (hsane : SaneTx tx) (hcb : ¬isCoinBase tx)
    (hregular : ¬tx.swapTx → ∀ txIn ∈ tx.txIn, found txIn.previousOutPoint) :
    ((createdBy found tx height).map fun p => p.2.amount).sum ≤ valueOf (keptOuts found tx) := by
  refine (createdBy_amounts_sublist fun p _ hkeeps => ?_).sum_le_sum ?_
  · rw [decide_eq_true_eq, mem_missedFrom]
    rintro ⟨-, txIn, htxIn, hmissed⟩
    rw [Nat.sub_zero] at htxIn
    by_cases hswap : tx.swapTx
    · simp [keeps, hcb, hswap, htxIn, hmissed] at hkeeps
    · rw [hregular hswap txIn (mem_of_getElem? htxIn)] at hmissed
      cases hmissed
  · intro a ha
    obtain ⟨out, hout, rfl⟩ := mem_map.1 ha
    exact hsane.outs.nonneg out ((presentOuts_sublist _ _).subset hout)

theorem created_le_outs (hsane : SaneTx tx) :
    ((createdBy found tx height).map fun p => p.2.amount).sum ≤ valueOf tx.txOut := by
  have hsub : ((createdBy found tx height).map fun p => p.2.amount).Sublist
      (((tx.txOut.zipIdx.filter fun _ => true).map Prod.fst).map TxOut.value) :=
    createdBy_amounts_sublist fun _ _ _ => rfl
  rw [filter_true, zipIdx_map_fst] at hsub
  exact hsub.sum_le_sum (by simpa using hsane.outs.nonneg)

theorem outputAt_nonneg {o : OutPoint H} {d : SpentTxOut} (hsane : SaneTx tx)
    (h : outputAt tx height o = some d) : 0 ≤ d.amount := by
  obtain ⟨out, hout, rfl⟩ := outputAt_data h
  exact hsane.outs.nonneg out (mem_of_getElem? hout)

theorem created_nonneg (hsane : SaneTx tx) : ∀ p ∈ createdBy found tx height, 0 ≤ p.2.amount := by
  rintro ⟨o, d⟩ hp
  exact outputAt_nonneg hsane (createdAt_eq_some.1 (mem_createdBy.1 hp)).2

end Jaxnetd.Chaindata
