import Jaxnetd.Chaindata.Simulation
import Jaxnetd.Chaindata.Validate
import Jaxnetd.TxScript.SigOps

/-!
# The cost of the signature operations of a transaction

`GetSigOpCost` adds up what its inputs bring besides their scripts: `p2shSigOps` for a script hash and
`GetWitnessSigOpCount` for a witness. An input that the view does not have brings nothing, and if it lacks too many of
them the error is dropped and nothing is counted at all (`getSigOpCost_eq`).
-/

namespace Jaxnetd.Chaindata
open Wire TxScript Checks UtxoViewpoint List

variable {H : Type} (view : UtxoViewpoint H)

def unknownInputs (txIns : List (TxIn H)) : Nat :=
  txIns.countP fun txIn => !view.found txIn.previousOutPoint

def LacksInputs (view : UtxoViewpoint H) (tx : MsgTx H) : Prop :=
  (if tx.swapTx then tx.txIn.length / 2 else 0) < unknownInputs view tx.txIn

instance (view : UtxoViewpoint H) (tx : MsgTx H) : Decidable (LacksInputs view tx) := by
  unfold LacksInputs
  infer_instance

/-- What `CountP2SHSigOps` and `GetWitnessSigOpCount` find for an input. -/
def inputSigOps (txIn : TxIn H) : Nat × Nat :=
  match view.lookupEntry txIn.previousOutPoint with
  | none => (0, 0)
  | some utxo => (p2shSigOps txIn.signatureScript utxo.pkScript,
      (getWitnessSigOpCount txIn.signatureScript utxo.pkScript txIn.witness).getD 0)

/-- What `GetSigOpCost` adds for an input: the signature operations of its script hash and of its witness. -/
def sigOpShare (tx : MsgTx H) (txIn : TxIn H) : Nat × Nat :=
  if LacksInputs view tx then (0, 0) else inputSigOps view txIn

def sigOpCost (tx : MsgTx H) : Nat :=
  if LacksInputs view tx then 0
  else countTxSigOps tx * witnessScaleFactor +
    (tx.txIn.map fun txIn => (sigOpShare view tx txIn).1 * witnessScaleFactor + (sigOpShare view tx txIn).2).sum

def Unspent : Prop := ∀ o e, view.lookupEntry o = some e → e.spent = false

section
variable [ChainHash H] {tx : MsgTx H} {view : UtxoViewpoint H}

omit [ChainHash H] in
theorem found_eq_false {o : OutPoint H} : view.found o = false ↔ view.lookupEntry o = none := by
  rw [UtxoViewpoint.found, Option.isSome_eq_false_iff, Option.isNone_iff_eq_none]

theorem sigOpInputs_ok {cost : TxIn H → UtxoEntry → Except ChainError Nat} {f : TxIn H → UtxoEntry → Nat}
    (hf : ∀ t e n, cost t e = .ok n → n = f t e) {txIns : List (TxIn H)} {i total missing : Nat} {r : Nat × Nat}
    (h : sigOpInputs tx view cost i txIns total missing = .ok r) :
    r.1 = total + (txIns.map fun t => ((view.lookupEntry t.previousOutPoint).map (f t)).getD 0).sum ∧
      r.2 = missing + unknownInputs view txIns ∧ (tx.swapTx = false → unknownInputs view txIns = 0) := by
  induction txIns generalizing i total missing with
  | nil =>
    cases h
    simp [unknownInputs]
  | cons t ts ih =>
    unfold sigOpInputs at h
    split at h
    · next hnone =>
      have hfound : view.found t.previousOutPoint = false := found_eq_false.2 hnone
      split at h
      · next hswap =>
        obtain ⟨htotal, hmissing, -⟩ := ih h
        refine ⟨by rw [htotal, map_cons, sum_cons, hnone]; simp, ?_, fun hno => absurd hswap (by simp [hno])⟩
        rw [hmissing, unknownInputs, unknownInputs, countP_cons_of_pos (by simp [hfound])]
        omega
      · nomatch h
    · next e he =>
      have hfound : view.found t.previousOutPoint = true := by simp [UtxoViewpoint.found, he]
      simp only [ok_rules] at h
      obtain ⟨-, n, hn, h⟩ := h
      obtain ⟨htotal, hmissing, hall⟩ := ih h
      have hcount : unknownInputs view (t :: ts) = unknownInputs view ts := countP_cons_of_neg (by simp [hfound])
      refine ⟨?_, by rw [hmissing, hcount], fun hno => by rw [hcount, hall hno]⟩
      rw [htotal, map_cons, sum_cons, he, Option.map_some, Option.getD_some, hf t e n hn]
      omega

theorem sigOpInputs_total {cost : TxIn H → UtxoEntry → Except ChainError Nat} {txIns : List (TxIn H)}
    (hunspent : ∀ t ∈ txIns, ∀ e, view.lookupEntry t.previousOutPoint = some e → e.spent = false)
    (hcost : ∀ t ∈ txIns, ∀ e, view.lookupEntry t.previousOutPoint = some e → ∃ n, cost t e = .ok n)
    (hknown : tx.swapTx ∨ unknownInputs view txIns = 0) (i total missing : Nat) :
    ∃ r, sigOpInputs tx view cost i txIns total missing = .ok r := by
  induction txIns generalizing i total missing with
  | nil => exact ⟨_, rfl⟩
  | cons t ts ih =>
    rw [forall_mem_cons] at hcost hunspent
    have hrest : tx.swapTx ∨ unknownInputs view ts = 0 := by
      refine hknown.imp_right fun hzero => ?_
      rw [unknownInputs, countP_eq_zero] at hzero ⊢
      exact fun t' ht' => hzero t' (mem_cons_of_mem _ ht')
    unfold sigOpInputs
    split
    · next hnone =>
      have hswap : tx.swapTx := by
        refine hknown.resolve_right fun hzero => ?_
        rw [unknownInputs, countP_eq_zero] at hzero
        exact hzero t mem_cons_self (by simp [found_eq_false.2 hnone])
      rw [if_pos hswap]
      exact ih hunspent.2 hcost.2 hrest _ _ _
    · next e he =>
      obtain ⟨n, hn⟩ := hcost.1 e he
      obtain ⟨r, hr⟩ := ih hunspent.2 hcost.2 hrest (i + 1) (total + n) missing
      refine ⟨r, ?_⟩
      simp only [ok_rules]
      exact ⟨by simp [hunspent.1 e he], n, hn, hr⟩

theorem unknownInputs_le_half (hswap : tx.swapTx) {n : Nat} (h : countP2SHSigOps tx false view = .ok n) :
    unknownInputs view tx.txIn ≤ tx.txIn.length / 2 := by
  simp only [countP2SHSigOps, Bool.false_eq_true, if_false, countInputs, ok_rules] at h
  obtain ⟨total, missing, hloop, hcheck, -⟩ := h
  obtain ⟨-, hmissing, -⟩ := sigOpInputs_ok (fun t e n hn => (Except.ok.inj hn).symm) hloop
  have hle := (validateSwapTxStructure_ok.1 (hcheck hswap)).2.2 missing rfl
  omega

theorem countP2SHSigOps_ok_iff
    (hunspent : ∀ t ∈ tx.txIn, ∀ e, view.lookupEntry t.previousOutPoint = some e → e.spent = false)
    (hswap : tx.swapTx → validateSwapTxStructure tx none = .ok ()) :
    (∃ n, countP2SHSigOps tx false view = .ok n) ↔ ¬LacksInputs view tx := by
  rw [LacksInputs, Nat.not_lt]
  constructor
  · rintro ⟨n, hn⟩
    cases hs : tx.swapTx with
    | true =>
      rw [if_pos rfl]
      exact unknownInputs_le_half hs hn
    | false =>
      simp only [countP2SHSigOps, Bool.false_eq_true, if_false, countInputs, ok_rules] at hn
      obtain ⟨total, missing, hloop, -⟩ := hn
      simp [(sigOpInputs_ok (fun t e n hn => (Except.ok.inj hn).symm) hloop).2.2 hs]
  · intro hle
    simp only [countP2SHSigOps, Bool.false_eq_true, if_false, countInputs, ok_rules]
    have hknown : tx.swapTx ∨ unknownInputs view tx.txIn = 0 := by
      cases hs : tx.swapTx with
      | true => exact Or.inl rfl
      | false => exact Or.inr (by simpa [hs] using hle)
    obtain ⟨⟨total, missing⟩, hloop⟩ := sigOpInputs_total hunspent (fun t _ e _ => ⟨_, rfl⟩) hknown 0 0 0
    obtain ⟨-, hmissing, -⟩ := sigOpInputs_ok (fun t e n hn => (Except.ok.inj hn).symm) hloop
    refine ⟨total, total, missing, hloop, fun hs => ?_, rfl⟩
    obtain ⟨h1, h2, -⟩ := validateSwapTxStructure_ok.1 (hswap hs)
    refine validateSwapTxStructure_ok.2 ⟨h1, h2, ?_⟩
    intro n hn
    rw [Option.mem_some_iff] at hn
    rw [if_pos hs] at hle
    omega

theorem getSigOpCost_eq (hunspent : Unspent view) (hswap : tx.swapTx → validateSwapTxStructure tx none = .ok ())
    {cost : Nat} (h : getSigOpCost tx false view true true = .ok cost) : cost = sigOpCost view tx := by
  have hiff := countP2SHSigOps_ok_iff (fun t _ => hunspent t.previousOutPoint) hswap
  unfold getSigOpCost at h
  simp only [if_true, Bool.not_false, Bool.and_self] at h
  split at h
  · next e he =>
    have hlacks : LacksInputs view tx := by
      by_contra hnot
      obtain ⟨n, hn⟩ := hiff.2 hnot
      rw [he] at hn
      nomatch hn
    rw [sigOpCost, if_pos hlacks]
    exact (Except.ok.inj h).symm
  · next p2sh hp2sh =>
    have hlacks : ¬LacksInputs view tx := hiff.1 ⟨p2sh, hp2sh⟩
    simp only [countP2SHSigOps, countInputs, Bool.false_eq_true, if_false, ok_rules] at hp2sh h
    obtain ⟨_, _, hloop, -, rfl⟩ := hp2sh
    obtain ⟨_, ⟨_, _, hloop', -, rfl⟩, rfl⟩ := h
    obtain ⟨hfirst, -, -⟩ := sigOpInputs_ok (fun t e n hn => (Except.ok.inj hn).symm) hloop
    obtain ⟨hsecond, -, -⟩ := @sigOpInputs_ok _ _ _ _ _
      (fun t e => (getWitnessSigOpCount t.signatureScript e.pkScript t.witness).getD 0)
      (fun t e n hn => by rw [orFail_eq_ok.1 hn]; rfl) _ _ _ _ _ hloop'
    simp only [Nat.zero_add] at hfirst hsecond
    rw [sigOpCost, if_neg hlacks, hfirst, hsecond, sum_map_add, sum_map_mul_right, Nat.add_assoc]
    congr 2
    · congr 2
      refine map_congr_left fun t _ => ?_
      rw [sigOpShare, if_neg hlacks, inputSigOps]
      cases view.lookupEntry t.previousOutPoint <;> rfl
    · congr 1
      refine map_congr_left fun t _ => ?_
      rw [sigOpShare, if_neg hlacks, inputSigOps]
      cases view.lookupEntry t.previousOutPoint <;> rfl

end

end Jaxnetd.Chaindata
