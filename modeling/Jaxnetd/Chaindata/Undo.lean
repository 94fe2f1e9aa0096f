import Jaxnetd.Chaindata.Simulation

/-!
# Disconnecting undoes connecting

Going back over the transactions of a block, an outpoint is settled on the old ledger as soon as no
transaction before the current one touches it (`Undone`). Inputs that no earlier transaction touches were
read from the old ledger, so what is put back there is the old row; outputs were not on it. Other outpoints
of the view may hold anything: they are touched again before the loop is through.
-/

namespace Jaxnetd.Chaindata
open Wire TxScript Checks UtxoViewpoint List Option

section Main
variable {H : Type} [DecidableEq H] [ChainHash H] {o : OutPoint H}

def Touches (height : Int) (tx : MsgTx H) (o : OutPoint H) : Prop :=
  (outputAt tx height o).isSome ∨ ¬isCoinBase tx ∧ o ∈ tx.txIn.map TxIn.previousOutPoint

def Untouched (height : Int) (txs : List (MsgTx H)) (o : OutPoint H) : Prop := ∀ tx ∈ txs, ¬Touches height tx o

def SpentModified (view : UtxoViewpoint H) : Prop :=
  ∀ o e, view.entries.get o = some (some e) → e.spent → e.modified

omit [DecidableEq H] [ChainHash H] in
theorem SpentModified.spend {view : UtxoViewpoint H} {e : UtxoEntry} (h : SpentModified view)
    (he : view.lookupEntry o = some e) : e.spend.modified := by
  unfold UtxoEntry.spend
  split
  · next hs => exact h o e (lookupEntry_eq_some.1 he) hs
  · rfl

/-- The blocks that can be undone: one coinbase in front, no swap transactions, distinct hashes, and no output unspent
already. -/
structure Undoable (U : UtxoSet H) (height : Int) (txs : List (MsgTx H)) : Prop where
  coinbase : ∃ first rest, txs = first :: rest ∧ isCoinBase first ∧ ∀ tx ∈ rest, ¬isCoinBase tx
  no_swap : ∀ tx ∈ txs, ¬tx.swapTx
  distinct : (txs.map MsgTx.txHash).Nodup
  fresh : ∀ tx ∈ txs, ∀ o d, outputAt tx height o = some d → U.get o = none

structure Behind (view₀ : UtxoViewpoint H) (height : Int) (pre : List (MsgTx H)) (view : UtxoViewpoint H) : Prop where
  heights : EntriesAll (fun d => 0 < d.height) view
  flags : SpentModified view
  same : ∀ o, Untouched height pre o → view.entries.get o = view₀.entries.get o

/-- The view over the database is back at the old ledger, apart from what the transactions left to undo
touch. -/
structure Undone (D U : UtxoSet H) (height : Int) (pre : List (MsgTx H)) (view : UtxoViewpoint H) : Prop where
  flags : SpentModified view
  settled : ∀ o, Untouched height pre o → Settled D U view o

section Forward
variable {height : Int} {view₀ view view' : UtxoViewpoint H} {stxos stxos' : Option (List SpentTxOut)} {tx : MsgTx H}
  {pre : List (MsgTx H)}

theorem untouched_concat : Untouched height (pre ++ [tx]) o ↔ Untouched height pre o ∧ ¬Touches height tx o := by
  simp [Untouched, or_imp, forall_and]

theorem UtxoViewpoint.Connected.get_of_not_touches (h : Connected view tx height stxos view' stxos')
    (ho : ¬Touches height tx o) : view'.entries.get o = view.entries.get o := by
  simp only [Touches, not_or, not_and, not_isSome_iff_eq_none] at ho
  have hcreated : createdAt view.found tx height o = none := by
    rw [createdAt, ho.1]
    split <;> rfl
  have hspent : o ∉ spentBy view.found tx := by
    unfold spentBy
    split
    · exact not_mem_nil
    · next hcb => exact fun hmem => ho.2 hcb (mem_of_mem_filter hmem)
  rw [h.entries o, hcreated, spentEntry, if_neg hspent]
  rfl

theorem UtxoViewpoint.Connected.spentModified (h : Connected view tx height stxos view' stxos')
    (hflags : SpentModified view) :
    SpentModified view' := by
  intro o e he hs
  rw [h.entries o] at he
  rcases hcreated : createdAt view.found tx height o with _ | d
  · rw [hcreated, map_none, none_or, spentEntry] at he
    split at he
    · rw [some.injEq, map_eq_some_iff] at he
      obtain ⟨e', he', rfl⟩ := he
      exact hflags.spend he'
    · exact hflags o e he hs
  · rw [hcreated, map_some, some_or, some.injEq, some.injEq] at he
    subst he
    rfl

theorem outputsAll_height (hheight : 0 < height) : OutputsAll (fun d => 0 < d.height) height tx := by
  intro o d hd
  obtain ⟨out, -, rfl⟩ := outputAt_data hd
  exact hheight

variable [Primitives]

theorem Behind.connect (hheight : 0 < height) (h : Behind view₀ height pre view)
    (hswap : ¬tx.swapTx) (hrun : view.connectTransaction tx height stxos = .ok (view', stxos')) :
    Behind view₀ height (pre ++ [tx]) view' := by
  have hconn := connectTransaction_ok (fun hs => absurd hs hswap) hrun
  refine ⟨h.heights.connect (outputsAll_height hheight) hrun, hconn.spentModified h.flags, fun o ho => ?_⟩
  obtain ⟨hpre, htx⟩ := untouched_concat.1 ho
  rw [hconn.get_of_not_touches htx, h.same o hpre]

theorem connectAll_concat {r : UtxoViewpoint H × Option (List SpentTxOut)} :
    connectAll height (pre ++ [tx]) view₀ stxos = .ok r ↔ ∃ view₁ stxos₁,
      connectAll height pre view₀ stxos = .ok (view₁, stxos₁) ∧ view₁.connectTransaction tx height stxos₁ = .ok r := by
  induction pre generalizing view₀ stxos with
  | nil => simp [connectAll, bind_eq_ok]
  | cons t pre ih =>
    simp only [cons_append, connectAll, ok_rules, ih]
    constructor
    · rintro ⟨v, s, h, view₁, stxos₁, h₁, h₂⟩
      exact ⟨view₁, stxos₁, ⟨v, s, h, h₁⟩, h₂⟩
    · rintro ⟨view₁, stxos₁, ⟨v, s, h, h₁⟩, h₂⟩
      exact ⟨v, s, h, view₁, stxos₁, h₁, h₂⟩

theorem behind_run (hheight : 0 < height) (hswap : ∀ tx ∈ pre, ¬tx.swapTx)
    (h₀ : Behind view₀ height [] view₀) (h : connectAll height pre view₀ stxos = .ok (view, stxos')) :
    Behind view₀ height pre view := by
  induction pre using reverseRecOn generalizing view stxos' with
  | nil =>
    cases h
    exact h₀
  | append_singleton pre tx ih =>
    obtain ⟨view₁, stxos₁, hpre, htx⟩ := connectAll_concat.1 h
    exact (ih (fun t ht => hswap t (by simp [ht])) hpre).connect hheight (hswap tx (by simp)) htx

end Forward

section Backward
variable {U D : UtxoSet H} {height : Int} {txs pre post : List (MsgTx H)} {tx : MsgTx H}
  {view₀ view view' w w' : UtxoViewpoint H} {needed : List (OutPoint H)}

theorem Behind.own_row (h : Behind view₀ height pre view) (hfetched : Fetched U txs height view₀ needed)
    (hdistinct : (txs.map MsgTx.txHash).Nodup) (htxs : txs = pre ++ tx :: post) (hpre : pre ≠ [])
    (ho : o ∈ tx.txIn.map TxIn.previousOutPoint) (hfound : view.found o)
    (huntouched : Untouched height pre o) : U.get o = some (view.ownOutput o) := by
  obtain ⟨e, he⟩ := isSome_iff_exists.1 hfound
  have hentry := lookupEntry_eq_some.1 he
  rw [h.same o huntouched] at hentry
  by_cases hneeded : o ∈ needed
  · rw [hfetched.looked_up o hneeded, some.injEq, fetchUtxoEntry, map_eq_some_iff] at hentry
    obtain ⟨d, hd, rfl⟩ := hentry
    rw [hd, ownOutput, dataAt_of_lookup he]
    rfl
  -- otherwise an earlier transaction has the hash, and the entry can only be one of its outputs
  exfalso
  obtain ⟨txIn, htxIn, rfl⟩ := mem_map.1 ho
  obtain ⟨t, ht, hhash⟩ := (hfetched.inputs pre tx post htxs hpre txIn htxIn).resolve_left hneeded
  rcases hfetched.others _ hneeded with hnone | ⟨t', ht', -, d, hd, -⟩
  · rw [hnone] at hentry
    cases hentry
  · have heq : t' = t := by
      refine inj_on_of_nodup_map hdistinct ht' (by simp [htxs, ht]) ?_
      rw [hhash, hash_of_outputAt hd]
    exact huntouched t ht (Or.inl (by rw [← heq, hd]; rfl))

theorem Undone.outs (h : Undone D U height (pre ++ [tx]) w)
    (hfresh : ∀ o d, Untouched height pre o → (isCoinBase tx ∨ o ∉ tx.txIn.map TxIn.previousOutPoint) →
      outputAt tx height o = some d → U.get o = none) :
    SpentModified (disconnectOuts tx.txHash (isCoinBase tx) height 0 tx.txOut w) ∧
      ∀ o, Untouched height pre o → (isCoinBase tx ∨ o ∉ tx.txIn.map TxIn.previousOutPoint) →
        Settled D U (disconnectOuts tx.txHash (isCoinBase tx) height 0 tx.txOut w) o := by
  have hat (o : OutPoint H) : outputsFrom tx.txHash (isCoinBase tx) height 0 tx.txOut o = outputAt tx height o := rfl
  have hget := get_disconnectOuts tx.txHash (isCoinBase tx) height 0 tx.txOut w
  simp only [hat] at hget
  have hmodified : ∀ o d, ((w.lookupEntry o).getD ⟨d, false, false⟩).spend.modified := by
    intro o d
    rcases he : w.lookupEntry o with _ | e
    · rfl
    · exact h.flags.spend he
  refine ⟨fun o e he hs => ?_, fun o hpre hin => ?_⟩
  · rw [hget o] at he
    split at he
    · next d hd =>
      rw [some.injEq, some.injEq] at he
      rw [← he]
      exact hmodified o d
    · exact h.flags o e he hs
  · rcases hd : outputAt tx height o with _ | d
    · have hentry := hget o
      rw [hd] at hentry
      refine (h.settled o (untouched_concat.2 ⟨hpre, ?_⟩)).congr hentry rfl
      rintro (hout | ⟨hcb, hmem⟩)
      · simp [hd] at hout
      · exact hin.elim hcb fun hn => hn hmem
    · unfold Settled
      rw [hget o, hd]
      simp only [spent_spend, if_true]
      exact ⟨hmodified o d, hfresh o d hpre hin hd⟩

theorem Undone.disconnect (h : Undone D U height (pre ++ [tx]) w)
    (hfresh : ∀ o d, Untouched height pre o → (isCoinBase tx ∨ o ∉ tx.txIn.map TxIn.previousOutPoint) →
      outputAt tx height o = some d → U.get o = none) (hcb : ¬isCoinBase tx)
    {own : OutPoint H → SpentTxOut}
    (hrow : ∀ o ∈ tx.txIn.map TxIn.previousOutPoint, Untouched height pre o → U.get o = some (own o))
    (hentries : ∀ o, w'.entries.get o = if o ∈ tx.txIn.map TxIn.previousOutPoint then some (some ⟨own o, false, true⟩)
      else (disconnectOuts tx.txHash false height 0 tx.txOut w).entries.get o) :
    Undone D U height pre w' := by
  obtain ⟨hflags, hsettled⟩ := h.outs hfresh
  rw [show isCoinBase tx = false by simpa using hcb] at hflags hsettled
  refine ⟨fun o e he hs => ?_, fun o hpre => ?_⟩
  · rw [hentries o] at he
    split at he
    · cases he
      cases hs
    · exact hflags o e he hs
  · by_cases ho : o ∈ tx.txIn.map TxIn.previousOutPoint
    · simp [Settled, hentries o, ho, hrow o ho hpre]
    · refine (hsettled o hpre (Or.inr ho)).congr ?_ rfl
      rw [hentries o, if_neg ho]

variable [Primitives]

section
variable (hblock : Undoable U height txs) (hheight : 0 < height) (hfetched : Fetched U txs height view₀ needed)
  (h₀ : Behind view₀ height [] view₀)
include hblock hheight hfetched h₀

theorem undone_run {first : MsgTx H}
    (hfirst : isCoinBase first) {S : List SpentTxOut} (htxs : txs = (first :: pre) ++ post)
    (hcb : ∀ tx ∈ pre, ¬isCoinBase tx)
    (hconn : connectAll height (first :: pre) view₀ (some []) = .ok (view, some S))
    (hw : Undone D U height (first :: pre) w) :
    S.length = (pre.flatMap MsgTx.txIn).length ∧
      ∃ w', disconnectRest D height pre.reverse S.reverse w = .ok (w', []) ∧ Undone D U height [first] w' := by
  induction pre using reverseRecOn generalizing view S w post with
  | nil =>
    simp only [connectAll, connectTransaction, if_pos hfirst] at hconn
    cases hconn
    exact ⟨rfl, w, rfl, hw⟩
  | append_singleton pre tx ih =>
    rw [← cons_append] at hconn hw
    obtain ⟨view₁, stxos₁, hpre, htx⟩ := connectAll_concat.1 hconn
    have hsplit : txs = (first :: pre) ++ tx :: post := by simp [htxs]
    have hswap : ¬tx.swapTx := hblock.no_swap tx (by simp [hsplit])
    have hconnected := connectTransaction_ok (fun hs => absurd hs hswap) htx
    have hcbtx : ¬isCoinBase tx := hcb tx (by simp)
    have hbehind := behind_run hheight (fun t ht => hblock.no_swap t (by rw [hsplit]; exact mem_append_left _ ht))
      h₀ hpre
    have hfound := hconnected.found_inputs hcbtx hswap
    obtain ⟨S₁, rfl, rfl⟩ : ∃ S₁, stxos₁ = some S₁ ∧
        S = S₁ ++ (tx.txIn.map TxIn.previousOutPoint).map view₁.ownOutput := by
      have hrec := hconnected.records hcbtx hswap
      rcases stxos₁ with _ | S₁
      · cases hrec
      · exact ⟨S₁, rfl, by simpa using hrec⟩
    obtain ⟨w₁, hrun, hentries⟩ := disconnectRest_cons D height
      (fun o ho => (hbehind.heights.own (hfound o ho)).ne') w
    have hw₁ := hw.disconnect (fun o d _ _ => hblock.fresh tx (by simp [hsplit]) o d) hcbtx (fun o ho hun =>
      hbehind.own_row hfetched hblock.distinct hsplit (cons_ne_nil _ _) ho (hfound o ho) hun) hentries
    obtain ⟨hlen, w', hw', hundone⟩ := ih hsplit (fun t ht => hcb t (by simp [ht])) hpre hw₁
    refine ⟨by simp [hlen], w', ?_, hundone⟩
    rw [reverse_append, reverse_append, reverse_singleton, singleton_append, hrun, hw']

theorem undone_disconnectTransactions {stxos : List SpentTxOut}
    (hconn : connectAll height txs view₀ (some []) = .ok (view, some stxos))
    (hw : Undone D U height txs w) (prevHash : H) :
    ∃ view', w.disconnectTransactions D txs height prevHash stxos = .ok view' ∧ putUtxoView D view' = U := by
  obtain ⟨first, rest, rfl, hfirst, hcb⟩ := hblock.coinbase
  obtain ⟨hlen, w', hrun, hw'⟩ := undone_run hblock hheight hfetched h₀ hfirst (append_nil _).symm hcb hconn hw
  obtain ⟨-, hsettled⟩ := @Undone.outs _ _ _ U D height [] first w' hw'
    fun o d _ _ => hblock.fresh first (by simp) o d
  rw [hfirst] at hsettled
  have hcount : stxos.length = countSpentOutputs (first :: rest) := by
    rw [countSpentOutputs_eq fun tx htx => hblock.no_swap tx (by simp [htx]), hlen]
  refine ⟨{ disconnectOuts first.txHash true height 0 first.txOut w' with bestHash := prevHash }, ?_, ?_⟩
  · simp only [disconnectTransactions, ok_rules, hcount, hrun, exists_eq_left', true_and]
  · exact putUtxoView_eq fun o => hsettled o (by simp [Untouched]) (Or.inl rfl)

end

end Backward

section Start
variable {U D : UtxoSet H} {height : Int} {txs : List (MsgTx H)} {view : UtxoViewpoint H} {needed : List (OutPoint H)}

theorem Fetched.spentModified (h : Fetched U txs height view needed) : SpentModified view := by
  intro o e he hs
  by_cases ho : o ∈ needed
  · rw [h.looked_up o ho, some.injEq, fetchUtxoEntry, map_eq_some_iff] at he
    obtain ⟨d, -, rfl⟩ := he
    cases hs
  · rcases h.others o ho with hnone | ⟨tx, -, -, d, -, hget⟩
    · rw [hnone] at he
      cases he
    · rw [hget] at he
      cases he
      rfl

theorem Fetched.behind (h : Fetched U txs height view needed) (hU : RowsAll (fun d => 0 < d.height) U)
    (hheight : 0 < height) : Behind view height [] view :=
  ⟨h.entriesAll hU fun _ _ => outputsAll_height hheight, h.spentModified, fun _ _ => rfl⟩

theorem Fetched.settled (h : Fetched D txs height view needed) (ho : Untouched height txs o) : Settled D D view o := by
  rcases h.sim o with hsettled | ⟨-, tx, htx, -, d, hd, -⟩
  · exact hsettled
  · exact absurd (Or.inl (by rw [hd]; rfl)) (ho tx htx)

end Start

variable [Primitives]

/-- Disconnecting a block gives back the set of unspent outputs that it was connected to: on the view behind the block,
whether it was written or not, and on a fresh view over the set that was written. -/
theorem disconnect_connect (U : UtxoSet H) (hU : RowsAll (fun d => 0 < d.height) U) (height : Int)
    (hheight : 0 < height) (txs : List (MsgTx H)) (hblock : Undoable U height txs) (beacon : Bool)
    (best blockHash prevHash : H) (view : UtxoViewpoint H) (stxos : List SpentTxOut)
    (hconn : ((newUtxoViewpoint beacon best).fetchInputUtxos U txs height).connectTransactions txs height blockHash
      (some []) = .ok (view, some stxos)) :
    (∀ D ∈ [U, putUtxoView U view], ∃ view', view.disconnectTransactions D txs height prevHash stxos = .ok view' ∧
      putUtxoView D view' = U) ∧
    ∃ view', ((newUtxoViewpoint beacon blockHash).fetchInputUtxos (putUtxoView U view) txs height).disconnectTransactions
        (putUtxoView U view) txs height prevHash stxos = .ok view' ∧
      putUtxoView (putUtxoView U view) view' = U := by
  have hne : txs ≠ [] := by
    obtain ⟨first, rest, rfl, -⟩ := hblock.coinbase
    exact cons_ne_nil _ _
  obtain ⟨needed, hfetched⟩ := fetchInputUtxos_fetched hblock.distinct hne U height beacon best
  have h₀ := hfetched.behind hU hheight
  simp only [connectTransactions, ok_rules] at hconn
  obtain ⟨last, _, hall, rfl, rfl⟩ := hconn
  have hlast := behind_run hheight hblock.no_swap h₀ hall
  have hsettled : ∀ o, Untouched height txs o → Settled U U last o :=
    fun o ho => (hfetched.settled ho).congr (hlast.same o ho) rfl
  -- the rows that the block does not touch are written back as they were
  have hput : ∀ o, Untouched height txs o → (putUtxoView U last).get o = U.get o :=
    fun o ho => (hsettled o ho).get_putUtxoView
  have hundo : ∀ {D : UtxoSet H} {w : UtxoViewpoint H}, Undone D U height txs w →
      ∃ view', w.disconnectTransactions D txs height prevHash stxos = .ok view' ∧ putUtxoView D view' = U :=
    fun hw => undone_disconnectTransactions hblock hheight hfetched h₀ hall hw prevHash
  refine ⟨fun D hD => hundo ⟨hlast.flags, fun o ho => ?_⟩, hundo ?_⟩
  · rcases mem_pair.1 hD with rfl | rfl
    · exact hsettled o ho
    · exact (hsettled o ho).of_db (hput o ho)
  · obtain ⟨needed', hfetched'⟩ := fetchInputUtxos_fetched hblock.distinct hne (putUtxoView U last) height beacon blockHash
    exact ⟨hfetched'.spentModified, fun o ho => (hfetched'.settled ho).congr rfl (hput o ho).symm⟩

end Main

section Sample
attribute [local instance] sumHash toyPrimitives

def undoSpend : MsgTx Nat := ⟨1, [sampleInput 5 0], [⟨4, [0x51]⟩], 0⟩

def undoAgain : MsgTx Nat := ⟨1, [sampleInput undoSpend.txHash 0], [⟨3, [0x51]⟩], 0⟩

def undoTxs : List (MsgTx Nat) := [sampleCoinbase [0, 0] [0x51], undoSpend, undoAgain]

theorem undoTxs_undoable : Undoable sampleUtxos 2 undoTxs where
  coinbase := ⟨sampleCoinbase [0, 0] [0x51], [undoSpend, undoAgain], rfl, by decide, by decide⟩
  no_swap := by decide
  distinct := by decide
  fresh tx htx o d hd := by
    have hhash : ∀ tx ∈ undoTxs, tx.txHash ≠ 5 := by decide
    rw [sampleUtxos, GoMap.get_set_ne _ _ fun heq => hhash tx htx (by rw [← hash_of_outputAt hd, heq]), GoMap.get_empty]

theorem undo_connects : ((((newUtxoViewpoint true 7).fetchInputUtxos sampleUtxos undoTxs 2).connectTransactions undoTxs 2 8
    (some [])).map Prod.snd) = .ok (some [⟨5, [0x51], 1, false⟩, ⟨4, [0x51], 2, false⟩]) := by
  decide

theorem disconnect_connect_sample : ∃ view stxos,
    ((newUtxoViewpoint true 7).fetchInputUtxos sampleUtxos undoTxs 2).connectTransactions undoTxs 2 8 (some []) =
      .ok (view, some stxos) ∧
    ∃ view', view.disconnectTransactions sampleUtxos undoTxs 2 7 stxos = .ok view' ∧
      putUtxoView sampleUtxos view' = sampleUtxos := by
  obtain ⟨⟨view, stxos⟩, hrun, rfl⟩ := map_eq_ok.1 undo_connects
  exact ⟨view, _, hrun, (disconnect_connect sampleUtxos (rowsAll_single (by decide)) 2
    (by decide) undoTxs undoTxs_undoable true 7 8 7 view _
    hrun).1 sampleUtxos (by simp)⟩

end Sample

end Jaxnetd.Chaindata
