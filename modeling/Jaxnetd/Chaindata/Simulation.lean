import Jaxnetd.Chaindata.Disconnect
import Jaxnetd.Chaindata.Fetch

/-!
# Views and the ledger

A view over a database stands for a ledger: `Settled` says that the view has the row of the ledger at an outpoint. Outputs
added to the view before their transaction is connected are not on the ledger yet, so `Sim` settles every outpoint but
those. Connecting a transaction is its transfer on the ledger (`Sim.connect`), if a swap transaction whose outputs are spent
later in the block finds all its inputs.
-/

namespace Jaxnetd.Chaindata
open Wire TxScript Checks UtxoViewpoint List

variable {H : Type} [DecidableEq H] {o : OutPoint H} {e : UtxoEntry}

def Settled (db ledger : UtxoSet H) (view : UtxoViewpoint H) (o : OutPoint H) : Prop :=
  match view.entries.get o with
  | none => ledger.get o = db.get o
  | some none => db.get o = none ∧ ledger.get o = none
  | some (some e) =>
    if e.spent then e.modified ∧ ledger.get o = none
    else ledger.get o = some e.toSpentTxOut ∧ (e.modified ∨ db.get o = some e.toSpentTxOut)

variable {view view' : UtxoViewpoint H} {rest : List (MsgTx H)} {d : SpentTxOut} {found : OutPoint H → Bool}

section
variable {db ledger : UtxoSet H}

omit [DecidableEq H]

section
variable (h : Settled db ledger view o)
include h

theorem Settled.congr {ledger' : UtxoSet H} (hview : view'.entries.get o = view.entries.get o)
    (hledger : ledger'.get o = ledger.get o) : Settled db ledger' view' o := by
  unfold Settled
  rw [hview, hledger]
  exact h

theorem Settled.of_db {db' : UtxoSet H} (hdb : db'.get o = db.get o) : Settled db' ledger view o := by
  unfold Settled
  rw [hdb]
  exact h

theorem Settled.get_putUtxoView : (putUtxoView db view).get o = ledger.get o := by
  rw [putUtxoView, GoMap.get_overlay]
  unfold Settled at h
  split at h
  · next he => simp [he, h]
  · next he => simp [he, putEntry, h]
  · next e he =>
    split at h
    · next hs => simp [he, putEntry, h, hs]
    · next hs =>
      rcases hm : e.modified with _ | _
      · simpa [he, putEntry, hm, h.1] using h.2
      · simp [he, putEntry, hm, hs, h.1]

end

theorem putUtxoView_eq (h : ∀ o, Settled db ledger view o) :
    putUtxoView db view = ledger := GoMap.ext fun o => (h o).get_putUtxoView

theorem Settled.get_of_lookup
    (h : Settled db ledger view o) (he : view.lookupEntry o = some e) (hs : e.spent = false) :
    ledger.get o = some e.toSpentTxOut := by
  unfold Settled at h
  rw [lookupEntry_eq_some.1 he] at h
  simp only [hs] at h
  exact h.1

end

variable [ChainHash H] {db ledger : UtxoSet H} {txs : List (MsgTx H)} {height : Int} {needed : List (OutPoint H)}
  {view view' : UtxoViewpoint H} {tx : MsgTx H} {stxos stxos' : Option (List SpentTxOut)} {Q : SpentTxOut → Prop}

/-- The view stands for the ledger, apart from the outputs of the transactions in `rest` added early. -/
def Sim (db : UtxoSet H) (txs : List (MsgTx H)) (height : Int) (needed : List (OutPoint H)) (rest : List (MsgTx H))
    (view : UtxoViewpoint H) (ledger : UtxoSet H) : Prop :=
  ∀ o, Settled db ledger view o ∨ o ∉ needed ∧ ∃ tx ∈ rest, SpentLater txs tx ∧ AddedEarly view height tx o

theorem Fetched.sim (h : Fetched db txs height view needed) : Sim db txs height needed txs view db := by
  intro o
  by_cases ho : o ∈ needed
  · left
    unfold Settled
    rw [h.looked_up o ho]
    rcases hdb : db.get o with _ | d <;> simp [hdb, fetchUtxoEntry]
  · rcases h.others o ho with hnone | hearly
    · left
      simp [Settled, hnone]
    · exact Or.inr ⟨ho, hearly⟩

theorem Sim.settled_input {view₀ : UtxoViewpoint H} {pre : List (MsgTx H)}
    (hfetched : Fetched db txs height view₀ needed) (hdistinct : (txs.map MsgTx.txHash).Nodup)
    (htxs : txs = pre ++ tx :: rest) (hpre : pre ≠ []) (hsim : Sim db txs height needed (tx :: rest) view ledger)
    (ho : o ∈ tx.txIn.map TxIn.previousOutPoint) : Settled db ledger view o := by
  rcases hsim o with h | ⟨hneeded, t, ht, -, d, hd, -⟩
  · exact h
  · exfalso
    obtain ⟨txIn, htxIn, rfl⟩ := mem_map.1 ho
    rcases hfetched.inputs pre tx rest htxs hpre txIn htxIn with hin | ⟨t', ht', hhash⟩
    · exact hneeded hin
    · subst htxs
      rw [map_append, nodup_append] at hdistinct
      refine hdistinct.2.2 t'.txHash (mem_map_of_mem ht') t.txHash (mem_map_of_mem ht) ?_
      rw [hhash, hash_of_outputAt hd]

theorem exists_missed
    (hconn : Connected view tx height stxos view' stxos') (hout : outputAt tx height o = some d)
    (hnone : createdAt view.found tx height o = none) :
    tx.swapTx ∧ ∃ txIn ∈ tx.txIn, ¬view.found txIn.previousOutPoint := by
  have hkeeps : keeps view.found tx o.index = false := by
    by_contra hk
    rw [createdAt, if_pos (by simpa using hk), hout] at hnone
    cases hnone
  simp only [keeps, Bool.or_eq_false_iff, Bool.not_eq_false'] at hkeeps
  obtain ⟨⟨hcb, hswap⟩, hmissed⟩ := hkeeps
  have hlt : o.index < tx.txIn.length := by
    rw [(hconn.swap (by simp [hcb]) hswap).1]
    exact index_lt_of_outputAt hout
  rw [getElem?_eq_getElem hlt] at hmissed
  exact ⟨hswap, tx.txIn[o.index], getElem_mem hlt, by simpa using hmissed⟩

theorem get_transferOf_created (ledger : UtxoSet H)
    (h : createdAt found tx height o = some d) : ((transferOf found tx height).apply ledger).get o = some d :=
  Ledger.get_setAll_of_mem (nodup_createdBy ..) (mem_createdBy.2 h)

theorem get_transferOf_of_none (ledger : UtxoSet H)
    (h : createdAt found tx height o = none) : ((transferOf found tx height).apply ledger).get o =
      if o ∈ spentBy found tx then none else ledger.get o := by
  have hkey : o ∉ (createdBy found tx height).map Prod.fst := by simp [mem_keys_createdBy, h]
  exact (Ledger.get_setAll_of_notMem hkey).trans (Ledger.get_deleteAll ..)

theorem Sim.connect (hsim : Sim db txs height needed (tx :: rest) view ledger)
    (hconn : Connected view tx height stxos view' stxos')
    (hunspent : ∀ o ∈ spentBy view.found tx, ∃ e, view.lookupEntry o = some e ∧ e.spent = false)
    (hwhole : tx.swapTx → SpentLater txs tx → ∀ txIn ∈ tx.txIn, view.found txIn.previousOutPoint) :
    Sim db txs height needed rest view' ((transferOf view.found tx height).apply ledger) := by
  intro o
  have hentry := hconn.entries o
  rcases hcreated : createdAt view.found tx height o with _ | d
  · have hget := get_transferOf_of_none ledger hcreated
    rw [hcreated, Option.map_none, Option.none_or, spentEntry] at hentry
    by_cases hspent : o ∈ spentBy view.found tx
    · left
      obtain ⟨e, he, hs⟩ := hunspent o hspent
      rw [if_pos hspent] at hget hentry
      simp [Settled, hentry, he, hget, UtxoEntry.spend, hs]
    · rw [if_neg hspent] at hget hentry
      rcases hsim o with h | ⟨hneeded, t, ht, hlater, d, hd, hget'⟩
      · exact Or.inl (h.congr hentry hget)
      · rcases mem_cons.1 ht with rfl | ht
        · obtain ⟨hswap, txIn, htxIn, hmissed⟩ := exists_missed hconn hd hcreated
          exact absurd (hwhole hswap hlater txIn htxIn) hmissed
        · exact Or.inr ⟨hneeded, t, ht, hlater, d, hd, hentry.trans hget'⟩
  · left
    have hget := get_transferOf_created ledger hcreated
    rw [hcreated] at hentry
    simp [Settled, hentry, hget]

/-! ## What holds of the data of all entries -/

def EntriesAt (Q : OutPoint H → SpentTxOut → Prop) (view : UtxoViewpoint H) : Prop :=
  ∀ o e, view.entries.get o = some (some e) → Q o e.toSpentTxOut

def RowsAt (Q : OutPoint H → SpentTxOut → Prop) (ledger : UtxoSet H) : Prop := ∀ o d, ledger.get o = some d → Q o d

def OutputsAt (Q : OutPoint H → SpentTxOut → Prop) (height : Int) (tx : MsgTx H) : Prop :=
  ∀ o d, outputAt tx height o = some d → Q o d

section
variable {Q : OutPoint H → SpentTxOut → Prop}

omit [DecidableEq H] [ChainHash H] in
theorem EntriesAt.put (hview : EntriesAt Q view) (hdb : RowsAt Q db) : RowsAt Q (putUtxoView db view) := by
  intro o d hd
  rw [putUtxoView, GoMap.get_overlay] at hd
  rcases he : view.entries.get o with _ | _ | e
  · rw [he] at hd
    exact hdb o d hd
  · rw [he] at hd
    exact hdb o d hd
  · have hQ := hview o e he
    rw [he, Option.bind_some, putEntry] at hd
    split at hd
    · exact hdb o d hd
    · split at hd
      · cases hd
      · cases hd
        exact hQ

theorem Fetched.entriesAt (h : Fetched db txs height view needed) (hdb : RowsAt Q db)
    (htxs : ∀ tx ∈ txs, OutputsAt Q height tx) : EntriesAt Q view := by
  intro o e he
  by_cases ho : o ∈ needed
  · rw [h.looked_up o ho, Option.some.injEq, fetchUtxoEntry, Option.map_eq_some_iff] at he
    obtain ⟨d, hd, rfl⟩ := he
    exact hdb o d hd
  · rcases h.others o ho with hnone | ⟨tx, htx, -, d, hd, hget⟩
    · rw [hnone] at he
      cases he
    · rw [hget, Option.some.injEq, Option.some.injEq] at he
      subst he
      exact htxs tx htx o d hd

section
omit [ChainHash H]

theorem EntriesAt.setEntry (h : EntriesAt Q view) (he : Q o e.toSpentTxOut) :
    EntriesAt Q (view.setEntry o (some e)) := by
  intro o' e' he'
  rw [get_setEntry] at he'
  split at he'
  · next ho =>
    cases he'
    exact ho ▸ he
  · exact h o' e' he'

theorem EntriesAt.spend (h : EntriesAt Q view) (he : view.lookupEntry o = some e) :
    EntriesAt Q (view.setEntry o (some e.spend)) := by
  refine h.setEntry ?_
  rw [toSpentTxOut_spend]
  exact h o e (lookupEntry_eq_some.1 he)

end

theorem EntriesAt.connect [Primitives] (h : EntriesAt Q view) (htx : OutputsAt Q height tx)
    (hconn : view.connectTransaction tx height stxos = .ok (view', stxos')) : EntriesAt Q view' :=
  KeptBy.connect (P := fun view _ => EntriesAt Q view) ⟨fun _ _ _ _ _ _ he h => h.spend he,
    fun _ _ o d hd h => h.setEntry (htx o d hd)⟩ hconn h

theorem EntriesAt.connectAll [Primitives] {txs : List (MsgTx H)} (h : EntriesAt Q view)
    (htxs : ∀ tx ∈ txs, OutputsAt Q height tx)
    (hconn : connectAll height txs view stxos = .ok (view', stxos')) : EntriesAt Q view' := by
  induction txs generalizing view stxos with
  | nil =>
    cases hconn
    exact h
  | cons tx txs ih =>
    rw [forall_mem_cons] at htxs
    simp only [UtxoViewpoint.connectAll, ok_rules] at hconn
    obtain ⟨view₁, stxos₁, htx, hrest⟩ := hconn
    exact ih (h.connect htxs.1 htx) htxs.2 hrest

/-- What holds of the outputs of the genesis block holds of the view that is stored for it. -/
theorem entriesAt_genesisView [Primitives] {txs : List (MsgTx H)} (htxs : ∀ tx ∈ txs, OutputsAt Q height tx) (beacon : Bool)
    (hash : H) : EntriesAt Q (genesisView beacon txs height hash) := by
  have hempty : EntriesAt Q (newUtxoViewpoint beacon hash) := by
    intro o e he
    cases he
  simp only [genesisView]
  cases hconn : (newUtxoViewpoint beacon hash).connectTransactions txs height hash none with
  | error e => exact hempty
  | ok r =>
    simp only [connectTransactions, ok_rules] at hconn
    obtain ⟨view, stxos, hall, rfl⟩ := hconn
    intro o e he
    exact hempty.connectAll htxs hall o e he

end

/-! ## Properties that do not depend on the outpoint -/

def EntriesAll (Q : SpentTxOut → Prop) (view : UtxoViewpoint H) : Prop :=
  ∀ o e, view.entries.get o = some (some e) → Q e.toSpentTxOut

def RowsAll (Q : SpentTxOut → Prop) (ledger : UtxoSet H) : Prop := ∀ o d, ledger.get o = some d → Q d

def OutputsAll (Q : SpentTxOut → Prop) (height : Int) (tx : MsgTx H) : Prop :=
  ∀ o d, outputAt tx height o = some d → Q d

section
omit [DecidableEq H] [ChainHash H]

theorem EntriesAll.own (hview : EntriesAll Q view) (h : view.found o) : Q (view.ownOutput o) := by
  obtain ⟨e, he, heq⟩ := Option.map_eq_some_iff.1 (dataAt_eq_own h)
  rw [← heq]
  exact hview o e (lookupEntry_eq_some.1 he)

theorem EntriesAll.put (hview : EntriesAll Q view) (hdb : RowsAll Q db) : RowsAll Q (putUtxoView db view) :=
  EntriesAt.put (Q := fun _ => Q) hview hdb

end

omit [ChainHash H] in
theorem rowsAll_single {o : OutPoint H} (h : Q d) : RowsAll Q (GoMap.empty.set o d) := by
  intro o' d' hd
  rw [GoMap.get_set] at hd
  split at hd <;> cases hd
  exact h

theorem Fetched.entriesAll (h : Fetched db txs height view needed) (hdb : RowsAll Q db)
    (htxs : ∀ tx ∈ txs, OutputsAll Q height tx) : EntriesAll Q view :=
  h.entriesAt (Q := fun _ => Q) hdb htxs

theorem EntriesAll.connect [Primitives] (h : EntriesAll Q view) (htx : OutputsAll Q height tx)
    (hconn : view.connectTransaction tx height stxos = .ok (view', stxos')) : EntriesAll Q view' :=
  EntriesAt.connect (Q := fun _ => Q) h htx hconn

/-! ## Entries stay in a view -/

def Grows (view view' : UtxoViewpoint H) : Prop := ∀ o, view.found o → view'.found o

omit [DecidableEq H] [ChainHash H] in
theorem Grows.trans {view'' : UtxoViewpoint H} (h : Grows view view') (h' : Grows view' view'') :
    Grows view view'' := fun o ho => h' o (h o ho)

theorem grows_connectTransaction [Primitives]
    (h : view.connectTransaction tx height stxos = .ok (view', stxos')) : Grows view view' := by
  have hset (view' : UtxoViewpoint H) (o : OutPoint H) (e : UtxoEntry) (hgrows : Grows view view') :
      Grows view (view'.setEntry o (some e)) := by
    intro o' ho'
    rw [found, lookupEntry_setEntry]
    split
    · rfl
    · exact hgrows o' ho'
  exact KeptBy.connect (P := fun view' _ => Grows view view') ⟨fun _ _ _ _ _ _ _ => hset _ _ _,
    fun _ _ _ _ _ => hset _ _ _⟩ h fun _ => id

end Jaxnetd.Chaindata
