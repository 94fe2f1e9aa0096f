import Jaxnetd.Blockchain.HtlcLock
import Jaxnetd.Chaindata.EadLedger

/-!
# The addresses of exchange agents along the beacon chain

Each block of the beacon chain leaves the set of addresses that `connectBlock` stores. A spent output takes every address
equal to its own with it, whoever registered it and when; a swap, and a caller who does not ask for the spent outputs, take
none. In blocks without these cases the set follows the registrations not spent (`addresses_follow`).
-/

namespace Jaxnetd.Blockchain
open Wire TxScript Chaindata Checks UtxoViewpoint List Block EadRows BlockChain

section Main
variable {H : Type} [DecidableEq H] [ChainHash H] [Primitives] [IPParser] {r : Registration H}

/-! ## Runs -/

structure BeaconState (H : Type) where
  chain : ChainState H
  rows : EadRows H
  viewSet : EadAddrSet H

namespace BlockChain
variable (b : BlockChain H) (rand : OutPoint H → Nat) (s : BeaconState H)

/-- The view that `connectBlock` gets for a block: its outputs are fetched, its transactions connected. The caller may ask
for the spent outputs. -/
def connectedView (block : Block H) (asked : Bool) : Except ChainError (EadViewpoint H) := do
  let view ← (newEadViewpoint b.isBeacon block.header.prevBlockHash).fetchInputUtxos s.chain.utxos s.rows block.txs
    block.header.height
  let (view, _) ← EadViewpoint.connectAll rand block.header.height block.txs view (if asked then some [] else none)
  return view

def acceptWithAddresses (block : Block H) (asked : Bool) : Except ChainError (BeaconState H) := do
  let chain ← b.acceptBlock s.chain block
  let view ← b.connectedView rand s block asked
  return ⟨chain, putEADAddresses s.rows view.eadAddresses, view.eadAddresses⟩

end BlockChain

/-- Runs from a state with some unspent outputs and no address stored, as `createChainState` leaves it. -/
inductive AddressRun (b : BlockChain H) (rand : OutPoint H → Nat) (s₀ : ChainState H)
    (C : List (Block H) → Block H → Bool → Prop) : List (Block H) → BeaconState H → Prop
  | start : AddressRun b rand s₀ C [] ⟨s₀, ∅, ∅⟩
  | next {blocks : List (Block H)} {s s' : BeaconState H} {block : Block H} {asked : Bool}
      (hrun : AddressRun b rand s₀ C blocks s) (hcond : C blocks block asked)
      (hstep : b.acceptWithAddresses rand s block asked = .ok s') : AddressRun b rand s₀ C (blocks ++ [block]) s'

/-! ## The condition -/

def liveOf (blocks : List (Block H)) : List (Registration H) := liveAfter [] (blocks.flatMap txs)

def dataOf (txs : List (MsgTx H)) (o : OutPoint H) : List EADScriptData :=
  (txs.filter fun tx => tx.txHash = o.hash).filterMap fun tx => (tx.txOut[o.index]?).bind fun out => eadOf out.pkScript

structure Orderly (given : List (MsgTx H × Int)) (blocks : List (Block H)) (block : Block H) (asked : Bool) : Prop where
  /-- An output is fetched from the database, unless there is only the coinbase. -/
  reads : block.txs.length ≤ 1 ∨ ∃ tx ∈ block.txs.drop 1, ∃ txIn ∈ tx.txIn,
    txIn.previousOutPoint.hash ∉ block.txs.map MsgTx.txHash
  /-- The coinbase registers nothing. -/
  coinbase : ∀ tx ∈ block.txs, isCoinBase tx → registered tx = []
  /-- No registered address is empty. -/
  named : ∀ tx ∈ block.txs, ∀ r ∈ registered tx, r.2.host.Named
  /-- A swap spends no registration, nor does any transaction if the spent outputs are not asked for. -/
  followed : ∀ i < block.txs.length, ∀ tx ∈ block.txs[i]?, tx.swapTx ∨ asked = false →
    ∀ r ∈ liveAfter (liveOf blocks) (block.txs.take i), spends tx r = false
  /-- No registration left has the address of an output that the block spends. -/
  left : asked → ∀ tx ∈ block.txs, ¬isCoinBase tx → ∀ txIn ∈ tx.txIn,
    ∀ data ∈ dataOf (given.map Prod.fst ++ blocks.flatMap txs ++ block.txs) txIn.previousOutPoint,
      ∀ r ∈ liveAfter (liveOf blocks) block.txs, data.hits r = false

/-- The stored addresses are, for each owner, the latest registrations of a ledger. -/
def RowsMirror (rows : EadRows H) (live : List (Registration H)) : Prop :=
  ∀ owner a, a ∈ of rows owner ↔ Latest regKey live (owner, a)

/-! ## Registrations and the outputs they are made with -/

omit [DecidableEq H] [ChainHash H] in
theorem mem_registeredFrom {hash : H} {i : Nat} {outs : List TxOut} (h : r ∈ registeredFrom hash i outs) :
    ∃ j out data, outs[j]? = some out ∧ eadOf out.pkScript = some data ∧ r = registration data hash (i + j) := by
  induction outs generalizing i with
  | nil => cases h
  | cons out outs ih =>
    rw [registeredFrom, mem_append, Option.mem_toList, Option.map_eq_some_iff] at h
    rcases h with ⟨data, hdata, rfl⟩ | h
    · exact ⟨0, out, data, rfl, hdata, rfl⟩
    · obtain ⟨j, out', data, hout, hdata, rfl⟩ := ih h
      exact ⟨j + 1, out', data, hout, hdata, by rw [Nat.add_assoc, Nat.add_comm 1 j]⟩

variable {live : List (Registration H)} {txs : List (MsgTx H × Int)} {tx : MsgTx H}

section
omit [DecidableEq H]

theorem mem_registered (h : r ∈ registered tx) :
    ∃ j out data, tx.txOut[j]? = some out ∧ eadOf out.pkScript = some data ∧ r = registration data tx.txHash j := by
  unfold registered at h
  split at h
  · obtain ⟨j, out, data, hout, hdata, rfl⟩ := mem_registeredFrom h
    exact ⟨j, out, data, hout, hdata, by rw [Nat.zero_add]⟩
  · cases h

theorem stored_of_registered (h : r ∈ registered tx) : r.2.stored = r.2 := by
  obtain ⟨j, out, data, -, -, rfl⟩ := mem_registered h
  simp [registration, EADAddress.stored]

end

theorem mem_liveAfter {txs : List (MsgTx H)}
    (h : r ∈ liveAfter live txs) : r ∈ live ∨ ∃ tx ∈ txs, r ∈ registered tx := by
  induction txs generalizing live with
  | nil => exact Or.inl h
  | cons tx txs ih =>
    rcases ih h with h | ⟨tx', htx', hr⟩
    · rcases mem_append.1 h with h | h
      · exact Or.inl (mem_filter.1 h).1
      · exact Or.inr ⟨tx, mem_cons_self, h⟩
    · exact Or.inr ⟨tx', mem_cons_of_mem _ htx', hr⟩

theorem hits_of_created (hapart : HashesApart (txs.map Prod.fst))
    (htx : tx ∈ txs.map Prod.fst) (hr : r ∈ registered tx) {d : SpentTxOut} (hd : CreatedBy txs r.outPoint d) :
    ∃ data, eadOf d.pkScript = some data ∧ data.hits r = true := by
  obtain ⟨j, out, data, hout, hdata, rfl⟩ := mem_registered hr
  obtain ⟨p, hp, hp'⟩ := hd
  have hbody := hapart p.1 (mem_map_of_mem hp) tx htx (hash_of_outputAt hp').symm
  have houts : p.1.txOut = tx.txOut := by
    change (withoutWitness p.1).txOut = (withoutWitness tx).txOut
    rw [hbody]
  obtain ⟨out', hout', rfl⟩ := outputAt_data hp'
  have hindex : (registration data tx.txHash j).outPoint.index = j := rfl
  rw [houts, hindex, hout, Option.some.injEq] at hout'
  subst hout'
  exact ⟨data, hdata, by simp [EADScriptData.hits, registration, EADAddress.stored, EADScriptData.address, EADAddress.eq]⟩

theorem mem_dataOf {o : OutPoint H} {d : SpentTxOut} (hd : CreatedBy txs o d)
    {data : EADScriptData} (hdata : eadOf d.pkScript = some data) : data ∈ dataOf (txs.map Prod.fst) o := by
  obtain ⟨p, hp, hp'⟩ := hd
  obtain ⟨out, hout, rfl⟩ := outputAt_data hp'
  refine mem_filterMap.2 ⟨p.1, mem_filter.2 ⟨mem_map_of_mem hp, ?_⟩, ?_⟩
  · exact decide_eq_true (hash_of_outputAt hp').symm
  · rw [hout, Option.bind_some]
    exact hdata

/-! ## What a transaction spends -/

section Spent
variable {Q : OutPoint H → SpentTxOut → Prop} {view view' : UtxoViewpoint H} {stxos stxos' : Option (List SpentTxOut)}
  {height : Int} {tx : MsgTx H}

section
omit [IPParser]

theorem connectTransaction_spent (h : EntriesAt Q view) (htx : OutputsAt Q height tx)
    (hconn : view.connectTransaction tx height stxos = .ok (view', stxos')) :
    ∃ more, stxos' = stxos.map (· ++ more) ∧
      ∀ d ∈ more, ¬isCoinBase tx ∧ ∃ txIn ∈ tx.txIn, Q txIn.previousOutPoint d := by
  refine (KeptBy.connect (P := fun view l => EntriesAt Q view ∧ ∃ more, l = stxos.map (· ++ more) ∧
    ∀ d ∈ more, ¬isCoinBase tx ∧ ∃ txIn ∈ tx.txIn, Q txIn.previousOutPoint d) ⟨?_, ?_⟩ hconn ⟨h, [], by simp, nofun⟩).2
  · rintro view _ txIn htxIn e hcb he ⟨h, more, rfl, hmore⟩
    refine ⟨h.spend he, more ++ [e.toSpentTxOut], ?_, fun d hd => ?_⟩
    · cases stxos <;> simp [recordSpent]
    · rcases mem_append.1 hd with hd | hd
      · exact hmore d hd
      · rw [mem_singleton.1 hd]
        exact ⟨hcb, txIn, htxIn, h _ e (lookupEntry_eq_some.1 he)⟩
  · exact fun _ _ o d hd h => ⟨h.1.setEntry (htx o d hd), h.2⟩

theorem spent_of_regular (hcb : ¬isCoinBase tx) (hswap : ¬tx.swapTx) {l : List SpentTxOut}
    (hconn : view.connectTransaction tx height (some l) = .ok (view', stxos')) {txIn : TxIn H} (htxIn : txIn ∈ tx.txIn) :
    ∃ e l', view.lookupEntry txIn.previousOutPoint = some e ∧ stxos' = some l' ∧ e.toSpentTxOut ∈ l' := by
  unfold connectTransaction at hconn
  rw [if_neg hcb, if_neg hswap] at hconn
  simp only [ok_rules] at hconn
  obtain ⟨-, view₁, stxos₁, hspend, -, -, rfl⟩ := hconn
  obtain ⟨hfound, -, hstxos⟩ := spendInputs_ok hspend
  obtain ⟨e, he⟩ := Option.isSome_iff_exists.1 (hfound _ (mem_map_of_mem htxIn))
  refine ⟨e, _, he, hstxos, mem_append_right _ ?_⟩
  exact mem_filterMap.2 ⟨_, mem_map_of_mem htxIn, by rw [dataAt, he]; rfl⟩

theorem beacon_connect (hconn : view.connectTransaction tx height stxos = .ok (view', stxos')) : view'.beacon = view.beacon :=
  KeptBy.connect (P := fun view' _ => view'.beacon = view.beacon) ⟨fun _ _ _ _ _ _ _ => id, fun _ _ _ _ _ => id⟩ hconn rfl

end

section
omit [Primitives] [IPParser]

theorem beacon_addTxOuts : (view.addTxOuts tx height).beacon = view.beacon :=
  @KeptBy.addTxOuts _ _ view _ (fun view' _ => view'.beacon = view.beacon) tx height none
    ⟨fun _ _ _ _ _ _ _ => id, fun _ _ _ _ _ => id⟩ rfl

theorem beacon_fetchTxs {txs rest : List (MsgTx H)} {i : Nat} {st : UtxoViewpoint H × List (OutPoint H)} :
    (fetchTxs txs height i rest st).1.beacon = st.1.beacon := by
  have hinputs : ∀ (i : Nat) txIns (st : UtxoViewpoint H × List (OutPoint H)),
      (fetchInputs txs height i txIns st).1.beacon = st.1.beacon := by
    intro i txIns
    induction txIns with
    | nil => exact fun _ => rfl
    | cons txIn txIns ih =>
      intro st
      rw [fetchInputs, ih]
      split
      · exact beacon_addTxOuts
      · split <;> rfl
  induction rest generalizing i st with
  | nil => rfl
  | cons tx rest ih => exact ih.trans (hinputs i tx.txIn st)

omit [ChainHash H] in
theorem beacon_fetchUtxosMain {db : UtxoSet H} {os : List (OutPoint H)} :
    (view.fetchUtxosMain db os).beacon = view.beacon := by
  induction os generalizing view with
  | nil => rfl
  | cons o os ih => exact ih

end

end Spent

/-! ## One block -/

section Block
variable {rand : OutPoint H → Nat} {blocks : List (Block H)} {block : Block H} {asked : Bool} {height : Int}
  {given : List (MsgTx H × Int)} {pre : List (MsgTx H)} {b : BlockChain H} {s₀ : ChainState H} {s s' : BeaconState H}

def placedWith (given : List (MsgTx H × Int)) (blocks : List (Block H)) (block : Block H) (height : Int) :
    List (MsgTx H × Int) :=
  given ++ placed blocks ++ block.txs.map fun tx => (tx, height)

omit [DecidableEq H] [ChainHash H] [Primitives] [IPParser] in
theorem placedWith_fst : (placedWith given blocks block height).map Prod.fst =
    given.map Prod.fst ++ blocks.flatMap Block.txs ++ block.txs := by
  simp [placedWith, placed, map_flatMap, Function.comp_def]

structure Midway (given : List (MsgTx H × Int)) (blocks : List (Block H)) (block : Block H) (height : Int) (asked : Bool)
    (pre : List (MsgTx H)) (view : EadViewpoint H) (stxos : Option (List SpentTxOut)) : Prop where
  tracks : Tracks (liveAfter (liveOf blocks) pre) stxos view.eadAddresses
  beacon : view.beacon
  entries : EntriesAt (CreatedBy (placedWith given blocks block height)) view.toUtxoViewpoint
  asked : stxos.isSome = asked
  spent : ∀ d ∈ stxos.getD [], ∃ tx ∈ block.txs, ¬isCoinBase tx ∧
    ∃ txIn ∈ tx.txIn, CreatedBy (placedWith given blocks block height) txIn.previousOutPoint d

structure Known (blocks : List (Block H)) : Prop where
  source : ∀ r ∈ liveOf blocks, ∃ tx ∈ blocks.flatMap Block.txs, r ∈ registered tx
  named : ∀ r ∈ liveOf blocks, r.2.host.Named

theorem Orderly.named_after (hcond : Orderly given blocks block asked) (hknown : Known blocks)
    (hpre : pre ⊆ block.txs) : ∀ r ∈ liveAfter (liveOf blocks) pre, r.2.host.Named := by
  intro r hr
  rcases mem_liveAfter hr with hr | ⟨tx, htx, hr⟩
  · exact hknown.named r hr
  · exact hcond.named tx (hpre htx) r hr

theorem Known.source_after (hknown : Known blocks) (hpre : pre ⊆ block.txs) :
    ∀ r ∈ liveAfter (liveOf blocks) pre, ∃ tx ∈ blocks.flatMap Block.txs ++ block.txs, r ∈ registered tx := by
  intro r hr
  rcases mem_liveAfter hr with hr | ⟨tx, htx, hr⟩
  · obtain ⟨tx, htx, hr⟩ := hknown.source r hr
    exact ⟨tx, mem_append_left _ htx, hr⟩
  · exact ⟨tx, mem_append_right _ (hpre htx), hr⟩

variable {stxos stxos' : Option (List SpentTxOut)} {view view' : EadViewpoint H} {post : List (MsgTx H)}
  {eSet : EadAddrSet H}

section
variable (hcond : Orderly given blocks block asked)
include hcond

/-- What a transaction spends is in the list, if one was asked for; else nothing that is spent is an address. -/
theorem Midway.followed (hknown : Known blocks)
    (hapart : HashesApart (given.map Prod.fst ++ blocks.flatMap Block.txs ++ block.txs))
    (htxs : block.txs = pre ++ tx :: post) (h : Midway given blocks block height asked pre view stxos)
    (hentries : view.toUtxoViewpoint.connectTransaction tx height stxos = .ok (view'.toUtxoViewpoint, stxos')) :
    Followed (liveAfter (liveOf blocks) pre) tx stxos' := by
  have hmem : tx ∈ block.txs := by simp [htxs]
  have hquiet : tx.swapTx ∨ asked = false → ∀ r ∈ liveAfter (liveOf blocks) pre, spends tx r = false := by
    have hfollowed := hcond.followed pre.length (by simp [htxs]) tx (by simp [htxs])
    rwa [show block.txs.take pre.length = pre by simp [htxs]] at hfollowed
  refine ⟨hcond.coinbase tx hmem, fun hswap => hquiet (Or.inl hswap), fun hswap r hr hspends => ?_⟩
  have hyes : asked = true := by
    by_contra hno
    rw [hquiet (Or.inr (by simpa using hno)) r hr] at hspends
    cases hspends
  obtain ⟨l, rfl⟩ := Option.isSome_iff_exists.1 (h.asked.trans hyes)
  simp only [spends, Bool.and_eq_true, Bool.not_eq_true', any_eq_true, decide_eq_true_eq] at hspends
  obtain ⟨hcb, txIn, htxIn, houtPoint⟩ := hspends
  obtain ⟨e, l', he, rfl, hin⟩ := spent_of_regular (by simp [hcb]) hswap hentries htxIn
  have hcreated := h.entries _ e (lookupEntry_eq_some.1 he)
  rw [houtPoint] at hcreated
  obtain ⟨tx', htx', hr'⟩ := hknown.source_after (show pre ⊆ block.txs by simp [htxs]) r hr
  have hplaced : tx' ∈ (placedWith given blocks block height).map Prod.fst := by
    rw [placedWith_fst, append_assoc]
    exact mem_append_right _ htx'
  obtain ⟨data, hdata, hhits⟩ := hits_of_created (by rwa [placedWith_fst]) hplaced hr' hcreated
  exact ⟨data, mem_filterMap.2 ⟨_, hin, hdata⟩, hhits⟩

theorem Midway.step (hknown : Known blocks)
    (hapart : HashesApart (given.map Prod.fst ++ blocks.flatMap Block.txs ++ block.txs))
    (htxs : block.txs = pre ++ tx :: post)
    (h : Midway given blocks block height asked pre view stxos)
    (hconn : view.connectTransaction rand tx height stxos = .ok (view', stxos')) :
    Midway given blocks block height asked (pre ++ [tx]) view' stxos' := by
  obtain ⟨hentries, head⟩ := EadViewpoint.connectTransaction_ok hconn
  have hmem : tx ∈ block.txs := by simp [htxs]
  have hpre : pre ⊆ block.txs := by simp [htxs]
  have houts : OutputsAt (CreatedBy (placedWith given blocks block height)) height tx :=
    fun o d hd => ⟨(tx, height), mem_append_right _ (mem_map_of_mem hmem), hd⟩
  obtain ⟨more, hmore, hspent⟩ := connectTransaction_spent h.entries houts hentries
  have hasked : stxos'.isSome = asked := by rw [hmore, Option.isSome_map, h.asked]
  refine ⟨?_, (beacon_connect hentries).trans h.beacon, h.entries.connect houts hentries, hasked, fun d hd => ?_⟩
  · have hlive : liveAfter (liveOf blocks) (pre ++ [tx]) = liveStep (liveAfter (liveOf blocks) pre) tx := by
      simp [liveAfter]
    rw [hlive]
    refine h.tracks.step h.beacon (fun r hr => ?_) ?_ (h.followed hcond hknown hapart htxs hentries) head
    · rcases mem_append.1 hr with hr | hr
      · exact hcond.named_after hknown hpre r hr
      · exact hcond.named tx hmem r hr
    · cases stxos with
      | none => exact nil_subset _
      | some l =>
        rw [hmore]
        exact eadData_append l more
  · cases stxos with
    | none =>
      rw [hmore] at hd
      cases hd
    | some l =>
      rw [hmore] at hd
      rcases mem_append.1 hd with hd | hd
      · exact h.spent d hd
      · obtain ⟨hcb, txIn, htxIn, hQ⟩ := hspent d hd
        exact ⟨tx, hmem, hcb, txIn, htxIn, hQ⟩

theorem Midway.run (hknown : Known blocks)
    (hapart : HashesApart (given.map Prod.fst ++ blocks.flatMap Block.txs ++ block.txs))
    (htxs : block.txs = pre ++ post)
    (h : Midway given blocks block height asked pre view stxos)
    (hrun : EadViewpoint.connectAll rand height post view stxos = .ok (view', stxos')) :
    Midway given blocks block height asked block.txs view' stxos' ∧
      ∀ owner ∈ view.eadAddresses, owner ∈ view'.eadAddresses := by
  induction post generalizing pre view stxos with
  | nil =>
    cases hrun
    rw [append_nil] at htxs
    rw [htxs]
    exact ⟨h, fun _ => id⟩
  | cons tx post ih =>
    simp only [EadViewpoint.connectAll, ok_rules] at hrun
    obtain ⟨view₁, stxos₁, hconn, hrun⟩ := hrun
    obtain ⟨hend, hkeys⟩ := ih (by rw [htxs, append_assoc, singleton_append])
      (h.step hcond hknown hapart htxs hconn) hrun
    exact ⟨hend, fun owner howner => hkeys owner ((EadViewpoint.connectTransaction_ok hconn).2.mem howner)⟩

theorem Midway.mirrors (h : Midway given blocks block height asked block.txs view stxos) :
    Mirrors view.eadAddresses (liveAfter (liveOf blocks) block.txs) := by
  refine h.tracks.mirrors fun data hdata r hr => ?_
  obtain ⟨d, hd, hdata⟩ := mem_filterMap.1 hdata
  obtain ⟨tx, htx, hcb, txIn, htxIn, hcreated⟩ := h.spent d hd
  have hasked : asked = true := by
    rw [← h.asked]
    cases stxos with
    | none => cases hd
    | some l => rfl
  have hmem := mem_dataOf hcreated hdata
  rw [placedWith_fst] at hmem
  exact hcond.left hasked tx htx hcb txIn htxIn data hmem r hr

end

/-- The stored addresses mirror the registrations that are not spent, and so does the view that was stored last. The view
of a block with nothing but a coinbase is left out: nothing is fetched for it, so no address is loaded into it. -/
structure Follows (blocks : List (Block H)) (s : BeaconState H) : Prop where
  rows : RowsMirror s.rows (liveOf blocks)
  view : ∀ block ∈ blocks.getLast?, 1 < block.txs.length → Mirrors s.viewSet (liveOf blocks)

theorem liveOf_concat (blocks : List (Block H)) (block : Block H) :
    liveOf (blocks ++ [block]) = liveAfter (liveOf blocks) block.txs := by
  simp [liveOf, liveAfter, foldl_append]

theorem Known.next (hknown : Known blocks) (hcond : Orderly given blocks block asked) : Known (blocks ++ [block]) := by
  constructor
  · intro r hr
    rw [liveOf_concat] at hr
    obtain ⟨tx, htx, hr⟩ := hknown.source_after (List.Subset.refl _) r hr
    exact ⟨tx, by simpa using htx, hr⟩
  · intro r hr
    rw [liveOf_concat] at hr
    exact hcond.named_after hknown (List.Subset.refl _) r hr

theorem mirrors_of_fetched (hknown : Known blocks) (hrows : RowsMirror s.rows (liveOf blocks))
    (h : fetchAllEADAddresses s.rows = .ok eSet) : Mirrors eSet (liveOf blocks) := by
  have hstored : ∀ owner, ∀ a ∈ of s.rows owner, a.stored = a := by
    intro owner a ha
    obtain ⟨tx, -, hr⟩ := hknown.source _ ((hrows owner a).1 ha).mem
    exact stored_of_registered hr
  intro owner a
  rw [(fetchAllEADAddresses_ok h owner).1, map_congr_left (hstored owner), map_id']
  exact hrows owner a

theorem liveAfter_coinbase {first : MsgTx H} (live : List (Registration H)) (hcb : isCoinBase first)
    (hregistered : registered first = []) : liveAfter live [first] = live := by
  simp only [liveAfter, foldl_cons, foldl_nil, liveStep, hregistered, append_nil]
  exact filter_eq_self.2 fun r _ => by simp [spends, hcb]

theorem connectedView_ok (h : b.connectedView rand s block asked = .ok view) :
    ∃ view₀ stxos, (newEadViewpoint b.isBeacon block.header.prevBlockHash).fetchInputUtxos s.chain.utxos s.rows block.txs
        block.header.height = .ok view₀ ∧
      EadViewpoint.connectAll rand block.header.height block.txs view₀ (if asked then some [] else none) =
        .ok (view, stxos) := by
  simp only [connectedView, ok_rules] at h
  obtain ⟨view₀, hfetch, view₁, stxos, hrun, rfl⟩ := h
  exact ⟨view₀, stxos, hfetch, hrun⟩

structure Begun (b : BlockChain H) (s : BeaconState H) (block : Block H) (needed : List (OutPoint H))
    (view : EadViewpoint H) :
    Prop where
  fetched : Fetched s.chain.utxos block.txs block.header.height view.toUtxoViewpoint needed
  beacon : view.beacon = b.isBeacon
  loaded : needed ≠ [] → b.isBeacon → fetchAllEADAddresses s.rows = .ok view.eadAddresses
  single : block.txs.length ≤ 1 → view.eadAddresses = ∅

section
omit [Primitives] [IPParser]

theorem needed_ne_nil {db : UtxoSet H} {view : UtxoViewpoint H} {needed : List (OutPoint H)} (hsane : SaneBlock block.txs)
    (hfetched : Fetched db block.txs height view needed) (htx : tx ∈ block.txs.drop 1) {txIn : TxIn H}
    (htxIn : txIn ∈ tx.txIn) (hbefore : txIn.previousOutPoint.hash ∉ block.txs.map MsgTx.txHash) : needed ≠ [] := by
  obtain ⟨first, rest, htxs, -⟩ := hsane.coinbase
  rw [htxs, drop_one, tail_cons] at htx
  obtain ⟨front, back, hrest⟩ := append_of_mem htx
  rcases hfetched.inputs (first :: front) tx back (by rw [htxs, hrest]; rfl) (by simp) txIn htxIn with hneeded |
    ⟨tx', htx', hhash⟩
  · exact ne_nil_of_mem hneeded
  · refine absurd (mem_map.2 ⟨tx', ?_, hhash⟩) hbefore
    rw [htxs, hrest]
    rw [mem_cons] at htx' ⊢
    exact htx'.imp_right (mem_append_left _)

theorem begun_of_fetch (hsane : SaneBlock block.txs)
    (h : (newEadViewpoint b.isBeacon block.header.prevBlockHash).fetchInputUtxos s.chain.utxos s.rows block.txs
      block.header.height = .ok view) : ∃ needed, Begun b s block needed view := by
  obtain ⟨hentries, hempty, hloaded⟩ := EadViewpoint.fetchUtxosMain_ok h
  have hfetched := fetchTxs_fetched hsane.distinct hsane.ne_nil s.chain.utxos block.header.height b.isBeacon
    block.header.prevBlockHash
  refine ⟨_, hentries ▸ hfetched, ?_, fun hneeded hb => hloaded hneeded (beacon_fetchTxs.trans hb), fun hshort => hempty ?_⟩
  · rw [hentries]
    exact beacon_fetchUtxosMain.trans beacon_fetchTxs
  · obtain ⟨first, rest, htxs, -⟩ := hsane.coinbase
    have hrest : rest = [] := by
      rw [htxs] at hshort
      simpa using hshort
    rw [htxs, hrest]
    rfl

end

theorem connectAll_coinbase {first : MsgTx H} (hcb : isCoinBase first)
    (h : EadViewpoint.connectAll rand height [first] view stxos = .ok (view', stxos')) :
    view'.eadAddresses = view.eadAddresses := by
  simp only [EadViewpoint.connectAll, bind_eq_ok, Prod.exists] at h
  obtain ⟨view₁, stxos₁, hconn, h⟩ := h
  cases h
  exact (EadViewpoint.connectTransaction_ok hconn).2.kept (Or.inl hcb)

omit [DecidableEq H] [ChainHash H] [Primitives] [IPParser] in
theorem rowsMirror_put {rows : EadRows H} (h : Mirrors eSet live)
    (hcovers : ∀ owner ∉ eSet, of rows owner = []) : RowsMirror (putEADAddresses rows eSet) live := by
  intro owner a
  rw [of_putEADAddresses, ← h]
  split
  · rfl
  · next hmem => rw [hcovers owner hmem, EadAddrSet.of_eq_nil hmem, map_nil]

theorem Follows.next (hbeacon : b.isBeacon) (hrows : RowsAt (Indexed given) s₀.utxos)
    (hchain : b.acceptBlocks s₀ blocks = .ok s.chain) (h : Follows blocks s) (hknown : Known blocks)
    (hcond : Orderly given blocks block asked)
    (hapart : HashesApart (given.map Prod.fst ++ blocks.flatMap Block.txs ++ block.txs))
    (hstep : b.acceptWithAddresses rand s block asked = .ok s') :
    Follows (blocks ++ [block]) s' := by
  simp only [acceptWithAddresses, ok_rules] at hstep
  obtain ⟨chain, hblock, view, hview, rfl⟩ := hstep
  obtain ⟨st, hacc⟩ := BlockChain.acceptBlock_ok hblock
  obtain ⟨view₀, stxos, hfetch, hrun⟩ := connectedView_ok hview
  obtain ⟨needed, hbegun⟩ := begun_of_fetch hacc.sane hfetch
  by_cases hlen : block.txs.length ≤ 1
  · -- only the coinbase: neither the rows nor the registrations change
    obtain ⟨first, rest, htxs, hcb, -⟩ := hacc.sane.coinbase
    have hrest : rest = [] := by
      rw [htxs] at hlen
      simpa using hlen
    rw [hrest] at htxs
    have hlive : liveOf (blocks ++ [block]) = liveOf blocks := by
      rw [liveOf_concat, htxs]
      exact liveAfter_coinbase _ hcb (hcond.coinbase first (by simp [htxs]) hcb)
    have hset : view.eadAddresses = ∅ := by
      rw [htxs] at hrun
      rw [connectAll_coinbase hcb hrun, hbegun.single hlen]
    constructor
    · rw [hlive, hset]
      exact h.rows
    · intro last hlast hlong
      rw [getLast?_concat, Option.mem_some_iff] at hlast
      subst hlast
      omega
  · obtain ⟨tx, htx, txIn, htxIn, hbefore⟩ := hcond.reads.resolve_left hlen
    have hload := hbegun.loaded (needed_ne_nil hacc.sane hbegun.fetched htx htxIn hbefore) hbeacon
    have hstart : Midway given blocks block block.header.height asked [] view₀ (if asked then some [] else none) := by
      refine ⟨(mirrors_of_fetched hknown h.rows hload).tracks, hbegun.beacon.trans hbeacon, ?_, ?_, ?_⟩
      · refine hbegun.fetched.entriesAt (fun o d hd => ?_) (fun tx htx o d hd => ?_)
        · obtain ⟨⟨p, hp, hd⟩, -⟩ := rowsAt_indexed hrows hchain o d hd
          exact ⟨p, mem_append_left _ hp, hd⟩
        · exact ⟨(tx, _), mem_append_right _ (mem_map_of_mem htx), hd⟩
      · cases asked <;> rfl
      · cases asked <;> simp
    obtain ⟨hend, hkeys⟩ := hstart.run hcond hknown hapart rfl hrun
    have hmirrors := hend.mirrors hcond
    rw [← liveOf_concat] at hmirrors
    refine ⟨rowsMirror_put hmirrors fun owner howner => ?_, fun _ _ _ => hmirrors⟩
    exact (fetchAllEADAddresses_ok hload owner).2 fun hmem => howner (hkeys owner hmem)

end Block

/-! ## Runs -/

/-- Along every run of orderly blocks, from any unspent outputs of given transactions, the stored addresses, and those of
the view that was stored last, are those of the registrations that are not spent, the latest one for each owner, IP or URL,
and shard. -/
theorem addresses_follow (b : BlockChain H) (hbeacon : b.isBeacon) (rand : OutPoint H → Nat)
    (given : List (MsgTx H × Int)) (s₀ : ChainState H) (hstart : RowsAt (Indexed given) s₀.utxos)
    (blocks : List (Block H)) (s : BeaconState H) (hrun : AddressRun b rand s₀ (Orderly given) blocks s)
    (hapart : HashesApart (given.map Prod.fst ++ blocks.flatMap Block.txs)) : Follows blocks s := by
  have hall : b.acceptBlocks s₀ blocks = .ok s.chain ∧ Known blocks ∧ Follows blocks s := by
    induction hrun with
    | start => exact ⟨rfl, ⟨nofun, nofun⟩, fun owner a => ⟨nofun, fun h => absurd h Latest.not_nil⟩, nofun⟩
    | @next blocks s s' block asked hrun hcond hstep ih =>
      rw [flatMap_append, flatMap_singleton, ← append_assoc] at hapart
      have hsub : HashesApart (given.map Prod.fst ++ blocks.flatMap txs) := fun tx htx tx' htx' =>
        hapart tx (mem_append_left _ htx) tx' (mem_append_left _ htx')
      obtain ⟨hchain, hknown, hfollows⟩ := ih hsub
      refine ⟨?_, hknown.next hcond, hfollows.next hbeacon hstart hchain hknown hcond hapart hstep⟩
      simp only [acceptWithAddresses, ok_rules] at hstep
      obtain ⟨chain, hblock, _, -, rfl⟩ := hstep
      exact acceptBlocks_concat.2 ⟨_, hchain, hblock⟩
  exact hall.2.2

end Main

section Sample

@[reducible] def agentPrimitives : Primitives := { openPrimitives with isURL := fun _ => true }

attribute [local instance] sumHash agentPrimitives

@[reducible] def noIPs : IPParser := ⟨fun _ => none, fun _ => rfl⟩

attribute [local instance] noIPs

def agentScript : Bytes :=
  [0x21] ++ List.replicate 33 0 ++ [0xac, 0x61, 0x51, 0x01, 0x05, 0x01, 0x61, 0x01, 0x07, 0x6d, 0x6d]

def agentOwner : Bytes := hexEncode (List.replicate 33 0)

def agentRegisters : MsgTx Nat := ⟨txVerEADAction, [paidInput [0x51] []], [⟨9, agentScript⟩], 0⟩

def agentRenews : MsgTx Nat :=
  ⟨txVerEADAction, [⟨⟨agentRegisters.txHash, 0⟩, [0x01, 0x01], [], maxUint32⟩], [⟨8, agentScript⟩], 0⟩

def emptyBlock : Block Nat := coinbaseBlock [0, 0] 1 7 8

def registeringBlock : Block Nat := sampleBlock 2 8 9 [sampleCoinbase [0, 1] [0x51], agentRegisters]

def renewingBlock : Block Nat := sampleBlock 3 9 10 [sampleCoinbase [0, 2] [0x51], agentRenews]

def agentRun : Except ChainError (Nat × Nat) := do
  let s₁ ← (toyChain Nat).acceptWithAddresses (fun _ => 0) ⟨sampleStart, ∅, ∅⟩ emptyBlock true
  let s₂ ← (toyChain Nat).acceptWithAddresses (fun _ => 0) s₁ registeringBlock true
  let s₃ ← (toyChain Nat).acceptWithAddresses (fun _ => 0) s₂ renewingBlock true
  return ((of s₂.rows agentOwner).length, (of s₃.rows agentOwner).length)

theorem agentRun_ok : agentRun = .ok (1, 0) := by
  decide +kernel

theorem addresses_follow_registration : ∃ s,
    AddressRun (toyChain Nat) (fun _ => 0) sampleStart (Orderly [(sampleCoinbase [1, 1] [0x51], 0)])
        [emptyBlock, registeringBlock] s ∧
      (of s.rows agentOwner).length = 1 ∧ Follows [emptyBlock, registeringBlock] s := by
  have hrun := agentRun_ok
  simp only [agentRun, ok_rules] at hrun
  obtain ⟨s₁, h₁, s₂, h₂, s₃, -, hone, -⟩ := hrun
  have hempty : Orderly [(sampleCoinbase [1, 1] [0x51], 0)] [] emptyBlock true :=
    ⟨by decide, by decide +kernel, by decide +kernel, by decide +kernel, by decide +kernel⟩
  have hregistering : Orderly [(sampleCoinbase [1, 1] [0x51], 0)] [emptyBlock] registeringBlock true :=
    ⟨by decide +kernel, by decide +kernel, by decide +kernel, by decide +kernel, by decide +kernel⟩
  have hall : AddressRun (toyChain Nat) (fun _ => 0) sampleStart (Orderly [(sampleCoinbase [1, 1] [0x51], 0)])
      [emptyBlock, registeringBlock] s₂ := .next (.next .start hempty h₁) hregistering h₂
  exact ⟨s₂, hall, hone, addresses_follow (toyChain Nat) rfl (fun _ => 0) _ sampleStart
    (payingGenesis_indexed [0x51]) _ s₂ hall
    (by unfold HashesApart; decide +kernel)⟩

/-- An address that is registered again by the transaction that spends its registration is lost. -/
theorem renewed_address_lost : ∃ s, AddressRun (toyChain Nat) (fun _ => 0) sampleStart (fun _ _ asked => asked = true)
      [emptyBlock, registeringBlock, renewingBlock] s ∧ of s.rows agentOwner = [] ∧
      (liveOf [emptyBlock, registeringBlock, renewingBlock]).map (fun r => (r.1, r.outPoint)) =
      [(agentOwner, ⟨agentRenews.txHash, 0⟩)] ∧
      ¬RowsMirror s.rows (liveOf [emptyBlock, registeringBlock, renewingBlock]) := by
  have hrun := agentRun_ok
  simp only [agentRun, ok_rules] at hrun
  obtain ⟨s₁, h₁, s₂, h₂, s₃, h₃, -, hzero⟩ := hrun
  have hlive : (liveOf [emptyBlock, registeringBlock, renewingBlock]).map (fun r => (r.1, r.outPoint)) =
      [(agentOwner, ⟨agentRenews.txHash, 0⟩)] := by
    decide +kernel
  have hnil : of s₃.rows agentOwner = [] := eq_nil_of_length_eq_zero hzero
  refine ⟨s₃, .next (.next (.next .start rfl h₁) rfl h₂) rfl h₃, hnil, hlive, fun hmirror => ?_⟩
  obtain ⟨r, hr, heq⟩ := map_eq_singleton_iff.1 hlive
  have howner : r.1 = agentOwner := congrArg Prod.fst heq
  have hlatest : Latest regKey (liveOf [emptyBlock, registeringBlock, renewingBlock]) (agentOwner, r.2) := by
    rw [hr, ← howner]
    exact ⟨[], [], rfl, by simp⟩
  have hmem := (hmirror agentOwner r.2).2 hlatest
  rw [hnil] at hmem
  cases hmem

end Sample

end Jaxnetd.Blockchain
