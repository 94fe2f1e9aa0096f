import Jaxnetd.Chaindata.EadSet
import Jaxnetd.Lib.Latest

/-!
# Registrations not spent

What the set of addresses stands for: the registrations whose outputs are not spent, in the order in which they were made. A
later registration takes the place of an earlier one of the same address. `Mirrors` says that a set has exactly these
addresses, `Tracks` what is left of that while a block is connected.
-/

namespace Jaxnetd.Chaindata
open Wire TxScript Checks List EadAddrSet EADAddress EADScriptData

variable {H : Type}

/-! ## The ledger of registrations -/

abbrev Registration (H : Type) := Bytes × EADAddress H

def Registration.outPoint (r : Registration H) : OutPoint H := ⟨r.2.txHash, r.2.txOutIndex⟩

/-- What makes two registrations the same: the owner, the IP or URL, and the shard. -/
def regKey (r : Registration H) : Bytes × Host × Nat := (r.1, r.2.host, r.2.shard)

def registration (data : EADScriptData) (hash : H) (ind : Nat) : Registration H :=
  (data.rawKey, (data.address hash ind).stored)

def EADScriptData.hits (data : EADScriptData) (r : Registration H) : Bool :=
  r.1 = data.rawKey && r.2.eq data.host data.shardID

section Ledger
variable [Primitives] [IPParser]

def registeredFrom (hash : H) : Nat → List TxOut → List (Registration H)
  | _, [] => []
  | i, out :: outs =>
    ((eadOf out.pkScript).map fun data => registration data hash i).toList ++ registeredFrom hash (i + 1) outs

variable [DecidableEq H] [ChainHash H]

def registered (tx : MsgTx H) : List (Registration H) :=
  if tx.version = txVerEADAction then registeredFrom tx.txHash 0 tx.txOut else []

omit [Primitives] [IPParser] in
def spends (tx : MsgTx H) (r : Registration H) : Bool :=
  !isCoinBase tx && tx.txIn.any fun txIn => txIn.previousOutPoint = r.outPoint

variable (live : List (Registration H))

def liveStep (tx : MsgTx H) : List (Registration H) :=
  (live.filter fun r => !spends tx r) ++ registered tx

def liveAfter (txs : List (MsgTx H)) : List (Registration H) := txs.foldl liveStep live

end Ledger

/-! ## Sets that mirror a ledger -/

def Mirrors (eSet : EadAddrSet H) (live : List (Registration H)) : Prop :=
  ∀ owner a, a ∈ (of eSet owner).map stored ↔ Latest regKey live (owner, a)

def Host.Named (host : Host) : Prop := host.ip.isSome ∨ host.url ≠ []

instance (host : Host) : Decidable host.Named := inferInstanceAs (Decidable (_ ∨ _))

theorem Host.ext {h h' : Host} (hip : h.ip = h'.ip) (hurl : h.url = h'.url) : h = h' := by
  cases h
  cases h'
  cases hip
  cases hurl
  rfl

theorem EADAddress.eq_iff {a : EADAddress H} (hnamed : a.host.Named) {host : Host} {shardID : Nat} :
    a.eq host shardID = true ↔ a.host = host ∧ a.shard = shardID := by
  simp only [eq, Bool.and_eq_true, Bool.or_eq_true, decide_eq_true_eq]
  constructor
  · rintro ⟨⟨hip, hurl⟩, hshard⟩
    refine ⟨?_, hshard⟩
    rcases hip with hnone | hip
    · have hne : a.host.url ≠ [] := hnamed.resolve_left (by simp [hnone])
      have hurl' := hurl.resolve_left hne
      refine Host.ext ?_ hurl'
      rw [hnone]
      by_contra hsome
      refine hne (hurl'.trans (host.one ?_))
      exact Option.isSome_iff_ne_none.2 (Ne.symm hsome)
    · refine Host.ext hip ?_
      rcases hurl with hnil | hurl
      · rcases hnamed with hsome | hne
        · rw [hnil, host.one (hip ▸ hsome)]
        · exact absurd hnil hne
      · exact hurl
  · rintro ⟨rfl, rfl⟩
    exact ⟨⟨Or.inr rfl, Or.inr rfl⟩, rfl⟩

namespace Mirrors
variable {eSet eSet' : EadAddrSet H} {live : List (Registration H)} {data : EADScriptData}

theorem map_dropEq (data : EADScriptData) (l : List (EADAddress H)) :
    (dropEq data l).map stored = dropEq data (l.map stored) := by
  unfold dropEq
  rw [filter_map]
  rfl

theorem add {id : Nat} {hash : H} {ind : Nat} (h : Mirrors eSet live) (hnamed : ∀ r ∈ live, r.2.host.Named)
    (hadd : add eSet id data hash ind = .ok eSet') : Mirrors eSet' (live ++ [registration data hash ind]) := by
  intro owner a
  rw [(add_ok hadd).1, Latest.concat_iff]
  split
  · next howner =>
    subst howner
    rw [map_append, map_dropEq, mem_append, dropEq, mem_filter, h, map_singleton, mem_singleton, or_comm]
    have heq : (data.rawKey, a) = registration data hash ind ↔ a = (data.address hash ind).stored := by
      simp [registration]
    rw [heq]
    refine or_congr Iff.rfl (and_congr_right fun hlatest => ?_)
    rw [Bool.not_eq_true', Bool.eq_false_iff, Ne, eq_iff (hnamed _ hlatest.mem)]
    simp [regKey, registration, address, stored]
  · next howner =>
    rw [h]
    have hne : (owner, a) ≠ registration data hash ind := fun heq => howner (congrArg Prod.fst heq)
    have hkey : regKey (owner, a) ≠ regKey (registration data hash ind) := fun heq => howner (congrArg Prod.fst heq)
    simp [hne, hkey]

theorem remove (h : Mirrors eSet live) (data : EADScriptData) :
    Mirrors (remove eSet data) (live.filter fun r => !data.hits r) := by
  intro owner a
  rw [of_remove, Latest.filter_iff]
  · split
    · next howner =>
      subst howner
      rw [map_dropEq, dropEq, mem_filter, h]
      simp [hits]
    · next howner =>
      rw [h]
      simp [hits, howner]
  · intro r r' hkey
    simp only [regKey, Prod.mk.injEq] at hkey
    obtain ⟨howner, hhost, hshard⟩ := hkey
    simp [hits, eq, howner, hhost, hshard]

variable [Primitives] [IPParser]

theorem registerFrom {rand : OutPoint H → Nat} {hash : H} {i : Nat} {outs : List TxOut} (h : Mirrors eSet live)
    (hnamed : ∀ r ∈ live ++ registeredFrom hash i outs, r.2.host.Named)
    (hregister : EadViewpoint.registerFrom rand hash i outs eSet = .ok eSet') :
    Mirrors eSet' (live ++ registeredFrom hash i outs) := by
  induction outs generalizing i eSet live with
  | nil =>
    cases hregister
    rwa [registeredFrom, append_nil]
  | cons out outs ih =>
    rw [registeredFrom] at hnamed ⊢
    rcases eadOf_cases hregister with ⟨hnone, -, hrest⟩ | ⟨data, hdata, -, -, hrest⟩
    · rw [hnone] at hnamed ⊢
      exact ih h hnamed hrest
    · obtain ⟨eSet₁, hadd, hrest⟩ := bind_eq_ok.1 hrest
      rw [hdata, Option.map_some, Option.toList_some, ← append_assoc] at hnamed ⊢
      exact ih (h.add (fun r hr => hnamed r (by simp [hr])) hadd) hnamed hrest

end Mirrors

/-! ## Removals -/

def unmatched (seen : List EADScriptData) (r : Registration H) : Bool := seen.all fun data => !data.hits r

section Removals
variable [Primitives] [IPParser] {eSet eSet' : EadAddrSet H} {live : List (Registration H)}

def eadData (stxos : Option (List SpentTxOut)) : List EADScriptData :=
  (stxos.getD []).filterMap fun stxo => eadOf stxo.pkScript

theorem Mirrors.removeAll {stxos : List SpentTxOut} (h : Mirrors eSet live)
    (hremove : EadViewpoint.removeAll stxos eSet = .ok eSet') :
    Mirrors eSet' (live.filter (unmatched (eadData (some stxos)))) := by
  induction stxos generalizing eSet live with
  | nil =>
    cases hremove
    have hall : live.filter (unmatched (eadData (some []))) = live := filter_eq_self.2 fun r _ => rfl
    rwa [hall]
  | cons input stxos ih =>
    rcases eadOf_cases hremove with ⟨hnone, -, hrest⟩ | ⟨data, hdata, -, -, hrest⟩
    · have hskip : eadData (some (input :: stxos)) = eadData (some stxos) := filterMap_cons_none hnone
      rw [hskip]
      exact ih h hrest
    · have hcons : eadData (some (input :: stxos)) = data :: eadData (some stxos) := filterMap_cons_some hdata
      have hfilter : live.filter (unmatched (data :: eadData (some stxos))) =
          (live.filter fun r => !data.hits r).filter (unmatched (eadData (some stxos))) := by
        rw [filter_filter]
        refine filter_congr fun r _ => ?_
        simp [unmatched, Bool.and_comm]
      rw [hcons, hfilter]
      exact ih (h.remove data) hrest

variable {stxos : Option (List SpentTxOut)}

theorem Mirrors.disconnect (h : Mirrors eSet live)
    (hremove : EadViewpoint.disconnectEADAddresses eSet stxos = .ok eSet') :
    Mirrors eSet' (live.filter (unmatched (eadData stxos))) := by
  cases stxos with
  | none =>
    cases hremove
    have hall : live.filter (unmatched (eadData none)) = live := filter_eq_self.2 fun r _ => rfl
    rwa [hall]
  | some stxos => exact h.removeAll hremove

/-- The set has the registrations that no data matches that some pass of `disconnectEADAddresses` has seen. -/
def Tracks (live : List (Registration H)) (stxos : Option (List SpentTxOut)) (eSet : EadAddrSet H) : Prop :=
  ∃ seen ⊆ eadData stxos, Mirrors eSet (live.filter (unmatched seen))

theorem Mirrors.tracks (h : Mirrors eSet live) : Tracks live stxos eSet := by
  refine ⟨[], nil_subset _, ?_⟩
  rwa [show live.filter (unmatched []) = live from filter_eq_self.2 fun r _ => rfl]

theorem Tracks.mirrors (h : Tracks live stxos eSet)
    (hleft : ∀ data ∈ eadData stxos, ∀ r ∈ live, data.hits r = false) : Mirrors eSet live := by
  obtain ⟨seen, hseen, h⟩ := h
  have hall : live.filter (unmatched seen) = live := by
    refine filter_eq_self.2 fun r hr => all_eq_true.2 fun data hdata => ?_
    rw [hleft data (hseen hdata) r hr]
    rfl
  rwa [hall] at h

theorem eadData_append (l more : List SpentTxOut) : eadData (some l) ⊆ eadData (some (l ++ more)) := by
  intro data hdata
  simp only [eadData, Option.getD_some, filterMap_append, mem_append] at hdata ⊢
  exact Or.inl hdata

end Removals

/-! ## One transaction -/

section Step
variable [Primitives] [IPParser] [DecidableEq H] [ChainHash H] {rand : OutPoint H → Nat} {view view' : EadViewpoint H}
  {tx : MsgTx H} {stxos stxos' : Option (List SpentTxOut)} {live : List (Registration H)}

omit [DecidableEq H] in
theorem registered_swap (hswap : tx.swapTx) : registered tx = [] := by
  have hversion : tx.version = txVerCrossShardSwap := of_decide_eq_true hswap
  rw [registered, if_neg (by rw [hversion]; decide)]

/-- What is asked of a transaction: a spend that is not followed concerns no registration, and one that is can be found
in the list of spent outputs. -/
structure Followed (live : List (Registration H)) (tx : MsgTx H) (stxos' : Option (List SpentTxOut)) : Prop where
  coinbase : isCoinBase tx → registered tx = []
  swap : tx.swapTx → ∀ r ∈ live, spends tx r = false
  spent : ¬tx.swapTx → ∀ r ∈ live, spends tx r → ∃ data ∈ eadData stxos', data.hits r

theorem Tracks.step (h : Tracks live stxos view.eadAddresses) (hbeacon : view.beacon)
    (hnamed : ∀ r ∈ live ++ registered tx, r.2.host.Named) (hmore : eadData stxos ⊆ eadData stxos')
    (htx : Followed live tx stxos') (hconn : EadViewpoint.EadConnected rand view tx stxos' view') :
    Tracks (liveStep live tx) stxos' view'.eadAddresses := by
  obtain ⟨seen, hseen, h⟩ := h
  have hseen' : seen ⊆ eadData stxos' := fun data hdata => hmore (hseen hdata)
  by_cases hkept : isCoinBase tx ∨ tx.swapTx
  · -- neither the set nor the ledger changes
    have hsame : liveStep live tx = live := by
      have hspends : ∀ r ∈ live, spends tx r = false := by
        rcases hkept with hcb | hswap
        · exact fun r _ => by simp [spends, hcb]
        · exact htx.swap hswap
      have hregistered : registered tx = [] := hkept.elim htx.coinbase registered_swap
      rw [liveStep, hregistered, append_nil]
      exact filter_eq_self.2 fun r hr => by simp [hspends r hr]
    rw [hsame, hconn.kept hkept]
    exact ⟨seen, hseen', h⟩
  · rw [not_or] at hkept
    obtain ⟨eSet, hadd, hremove⟩ := hconn.updated hkept.1 hkept.2
    have hadded : Mirrors eSet (live.filter (unmatched seen) ++ registered tx) := by
      unfold registered at hnamed ⊢
      split at hadd
      · next hversion =>
        rw [if_pos hversion] at hnamed ⊢
        rw [EadViewpoint.connectEADTransaction, if_pos hbeacon] at hadd
        refine h.registerFrom (fun r hr => hnamed r ?_) hadd
        rcases mem_append.1 hr with hr | hr
        · exact mem_append_left _ (mem_filter.1 hr).1
        · exact mem_append_right _ hr
      · next hversion =>
        cases hadd
        rwa [if_neg hversion, append_nil]
    -- what the transaction spends is matched by its own data, so it makes no difference whether it still is there
    have hfilter : (live.filter (unmatched seen) ++ registered tx).filter (unmatched (eadData stxos')) =
        (liveStep live tx).filter (unmatched (eadData stxos')) := by
      rw [liveStep, filter_append, filter_append, filter_filter, filter_filter]
      congr 1
      refine filter_congr fun r hr => ?_
      by_cases hunmatched : unmatched (eadData stxos') r = true
      · have hold : unmatched seen r = true :=
          all_eq_true.2 fun data hdata => all_eq_true.1 hunmatched data (hseen' hdata)
        have hlive : spends tx r = false := by
          by_contra hspends
          obtain ⟨data, hdata, hhits⟩ := htx.spent hkept.2 r hr (by simpa using hspends)
          have hnot := all_eq_true.1 hunmatched data hdata
          rw [hhits] at hnot
          cases hnot
        rw [hold, hlive]
        rfl
      · rw [Bool.not_eq_true] at hunmatched
        rw [hunmatched, Bool.false_and, Bool.false_and]
    refine ⟨eadData stxos', List.Subset.refl _, ?_⟩
    rw [← hfilter]
    exact hadded.disconnect hremove

end Step

end Jaxnetd.Chaindata
