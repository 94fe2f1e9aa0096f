import Jaxnetd.Lib.GoMap

/-!
# The index of unspent outputs

A wallet keeps the outputs it may spend as rows, in the order they were added, and collects rows for an amount. Every shard
has a cursor, the position of the row that its last collection ended with, and a collection starts there. `RmUTXO` takes an
output out of the map of transactions but leaves its row, and rows that a collection passed over because of its filter stay
behind the cursor. `collect_right_iff` says, on the rows and the cursor before a collection, when neither does harm.
-/

namespace Jaxnetd.TxModels
open List

/-! ## The rows -/

structure UTXO where
  shardID : Nat
  address : String
  txHash : String
  outIndex : Nat
  value : Int
  used : Bool
  scriptType : String
  deriving DecidableEq

def UTXO.canBeSpend (utxo : UTXO) (shardID : Nat) : Bool :=
  !utxo.used && utxo.shardID == shardID && utxo.scriptType != "ead_address" && utxo.scriptType != "htlc" &&
    utxo.scriptType != "jax-burn"

/-- A filter is a set of addresses, or nil. -/
abbrev Filter := Option (List String)

/-- The two checks that the loops over the rows begin with. -/
def UTXO.wanted (utxo : UTXO) (shardID : Nat) (filter : Filter) : Bool :=
  utxo.canBeSpend shardID && filter.all (·.contains utxo.address)

structure IndexKey where
  shard : Nat
  hash : String
  deriving DecidableEq

/-- The maps of a transaction's outputs are one map here. The heights of the blocks are left out. -/
structure UTXOIndex where
  txs : GoMap (IndexKey × Nat) Nat
  lastUsed : GoMap Nat Nat
  utxo : List UTXO
  lastID : Nat

def total (rows : List (UTXO × Nat)) : Int := (rows.map fun p => p.1.value).sum

namespace UTXOIndex

def new : UTXOIndex := ⟨.empty, .empty, [], 0⟩

variable (index : UTXOIndex)

def mark (at_ : Nat → Bool) : UTXOIndex :=
  { index with utxo := index.utxo.mapIdx fun i utxo => if at_ i then { utxo with used := true } else utxo }

def resetUsedFlag : UTXOIndex :=
  { index with utxo := index.utxo.map fun utxo => { utxo with used := false }, lastUsed := .empty }

def rmUTXO (txHash : String) (utxoIndexID shardID : Nat) : UTXOIndex :=
  { index with txs := index.txs.delete (⟨shardID, txHash⟩, utxoIndexID) }

def markUsed (txHash : String) (utxoIndexID shardID : Nat) : UTXOIndex :=
  match index.txs.get (⟨shardID, txHash⟩, utxoIndexID) with
  | none => index
  | some utxoID => index.mark (· == utxoID)

def addUTXO (utxo : UTXO) : UTXOIndex :=
  { index with
    utxo := index.utxo ++ [utxo]
    txs := index.txs.set (⟨utxo.shardID, utxo.txHash⟩, utxo.outIndex) index.lastID
    lastID := index.lastID + 1 }

def cursor (shardID : Nat) : Nat := (index.lastUsed.get shardID).getD 0

/-- The rows that the loops do not pass over, with their positions. -/
def candidates (shardID : Nat) (filter : Filter) : List (UTXO × Nat) :=
  index.utxo.zipIdx.filter fun p => index.cursor shardID ≤ p.2 && p.1.wanted shardID filter

/-- The loop of `CollectForAmountFiltered`; `change` is an `int64`. -/
def takeRows : Int → List (UTXO × Nat) → List (UTXO × Nat)
  | _, [] => []
  | change, p :: rest =>
    let change := (change - p.1.value).bmod (2 ^ 64)
    if change ≤ 0 then [p] else p :: takeRows change rest

variable (amount : Int)

def taken (shardID : Nat) (filter : Filter) : List (UTXO × Nat) :=
  takeRows amount (index.candidates shardID filter)

def collectForAmountFiltered (shardID : Nat) (filter : Filter) :
    (List UTXO × Int) × UTXOIndex :=
  let taken := index.taken amount shardID filter
  let lastUsed := (taken.map Prod.snd).getLastD (index.cursor shardID)
  ((taken.map Prod.fst, 0),
    { index.mark (taken.map Prod.snd).contains with lastUsed := index.lastUsed.set shardID lastUsed })

def getForAmountFiltered (shardID : Nat) (filter : Filter) :
    Option UTXO × UTXOIndex :=
  match (index.candidates shardID filter).find? fun p => amount ≤ p.1.value with
  | none => (none, index)
  | some p => (some p.1, index.mark (· == p.2))

end UTXOIndex

/-! ## Runs -/

inductive Call where
  | addUTXO (utxo : UTXO)
  | rmUTXO (txHash : String) (utxoIndexID shardID : Nat)
  | markUsed (txHash : String) (utxoIndexID shardID : Nat)
  | resetUsedFlag
  | collect (amount : Int) (shardID : Nat) (filter : Filter)
  | get (amount : Int) (shardID : Nat) (filter : Filter)

/-- An index with the positions of the rows removed, and of those collected since the last reset. -/
structure History where
  index : UTXOIndex
  removed : List Nat
  collected : List Nat

namespace History

def step (s : History) : Call → History
  | .addUTXO utxo => { s with index := s.index.addUTXO utxo }
  | .rmUTXO txHash utxoIndexID shardID =>
    let removed := s.index.utxo.zipIdx.filter fun p =>
      p.1.txHash == txHash && p.1.outIndex == utxoIndexID && p.1.shardID == shardID
    { s with index := s.index.rmUTXO txHash utxoIndexID shardID, removed := s.removed ++ removed.map Prod.snd }
  | .markUsed txHash utxoIndexID shardID => { s with index := s.index.markUsed txHash utxoIndexID shardID }
  | .resetUsedFlag => { s with index := s.index.resetUsedFlag, collected := [] }
  | .collect amount shardID filter =>
    { s with
      index := (s.index.collectForAmountFiltered amount shardID filter).2
      collected := s.collected ++ (s.index.taken amount shardID filter).map Prod.snd }
  | .get amount shardID filter => { s with index := (s.index.getForAmountFiltered amount shardID filter).2 }

def start : History := ⟨.new, [], []⟩

def run (calls : List Call) : History := calls.foldl step start

/-- The rows that a collection may take, with their positions. -/
def eligible (s : History) (shardID : Nat) (filter : Filter) : List (UTXO × Nat) :=
  s.index.utxo.zipIdx.filter fun p => !s.removed.contains p.2 && p.1.wanted shardID filter

/-- What is collected is eligible and not collected twice, and enough if what is eligible is. -/
structure Right (s : History) (amount : Int) (shardID : Nat) (filter : Filter) : Prop where
  sound : s.index.taken amount shardID filter ⊆ s.eligible shardID filter
  once : (s.collected ++ (s.index.taken amount shardID filter).map Prod.snd).Nodup
  complete : amount ≤ total (s.eligible shardID filter) → amount ≤ total (s.index.taken amount shardID filter)

/-- The eligible rows behind the cursor. -/
def passedOver (s : History) (shardID : Nat) (filter : Filter) : List (UTXO × Nat) :=
  (s.eligible shardID filter).filter fun p => p.2 < s.index.cursor shardID

end History

/-- A first part of the rows brings the amount, an `int64`, to zero or below. -/
def Reached (amount : Int) (rows : List (UTXO × Nat)) : Prop :=
  ∃ front ∈ rows.inits, front ≠ [] ∧ (amount - total front).bmod (2 ^ 64) ≤ 0

instance (amount : Int) (rows : List (UTXO × Nat)) : Decidable (Reached amount rows) :=
  inferInstanceAs (Decidable (∃ front ∈ rows.inits, _))

theorem total_append (l l' : List (UTXO × Nat)) : total (l ++ l') = total l + total l' := by
  simp [total]

theorem total_le_of_sublist {l l' : List (UTXO × Nat)} (h : l <+ l') (hnonneg : ∀ p ∈ l', 0 ≤ p.1.value) :
    0 ≤ total l ∧ total l ≤ total l' := by
  constructor
  · refine sum_nonneg fun v hv => ?_
    obtain ⟨p, hp, rfl⟩ := mem_map.1 hv
    exact hnonneg p (h.subset hp)
  · exact (h.map _).sum_le_sum (forall_mem_map.2 hnonneg)

theorem reached_cons {amount : Int} {p : UTXO × Nat} {rows : List (UTXO × Nat)} : Reached amount (p :: rows) ↔
    (amount - p.1.value).bmod (2 ^ 64) ≤ 0 ∨ Reached ((amount - p.1.value).bmod (2 ^ 64)) rows := by
  have hcons : ∀ front, (amount - total (p :: front)).bmod (2 ^ 64) =
      ((amount - p.1.value).bmod (2 ^ 64) - total front).bmod (2 ^ 64) := by
    intro front
    rw [Int.bmod_sub_bmod, Int.sub_sub]
    rfl
  simp only [Reached, inits_cons, mem_cons, mem_map]
  constructor
  · rintro ⟨_, rfl | ⟨front, hfront, rfl⟩, hne, hle⟩
    · exact absurd rfl hne
    · rw [hcons] at hle
      cases front with
      | nil => exact Or.inl (by simpa [total] using hle)
      | cons q front => exact Or.inr ⟨_, hfront, cons_ne_nil _ _, hle⟩
  · rintro (hle | ⟨front, hfront, -, hle⟩)
    · exact ⟨[p], Or.inr ⟨[], by simp, rfl⟩, cons_ne_nil _ _, by simpa [total] using hle⟩
    · exact ⟨p :: front, Or.inr ⟨front, hfront, rfl⟩, cons_ne_nil _ _, (hcons front).trans_le hle⟩

namespace UTXOIndex
variable {index : UTXOIndex} {amount : Int} {shardID : Nat} {filter : Filter} {p : UTXO × Nat} {f : Nat → Bool} {i : Nat}

def usedAt (index : UTXOIndex) (i : Nat) : Bool := index.utxo[i]?.any UTXO.used

theorem usedAt_mark (h : index.usedAt i ∨ f i ∧ i < index.utxo.length) : (index.mark f).usedAt i := by
  simp only [usedAt, mark, getElem?_mapIdx, Option.any_map]
  rcases h with h | ⟨hf, hlt⟩
  · obtain ⟨utxo, hutxo, hused⟩ := (Option.any_eq_true _ _).1 h
    rw [hutxo]
    split
    · rfl
    · exact hused
  · simp [hf, hlt]

theorem mem_candidates : p ∈ index.candidates shardID filter ↔
    index.utxo[p.2]? = some p.1 ∧ index.cursor shardID ≤ p.2 ∧ p.1.wanted shardID filter := by
  simp [candidates, mem_zipIdx_iff_getElem?]

theorem takeRows_front (change : Int) (l : List (UTXO × Nat)) : takeRows change l <+: l := by
  induction l generalizing change with
  | nil => exact prefix_rfl
  | cons p l ih =>
    unfold takeRows
    dsimp only
    split
    · exact ⟨l, rfl⟩
    · exact (prefix_cons_inj p).2 (ih _)

theorem mem_taken (h : p ∈ index.taken amount shardID filter) :
    index.utxo[p.2]? = some p.1 ∧ p.1.wanted shardID filter := by
  obtain ⟨hrow, -, hwanted⟩ := mem_candidates.1 ((takeRows_front ..).subset h)
  exact ⟨hrow, hwanted⟩

theorem sorted_candidates : (index.candidates shardID filter).Pairwise fun p q => p.2 < q.2 := by
  refine Pairwise.filter _ ?_
  rw [← pairwise_map, zipIdx_map_snd]
  exact pairwise_lt_range'

theorem nodup_taken : ((index.taken amount shardID filter).map Prod.snd).Nodup :=
  pairwise_map.2 ((sorted_candidates.sublist (takeRows_front ..).sublist).imp ne_of_lt)

/-- The loop takes a row unless it has stopped at the rows before. -/
theorem mem_takeRows_iff {pre post : List (UTXO × Nat)} (hpre : p ∉ pre) {change : Int} :
    p ∈ takeRows change (pre ++ p :: post) ↔ ¬Reached change pre := by
  induction pre generalizing change with
  | nil =>
    refine iff_of_true ?_ (by simp [Reached])
    rw [nil_append, takeRows]
    split <;> simp
  | cons q pre ih =>
    rw [mem_cons, not_or] at hpre
    rw [cons_append, takeRows, reached_cons, not_or, not_le]
    split
    next hstop => exact iff_of_false (by simp [hpre.1]) fun h => absurd hstop (not_le.2 h.1)
    next hgo => rw [mem_cons, or_iff_right hpre.1, ih hpre.2, and_iff_right (not_le.1 hgo)]

/-- The loop reaches the amount exactly when all the rows do. -/
theorem le_takeRows {l : List (UTXO × Nat)} (hl : ∀ p ∈ l, 0 < p.1.value ∧ p.1.value < 2 ^ 63) {change : Int}
    (hchange : -2 ^ 63 ≤ change ∧ change < 2 ^ 63) : change ≤ total (takeRows change l) ↔ change ≤ total l := by
  induction l generalizing change with
  | nil => rfl
  | cons p l ih =>
    rw [forall_mem_cons] at hl
    have hnonneg : ∀ {l'}, l' <+: l → 0 ≤ total l' :=
      fun hsub => (total_le_of_sublist hsub.sublist fun q hq => (hl.2 q hq).1.le).1
    have hall := hnonneg prefix_rfl
    have htaken := hnonneg (takeRows_front ((change - p.1.value).bmod (2 ^ 64)) l)
    have hcons (l') : total (p :: l') = p.1.value + total l' := by simp [total]
    unfold takeRows
    dsimp only
    by_cases hwrap : change - p.1.value < -2 ^ 63
    · refine iff_of_true ?_ (by rw [hcons]; omega)
      split <;> rw [hcons]
      · rw [show total [] = 0 from rfl]
        omega
      · omega
    · rw [Int.bmod_eq_of_le (by omega) (by omega)] at htaken ⊢
      have hrest := ih hl.2 (show -2 ^ 63 ≤ change - p.1.value ∧ change - p.1.value < 2 ^ 63 by omega)
      split <;> rw [hcons, hcons]
      · rw [show total [] = 0 from rfl]
        omega
      · omega

end UTXOIndex

namespace History
open UTXOIndex

variable {s : History} {amount : Int} {shardID : Nat} {filter : Filter}

/-- What was collected since the last reset is used. -/
structure Inv (s : History) : Prop where
  nodup : s.collected.Nodup
  used : ∀ i ∈ s.collected, s.index.usedAt i

theorem Inv.once (h : Inv s) : (s.collected ++ (s.index.taken amount shardID filter).map Prod.snd).Nodup := by
  refine nodup_append.2 ⟨h.nodup, nodup_taken, ?_⟩
  rintro _ hi _ hmem rfl
  obtain ⟨p, hp, rfl⟩ := mem_map.1 hmem
  obtain ⟨hrow, hwanted⟩ := mem_taken hp
  have hused := h.used _ hi
  rw [usedAt, hrow, Option.any_some] at hused
  simp [UTXO.wanted, UTXO.canBeSpend, hused] at hwanted

theorem Inv.step (h : Inv s) (call : Call) : Inv (s.step call) := by
  have hmark (f : Nat → Bool) : ∀ i ∈ s.collected, (s.index.mark f).usedAt i := fun i hi => usedAt_mark (.inl (h.used i hi))
  cases call with
  | addUTXO utxo =>
    refine ⟨h.nodup, fun i hi => ?_⟩
    have hused := h.used i hi
    unfold usedAt at hused ⊢
    obtain ⟨u, hu, -⟩ := (Option.any_eq_true _ _).1 hused
    rwa [History.step, addUTXO, getElem?_append_left (List.getElem?_eq_some_iff.1 hu).1]
  | rmUTXO => exact ⟨h.nodup, h.used⟩
  | markUsed txHash utxoIndexID shardID =>
    refine ⟨h.nodup, ?_⟩
    simp only [History.step, markUsed]
    split
    · exact h.used
    · exact hmark _
  | resetUsedFlag => exact ⟨nodup_nil, nofun⟩
  | collect amount shardID filter =>
    refine ⟨h.once, forall_mem_append.2 ⟨hmark _, fun i hi => ?_⟩⟩
    obtain ⟨p, hp, rfl⟩ := mem_map.1 hi
    exact usedAt_mark (.inr ⟨by simpa using hi, (List.getElem?_eq_some_iff.1 (mem_taken hp).1).1⟩)
  | get amount shardID filter =>
    refine ⟨h.nodup, ?_⟩
    simp only [History.step, getForAmountFiltered]
    split
    · exact h.used
    · exact hmark _

theorem inv_run (calls : List Call) : Inv (run calls) := by
  induction calls using List.reverseRecOn with
  | nil => exact ⟨nodup_nil, nofun⟩
  | append_singleton calls call ih =>
    rw [run, foldl_append]
    exact ih.step call

theorem mem_eligible {p : UTXO × Nat} : p ∈ s.eligible shardID filter ↔
    s.index.utxo[p.2]? = some p.1 ∧ p.2 ∉ s.removed ∧ p.1.wanted shardID filter := by
  simp [eligible, mem_zipIdx_iff_getElem?]

/-- No removed row is taken exactly if the amount is reached before each one that passes the checks. -/
theorem sound_iff : s.index.taken amount shardID filter ⊆ s.eligible shardID filter ↔
    ∀ p ∈ s.index.candidates shardID filter, p.2 ∈ s.removed →
      Reached amount ((s.index.candidates shardID filter).filter fun q => q.2 < p.2) := by
  have htaken : ∀ p ∈ s.index.candidates shardID filter, p ∈ s.index.taken amount shardID filter ↔
      ¬Reached amount ((s.index.candidates shardID filter).filter fun q => q.2 < p.2) := by
    intro p hp
    obtain ⟨pre, post, hsplit⟩ := append_of_mem hp
    have hsorted : (s.index.candidates shardID filter).Pairwise fun p q => p.2 < q.2 := sorted_candidates
    rw [hsplit, pairwise_append, pairwise_cons] at hsorted
    obtain ⟨-, ⟨hpost, -⟩, hpre⟩ := hsorted
    have hbefore : (pre ++ p :: post).filter (fun q => q.2 < p.2) = pre := by
      rw [filter_append, filter_cons_of_neg (by simp), filter_eq_self.2, filter_eq_nil_iff.2, append_nil]
      · exact fun q hq => by simpa using (hpost q hq).le
      · exact fun q hq => by simpa using hpre q hq p mem_cons_self
    rw [taken, hsplit, hbefore]
    exact mem_takeRows_iff fun hmem => lt_irrefl _ (hpre p hmem p mem_cons_self)
  constructor
  · intro hsound p hp hremoved
    by_contra hnot
    exact (mem_eligible.1 (hsound ((htaken p hp).2 hnot))).2.1 hremoved
  · intro hreached p hp
    have hmem := (takeRows_front ..).subset hp
    obtain ⟨hrow, -, hwanted⟩ := mem_candidates.1 hmem
    exact mem_eligible.2 ⟨hrow, fun hremoved => (htaken p hmem).1 hp (hreached p hmem hremoved), hwanted⟩

/-- Without removed rows among them, the rows from the cursor on are the other eligible ones. -/
theorem total_eligible (h : ∀ p ∈ s.index.candidates shardID filter, p.2 ∉ s.removed) :
    total (s.eligible shardID filter) =
      total (s.passedOver shardID filter) + total (s.index.candidates shardID filter) := by
  have hahead : (s.eligible shardID filter).filter (fun p => !decide (p.2 < s.index.cursor shardID)) =
      s.index.candidates shardID filter := by
    rw [eligible, filter_filter, candidates]
    refine filter_congr fun p hp => ?_
    have hlive := fun hle hwanted => h p (mem_candidates.2 ⟨by simpa [mem_zipIdx_iff_getElem?] using hp, hle, hwanted⟩)
    rw [Bool.eq_iff_iff]
    simp only [Bool.and_eq_true, decide_eq_true_eq, Bool.not_eq_true', contains_eq_mem, decide_eq_false_iff_not, not_lt]
    exact ⟨fun h => ⟨h.1, h.2.2⟩, fun h => ⟨h.1, hlive h.1 h.2, h.2⟩⟩
  have hparts := filter_append_perm (fun p : UTXO × Nat => p.2 < s.index.cursor shardID) (s.eligible shardID filter)
  rw [← hahead, passedOver, ← total_append]
  exact (hparts.map fun p => p.1.value).sum_eq.symm

/-- A collection is right exactly when before each removed row that passes its checks from the cursor on the rows reach the
amount, and what they lack is more than the eligible rows behind the cursor make up. -/
theorem collect_right_iff (calls : List Call) (amount : Int) (hamount : -2 ^ 63 ≤ amount ∧ amount < 2 ^ 63) (shardID : Nat)
    (filter : Filter) (hvalues : ∀ utxo ∈ (run calls).index.utxo, 0 < utxo.value ∧ utxo.value < 2 ^ 63) :
    Right (run calls) amount shardID filter ↔
      (∀ p ∈ (run calls).index.candidates shardID filter, p.2 ∈ (run calls).removed →
        Reached amount (((run calls).index.candidates shardID filter).filter fun q => q.2 < p.2)) ∧
      (total ((run calls).index.candidates shardID filter) < amount →
        total ((run calls).passedOver shardID filter) < amount - total ((run calls).index.candidates shardID filter)) := by
  have hrows : ∀ p ∈ (run calls).index.candidates shardID filter, 0 < p.1.value ∧ p.1.value < 2 ^ 63 :=
    fun p hp => hvalues _ (mem_of_getElem? (mem_candidates.1 hp).1)
  have henough := le_takeRows hrows hamount
  have hlacking : (∀ p ∈ (run calls).index.candidates shardID filter, p.2 ∈ (run calls).removed →
        Reached amount (((run calls).index.candidates shardID filter).filter fun q => q.2 < p.2)) →
      total ((run calls).index.candidates shardID filter) < amount → total ((run calls).eligible shardID filter) =
        total ((run calls).passedOver shardID filter) + total ((run calls).index.candidates shardID filter) := by
    intro hreached hlt
    refine total_eligible fun p hp hremoved => ?_
    obtain ⟨front, hfront, -, hle⟩ := hreached p hp hremoved
    have hsub := ((mem_inits _ _).1 hfront).sublist.trans filter_sublist
    have hbounds := total_le_of_sublist hsub fun q hq => (hrows q hq).1.le
    rw [Int.bmod_eq_of_le (by omega) (by omega)] at hle
    omega
  constructor
  · intro h
    have hsound := sound_iff.1 h.sound
    refine ⟨hsound, fun hlt => ?_⟩
    have hshort := mt h.complete (mt henough.1 (not_le.2 hlt))
    rw [hlacking hsound hlt] at hshort
    omega
  · rintro ⟨hsound, hlt⟩
    refine ⟨sound_iff.2 hsound, (inv_run calls).once, fun hle => henough.2 ?_⟩
    by_contra hnot
    have htotal := hlacking hsound (not_le.1 hnot)
    have hshort := hlt (not_le.1 hnot)
    omega

section Sample

def row (address txHash : String) (value : Int) : UTXO := ⟨1, address, txHash, 0, value, false, "pubkeyhash"⟩

def addTwo : List Call := [.addUTXO (row "a" "t" 5), .addUTXO (row "b" "u" 7)]

/-- The first row is collected, a third one is added and removed: it stays behind the second. -/
def removeThird : List Call := addTwo ++ [.collect 5 1 none, .addUTXO (row "a" "v" 9), .rmUTXO "v" 0 1]

theorem collect_right_second : Right (run removeThird) 7 1 none ∧
    ((run removeThird).index.collectForAmountFiltered 7 1 none).1.1 = [row "b" "u" 7] := by
  refine ⟨(collect_right_iff removeThird 7 (by decide) 1 none ?_).2 (by decide +kernel), by decide +kernel⟩
  decide +kernel

/-- A row that was removed is collected. And a collection for one address ends with the second row: the first one
is behind the cursor then, and a collection for any address does not find it. -/
theorem collect_wrong : (run (addTwo ++ [.rmUTXO "t" 0 1])).eligible 1 none = [(row "b" "u" 7, 1)] ∧
      (((run (addTwo ++ [.rmUTXO "t" 0 1])).index.collectForAmountFiltered 5 1 none).1.1 = [row "a" "t" 5]) ∧
      let s := run (addTwo ++ [.collect 7 1 (some ["b"])])
      s.eligible 1 none = [(row "a" "t" 5, 0)] ∧ (s.index.collectForAmountFiltered 5 1 none).1.1 = [] := by
  decide +kernel

end Sample

end History
end Jaxnetd.TxModels
