import Jaxnetd.Chainhash
import Jaxnetd.Lib.GoMap
import Jaxnetd.Lib.Runs

/-!
# The pool of orphan blocks (`orphan_index.go`)

Three maps and a cached pointer to the oldest block. A block is taken out of two of the maps only, and the pointer is not
reset when its block goes. `pool_keeps_iff` says, on the pool before each call, which calls keep its bounds. The search
for the root of an orphan follows the roots that peers have claimed (`orphanRoot_search`).
-/

namespace Jaxnetd.Blockchain
open List

def maxOrphanBlocks : Nat := 100

/-- `orphanBlock`; of its block only the hash is kept. -/
structure OrphanBlock (H : Type) where
  hash : H
  actualMMR : H
  expiration : Int
deriving DecidableEq

/-- `orphanIndex`. The map of the orphans is the list of its values, which have different hashes. -/
structure OrphanIndex (H : Type) where
  orphans : List (OrphanBlock H)
  actualMMRToBlock : GoMap H (OrphanBlock H)
  mmrRootsOrphans : GoMap H (List (OrphanBlock H))
  oldestOrphan : Option (OrphanBlock H)

section
variable {H : Type} [DecidableEq H]

namespace OrphanIndex

def empty : OrphanIndex H := ⟨[], .empty, .empty, none⟩

def listedUnder (idx : OrphanIndex H) (root : H) : List (OrphanBlock H) := (idx.mmrRootsOrphans.get root).getD []

-- the `PrevMMRRoot` of the block with a hash
variable (prev : H → H)

def removeOrphanBlock (idx : OrphanIndex H) (orphan : OrphanBlock H) : OrphanIndex H :=
  let others := (idx.listedUnder (prev orphan.hash)).filter (·.hash ≠ orphan.hash)
  { idx with
    orphans := idx.orphans.filter (·.hash ≠ orphan.hash)
    mmrRootsOrphans :=
      if others.isEmpty then idx.mmrRootsOrphans.delete (prev orphan.hash)
      else idx.mmrRootsOrphans.set (prev orphan.hash) others }

/-- One turn of the loop over the pool, with the time at which it is made. -/
def sweepOne (idx : OrphanIndex H) : OrphanBlock H × Int → OrphanIndex H
  | (oBlock, now) =>
    if oBlock.expiration < now then idx.removeOrphanBlock prev oBlock
    else if idx.oldestOrphan.all (oBlock.expiration < ·.expiration) then { idx with oldestOrphan := some oBlock }
    else idx

/-- The loop, in the order and at the times in which the map is ranged over. -/
def sweep (idx : OrphanIndex H) (turns : List (OrphanBlock H × Int)) : OrphanIndex H := turns.foldl (sweepOne prev) idx

/-- The block that has to make room. The pointer is not nil when the pool is full. -/
def evicted (idx : OrphanIndex H) : Option (OrphanBlock H) :=
  if maxOrphanBlocks < idx.orphans.length + 1 then idx.oldestOrphan else none

def makeRoom (idx : OrphanIndex H) : OrphanIndex H :=
  match idx.evicted with
  | some oldest => { idx.removeOrphanBlock prev oldest with oldestOrphan := none }
  | none => idx

def insert [ChainHash H] (idx : OrphanIndex H) (oBlock : OrphanBlock H) : OrphanIndex H :=
  { idx with
    orphans := oBlock :: idx.orphans.filter (·.hash ≠ oBlock.hash)
    actualMMRToBlock :=
      if oBlock.actualMMR = ChainHash.zeroHash then idx.actualMMRToBlock
      else idx.actualMMRToBlock.set oBlock.actualMMR oBlock
    mmrRootsOrphans := idx.mmrRootsOrphans.set (prev oBlock.hash) (idx.listedUnder (prev oBlock.hash) ++ [oBlock]) }

/-- `addOrphanBlock` of a block with the expiration that it gets. -/
def addOrphanBlock [ChainHash H] (idx : OrphanIndex H) (turns : List (OrphanBlock H × Int)) (oBlock : OrphanBlock H) :
    OrphanIndex H :=
  ((idx.sweep prev turns).makeRoom prev).insert prev oBlock

end OrphanIndex

/-! ## Calls -/

inductive OrphanCall (H : Type) where
  | add (turns : List (OrphanBlock H × Int)) (oBlock : OrphanBlock H)
  | remove (orphan : OrphanBlock H)

variable (prev : H → H)

def OrphanCall.apply [ChainHash H] (idx : OrphanIndex H) : OrphanCall H → OrphanIndex H
  | add turns oBlock => idx.addOrphanBlock prev turns oBlock
  | remove orphan => idx.removeOrphanBlock prev orphan

namespace OrphanIndex
variable (idx : OrphanIndex H) (call : OrphanCall H)

def roomFor (turns : List (OrphanBlock H × Int)) : OrphanIndex H := (idx.sweep prev turns).makeRoom prev

def Ranges : OrphanCall H → Prop
  | .add turns _ => (turns.map Prod.fst).Perm idx.orphans
  | .remove _ => True

instance : DecidablePred idx.Ranges
  | .add turns _ => inferInstanceAs (Decidable ((turns.map Prod.fst).Perm idx.orphans))
  | .remove _ => .isTrue trivial

def Listed : Prop := ∀ hash, ((idx.listedUnder (prev hash)).map OrphanBlock.hash).count hash =
    (idx.orphans.map OrphanBlock.hash).count hash

/-- What the pool should be between two calls. -/
structure Kept : Prop where
  size : idx.orphans.length ≤ maxOrphanBlocks
  listed : idx.Listed prev
  actual : ∀ root o, idx.actualMMRToBlock.get root = some o → o ∈ idx.orphans

/-- A call makes room only by a block of the pool with the earliest expiration. -/
def EvictsOldest : OrphanCall H → Prop
  | .add turns _ => ∀ o ∈ (idx.sweep prev turns).evicted, o ∈ (idx.sweep prev turns).orphans ∧
      ∀ o' ∈ (idx.sweep prev turns).orphans, o.expiration ≤ o'.expiration
  | .remove _ => True

/-! ## What leaves the pool -/

def expired (turns : List (OrphanBlock H × Int)) : List (OrphanBlock H) :=
  (turns.filter fun turn => turn.1.expiration < turn.2).map Prod.fst

/-- The block that makes room when the pool is full and nothing has expired: the cached one, unless a block of the pool
expires before it. -/
def oldest (turns : List (OrphanBlock H × Int)) : Option (OrphanBlock H) :=
  if maxOrphanBlocks ≤ idx.orphans.length ∧ expired turns = [] then
    (turns.map Prod.fst).foldl (argAux fun o p => o.expiration < p.expiration) idx.oldestOrphan
  else none

def leaving : OrphanCall H → List (OrphanBlock H)
  | .add turns _ => expired turns ++ (idx.oldest turns).toList
  | .remove orphan => [orphan]

def Leaves (hash : H) : Prop := hash ∈ (idx.leaving call).map OrphanBlock.hash

instance (hash : H) : Decidable (idx.Leaves call hash) := inferInstanceAs (Decidable (_ ∈ _))

/-- When room has to be made, the cached pointer is not to a block that has left the pool, or the pool has a block
that expires earlier. -/
def PointsInto : OrphanCall H → Prop
  | .add turns _ => maxOrphanBlocks ≤ idx.orphans.length ∧ expired turns = [] →
      ∀ p ∈ idx.oldestOrphan, p ∈ idx.orphans ∨ ∃ o ∈ idx.orphans, o.expiration < p.expiration
  | .remove _ => True

instance : DecidablePred idx.PointsInto
  | .add _ _ => inferInstanceAs (Decidable (_ → _))
  | .remove _ => .isTrue trivial

/-- A block with the hash of the added one is in the pool only if it leaves it. -/
def AddsNew : OrphanCall H → Prop
  | .add turns oBlock => oBlock.hash ∈ idx.orphans.map OrphanBlock.hash → idx.Leaves (.add turns oBlock) oBlock.hash
  | .remove _ => True

instance : DecidablePred idx.AddsNew
  | .add _ _ => inferInstanceAs (Decidable (_ → _))
  | .remove _ => .isTrue trivial

/-- A block that leaves is not the last to have claimed its root, unless the added block claims it. -/
def DropsUnclaimed : Prop := ∀ o ∈ idx.orphans, idx.Leaves call o.hash → idx.actualMMRToBlock.get o.actualMMR = some o →
  match call with
  | .add _ oBlock => o.actualMMR = oBlock.actualMMR
  | .remove _ => False

instance : DecidablePred idx.DropsUnclaimed
  | .add _ _ => inferInstanceAs (Decidable (∀ o ∈ idx.orphans, _ → _ → _))
  | .remove _ => inferInstanceAs (Decidable (∀ o ∈ idx.orphans, _ → _ → False))

structure Sound : Prop where
  points : idx.PointsInto call
  new : idx.AddsNew call
  unclaimed : idx.DropsUnclaimed call

instance : Decidable (idx.Sound call) :=
  decidable_of_iff (idx.PointsInto call ∧ idx.AddsNew call ∧ idx.DropsUnclaimed call)
    ⟨fun h => ⟨h.1, h.2.1, h.2.2⟩, fun h => ⟨h.points, h.new, h.unclaimed⟩⟩

/-- A claimed root leads to a block that claims it, which may have left the pool. -/
structure ClaimsIndexed [ChainHash H] : Prop where
  claims : ∀ root o, idx.actualMMRToBlock.get root = some o → o.actualMMR = root ∧ root ≠ ChainHash.zeroHash
  indexed : ∀ o ∈ idx.orphans, o.actualMMR ≠ ChainHash.zeroHash → (idx.actualMMRToBlock.get o.actualMMR).isSome

/-! ## The maps -/

variable {prev idx call} {orphan o : OrphanBlock H} {turns : List (OrphanBlock H × Int)} {hash root : H}

theorem mem_remove : o ∈ (idx.removeOrphanBlock prev orphan).orphans ↔ o ∈ idx.orphans ∧ o.hash ≠ orphan.hash := by
  simp [removeOrphanBlock]

theorem listedUnder_remove : (idx.removeOrphanBlock prev orphan).listedUnder root =
    if root = prev orphan.hash then (idx.listedUnder root).filter (·.hash ≠ orphan.hash) else idx.listedUnder root := by
  unfold removeOrphanBlock
  dsimp only
  split_ifs with hnil hroot hroot
  · rw [← hroot] at hnil ⊢
    rw [listedUnder, GoMap.get_delete_self, isEmpty_iff.1 hnil]
    rfl
  · simp [listedUnder, hroot]
  · simp [listedUnder, hroot]
  · simp [listedUnder, hroot]

theorem count_filter_hash (l : List (OrphanBlock H)) (hash removed : H) :
    ((l.filter (·.hash ≠ removed)).map OrphanBlock.hash).count hash =
      if hash = removed then 0 else (l.map OrphanBlock.hash).count hash := by
  split
  next heq => simp [count_eq_zero, heq]
  next hne =>
    rw [count_eq_countP, count_eq_countP, countP_map, countP_map, countP_filter]
    refine countP_congr fun o _ => ?_
    simp only [Function.comp_apply, beq_iff_eq, Bool.and_eq_true, decide_eq_true_eq, and_iff_left_iff_imp]
    rintro rfl
    exact hne

theorem Listed.remove (h : idx.Listed prev) : (idx.removeOrphanBlock prev orphan).Listed prev := by
  intro hash
  rw [listedUnder_remove, show (idx.removeOrphanBlock prev orphan).orphans = idx.orphans.filter
    (·.hash ≠ orphan.hash) from rfl,
    count_filter_hash]
  split
  next => rw [count_filter_hash, h]
  next hne => rw [if_neg (mt (congrArg prev) hne), h]

theorem listed_insert_iff [ChainHash H] (h : idx.Listed prev) : (idx.insert prev orphan).Listed prev ↔
    orphan.hash ∉ idx.orphans.map OrphanBlock.hash := by
  have hunder : ∀ root, (idx.insert prev orphan).listedUnder root =
      if root = prev orphan.hash then idx.listedUnder root ++ [orphan] else idx.listedUnder root := by
    intro root
    simp only [listedUnder, insert]
    split_ifs with hroot
    · rw [hroot, GoMap.get_set_self]
      rfl
    · rw [GoMap.get_set_ne _ _ hroot]
  have hcount : ∀ hash, (((idx.insert prev orphan).listedUnder (prev hash)).map OrphanBlock.hash).count hash =
      (idx.orphans.map OrphanBlock.hash).count hash + if hash = orphan.hash then 1 else 0 := by
    intro hash
    rw [hunder, ← h]
    split_ifs with hroot hhash hhash
    · simp [hhash]
    · simp [Ne.symm hhash]
    · exact absurd (congrArg prev hhash) hroot
    · rfl
  rw [← count_eq_zero]
  refine ⟨fun hnew => ?_, fun hnone hash => ?_⟩
  · have hself := hnew orphan.hash
    rw [hcount] at hself
    simp only [insert, map_cons, count_cons, count_filter_hash, if_true, beq_self_eq_true] at hself
    omega
  · rw [hcount]
    simp only [insert, map_cons, count_cons, count_filter_hash]
    split_ifs with hhash <;> simp_all

/-! ## The sweep -/

omit [DecidableEq H] in
theorem expired_cons {turn : OrphanBlock H × Int} : expired (turn :: turns) =
    if turn.1.expiration < turn.2 then turn.1 :: expired turns else expired turns := by
  unfold expired
  split <;> simp [*]

theorem orphans_sweep : (idx.sweep prev turns).orphans =
    idx.orphans.filter fun o => o.hash ∉ (expired turns).map OrphanBlock.hash := by
  induction turns generalizing idx with
  | nil => simp [sweep, expired]
  | cons turn turns ih =>
    rw [show idx.sweep prev (turn :: turns) = (idx.sweepOne prev turn).sweep prev turns from rfl, ih, expired_cons]
    simp only [sweepOne]
    split_ifs
    · rw [removeOrphanBlock, filter_filter]
      refine filter_congr fun o _ => ?_
      rw [Bool.eq_iff_iff, map_cons]
      simp [and_comm]
    · rfl
    · rfl

theorem oldestOrphan_sweep (h : expired turns = []) : (idx.sweep prev turns).oldestOrphan =
    (turns.map Prod.fst).foldl (argAux fun o p => o.expiration < p.expiration) idx.oldestOrphan := by
  induction turns generalizing idx with
  | nil => rfl
  | cons turn turns ih =>
    rw [expired_cons] at h
    split at h
    · cases h
    next hexp =>
      rw [show idx.sweep prev (turn :: turns) = (idx.sweepOne prev turn).sweep prev turns from rfl, ih h, map_cons,
        foldl_cons]
      congr 1
      rw [sweepOne, if_neg hexp]
      cases hold : idx.oldestOrphan with
      | none => rfl
      | some p => by_cases hlt : turn.1.expiration < p.expiration <;> simp [argAux, hlt, hold]

theorem sweep_induction {P : OrphanIndex H → Prop} (h : P idx)
    (hremove : ∀ idx orphan, P idx → P (idx.removeOrphanBlock prev orphan))
    (hold : ∀ (idx : OrphanIndex H) oldest, P idx → P { idx with oldestOrphan := oldest }) : P (idx.sweep prev turns) := by
  refine List.foldlRecOn turns _ h fun idx h turn _ => ?_
  simp only [sweepOne]
  split_ifs
  exacts [hremove _ _ h, hold _ _ h, h]

theorem roomFor_induction {P : OrphanIndex H → Prop} (h : P idx)
    (hremove : ∀ idx orphan, P idx → P (idx.removeOrphanBlock prev orphan))
    (hold : ∀ (idx : OrphanIndex H) oldest, P idx → P { idx with oldestOrphan := oldest }) : P (idx.roomFor prev turns) := by
  have hswept : P (idx.sweep prev turns) := sweep_induction h hremove hold
  unfold roomFor makeRoom
  split
  exacts [hold _ _ (hremove _ _ hswept), hswept]

omit [DecidableEq H] in
theorem claimsIndexed_empty [ChainHash H] : (OrphanIndex.empty : OrphanIndex H).ClaimsIndexed :=
  ⟨fun root o h => absurd h (by simp [empty]), fun _ h => absurd h not_mem_nil⟩

theorem ClaimsIndexed.apply [ChainHash H] (h : idx.ClaimsIndexed) (call : OrphanCall H) :
    (call.apply prev idx).ClaimsIndexed := by
  have hremove : ∀ (idx : OrphanIndex H) orphan, idx.ClaimsIndexed → (idx.removeOrphanBlock prev orphan).ClaimsIndexed :=
    fun _ _ h => ⟨h.claims, fun o ho => h.indexed o (mem_remove.1 ho).1⟩
  cases call with
  | remove orphan => exact hremove idx orphan h
  | add turns oBlock =>
    obtain ⟨hclaims, hindexed⟩ : (idx.roomFor prev turns).ClaimsIndexed :=
      roomFor_induction h hremove fun _ _ h => ⟨h.claims, h.indexed⟩
    change ((idx.roomFor prev turns).insert prev oBlock).ClaimsIndexed
    by_cases hzero : oBlock.actualMMR = ChainHash.zeroHash
    · refine ⟨fun root o hget => hclaims root o (by simpa [insert, hzero] using hget), fun o ho hne => ?_⟩
      simp only [insert, hzero, if_true, mem_cons] at ho ⊢
      rcases ho with rfl | ho
      · exact absurd hzero hne
      · exact hindexed o (mem_filter.1 ho).1 hne
    · simp only [insert, hzero, if_false]
      refine ⟨fun root o hget => ?_, fun o ho hne => ?_⟩
      · rw [GoMap.get_set] at hget
        split at hget
        next hroot => cases hget; exact ⟨hroot.symm, hroot ▸ hzero⟩
        next => exact hclaims root o hget
      · rcases mem_cons.1 ho with rfl | ho
        · rw [GoMap.get_set_self]
          rfl
        · exact GoMap.isSome_set _ _ (hindexed o (mem_filter.1 ho).1 hne)

/-! ## One call -/

omit [DecidableEq H] in
theorem leaves_add {oBlock : OrphanBlock H} : idx.Leaves (.add turns oBlock) hash ↔
    hash ∈ (expired turns).map OrphanBlock.hash ∨ ∃ p ∈ idx.oldest turns, hash = p.hash := by
  simp only [Leaves, leaving, map_append, mem_append]
  cases idx.oldest turns <;> simp

section
variable (hrange : (turns.map Prod.fst).Perm idx.orphans) (hsize : idx.orphans.length ≤ maxOrphanBlocks)
include hrange hsize

omit [DecidableEq H] hsize in
theorem exists_expired (h : expired turns ≠ []) : ∃ o ∈ expired turns, o ∈ idx.orphans := by
  obtain ⟨o, ho⟩ := exists_mem_of_ne_nil _ h
  obtain ⟨turn, hturn, rfl⟩ := mem_map.1 ho
  exact ⟨turn.1, ho, hrange.mem_iff.1 (mem_map_of_mem (mem_of_mem_filter hturn))⟩

theorem length_sweep_lt (h : expired turns ≠ []) : (idx.sweep prev turns).orphans.length < maxOrphanBlocks := by
  obtain ⟨o, ho, hmem⟩ := exists_expired hrange h
  rw [orphans_sweep]
  refine lt_of_lt_of_le (length_filter_lt_length_iff_exists.2 ⟨o, hmem, ?_⟩) hsize
  simpa using ⟨o, ho, rfl⟩

theorem evicted_sweep : (idx.sweep prev turns).evicted = idx.oldest turns := by
  unfold evicted oldest
  by_cases hexp : expired turns = []
  · rw [oldestOrphan_sweep hexp, orphans_sweep, hexp]
    simp
  · have hlt : (idx.sweep prev turns).orphans.length < maxOrphanBlocks := length_sweep_lt hrange hsize hexp
    rw [if_neg (by omega), if_neg fun h => hexp h.2]

theorem orphans_roomFor (oBlock : OrphanBlock H) : (idx.roomFor prev turns).orphans =
    idx.orphans.filter fun o => ¬idx.Leaves (.add turns oBlock) o.hash := by
  unfold roomFor makeRoom
  rw [evicted_sweep hrange hsize]
  cases hold : idx.oldest turns with
  | none =>
    refine orphans_sweep.trans (filter_congr fun o _ => ?_)
    rw [decide_eq_decide, leaves_add, hold]
    simp
  | some p =>
    simp only [removeOrphanBlock, orphans_sweep, filter_filter]
    refine filter_congr fun o _ => ?_
    rw [Bool.eq_iff_iff, decide_eq_true_iff, leaves_add, hold]
    simp [and_comm]

end

theorem eq_head_of_argmin {α β : Type} [DecidableEq α] [LinearOrder β] {f : α → β} {a m : α} {as : List α}
    (hm : (a :: as).argmin f = some m) (h : ¬f m < f a) : m = a := by
  obtain ⟨-, -, hidx⟩ := mem_argmin_iff.1 hm
  have hfirst := hidx a mem_cons_self (not_lt.1 h)
  rw [idxOf_cons_self, Nat.le_zero] at hfirst
  by_contra hne
  rw [idxOf_cons_ne _ (Ne.symm hne)] at hfirst
  cases hfirst

/-- The block that makes room expires first. It is of the pool exactly if the pointer is, or a block of the pool
expires before the one that it is to. -/
theorem pointsInto_iff (hrange : (turns.map Prod.fst).Perm idx.orphans) (oBlock : OrphanBlock H) :
    idx.PointsInto (.add turns oBlock) ↔
      ∀ o ∈ idx.oldest turns, o ∈ idx.orphans ∧ ∀ o' ∈ idx.orphans, o.expiration ≤ o'.expiration := by
  simp only [PointsInto, oldest]
  by_cases hroom : maxOrphanBlocks ≤ idx.orphans.length ∧ expired turns = []
  · have hpool : ∀ {o}, o ∈ turns.map Prod.fst ↔ o ∈ idx.orphans := fun {o} => hrange.mem_iff
    rw [if_pos hroom, forall_prop_of_true hroom]
    cases idx.oldestOrphan with
    | none =>
      have hmin : ∀ o ∈ (turns.map Prod.fst).argmin OrphanBlock.expiration, o ∈ idx.orphans ∧
          ∀ o' ∈ idx.orphans, o.expiration ≤ o'.expiration :=
        fun o ho => ⟨hpool.1 (argmin_mem ho), fun o' ho' => le_of_mem_argmin (hpool.2 ho') ho⟩
      exact iff_of_true (by simp) hmin
    | some p =>
      have hfold : (turns.map Prod.fst).foldl (argAux fun o p => o.expiration < p.expiration) (some p) =
          (p :: turns.map Prod.fst).argmin OrphanBlock.expiration := rfl
      obtain ⟨m, hmin⟩ : ∃ m, (p :: turns.map Prod.fst).argmin OrphanBlock.expiration = some m :=
        Option.ne_none_iff_exists'.1 (mt argmin_eq_none.1 (cons_ne_nil _ _))
      have hle : ∀ o ∈ idx.orphans, m.expiration ≤ o.expiration :=
        fun o ho => le_of_mem_argmin (mem_cons_of_mem _ (hpool.2 ho)) hmin
      rw [hfold, hmin]
      simp only [Option.mem_some_iff, forall_eq']
      constructor
      · intro hpoints
        refine ⟨?_, hle⟩
        rcases mem_cons.1 (argmin_mem hmin) with rfl | hmem
        · rcases hpoints with hp | ⟨o, ho, hlt⟩
          · exact hp
          · exact absurd (hle o ho) (not_le.2 hlt)
        · exact hpool.1 hmem
      · -- the pointer comes first, so it stays unless a block expires strictly before
        rintro ⟨hm, -⟩
        by_cases hlt : m.expiration < p.expiration
        · exact Or.inr ⟨m, hm, hlt⟩
        · exact Or.inl (eq_head_of_argmin hmin hlt ▸ hm)
  · simp [hroom]

section
variable (hrange : (turns.map Prod.fst).Perm idx.orphans) (hsize : idx.orphans.length ≤ maxOrphanBlocks)
  {oBlock : OrphanBlock H}
include hrange hsize

theorem evictsOldest_iff : idx.EvictsOldest prev (.add turns oBlock) ↔ idx.PointsInto (.add turns oBlock) := by
  rw [pointsInto_iff hrange]
  simp only [EvictsOldest, evicted_sweep hrange hsize]
  refine forall₂_congr fun o ho => ?_
  have hnone : expired turns = [] := by
    by_contra hexp
    rw [oldest, if_neg fun h => hexp h.2] at ho
    cases ho
  rw [orphans_sweep, hnone]
  simp

theorem length_roomFor (h : idx.PointsInto (.add turns oBlock)) :
    (idx.roomFor prev turns).orphans.length < maxOrphanBlocks := by
  rw [orphans_roomFor hrange hsize oBlock]
  by_cases hleaves : ∃ o ∈ idx.orphans, idx.Leaves (.add turns oBlock) o.hash
  · obtain ⟨o, ho, hleave⟩ := hleaves
    exact lt_of_lt_of_le (length_filter_lt_length_iff_exists.2 ⟨o, ho, by simpa using hleave⟩) hsize
  · refine lt_of_le_of_lt (length_filter_le ..) ?_
    by_contra hfull
    have hexp : expired turns = [] := by
      by_contra hexp
      obtain ⟨o, ho, hmem⟩ := exists_expired hrange hexp
      exact hleaves ⟨o, hmem, leaves_add.2 (Or.inl (mem_map_of_mem ho))⟩
    have hroom : maxOrphanBlocks ≤ idx.orphans.length ∧ expired turns = [] := ⟨not_lt.1 hfull, hexp⟩
    obtain ⟨p, hp⟩ : ∃ p, idx.oldest turns = some p := by
      rw [oldest, if_pos hroom]
      refine Option.ne_none_iff_exists'.1 fun hnone => ?_
      have hnil := ((foldl_argAux_eq_none _).1 hnone).1
      rw [hnil, nil_perm] at hrange
      simp [hrange, maxOrphanBlocks] at hroom
    have hmem := ((pointsInto_iff hrange oBlock).1 h p hp).1
    exact hleaves ⟨p, hmem, leaves_add.2 (Or.inr ⟨p, hp, rfl⟩)⟩

theorem listed_add_iff [ChainHash H] (h : idx.Listed prev) :
    (idx.addOrphanBlock prev turns oBlock).Listed prev ↔ idx.AddsNew (.add turns oBlock) := by
  have hroom : (idx.roomFor prev turns).Listed prev := roomFor_induction h (fun _ _ h => h.remove) fun _ _ h => h
  change ((idx.roomFor prev turns).insert prev oBlock).Listed prev ↔ _
  rw [listed_insert_iff hroom, orphans_roomFor hrange hsize oBlock]
  rw [AddsNew, mem_map, mem_map]
  constructor
  · rintro hnot ⟨o, ho, heq⟩
    by_contra hstays
    exact hnot ⟨o, mem_filter.2 ⟨ho, by simpa [heq] using hstays⟩, heq⟩
  · rintro hnew ⟨o, ho, heq⟩
    obtain ⟨ho, hstays⟩ := mem_filter.1 ho
    exact absurd (hnew ⟨o, ho, heq⟩) (by simpa [heq] using hstays)

theorem actual_add_iff [ChainHash H] (hactual : ∀ root o, idx.actualMMRToBlock.get root = some o → o ∈ idx.orphans)
    (hclaims : idx.ClaimsIndexed) (hnew : idx.AddsNew (.add turns oBlock)) :
    (∀ root o, (idx.addOrphanBlock prev turns oBlock).actualMMRToBlock.get root = some o →
      o ∈ (idx.addOrphanBlock prev turns oBlock).orphans) ↔ idx.DropsUnclaimed (.add turns oBlock) := by
  have hget : ∀ root, (idx.addOrphanBlock prev turns oBlock).actualMMRToBlock.get root =
      if root = oBlock.actualMMR ∧ root ≠ ChainHash.zeroHash then some oBlock else idx.actualMMRToBlock.get root := by
    intro root
    have hroom : (idx.roomFor prev turns).actualMMRToBlock = idx.actualMMRToBlock :=
      roomFor_induction (P := fun i => i.actualMMRToBlock = _) rfl (fun _ _ h => h) fun _ _ h => h
    change (((idx.roomFor prev turns).insert prev oBlock).actualMMRToBlock).get root = _
    simp only [insert, hroom]
    split_ifs <;> simp_all
  have hmem : ∀ o, o ∈ (idx.addOrphanBlock prev turns oBlock).orphans ↔
      o = oBlock ∨ o ∈ idx.orphans ∧ o.hash ≠ oBlock.hash ∧ ¬idx.Leaves (.add turns oBlock) o.hash := by
    intro o
    change o ∈ ((idx.roomFor prev turns).insert prev oBlock).orphans ↔ _
    simp [insert, orphans_roomFor hrange hsize oBlock]
  constructor
  · intro hafter o ho hleaves hclaimed
    by_contra hroot
    have hstill := hafter o.actualMMR o (by rw [hget, if_neg fun h => hroot h.1, hclaimed])
    rcases (hmem o).1 hstill with rfl | ⟨-, -, hstays⟩
    exacts [hroot rfl, hstays hleaves]
  · intro hdrops root o ho
    rw [hget] at ho
    rw [hmem]
    split at ho
    · exact Or.inl (Option.some.inj ho).symm
    next hroot =>
      obtain ⟨rfl, hne⟩ := hclaims.claims root o ho
      have hstays : ¬idx.Leaves (.add turns oBlock) o.hash :=
        fun hleaves => hroot ⟨hdrops o (hactual _ o ho) hleaves ho, hne⟩
      refine Or.inr ⟨hactual _ o ho, fun heq => hstays ?_, hstays⟩
      rw [heq]
      exact hnew (heq ▸ mem_map_of_mem (hactual _ o ho))

end

theorem actual_remove_iff [ChainHash H] (hactual : ∀ root o, idx.actualMMRToBlock.get root = some o → o ∈ idx.orphans)
    (hclaims : idx.ClaimsIndexed) : (∀ root o, idx.actualMMRToBlock.get root = some o →
      o ∈ (idx.removeOrphanBlock prev orphan).orphans) ↔ idx.DropsUnclaimed (.remove orphan) := by
  simp only [DropsUnclaimed, Leaves, leaving, map_singleton, mem_singleton, mem_remove]
  constructor
  · exact fun hafter o _ heq hclaimed => (hafter o.actualMMR o hclaimed).2 heq
  · intro hdrops root o ho
    obtain ⟨rfl, -⟩ := hclaims.claims root o ho
    exact ⟨hactual _ o ho, fun heq => hdrops o (hactual _ o ho) heq ho⟩

theorem kept_apply_iff [ChainHash H] (h : idx.Kept prev) (hclaims : idx.ClaimsIndexed) (hrange : idx.Ranges call) :
    (idx.EvictsOldest prev call ∧ (call.apply prev idx).Kept prev) ↔ idx.Sound call := by
  cases call with
  | remove orphan =>
    have hactual : (∀ root o, idx.actualMMRToBlock.get root = some o → o ∈ (idx.removeOrphanBlock prev orphan).orphans) ↔
        idx.DropsUnclaimed (.remove orphan) := actual_remove_iff h.actual hclaims
    constructor
    · exact fun hkept => ⟨trivial, trivial, hactual.1 hkept.2.actual⟩
    · exact fun hsound => ⟨trivial, (length_filter_le ..).trans h.size, h.listed.remove, hactual.2 hsound.unclaimed⟩
  | add turns oBlock =>
    have hevicts : idx.EvictsOldest prev (.add turns oBlock) ↔ _ := evictsOldest_iff hrange h.size
    have hlisted : (idx.addOrphanBlock prev turns oBlock).Listed prev ↔ _ := listed_add_iff hrange h.size h.listed
    constructor
    · rintro ⟨holdest, hkept⟩
      have hnew := hlisted.1 hkept.listed
      exact ⟨hevicts.1 holdest, hnew, (actual_add_iff hrange h.size h.actual hclaims hnew).1 hkept.actual⟩
    · rintro ⟨hpoints, hnew, hdrops⟩
      refine ⟨hevicts.2 hpoints, ?_, hlisted.2 hnew, (actual_add_iff hrange h.size h.actual hclaims hnew).2 hdrops⟩
      exact Nat.succ_le_of_lt ((length_filter_le ..).trans_lt (length_roomFor hrange h.size hpoints))

end OrphanIndex

/-- In a run of the pool, each time room is made it is by the oldest block and the pool keeps its bounds, exactly when before
every call the pointer that is used is into the pool, an added block is new, and no block that leaves is the last to have
claimed its root. -/
theorem pool_keeps_iff [ChainHash H] (calls : List (OrphanCall H))
    (hrange : Runs.Along (OrphanCall.apply prev) OrphanIndex.Ranges .empty calls) :
    Runs.Along (OrphanCall.apply prev) (fun idx call => idx.EvictsOldest prev call ∧ (call.apply prev idx).Kept prev)
        .empty calls ↔
      Runs.Along (OrphanCall.apply prev) OrphanIndex.Sound .empty calls := by
  refine Runs.along_congr (I := fun idx => idx.Kept prev ∧ idx.ClaimsIndexed)
    (fun idx call h hr => OrphanIndex.kept_apply_iff h.1 h.2 hr) (fun idx call h hP => ⟨hP.2, h.2.apply call⟩) ?_ hrange
  exact ⟨⟨Nat.zero_le _, fun _ => rfl, fun _ _ h => by cases h⟩, OrphanIndex.claimsIndexed_empty⟩

section
attribute [local instance] sumHash

def sampleCalls (prev : Nat → Nat) : OrphanIndex Nat → List (OrphanBlock Nat ⊕ OrphanBlock Nat) → List (OrphanCall Nat)
  | _, [] => []
  | idx, .inl oBlock :: rest =>
    let call := .add (idx.orphans.map (·, 0)) oBlock
    call :: sampleCalls prev (call.apply prev idx) rest
  | idx, .inr orphan :: rest => .remove orphan :: sampleCalls prev (idx.removeOrphanBlock prev orphan) rest

theorem sampleCalls_ranges (prev : Nat → Nat) (idx : OrphanIndex Nat) (l : List (OrphanBlock Nat ⊕ OrphanBlock Nat)) :
    Runs.Along (OrphanCall.apply prev) OrphanIndex.Ranges idx (sampleCalls prev idx l) := by
  induction l generalizing idx with
  | nil => trivial
  | cons a l ih =>
    cases a with
    | inl oBlock => exact ⟨by simp [OrphanIndex.Ranges, Function.comp_def], ih _⟩
    | inr orphan => exact ⟨trivial, ih _⟩

/-- The first orphan leaves behind another that claims its root. The pointer to it is replaced by one to the fourth, which
is the oldest when the pool is full and makes room. Last, the second leaves. -/
def keptCalls : List (OrphanCall Nat) := sampleCalls id .empty
  ([.inl ⟨1, 7, 5⟩, .inl ⟨2, 0, 6⟩, .inl ⟨3, 7, 8⟩, .inr ⟨1, 7, 5⟩, .inl ⟨4, 0, 4⟩] ++
    ((List.range 98).map fun i => .inl ⟨5 + i, 0, 9⟩) ++ [.inr ⟨2, 0, 6⟩])

theorem pool_keeps_sample : keptCalls.length = 104 ∧
    Runs.Along (OrphanCall.apply id) (fun idx call => idx.EvictsOldest id call ∧ (call.apply id idx).Kept id) .empty
      keptCalls :=
  ⟨by decide +kernel, (pool_keeps_iff id keptCalls (sampleCalls_ranges ..)).2 (by decide +kernel)⟩

/-- The first of two orphans is seen as the oldest one and is then adopted. -/
def adoptedOldest : List (OrphanCall Nat) := sampleCalls id .empty
  ([.inl ⟨1, 7, 5⟩, .inl ⟨2, 0, 6⟩, .inr ⟨1, 7, 5⟩] ++ (List.range 100).map fun i => .inl ⟨3 + i, 0, 6⟩)

/-- It is still the one to make room when the pool is full, and the one that claims its root. -/
theorem pool_overflows : Runs.Along (OrphanCall.apply id) OrphanIndex.Ranges .empty adoptedOldest ∧
    let idx := adoptedOldest.foldl (OrphanCall.apply id) .empty
    maxOrphanBlocks < idx.orphans.length ∧ idx.actualMMRToBlock.get 7 = some ⟨1, 7, 5⟩ ∧ ⟨1, 7, 5⟩ ∉ idx.orphans := by
  decide +kernel

end

section
/-! ## The root of an orphan -/

namespace OrphanIndex
variable (idx : OrphanIndex H)

def isKnownOrphan (hash : H) : Bool := idx.orphans.any (·.hash = hash)

/-- The loop of `GetOrphanMMRRoot`, `none` when it has not ended in as many turns. -/
def orphanRootLoop : Nat → H → H → Option H
  | 0, _, _ => none
  | fuel + 1, orphanRoot, prevHash =>
    if idx.isKnownOrphan prevHash then
      match idx.actualMMRToBlock.get (prev prevHash) with
      | some orphan => orphanRootLoop fuel prevHash orphan.hash
      | none => some prevHash
    else some orphanRoot

def getOrphanMMRRoot (fuel : Nat) (hash : H) : Option H := idx.orphanRootLoop prev fuel hash hash

/-- The search goes from an orphan to the last block for which its root was claimed. -/
def Follows (hash parent : H) : Prop :=
  idx.isKnownOrphan hash ∧ (idx.actualMMRToBlock.get (prev hash)).map OrphanBlock.hash = some parent

/-- A block of the pool for which the root of another was claimed. The zero root is no claim. -/
def ClaimedParent [ChainHash H] (hash parent : H) : Prop :=
  ∃ o ∈ idx.orphans, o.hash = parent ∧ o.actualMMR = prev hash ∧ o.actualMMR ≠ ChainHash.zeroHash

variable {prev idx}

theorem ClaimsIndexed.run [ChainHash H] (h : idx.ClaimsIndexed) {calls : List (OrphanCall H)} :
    (calls.foldl (OrphanCall.apply prev) idx).ClaimsIndexed := by
  induction calls generalizing idx with
  | nil => exact h
  | cons call calls ih => exact ih (h.apply call)

theorem orphanRootLoop_succ_of_follows {fuel : Nat} {orphanRoot hash parent : H} (h : idx.Follows prev hash parent) :
    idx.orphanRootLoop prev (fuel + 1) orphanRoot hash = idx.orphanRootLoop prev fuel hash parent := by
  obtain ⟨o, hget, rfl⟩ := Option.map_eq_some_iff.1 h.2
  simp [orphanRootLoop, h.1, hget]

theorem orphanRootLoop_cycle {hash : H} (h : Relation.TransGen (idx.Follows prev) hash hash) (fuel : Nat) (orphanRoot : H) :
    idx.orphanRootLoop prev fuel orphanRoot hash = none := by
  induction fuel generalizing hash orphanRoot with
  | zero => rfl
  | succ fuel ih =>
    obtain ⟨parent, hfollows, hback⟩ := Relation.TransGen.head'_iff.1 h
    rw [orphanRootLoop_succ_of_follows hfollows]
    exact ih (Relation.TransGen.tail' hback hfollows) hash

theorem orphanRootLoop_ends (h : ∀ hash, ¬ Relation.TransGen (idx.Follows prev) hash hash) (hash orphanRoot : H) :
    ∃ fuel r, idx.orphanRootLoop prev fuel orphanRoot hash = some r := by
  have hwf : {hash | idx.isKnownOrphan hash = true}.WellFoundedOn (flip (Relation.TransGen (idx.Follows prev))) := by
    have hfin : {hash | idx.isKnownOrphan hash = true}.Finite :=
      (idx.orphans.map OrphanBlock.hash).finite_toSet.subset fun hash hknown => by simpa [isKnownOrphan] using hknown
    have : IsStrictOrder H (flip (Relation.TransGen (idx.Follows prev))) :=
      { irrefl := h, trans := fun _ _ _ hab hbc => hbc.trans hab }
    exact hfin.wellFoundedOn
  by_cases hknown : idx.isKnownOrphan hash
  · refine hwf.induction hknown (P := fun hash => ∀ orphanRoot, ∃ fuel r, idx.orphanRootLoop prev fuel orphanRoot hash =
      some r)
      (fun hash (hknown : idx.isKnownOrphan hash = true) ih orphanRoot => ?_) orphanRoot
    cases hget : idx.actualMMRToBlock.get (prev hash) with
    | none => exact ⟨1, hash, by simp [orphanRootLoop, hknown, hget]⟩
    | some parent =>
      have hfollows : idx.Follows prev hash parent.hash := ⟨hknown, by rw [hget]; rfl⟩
      by_cases hparent : idx.isKnownOrphan parent.hash
      · obtain ⟨fuel, r, hr⟩ := ih parent.hash hparent (.single hfollows) hash
        exact ⟨fuel + 1, r, by rw [orphanRootLoop_succ_of_follows hfollows, hr]⟩
      · exact ⟨2, hash, by rw [orphanRootLoop_succ_of_follows hfollows]; simp [orphanRootLoop, hparent]⟩
  · exact ⟨1, orphanRoot, by simp [orphanRootLoop, hknown]⟩

theorem orphanRootLoop_root [ChainHash H] (h : idx.ClaimsIndexed)
    (hactual : ∀ root o, idx.actualMMRToBlock.get root = some o → o ∈ idx.orphans)
    {fuel : Nat} {hash orphanRoot r : H} (hknown : idx.isKnownOrphan hash)
    (hr : idx.orphanRootLoop prev fuel orphanRoot hash = some r) :
    idx.isKnownOrphan r ∧ Relation.ReflTransGen (idx.ClaimedParent prev) hash r ∧
      ∀ parent, ¬ idx.ClaimedParent prev r parent := by
  induction fuel generalizing hash orphanRoot with
  | zero => cases hr
  | succ fuel ih =>
    rw [orphanRootLoop, if_pos hknown] at hr
    cases hget : idx.actualMMRToBlock.get (prev hash) with
    | none =>
      rw [hget] at hr
      obtain rfl : hash = r := Option.some.inj hr
      refine ⟨hknown, .refl, ?_⟩
      rintro parent ⟨o, ho, -, hclaim, hne⟩
      simpa [hclaim, hget] using h.indexed o ho hne
    | some parent =>
      rw [hget] at hr
      have hmem := hactual _ _ hget
      obtain ⟨hclaim, hne⟩ := h.claims _ _ hget
      obtain ⟨hr, hreach, hroot⟩ := ih (any_eq_true.2 ⟨parent, hmem, by simp⟩) hr
      exact ⟨hr, hreach.head ⟨parent, hmem, rfl, hclaim, hclaim ▸ hne⟩, hroot⟩

end OrphanIndex

/-- After any calls, the search for the root of an orphan ends for all blocks exactly when the claims that it follows have no
cycle. If they are claims of blocks that are still in the pool, what it returns is a root. -/
theorem orphanRoot_search [ChainHash H] (calls : List (OrphanCall H)) : let idx := calls.foldl (OrphanCall.apply prev) .empty
    ((∀ hash, ∃ fuel r, idx.getOrphanMMRRoot prev fuel hash = some r) ↔
      ∀ hash, ¬ Relation.TransGen (idx.Follows prev) hash hash) ∧
    ((∀ root o, idx.actualMMRToBlock.get root = some o → o ∈ idx.orphans) →
      ∀ hash fuel r, idx.isKnownOrphan hash → idx.getOrphanMMRRoot prev fuel hash = some r →
        idx.isKnownOrphan r ∧ Relation.ReflTransGen (idx.ClaimedParent prev) hash r ∧
          ∀ parent, ¬ idx.ClaimedParent prev r parent) := by
  intro idx
  have hclaims : idx.ClaimsIndexed := OrphanIndex.claimsIndexed_empty.run
  refine ⟨⟨fun hends hash hcycle => ?_, fun hacyclic hash => OrphanIndex.orphanRootLoop_ends hacyclic hash hash⟩, ?_⟩
  · obtain ⟨fuel, r, hr⟩ := hends hash
    simp [OrphanIndex.getOrphanMMRRoot, OrphanIndex.orphanRootLoop_cycle hcycle] at hr
  · intro hactual hash fuel r hknown hr
    exact OrphanIndex.orphanRootLoop_root hclaims hactual hknown hr

attribute [local instance] sumHash

/-- An orphan with its own root as the claimed one is searched for ever. -/
theorem orphanRoot_search_loops : let idx := [OrphanCall.add [] ⟨1, 9, 5⟩].foldl (OrphanCall.apply fun _ => 9) .empty
    ∀ fuel, idx.getOrphanMMRRoot (fun _ => 9) fuel 1 = none :=
  fun fuel => OrphanIndex.orphanRootLoop_cycle (.single ⟨rfl, rfl⟩) fuel 1

end

end

end Jaxnetd.Blockchain
