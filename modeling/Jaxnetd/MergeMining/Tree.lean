import Jaxnetd.Lib.TreeCode
import Jaxnetd.MergeMining.Soundness

/-!
# The sparse Merkle tree

`SparseMerkleTree` of `tree.go`, as a miner builds it: slots are filled, `Root` computes the hashes level by
level, `MerkleProofPath` reads the siblings of a slot. A node without data is one under which nothing was
mined and which no hash has needed so far; next to a node with data it holds the magic hash.

After `Root` the nodes of a new tree show the collapsed tree of its slots (`shown_calculate`): data and the
orange flag of every node, and the data of both children of a nonempty node.
-/

namespace Jaxnetd.MergeMining
open ChainHash Checks SlotTree List Function

structure Node (H : Type) where
  data : Option H
  isOrange : Bool
deriving DecidableEq

/-- `SparseMerkleTree`. The nodes are numbered from the root `1` on, `2 * x` and `2 * x + 1` under the node `x`, so the
slots are those from `2 ^ height` on. -/
structure SparseMerkleTree (H : Type) where
  height : Nat
  nodes : Nat → Node H
  modifiedShardsIndex : Nat → Bool
  height_pos : 0 < height

variable {H : Type} [ChainHash H] [DecidableEq H] {e : Nat}

namespace Node

def isMH (n : Node H) : Bool := n.data = some magicHash

def containsData (n : Node H) : Bool := n.data ≠ none ∧ n.data ≠ some magicHash

end Node

section
omit [ChainHash H] [DecidableEq H]

def setData (nodes : Nat → Node H) (x : Nat) (data : Option H) : Nat → Node H :=
  update nodes x { nodes x with data }

def setOrange (nodes : Nat → Node H) (x : Nat) : Nat → Node H :=
  update nodes x { nodes x with isOrange := true }

end

def sibling (x : Nat) : Nat := if x % 2 = 0 then x + 1 else x - 1

variable (nodes : Nat → Node H)

def setNodeNilOrMH (dest : Nat) : Nat → Node H :=
  setData nodes dest (if dest = 1 ∨ (nodes (sibling dest)).containsData then some magicHash else none)

/-- `processPair` for the pair under the node `x`. A pair of the magic hash with itself or no data is passed over. -/
def processPair (x : Nat) : Nat → Node H :=
  let l := nodes (2 * x)
  let r := nodes (2 * x + 1)
  match l.data, r.data with
  | none, none => setNodeNilOrMH nodes x
  | some a, none =>
    if a ≠ magicHash then
      setOrange (setData (setData nodes (2 * x + 1) (some magicHash)) x (some (pairHash a magicHash))) x
    else nodes
  | none, some b =>
    if b ≠ magicHash then
      setOrange (setData (setData nodes (2 * x) (some magicHash)) x (some (pairHash magicHash b))) x
    else nodes
  | some a, some b =>
    if a ≠ magicHash ∧ b ≠ magicHash then
      let nodes := setData nodes x (some (pairHash a b))
      if l.isOrange || r.isOrange then setOrange nodes x else nodes
    else if a ≠ magicHash ∨ b ≠ magicHash then setOrange (setData nodes x (some (pairHash a b))) x
    else nodes

def levelParents (level : Nat) : List Nat := range' (2 ^ level) (2 ^ level)

/-- The levels above the slots, from `level - 1` to the pair under the root. -/
def processLevels (nodes : Nat → Node H) : Nat → Nat → Node H
  | 0 => nodes
  | level + 1 => processLevels ((levelParents level).foldl processPair nodes) level

def markAllNodesAsRegular (x : Nat) : Node H :=
  if x = 1 ∨ (nodes x).data.isSome then { nodes x with isOrange := false } else nodes x

namespace SparseMerkleTree

section
omit [ChainHash H] [DecidableEq H]

def slotsCount (t : SparseMerkleTree H) : Nat := 2 ^ t.height

def getNode (t : SparseMerkleTree H) (position : Nat) : Except Fault (Node H) := do
  failIf (t.slotsCount ≤ position) (.error "specified shard position does not correspond to the expected tree conf")
  return t.nodes (t.slotsCount + position)

end

section
omit [ChainHash H]

def setShardHash (t : SparseMerkleTree H) (position : Nat) (hash : H) : Except Fault (SparseMerkleTree H) := do
  let correspondingNode ← t.getNode position
  if correspondingNode.data = some hash then return t
  else return { t with
    nodes := setData t.nodes (t.slotsCount + position) (some hash)
    modifiedShardsIndex := update t.modifiedShardsIndex position true }

def assign (t : SparseMerkleTree H) (sets : List (Nat × H)) : Except Fault (SparseMerkleTree H) :=
  sets.foldlM (fun t (position, hash) => t.setShardHash position hash) t

end

variable (t : SparseMerkleTree H)

def containsChanges : Bool := (range t.slotsCount).any t.modifiedShardsIndex

/-- What `Root` does to the tree. -/
def calculate : SparseMerkleTree H :=
  if t.containsChanges then
    let nodes := markAllNodesAsRegular t.nodes
    let changed := (levelParents (t.height - 1)).filter fun x =>
      t.modifiedShardsIndex (2 * x - t.slotsCount) || t.modifiedShardsIndex (2 * x - t.slotsCount + 1)
    { t with
      nodes := processLevels (changed.foldl processPair nodes) (t.height - 1)
      modifiedShardsIndex := fun _ => false }
  else t

/-- `Root`, with the tree that it leaves. -/
def root (t : SparseMerkleTree H) : Except Fault (SparseMerkleTree H × H) := do
  let hash ← orFail (.error "root is nil") (t.calculate.nodes 1).data
  return (t.calculate, hash)

/-- The data beside the way from the node `x` upwards, `level` pairs of it. Go stops at a node without data. -/
def pathData (nodes : Nat → Node H) : Nat → Nat → Option (List H)
  | 0, _ => some []
  | level + 1, x => do
    let hash ← (nodes (sibling x)).data
    let rest ← pathData nodes level (x / 2)
    return hash :: rest

def merkleProofPath (position : Nat) : Except Fault (SparseMerkleTree H × List H) := do
  let node ← t.getNode position
  failIf (node.containsData = false) (.error "leaf is nil")
  let (t, _) ← t.root
  let path ← orFail nilPointer (pathData t.nodes t.height (t.slotsCount + position))
  return (t, path)

end SparseMerkleTree

/-- `NewSparseMerkleTree`, when its alignment loop ends: all slots hold the magic hash. -/
def newSparseMerkleTree (shardsCount : Nat) : Except Fault (SparseMerkleTree H) :=
  match h : heightWithoutRoot shardsCount with
  | none => .error (.stop "NewSparseMerkleTree does not return")
  | some height => do
    let tree : SparseMerkleTree H := ⟨height, fun _ => ⟨none, false⟩, fun _ => false, (heightWithoutRoot_some h).1⟩
    let tree ← tree.assign ((range tree.slotsCount).map (·, magicHash))
    return { tree with modifiedShardsIndex := update tree.modifiedShardsIndex 0 true }

def filledTree (shardsCount : Nat) (sets : List (Nat × H)) : Except Fault (SparseMerkleTree H) := do
  let tree ← newSparseMerkleTree shardsCount
  tree.assign sets

/-! ## One pair -/

def treeHash (t : SlotTree (Option H)) : H := t.root pairHash (·.getD magicHash)

def MagicFree (H : Type) [ChainHash H] : Prop := ∀ a b : H, pairHash a b ≠ magicHash

variable {s : Nat → Option H} {x d n : Nat} {t : SparseMerkleTree H} {sets : List (Nat × H)}

section
omit [DecidableEq H]

theorem treeHash_succ (h : collapse pairHash s (e + 1) x ≠ leaf none) : treeHash (collapse pairHash s (e + 1) x) =
      pairHash (treeHash (collapse pairHash s e (2 * x))) (treeHash (collapse pairHash s e (2 * x + 1))) :=
  root_join h

theorem treeHash_ne (hpair : MagicFree H) (hs : ∀ x, s x ≠ some magicHash)
    (h : collapse pairHash s e x ≠ leaf none) : treeHash (collapse pairHash s e x) ≠ magicHash := by
  cases e with
  | zero =>
    cases hx : s x with
    | none => exact absurd (by rw [collapse, hx]) h
    | some a =>
      rw [collapse, hx]
      rintro rfl
      exact hs x hx
  | succ e =>
    rw [treeHash_succ h]
    exact hpair _ _

structure Shows (s : Nat → Option H) (nodes : Nat → Node H) (e x : Nat) : Prop where
  orange : (nodes x).isOrange = (collapse pairHash s e x).isNode
  empty : collapse pairHash s e x = leaf none → (nodes x).data = none ∨ (nodes x).data = some magicHash
  full : collapse pairHash s e x ≠ leaf none → (nodes x).data = some (treeHash (collapse pairHash s e x))

end

/-- A pair shows the trees under it, and both nodes have data if the node above is not empty. -/
structure PairShown (s : Nat → Option H) (nodes : Nat → Node H) (e x : Nat) : Prop where
  left : Shows s nodes e (2 * x)
  right : Shows s nodes e (2 * x + 1)
  filled : collapse pairHash s (e + 1) x ≠ leaf none →
    (nodes (2 * x)).data = some (treeHash (collapse pairHash s e (2 * x))) ∧
      (nodes (2 * x + 1)).data = some (treeHash (collapse pairHash s e (2 * x + 1)))

section
variable {nodes : Nat → Node H} {x : Nat} {a b : H}

theorem processPair_empty (hblank : nodes x = ⟨none, false⟩)
    (hl : (nodes (2 * x)).data = none ∨ (nodes (2 * x)).data = some magicHash)
    (hr : (nodes (2 * x + 1)).data = none ∨ (nodes (2 * x + 1)).data = some magicHash) :
    ∃ data, (data = none ∨ data = some magicHash) ∧ processPair nodes x = setData nodes x data := by
  have hsame : nodes = setData nodes x none := by
    rw [setData, hblank]
    exact (update_eq_self_iff.2 hblank.symm).symm
  rcases hl with hl | hl
  · rcases hr with hr | hr
    · refine ⟨if x = 1 ∨ (nodes (sibling x)).containsData then some magicHash else none, ?_, ?_⟩
      rotate_left
      · simp only [processPair, hl, hr, setNodeNilOrMH]
      split
      · exact Or.inr rfl
      · exact Or.inl rfl
    · exact ⟨none, Or.inl rfl, by simpa [processPair, hl, hr] using hsame⟩
  · rcases hr with hr | hr
    · exact ⟨none, Or.inl rfl, by simpa [processPair, hl, hr] using hsame⟩
    · exact ⟨none, Or.inl rfl, by simpa [processPair, hl, hr] using hsame⟩

section
omit [ChainHash H] [DecidableEq H]

theorem setData_same (h : (nodes x).data = some a) : setData nodes x (some a) = nodes := by
  rw [setData, ← h]
  exact update_eq_self _ _

theorem setOrange_setData (data : Option H) : setOrange (setData nodes x data) x = update nodes x ⟨data, true⟩ := by
  simp [setOrange, setData]

end

/-- A pair under which something was mined: a node of it without data counts as one with the magic hash. -/
theorem processPair_full (hblank : nodes x = ⟨none, false⟩)
    (hl : (nodes (2 * x)).data = some a ∨ (nodes (2 * x)).data = none ∧ a = magicHash)
    (hr : (nodes (2 * x + 1)).data = some b ∨ (nodes (2 * x + 1)).data = none ∧ b = magicHash)
    (hab : a ≠ magicHash ∨ b ≠ magicHash) :
    processPair nodes x = update (setData (setData nodes (2 * x) (some a)) (2 * x + 1) (some b)) x
      ⟨some (pairHash a b), a = magicHash ∨ b = magicHash ∨ (nodes (2 * x)).isOrange ∨ (nodes (2 * x + 1)).isOrange⟩ := by
  rcases hl with hl | ⟨hl, rfl⟩
  · rw [setData_same hl]
    rcases hr with hr | ⟨hr, rfl⟩
    · rw [setData_same hr]
      by_cases hmagic : a ≠ magicHash ∧ b ≠ magicHash
      · simp only [processPair, hl, hr, if_pos hmagic, setOrange_setData]
        split <;> simp_all [setData]
      · rw [processPair, hl, hr]
        simp only [if_neg hmagic, if_pos hab, setOrange_setData]
        rw [decide_eq_true (by tauto)]
    · simp_all [processPair, setOrange_setData]
  · rcases hr with hr | ⟨hr, rfl⟩
    · have hright : (setData nodes (2 * x) (some magicHash) (2 * x + 1)).data = some b := by simpa [setData] using hr
      rw [setData_same hright]
      simp_all [processPair, setOrange_setData]
    · simp at hab

theorem processPair_frame {y : Nat} (h : y ≠ x) (hl : y ≠ 2 * x) (hr : y ≠ 2 * x + 1) :
    processPair nodes x y = nodes y := by
  rcases hleft : (nodes (2 * x)).data with _ | a <;> rcases hright : (nodes (2 * x + 1)).data with _ | b <;>
    simp only [processPair, hleft, hright]
  · simp [setNodeNilOrMH, setData, h]
  · split <;> simp [setOrange, setData, h, hl]
  · split <;> simp [setOrange, setData, h, hr]
  · split
    · split <;> simp [setOrange, setData, h]
    · split <;> simp [setOrange, setData, h]

variable {nodes' : Nat → Node H}

omit [DecidableEq H] in
theorem Shows.congr (h : Shows s nodes e x) (heq : nodes' x = nodes x) : Shows s nodes' e x := by
  refine ⟨?_, ?_, ?_⟩ <;> rw [heq]
  exacts [h.orange, h.empty, h.full]

section
omit [DecidableEq H]
variable {s : Nat → Option H}

theorem Shows.data (h : Shows s nodes e x) : (nodes x).data = some (treeHash (collapse pairHash s e x)) ∨
    (nodes x).data = none ∧ treeHash (collapse pairHash s e x) = magicHash := by
  by_cases hempty : collapse pairHash s e x = leaf none
  · rw [hempty]
    exact (h.empty hempty).symm.imp id fun hnone => ⟨hnone, rfl⟩
  · exact .inl (h.full hempty)

/-- A node still shows the tree under it when it gets the hash of that tree. -/
theorem Shows.filled (h : Shows s nodes e x)
    (heq : nodes' x = { nodes x with data := some (treeHash (collapse pairHash s e x)) }) : Shows s nodes' e x := by
  refine ⟨?_, ?_, ?_⟩ <;> rw [heq]
  · exact h.orange
  · intro hempty
    rw [hempty]
    exact .inr rfl
  · exact fun _ => rfl

end

/-- Where the pair under a blank node shows the trees under it, so does the node after the pair is processed. -/
theorem processPair_shown
    (hmagic : ∀ y, y = 2 * x ∨ y = 2 * x + 1 →
      collapse pairHash s e y ≠ leaf none → treeHash (collapse pairHash s e y) ≠ magicHash)
    (hx : 0 < x) (hblank : nodes x = ⟨none, false⟩) (hl : Shows s nodes e (2 * x)) (hr : Shows s nodes e (2 * x + 1)) :
    Shows s (processPair nodes x) (e + 1) x ∧ PairShown s (processPair nodes x) e x := by
  have hl' : 2 * x ≠ x := by omega
  have hr' : 2 * x + 1 ≠ x := by omega
  by_cases hnone : collapse pairHash s (e + 1) x = leaf none
  · -- nothing was mined below: the node stays regular, with the magic hash or nothing
    obtain ⟨hle, hre⟩ := join_eq_empty.1 hnone
    obtain ⟨data, hdata, heq⟩ := processPair_empty hblank (hl.empty hle) (hr.empty hre)
    rw [heq]
    refine ⟨⟨?_, fun _ => ?_, fun h => absurd hnone h⟩, ⟨hl.congr ?_, hr.congr ?_, fun h => absurd hnone h⟩⟩
    · simp [setData, hblank, hnone, isNode]
    · simpa [setData] using hdata
    · simp [setData, hl']
    · simp [setData, hr']
  · have hiff : ∀ y, y = 2 * x ∨ y = 2 * x + 1 →
        (treeHash (collapse pairHash s e y) = magicHash ↔ collapse pairHash s e y = leaf none) := fun y hy =>
      ⟨fun h => by_contra fun hne => hmagic y hy hne h, fun h => by rw [h]; rfl⟩
    have hleft := hiff _ (.inl rfl)
    have hright := hiff _ (.inr rfl)
    have hsome := not_and_or.1 (mt join_eq_empty.2 hnone)
    rw [processPair_full hblank hl.data hr.data (hsome.imp (mt hleft.1) (mt hright.1))]
    refine ⟨⟨?_, fun h => absurd h hnone, fun _ => ?_⟩, hl.filled ?_, hr.filled ?_, fun _ => ⟨?_, ?_⟩⟩
    · rw [update_self, Bool.eq_iff_iff, decide_eq_true_eq, hleft, hright, hl.orange, hr.orange]
      exact (isNode_join hnone).symm
    · rw [update_self, treeHash_succ hnone]
    · simp [setData, hl']
    · simp [setData, hr']
    · simp [setData, hl']
    · simp [setData, hr']

end

/-! ## A run of `Root` -/

def AtHeight (d e x : Nat) : Prop := ∃ level, level + e = d ∧ 2 ^ level ≤ x ∧ x < 2 ^ (level + 1)

theorem AtHeight.children (h : AtHeight d (e + 1) x) : AtHeight d e (2 * x) ∧ AtHeight d e (2 * x + 1) := by
  obtain ⟨level, hd, hge, hlt⟩ := h
  exact ⟨⟨level + 1, by omega, by omega, by omega⟩, ⟨level + 1, by omega, by omega, by omega⟩⟩

/-- No node of the tree with a mined slot below has the magic hash. -/
def NoMagicNode (s : Nat → Option H) (d : Nat) : Prop :=
  ∀ e x, AtHeight d e x → collapse pairHash s e x ≠ leaf none → treeHash (collapse pairHash s e x) ≠ magicHash

omit [DecidableEq H] in
theorem MagicFree.noMagicNode (hpair : MagicFree H) (hs : ∀ x, s x ≠ some magicHash) : NoMagicNode s d :=
  fun _ _ _ h => treeHash_ne hpair hs h

omit [DecidableEq H] in
/-- The nodes when the levels above `2 * lo` and the pairs from `lo` up to `y` are done. -/
structure Shown (s : Nat → Option H) (d : Nat) (nodes : Nat → Node H) (lo y : Nat) : Prop where
  slots : ∀ x, AtHeight d 0 x → Shows s nodes 0 x
  done : ∀ e x, AtHeight d (e + 1) x → 2 * lo ≤ x ∨ lo ≤ x ∧ x < y →
    Shows s nodes (e + 1) x ∧ PairShown s nodes e x
  blank : ∀ x, 0 < x → x < 2 ^ d → ¬(2 * lo ≤ x ∨ lo ≤ x ∧ x < y) → nodes x = ⟨none, false⟩

theorem AtHeight.unique {e' : Nat} (h : AtHeight d e x) (h' : AtHeight d e' x) : e = e' := by
  obtain ⟨level, hd, hge, hlt⟩ := h
  obtain ⟨level', hd', hge', hlt'⟩ := h'
  have h1 : ¬level < level' := fun hl => by
    have := Nat.pow_le_pow_right (show 0 < 2 by decide) (show level + 1 ≤ level' from hl)
    omega
  have h2 : ¬level' < level := fun hl => by
    have := Nat.pow_le_pow_right (show 0 < 2 by decide) (show level' + 1 ≤ level from hl)
    omega
  omega

theorem AtHeight.lt (h : AtHeight d (e + 1) x) : 0 < x ∧ x < 2 ^ d := by
  obtain ⟨level, hd, hge, hlt⟩ := h
  have := Nat.pow_le_pow_right (show 0 < 2 by decide) (show level + 1 ≤ d by omega)
  omega

theorem atHeight_root (d : Nat) : AtHeight d d 1 := ⟨0, by omega, by decide, by decide⟩

namespace Shown
variable {s : Nat → Option H} {d lo y : Nat} {nodes : Nat → Node H}

omit [DecidableEq H] in
theorem shows (h : Shown s d nodes lo y) (hat : AtHeight d e x)
    (hx : 2 * lo ≤ x ∨ lo ≤ x ∧ x < y) : Shows s nodes e x := by
  cases e with
  | zero => exact h.slots x hat
  | succ e => exact (h.done e x hat hx).1

section
variable (hmagic : NoMagicNode s d)
include hmagic

theorem step (h : Shown s d nodes lo y)
    (hat : AtHeight d (e + 1) y) (hlo : lo ≤ y) (hlt : y < 2 * lo) : Shown s d (processPair nodes y) lo (y + 1) := by
  obtain ⟨hy0, hyd⟩ := hat.lt
  obtain ⟨hatl, hatr⟩ := hat.children
  have hchildren : ∀ x, x = 2 * y ∨ x = 2 * y + 1 → AtHeight d e x := by
    rintro x (rfl | rfl)
    · exact hatl
    · exact hatr
  obtain ⟨hshows, hshown⟩ := processPair_shown (fun x hx => hmagic e x (hchildren x hx)) hy0 (h.blank y hy0 hyd (by omega))
    (h.shows hatl (by omega)) (h.shows hatr (by omega))
  have hkeep : ∀ e' x, AtHeight d e' x → x ≠ y → Shows s nodes e' x → Shows s (processPair nodes y) e' x := by
    intro e' x hatx hne hold
    by_cases hl : x = 2 * y
    · subst hl
      rw [hatx.unique hatl]
      exact hshown.left
    · by_cases hr : x = 2 * y + 1
      · subst hr
        rw [hatx.unique hatr]
        exact hshown.right
      · exact hold.congr (processPair_frame hne hl hr)
  refine ⟨fun x hx => ?_, fun e' x hatx hx => ?_, fun x h0 hxd hx => ?_⟩
  · have hxy : x ≠ y := by
      rintro rfl
      exact absurd (hx.unique hat) (by omega)
    exact hkeep 0 x hx hxy (h.slots x hx)
  · by_cases hxy : x = y
    · subst hxy
      obtain rfl : e' = e := by
        have := hatx.unique hat
        omega
      exact ⟨hshows, hshown⟩
    · obtain ⟨hold, hleft, hright, hfilled⟩ := h.done e' x hatx (by omega)
      -- the pair below `x` is not the one that changes
      have hl : processPair nodes y (2 * x) = nodes (2 * x) :=
        processPair_frame (by omega) (by omega) (by omega)
      have hr : processPair nodes y (2 * x + 1) = nodes (2 * x + 1) :=
        processPair_frame (by omega) (by omega) (by omega)
      refine ⟨hkeep _ x hatx hxy hold, hleft.congr hl, hright.congr hr, ?_⟩
      rw [hl, hr]
      exact hfilled
  · rw [processPair_frame (by omega) (by omega) (by omega)]
    exact h.blank x h0 hxd (by omega)

theorem foldl {level : Nat} (hd : level + (e + 1) = d)
    (h : Shown s d nodes (2 ^ level) y) (hlo : 2 ^ level ≤ y) (hn : y + n ≤ 2 * 2 ^ level) :
    Shown s d ((range' y n).foldl processPair nodes) (2 ^ level) (y + n) := by
  induction n generalizing nodes y with
  | zero => exact h
  | succ n ih =>
    have hat : AtHeight d (e + 1) y := ⟨level, hd, hlo, by rw [Nat.pow_succ]; omega⟩
    have hstep := h.step hmagic hat hlo (by omega)
    rw [range'_succ, foldl_cons, ← Nat.add_assoc, Nat.add_right_comm]
    exact ih hstep (by omega) (by omega)

theorem processLevels {level : Nat}
    (hd : level + (e + 1) = d) (h : Shown s d nodes (2 ^ level) (2 ^ level)) :
    Shown s d (processLevels nodes (level + 1)) 1 2 := by
  induction level generalizing nodes e with
  | zero => exact h.foldl hmagic hd (Nat.le_refl _) (by decide)
  | succ level ih =>
    have hlevel := h.foldl hmagic (n := 2 ^ (level + 1)) hd (Nat.le_refl _) (by omega)
    refine ih (e := e + 1) (by omega) ⟨hlevel.slots, fun e' x hat hx => hlevel.done e' x hat (by omega), ?_⟩
    exact fun x h0 hxd hx => hlevel.blank x h0 hxd (by omega)

end

end Shown

/-! ## New trees -/

def SparseMerkleTree.slotHash (t : SparseMerkleTree H) (x : Nat) : Option H :=
  (t.nodes x).data.filter (· ≠ magicHash)

theorem SparseMerkleTree.slotHash_ne (t : SparseMerkleTree H) (x : Nat) : t.slotHash x ≠ some magicHash := by
  intro h
  have := (Option.filter_eq_some_iff.1 h).2
  simp at this

section
omit [ChainHash H] [DecidableEq H]

/-- A tree whose root has not been computed since it was made: every slot has data and counts as modified. -/
structure Fresh (t : SparseMerkleTree H) : Prop where
  slot : ∀ i < t.slotsCount, ∃ a, t.nodes (t.slotsCount + i) = ⟨some a, false⟩
  blank : ∀ x, 0 < x → x < t.slotsCount → t.nodes x = ⟨none, false⟩
  modified : ∀ i < t.slotsCount, t.modifiedShardsIndex i = true

theorem Fresh.slot_atHeight (h : Fresh t) (hx : AtHeight t.height 0 x) :
    ∃ a, t.nodes x = ⟨some a, false⟩ := by
  obtain ⟨level, rfl, hge, hlt⟩ := hx
  obtain ⟨i, rfl⟩ := Nat.exists_eq_add_of_le hge
  exact h.slot i (by unfold SparseMerkleTree.slotsCount; omega)

end

namespace SparseMerkleTree
variable {t : SparseMerkleTree H}

theorem calculate_fresh (h : Fresh t) : t.calculate =
    { t with
      nodes := processLevels (markAllNodesAsRegular t.nodes) t.height
      modifiedShardsIndex := fun _ => false } := by
  have h0 : 0 < t.slotsCount := Nat.pow_pos (by decide)
  have hchanges : t.containsChanges = true :=
    any_eq_true.2 ⟨0, mem_range.2 h0, h.modified 0 h0⟩
  have hheight : t.height = t.height - 1 + 1 := (Nat.sub_add_cancel t.height_pos).symm
  have hall : (levelParents (t.height - 1)).filter (fun x =>
      t.modifiedShardsIndex (2 * x - t.slotsCount) || t.modifiedShardsIndex (2 * x - t.slotsCount + 1)) =
        levelParents (t.height - 1) := by
    refine filter_eq_self.2 fun x hx => ?_
    rw [levelParents, mem_range'_1] at hx
    have h2 : t.slotsCount = 2 * 2 ^ (t.height - 1) := by
      rw [slotsCount]
      conv_lhs => rw [hheight]
      ring
    rw [h.modified _ (by omega), Bool.true_or]
  have hlevels : processLevels (markAllNodesAsRegular t.nodes) t.height =
      processLevels ((levelParents (t.height - 1)).foldl processPair (markAllNodesAsRegular t.nodes)) (t.height - 1) := by
    conv_lhs => rw [hheight, processLevels]
  rw [calculate, if_pos hchanges, hlevels]
  simp only [hall]

/-- After `Root` the nodes show the collapsed tree of the slots. -/
theorem shown_calculate (hmagic : NoMagicNode t.slotHash t.height) (h : Fresh t) :
    Shown t.slotHash t.height t.calculate.nodes 1 2 := by
  have hheight : t.height = t.height - 1 + 1 := (Nat.sub_add_cancel t.height_pos).symm
  have h2 : 2 * 2 ^ (t.height - 1) = 2 ^ t.height := by
    conv_rhs => rw [hheight]
    ring
  rw [calculate_fresh h]
  have hstart : Shown t.slotHash t.height (markAllNodesAsRegular t.nodes) (2 ^ (t.height - 1)) (2 ^ (t.height - 1)) := by
    refine ⟨fun x hx => ?_, fun e x hat hx => absurd hat.lt.2 (by omega), fun x h0 hxd hx => ?_⟩
    · obtain ⟨a, ha⟩ := h.slot_atHeight hx
      have hregular : markAllNodesAsRegular t.nodes x = ⟨some a, false⟩ := by
        rw [markAllNodesAsRegular, ha]
        simp
      have hslot : t.slotHash x = if a = magicHash then none else some a := by
        rw [slotHash, ha, Option.filter_some]
        by_cases hm : a = magicHash <;> simp [hm]
      refine ⟨by rw [hregular, collapse, isNode], fun hempty => ?_, fun hfull => ?_⟩ <;> rw [hregular]
      · rw [collapse, hslot] at hempty
        split at hempty
        · next hm => exact Or.inr (congrArg some hm)
        · cases hempty
      · rw [collapse, hslot] at hfull ⊢
        split at hfull
        · exact absurd rfl hfull
        · next hm => rw [if_neg hm]; rfl
    · rw [markAllNodesAsRegular, h.blank x h0 hxd]
      simp
  have := hstart.processLevels hmagic (e := 0) hheight.symm
  rwa [← hheight] at this

theorem calculate_calculate (h : Fresh t) : t.calculate.calculate = t.calculate := by
  have hno : t.calculate.containsChanges = false := by
    rw [calculate_fresh h]
    simp [containsChanges]
  rw [calculate, hno]
  rfl

theorem height_calculate : t.calculate.height = t.height := by
  unfold calculate
  split <;> rfl

section
omit [ChainHash H]

theorem setShardHash_ok {position : Nat} (hp : position < t.slotsCount) (hash : H) :
    ∃ t', t.setShardHash position hash = .ok t' ∧ t'.height = t.height ∧
      t'.nodes = setData t.nodes (t.slotsCount + position) (some hash) ∧
      (∀ i, t.modifiedShardsIndex i = true → t'.modifiedShardsIndex i = true) ∧
      ((t.nodes (t.slotsCount + position)).data ≠ some hash → t'.modifiedShardsIndex position = true) := by
  have hget : t.getNode position = .ok (t.nodes (t.slotsCount + position)) := by
    simp only [getNode, ok_rules, and_true]
    omega
  unfold setShardHash
  rw [hget]
  simp only [bind, Except.bind]
  split
  · next hsame =>
    refine ⟨t, rfl, rfl, ?_, fun _ h => h, fun h => absurd hsame h⟩
    rw [setData, ← hsame]
    exact (update_eq_self _ _).symm
  · refine ⟨_, rfl, rfl, rfl, fun i hi => ?_, fun _ => update_self _ _ _⟩
    by_cases h : i = position
    · rw [h]
      exact update_self _ _ _
    · exact (update_of_ne h _ _).trans hi

theorem assign_cons (a : Nat × H) (sets : List (Nat × H)) :
    t.assign (a :: sets) = (t.setShardHash a.1 a.2).bind (·.assign sets) := rfl

theorem assign_fresh (h : Fresh t) (hsets : ∀ a ∈ sets, a.1 < t.slotsCount) :
    ∃ t', t.assign sets = .ok t' ∧ Fresh t' ∧ t'.height = t.height ∧ ∀ i < t.slotsCount, ∀ a,
      (t.nodes (t.slotsCount + i)).data = some a →
      (t'.nodes (t.slotsCount + i)).data = some (sets.foldl (fun a set => if set.1 = i then set.2 else a) a) := by
  induction sets generalizing t with
  | nil => exact ⟨t, rfl, h, rfl, fun i _ a ha => ha⟩
  | cons set sets ih =>
    rw [forall_mem_cons] at hsets
    obtain ⟨t₁, h₁, hheight, hnodes, hmod, -⟩ := setShardHash_ok hsets.1 set.2
    have hcount : t₁.slotsCount = t.slotsCount := congrArg (2 ^ ·) hheight
    have hslot : ∀ i, t₁.nodes (t.slotsCount + i) = if set.1 = i then
        { t.nodes (t.slotsCount + i) with data := some set.2 } else t.nodes (t.slotsCount + i) := by
      intro i
      rw [hnodes, setData]
      by_cases hi : set.1 = i
      · rw [if_pos hi, ← hi, update_self]
      · rw [if_neg hi, update_of_ne (by omega)]
    have hfresh : Fresh t₁ := by
      refine ⟨fun i hi => ?_, fun x h0 hx => ?_, fun i hi => hmod i (h.modified i (hcount ▸ hi))⟩
      · obtain ⟨a, ha⟩ := h.slot i (hcount ▸ hi)
        rw [hcount, hslot i, ha]
        split
        · exact ⟨set.2, rfl⟩
        · exact ⟨a, rfl⟩
      · rw [hcount] at hx
        rw [hnodes, setData, update_of_ne (by omega)]
        exact h.blank x h0 hx
    obtain ⟨t₂, h₂, hfresh₂, hheight₂, hlast⟩ := ih hfresh (hcount ▸ hsets.2)
    refine ⟨t₂, by rw [assign_cons, h₁]; exact h₂, hfresh₂, hheight₂.trans hheight, fun i hi a ha => ?_⟩
    rw [hcount] at hlast
    rw [foldl_cons]
    refine hlast i hi _ ?_
    rw [hslot i]
    split
    · rfl
    · exact ha

end

end SparseMerkleTree

def held (sets : List (Nat × H)) (position : Nat) : H :=
  sets.foldl (fun a set => if set.1 = position then set.2 else a) magicHash

theorem assign_blank (hnodes : t.nodes = fun _ => ⟨none, false⟩)
    (hn : n ≤ t.slotsCount) : ∃ t', t.assign ((range n).map (·, magicHash)) = .ok t' ∧ t'.height = t.height ∧
      (t'.nodes = fun x => if t.slotsCount ≤ x ∧ x < t.slotsCount + n then ⟨some magicHash, false⟩ else ⟨none, false⟩) ∧
      ∀ i < n, t'.modifiedShardsIndex i = true := by
  induction n with
  | zero =>
    refine ⟨t, rfl, rfl, ?_, fun i hi => absurd hi (Nat.not_lt_zero i)⟩
    funext x
    rw [hnodes, if_neg (by omega)]
  | succ n ih =>
    obtain ⟨t₁, h₁, hheight, hnodes₁, hmod⟩ := ih (by omega)
    have hcount : t₁.slotsCount = t.slotsCount := congrArg (2 ^ ·) hheight
    obtain ⟨t₂, h₂, hheight₂, hnodes₂, hmod₂, hnew⟩ := t₁.setShardHash_ok (show n < _ by omega) magicHash
    refine ⟨t₂, ?_, hheight₂.trans hheight, ?_, fun i hi => ?_⟩
    · rw [SparseMerkleTree.assign] at h₁ ⊢
      rw [range_succ, map_append, foldlM_append, h₁]
      simp only [map_cons, map_nil, foldlM_cons, foldlM_nil, bind, Except.bind, h₂]
      rfl
    · funext x
      rw [hnodes₂, setData, hnodes₁, hcount]
      by_cases hx : x = t.slotsCount + n
      · rw [hx, update_self]
        simp
      · rw [update_of_ne hx]
        by_cases hin : t.slotsCount ≤ x ∧ x < t.slotsCount + n
        · rw [if_pos hin, if_pos (by omega)]
        · rw [if_neg hin, if_neg (by omega)]
    · rcases Nat.lt_succ_iff_lt_or_eq.1 hi with hlt | rfl
      · exact hmod₂ i (hmod i hlt)
      · refine hnew ?_
        rw [hnodes₁, hcount]
        simp

theorem filledTree_ok (hd : heightWithoutRoot n = some d)
    (hsets : ∀ set ∈ sets, set.1 < 2 ^ d) : ∃ t, filledTree n sets = .ok t ∧ Fresh t ∧
      t.height = d ∧ ∀ i < 2 ^ d, (t.nodes (2 ^ d + i)).data = some (held sets i) := by
  obtain ⟨t₀, h₀, hheight₀, hnodes₀, hmod₀⟩ := assign_blank (H := H) (n := 2 ^ d)
    (t := ⟨d, fun _ => ⟨none, false⟩, fun _ => false, (heightWithoutRoot_some hd).1⟩) rfl (Nat.le_refl _)
  have hnew : newSparseMerkleTree n = .ok { t₀ with
      modifiedShardsIndex := update t₀.modifiedShardsIndex 0 true } := by
    unfold newSparseMerkleTree
    split
    · next hnone => rw [hd] at hnone; cases hnone
    · next height hsome =>
      obtain rfl : d = height := Option.some.inj (hd.symm.trans hsome)
      simp only [bind, Except.bind, SparseMerkleTree.slotsCount]
      rw [h₀]
      rfl
  rw [filledTree, hnew]
  have hcount : t₀.slotsCount = 2 ^ d := congrArg (2 ^ ·) hheight₀
  have hslot : ∀ i < 2 ^ d, t₀.nodes (2 ^ d + i) = ⟨some magicHash, false⟩ := by
    intro i hi
    rw [hnodes₀]
    exact if_pos ⟨Nat.le_add_right _ _, Nat.add_lt_add_left hi _⟩
  have hfresh : Fresh { t₀ with modifiedShardsIndex := update t₀.modifiedShardsIndex 0 true } := by
    refine ⟨fun i hi => ⟨magicHash, ?_⟩, fun x h0 hx => ?_, fun i hi => ?_⟩
    · show t₀.nodes (t₀.slotsCount + i) = _
      rw [hcount]
      exact hslot i (hcount ▸ hi)
    · have hx' : x < 2 ^ d := hcount ▸ hx
      rw [hnodes₀]
      exact if_neg fun h => absurd h.1 (Nat.not_le.2 hx')
    · show update t₀.modifiedShardsIndex 0 true i = true
      by_cases h : i = 0
      · rw [h, update_self]
      · rw [update_of_ne h]
        exact hmod₀ i (hcount ▸ hi)
  obtain ⟨t, ht, hfresh', hheight, hlast⟩ := SparseMerkleTree.assign_fresh hfresh
    (show ∀ set ∈ sets, set.1 < _ from fun set hset => (hsets set hset).trans_eq hcount.symm)
  refine ⟨t, ht, hfresh', hheight.trans hheight₀, fun i hi => ?_⟩
  have hdata : (t₀.nodes (t₀.slotsCount + i)).data = some magicHash → (t.nodes (t₀.slotsCount + i)).data =
      some (held sets i) := hlast i (hi.trans_eq hcount.symm) magicHash
  rw [hcount, hslot i hi] at hdata
  exact hdata rfl

end Jaxnetd.MergeMining
