import Jaxnetd.Lib.BitString
import Jaxnetd.MergeMining.ShardProof

/-!
# The coding of the orange tree

`CatalanNumbersCoding` and `MarshalOrangeTreeLeafs`: the collapsed tree of the mined slots in preorder, without the two
zeroes at its end, then one bit for each leaf, and the hashes of the full leaves. The bits are collected in package
variables, and a guard bit keeps the length of the integer.
-/

namespace Jaxnetd.MergeMining
open ChainHash Checks SlotTree BitString List Option

/-- The package variables of `tree.go`. -/
structure CodingVars where
  topologySet : Nat
  topologyOffset : Nat
  nodesTypesSet : Nat
  nodesTypesOffset : Nat
deriving DecidableEq

/-- The loop over the slice `Shards` from the node `x` to the root. -/
def fillShards (shards : Nat → Nat) : Nat → Nat → Nat
  | 0 => shards
  | x + 1 =>
    let l := shards (2 * (x + 1))
    let r := shards (2 * (x + 1) + 1)
    fillShards (Function.update shards (x + 1) (if r = l then r else 2)) x

/-- The slice `Shards`: `0` for a subtree where nothing is mined, `1` where all is, `2` for the others. -/
def shardMarks (d : Nat) (isShardMined : Nat → Bool) : Nat → Nat :=
  fillShards (fun x => if isShardMined x then 1 else 0) (2 ^ d - 1)

/-- `addMark` at a leaf of the orange tree. -/
def addLeaf (mark : Nat) (v : CodingVars) : CodingVars where
  topologySet := setBit v.topologySet v.topologyOffset false
  topologyOffset := v.topologyOffset + 1
  nodesTypesSet := setBit v.nodesTypesSet v.nodesTypesOffset (mark = 1)
  nodesTypesOffset := v.nodesTypesOffset + 1

/-- `addMark` at a node over `2^e` slots. Past the slots the slice has no elements. -/
def addMark (shards : Nat → Nat) : Nat → Nat → CodingVars → Option CodingVars
  | 0, x, v => if shards x = 2 then none else some (addLeaf (shards x) v)
  | e + 1, x, v =>
    if shards x = 2 then do
      let v ← addMark shards e (2 * x) { v with
        topologySet := setBit v.topologySet v.topologyOffset true
        topologyOffset := v.topologyOffset + 1 }
      addMark shards e (2 * x + 1) v
    else some (addLeaf (shards x) v)

def clearBit (b : UInt8) (pos : Nat) : UInt8 := b &&& ~~~(1 <<< UInt8.ofNat pos)

/-- The end of `CatalanNumbersCoding`: both bit strings in one integer, as bytes. -/
def packCoding (v : CodingVars) : CodingVars × Bytes :=
  let topologyOffset := v.topologyOffset - 2
  let trailingBitGuardIndex := topologyOffset - 1
  let trailingBitGuardSet := !v.topologySet.testBit trailingBitGuardIndex
  let topologySet := if trailingBitGuardSet then setBit v.topologySet trailingBitGuardIndex true else v.topologySet
  let topologySet := writeBits topologySet topologyOffset ((List.range v.nodesTypesOffset).map v.nodesTypesSet.testBit)
  let coding := bigBytes topologySet
  let coding :=
    if trailingBitGuardSet then
      coding.modify (coding.length - trailingBitGuardIndex / 8 - 1) (clearBit · (trailingBitGuardIndex % 8))
    else coding
  ({ v with topologySet, topologyOffset := topologyOffset + v.nodesTypesOffset }, coding)

variable {H : Type} [ChainHash H] [DecidableEq H]

namespace SparseMerkleTree

def allOrNone (t : SparseMerkleTree H) : Bool :=
  (List.range t.slotsCount).all (fun i => !(t.nodes (t.slotsCount + i)).containsData) ||
    (List.range t.slotsCount).all fun i => (t.nodes (t.slotsCount + i)).containsData

/-- `CatalanNumbersCoding`: the package variables after it, and the tree, the coding and its length in bits. -/
def catalanNumbersCoding (vars : CodingVars) (t : SparseMerkleTree H) :
    CodingVars × Except Fault (SparseMerkleTree H × Bytes × Nat) :=
  if t.allOrNone then (vars, .ok (t, [], 0))
  else
    match t.root with
    | .error err => (vars, .error err)
    | .ok (t, _) =>
      match addMark (shardMarks t.height fun x => (t.nodes x).containsData) t.height 1 ⟨0, 0, 0, 0⟩ with
      | none => (vars, .error indexOut)
      | some marked =>
        if marked.topologySet = 0 then (marked, .ok (t, [], 0))
        else ((packCoding marked).1, .ok (t, (packCoding marked).2, (packCoding marked).1.topologyOffset % 2 ^ 32))

/-- What `fillHashes` appends for a child, with `below` the hashes under an orange one. -/
def childHashes (child : Node H) (below : Option (List H)) : Option (List H) :=
  if child.isOrange then below else if child.isMH then some [] else child.data.map ([·])

/-- `fillHashes` for the node `x` over `2^e` slots. Go stops at a node without data, and below the slots. -/
def fillHashes (nodes : Nat → Node H) : Nat → Nat → Option (List H)
  | 0, x => if (nodes x).isOrange then none else some []
  | e + 1, x =>
    if (nodes x).isOrange then do
      let l ← childHashes (nodes (2 * x)) (fillHashes nodes e (2 * x))
      let r ← childHashes (nodes (2 * x + 1)) (fillHashes nodes e (2 * x + 1))
      return l ++ r
    else some []

def marshalOrangeTreeLeafs (t : SparseMerkleTree H) : Except Fault (List H) :=
  orFail nilPointer (fillHashes t.nodes t.height 1)

end SparseMerkleTree

/-- The calls of a miner for a tree, and the validation of what they give. -/
def codeAndValidate (vars : CodingVars) (t : SparseMerkleTree H) (mmNumber : Nat) (beacon : Bool) :
    Except Fault Unit := do
  let (vars, result) := t.catalanNumbersCoding vars
  let (t, coding, codingBitsSize) ← result
  let hashes ← t.marshalOrangeTreeLeafs
  let (t, root) ← t.root
  validateOrangeTree vars.nodesTypesSet t.height codingBitsSize coding hashes mmNumber root beacon

/-! ## The marks of the nodes -/

section
omit [ChainHash H] [DecidableEq H]

def treeMark : SlotTree (Option H) → Nat
  | leaf none => 0
  | leaf (some _) => 1
  | node _ _ => 2

theorem treeMark_join (pair : H → H → H) (l r : SlotTree (Option H)) :
    treeMark (join pair l r) = if treeMark r = treeMark l then treeMark r else 2 := by
  rcases l with (_ | a) | _ <;> rcases r with (_ | b) | _ <;> rfl

end

section
variable {s : Nat → Option H} {d : Nat}

/-- What `addMark` writes: the tree in preorder, and a bit for each leaf. -/
def written (t : SlotTree (Option H)) (v : CodingVars) : CodingVars where
  topologySet := writeBits v.topologySet v.topologyOffset t.preorder
  topologyOffset := v.topologyOffset + t.preorder.length
  nodesTypesSet := writeBits v.nodesTypesSet v.nodesTypesOffset (t.leaves.map isSome)
  nodesTypesOffset := v.nodesTypesOffset + t.leaves.length

omit [ChainHash H] [DecidableEq H] in
theorem addLeaf_eq (o : Option H) (v : CodingVars) : addLeaf (treeMark (leaf o)) v = written (leaf o) v := by
  cases o <;> rfl

section
omit [DecidableEq H]

theorem fillShards_eq {shards : Nat → Nat} {n : Nat} (hn : n < 2 ^ d)
    (h : ∀ e x, AtHeight d e x → n < x → shards x = treeMark (collapse pairHash s e x)) :
    ∀ e x, AtHeight d e x → 0 < x → fillShards shards n x = treeMark (collapse pairHash s e x) := by
  induction n generalizing shards with
  | zero => exact h
  | succ n ih =>
    refine ih (by omega) fun e x hat hx => ?_
    by_cases hxn : x = n + 1
    · subst hxn
      cases e with
      | zero =>
        obtain ⟨level, rfl, hge, -⟩ := hat
        exact absurd hge (by simpa using hn)
      | succ e =>
        obtain ⟨hatl, hatr⟩ := hat.children
        rw [Function.update_self, h e _ hatl (by omega), h e _ hatr (by omega), collapse, treeMark_join]
    · rw [Function.update_of_ne hxn]
      exact h e x hat (by omega)

theorem shardMarks_eq {mined : Nat → Bool} (h : ∀ x, AtHeight d 0 x → mined x = (s x).isSome) {e x : Nat}
    (hat : AtHeight d e x) : shardMarks d mined x = treeMark (collapse pairHash s e x) := by
  have hpos : 0 < 2 ^ d := Nat.pow_pos (by decide)
  have hx : 0 < x := by
    obtain ⟨level, -, hge, -⟩ := hat
    have : 0 < 2 ^ level := Nat.pow_pos (by decide)
    omega
  refine fillShards_eq (by omega) (fun e x hat hx => ?_) e x hat hx
  cases e with
  | zero =>
    rw [h x hat, collapse]
    cases s x <;> rfl
  | succ e =>
    have := hat.lt.2
    omega

theorem addMark_eq {shards : Nat → Nat} {e x : Nat} (hat : AtHeight d e x)
    (h : ∀ e x, AtHeight d e x → shards x = treeMark (collapse pairHash s e x)) (v : CodingVars) :
    addMark shards e x v = some (written (collapse pairHash s e x) v) := by
  induction e generalizing x v with
  | zero =>
    have hmark : shards x = treeMark (leaf (s x)) := h 0 x hat
    have h2 : shards x ≠ 2 := by
      rw [hmark]
      cases s x <;> simp [treeMark]
    rw [addMark, if_neg h2, hmark, addLeaf_eq, collapse]
  | succ e ih =>
    obtain ⟨hatl, hatr⟩ := hat.children
    cases ht : collapse pairHash s (e + 1) x with
    | leaf o =>
      have hmark : shards x = treeMark (leaf o) := by rw [h _ x hat, ht]
      have h2 : shards x ≠ 2 := by
        rw [hmark]
        cases o <;> simp [treeMark]
      rw [addMark, if_neg h2, hmark, addLeaf_eq]
    | node l r =>
      have h2 : shards x = 2 := by rw [h _ x hat, ht, treeMark]
      obtain ⟨hl, hr⟩ := join_eq_node ht
      simp only [addMark, if_pos h2, ih hatl, ih hatr, hl, hr, bind_eq_bind, bind_some]
      simp [written, preorder, leaves, writeBits, writeBits_append, Nat.add_assoc, Nat.add_comm]

end

end

/-! ## The integer as bytes -/

theorem testBit_setBytes (bs : Bytes) (j : Nat) :
    (setBytes bs).testBit j = (bs.reverse.getD (j / 8) 0).toNat.testBit (j % 8) := by
  induction bs using List.reverseRecOn generalizing j with
  | nil =>
    change Nat.testBit 0 j = (UInt8.toNat 0).testBit (j % 8)
    rw [Nat.zero_testBit]
    exact (Nat.zero_testBit _).symm
  | append_singleton bs b ih =>
    rw [setBytes_concat, testBit_mul_add _ _ b.toNat_lt, reverse_append, reverse_singleton, singleton_append]
    split
    · next h =>
      rw [Nat.div_eq_of_lt h, Nat.mod_eq_of_lt h, getD_cons_zero]
    · next h =>
      rw [ih, show j / 8 = (j - 8) / 8 + 1 by omega, getD_cons_succ, show (j - 8) % 8 = j % 8 by omega]

theorem testBit_clearBit (b : UInt8) {pos j : Nat} (hpos : pos < 8) (hj : j < 8) :
    (clearBit b pos).toNat.testBit j = if j = pos then false else b.toNat.testBit j := by
  have hmask : ∀ pos < 8, ∀ j < 8, (~~~((1 : UInt8) <<< UInt8.ofNat pos)).toNat.testBit j = decide (j ≠ pos) := by
    decide
  rw [clearBit, UInt8.toNat_and, Nat.testBit_and, hmask pos hpos j hj]
  by_cases h : j = pos
  · simp [h]
  · simp [h]

theorem testBit_setBytes_clear (bs : Bytes) {g : Nat} (hg : g / 8 < bs.length) (j : Nat) :
    (setBytes (bs.modify (bs.length - g / 8 - 1) (clearBit · (g % 8)))).testBit j =
      if j = g then false else (setBytes bs).testBit j := by
  rw [testBit_setBytes, testBit_setBytes, getD_eq_getElem?_getD, getD_eq_getElem?_getD]
  by_cases hj : j / 8 < bs.length
  · rw [getElem?_reverse (by simpa using hj), getElem?_reverse hj, length_modify, getElem?_modify,
      getElem?_eq_getElem (by omega)]
    simp only [Option.map_eq_map, Option.map_some, Option.getD_some]
    by_cases hsame : j / 8 = g / 8
    · rw [if_pos (by omega), testBit_clearBit _ (Nat.mod_lt _ (by decide)) (Nat.mod_lt _ (by decide))]
      by_cases hmod : j % 8 = g % 8
      · rw [if_pos hmod, if_pos (by omega)]
      · rw [if_neg hmod, if_neg (by omega)]
    · rw [if_neg (by omega), if_neg (by omega)]
  · rw [getElem?_eq_none (by simpa using hj), getElem?_eq_none (by simpa using hj), if_neg]
    omega

theorem lt_length_of_testBit {bs : Bytes} {j : Nat} (h : (setBytes bs).testBit j = true) : j / 8 < bs.length := by
  by_contra hge
  rw [testBit_setBytes, getD_eq_default _ _ (by simpa using hge)] at h
  simp at h

theorem setBytes_bigBytes_nat (n : Nat) : setBytes (bigBytes (n : Int)) = n := by
  have := setBytes_bigBytes (Int.natCast_nonneg n)
  exact_mod_cast this

section
variable {l r : SlotTree (Option H)}

omit [ChainHash H] [DecidableEq H] in
/-- The bits of the coding: those of the topology but for the last two zeroes, then the types of the leaves. -/
theorem packCoding_eq {k : Nat} {types : List Bool} {p : List Bool} (hk : 0 < k) (hp : p.length = 2 * k - 1)
    (htypes : types.length = k + 1) {v : CodingVars} (hv : v = ⟨writeBits 0 0 (p ++ [false, false]), 2 * k + 1,
      writeBits 0 0 types, k + 1⟩) :
    (packCoding v).1.topologyOffset = 3 * k ∧ (packCoding v).1.nodesTypesSet = writeBits 0 0 types ∧
      (packCoding v).2 ≠ [] ∧ ∀ j, (setBytes (packCoding v).2).testBit j = (p ++ types).getD j false := by
  have hcopied : (List.range (k + 1)).map (writeBits 0 0 types).testBit = types := by
    refine ext_getElem (by simp [htypes]) fun i h1 h2 => ?_
    rw [getElem_map, getElem_range, testBit_writeBits_zero, getD_eq_getElem _ _ h2]
  subst hv
  simp only [packCoding, hcopied, show 2 * k + 1 - 2 = 2 * k - 1 by omega, show 2 * k - 1 - 1 = 2 * k - 2 by omega]
  have hbits := testBit_writeBits_zero (p ++ [false, false])
  have hpre : ∀ l, (p ++ l).getD (2 * k - 2) false = p.getD (2 * k - 2) false := fun l => getD_append _ _ _ _ (by omega)
  rw [hbits, hpre]
  -- the integer with the guard bit set
  generalize hM : (if !p.getD (2 * k - 2) false then _ else _ : Nat) = M
  have hguarded : ∀ j, M.testBit j = if j = 2 * k - 2 then true else (p ++ [false, false]).getD j false := by
    intro j
    rw [← hM]
    cases hg : p.getD (2 * k - 2) false <;> simp only [Bool.not_true, Bool.not_false, if_true, Bool.false_eq_true, if_false,
      testBit_setBit, hbits]
    split
    · next hj => rw [hj, hpre, hg]
    · rfl
  have hset : ∀ j, (writeBits M (2 * k - 1) types).testBit j = if j = 2 * k - 2 then true else (p ++ types).getD j false := by
    intro j
    rw [testBit_writeBits, hguarded]
    by_cases hlt : j < 2 * k - 1
    · rw [if_neg (by omega), getD_append _ _ _ _ (by omega), getD_append _ _ _ _ (by omega)]
    · rw [if_neg (by omega : j ≠ 2 * k - 2), if_neg (by omega : j ≠ 2 * k - 2), getD_append_right p types _ _ (by omega), hp]
      split
      · rfl
      · rw [getD_eq_default (p ++ _) _ (by simp [hp]; omega), getD_eq_default _ _ (by omega)]
  have hlen : (2 * k - 2) / 8 < (bigBytes (writeBits M (2 * k - 1) types : Nat)).length :=
    lt_length_of_testBit (by rw [setBytes_bigBytes_nat, hset, if_pos rfl])
  refine ⟨by omega, trivial, ?_, fun j => ?_⟩
  · apply ne_nil_of_length_pos
    split <;> (try rw [length_modify]) <;> omega
  · cases hg : p.getD (2 * k - 2) false <;> simp only [Bool.not_true, Bool.not_false, if_true, Bool.false_eq_true, if_false,
      testBit_setBytes_clear _ hlen, setBytes_bigBytes_nat, hset] <;> split
    all_goals try rfl
    all_goals next hj => rw [hj, hpre, hg]

end

end Jaxnetd.MergeMining
