import Jaxnetd.MergeMining.Validate
import Jaxnetd.Mmr.History

/-!
# What the root of the tree says about the blocks

Two sequences of as many blocks grow trees of the same shape. A pair hash determines the hashed string. The
hash of the left node stands at its start; it determines the blocks below, and with their weight where the right node
begins. Of the weight of a single block bytes can be lost: `hashNodes` copies the right node to a place that depends on
its own length.
-/

namespace Jaxnetd.Mmr
open PairLevels TreeStore ChainHash List HashArray

variable {H : Type}

/-! ## Hashed strings -/

variable (lv rv : Bytes)

/-- The string that `hashNodes` hashes for two encodings. -/
def pairData : Bytes := copyAt (copyAt (List.replicate (lv.length + rv.length) 0) 0 lv) rv.length rv

theorem pairData_eq : pairData lv rv =
    (lv ++ List.replicate rv.length 0).take rv.length ++ rv.take lv.length ++
      (lv ++ List.replicate rv.length 0).drop (rv.length + rv.length) := by
  have hfirst : copyAt (List.replicate (lv.length + rv.length) 0) 0 lv = lv ++ List.replicate rv.length 0 := by
    rw [copyAt, take_zero, nil_append, length_replicate, Nat.sub_zero, Nat.zero_add,
      take_of_length_le (Nat.le_add_right ..), drop_replicate, Nat.add_sub_cancel_left]
  rw [pairData, hfirst, copyAt, length_append, length_replicate, Nat.add_sub_cancel]

theorem length_pairData : (pairData lv rv).length = lv.length + rv.length := by
  simp only [pairData_eq, length_append, length_take, length_drop, length_replicate]
  omega

variable {m l : Nat} {bs : List (Block H)} {b : Block H}

theorem take_pairData {lv rv : Bytes} (hl : m ≤ lv.length) (hr : m ≤ rv.length) :
    (pairData lv rv).take m = lv.take m := by
  rw [pairData_eq, append_assoc, take_append_of_le_length, take_take, Nat.min_eq_left hr, take_append_of_le_length hl]
  rw [length_take, length_append, length_replicate]
  omega

theorem take_drop_pairData {lv rv : Bytes} (hl : m ≤ lv.length) (hr : m ≤ rv.length) :
    ((pairData lv rv).drop rv.length).take m = rv.take m := by
  have hfront : ((lv ++ List.replicate rv.length 0).take rv.length).length = rv.length := by
    rw [length_take, length_append, length_replicate]
    omega
  rw [pairData_eq, append_assoc, drop_left' hfront, take_append_of_le_length, take_take, Nat.min_eq_left hl]
  rw [length_take]
  omega

/-! ## Blocks -/

def weightLen (w : Int) : Nat := (bigBytes w).length

section
variable [ChainHash H]

def blockBytes (b : Block H) : Bytes := bytes b.1 ++ bigBytes b.2

/-- The hash and the weight that `hashNodes` gives to the parent. -/
def pairBlocks (l r : Block H) : Block H := (hashH (pairData (blockBytes l) (blockBytes r)), l.2 + r.2)

abbrev blockLevel (l : Nat) (bs : List (Block H)) : List (Block H) := level pairBlocks id l bs

theorem map_nodeLevel (l : Nat) (bs : List (Block H)) :
    (nodeLevel l (leafNodes bs)).map (fun n => (n.hash, n.weight)) = blockLevel l bs := by
  have hleaves : (leafNodes bs).map (fun n => (n.hash, n.weight)) = bs := by
    apply ext_getElem?
    intro i
    rw [getElem?_map, getElem?_leafNodes, Option.map_map]
    cases bs[i]? <;> rfl
  conv_rhs => rw [← hleaves]
  exact map_level hashPair promote (fun n : TreeNode H => (n.hash, n.weight)) (fun _ _ => rfl) (fun _ => rfl) l _

def hashed (bs : List (Block H)) : Set Bytes :=
  {d | ∃ l i a b, (blockLevel l bs)[2 * i]? = some a ∧ (blockLevel l bs)[2 * i + 1]? = some b ∧
    d = pairData (blockBytes a) (blockBytes b)}

theorem entry_slice {i : Nat} {e : Block H} (h : (blockLevel l bs)[i]? = some e) :
    slice l i bs ≠ [] ∧ e.2 = ((slice l i bs).map Prod.snd).sum ∧ ∀ b, slice l i bs = [b] → e = b := by
  refine entry_induction pairBlocks id
    (P := fun s e => s ≠ [] ∧ e.2 = (s.map Prod.snd).sum ∧ ∀ b, s = [b] → e = b) ?_ ?_ (fun _ _ h => h) h
  · intro a
    exact ⟨cons_ne_nil a [], by simp, fun b hb => (List.cons.inj hb).1⟩
  · rintro s s' a b ⟨hs, ha, -⟩ ⟨hs', hb, -⟩
    refine ⟨by simp [hs], ?_, fun c hc => ?_⟩
    · rw [map_append, sum_append, ← ha, ← hb]
      rfl
    · have hlen := congrArg List.length hc
      have h1 := length_pos_iff.2 hs
      have h2 := length_pos_iff.2 hs'
      rw [length_append, length_singleton] at hlen
      omega

end

/-- No weight of a block loses bytes where it is hashed first: two neighbours have weights of one length, and that of an odd
last block is no longer than that of the blocks it is paired with. -/
structure Lossless (bs : List (Block H)) : Prop where
  pairs : ∀ i a b, bs[2 * i]? = some a → bs[2 * i + 1]? = some b → weightLen a.2 = weightLen b.2
  last : ∀ l i b, slice l (2 * i + 1) bs = [b] →
    weightLen b.2 ≤ weightLen ((slice l (2 * i) bs).map Prod.snd).sum

/-! ## From the root to the blocks -/

theorem bigBytes_inj {x y : Int} (hx : 0 ≤ x) (hy : 0 ≤ y) (h : bigBytes x = bigBytes y) : x = y := by
  rw [← MergeMining.setBytes_bigBytes hx, h, MergeMining.setBytes_bigBytes hy]

variable [ChainHash H] [HashArray H] {bs bs' : List (Block H)} {i : Nat}

theorem length_blockBytes (b : Block H) : (blockBytes b).length = 32 + weightLen b.2 := by
  rw [blockBytes, length_append, length_bytes, weightLen]

theorem take_blockBytes (b : Block H) : (blockBytes b).take 32 = bytes b.1 := by
  rw [blockBytes, take_left' (length_bytes b.1)]

theorem blockBytes_inj {a : Block H} (ha : 0 ≤ a.2) (hb : 0 ≤ b.2) (h : blockBytes a = blockBytes b) : a = b := by
  obtain ⟨hhash, hweight⟩ := append_inj h (by rw [length_bytes, length_bytes])
  exact Prod.ext (bytes_inj hhash) (bigBytes_inj ha hb hweight)

section Pair
variable {a b a' b' : Block H} (hdata : pairData (blockBytes a) (blockBytes b) = pairData (blockBytes a') (blockBytes b'))
include hdata

theorem weightLen_of_pair : weightLen a.2 + weightLen b.2 = weightLen a'.2 + weightLen b'.2 := by
  have hlen := congrArg List.length hdata
  simp only [length_pairData, length_blockBytes] at hlen
  omega

theorem left_hash_of_pair : a.1 = a'.1 := by
  have htake := congrArg (List.take 32) hdata
  rw [take_pairData (by rw [length_blockBytes]; omega) (by rw [length_blockBytes]; omega),
    take_pairData (by rw [length_blockBytes]; omega) (by rw [length_blockBytes]; omega), take_blockBytes,
    take_blockBytes] at htake
  exact bytes_inj htake

section
variable (hlen : weightLen b.2 = weightLen b'.2)
include hlen

theorem right_of_pair (ha : m ≤ 32 + weightLen a.2)
    (hb : m ≤ 32 + weightLen b.2) : (blockBytes b).take m = (blockBytes b').take m := by
  have htotal := weightLen_of_pair hdata
  have hdrop := congrArg (fun d => (d.drop (blockBytes b).length).take m) hdata
  have hsame : (blockBytes b).length = (blockBytes b').length := by rw [length_blockBytes, length_blockBytes, hlen]
  rw [take_drop_pairData (by rwa [length_blockBytes]) (by rwa [length_blockBytes]), hsame,
    take_drop_pairData (by rw [length_blockBytes]; omega) (by rw [length_blockBytes]; omega)] at hdrop
  exact hdrop

theorem right_hash_of_pair : b.1 = b'.1 := by
  have htake := right_of_pair hdata hlen (m := 32) (by omega) (by omega)
  rw [take_blockBytes, take_blockBytes] at htake
  exact bytes_inj htake

theorem right_bytes_of_pair (hle : weightLen b.2 ≤ weightLen a.2) :
    blockBytes b = blockBytes b' := by
  have htake := right_of_pair hdata hlen (m := 32 + weightLen b.2) (by omega) (by omega)
  rwa [take_of_length_le (length_blockBytes b).le, take_of_length_le (by rw [length_blockBytes, hlen])] at htake

end

theorem left_bytes_of_pair (hlen : weightLen a.2 = weightLen b.2) (hlen' : weightLen a'.2 = weightLen b'.2) :
    blockBytes a = blockBytes a' := by
  have htotal := weightLen_of_pair hdata
  have htake := congrArg (List.take (32 + weightLen a.2)) hdata
  rw [take_pairData (length_blockBytes a).ge (by rw [length_blockBytes, hlen]),
    take_pairData (by rw [length_blockBytes]; omega) (by rw [length_blockBytes]; omega),
    take_of_length_le (length_blockBytes a).le, take_of_length_le (by rw [length_blockBytes]; omega)] at htake
  exact htake

end Pair

section
omit [ChainHash H] [HashArray H]

theorem slice_zero (h : bs[i]? = some b) : slice 0 i bs = [b] := by
  obtain ⟨hi, rfl⟩ := List.getElem?_eq_some_iff.1 h
  rw [slice, Nat.pow_zero, Nat.mul_one, drop_eq_getElem_cons hi]
  rfl

theorem length_slice (l i : Nat) : (slice l i bs).length = min (2 ^ l) (bs.length - i * 2 ^ l) := by
  rw [slice, length_take, length_drop]

end

section
omit [HashArray H]

theorem entry_iff (hlen : bs.length = bs'.length) : (blockLevel l bs)[i]? = none ↔ (blockLevel l bs')[i]? = none := by
  rw [getElem?_eq_none_iff, getElem?_eq_none_iff, blockLevel, blockLevel, length_level, length_level, hlen]

theorem root_entry [DecidableEq H] (hnodup : (bs.map Prod.fst).Nodup) (hne : bs ≠ []) :
    ∃ e, (blockLevel (Nat.clog 2 bs.length) bs)[0]? = some e ∧ e.1 = (treeOf bs).currentRoot := by
  have hroot : (treeOf bs).currentRoot = mmrRoot (leafNodes bs) := (treeOf_inv hnodup).root
  have hlen := length_level_eq_one hashPair promote (L := leafNodes bs) (k := Nat.clog 2 bs.length)
    (by simpa [leafNodes] using hne) (by rw [length_leafNodes]; exact Nat.le_pow_clog (by omega) _)
  obtain ⟨n, hn⟩ := length_eq_one_iff.1 hlen
  refine ⟨(n.hash, n.weight), ?_, ?_⟩
  · rw [← map_nodeLevel, nodeLevel, hn]
    rfl
  · rw [hroot, mmrRoot, length_leafNodes, nodeLevel, hn]
    rfl

end

/-- Two sequences of as many blocks whose weights are not negative and lose no bytes, and no collision among the strings
hashed for the two roots. -/
structure Comparable (bs bs' : List (Block H)) : Prop where
  length : bs.length = bs'.length
  nonneg : ∀ b ∈ bs, 0 ≤ b.2
  nonneg' : ∀ b ∈ bs', 0 ≤ b.2
  lossless : Lossless bs
  lossless' : Lossless bs'
  inj : Set.InjOn (hashH : Bytes → H) (hashed bs ∪ hashed bs')

section
variable (h : Comparable bs bs') {a a' b' : Block H}
include h

section
variable (hdata : pairData (blockBytes a) (blockBytes b) = pairData (blockBytes a') (blockBytes b'))
include hdata

theorem Comparable.leaves (ha : bs[2 * i]? = some a) (hb : bs[2 * i + 1]? = some b) (ha' : bs'[2 * i]? = some a')
    (hb' : bs'[2 * i + 1]? = some b') : a = a' ∧ b = b' := by
  have hpair := h.lossless.pairs i a b ha hb
  have hpair' := h.lossless'.pairs i a' b' ha' hb'
  have htotal := weightLen_of_pair hdata
  constructor
  · exact blockBytes_inj (h.nonneg a (mem_of_getElem? ha)) (h.nonneg' a' (mem_of_getElem? ha'))
      (left_bytes_of_pair hdata hpair hpair')
  · exact blockBytes_inj (h.nonneg b (mem_of_getElem? hb)) (h.nonneg' b' (mem_of_getElem? hb'))
      (right_bytes_of_pair hdata (by omega) (by omega))

/-- A last block that goes up alone: its weight has no more bytes than that of the node on its left. -/
theorem Comparable.last (ha : (blockLevel (l + 1) bs)[2 * i]? = some a)
    (hb : (blockLevel (l + 1) bs)[2 * i + 1]? = some b) (hb' : (blockLevel (l + 1) bs')[2 * i + 1]? = some b')
    (hlen : weightLen b.2 = weightLen b'.2) (hone : (slice (l + 1) (2 * i + 1) bs).length = 1) :
    slice (l + 1) (2 * i + 1) bs = slice (l + 1) (2 * i + 1) bs' := by
  obtain ⟨c, hc⟩ := length_eq_one_iff.1 hone
  have hone' : (slice (l + 1) (2 * i + 1) bs').length = 1 := by rwa [length_slice, ← h.length, ← length_slice]
  obtain ⟨c', hc'⟩ := length_eq_one_iff.1 hone'
  obtain rfl := (entry_slice hb).2.2 c hc
  obtain rfl := (entry_slice hb').2.2 c' hc'
  have hmem : b ∈ bs := mem_of_mem_drop (mem_of_mem_take (hc ▸ mem_cons_self))
  have hmem' : b' ∈ bs' := mem_of_mem_drop (mem_of_mem_take (hc' ▸ mem_cons_self))
  have hle := h.lossless.last (l + 1) i b hc
  rw [← (entry_slice ha).2.1] at hle
  rw [hc, hc', blockBytes_inj (h.nonneg b hmem) (h.nonneg' b' hmem') (right_bytes_of_pair hdata hlen hle)]

end

theorem Comparable.pair (ha : (blockLevel l bs)[2 * i]? = some a) (hb : (blockLevel l bs)[2 * i + 1]? = some b)
    (ha' : (blockLevel l bs')[2 * i]? = some a') (hb' : (blockLevel l bs')[2 * i + 1]? = some b')
    (hhash : (pairBlocks a b).1 = (pairBlocks a' b').1)
    (ih : ∀ {i e e'}, (blockLevel l bs)[i]? = some e → (blockLevel l bs')[i]? = some e' → e.1 = e'.1 →
      (slice l i bs).length ≠ 1 → slice l i bs = slice l i bs') :
    slice l (2 * i) bs ++ slice l (2 * i + 1) bs = slice l (2 * i) bs' ++ slice l (2 * i + 1) bs' := by
  have hdata := h.inj (.inl ⟨l, i, a, b, ha, hb, rfl⟩) (.inr ⟨l, i, a', b', ha', hb', rfl⟩) hhash
  cases l with
  | zero =>
    rw [blockLevel, level_zero] at ha hb ha' hb'
    obtain ⟨rfl, rfl⟩ := h.leaves hdata ha hb ha' hb'
    rw [slice_zero ha, slice_zero hb, slice_zero ha', slice_zero hb']
  | succ l =>
    obtain ⟨hne, -, -⟩ := entry_slice hb
    have hfull : (slice (l + 1) (2 * i) bs).length ≠ 1 := by
      -- there are blocks to the right of the left node, so it is complete
      have hpos := length_pos_iff.2 hne
      rw [length_slice, Nat.add_mul, Nat.one_mul] at hpos
      rw [length_slice]
      omega
    have hleft := ih ha ha' (left_hash_of_pair hdata) hfull
    have hweight : a.2 = a'.2 := by rw [(entry_slice ha).2.1, (entry_slice ha').2.1, hleft]
    have htotal := weightLen_of_pair hdata
    rw [hweight] at htotal
    have hlen : weightLen b.2 = weightLen b'.2 := by omega
    rw [hleft]
    by_cases hone : (slice (l + 1) (2 * i + 1) bs).length = 1
    · rw [h.last hdata ha hb hb' hlen hone]
    · rw [ih hb hb' (right_hash_of_pair hdata hlen) hone]

end

theorem Comparable.slice_eq (h : Comparable bs bs') {e e' : Block H} (he : (blockLevel l bs)[i]? = some e)
    (he' : (blockLevel l bs')[i]? = some e') (hhash : e.1 = e'.1) (hlong : (slice l i bs).length ≠ 1) :
    slice l i bs = slice l i bs' := by
  induction l generalizing i e e' with
  | zero => exact absurd (congrArg List.length (slice_zero he)) hlong
  | succ l ih =>
    rw [slice_succ] at hlong
    rw [slice_succ, slice_succ]
    rcases entry_succ pairBlocks id he with ⟨a, b, ha, hb, rfl⟩ | ⟨a, ha, hb, rfl⟩
    · rcases entry_succ pairBlocks id he' with ⟨a', b', ha', hb', rfl⟩ | ⟨a', ha', hb', rfl⟩
      · exact h.pair ha hb ha' hb' hhash ih
      · rw [(entry_iff h.length).2 hb'] at hb
        cases hb
    · have hb' := (entry_iff h.length).1 hb
      have hnil := slice_eq_nil pairBlocks id hb
      have hnil' := slice_eq_nil pairBlocks id hb'
      rcases entry_succ pairBlocks id he' with ⟨a', b', ha', hb'', rfl⟩ | ⟨a', ha', -, rfl⟩
      · rw [hb'] at hb''
        cases hb''
      · rw [hnil, append_nil] at hlong
        rw [hnil, hnil', append_nil, append_nil]
        exact ih ha ha' hhash hlong

/-- Equal roots of sequences of as many blocks, more than one, with distinct hashes: the sequences are equal. -/
theorem currentRoot_binds [DecidableEq H] (h : Comparable bs bs') (hnodup : (bs.map Prod.fst).Nodup)
    (hnodup' : (bs'.map Prod.fst).Nodup) (hone : bs.length ≠ 1)
    (hroot : (treeOf bs).currentRoot = (treeOf bs').currentRoot) : bs = bs' := by
  have hall : ∀ cs : List (Block H), slice (Nat.clog 2 cs.length) 0 cs = cs := by
    intro cs
    rw [slice, Nat.zero_mul, drop_zero]
    exact take_of_length_le (Nat.le_pow_clog (by omega) _)
  by_cases hne : bs = []
  · subst hne
    exact (length_eq_zero_iff.1 h.length.symm).symm
  · have hne' : bs' ≠ [] := by
      rintro rfl
      exact hne (length_eq_zero_iff.1 h.length)
    obtain ⟨e, he, hhash⟩ := root_entry hnodup hne
    obtain ⟨e', he', hhash'⟩ := root_entry hnodup' hne'
    rw [← h.length] at he'
    have hslice := h.slice_eq he he' (by rw [hhash, hhash', hroot]) (by rwa [hall])
    rwa [hall, h.length, hall] at hslice

section Sample
attribute [local instance] headHash headHashArray

def firstHash : HeadHash := ⟨1 :: List.replicate 31 0, rfl⟩

def secondHash : HeadHash := ⟨2 :: List.replicate 31 0, rfl⟩

/-- The root of one block is its hash, and a hash that is already in the tree is passed over. -/
theorem currentRoot_unbound :
    (treeOf [(firstHash, 1)]).currentRoot = (treeOf [(firstHash, 2)]).currentRoot ∧
      hashed [(firstHash, 1)] ∪ hashed [(firstHash, 2)] = ∅ ∧
    (treeOf [(firstHash, 1), (secondHash, 1), (secondHash, 1)]).currentRoot =
      (treeOf [(firstHash, 1), (secondHash, 1), (secondHash, 2)]).currentRoot := by
  have hnone : ∀ w : Int, hashed [(firstHash, w)] = ∅ := by
    intro w
    refine Set.eq_empty_iff_forall_notMem.2 fun d => ?_
    rintro ⟨l, i, a, b, -, hb, -⟩
    have hlen : (blockLevel l [(firstHash, w)]).length ≤ 1 := by
      rw [length_level, length_singleton, Nat.add_sub_cancel' (Nat.two_pow_pos l), Nat.div_self (Nat.two_pow_pos l)]
    rw [getElem?_eq_none (by omega)] at hb
    cases hb
  refine ⟨rfl, ?_, rfl⟩
  rw [hnone, hnone, Set.union_self]

/-- Of a longer weight on the left the last bytes are lost. -/
example : pairData (blockBytes (firstHash, 256)) (blockBytes (secondHash, 1)) =
    pairData (blockBytes (firstHash, 257)) (blockBytes (secondHash, 1)) := by decide +kernel

end Sample

section Sample

/-- A digest that keeps the last 32 bytes; the first ones of a hashed pair are the hash of the left node. -/
@[reducible] def tailHash : ChainHash HeadHash := { headHash with hashH := fun data => headHash.hashH data.reverse }

@[reducible] def tailHashArray : @HashArray HeadHash tailHash :=
  @HashArray.mk HeadHash tailHash headHashArray.ofBytes headHashArray.length_bytes headHashArray.ofBytes_bytes
    headHashArray.bytes_ofBytes

attribute [local instance] tailHash tailHashArray

def thirdHash : HeadHash := ⟨3 :: List.replicate 31 0, rfl⟩

def threeBlocks : List (Block HeadHash) := [(firstHash, 5), (secondHash, 7), (thirdHash, 9)]

theorem threeBlocks_lossless : Lossless threeBlocks where
  pairs i a b ha hb := by
    cases i with
    | zero =>
      cases ha
      cases hb
      decide
    | succ i =>
      rw [getElem?_eq_none (by rw [show threeBlocks.length = 3 from rfl]; omega)] at hb
      cases hb
  last l i b hb := by
    have hlen := congrArg List.length hb
    rw [length_slice, length_singleton, show threeBlocks.length = 3 from rfl] at hlen
    obtain rfl : i = 0 := by
      have := Nat.le_mul_of_pos_right (2 * i + 1) (Nat.two_pow_pos l)
      omega
    rcases l with _ | _ | l
    · cases hb
      decide
    · cases hb
      decide
    · rw [Nat.pow_add] at hlen
      omega

/-- The first two blocks are hashed to a node, and this node with the third block to the root. -/
theorem threeBlocks_comparable : Comparable threeBlocks threeBlocks := by
  have hnonneg : ∀ b ∈ threeBlocks, 0 ≤ b.2 := by decide
  refine ⟨rfl, hnonneg, hnonneg, threeBlocks_lossless, threeBlocks_lossless, ?_⟩
  have htwo : ∀ d ∈ hashed threeBlocks, d = pairData (blockBytes (firstHash, 5)) (blockBytes (secondHash, 7)) ∨
      d = pairData (blockBytes (pairBlocks (firstHash, 5) (secondHash, 7))) (blockBytes (thirdHash, 9)) := by
    rintro d ⟨l, i, a, b, ha, hb, rfl⟩
    have hi := (List.getElem?_eq_some_iff.1 hb).1
    rcases l with _ | _ | l
    · obtain rfl : i = 0 := by
        rw [show (blockLevel 0 threeBlocks).length = 3 from rfl] at hi
        omega
      cases ha
      cases hb
      exact .inl rfl
    · obtain rfl : i = 0 := by
        rw [show (blockLevel 1 threeBlocks).length = 2 from rfl] at hi
        omega
      cases ha
      cases hb
      exact .inr rfl
    · have hfour : 2 ^ 2 ≤ 2 ^ (l + 1 + 1) := Nat.pow_le_pow_right (by omega) (by omega)
      rw [length_level, show threeBlocks.length = 3 from rfl, Nat.lt_div_iff_mul_lt (by omega)] at hi
      have hmul := Nat.le_mul_of_pos_left (2 ^ (l + 1 + 1)) (show 0 < 2 * i + 1 by omega)
      omega
  rw [Set.union_self]
  intro d hd d' hd' hhash
  rcases htwo d hd with rfl | rfl <;> rcases htwo d' hd' with rfl | rfl
  · rfl
  · revert hhash
    decide +kernel
  · revert hhash
    decide +kernel
  · rfl

theorem currentRoot_binds_three : Comparable threeBlocks threeBlocks ∧
    ∀ bs', Comparable threeBlocks bs' → (bs'.map Prod.fst).Nodup →
      (treeOf threeBlocks).currentRoot = (treeOf bs').currentRoot → threeBlocks = bs' :=
  ⟨threeBlocks_comparable, fun _ h hnodup hroot => currentRoot_binds h (by decide) hnodup (by decide) hroot⟩

end Sample

end Jaxnetd.Mmr
