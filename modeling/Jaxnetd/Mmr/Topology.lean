import Jaxnetd.Mmr.Binding
import Jaxnetd.Mmr.Quick

/-!
# The shape of the tree (`tree_store.go`, `helpers.go`)

`calcRoot` fills the store level by level and skips final cells; `calcRootForBlockNodes` recurses over an
array in which the leaves have the even places. Both give the root of the mountain range: a list of leaves is split at
the largest power of two below its length, and a part that has no neighbour is promoted as it is. The leaves may carry
the final flag or not.
-/

namespace Jaxnetd.Mmr
open PairLevels TreeStore List TreeNode

variable {H : Type}

def TreeNode.block (n : TreeNode H) : Block H := (n.hash, n.weight)

/-- The interleaved layout of `2^e` leaf places: leaf `i` stands at `heightToID(i) = 2i`. -/
def interleaved (e : Nat) (leaves : List (TreeNode H)) : List (Cell H) :=
  (List.range (2 ^ (e + 1) - 1)).map fun i => if i % 2 = 0 then leaves[i / 2]? else none

variable [ChainHash H]

/-- `calcRootForBlockNodes`: the root and the array with the inner nodes computed. The recursion does not end
on an empty slice. -/
def calcRootForBlockNodes (nodes : List (Cell H)) : Option (Cell H × List (Cell H)) :=
  if nodes.length = 0 then none
  else if nodes.length = 1 then some (nodes.getD 0 none, nodes)
  else if nodes.length = 3 then
    if (nodes.getD 1 none).isSome then some (nodes.getD 1 none, nodes)
    else
      let (top, final) := hashNodes (nodes.getD 0 none) (nodes.getD 2 none)
      some (top, if final then nodes.set 1 top else nodes)
  else
    let midPoint := nodes.length / 2
    match calcRootForBlockNodes (nodes.take midPoint), calcRootForBlockNodes (nodes.drop (midPoint + 1)) with
    | some (leftBranchRoot, left), some (rightBranchRoot, right) =>
      let (top, final) := hashNodes leftBranchRoot rightBranchRoot
      some (top, left ++ (if final then top else nodes.getD midPoint none) :: right)
    | _, _ => none
termination_by nodes.length
decreasing_by
  all_goals
    simp only [length_take, length_drop]
    omega

def growStore (s : TreeStore H) (leaves : List (TreeNode H)) : TreeStore H × Cell H :=
  leaves.zipIdx.foldl (fun st leaf => (st.1.appendLeaf leaf.2 leaf.1).calcRoot) (s, none)

/-! ## The recursion over the array -/

theorem block_hashNodes (left right : Cell H) :
    (hashNodes left right).1.map block = join pairBlocks (left.map block) (right.map block) := by
  cases left with
  | none => rfl
  | some a => cases right <;> rfl

section
omit [ChainHash H]

theorem length_interleaved (e : Nat) (leaves : List (TreeNode H)) : (interleaved e leaves).length = 2 ^ (e + 1) - 1 := by
  simp [interleaved]

theorem getElem?_interleaved {e i : Nat} (leaves : List (TreeNode H)) (hi : i < 2 ^ (e + 1) - 1) :
    (interleaved e leaves)[i]? = some (if i % 2 = 0 then leaves[i / 2]? else none) := by
  rw [interleaved, getElem?_map, getElem?_range hi, Option.map_some]

theorem take_interleaved (e : Nat) (leaves : List (TreeNode H)) :
    (interleaved (e + 1) leaves).take (2 ^ (e + 1) - 1) = interleaved e (leaves.take (2 ^ e)) := by
  apply ext_getElem?
  intro i
  rw [getElem?_take]
  split
  next hi =>
    have htake : (leaves.take (2 ^ e))[i / 2]? = leaves[i / 2]? := by rw [getElem?_take, if_pos (by omega)]
    rw [getElem?_interleaved _ (by omega), getElem?_interleaved _ hi, htake]
  next hi => rw [getElem?_eq_none (by rw [length_interleaved]; omega)]

theorem drop_interleaved (e : Nat) (leaves : List (TreeNode H)) :
    (interleaved (e + 1) leaves).drop (2 ^ (e + 1)) = interleaved e (leaves.drop (2 ^ e)) := by
  have hpos : 0 < 2 ^ e := Nat.two_pow_pos e
  apply ext_getElem?
  intro i
  rw [getElem?_drop]
  rcases Nat.lt_or_ge i (2 ^ (e + 1) - 1) with hi | hi
  · rw [getElem?_interleaved _ (by omega), getElem?_interleaved _ hi, getElem?_drop,
      show (2 ^ (e + 1) + i) % 2 = i % 2 by omega, show (2 ^ (e + 1) + i) / 2 = 2 ^ e + i / 2 by omega]
  · rw [getElem?_eq_none (by rw [length_interleaved]; omega), getElem?_eq_none (by rw [length_interleaved]; omega)]

end

theorem calcRootForBlockNodes_interleaved {e : Nat} {leaves : List (TreeNode H)} (h : leaves.length ≤ 2 ^ e) :
    ∃ top nodes, calcRootForBlockNodes (interleaved e leaves) = some (top, nodes) ∧
      top.map block = splitRoot pairBlocks (leaves.map block) := by
  induction e generalizing leaves with
  | zero =>
    refine ⟨leaves[0]?, interleaved 0 leaves, ?_, ?_⟩
    · rw [calcRootForBlockNodes]
      rfl
    · rw [splitRoot_of_length_le _ (by simpa using h), head?_map, head?_eq_getElem?]
  | succ e ih =>
    have hlen : (leaves.map block).length ≤ 2 ^ (e + 1) := by rwa [length_map]
    rw [splitRoot_halves _ hlen]
    cases e with
    | zero =>
      -- three places: the inner one is still empty
      refine ⟨(hashNodes leaves[0]? leaves[1]?).1, _, by rw [calcRootForBlockNodes]; rfl, ?_⟩
      rw [block_hashNodes, splitRoot_of_length_le _ (by simp), splitRoot_of_length_le _ (by simp at h ⊢; omega)]
      simp [head?_eq_getElem?]
    | succ e =>
      have hpos : 4 ≤ 2 ^ (e + 1 + 1) := by
        have := Nat.two_pow_pos e
        omega
      obtain ⟨left, lnodes, hleft, hlb⟩ : ∃ top nodes, calcRootForBlockNodes
        (interleaved (e + 1) (leaves.take (2 ^ (e + 1)))) =
          some (top, nodes) ∧ top.map block = splitRoot pairBlocks ((leaves.take (2 ^ (e + 1))).map block) :=
        ih (by rw [length_take]; omega)
      obtain ⟨right, rnodes, hright, hrb⟩ : ∃ top nodes, calcRootForBlockNodes
        (interleaved (e + 1) (leaves.drop (2 ^ (e + 1)))) =
          some (top, nodes) ∧ top.map block = splitRoot pairBlocks ((leaves.drop (2 ^ (e + 1))).map block) :=
        ih (by rw [length_drop]; omega)
      have hmid : (2 ^ (e + 1 + 1 + 1) - 1) / 2 = 2 ^ (e + 1 + 1) - 1 := by omega
      refine ⟨(hashNodes left right).1, lnodes ++ (if (hashNodes left right).2 then (hashNodes left right).1
        else (interleaved (e + 1 + 1) leaves).getD (2 ^ (e + 1 + 1) - 1) none) :: rnodes, ?_, ?_⟩
      · rw [calcRootForBlockNodes, length_interleaved, if_neg (by omega), if_neg (by omega), if_neg (by omega), hmid]
        dsimp only
        rw [take_interleaved, Nat.sub_add_cancel (by omega), drop_interleaved, hleft, hright]
      · rw [block_hashNodes, hlb, hrb, map_take, map_drop]

/-! ## The levels of the store -/

namespace TreeStore

/-- The final cells of a store with `n` leaves: those over complete entries, or the only inner cell. -/
def mayBeFinal (k n l p : Nat) : Prop := k = 1 ∨ (p + 1) * 2 ^ l ≤ n

/-- A store of `2^k` leaf cells that has grown to the leaves `L`, after a rebuild or before the next one. -/
structure Grown (k : Nat) (L leaves : List (TreeNode H)) (s : TreeStore H) : Prop where
  cap : leaves.length ≤ 2 ^ k
  rows : ∃ rows, s.nodes = pad (2 ^ k) leaves :: rows ∧ Rows (mayBeFinal k L.length) (Part L) 0 k rows

variable {k : Nat} {L : List (TreeNode H)} {s : TreeStore H}

theorem grown_new {c : Nat} (hc : 0 < c) : ∃ k, Grown k [] [] (.new c : TreeStore H) := by
  obtain ⟨k, -, hbare⟩ := bare_new (H := H) hc
  cases hnodes : (.new c : TreeStore H).nodes with
  | nil => exact absurd hbare.len (by simp [hnodes])
  | cons r rows =>
    have hlen : rows.length = k := by simpa [hnodes] using hbare.len
    refine ⟨k, by simp, rows, by rw [hnodes, ← hbare.leaves, row, hnodes]; rfl, hlen, fun i hi => ?_⟩
    have hrow := hbare.inner i hi
    rw [row, hnodes, getD_cons_succ, getD_eq_getElem?_getD, getElem?_eq_getElem (by omega), Option.getD_some] at hrow
    exact ⟨[], by rw [getElem?_eq_getElem (by omega), hrow], nil_prefix, by simp⟩

omit [ChainHash H] in
theorem Rows.mono {may may' : Nat → Nat → Prop} {P Q : Nat → List (TreeNode H) → Prop} {l j : Nat}
    {rows : List (List (Cell H))} (h : Rows may P l j rows) (hmay : ∀ i p, may i p → may' i p)
    (hmono : ∀ i N, P i N → (∀ p n, N[p]? = some n → n.final = true → may i p) → Q i N) : Rows may' Q l j rows where
  len := h.len
  row i hi := by
    obtain ⟨N, h1, h2, h3⟩ := h.row i hi
    exact ⟨N, h1, hmono _ N h2 h3, fun p n hn hf => hmay _ _ (h3 p n hn hf)⟩

theorem Grown.setLeaf (h : Grown k L L s) (x : TreeNode H) (hlt : L.length < 2 ^ k) :
    Grown k L (L ++ [x]) (s.setLeaf L.length x) where
  cap := by rw [length_append]; exact hlt
  rows := by
    obtain ⟨rows, hs, hrows⟩ := h.rows
    refine ⟨rows, ?_, hrows⟩
    rw [TreeStore.setLeaf, hs, modify_zero_cons, set_pad x hlt]

theorem Grown.allocate (h : Grown k L L s) (hfull : L.length = 2 ^ k) : Grown (k + 1) L L s.allocate := by
  obtain ⟨rows, hs, hrows⟩ := h.rows
  have h0 : (s.row 0).length = 2 ^ k := by rw [row, hs, getD_cons_zero, length_pad h.cap]
  have hle : 2 ^ k ≤ 2 ^ (k + 1) := Nat.pow_le_pow_right (by omega) (by omega)
  refine ⟨by have := h.cap; omega, (rows ++ [[]]).mapIdx fun i (r : List (Cell H)) =>
    r ++ List.replicate (2 ^ (k + 1) / 2 ^ (i + 1) - r.length) none, ?_, by simp [hrows.len], fun i hi => ?_⟩
  · rw [allocate_eq (by rw [hs, length_cons, hrows.len]) h0, hs, cons_append, mapIdx_cons]
    simp [pad_grow h.cap hle]
  · have hdiv : 2 ^ (k + 1) / 2 ^ (i + 1) = 2 ^ (k + 1 - 1 - i) := by
      rw [Nat.pow_div (by omega) (by omega)]
      congr 1
      omega
    rw [getElem?_mapIdx, hdiv]
    rcases Nat.lt_or_ge i k with hik | hik
    · obtain ⟨N, hN, hP, hf⟩ := hrows.row i hik
      have hNl : N.length ≤ 2 ^ (k - 1 - i) := by
        have := hP.length_le_pow h.cap (by omega)
        rwa [show k - (0 + 1 + i) = k - 1 - i by omega] at this
      rw [getElem?_append_left (by rw [hrows.len]; omega), hN, Option.map_some,
        pad_grow hNl (Nat.pow_le_pow_right (by omega) (by omega))]
      refine ⟨N, rfl, hP, fun p n hn hnf => .inr ?_⟩
      rcases hf p n hn hnf with rfl | hle
      · -- the store had two leaves, and both are there
        obtain rfl : i = 0 := by omega
        have hlt := (List.getElem?_eq_some_iff.1 hn).1
        obtain rfl : p = 0 := by omega
        omega
      · exact hle
    · obtain rfl : i = k := by omega
      rw [getElem?_append_right (by rw [hrows.len]), hrows.len, Nat.sub_self]
      exact ⟨[], by simp [pad], nil_prefix, by simp⟩

theorem Grown.appendLeaf (h : Grown k L L s) (x : TreeNode H) : ∃ k', Grown k' L (L ++ [x]) (s.appendLeaf L.length x) := by
  obtain ⟨rows, hs, -⟩ := h.rows
  have h0 : (s.row 0).length = 2 ^ k := by rw [row, hs, getD_cons_zero, length_pad h.cap]
  have hcap := h.cap
  unfold TreeStore.appendLeaf
  rw [h0]
  split
  next hlt => exact ⟨k, h.setLeaf x hlt⟩
  next hge =>
    have hfull : L.length = 2 ^ k := by omega
    refine ⟨k + 1, (h.allocate hfull).setLeaf x ?_⟩
    have := Nat.two_pow_pos k
    omega

theorem Part.complete {l : Nat} {N : List (TreeNode H)} (h : Part L l N) (x : TreeNode H) {p : Nat} {n : TreeNode H}
    (hn : N[p]? = some n) (hp : (p + 1) * 2 ^ l ≤ L.length) : (nodeLevel l (L ++ [x]))[p]? = some n.erase := by
  have hlt : p < L.length / 2 ^ l := (Nat.le_div_iff_mul_le (Nat.two_pow_pos l)).2 hp
  have htake := congrArg (fun X => X[p]?) (take_level hashPair promote l L.length (L ++ [x]))
  simp only [getElem?_take, if_pos hlt, take_left] at htake
  obtain ⟨rest, hrest⟩ := h
  rw [← htake]
  show (nodeLevel l L)[p]? = _
  rw [← hrest, getElem?_append_left (by rw [length_map]; exact (List.getElem?_eq_some_iff.1 hn).1), getElem?_map, hn]
  rfl

theorem block_top {c : Cell H} (h : c.map erase = (nodeLevel k L).head?) (hcap : L.length ≤ 2 ^ k) :
    c.map block = splitRoot pairBlocks (L.map block) := by
  have hmap : (c.map erase).map block = c.map block := by cases c <;> rfl
  have hlevel : (nodeLevel k L).map block = (splitRoot pairBlocks (L.map block)).toList := by
    rw [← level_eq_splitRoot _ (by rwa [length_map])]
    exact map_level hashPair promote block (fun _ _ => rfl) (fun _ => rfl) k L
  rw [← hmap, h, ← head?_map, hlevel]
  cases splitRoot pairBlocks (L.map block) <;> rfl

/-- A rebuild after one leaf more makes every row its level, and returns the root. -/
theorem Grown.calcRoot {x : TreeNode H} (h : Grown k L (L ++ [x]) s) : Grown k (L ++ [x]) (L ++ [x]) s.calcRoot.1 ∧
    s.calcRoot.2.map block = splitRoot pairBlocks ((L ++ [x]).map block) := by
  obtain ⟨rows, hs, hrows⟩ := h.rows
  have hcap := h.cap
  have hlen : (L ++ [x]).length = L.length + 1 := by simp
  match k with
  | 0 =>
    obtain rfl : L = [] := eq_nil_of_length_eq_zero (by rw [hlen, Nat.pow_zero] at hcap; omega)
    obtain rfl : rows = [] := eq_nil_of_length_eq_zero hrows.len
    obtain ⟨nodes⟩ := s
    cases hs
    refine ⟨⟨hcap, [], rfl, rfl, by simp⟩, ?_⟩
    rw [splitRoot_of_length_le _ (by simp)]
    rfl
  | 1 =>
    obtain ⟨N, hN, hP, -⟩ := hrows.row 0 (by omega)
    obtain ⟨r, rfl⟩ : ∃ r, rows = [r] := length_eq_one_iff.1 hrows.len
    obtain ⟨a, rest, hL⟩ : ∃ a rest, L ++ [x] = a :: rest := exists_cons_of_ne_nil (by simp)
    have hrest : rest.length ≤ 1 := by
      rw [hL, length_cons] at hcap
      omega
    have hr : ∃ c, r = [c] := by
      have hNl : N.length ≤ 1 := hP.length_le_pow (k := 1) (by omega) (by omega)
      have hpad : r = pad 1 N := by simpa using hN
      exact length_eq_one_iff.1 (by rw [hpad, length_pad hNl])
    obtain ⟨c, rfl⟩ := hr
    obtain ⟨nodes⟩ := s
    cases hs
    have hroot : (some { up a rest.head? with final := true }).map erase = (nodeLevel 1 (a :: rest)).head? := by
      cases rest <;> rfl
    rw [hL] at hcap ⊢
    rw [show pad (2 ^ 1) (a :: rest) = pad 2 (a :: rest) from rfl, calcRoot_two hrest c]
    refine ⟨⟨hcap, _, rfl, rfl, fun i hi => ?_⟩, block_top hroot hcap⟩
    obtain rfl : i = 0 := by omega
    refine ⟨[{ up a rest.head? with final := true }], rfl, ?_, fun _ _ _ _ => .inl rfl⟩
    show [_] <+: nodeLevel 1 (a :: rest)
    rw [nodeLevel_one hrest]
    cases rest <;> exact prefix_rfl
  | k + 2 =>
    have hstill : ∀ i p, mayBeFinal (k + 2) L.length i p → (p + 1) * 2 ^ i ≤ L.length := by
      rintro i p (heq | hle)
      · omega
      · exact hle
    obtain ⟨rows', hrows', hdone, hroot⟩ := calcLevels_level (fun l p => (p + 1) * 2 ^ l ≤ L.length)
      (fun l p => (p + 1) * 2 ^ l ≤ (L ++ [x]).length) (fun l p hle => by omega)
      (fun l p _ hright => by
        rw [show (p + 1) * 2 ^ (l + 1) = (2 * p + 1 + 1) * 2 ^ l by rw [Nat.pow_succ]; ring]
        exact hright)
      (L := L ++ [x]) (k + 2) 0 (L ++ [x]) rows none (by rw [Nat.zero_add, Nat.zero_add, Nat.one_mul]; omega) rfl
        (by simp) hcap
      (fun p n hn _ => by
        rw [Nat.pow_zero, Nat.mul_one]
        exact (List.getElem?_eq_some_iff.1 hn).1)
      (hrows.mono hstill fun i N hP hfinal =>
        ⟨hP.within_append x, fun p n hn hf => hP.complete x hn (hstill i p (hfinal p n hn hf))⟩)
    rw [calcRoot_more hs hcap, hrows']
    refine ⟨⟨hcap, rows', rfl, hdone.mono (fun i p hle => .inr hle) fun i N hlevel _ => ?_⟩, ?_⟩
    · rw [Part, hlevel]
    · rw [Nat.zero_add] at hroot
      exact block_top (hroot (by omega)) hcap

end TreeStore

/-! ## The root -/

theorem growStore_concat (s : TreeStore H) (leaves : List (TreeNode H)) (x : TreeNode H) :
    growStore s (leaves ++ [x]) = ((growStore s leaves).1.appendLeaf leaves.length x).calcRoot := by
  rw [growStore, zipIdx_append, foldl_append]
  simp [growStore]

theorem grown_growStore {c : Nat} (hc : 0 < c) (leaves : List (TreeNode H)) :
    ∃ k, Grown k leaves leaves (growStore (.new c) leaves).1 ∧
      (growStore (.new c) leaves).2.map block = splitRoot pairBlocks (leaves.map block) := by
  induction leaves using List.reverseRecOn with
  | nil =>
    obtain ⟨k, hk⟩ := grown_new (H := H) hc
    refine ⟨k, hk, ?_⟩
    rw [splitRoot_of_length_le _ (by simp)]
    rfl
  | append_singleton leaves x ih =>
    obtain ⟨k, hk, -⟩ := ih
    obtain ⟨k', hk'⟩ := hk.appendLeaf x
    rw [growStore_concat]
    exact ⟨k', hk'.calcRoot⟩

omit [ChainHash H] in
theorem splitRoot_sum {ws : List Int} (h : ws ≠ []) : splitRoot (· + ·) ws = some ws.sum := by
  induction ws using splitRoot.induct with
  | case1 ws hle =>
    rcases ws with _ | ⟨w, ws⟩
    · exact absurd rfl h
    · obtain rfl : ws = [] := length_eq_zero_iff.1 (by rw [length_cons] at hle; omega)
      simp [splitRoot_of_length_le _ hle]
  | case2 ws hgt ih₁ ih₂ =>
    have hle : 2 ^ Nat.log2 (ws.length - 1) ≤ ws.length - 1 := Nat.log2_self_le (by omega)
    have hpos : 0 < 2 ^ Nat.log2 (ws.length - 1) := Nat.two_pow_pos _
    rw [splitRoot, if_neg hgt, ih₁, ih₂, Option.map₂_coe_coe]
    · rw [sum_take_add_sum_drop]
    · exact ne_nil_of_length_pos (by rw [length_drop]; omega)
    · exact ne_nil_of_length_pos (by rw [length_take]; omega)

/-- The topology of the tree. Leaves are appended one by one to a new store: the root has the hash of the recursive
definition and the weight of all leaves, and the recursion over the interleaved layout finds the same root. -/
theorem root_topology {c : Nat} (hc : 0 < c) {leaves : List (TreeNode H)} (hne : leaves ≠ []) :
    ∃ root, (growStore (.new c) leaves).2 = some root ∧ (splitRoot hashPair leaves).map hash = some root.hash ∧
      root.weight = (leaves.map weight).sum ∧
      ∀ e, leaves.length ≤ 2 ^ e → ∃ top nodes, calcRootForBlockNodes (interleaved e leaves) = some (some top, nodes) ∧
        top.hash = root.hash ∧ top.weight = root.weight := by
  obtain ⟨k, -, hroot⟩ := grown_growStore hc leaves
  have hhash : (splitRoot hashPair leaves).map block = splitRoot pairBlocks (leaves.map block) :=
    splitRoot_map hashPair block (fun _ _ => rfl) leaves
  have hweight : (splitRoot pairBlocks (leaves.map block)).map Prod.snd = some (leaves.map weight).sum := by
    have hsnd : (splitRoot pairBlocks (leaves.map block)).map Prod.snd =
        splitRoot (· + ·) ((leaves.map block).map Prod.snd) := splitRoot_map pairBlocks Prod.snd (fun _ _ => rfl) _
    rw [hsnd, map_map]
    exact splitRoot_sum (by simpa using hne)
  rw [← hroot] at hhash hweight
  cases hstore : (growStore (.new c) leaves).2 with
  | none => simp [hstore] at hweight
  | some root =>
    rw [hstore] at hhash hweight hroot
    refine ⟨root, rfl, ?_, Option.some.inj hweight, fun e he => ?_⟩
    · have := congrArg (Option.map Prod.fst) hhash
      rwa [Option.map_map] at this
    · obtain ⟨top, nodes, hcalc, htop⟩ := calcRootForBlockNodes_interleaved he
      rw [← hroot] at htop
      obtain ⟨top, rfl, hblock⟩ := Option.map_eq_some_iff.1 htop
      exact ⟨top, nodes, hcalc, congrArg Prod.fst hblock, congrArg Prod.snd hblock⟩

def threeLeaves : List (TreeNode Nat) := [⟨1, 5, 0, true⟩, ⟨2, 7, 1, false⟩, ⟨3, 9, 2, false⟩]

theorem root_topology_three : letI := sumHash
    ∃ root, (growStore (.new 1) threeLeaves).2 = some root ∧
      (splitRoot hashPair threeLeaves).map hash = some root.hash ∧ root.weight = (threeLeaves.map weight).sum ∧
      ∀ e, threeLeaves.length ≤ 2 ^ e → ∃ top nodes, calcRootForBlockNodes (interleaved e threeLeaves) =
        some (some top, nodes) ∧ top.hash = root.hash ∧ top.weight = root.weight := by
  let _ := sumHash
  exact root_topology (by decide) (by decide)

end Jaxnetd.Mmr
