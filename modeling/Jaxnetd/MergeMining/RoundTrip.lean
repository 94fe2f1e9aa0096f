import Jaxnetd.MergeMining.Coding

/-!
# What a miner codes and what is accepted

The validator splits the integer again by the number of bits alone, so what was coded is read back. Its walk over
the tree takes the types of the leaves from a package variable, at the offset that they have in the coding: after
a coding the variable has them from bit zero on. The number of empty slots is therefore counted too high, nearly
always as all of them (`emptyCounted`), and the comparison with the merge-mining number, which never asks too
much then, fails only where the sum leaves the 32 bits.
-/

namespace Jaxnetd.MergeMining
open ChainHash Checks SlotTree BitString List

variable {H : Type} [ChainHash H] [DecidableEq H] {mm : Nat}

/-! ## The checks of the validator -/

theorem traverseOrangeTreeNode_ok (bit : Nat → Bool) (G first e pos idx c : Nat) (w : Walk) :
    traverseOrangeTreeNode bit G e ⟨pos, first + idx, c⟩ = .ok w ↔ ∃ T pos' idx',
      readTree bit e pos idx = some (T, pos', idx') ∧
        w = ⟨pos', first + idx', c + unmarked (fun i => G.testBit (first + i)) e T⟩ := by
  have hleaf (e pos idx c : Nat) (w : Walk) : Except.ok (walkLeaf G (2 ^ e) ⟨pos, first + idx, c⟩) =
      (Except.ok w : Except Fault Walk) ↔ ∃ T pos' idx', some (leaf idx, pos + 1, idx + 1) = some (T, pos', idx') ∧
        w = ⟨pos', first + idx', c + unmarked (fun i => G.testBit (first + i)) e T⟩ := by
    have hwalk : walkLeaf G (2 ^ e) ⟨pos, first + idx, c⟩ =
        ⟨pos + 1, first + (idx + 1), c + unmarked (fun i => G.testBit (first + i)) e (leaf idx)⟩ := by
      simp only [walkLeaf, unmarked, Nat.add_assoc]
      split <;> rfl
    rw [hwalk, Except.ok.injEq]
    constructor
    · rintro rfl
      exact ⟨_, _, _, rfl, rfl⟩
    · rintro ⟨T, pos', idx', h, rfl⟩
      cases h
      rfl
  induction e generalizing pos idx c w with
  | zero =>
    rw [traverseOrangeTreeNode, readTree]
    cases hb : bit pos with
    | true => simp
    | false => simpa using hleaf 0 pos idx c w
  | succ e ih =>
    cases hb : bit pos with
    | false =>
      rw [traverseOrangeTreeNode, readTree, hb]
      simpa using hleaf (e + 1) pos idx c w
    | true =>
      rw [traverseOrangeTreeNode, if_pos hb, bind_eq_ok]
      constructor
      · rintro ⟨w₁, h₁, h₂⟩
        obtain ⟨l, pos₁, idx₁, hl, rfl⟩ := (ih _ _ _ _).1 h₁
        obtain ⟨r, pos₂, idx₂, hr, rfl⟩ := (ih _ _ _ _).1 h₂
        refine ⟨node l r, pos₂, idx₂, ?_, ?_⟩
        · rw [readTree, if_pos hb, hl]
          simp [hr]
        · rw [unmarked, Nat.add_sub_cancel, Nat.add_assoc]
      · rintro ⟨T, pos', idx', hT, rfl⟩
        obtain ⟨l, pos₁, idx₁, r, hl, hr, rfl⟩ := readTree_succ_node hb hT
        refine ⟨_, (ih _ _ _ _).2 ⟨l, pos₁, idx₁, hl, rfl⟩, (ih _ _ _ _).2 ⟨r, pos', idx', hr, ?_⟩⟩
        rw [unmarked, Nat.add_sub_cancel, Nat.add_assoc]

omit [DecidableEq H] in
/-- All checks but the one of the merge-mining number, with the coded tree. -/
structure Coherent (d n : Nat) (coding : List UInt8) (hashes : List H) (root : H) (beacon : Bool)
    (T : SlotTree Nat) : Prop where
  size_ne : n ≠ 0
  hashes_ne : hashes ≠ []
  coding_ne : coding ≠ []
  size_mod : n % 3 = 0
  height_ne : d ≠ 0
  size_le : n ≤ maxCodingSize d
  count : (nodeTypes (setBytes coding) (n / 3)).count true = hashes.length
  topology : topologyLoop (topologyBit (setBytes coding) (n / 3)) (2 * (n / 3)) (2 * (n / 3) + 1) 0 0 0 = true
  ones : (List.range (2 * (n / 3) - 1)).countP ((setBytes coding).testBit ·) = n / 3
  tree : ∃ pos idx, readTree (topologyBit (setBytes coding) (n / 3)) d 0 0 = some (T, pos, idx) ∧
    ∃ restored, restoreHashes (nodeTypes (setBytes coding) (n / 3)) hashes = some restored ∧
      (beacon = false → idx ≤ restored.length ∧ T.root pairHash (fun i => restored.getD i magicHash) = root)

variable {G d n bits k e x : Nat} {hashes : List H} {T : SlotTree Nat} {p : List Bool}
  {l r : SlotTree (Option H)}

theorem validateOrangeTree_iff {coding : List UInt8} {root : H} {beacon : Bool} :
    validateOrangeTree G d n coding hashes mm root beacon = .ok () ↔ ∃ T, Coherent d n coding hashes root beacon T ∧
        2 ^ d ≤ (mm + unmarked (fun i => G.testBit (2 * (n / 3) - 1 + i)) d T) % 2 ^ 32 := by
  have hend (T : SlotTree Nat) (restored : List H) (pos idx : Nat)
      (hT : readTree (topologyBit (setBytes coding) (n / 3)) d 0 0 = some (T, pos, idx)) :
      ((if beacon then .ok () else do
        let r ← orFail indexOut (calculateRoot (topologyBit (setBytes coding) (n / 3)) restored d 0 0)
        failIf (r.1 ≠ root) (validationError "calculated root does not corresponds to the expected root") :
          Except Fault Unit) = .ok ()) ↔
        (beacon = false → idx ≤ restored.length ∧ T.root pairHash (fun i => restored.getD i magicHash) = root) := by
    cases beacon with
    | true => simp
    | false =>
      simp only [Bool.false_eq_true, if_false, ok_rules, forall_const]
      constructor
      · rintro ⟨r, pos', idx', hcalc, rfl⟩
        obtain ⟨T', hT', hle, hroot⟩ := calculateRoot_eq_some.1 hcalc
        rw [hT] at hT'
        cases hT'
        exact ⟨hle, hroot⟩
      · rintro ⟨hle, hroot⟩
        exact ⟨root, pos, idx, calculateRoot_eq_some.2 ⟨T, hT, hle, hroot⟩, rfl⟩
  have hwalk := traverseOrangeTreeNode_ok (topologyBit (setBytes coding) (n / 3)) G (2 * (n / 3) - 1) d 0 0 0
  simp only [Nat.add_zero, Nat.zero_add] at hwalk
  simp only [validateOrangeTree, ok_rules, not_or, Nat.not_lt, Bool.not_eq_false, ne_eq, hwalk]
  constructor
  · rintro ⟨hn, ⟨hh, hc⟩, hmod, hd, hmax, hcount, htop, hones, w, ⟨T, pos, idx, hT, rfl⟩, hmm, restored, hres, hroot⟩
    exact ⟨T, ⟨hn, hh, hc, hmod, by omega, hmax, hcount, htop, hones, pos, idx, hT, restored, hres,
      (hend T restored pos idx hT).1 hroot⟩, hmm⟩
  · rintro ⟨T, ⟨hn, hh, hc, hmod, hd, hmax, hcount, htop, hones, pos, idx, hT, restored, hres, hroot⟩, hmm⟩
    exact ⟨hn, ⟨hh, hc⟩, hmod, by omega, hmax, hcount, htop, hones, _, ⟨T, pos, idx, hT, rfl⟩, hmm, restored, hres,
      (hend T restored pos idx hT).2 hroot⟩

/-! ## The coded tree is read back -/

section
variable {α : Type}

/-- The loop passes over the code of a tree, if it is not at a tie before or the code is all that is left. -/
theorem topologyLoop_tree {bit : Nat → Bool} {last : Nat} (t : SlotTree α) (n : Nat) {index i j : Nat}
    (h : Reads bit index t.preorder) (hij : i ≤ j) : topologyLoop bit last (t.preorder.length + n) index i j =
      (decide (i < j ∨ index + t.preorder.length = last + 1) &&
        topologyLoop bit last n (index + t.preorder.length) (i + t.leaves.length) (j + t.inner)) := by
  induction t generalizing n index i j with
  | leaf a =>
    have hbit : bit index = false := h.1
    rw [preorder, length_singleton, Nat.add_comm, topologyLoop, hbit]
    simp only [Bool.false_eq_true, if_false, leaves, length_singleton, SlotTree.inner, Nat.add_zero]
    split_ifs with hstop
    · rw [decide_eq_false (by omega), Bool.false_and]
    · rw [decide_eq_true (by omega), Bool.true_and]
  | node l r ihl ihr =>
    obtain ⟨hbit, hrest⟩ : bit index = true ∧ Reads bit (index + 1) (l.preorder ++ r.preorder) := h
    obtain ⟨hl, hr⟩ := reads_append.1 hrest
    have hlen : (node l r).preorder.length + n = l.preorder.length + (r.preorder.length + n) + 1 := by
      rw [preorder, length_cons, length_append]
      omega
    have hleaves := length_leaves l
    rw [hlen, topologyLoop, hbit]
    simp only [if_true]
    rw [if_neg (by omega), ihl _ hl (by omega), ihr _ hr (by omega), decide_eq_true (by omega), Bool.true_and]
    simp only [preorder, leaves, SlotTree.inner, length_cons, length_append]
    congr 1
    · rw [decide_eq_decide]
      omega
    · congr 1 <;> omega

end

theorem count_topology (hk : 0 < k) : ((List.range' 0 (2 * k + 1)).map (topologyBit bits k)).count true =
      (List.range (2 * k - 1)).countP (bits.testBit ·) := by
  have hsplit : 2 * k + 1 = 2 * k - 1 + 1 + 1 := by omega
  have hin : (List.range (2 * k - 1)).map (topologyBit bits k) = (List.range (2 * k - 1)).map (bits.testBit ·) := by
    refine map_congr_left fun i hi => ?_
    rw [mem_range] at hi
    rw [topologyBit, if_neg (by omega)]
  have hzero : topologyBit bits k (2 * k - 1) = false ∧ topologyBit bits k (2 * k - 1 + 1) = false :=
    ⟨if_pos (by omega), if_pos (by omega)⟩
  rw [← range_eq_range', hsplit, range_succ, range_succ, map_append, map_append, hin]
  simp [hzero, count_eq_countP, countP_map, Function.comp_def]

/-- A tree read from a coding which passes the loop and the count is all of it. -/
theorem inner_of_topology {pos idx : Nat} (hk : 0 < k)
    (hloop : topologyLoop (topologyBit bits k) (2 * k) (2 * k + 1) 0 0 0 = true)
    (hones : (List.range (2 * k - 1)).countP (bits.testBit ·) = k)
    (hT : readTree (topologyBit bits k) d 0 0 = some (T, pos, idx)) : T.inner = k := by
  have hreads : Reads (topologyBit bits k) 0 T.preorder := (reads_of_readTree hT).1
  have hlen := length_preorder T
  rcases Nat.lt_trichotomy T.inner k with hlt | heq | hgt
  · -- the loop would stop behind the tree
    have hloop' : topologyLoop _ (2 * k) _ 0 0 0 = _ := topologyLoop_tree T (2 * k - 2 * T.inner) hreads (Nat.le_refl 0)
    rw [hlen, show 2 * T.inner + 1 + (2 * k - 2 * T.inner) = 2 * k + 1 by omega, hloop, decide_eq_false (by omega)]
      at hloop'
    cases hloop'
  · exact heq
  · -- the coding would be a proper start of the tree, with one zero too many
    have htake : T.preorder.take (2 * k + 1) = (List.range' 0 (2 * k + 1)).map (topologyBit bits k) := by
      conv_lhs => rw [hreads.eq_map]
      rw [← map_take, ← range_eq_range', take_range, Nat.min_eq_left (by omega), range_eq_range']
    have hcount := count_take_preorder T (n := 2 * k + 1) (by omega)
    have hsum := count_false_add_count_true (T.preorder.take (2 * k + 1))
    rw [htake, count_topology hk, hones] at hcount hsum
    simp at hsum
    omega

section
omit [DecidableEq H]

theorem restoreHashes_isSome {types : List Bool} (h : types.count true ≤ hashes.length) :
    (restoreHashes types hashes).isSome := by
  induction types generalizing hashes with
  | nil => rfl
  | cons type types ih =>
    cases type with
    | false => simpa [restoreHashes] using ih (by simpa using h)
    | true =>
      cases hashes with
      | nil => simp at h
      | cons x hashes => simpa [restoreHashes] using ih (by simpa using h)

/-- Behind the checks of the structure both walks read one tree with `k` inner nodes, and they read all of the
coding. -/
theorem walks_of_structure (hk : 0 < k) (hloop : topologyLoop (topologyBit bits k) (2 * k) (2 * k + 1) 0 0 0 = true)
    (hones : (List.range (2 * k - 1)).countP (bits.testBit ·) = k) {w : Walk}
    (hw : traverseOrangeTreeNode (topologyBit bits k) G d ⟨0, 2 * k - 1, 0⟩ = .ok w) : ∃ T : SlotTree Nat,
      T.inner = k ∧ T.depth ≤ d ∧ Reads (topologyBit bits k) 0 T.preorder ∧ w.topologyIndex = 2 * k + 1 ∧
      w.typesIndex = 2 * k - 1 + (k + 1) ∧ ∀ restored : List H, restored.length = k + 1 →
        calculateRoot (topologyBit bits k) restored d 0 0 =
          some (T.root pairHash fun i => restored.getD i magicHash, 2 * k + 1, k + 1) := by
  obtain ⟨T, pos, idx, hT, rfl⟩ := (traverseOrangeTreeNode_ok _ G (2 * k - 1) d 0 0 0 w).1 hw
  have hinner := inner_of_topology hk hloop hones hT
  obtain ⟨hreads, hpos, hidx⟩ := reads_of_readTree hT
  simp only [length_preorder, length_leaves, hinner, Nat.zero_add] at hpos hidx
  subst hpos hidx
  exact ⟨T, hinner, depth_readTree hT, hreads, rfl, rfl, fun restored hlen =>
    calculateRoot_eq_some.2 ⟨T, hT, hlen.ge, rfl⟩⟩

end

theorem avoids_traverse (bit : Nat → Bool) (G e : Nat) (w : Walk) :
    Avoids Fault.IsStop (traverseOrangeTreeNode bit G e w) := by
  induction e generalizing w with
  | zero =>
    rw [traverseOrangeTreeNode]
    split
    · exact avoids_error.2 Fault.not_isStop_error
    · exact avoids_ok
  | succ e ih =>
    rw [traverseOrangeTreeNode]
    split
    · exact avoids_bind.2 ⟨ih _, fun w _ => ih w⟩
    · exact avoids_ok

/-- No index is out of range. -/
theorem avoids_orangeTree (G d n : Nat) (coding : List UInt8) (hashes : List H) (mmNumber : Nat) (root : H)
    (beacon : Bool) : Avoids Fault.IsStop (validateOrangeTree G d n coding hashes mmNumber root beacon) := by
  have hbad : ∀ description, ¬(validationError description).IsStop := fun _ => Fault.not_isStop_error
  refine avoids_check (hbad _) fun hn => ?_
  refine avoids_check (hbad _) fun _ => ?_
  refine avoids_check (hbad _) fun h3 => ?_
  refine avoids_check (hbad _) fun _ => ?_
  refine avoids_check (hbad _) fun _ => ?_
  refine avoids_check (hbad _) fun hcount => ?_
  refine avoids_check (hbad _) fun hloop => ?_
  refine avoids_check (hbad _) fun hones => ?_
  refine avoids_bind.2 ⟨avoids_traverse _ _ _ _, fun w hw => ?_⟩
  refine avoids_check (hbad _) fun _ => ?_
  obtain ⟨T, -, -, -, -, -, hcalc⟩ := walks_of_structure (H := H) (by omega) (by simpa using hloop)
    (by simpa using hones) hw
  refine avoids_bind.2 ⟨avoids_orFail.2 fun hnone => ?_, fun restored hrestored => ?_⟩
  · have := restoreHashes_isSome (not_not.1 hcount).le
    rw [hnone] at this
    cases this
  have hlen : restored.length = n / 3 + 1 := by
    rw [restoreHashes_length (orFail_eq_ok.1 hrestored), nodeTypes, length_map, length_range]
  split
  · exact avoids_ok
  refine avoids_bind.2 ⟨avoids_orFail.2 fun hnone => ?_, fun _ _ => avoids_failIf.2 fun _ => hbad _⟩
  rw [hcalc restored hlen] at hnone
  cases hnone

/-- The validation never indexes out of range, and behind the checks of the structure both walks read one tree. -/
theorem validateOrangeTree_total (G d n : Nat) (coding : List UInt8) (hashes : List H) (mmNumber : Nat) (root : H)
    (beacon : Bool) : (∀ what, validateOrangeTree G d n coding hashes mmNumber root beacon ≠ .error (.stop what)) ∧
      (n ≠ 0 → n % 3 = 0 →
        topologyLoop (topologyBit (setBytes coding) (n / 3)) (2 * (n / 3)) (2 * (n / 3) + 1) 0 0 0 = true →
        (List.range (2 * (n / 3) - 1)).countP ((setBytes coding).testBit ·) = n / 3 →
        ∀ w, traverseOrangeTreeNode (topologyBit (setBytes coding) (n / 3)) G d ⟨0, 2 * (n / 3) - 1, 0⟩ = .ok w →
        ∃ T : SlotTree Nat, T.inner = n / 3 ∧ T.depth ≤ d ∧
          Reads (topologyBit (setBytes coding) (n / 3)) 0 T.preorder ∧ w.topologyIndex = 2 * (n / 3) + 1 ∧
          w.typesIndex = 2 * (n / 3) - 1 + (n / 3 + 1) ∧ ∀ restored : List H, restored.length = n / 3 + 1 →
            calculateRoot (topologyBit (setBytes coding) (n / 3)) restored d 0 0 =
              some (T.root pairHash fun i => restored.getD i magicHash, 2 * (n / 3) + 1, n / 3 + 1)) := by
  refine ⟨fun what h => ?_, fun hn h3 hloop hones w hw => walks_of_structure (by omega) hloop hones hw⟩
  exact avoids_orangeTree G d n coding hashes mmNumber root beacon _ h Fault.isStop_stop

section Sample
attribute [local instance] unaryHash

/-- A tree with two inner nodes, of which the leftmost leaf has a hash. -/
theorem validateOrangeTree_total_two : validateOrangeTree 3 2 6 [11] [5] 8 (pairHash (pairHash 5 magicHash) magicHash) false =
      .ok () ∧
    ∃ T : SlotTree Nat, T.inner = 2 ∧ calculateRoot (topologyBit (setBytes [11]) 2) [5, magicHash, magicHash] 2 0 0 =
      some (T.root pairHash fun i => [5, magicHash, magicHash].getD i magicHash, 5, 3) := by
  obtain ⟨T, hinner, -, -, -, -, hcalc⟩ := (validateOrangeTree_total 3 2 6 [11] [(5 : Nat)] 8
    (pairHash (pairHash 5 magicHash) magicHash) false).2 (by decide) (by decide) (by decide) (by decide) _ rfl
  exact ⟨by decide, T, hinner, hcalc [5, magicHash, magicHash] rfl⟩

end Sample

/-- What is accepted codes one tree. The walk over the slots reads it to the end, and where the root is checked it is
the root of this tree. -/
theorem tree_of_validated {n mmNumber : Nat} {coding : List UInt8} {hashes : List H} {root : H} {beacon : Bool}
    (h : validateOrangeTree G d n coding hashes mmNumber root beacon = .ok ()) :
    ∃ (T : SlotTree Nat) (w : Walk) (restored : List H), T.inner = n / 3 ∧ T.depth ≤ d ∧
      traverseOrangeTreeNode (topologyBit (setBytes coding) (n / 3)) G d ⟨0, 2 * (n / 3) - 1, 0⟩ = .ok w ∧
      w.topologyIndex = 2 * (n / 3) + 1 ∧ w.typesIndex = 2 * (n / 3) - 1 + (n / 3 + 1) ∧
      restoreHashes (nodeTypes (setBytes coding) (n / 3)) hashes = some restored ∧
      (beacon = false → T.root pairHash (fun i => restored.getD i magicHash) = root) := by
  simp only [validateOrangeTree, ok_rules] at h
  obtain ⟨hn, -, h3, -, -, -, hloop, hones, w, hw, -, restored, hrestored, hroot⟩ := h
  obtain ⟨T, hinner, hdepth, -, htopology, htypes, hcalc⟩ := walks_of_structure (H := H) (by omega) (by simpa using hloop)
    (by simpa using hones) hw
  have hlen : restored.length = n / 3 + 1 := by
    rw [restoreHashes_length hrestored, nodeTypes, length_map, length_range]
  refine ⟨T, w, restored, hinner, hdepth, hw, htopology, htypes, hrestored, fun hbeacon => ?_⟩
  simpa [hbeacon, hcalc restored hlen, ok_rules] using hroot

section
variable {t : SlotTree (Option H)}

def leafHashes (t : SlotTree (Option H)) : List H := t.leaves.reduceOption

section
omit [DecidableEq H]

theorem restoreHashes_leaves (leaves : List (Option H)) :
    restoreHashes (leaves.map Option.isSome) leaves.reduceOption = some (leaves.map (·.getD magicHash)) ∧
      (leaves.map Option.isSome).count true = leaves.reduceOption.length := by
  induction leaves with
  | nil => exact ⟨rfl, rfl⟩
  | cons o leaves ih =>
    cases o with
    | none =>
      exact ⟨by simp [restoreHashes, ih.1], by simp [ih.2]⟩
    | some a =>
      exact ⟨by simp [restoreHashes, ih.1], by simp [ih.2]⟩

variable {s : Nat → Option H}

theorem collapse_eq_empty_of_leaves
    (h : ∀ o ∈ (collapse pairHash s e x).leaves, o = none) : collapse pairHash s e x = leaf none := by
  induction e generalizing x with
  | zero =>
    exact congrArg leaf (h _ (mem_singleton_self _))
  | succ e ih =>
    cases ht : collapse pairHash s (e + 1) x with
    | leaf o =>
      rw [ht] at h
      exact congrArg leaf (h o (mem_singleton_self o))
    | node l r =>
      obtain ⟨hl, hr⟩ := join_eq_node ht
      rw [ht, leaves] at h
      have hle := ih (x := 2 * x) fun o ho => h o (mem_append_left _ (hl ▸ ho))
      have hre := ih (x := 2 * x + 1) fun o ho => h o (mem_append_right _ (hr ▸ ho))
      rw [← ht]
      exact join_eq_empty.2 ⟨hle, hre⟩

theorem leafHashes_ne_nil (h : collapse pairHash s e x ≠ leaf none) : leafHashes (collapse pairHash s e x) ≠ [] := by
  intro hnil
  have hcount := (restoreHashes_leaves (collapse pairHash s e x).leaves).2
  change _ = (leafHashes (collapse pairHash s e x)).length at hcount
  rw [hnil, length_nil, count_eq_zero] at hcount
  refine h (collapse_eq_empty_of_leaves fun o ho => ?_)
  rw [← Option.not_isSome_iff_eq_none]
  intro hsome
  exact hcount (hsome ▸ mem_map_of_mem ho)

section
omit [ChainHash H]

theorem length_of_preorder (hp : t.preorder = p ++ [false, false]) : p.length = 2 * t.inner - 1 := by
  have hlen := length_preorder t
  rw [hp, length_append] at hlen
  simp only [length_cons, length_nil] at hlen
  omega

theorem inner_pos (ht : t = node l r) : 0 < t.inner := by
  rw [ht, SlotTree.inner]
  omega

end

/-- The bits of a written coding pass all checks that do not read the package variable. -/
theorem coherent_of_bits (ht : t = node l r) (hdepth : t.depth ≤ d)
    (hsize : 3 * t.inner ≤ maxCodingSize d) (hleaves : leafHashes t ≠ []) {coding : Bytes} (hcoding : coding ≠ [])
    (hp : t.preorder = p ++ [false, false])
    (hbits : ∀ j, (setBytes coding).testBit j = (p ++ t.leaves.map Option.isSome).getD j false) (beacon : Bool) :
    Coherent d (3 * t.inner) coding (leafHashes t) (treeHash t) beacon (t.number 0) := by
  have hk := inner_pos ht
  have hd : t.depth ≠ 0 := by
    rw [ht, depth]
    omega
  have hthird : 3 * t.inner / 3 = t.inner := by omega
  have hlen := length_preorder t
  have hplen := length_of_preorder hp
  have hreads : Reads (topologyBit (setBytes coding) t.inner) 0 t.preorder := by
    refine reads_of_getD (z := false) fun i hi => ?_
    rw [Nat.zero_add, topologyBit, hp]
    split
    · next hend =>
      obtain ⟨j, rfl⟩ : ∃ j, i = p.length + j := ⟨i - p.length, by omega⟩
      rw [getD_append_right _ _ _ _ (by omega), Nat.add_sub_cancel_left]
      obtain rfl | rfl : j = 0 ∨ j = 1 := by omega
      · rfl
      · rfl
    · next hin =>
      rw [hbits, getD_append _ _ _ _ (by omega), getD_append _ _ _ _ (by omega)]
  have htypes : nodeTypes (setBytes coding) t.inner = t.leaves.map Option.isSome := by
    rw [nodeTypes]
    refine ext_getElem (by simp [length_leaves]) fun i h1 h2 => ?_
    rw [getElem_map, getElem_range, hbits, getD_append_right _ _ _ _ (by omega), hplen,
      Nat.add_sub_cancel_left, getD_eq_getElem _ _ h2]
  have hones : (List.range (2 * t.inner - 1)).countP ((setBytes coding).testBit ·) = t.inner := by
    rw [← count_topology hk, ← hlen, ← hreads.eq_map, count_preorder]
  obtain ⟨hrestore, hcount⟩ := restoreHashes_leaves t.leaves
  refine ⟨by omega, hleaves, hcoding, by omega, by omega, hsize, ?_, ?_, ?_, ?_⟩ <;> rw [hthird]
  · rw [htypes]
    exact hcount
  · rw [← hlen, ← Nat.add_zero t.preorder.length, topologyLoop_tree t 0 hreads (Nat.le_refl 0), topologyLoop,
      decide_eq_true (by omega), Bool.true_and]
  · exact hones
  · refine ⟨_, _, readTree_preorder t hdepth hreads, _, by rw [htypes]; exact hrestore, fun _ => ⟨by simp, ?_⟩⟩
    exact root_number pairHash _ t (reads_getD _ _)

end

end

/-! ## What the miner's calls give -/

section
variable {s : Nat → Option H} {d : Nat} {nodes : Nat → Node H}

theorem fillHashes_eq (hpair : MagicFree H) (hs : ∀ x, s x ≠ some magicHash) (h : Shown s d nodes 1 2)
    (hat : AtHeight d e x) (ht : collapse pairHash s e x = node l r) :
    SparseMerkleTree.fillHashes nodes e x = some (leafHashes (collapse pairHash s e x)) := by
  induction e generalizing x l r with
  | zero => cases ht
  | succ e ih =>
    obtain ⟨hatl, hatr⟩ := hat.children
    obtain ⟨hx, -⟩ := hat.lt
    obtain ⟨hshows, hshown⟩ := h.done e x hat (by omega)
    have hne : collapse pairHash s (e + 1) x ≠ leaf none := by
      rw [ht]
      simp
    obtain ⟨hdatal, hdatar⟩ := hshown.filled hne
    have hchild : ∀ y, AtHeight d e y → Shows s nodes e y → (nodes y).data = some (treeHash (collapse pairHash s e y)) →
        SparseMerkleTree.childHashes (nodes y) (SparseMerkleTree.fillHashes nodes e y) =
          some (leafHashes (collapse pairHash s e y)) := by
      intro y haty hshowsy hdata
      rw [SparseMerkleTree.childHashes]
      cases hy : collapse pairHash s e y with
      | node l' r' =>
        rw [hshowsy.orange, hy, isNode, if_pos rfl, ih haty hy, hy]
      | leaf o =>
        rw [hshowsy.orange, hy, isNode, if_neg (by simp), Node.isMH, hdata]
        cases o with
        | none => simp [hy, treeHash, root, leafHashes, leaves]
        | some a =>
          have ha : a ≠ magicHash := by
            have := treeHash_ne hpair hs (show collapse pairHash s e y ≠ leaf none by simp [hy])
            rwa [hy] at this
          simp [hy, treeHash, root, leafHashes, leaves, ha]
    have horange : (nodes x).isOrange = true := by rw [hshows.orange, ht, isNode]
    obtain ⟨hl, hr⟩ := join_eq_node ht
    simp only [SparseMerkleTree.fillHashes, horange, if_true, hchild _ hatl hshown.left hdatal,
      hchild _ hatr hshown.right hdatar, Option.bind_eq_bind, Option.bind_some, Option.pure_def]
    rw [ht, hl, hr, leafHashes, leafHashes, leafHashes, leaves, reduceOption_append]

theorem Node.containsData_eq (n : Node H) : n.containsData = (n.data.filter (· ≠ magicHash)).isSome := by
  rcases hdata : n.data with _ | a
  · simp [Node.containsData, hdata]
  · by_cases ha : a = magicHash <;> simp [Node.containsData, hdata, ha, Option.filter_some]

theorem Shows.containsData (hs : ∀ x, s x ≠ some magicHash) (h : Shows s nodes 0 x) :
    (nodes x).containsData = (s x).isSome := by
  cases hx : s x with
  | none =>
    rcases h.empty (by rw [collapse, hx]) with hdata | hdata <;> simp [Node.containsData, hdata]
  | some a =>
    have hdata := h.full (by rw [collapse, hx]; simp)
    rw [collapse, hx] at hdata
    have ha : a ≠ magicHash := fun h => hs x (by rw [hx, h])
    simp [Node.containsData, hdata, treeHash, root, ha]

end

section
variable {t : SparseMerkleTree H}

def SparseMerkleTree.orangeTree (t : SparseMerkleTree H) : SlotTree (Option H) :=
  collapse pairHash t.slotHash t.height 1

theorem orangeTree_ne (ht : t.orangeTree = node l r) :
    collapse pairHash t.slotHash t.height 1 ≠ leaf none := fun h => nomatch ht.symm.trans h

theorem allOrNone_eq_false (ht : t.orangeTree = node l r) : t.allOrNone = false := by
  have hslot : ∀ i, (t.nodes (t.slotsCount + i)).containsData = (t.slotHash (1 * 2 ^ t.height + i)).isSome := by
    intro i
    rw [Node.containsData_eq, Nat.one_mul]
    rfl
  rw [SparseMerkleTree.allOrNone, Bool.or_eq_false_iff]
  constructor
  · by_contra hall
    rw [Bool.not_eq_false, all_eq_true] at hall
    have hempty : t.orangeTree = leaf none := by
      refine collapse_eq_empty.2 fun i hi => ?_
      have := hall i (mem_range.2 hi)
      rw [hslot] at this
      simpa using this
    rw [ht] at hempty
    cases hempty
  · by_contra hall
    rw [Bool.not_eq_false, all_eq_true] at hall
    obtain ⟨a, ha⟩ : ∃ a, t.orangeTree = leaf (some a) := by
      refine collapse_eq_full.2 fun i hi => ?_
      have := hall i (mem_range.2 hi)
      rw [hslot, Option.isSome_iff_ne_none] at this
      exact this
    rw [ht] at ha
    cases ha

section
variable (hpair : MagicFree H) (h : Fresh t) (vars : CodingVars) (ht : t.orangeTree = node l r)
  (hp : t.orangeTree.preorder = p ++ [false, false])
include hpair h vars ht hp

theorem catalanNumbersCoding_fresh : ∃ vars' coding,
      t.catalanNumbersCoding vars = (vars', .ok (t.calculate, coding, 3 * t.orangeTree.inner % 2 ^ 32)) ∧
      vars'.nodesTypesSet = writeBits 0 0 (t.orangeTree.leaves.map Option.isSome) ∧ coding ≠ [] ∧
      ∀ j, (setBytes coding).testBit j = (p ++ t.orangeTree.leaves.map Option.isSome).getD j false := by
  have hshown := SparseMerkleTree.shown_calculate (hpair.noMagicNode t.slotHash_ne) h
  have hroot := (root_fresh (hpair.noMagicNode t.slotHash_ne) h (orangeTree_ne ht)).1
  have hlen := length_preorder t.orangeTree
  have hmarked : addMark (shardMarks t.calculate.height fun x => (t.calculate.nodes x).containsData) t.calculate.height 1
      ⟨0, 0, 0, 0⟩ = some (written t.orangeTree ⟨0, 0, 0, 0⟩) := by
    rw [SparseMerkleTree.height_calculate]
    refine addMark_eq (atHeight_root _) (fun e x hat => shardMarks_eq (fun y hy => ?_) hat) _
    exact (hshown.slots y hy).containsData t.slotHash_ne
  have hbit : (written t.orangeTree ⟨0, 0, 0, 0⟩).topologySet ≠ 0 := by
    intro hzero
    have hfirst : (writeBits 0 0 t.orangeTree.preorder).testBit 0 = true := by
      rw [testBit_writeBits_zero, ht]
      rfl
    change writeBits 0 0 t.orangeTree.preorder = 0 at hzero
    rw [hzero] at hfirst
    simp at hfirst
  have hwritten : written t.orangeTree ⟨0, 0, 0, 0⟩ = ⟨writeBits 0 0 (p ++ [false, false]), 2 * t.orangeTree.inner + 1,
      writeBits 0 0 (t.orangeTree.leaves.map Option.isSome), t.orangeTree.inner + 1⟩ := by
    rw [written, ← hp, hlen, length_leaves, Nat.zero_add, Nat.zero_add]
  obtain ⟨hoffset, htypes, hcoding, hbits⟩ := packCoding_eq (inner_pos ht) (length_of_preorder hp)
    (show (t.orangeTree.leaves.map Option.isSome).length = _ by rw [length_map, length_leaves]) hwritten
  refine ⟨(packCoding (written t.orangeTree ⟨0, 0, 0, 0⟩)).1, _, ?_, htypes, hcoding, hbits⟩
  rw [SparseMerkleTree.catalanNumbersCoding, allOrNone_eq_false ht, if_neg (by simp), hroot]
  simp only [hmarked, if_neg hbit, hoffset]

theorem codeAndValidate_fresh (mmNumber : Nat) (beacon : Bool) : ∃ coding : Bytes,
      codeAndValidate vars t mmNumber beacon =
        validateOrangeTree (writeBits 0 0 (t.orangeTree.leaves.map Option.isSome)) t.height
          (3 * t.orangeTree.inner % 2 ^ 32) coding (leafHashes t.orangeTree) mmNumber (treeHash t.orangeTree) beacon ∧
      coding ≠ [] ∧ ∀ j, (setBytes coding).testBit j = (p ++ t.orangeTree.leaves.map Option.isSome).getD j false := by
  obtain ⟨vars', coding, hcat, htypes, hcoding, hbits⟩ := catalanNumbersCoding_fresh hpair h vars ht hp
  have hshown := SparseMerkleTree.shown_calculate (hpair.noMagicNode t.slotHash_ne) h
  obtain ⟨hroot, hagain⟩ := root_fresh (hpair.noMagicNode t.slotHash_ne) h (orangeTree_ne ht)
  have hhashes : t.calculate.marshalOrangeTreeLeafs = .ok (leafHashes t.orangeTree) := by
    rw [SparseMerkleTree.marshalOrangeTreeLeafs, SparseMerkleTree.height_calculate,
      fillHashes_eq hpair t.slotHash_ne hshown (atHeight_root _) ht]
    rfl
  refine ⟨coding, ?_, hcoding, hbits⟩
  simp only [codeAndValidate, hcat, bind, Except.bind, hhashes, hagain, hroot, htypes, SparseMerkleTree.height_calculate]
  rfl

end

end

/-! ## The merge-mining number -/

/-- The slots that the walk counts as empty right after a coding of a tree with filled slots at `positions`. -/
def emptyCounted (d : Nat) (positions : List Nat) : Nat :=
  if ∀ i < 2 ^ d, (i ∈ positions ↔ 2 ^ (d - 1) ≤ i) then 2 ^ (d - 1) else 2 ^ d

section
variable {t : SlotTree (Option H)}

section
omit [ChainHash H] [DecidableEq H]

theorem unmarked_large (hdepth : t.depth ≤ d) (hk : 2 ≤ t.inner) :
    unmarked (fun i => (writeBits 0 0 (t.leaves.map Option.isSome)).testBit (2 * t.inner - 1 + i)) d (t.number 0) =
      2 ^ d := by
  refine unmarked_of_none (fun i => ?_) (by rwa [depth_number])
  rw [testBit_writeBits_zero, getD_eq_default]
  rw [length_map, length_leaves]
  omega

theorem unmarked_small (a b : Option H) (hd : 0 < d) :
    unmarked (fun i => (writeBits 0 0 ((node (leaf a) (leaf b)).leaves.map Option.isSome)).testBit (2 * 1 - 1 + i)) d
      ((node (leaf a) (leaf b)).number 0) = if b.isSome then 2 ^ (d - 1) else 2 ^ d := by
  obtain ⟨d, rfl⟩ : ∃ d', d = d' + 1 := ⟨d - 1, by omega⟩
  simp only [number, leaves, unmarked, testBit_writeBits_zero, Nat.add_sub_cancel]
  cases b with
  | none =>
    simp [Nat.pow_succ]
    omega
  | some b => simp

theorem eq_leaf_of_inner {α : Type} {t : SlotTree α} (h : t.inner = 0) : ∃ a, t = leaf a := by
  cases t with
  | leaf a => exact ⟨a, rfl⟩
  | node l r =>
    rw [SlotTree.inner] at h
    omega

end

end

section
variable {t : SparseMerkleTree H} {positions : List Nat}
  (hpos : ∀ i < 2 ^ t.height, t.slotHash (2 ^ t.height + i) ≠ none ↔ i ∈ positions)
include hpos

theorem rightHalf_iff : (∀ i < 2 ^ t.height, (i ∈ positions ↔ 2 ^ (t.height - 1) ≤ i)) ↔
    ∃ b, t.orangeTree = node (leaf none) (leaf (some b)) := by
  obtain ⟨d, hd⟩ : ∃ d, t.height = d + 1 := ⟨t.height - 1, by have := t.height_pos; omega⟩
  have h2 : 2 ^ t.height = 2 * 2 ^ d := by
    rw [hd]
    ring
  have hleft : collapse pairHash t.slotHash d (2 * 1) = leaf none ↔ ∀ i < 2 ^ d, i ∉ positions := by
    rw [collapse_eq_empty]
    refine forall_congr' fun i => forall_congr' fun hi => ?_
    rw [show 2 * 1 * 2 ^ d + i = 2 ^ t.height + i by omega, ← hpos i (by omega), not_not]
  have hright : (∃ b, collapse pairHash t.slotHash d (2 * 1 + 1) = leaf (some b)) ↔ ∀ i < 2 ^ d, 2 ^ d + i ∈ positions := by
    rw [collapse_eq_full]
    refine forall_congr' fun i => forall_congr' fun hi => ?_
    rw [show (2 * 1 + 1) * 2 ^ d + i = 2 ^ t.height + (2 ^ d + i) by omega, hpos (2 ^ d + i) (by omega)]
  have htree : t.orangeTree = join pairHash (collapse pairHash t.slotHash d (2 * 1))
    (collapse pairHash t.slotHash d (2 * 1 + 1)) := by
    rw [SparseMerkleTree.orangeTree, hd, collapse]
  have hhalf : t.height - 1 = d := by omega
  rw [hhalf]
  constructor
  · intro h
    obtain ⟨b, hb⟩ := hright.2 fun i hi => (h (2 ^ d + i) (by omega)).2 (by omega)
    have hnone := hleft.2 fun i hi hin => absurd ((h i (by omega)).1 hin) (by omega)
    exact ⟨b, by rw [htree, hnone, hb]; rfl⟩
  · rintro ⟨b, hb⟩ i hi
    rw [htree] at hb
    obtain ⟨hl, hr⟩ := join_eq_node hb
    by_cases hlt : i < 2 ^ d
    · exact ⟨fun hin => absurd hin (hleft.1 hl i hlt), fun hge => absurd hge (by omega)⟩
    · refine ⟨fun _ => by omega, fun _ => ?_⟩
      have := hright.1 ⟨b, hr⟩ (i - 2 ^ d) (by omega)
      rwa [Nat.add_sub_cancel' (by omega)] at this

theorem unmarked_orangeTree (ht : t.orangeTree = node l r) :
    unmarked (fun i => (writeBits 0 0 (t.orangeTree.leaves.map Option.isSome)).testBit
      (2 * t.orangeTree.inner - 1 + i)) t.height (t.orangeTree.number 0) = emptyCounted t.height positions := by
  have hdepth : t.orangeTree.depth ≤ t.height := depth_collapse_le _ _
  have hk := inner_pos ht
  have hiff := rightHalf_iff hpos
  by_cases hlarge : 2 ≤ t.orangeTree.inner
  · rw [unmarked_large hdepth hlarge, emptyCounted, if_neg]
    rw [hiff]
    rintro ⟨b, hb⟩
    rw [hb, SlotTree.inner, SlotTree.inner, SlotTree.inner] at hlarge
    omega
  · have hone : t.orangeTree.inner = 1 := by omega
    have hsum : l.inner + r.inner + 1 = 1 := by
      rw [ht] at hone
      exact hone
    obtain ⟨a, rfl⟩ := eq_leaf_of_inner (show l.inner = 0 by omega)
    obtain ⟨b, rfl⟩ := eq_leaf_of_inner (show r.inner = 0 by omega)
    rw [hone, ht, unmarked_small a b t.height_pos, emptyCounted]
    cases b with
    | none =>
      rw [if_neg (by simp), if_neg]
      rw [hiff, ht]
      simp
    | some b =>
      -- a full right leaf stands beside an empty one
      obtain rfl : a = none := by
        obtain ⟨d, hd⟩ : ∃ d, t.height = d + 1 := ⟨t.height - 1, by have := t.height_pos; omega⟩
        rw [SparseMerkleTree.orangeTree, hd, collapse] at ht
        obtain ⟨hl, hr⟩ := join_eq_node ht
        rw [hl, hr] at ht
        cases a with
        | none => rfl
        | some a => cases ht
      rw [if_pos (hiff.2 ⟨b, ht⟩)]
      rfl

end

theorem maxCodingSize_ge (hd : d ≤ 15) : 3 * (2 ^ d - 1) ≤ maxCodingSize d := by
  have : ∀ d < 16, 3 * (2 ^ d - 1) ≤ maxCodingSize d := by decide
  exact this d (by omega)

theorem heightWithoutRoot_le_iff (hd : heightWithoutRoot n = some d) : d ≤ 15 ↔ n ≤ 2 ^ 15 := by
  obtain ⟨h1, hle, hclog⟩ := heightWithoutRoot_some hd
  constructor
  · intro h
    exact hle.trans (Nat.pow_le_pow_right (by decide) h)
  · intro hn
    by_cases h2 : 2 ≤ n
    · rw [← hclog h2]
      exact Nat.clog_le_of_le_pow hn
    · have hone : heightWithoutRoot n = some 1 := by
        have : ∀ n < 2, heightWithoutRoot n = some 1 := by decide
        exact this n (by omega)
      rw [hd, Option.some.injEq] at hone
      omega

omit [ChainHash H] [DecidableEq H] in
theorem foldl_held {i : Nat} (sets : List (Nat × H)) (a : H) :
    (i ∉ sets.map Prod.fst ∧ sets.foldl (fun a set => if set.1 = i then set.2 else a) a = a) ∨
      i ∈ sets.map Prod.fst ∧ ∃ set ∈ sets, sets.foldl (fun a set => if set.1 = i then set.2 else a) a = set.2 := by
  induction sets generalizing a with
  | nil => exact Or.inl ⟨by simp, rfl⟩
  | cons set sets ih =>
    rw [foldl_cons, map_cons, mem_cons]
    rcases ih (if set.1 = i then set.2 else a) with ⟨hnot, heq⟩ | ⟨hin, set', hset', heq⟩
    · by_cases hi : set.1 = i
      · exact Or.inr ⟨Or.inl hi.symm, set, mem_cons_self, by rw [heq, if_pos hi]⟩
      · refine Or.inl ⟨?_, by rw [heq, if_neg hi]⟩
        rintro (h | h)
        · exact hi h.symm
        · exact hnot h
    · exact Or.inr ⟨Or.inr hin, set', mem_cons_of_mem _ hset', heq⟩

omit [DecidableEq H] in
theorem held_ne_iff {sets : List (Nat × H)} (hsets : ∀ set ∈ sets, set.2 ≠ magicHash) (i : Nat) :
    held sets i ≠ magicHash ↔ i ∈ sets.map Prod.fst := by
  rcases foldl_held (i := i) sets magicHash with ⟨hnot, heq⟩ | ⟨hin, set, hset, heq⟩
  · exact ⟨fun h => absurd heq h, fun h => absurd h hnot⟩
  · refine ⟨fun _ => hin, fun _ => ?_⟩
    rw [held, heq]
    exact hsets set hset

theorem Coherent.validate_iff {coding : List UInt8} {root : H} {beacon : Bool}
    (h : Coherent d n coding hashes root beacon T) :
    validateOrangeTree G d n coding hashes mm root beacon = .ok () ↔
      2 ^ d ≤ (mm + unmarked (fun i => G.testBit (2 * (n / 3) - 1 + i)) d T) % 2 ^ 32 := by
  rw [validateOrangeTree_iff]
  refine ⟨?_, fun hsum => ⟨T, h, hsum⟩⟩
  rintro ⟨T', h', hsum⟩
  obtain ⟨pos, idx, hT, -⟩ := h.tree
  obtain ⟨pos', idx', hT', -⟩ := h'.tree
  rw [hT] at hT'
  cases hT'
  exact hsum

theorem le_mod_iff {a counted : Nat} (hcounted : counted ≤ a) (ha : a ≤ mm + counted) (hmax : mm < 2 ^ 32)
    (hsmall : a < 2 ^ 32) : a ≤ (mm + counted) % 2 ^ 32 ↔ mm + counted < 2 ^ 32 := by
  constructor
  · intro h
    by_contra hge
    have hle : mm + counted - 2 ^ 32 ≤ a := by omega
    omega
  · intro h
    rwa [Nat.mod_eq_of_lt h]

theorem le_add_emptyCounted {positions : List Nat} (hd : 0 < d)
    (hmm : positions.toFinset.card ≤ mm) : 2 ^ d ≤ mm + emptyCounted d positions := by
  obtain ⟨d, rfl⟩ : ∃ d', d = d' + 1 := ⟨d - 1, by omega⟩
  unfold emptyCounted
  split
  · next hhalf =>
    rw [Nat.add_sub_cancel, Nat.pow_succ] at hhalf ⊢
    have hsub : Finset.Ico (2 ^ d) (2 ^ d * 2) ⊆ positions.toFinset := by
      intro i hi
      rw [Finset.mem_Ico] at hi
      rw [mem_toFinset]
      exact (hhalf i hi.2).2 hi.1
    have hcard := Finset.card_le_card hsub
    rw [Nat.card_Ico] at hcard
    omega
  · exact Nat.le_add_left _ _

/-- For a fresh tree: what is coded is accepted if the tree is not too high and the sum does not overflow. -/
theorem codeAndValidate_fresh_iff (hpair : MagicFree H) {t : SparseMerkleTree H} (h : Fresh t) (vars : CodingVars)
    (ht : t.orangeTree = node l r) {positions : List Nat}
    (hpos : ∀ i < 2 ^ t.height, t.slotHash (2 ^ t.height + i) ≠ none ↔ i ∈ positions)
    (hmm : positions.toFinset.card ≤ mm) (hmax : mm < 2 ^ 32) (beacon : Bool) :
    codeAndValidate vars t mm beacon = .ok () ↔ t.height ≤ 15 ∧ mm + emptyCounted t.height positions < 2 ^ 32 := by
  obtain ⟨p, hp⟩ : ∃ p, t.orangeTree.preorder = p ++ [false, false] := by
    rw [ht]
    exact preorder_node l r
  obtain ⟨coding, hcode, hcoding, hbits⟩ := codeAndValidate_fresh hpair h vars ht hp mm beacon
  have hdepth : t.orangeTree.depth ≤ t.height := depth_collapse_le _ _
  have hinner := inner_lt hdepth
  rw [hcode]
  by_cases hle : t.height ≤ 15
  · have hpow : 2 ^ t.height ≤ 2 ^ 15 := Nat.pow_le_pow_right (by decide) hle
    have hsize := maxCodingSize_ge hle
    have hcoherent := coherent_of_bits ht hdepth (by omega) (leafHashes_ne_nil (orangeTree_ne ht)) hcoding hp hbits beacon
    have hempty := unmarked_orangeTree hpos ht
    have hcounted : emptyCounted t.height positions ≤ 2 ^ t.height := by
      rw [← hempty]
      exact unmarked_le (by rwa [depth_number])
    rw [Nat.mod_eq_of_lt (show 3 * t.orangeTree.inner < 2 ^ 32 by omega), hcoherent.validate_iff,
      Nat.mul_div_cancel_left _ (by decide), hempty,
      le_mod_iff hcounted (le_add_emptyCounted t.height_pos hmm) hmax (by omega), and_iff_right hle]
  · refine ⟨fun hok => ?_, fun hok => absurd hok.1 hle⟩
    obtain ⟨T, hcoherent, -⟩ := validateOrangeTree_iff.1 hok
    have hzero : maxCodingSize t.height = 0 := by
      rw [maxCodingSize, if_neg (by omega), if_neg hle]
    have hsize := hcoherent.size_le
    rw [hzero] at hsize
    exact absurd (Nat.le_zero.1 hsize) hcoherent.size_ne

/-- What is coded right before is accepted, for a set of slots that is neither empty nor all of them, exactly if
there are not more than `2^15` shards and the sum of the merge-mining number and the slots that are counted as empty
stays within 32 bits. -/
theorem codeAndValidate_iff (hpair : MagicFree H) {n d : Nat} (hd : heightWithoutRoot n = some d)
    {sets : List (Nat × H)} (hsets : ∀ set ∈ sets, set.1 < 2 ^ d ∧ set.2 ≠ magicHash) (hne : sets ≠ [])
    (hproper : ∃ i < 2 ^ d, i ∉ sets.map Prod.fst) {mmNumber : Nat}
    (hmm : (sets.map Prod.fst).toFinset.card ≤ mmNumber) (hmax : mmNumber < 2 ^ 32) (vars : CodingVars)
    (beacon : Bool) :
    (do let t ← filledTree n sets; codeAndValidate vars t mmNumber beacon) = .ok () ↔
      n ≤ 2 ^ 15 ∧ mmNumber + emptyCounted d (sets.map Prod.fst) < 2 ^ 32 := by
  obtain ⟨t, ht, hfresh, rfl, hslots⟩ := filledTree_ok hd fun set hset => (hsets set hset).1
  have hslot : ∀ i < 2 ^ t.height, t.slotHash (2 ^ t.height + i) ≠ none ↔ i ∈ sets.map Prod.fst := by
    intro i hi
    rw [← held_ne_iff (fun set hset => (hsets set hset).2), SparseMerkleTree.slotHash, hslots i hi, Option.filter_some]
    simp
  obtain ⟨l, r, htree⟩ : ∃ l r, t.orangeTree = node l r := by
    obtain ⟨j, hj, hjnot⟩ := hproper
    obtain ⟨set, hset⟩ := exists_mem_of_ne_nil sets hne
    cases htree : t.orangeTree with
    | node l r => exact ⟨l, r, rfl⟩
    | leaf o =>
      cases o with
      | none =>
        have hnone := collapse_eq_empty.1 htree set.1 (hsets set hset).1
        rw [Nat.one_mul] at hnone
        exact absurd hnone ((hslot set.1 (hsets set hset).1).2 (mem_map_of_mem hset))
      | some a =>
        have hsome := collapse_eq_full.1 ⟨a, htree⟩ j hj
        rw [Nat.one_mul] at hsome
        exact absurd ((hslot j hj).1 hsome) hjnot
  rw [ht, ← heightWithoutRoot_le_iff hd]
  exact codeAndValidate_fresh_iff hpair hfresh vars htree hslot hmm hmax beacon

section Sample

/-- Two slots, of which one is mined, and the largest merge-mining number: the sum is one. -/
theorem codeAndValidate_overflow : letI := unaryHash
    (do let t ← filledTree 2 [(0, 3)]; codeAndValidate ⟨0, 0, 0, 0⟩ t (2 ^ 32 - 1) false) ≠ Except.ok () := by
  let _ := unaryHash
  decide

theorem codeAndValidate_three : letI := unaryHash
    (do let t ← filledTree 3 [(1, 3), (2, 5)]; codeAndValidate ⟨0, 0, 0, 0⟩ t 2 false) = Except.ok () := by
  let _ := unaryHash
  exact (codeAndValidate_iff unaryHash_ideal.magic (show heightWithoutRoot 3 = some 2 by decide)
    (show ∀ set ∈ [(1, 3), (2, 5)], set.1 < 2 ^ 2 ∧ set.2 ≠ magicHash by decide) (by decide) (by decide) (by decide)
    (by decide) ⟨0, 0, 0, 0⟩ false).2 (by decide)

end Sample

end Jaxnetd.MergeMining
