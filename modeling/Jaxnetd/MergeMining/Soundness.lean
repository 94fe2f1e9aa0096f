import Jaxnetd.Lib.SlotTree
import Jaxnetd.MergeMining.Validate

/-!
# How many shards a beacon header can serve

A shard header is accepted when its exclusive hash has a Merkle path to the merge-mining root of its
beacon header. The orange tree codes the same root, so under an injective pair hash an accepted
shard's slot lies under a leaf whose own node-type bit is set (`slot_marked`). The number of such
slots below `Shards` bounds the accepted shards; the check of the source compares the merge-mining
number with a count taken from other bits, so nothing else bounds them (`sound_iff_markedSlots`).
-/

namespace Jaxnetd.Wire.BeaconHeader
open MergeMining SlotTree

variable {H : Type} (b : BeaconHeader H)

/-- The `k` of the coding: its length is three times it. -/
def codingK : Nat := b.treeCodingLengthBits / 3

def codingBits : Nat := setBytes b.treeEncoding

/-- The node-type bit of a leaf of the orange tree, by the header's own coding. -/
def marks (i : Nat) : Bool := b.codingBits.testBit (2 * b.codingK - 1 + i)

/-- The orange tree that the header codes, with its leaves numbered. -/
def tree (d : Nat) : Option (SlotTree Nat) :=
  (readTree (topologyBit b.codingBits b.codingK) d 0 0).map Prod.fst

/-- The slots below `Shards` that the header's own node-type bits mark as not empty. -/
def markedSlots : Finset Nat :=
  match heightWithoutRoot b.shards with
  | none => ∅
  | some d =>
    match b.tree d with
    | none => ∅
    | some T => (Finset.range b.shards).filter fun pos => b.marks (leafAt d T pos)

structure SameCoding (b b' : BeaconHeader H) : Prop where
  shards : b'.shards = b.shards
  mergeMiningNumber : b'.mergeMiningNumber = b.mergeMiningNumber
  treeEncoding : b'.treeEncoding = b.treeEncoding
  treeCodingLengthBits : b'.treeCodingLengthBits = b.treeCodingLengthBits

namespace SameCoding
variable {b b' : BeaconHeader H} (h : b.SameCoding b')
include h

theorem markedSlots : b'.markedSlots = b.markedSlots := by
  obtain ⟨h1, -, h3, h4⟩ := h
  cases b; cases b'
  subst h1 h3 h4
  rfl

theorem orangeTreeEmpty : b'.orangeTreeEmpty = b.orangeTreeEmpty := by
  rw [BeaconHeader.orangeTreeEmpty, BeaconHeader.orangeTreeEmpty, h.shards, h.mergeMiningNumber]

end SameCoding

end Jaxnetd.Wire.BeaconHeader

namespace Jaxnetd.MergeMining
open ChainHash Checks SlotTree List Option Wire

variable {H : Type} {d : Nat}

variable {n : Nat} {b : BeaconHeader H} {t : SlotTree Nat × Nat × Nat}

theorem alignSlots_some {fuel e : Nat} (h : alignSlots n fuel e = some d) :
    n ≤ 2 ^ d ∧ e ≤ d ∧ (e < d → 2 ^ (d - 1) < n) := by
  induction fuel generalizing e with
  | zero => cases h
  | succ fuel ih =>
    rw [alignSlots] at h
    split at h
    · cases h; exact ⟨by assumption, Nat.le_refl _, fun h => absurd h (Nat.lt_irrefl _)⟩
    · rename_i hlt
      obtain ⟨h1, h2, h3⟩ := ih h
      refine ⟨h1, by omega, fun _ => ?_⟩
      rcases Nat.eq_or_lt_of_le h2 with rfl | h4
      · rw [Nat.add_sub_cancel]; omega
      · exact h3 h4

theorem heightWithoutRoot_some (h : heightWithoutRoot n = some d) : 1 ≤ d ∧ n ≤ 2 ^ d ∧ (2 ≤ n → Nat.clog 2 n = d) := by
  obtain ⟨h1, h2, h3⟩ := alignSlots_some h
  refine ⟨h2, h1, fun hn => ?_⟩
  apply Nat.le_antisymm (Nat.clog_le_of_le_pow h1)
  by_contra hlt
  have hle : n ≤ 2 ^ (d - 1) := Nat.le_trans (Nat.le_pow_clog (by omega) n) (Nat.pow_le_pow_right (by omega) (by omega))
  rcases Nat.eq_or_lt_of_le h2 with rfl | h4
  · simp at hle; omega
  · exact absurd (h3 h4) (by omega)

theorem markedSlots_eq (hd : heightWithoutRoot b.shards = some d)
    (ht : readTree (topologyBit b.codingBits b.codingK) d 0 0 = some t) :
    b.markedSlots = (Finset.range b.shards).filter fun pos => b.marks (leafAt d t.1 pos) := by
  simp [BeaconHeader.markedSlots, hd, BeaconHeader.tree, ht]

theorem markedSlots_lt {pos : Nat} (h : pos ∈ b.markedSlots) : pos < b.shards := by
  unfold BeaconHeader.markedSlots at h
  split at h
  · cases h
  · split at h
    · cases h
    · exact Finset.mem_range.1 (Finset.mem_filter.1 h).1

variable [ChainHash H] {hashes : List H}

theorem calculateRoot_eq_some {bit : Nat → Bool} {e pos idx : Nat} {h : H} {pos' idx' : Nat} :
    calculateRoot bit hashes e pos idx = some (h, pos', idx') ↔
      ∃ T, readTree bit e pos idx = some (T, pos', idx') ∧ idx' ≤ hashes.length ∧
        T.root pairHash (fun i => hashes.getD i magicHash) = h := by
  have hleaf (pos idx pos' idx' : Nat) (h : H) : hashes[idx]?.map (·, pos + 1, idx + 1) = some (h, pos', idx') ↔
      ∃ T, some (leaf idx, pos + 1, idx + 1) = some (T, pos', idx') ∧ idx' ≤ hashes.length ∧
        T.root pairHash (fun i => hashes.getD i magicHash) = h := by
    constructor
    · intro hm
      obtain ⟨x, hx, he⟩ := map_eq_some_iff.1 hm
      cases he
      refine ⟨leaf idx, rfl, (List.getElem?_eq_some_iff.1 hx).1, ?_⟩
      rw [root, getD_eq_getElem?_getD, hx]; rfl
    · rintro ⟨T, he, hle, rfl⟩
      cases he
      have hlt : idx < hashes.length := hle
      rw [root, getD_eq_getElem?_getD, getElem?_eq_getElem hlt]; rfl
  induction e generalizing pos idx h pos' idx' with
  | zero =>
    rw [calculateRoot, readTree]
    cases hb : bit pos with
    | true => simp
    | false => simpa using hleaf pos idx pos' idx' h
  | succ e ih =>
    cases hb : bit pos with
    | false =>
      rw [calculateRoot, readTree, hb]
      simpa using hleaf pos idx pos' idx' h
    | true =>
      rw [calculateRoot, if_pos hb]
      simp only [Option.bind_eq_bind, Option.bind_eq_some_iff, Prod.exists, Option.pure_def, Option.some.injEq,
        Prod.mk.injEq]
      constructor
      · rintro ⟨h1, p1, i1, hl, h2, p2, i2, hr, rfl, rfl, rfl⟩
        obtain ⟨l, hl', -, rfl⟩ := ih.1 hl
        obtain ⟨r, hr', hri, rfl⟩ := ih.1 hr
        refine ⟨node l r, ?_, hri, rfl⟩
        rw [readTree, if_pos hb, hl']
        simp [hr']
      · rintro ⟨T, hT, hi, rfl⟩
        obtain ⟨l, p1, i1, r, hl, hr, ht⟩ := readTree_succ_node hb hT
        simp only at hr ht
        have hle : i1 ≤ idx' := by have := readTree_idx hr; simp only at this; omega
        exact ⟨_, p1, i1, ih.2 ⟨l, hl, Nat.le_trans hle hi, rfl⟩, _, pos', idx', ih.2 ⟨r, hr, hi, rfl⟩,
          by rw [ht]; rfl, rfl, rfl⟩

theorem restoreHashes_getElem {types : List Bool} {restored : List H}
    (h : restoreHashes types hashes = some restored) (i : Nat) (ht : types[i]? = some false) :
    restored[i]? = some magicHash := by
  induction types generalizing hashes restored i with
  | nil => simp at ht
  | cons t types ih =>
    cases t with
    | false =>
      obtain ⟨rest, hr, rfl⟩ := map_eq_some_iff.1 h
      cases i with
      | zero => rfl
      | succ i => exact ih hr i (by simpa using ht)
    | true =>
      cases hashes with
      | nil => cases h
      | cons x hashes =>
        obtain ⟨rest, hr, rfl⟩ := map_eq_some_iff.1 h
        cases i with
        | zero => simp at ht
        | succ i => exact ih hr i (by simpa using ht)

theorem restoreHashes_length {types : List Bool} {restored : List H}
    (h : restoreHashes types hashes = some restored) : restored.length = types.length := by
  induction types generalizing hashes restored with
  | nil => cases h; rfl
  | cons t types ih =>
    cases t with
    | false =>
      obtain ⟨rest, hr, rfl⟩ := map_eq_some_iff.1 h
      simp [ih hr]
    | true =>
      cases hashes with
      | nil => cases h
      | cons x hashes =>
        obtain ⟨rest, hr, rfl⟩ := map_eq_some_iff.1 h
        simp [ih hr]

theorem proofRoot_eq_pathRoot (position : Nat) (path : List H) (x : H) :
    proofRoot position path x = pathRoot pairHash position path x := by
  induction path generalizing position x with
  | nil => rfl
  | cons q path ih => rw [proofRoot, ih, pathRoot]

variable [DecidableEq H] {s G : Nat} {b : BeaconHeader H}

theorem validateOrangeTree_ok {G mm : Nat} {coding : List UInt8} {root : H} :
    validateOrangeTree G d n coding hashes mm root false = .ok () ↔
      n ≠ 0 ∧ (hashes ≠ [] ∧ coding ≠ []) ∧ n % 3 = 0 ∧ d ≠ 0 ∧ n ≤ maxCodingSize d ∧
      (nodeTypes (setBytes coding) (n / 3)).count true = hashes.length ∧
      topologyLoop (topologyBit (setBytes coding) (n / 3)) (2 * (n / 3)) (2 * (n / 3) + 1) 0 0 0 = true ∧
      (List.range (2 * (n / 3) - 1)).countP ((setBytes coding).testBit ·) = n / 3 ∧
      ∃ w, traverseOrangeTreeNode (topologyBit (setBytes coding) (n / 3)) G d ⟨0, 2 * (n / 3) - 1, 0⟩ = .ok w ∧
        2 ^ d ≤ (mm + w.emptyMMTleafCount) % 2 ^ 32 ∧
      ∃ restored, restoreHashes (nodeTypes (setBytes coding) (n / 3)) hashes = some restored ∧
        ∃ pos idx, calculateRoot (topologyBit (setBytes coding) (n / 3)) restored d 0 0 = some (root, pos, idx) := by
  simp [validateOrangeTree]

theorem validateMergeMiningData_ok {G actual : Nat} {sh : ShardHeader H} :
    validateMergeMiningData G actual s sh = .ok () ↔ -1 ≤ (actual : Int) - sh.beaconHeader.shards ∧
      sh.beaconHeader.mergeMiningNumber ≤ sh.beaconHeader.shards ∧
      ∃ d, heightWithoutRoot sh.beaconHeader.shards = some d ∧ (sh.beaconHeader.orangeTreeEmpty = false →
          validateOrangeTree G d sh.beaconHeader.treeCodingLengthBits sh.beaconHeader.treeEncoding
            sh.beaconHeader.mergeMiningProof sh.beaconHeader.mergeMiningNumber sh.beaconHeader.mergeMiningRoot false =
              .ok ()) ∧
        sh.beaconHeader.shards ≠ 0 ∧ sh.shardMerkleProof.length = Nat.clog 2 sh.beaconHeader.shards ∧
        proofRoot (s - 1) sh.shardMerkleProof sh.exclusiveHash = sh.beaconHeader.mergeMiningRoot := by
  simp only [validateMergeMiningData, validateMergeMiningTree, validateShardMerkleProofPath]
  cases he : sh.beaconHeader.orangeTreeEmpty <;> simp [and_assoc]

/-- The pair hash is injective, and neither the magic hash nor an exclusive hash is the hash of a pair. -/
structure PairIdeal (H : Type) [ChainHash H] : Prop where
  inj : ∀ a b c d : H, pairHash a b = pairHash c d → a = c ∧ b = d
  magic : ∀ a b : H, pairHash a b ≠ magicHash
  exclusive : ∀ (sh : ShardHeader H) (a b : H), pairHash a b ≠ sh.exclusiveHash

/-- Some shard header over `b`, with an exclusive hash other than the magic one, is accepted for the shard. -/
def Accepted (nodesTypesSet : Nat) (b : BeaconHeader H) (shardID : Nat) : Prop :=
  ∃ actualShardsCount, ∃ sh : ShardHeader H, sh.beaconHeader = b ∧ sh.exclusiveHash ≠ magicHash ∧
    validateMergeMiningData nodesTypesSet actualShardsCount shardID sh = .ok ()

def Sound (nodesTypesSet : Nat) (b : BeaconHeader H) : Prop :=
  ∀ S : Finset Nat, (∀ s ∈ S, 1 ≤ s ∧ s ≤ b.shards ∧ Accepted nodesTypesSet b s) → S.card ≤ b.mergeMiningNumber

/-- What acceptance says about a header with an orange tree: the coded tree has the merge-mining root, and
the leaves that the header does not mark hold the magic hash. -/
theorem validateOrangeTree_tree (h : validateOrangeTree G d b.treeCodingLengthBits b.treeEncoding
      b.mergeMiningProof b.mergeMiningNumber b.mergeMiningRoot false = .ok ()) :
    ∃ t : SlotTree Nat × Nat × Nat, readTree (topologyBit b.codingBits b.codingK) d 0 0 = some t ∧ t.2.2 ≤ b.codingK + 1 ∧
      ∃ f : Nat → H, t.1.root pairHash f = b.mergeMiningRoot ∧ ∀ i, b.marks i = false → f i = magicHash := by
  obtain ⟨-, -, -, -, -, -, -, -, w, -, -, restored, hres, pos, idx, hroot⟩ := validateOrangeTree_ok.1 h
  obtain ⟨T, hT, hidx, hT'⟩ := calculateRoot_eq_some.1 hroot
  have hlen : restored.length = b.codingK + 1 := by rw [restoreHashes_length hres, nodeTypes, length_map, length_range]; rfl
  refine ⟨(T, pos, idx), hT, by rw [← hlen]; exact hidx, _, hT', fun i hi => ?_⟩
  rw [getD_eq_getElem?_getD]
  rcases Nat.lt_or_ge i (b.codingK + 1) with hlt | hge
  · rw [restoreHashes_getElem hres i]
    · rfl
    · have hlt : i < b.treeCodingLengthBits / 3 + 1 := hlt
      rw [nodeTypes, getElem?_map, getElem?_range hlt]
      exact congrArg some hi
  · rw [getElem?_eq_none (by omega)]; rfl

/-- With a single shard the Merkle proof is empty, and the root of an orange tree is a pair. -/
theorem two_le_shards (hp : PairIdeal H) (hne : b.orangeTreeEmpty = false) (h : Accepted G b s) : 2 ≤ b.shards := by
  obtain ⟨actual, sh, rfl, -, hv⟩ := h
  obtain ⟨-, -, d, hd, ho, h0, hlen, hroot⟩ := validateMergeMiningData_ok.1 hv
  by_contra hlt
  have h1 : sh.beaconHeader.shards = 1 := by omega
  rw [h1] at hd hlen
  obtain rfl : d = 1 := by
    have : heightWithoutRoot 1 = some 1 := by decide
    rw [this] at hd; exact (some.inj hd).symm
  obtain ⟨hn, -, h3, -, hmax, -, -, hcount, w, -, -, restored, -, pos, idx, hcalc⟩ := validateOrangeTree_ok.1 (ho hne)
  have hn3 : sh.beaconHeader.treeCodingLengthBits = 3 := by
    have : maxCodingSize 1 = 3 := by decide
    omega
  rw [hn3] at hcount hcalc
  have hbit : (setBytes sh.beaconHeader.treeEncoding).testBit 0 = true := by
    have : List.range (2 * (3 / 3) - 1) = [0] := by decide
    simpa [this] using hcount
  have htop : topologyBit (setBytes sh.beaconHeader.treeEncoding) (3 / 3) 0 = true := by simp [topologyBit, hbit]
  rw [calculateRoot, if_pos htop] at hcalc
  simp only [Option.bind_eq_bind, Option.bind_eq_some_iff, Prod.exists, Option.pure_def, Option.some.injEq,
    Prod.mk.injEq] at hcalc
  obtain ⟨a, -, -, -, c, -, -, -, hpair, -, -⟩ := hcalc
  have hnil : sh.shardMerkleProof = [] := eq_nil_of_length_eq_zero (by rw [hlen]; simp)
  rw [hnil, proofRoot] at hroot
  exact hp.exclusive sh a c (hpair.trans hroot.symm)

theorem slot_marked (hp : PairIdeal H) (hne : b.orangeTreeEmpty = false) (h1 : 1 ≤ s) (hs : s ≤ b.shards)
    (h : Accepted G b s) : s - 1 ∈ b.markedSlots := by
  have h2 := two_le_shards hp hne h
  obtain ⟨actual, sh, rfl, hmagic, hv⟩ := h
  obtain ⟨-, -, d, hd, ho, -, hlen, hroot⟩ := validateMergeMiningData_ok.1 hv
  obtain ⟨t, ht, -, f, hf, hempty⟩ := validateOrangeTree_tree (ho hne)
  rw [(heightWithoutRoot_some hd).2.2 h2] at hlen
  rw [markedSlots_eq hd ht]
  refine Finset.mem_filter.2 ⟨Finset.mem_range.2 (by omega), ?_⟩
  rw [proofRoot_eq_pathRoot, ← hf] at hroot
  refine leafAt_of_pathRoot hp.inj (P := fun i => sh.beaconHeader.marks i = true) (fun i hi => ?_) t.1
    (depth_readTree ht) hlen hroot
  rw [hempty i (by simpa using hi)]
  exact ⟨hmagic.symm, hp.magic⟩

theorem sound_of_markedSlots (hp : PairIdeal H)
    (h : b.orangeTreeEmpty = true ∨ b.markedSlots.card ≤ b.mergeMiningNumber) : Sound G b := by
  intro S hS
  cases hne : b.orangeTreeEmpty with
  | true =>
    have hmm : b.mergeMiningNumber = b.shards := (of_decide_eq_true hne).2
    calc S.card ≤ (Finset.Icc 1 b.shards).card :=
          Finset.card_le_card fun s hs => Finset.mem_Icc.2 ⟨(hS s hs).1, (hS s hs).2.1⟩
      _ = b.mergeMiningNumber := by rw [Nat.card_Icc, hmm]; omega
  | false =>
    have hle := h.resolve_left (by simp [hne])
    refine Nat.le_trans (Finset.card_le_card_of_injOn (· - 1) (fun s hs => ?_) fun s hs s' hs' he => ?_) hle
    · obtain ⟨h1, h2, h3⟩ := hS s hs
      exact slot_marked hp hne h1 h2 h3
    · have h1 := (hS s hs).1
      have h2 := (hS s' hs').1
      simp only at he
      omega

def select : List Bool → List H → List H
  | true :: types, v :: vals => v :: select types vals
  | false :: types, _ :: vals => select types vals
  | _, _ => []

omit [DecidableEq H] in
theorem restoreHashes_select (types : List Bool) (vals : List H) (h : vals.length = types.length) :
    restoreHashes types (select types vals) = some (List.zipWith (fun t v => if t then v else magicHash) types vals) ∧
      types.count true = (select types vals).length := by
  induction types generalizing vals with
  | nil => exact ⟨by simp [restoreHashes], by simp [select]⟩
  | cons t types ih =>
    cases vals with
    | nil => simp at h
    | cons v vals =>
      obtain ⟨h1, h2⟩ := ih vals (by simpa using h)
      cases t with
      | false => exact ⟨by simp [restoreHashes, select, h1], by simp [select, h2]⟩
      | true => exact ⟨by simp [restoreHashes, select, h1], by simp [select, h2]⟩

def filling (b : BeaconHeader H) (x : H) (e i : Nat) : H := if b.marks i then full pairHash x e else magicHash

/-- The header with every marked leaf of its orange tree filled with `x`. -/
def filled (b : BeaconHeader H) (d : Nat) (T : SlotTree Nat) (x : H) : BeaconHeader H :=
  { b with
    mergeMiningRoot := T.rootAt pairHash (filling b x) d
    mergeMiningProof := select (nodeTypes b.codingBits b.codingK)
      ((List.range (b.codingK + 1)).map fun i => full pairHash x ((heights d T).getD i 0)) }

theorem validateOrangeTree_filled (x : H) (ht : readTree (topologyBit b.codingBits b.codingK) d 0 0 = some t)
    (h : validateOrangeTree G d b.treeCodingLengthBits b.treeEncoding b.mergeMiningProof b.mergeMiningNumber
      b.mergeMiningRoot false = .ok ()) :
    validateOrangeTree G d b.treeCodingLengthBits b.treeEncoding (filled b d t.1 x).mergeMiningProof
      b.mergeMiningNumber (filled b d t.1 x).mergeMiningRoot false = .ok () := by
  obtain ⟨hn, ⟨hnil, hcod⟩, h3, hd0, hmax, hcount, hloop, hones, w, hw, hcheck, -⟩ := validateOrangeTree_ok.1 h
  obtain ⟨t', ht', hidx, -⟩ := validateOrangeTree_tree h
  obtain rfl : t = t' := some.inj (ht.symm.trans ht')
  have htypes : (nodeTypes b.codingBits b.codingK).length = b.codingK + 1 := by simp [nodeTypes]
  obtain ⟨hsel, hselc⟩ := restoreHashes_select (nodeTypes b.codingBits b.codingK)
    ((List.range (b.codingK + 1)).map fun i => full pairHash x ((heights d t.1).getD i 0)) (by simp [htypes])
  have hnil' : (filled b d t.1 x).mergeMiningProof ≠ [] := by
    apply ne_nil_of_length_pos
    show 0 < (select _ _).length
    rw [← hselc]
    show 0 < (nodeTypes (setBytes b.treeEncoding) (b.treeCodingLengthBits / 3)).count true
    rw [hcount]
    exact length_pos_iff.2 hnil
  refine validateOrangeTree_ok.2 ⟨hn, ⟨hnil', hcod⟩, h3, hd0, hmax, hselc, hloop, hones, w, hw, hcheck, _, hsel, t.2.1,
    t.2.2, calculateRoot_eq_some.2 ⟨t.1, ht, ?_, ?_⟩⟩
  · rw [length_zipWith, htypes, length_map, length_range, Nat.min_self]; exact hidx
  · refine root_eq_rootAt pairHash (filling b x) ht fun i hi => ?_
    have hi' : i < b.codingK + 1 := by
      have hidx' : t.2.2 = 0 + (heights d t.1).length := readTree_idx ht
      omega
    have hg : (nodeTypes b.codingBits b.codingK)[i]? = some (b.marks i) := by
      rw [nodeTypes, getElem?_map, getElem?_range hi']; rfl
    rw [Nat.zero_add, getD_eq_getElem?_getD, getElem?_zipWith, hg, getElem?_map, getElem?_range hi']
    rfl

/-- Any marked slot can be served: with one exclusive hash in every marked leaf, a header with the same coding is accepted
for all. -/
theorem exists_accepting (hp : PairIdeal H) (hne : b.orangeTreeEmpty = false) (h : Accepted G b s) :
    ∃ b' : BeaconHeader H, b.SameCoding b' ∧ ∀ pos ∈ b.markedSlots, Accepted G b' (pos + 1) := by
  have h2 := two_le_shards hp hne h
  obtain ⟨actual, sh, rfl, hmagic, hv⟩ := h
  obtain ⟨hact, hmm, d, hd, ho, h0, -, -⟩ := validateMergeMiningData_ok.1 hv
  obtain ⟨t, ht, -⟩ := validateOrangeTree_tree (ho hne)
  have hfilled := validateOrangeTree_filled sh.exclusiveHash ht (ho hne)
  refine ⟨filled sh.beaconHeader d t.1 sh.exclusiveHash, ⟨rfl, rfl, rfl, rfl⟩, fun pos hpos => ?_⟩
  rw [markedSlots_eq hd ht, Finset.mem_filter] at hpos
  obtain ⟨path, hlen, hpath⟩ := exists_path pairHash sh.exclusiveHash (filling sh.beaconHeader sh.exclusiveHash) t.1
    (depth_readTree ht) (fun e' => by rw [filling, if_pos hpos.2])
  refine ⟨actual, { sh with
    shardMerkleProof := path, beaconHeader := filled sh.beaconHeader d t.1 sh.exclusiveHash }, rfl, hmagic,
    validateMergeMiningData_ok.2 ⟨hact, hmm, d, hd, fun _ => hfilled, h0, ?_, ?_⟩⟩
  · rw [hlen]; exact ((heightWithoutRoot_some hd).2.2 h2).symm
  · rw [proofRoot_eq_pathRoot, Nat.add_sub_cancel]; exact hpath

/-- For a header that is accepted at all: the number of accepted shards stays within the merge-mining
number, whatever the hashes are, exactly when the orange tree is left out or the header's own bits mark
no more slots than that. -/
theorem sound_iff_markedSlots (hp : PairIdeal H) (nodesTypesSet : Nat) (b : BeaconHeader H)
    (hacc : ∃ s, Accepted nodesTypesSet b s) :
    (∀ b' : BeaconHeader H, b.SameCoding b' → Sound nodesTypesSet b') ↔
      b.orangeTreeEmpty = true ∨ b.markedSlots.card ≤ b.mergeMiningNumber := by
  obtain ⟨s, hs⟩ := hacc
  constructor
  · intro hall
    cases hne : b.orangeTreeEmpty with
    | true => exact .inl rfl
    | false =>
      right
      obtain ⟨b', hb', hserve⟩ := exists_accepting hp hne hs
      have hcard := hall b' hb' (b.markedSlots.map ⟨(· + 1), Nat.succ_injective⟩) fun s hs => by
        obtain ⟨pos, hpos, rfl⟩ := Finset.mem_map.1 hs
        refine ⟨Nat.succ_pos pos, ?_, hserve pos hpos⟩
        rw [hb'.shards]
        exact markedSlots_lt hpos
      rwa [Finset.card_map, hb'.mergeMiningNumber] at hcard
  · intro h b' hb'
    apply sound_of_markedSlots hp
    rwa [hb'.orangeTreeEmpty, hb'.markedSlots, hb'.mergeMiningNumber]

section Sample

def splitUnary : Nat → List UInt8 → List Nat
  | _, [] => []
  | acc, c :: rest => if c = 1 then splitUnary (acc + 1) rest else acc :: splitUnary 0 rest

/-- A hash for which the pair hash is ideal: hashes are numbers, written in unary, the digest of two
numbers is an even code of the pair and every other digest is odd. -/
@[reducible] def unaryHash : ChainHash Nat where
  zeroHash := 0
  bytes n := List.replicate n 1 ++ [0]
  hashH data :=
    match splitUnary 0 data with
    | [a, b] => 2 * Nat.pair a b + 2
    | l => 2 * l.sum + 1

theorem splitUnary_bytes (acc n : Nat) (rest : List UInt8) :
    splitUnary acc (List.replicate n 1 ++ 0 :: rest) = (acc + n) :: splitUnary 0 rest := by
  induction n generalizing acc with
  | zero => rfl
  | succ n ih =>
    rw [replicate_succ, cons_append, splitUnary, if_pos rfl, ih]
    congr 1; omega

theorem pairHash_unary (a b : Nat) : @pairHash Nat unaryHash a b = 2 * Nat.pair a b + 2 := by
  let _ := unaryHash
  have : splitUnary 0 (bytes a ++ bytes b) = [a, b] := by
    show splitUnary 0 ((List.replicate a 1 ++ [0]) ++ (List.replicate b 1 ++ [0])) = _
    rw [append_assoc, singleton_append, splitUnary_bytes, splitUnary_bytes]
    simp [splitUnary]
  show (match splitUnary 0 (bytes a ++ bytes b) with | [a, b] => _ | l => _) = _
  rw [this]

theorem unaryHash_ideal : @PairIdeal Nat unaryHash := by
  let _ := unaryHash
  have hodd (b : List UInt8) : (doubleHashH b : Nat) % 2 = 1 := by
    have : splitUnary 0 (bytes (hashH b : Nat)) = [hashH b] := by
      show splitUnary 0 (List.replicate _ 1 ++ [0]) = _
      rw [splitUnary_bytes]
      simp [splitUnary]
    show (match splitUnary 0 (bytes (hashH b : Nat)) with | [a, b] => _ | l => _) % 2 = 1
    rw [this]
    show (2 * _ + 1) % 2 = 1
    omega
  refine ⟨fun a b c d h => ?_, fun a b h => ?_, fun sh a b h => ?_⟩
  · rw [pairHash_unary, pairHash_unary] at h
    exact Nat.pair_eq_pair.1 (by omega)
  · rw [pairHash_unary] at h
    change _ = 0 at h
    omega
  · have := hodd (intBytes 4 sh.height ++ (bytes sh.prevMMRRoot ++ (bytes sh.prevBlock ++ (bytes sh.merkleRoot ++
      leBytes 4 sh.bits))))
    rw [pairHash_unary, ShardHeader.exclusiveHash] at h
    omega

def twoShards : BeaconHeader Nat :=
  { @BeaconHeader.zero Nat unaryHash with
    shards := 2
    mergeMiningNumber := 1
    mergeMiningRoot := 106
    mergeMiningProof := [3, 7]
    treeEncoding := [7]
    treeCodingLengthBits := 3 }

def shardOne : ShardHeader Nat := ⟨0, 0, 0, 0, 0, 0, [7], twoShards, ⟨⟨0, [], [], 0⟩, []⟩⟩

def shardTwo : ShardHeader Nat := { shardOne with merkleRoot := 1, shardMerkleProof := [3] }

/-- Both shards are accepted, one more than the reward is divided by. -/
theorem mergeMining_two_of_one : letI := unaryHash
    PairIdeal Nat ∧ validateMergeMiningData 0 2 1 shardOne = .ok () ∧ validateMergeMiningData 0 2 2 shardTwo = .ok () ∧
      ¬ Sound 0 twoShards := by
  let _ := unaryHash
  have h1 : validateMergeMiningData 0 2 1 shardOne = .ok () := by decide
  have h2 : validateMergeMiningData 0 2 2 shardTwo = .ok () := by decide
  refine ⟨unaryHash_ideal, h1, h2, fun hsound => ?_⟩
  have hcard := hsound {1, 2} fun s hs => by
    rcases Finset.mem_insert.1 hs with rfl | hs
    · exact ⟨by decide, by decide, 2, shardOne, rfl, by decide, h1⟩
    · rw [Finset.mem_singleton.1 hs]
      exact ⟨by decide, by decide, 2, shardTwo, rfl, by decide, h2⟩
  revert hcard
  decide

theorem sound_iff_markedSlots_two : letI := unaryHash
    ¬ ∀ b' : BeaconHeader Nat, twoShards.SameCoding b' → Sound 0 b' := by
  let _ := unaryHash
  rw [sound_iff_markedSlots unaryHash_ideal 0 twoShards ⟨1, 2, shardOne, rfl, by decide, by decide⟩]
  decide

end Sample

end Jaxnetd.MergeMining
