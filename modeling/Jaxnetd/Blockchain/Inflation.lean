import Jaxnetd.Blockchain.Compact
import Jaxnetd.Blockchain.Expansion
import Jaxnetd.Lib.Median
import Jaxnetd.Lib.Rounding

/-!
# The range of the coefficient K

Every block of the beacon chain votes for a K close to its own (`validateVoteK`, `chaindata/validate.go`), and the K of an
epoch is the median of the votes two epochs before. Unpacking and packing keeps the number of a vote, so the median is one
of the votes, and neither the few blocks at the start of the chain, whose votes are not checked, nor the roundings of the
check take it far from the K voted on.
-/

namespace Jaxnetd.Blockchain
open Wire Checks Chaindata BinFloat List BigFloat Nat

/-! ## Packed votes -/

theorem kPrecision_prec : 1001 ≤ kPrecision.prec := by decide +kernel

theorem kPrecision_val : kPrecision.val = pow2 1000 := by
  show ((2 ^ 1000 : Int) : Rat) = pow2 (1000 : Nat)
  rw [pow2_natCast, Int.cast_pow, Int.cast_ofNat]

theorem k1_val : k1.val = pow2 (-60) := by decide +kernel

theorem lt_two_pow_bitLen (n : Int) : |n| < 2 ^ bitLen n := by
  unfold bitLen
  split_ifs with h
  · simp [h]
  · rw [Int.abs_eq_natAbs]
    exact_mod_cast lt_log2_self

theorem unpackK_val (k : Nat) : (unpackK k).val = compactToBig k * pow2 (-1000) := by
  show (rounded _ ((compactToBig k : Rat) / kPrecision.val)).val = _
  rw [kPrecision_val, div_pow2]
  refine rounded_exact ((lt_two_pow_bitLen _).trans_le ?_) _
  exact pow_le_pow_right₀ (by decide) ((le_max_left _ _).trans (le_max_left _ _))

theorem packK_eq {x : BigFloat} {n : Int} (hx : x.val = n * pow2 (-1000)) (hn : |n| < 2 ^ 1001) :
    packK x = bigToCompact n := by
  have hmul : x.val * kPrecision.val = n * pow2 0 := by
    rw [hx, kPrecision_val, mul_assoc, ← pow2_add]
    rfl
  have hval : (x.mul kPrecision).val = n := by
    show (rounded _ (x.val * kPrecision.val)).val = n
    rw [hmul, rounded_exact (hn.trans_le (pow_le_pow_right₀ (by decide) ?_))]
    · simp [pow2]
    · exact kPrecision_prec.trans (le_max_right _ _)
  rw [packK, kValFloatToInt, int, hval]
  simp

theorem log2_le_of_le_pow {n e : Nat} (hne : n ≠ 0) (h : n ≤ 2 ^ e) : n.log2 ≤ e :=
  Nat.lt_succ_iff.1 ((Nat.log2_lt hne).2 (h.trans_lt (Nat.pow_lt_pow_right Nat.one_lt_two e.lt_succ_self)))

theorem unpackK_packK {k : Nat} (hpos : 0 < (unpackK k).val) (hle : (unpackK k).val ≤ k1.val) :
    (unpackK (packK (unpackK k))).val = (unpackK k).val := by
  have hval := unpackK_val k
  rw [hval] at hpos hle
  have hn : 0 < compactToBig k := by exact_mod_cast (mul_pos_iff_of_pos_right (pow2_pos _)).1 hpos
  have hbound : compactToBig k ≤ 2 ^ 940 := by
    rw [k1_val, show (-60 : Int) = (940 : Nat) + (-1000) by rfl, pow2_add, pow2_natCast] at hle
    refine Int.cast_le.1 ((le_of_mul_le_mul_right hle (pow2_pos _)).trans_eq ?_)
    rw [Int.cast_pow, Int.cast_ofNat]
  obtain ⟨mantissa, e, hm, -, hform⟩ := compactToBig_form k
  obtain ⟨n, hnat⟩ := Int.eq_ofNat_of_zero_le hn.le
  rw [hnat] at hn hbound
  rw [hnat, Int.natAbs_natCast] at hform
  have hsmall : |compactToBig k| < 2 ^ 1001 := by
    rw [hnat, abs_cast]
    exact hbound.trans_lt (pow_lt_pow_right₀ (by decide) (by decide))
  have hne : n ≠ 0 := by omega
  have hfits := (log2_le_of_le_pow hne (by exact_mod_cast hbound)).trans_lt (by decide : 940 < 2039)
  rw [packK_eq hval hsmall, hnat, unpackK_val, unpack_pack hne hfits, (leadingBytes_of_form hform hm hne).1, hval, hnat]

/-! ## The check of a vote -/

/-- The verb `%v` of the two kinds of floats. -/
structure FloatTexts where
  big : BigFloat → String
  float : Float64 → String

/-- The verb `%0x` of a number. -/
def hexDigits (n : Nat) : String := String.ofList (toDigits 16 n)

def thousandths (x y : BigFloat) : Float64 := ((Float64.ofRat (x.quo y).val).scale 1000).round

/-- `validateVoteK`. The coefficient of the block is never negative. -/
def validateVoteK (texts : FloatTexts) (prevK newVoteK : Nat) : Except String Unit := do
  let unpackedNewVoteK := unpackK newVoteK
  -- a vote of zero passes the first check
  failIf (unpackedNewVoteK.val < 0 ∨ k1.val < unpackedNewVoteK.val)
    ("voteK is out of bounds 0 < (" ++ texts.big unpackedNewVoteK ++ ") <= 2^-60")
  let unpackedPrevK := unpackK prevK
  if unpackedPrevK.val < unpackedNewVoteK.val then
    let delta := thousandths unpackedPrevK unpackedNewVoteK
    failIf (delta.toInt64 < 990) ("voteK is out of bounds (" ++ hexDigits newVoteK ++ ") <= 1.01*K; prev K(" ++
      hexDigits prevK ++ "), delta(" ++ texts.float delta ++ ") ")
  else if unpackedNewVoteK.val < unpackedPrevK.val then
    let delta := thousandths unpackedNewVoteK unpackedPrevK
    failIf (delta.toInt64 < 970) ("voteK is out of bounds 0.97*K <= (" ++ hexDigits newVoteK ++ "); prev K(" ++
      hexDigits prevK ++ "), delta(" ++ texts.float delta ++ ") ")
  else .ok ()

/-- The rounded thousandths of a quotient up to one are off by little more than a half. -/
theorem thousandths_bounds {x y : BigFloat} (hprec : 64 ≤ x.prec) (hx : 0 ≤ x.val / y.val) (hle : x.val / y.val ≤ 1) :
    |((thousandths x y).toInt64 : Rat) - 1000 * (x.val / y.val)| ≤ 51 / 100 := by
  obtain ⟨h0, h1, h12, h64, h52, h41⟩ : pow2 0 = 1 ∧ pow2 1 = 2 ∧ pow2 12 = 4096 ∧ pow2 (-64) ≤ 1 / 2 ^ 52 ∧
      pow2 (-52) = 1 / 2 ^ 52 ∧ pow2 (-41) = 1 / 2 ^ 41 := by decide +kernel
  have hquo : |(x.quo y).val - x.val / y.val| ≤ 1 / 2 ^ 52 := by
    have habs : |x.val / y.val| ≤ pow2 0 := by rwa [h0, abs_of_nonneg hx]
    refine ((abs_rounded_sub_le habs).trans (pow2_le_pow2 ?_)).trans h64
    omega
  rw [abs_le] at hquo
  have hq : |(x.quo y).val| ≤ pow2 1 := by
    rw [h1, abs_le]
    constructor <;> linarith
  have hfirst := abs_round64_sub_le hq (by decide)
  rw [show (1 : Int) - 53 = -52 by rfl, h52, abs_le] at hfirst
  have hd : |round64 (x.quo y).val * (1000 : Nat)| ≤ pow2 12 := by
    rw [h12, abs_le]
    push_cast
    constructor <;> linarith
  have hsecond := abs_round64_sub_le hd (by decide)
  rw [show (12 : Int) - 53 = -41 by rfl, h41, abs_le] at hsecond
  rw [thousandths, ofRat_eq hq (by decide) (by decide), Float64.scale, ofRat_eq hd (by decide) (by decide), Float64.round]
  generalize hs : round64 (round64 (x.quo y).val * (1000 : Nat)) = s at hsecond
  have hthird := abs_le.1 (abs_roundAway_sub_le s)
  have hint : (Float64.finite (roundAway s : Rat)).toInt64 = roundAway s := by
    have hrange : (-2 : Rat) ≤ roundAway s ∧ (roundAway s : Rat) ≤ 1002 := by constructor <;> linarith
    have hlow : -2 ≤ roundAway s := by exact_mod_cast hrange.1
    have hhigh : roundAway s ≤ 1002 := by exact_mod_cast hrange.2
    simp only [Float64.toInt64, Rat.num_intCast, Rat.den_intCast, cast_one, Int.tdiv_one]
    rw [if_pos (by omega)]
  rw [hint, abs_le]
  constructor <;> linarith

/-- How far a vote, and a median of votes, can be from the coefficient voted on. -/
def CloseTo (k v : Rat) : Prop := 969 / 1000 * k ≤ v ∧ v ≤ 1012 / 1000 * k ∧ v ≤ k1.val

instance (k v : Rat) : Decidable (CloseTo k v) := by unfold CloseTo; infer_instance

theorem unpackK_prec (k : Nat) : 64 ≤ (unpackK k).prec :=
  (le_max_right (bitLen (compactToBig k)) 64).trans (le_max_left _ _)

theorem validateVoteK_ok {texts : FloatTexts} {prevK newVoteK : Nat} (hpos : 0 < (unpackK prevK).val)
    (h : validateVoteK texts prevK newVoteK = .ok ()) : CloseTo (unpackK prevK).val (unpackK newVoteK).val := by
  simp only [validateVoteK, ok_rules, not_or, not_lt] at h
  obtain ⟨⟨hnonneg, hk1⟩, h⟩ := h
  split_ifs at h with hmore hless
  · -- a higher vote: the quotient is at least 989 thousandths
    have hvote := hpos.trans hmore
    rw [failIf_eq_ok, not_lt] at h
    have hint : (990 : Rat) ≤ (thousandths (unpackK prevK) (unpackK newVoteK)).toInt64 := by exact_mod_cast h
    have hbounds := abs_le.1 (thousandths_bounds (unpackK_prec prevK) (div_nonneg hpos.le hvote.le)
      ((div_le_one hvote).2 hmore.le))
    have hquo : 989 / 1000 ≤ (unpackK prevK).val / (unpackK newVoteK).val := by linarith
    rw [le_div_iff₀ hvote] at hquo
    exact ⟨by linarith, by linarith, hk1⟩
  · rw [failIf_eq_ok, not_lt] at h
    have hint : (970 : Rat) ≤ (thousandths (unpackK newVoteK) (unpackK prevK)).toInt64 := by exact_mod_cast h
    have hbounds := abs_le.1 (thousandths_bounds (unpackK_prec newVoteK) (div_nonneg hnonneg hpos.le)
      ((div_le_one hpos).2 hless.le))
    have hquo : 969 / 1000 ≤ (unpackK newVoteK).val / (unpackK prevK).val := by linarith
    rw [le_div_iff₀ hpos] at hquo
    exact ⟨hquo, by linarith, hk1⟩
  · exact ⟨by linarith, by linarith, hk1⟩

/-! ## The median of the votes -/

theorem calcMedianVoteK_eq (nodes : List KNode) : calcMedianVoteK nodes = packK (Median.median val ⟨0, 0⟩
    ((nodes.drop (nodes.length - kBeaconEpochLen)).reverse.map fun node => unpackK node.voteK)) := by
  rw [calcMedianVoteK, ← take_reverse, length_mergeSort]
  rfl

/-- Five votes of an epoch cannot take the median away from the others. -/
theorem calcMedianVoteK_close {nodes : List KNode} {k : Rat} (hpos : 0 < k) (hlen : kBeaconEpochLen ≤ nodes.length)
    (hvotes : ∀ node ∈ nodes.drop (nodes.length - kBeaconEpochLen + 5), CloseTo k (unpackK node.voteK).val) :
    CloseTo k (unpackK (calcMedianVoteK nodes)).val := by
  rw [calcMedianVoteK_eq]
  obtain ⟨epoch, hepoch⟩ : ∃ epoch, epoch = nodes.drop (nodes.length - kBeaconEpochLen) := ⟨_, rfl⟩
  have hlength : epoch.length = 4096 := by
    rw [hepoch, length_drop]
    unfold kBeaconEpochLen at *
    omega
  rw [← drop_drop, ← hepoch] at hvotes
  rw [← hepoch]
  have hbad : epoch.countP (fun node => ¬CloseTo k (unpackK node.voteK).val) ≤ 5 := by
    have hdrop : (epoch.drop 5).countP (fun node => ¬CloseTo k (unpackK node.voteK).val) = 0 :=
      countP_eq_zero.2 fun node hnode => by simpa using hvotes node hnode
    rw [← take_append_drop 5 epoch, countP_append, hdrop]
    exact countP_le_length.trans (length_take_le _ _)
  obtain ⟨votes, hdef⟩ : ∃ votes, votes = epoch.reverse.map fun node => unpackK node.voteK := ⟨_, rfl⟩
  have hhalf : 2 * votes.countP (fun vote => ¬CloseTo k vote.val) < votes.length := by
    rw [hdef, countP_map, countP_reverse, length_map, length_reverse, hlength]
    exact (mul_le_mul_left 2 hbad).trans_lt (by decide)
  rw [← hdef]
  obtain ⟨low, high, hlow, hhigh, hle, hge⟩ := Median.median_between val ⟨0, 0⟩ hhalf
  have hclose : CloseTo k (Median.median val ⟨0, 0⟩ votes).val :=
    ⟨hlow.1.trans hle, hge.trans hhigh.2.1, hge.trans hhigh.2.2⟩
  -- the median is one of the votes, so packing does not change it
  have hmem := Median.median_mem val ⟨0, 0⟩ (l := votes) (by
    rintro rfl
    simp at hhalf)
  rw [hdef, mem_map] at hmem
  obtain ⟨node, -, hnode⟩ := hmem
  rw [← hdef] at hnode
  rw [← hnode] at hclose ⊢
  rwa [unpackK_packK (by linarith [hclose.1]) hclose.2.2]

/-! ## K along a chain of votes -/

namespace BeaconChain
variable {c : BeaconChain} {texts : FloatTexts} {i j e : Nat}

def Voted (texts : FloatTexts) (c : BeaconChain) : Prop :=
  ∀ (i : Nat) (node : KNode), c.nodes[i]? = some node → 5 ≤ i → validateVoteK texts node.k node.voteK = .ok ()

def kVal (c : BeaconChain) (i : Nat) : Rat := (unpackK (c.kAt i)).val

theorem kVal_early (hi : i ≤ c.height) (h : beaconEpoch i ≤ 2) : c.kVal i = k1.val := by
  rw [kVal, kAt_early hi h]
  decide +kernel

theorem kVal_start (hi : i ≤ c.height) : c.kVal i = c.kVal (i / kBeaconEpochLen * kBeaconEpochLen) := by
  have hsame : SameK (i / kBeaconEpochLen * kBeaconEpochLen) i := by
    left
    unfold beaconEpoch kBeaconEpochLen
    omega
  rw [kVal, kVal, kAt_eq hsame (div_mul_le_self i _) hi]

theorem kAt_median (hle : (e + 2) * kBeaconEpochLen ≤ c.height) :
    c.kAt ((e + 2) * kBeaconEpochLen) = calcMedianVoteK (c.nodes.take ((e + 1) * kBeaconEpochLen)) := by
  have hlen : (c.nodes.take ((e + 2) * kBeaconEpochLen)).length = (e + 2) * kBeaconEpochLen := by
    rw [length_take]
    unfold height at hle
    omega
  have hne : c.nodes.take ((e + 2) * kBeaconEpochLen) ≠ [] := by
    rw [ne_eq, ← length_eq_zero_iff, hlen]
    unfold kBeaconEpochLen
    omega
  have hepoch : ¬beaconEpoch ((e + 2) * kBeaconEpochLen) ≤ 2 := by
    unfold beaconEpoch kBeaconEpochLen
    omega
  rw [kAt_expected hle, calcNextK, getLast?_eq_some_getLast hne]
  simp only [hlen]
  have hbefore : min ((e + 2) * kBeaconEpochLen - kBeaconEpochLen) ((e + 2) * kBeaconEpochLen) =
    (e + 1) * kBeaconEpochLen := by
    unfold kBeaconEpochLen
    omega
  rw [if_neg hepoch, if_neg (by rw [mul_mod_left, not_not]), take_take, hbefore]

theorem kVal_epoch (hv : c.Voted texts) (hle : (e + 2) * kBeaconEpochLen ≤ c.height)
    (hpos : 0 < c.kVal (e * kBeaconEpochLen)) :
    CloseTo (c.kVal (e * kBeaconEpochLen)) (c.kVal ((e + 2) * kBeaconEpochLen)) := by
  have hlen : (c.nodes.take ((e + 1) * kBeaconEpochLen)).length = (e + 1) * kBeaconEpochLen := by
    rw [length_take]
    unfold height kBeaconEpochLen at *
    omega
  show CloseTo _ (unpackK (c.kAt ((e + 2) * kBeaconEpochLen))).val
  rw [kAt_median hle]
  refine calcMedianVoteK_close hpos (by rw [hlen]; unfold kBeaconEpochLen; omega) fun node hnode => ?_
  rw [hlen] at hnode
  obtain ⟨m, hm⟩ := mem_iff_getElem?.1 hnode
  rw [getElem?_drop] at hm
  obtain ⟨i, hi⟩ : ∃ i, i = (e + 1) * kBeaconEpochLen - kBeaconEpochLen + 5 + m := ⟨_, rfl⟩
  rw [← hi] at hm
  have hlt := (List.getElem?_eq_some_iff.1 hm).1
  rw [hlen] at hlt
  rw [getElem?_take_of_lt hlt] at hm
  -- the vote was checked against the K of its block, which is that of the epoch
  have hheight : i ≤ c.height := by
    unfold kBeaconEpochLen at *
    omega
  have hk : (unpackK node.k).val = c.kVal (e * kBeaconEpochLen) := by
    have hstart : i / kBeaconEpochLen * kBeaconEpochLen = e * kBeaconEpochLen := by
      unfold kBeaconEpochLen at *
      omega
    rw [← hstart, ← kVal_start hheight, kVal, kAt, getD_eq_getElem?_getD, hm]
    rfl
  rw [← hk] at hpos ⊢
  exact validateVoteK_ok hpos (hv i node hm (by omega))

theorem kVal_range (hv : c.Voted texts) (hi : i ≤ c.height) : 0 < c.kVal i ∧ c.kVal i ≤ k1.val := by
  rw [kVal_start hi]
  have hle : i / kBeaconEpochLen * kBeaconEpochLen ≤ c.height := (div_mul_le_self i _).trans hi
  generalize i / kBeaconEpochLen = e at hle
  -- from the epoch before the last one, whose votes decide
  induction e using Nat.strong_induction_on with
  | _ e ih =>
    rcases Nat.lt_or_ge e 2 with hearly | hlate
    · rw [kVal_early hle (by unfold beaconEpoch kBeaconEpochLen; omega)]
      exact ⟨by rw [k1_val]; exact pow2_pos _, le_rfl⟩
    · obtain ⟨e, rfl⟩ : ∃ e', e = e' + 2 := ⟨e - 2, by omega⟩
      have hpos := (ih e (by omega) ((Nat.mul_le_mul_right _ (by omega)).trans hle)).1
      obtain ⟨hlow, -, hk1⟩ := kVal_epoch hv hle hpos
      exact ⟨by linarith, hk1⟩

theorem kVal_close (hv : c.Voted texts) (hj : j ≤ c.height) (h : beaconEpoch j = beaconEpoch i + 2) :
    CloseTo (c.kVal i) (c.kVal j) := by
  have hepoch : j / kBeaconEpochLen = i / kBeaconEpochLen + 2 := by
    unfold beaconEpoch at h
    omega
  have hi : i ≤ c.height := by
    unfold kBeaconEpochLen at *
    omega
  have hstart := (div_mul_le_self j kBeaconEpochLen).trans hj
  rw [kVal_start hi, kVal_start hj, hepoch] at *
  exact kVal_epoch hv hstart (kVal_range hv ((div_mul_le_self i _).trans hi)).1

end BeaconChain

/-! ## Accepted chains -/

section
variable {H : Type}

def kNode (n : NodeData H) : KNode := ⟨n.header.k, n.header.voteK, n.header.shards⟩

def BlockNode.line (node : BlockNode H) : List (NodeData H) := (node.toNodeData :: node.ancestors).reverse

theorem BlockNode.line_child (node : BlockNode H) (n : NodeData H) : (node.child n).line = node.line ++ [n] := reverse_cons

/-- A chain with `calcNextK` and `ValidateVoteK` of the beacon chain. -/
def votingChain (texts : FloatTexts) (b : BlockChain H) : BlockChain H :=
  { b with
    calcNextK := fun node => calcNextK (node.line.map kNode)
    validateVoteK := fun header => validateVoteK texts header.k header.voteK }

structure VotesOn (texts : FloatTexts) (before : List (NodeData H)) (n : NodeData H) : Prop where
  height : n.header.height = before.length
  expected : n.header.k = calcNextK (before.map kNode)
  vote : 5 ≤ before.length → validateVoteK texts n.header.k n.header.voteK = .ok ()

def VotedLine (texts : FloatTexts) (nodes : List (NodeData H)) : Prop :=
  ∀ (i : Nat) (n : NodeData H), nodes[i]? = some n → VotesOn texts (nodes.take i) n

variable {texts : FloatTexts} {line : List (NodeData H)} {b : BlockChain H} {n : NodeData H}

theorem VotedLine.concat (h : VotedLine texts line) (hn : VotesOn texts line n) : VotedLine texts (line ++ [n]) := by
  intro i m hm
  have hi : i < line.length + 1 := by simpa using (List.getElem?_eq_some_iff.1 hm).1
  rcases lt_or_ge i line.length with hlt | hge
  · rw [getElem?_append_left hlt] at hm
    rw [take_append_of_le_length hlt.le]
    exact h i m hm
  · obtain rfl : i = line.length := by omega
    rw [getElem?_concat_length] at hm
    cases hm
    rwa [take_left']
    rfl

theorem votesOn_of_checkBlockHeaderContext [DecidableEq H] {prev : BlockNode H} (hb : b.isBeacon)
    (hprev : prev.height + 1 = prev.line.length)
    (h : (votingChain texts b).checkBlockHeaderContext n.header prev false = .ok ()) :
    VotesOn texts prev.line n := by
  have hb' : (votingChain texts b).isBeacon = true := hb
  simp only [BlockChain.checkBlockHeaderContext, BlockChain.checkHeaderRules, ok_rules, hb', if_true] at h
  obtain ⟨hheight, -, -, hrules, -⟩ := h
  obtain ⟨-, -, -, -, -, -, hk, hvote⟩ := hrules (by simp)
  refine ⟨hheight.trans hprev, hk.symm, fun hlong => ?_⟩
  rw [if_pos (by omega), mapError_eq_ok] at hvote
  exact hvote

theorem votedLine_of_acceptHeaders [DecidableEq H] (hb : b.isBeacon) {prev tip : BlockNode H} {ns : List (NodeData H)}
    (hprev : prev.height + 1 = prev.line.length) (hline : VotedLine texts prev.line)
    (h : (votingChain texts b).acceptHeaders prev ns = .ok tip) : VotedLine texts (prev.line ++ ns) := by
  induction ns generalizing prev with
  | nil => rwa [append_nil]
  | cons n ns ih =>
    simp only [BlockChain.acceptHeaders, ok_rules] at h
    have hn := votesOn_of_checkBlockHeaderContext hb hprev h.1
    have hlength : (prev.child n).height + 1 = (prev.child n).line.length := by
      rw [BlockNode.line_child, length_append]
      exact congrArg (· + 1) hn.height
    have hrest := ih hlength (by rw [BlockNode.line_child]; exact hline.concat hn) h.2
    rwa [BlockNode.line_child, append_assoc] at hrest

def VotedLine.chain (h : VotedLine texts line) (hne : line ≠ []) : BeaconChain where
  nodes := line.map kNode
  nonempty := by simpa using hne
  expected i node hnode := by
    rw [getElem?_map, Option.map_eq_some_iff] at hnode
    obtain ⟨n, hn, rfl⟩ := hnode
    rw [← map_take]
    exact (h i n hn).expected

theorem VotedLine.voted (h : VotedLine texts line) (hne : line ≠ []) : (h.chain hne).Voted texts := by
  intro i node hnode hi
  have hnode' : (line.map kNode)[i]? = some node := hnode
  rw [getElem?_map, Option.map_eq_some_iff] at hnode'
  obtain ⟨n, hn, rfl⟩ := hnode'
  have hlt := (List.getElem?_eq_some_iff.1 hn).1
  exact (h i n hn).vote (by rw [length_take]; omega)

theorem VotedLine.kVal_eq (h : VotedLine texts line) (hne : line ≠ []) (hn : n ∈ line) :
    n.header.height.toNat ≤ (h.chain hne).height ∧ (h.chain hne).kVal n.header.height.toNat = (unpackK n.header.k).val := by
  obtain ⟨i, hi⟩ := mem_iff_getElem?.1 hn
  have hlt := (List.getElem?_eq_some_iff.1 hi).1
  have hheight : n.header.height.toNat = i := by
    rw [(h i n hi).height, length_take]
    omega
  have hnode : (h.chain hne).nodes[i]? = some (kNode n) := by
    show (line.map kNode)[i]? = _
    rw [getElem?_map, hi]
    rfl
  refine ⟨?_, ?_⟩
  · show _ ≤ (line.map kNode).length - 1
    rw [length_map]
    omega
  · rw [hheight, BeaconChain.kVal, BeaconChain.kAt, getD_eq_getElem?_getD, hnode]
    rfl

/-- In a chain of blocks none of which is excused from the rules, K is positive and at most `K1`, and the K of an epoch is
close to that of the epoch before the last. -/
theorem k_in_range [DecidableEq H] (texts : FloatTexts) (hb : b.isBeacon) {genesis tip : BlockNode H}
    {blocks : List (NodeData H)} (hroot : genesis.ancestors = []) (hheight : genesis.height = 0)
    (hk : genesis.header.k = packK k1) (h : (votingChain texts b).acceptHeaders genesis blocks = .ok tip) :
    (∀ n ∈ genesis.toNodeData :: blocks, 0 < (unpackK n.header.k).val ∧ (unpackK n.header.k).val ≤ 1 / 2 ^ 60) ∧
    ∀ n ∈ genesis.toNodeData :: blocks, ∀ n' ∈ genesis.toNodeData :: blocks,
      beaconEpoch n'.header.height.toNat = beaconEpoch n.header.height.toNat + 2 →
        969 / 1000 * (unpackK n.header.k).val ≤ (unpackK n'.header.k).val ∧
        (unpackK n'.header.k).val ≤ 1012 / 1000 * (unpackK n.header.k).val := by
  have hline : genesis.line = [genesis.toNodeData] := by
    rw [BlockNode.line, hroot]
    rfl
  have hfirst : VotedLine texts genesis.line := by
    rw [hline]
    have hempty : VotedLine texts ([] : List (NodeData H)) := fun _ _ hn => nomatch hn
    exact hempty.concat ⟨hheight, hk, fun hlong => nomatch hlong⟩
  have hvoted := votedLine_of_acceptHeaders hb (by rw [hheight, hline]; rfl) hfirst h
  rw [hline] at hvoted
  have hne : [genesis.toNodeData] ++ blocks ≠ [] := cons_ne_nil _ _
  have hv := hvoted.voted hne
  refine ⟨fun n hn => ?_, fun n hn n' hn' hepoch => ?_⟩
  · obtain ⟨hle, hval⟩ := hvoted.kVal_eq hne hn
    obtain ⟨hpos, hk1⟩ := BeaconChain.kVal_range hv hle
    rw [← hval]
    exact ⟨hpos, hk1.trans_eq (by decide +kernel)⟩
  · obtain ⟨-, hval⟩ := hvoted.kVal_eq hne hn
    obtain ⟨hle', hval'⟩ := hvoted.kVal_eq hne hn'
    rw [← hval, ← hval']
    obtain ⟨hlow, hhigh, -⟩ := BeaconChain.kVal_close hv hle' hepoch
    exact ⟨hlow, hhigh⟩

end

section Sample

def noTexts : FloatTexts := ⟨fun _ => "", fun _ => ""⟩

def kBlock (height k voteK : Nat) : NodeData Nat :=
  ⟨⟨1, height, 0, 0, 0, 1600000000 + height, 0, k, voteK, 0, height, 0⟩, 0, 0⟩

def kGenesis : BlockNode Nat := ⟨kBlock 0 firstK firstK, []⟩

/-- A block that is added fast has any K. -/
theorem fastAdd_zero_k : (toyChain Nat).isBeacon ∧ kGenesis.ancestors = [] ∧ kGenesis.height = 0 ∧
    kGenesis.header.k = packK k1 ∧
    (votingChain noTexts (toyChain Nat)).checkBlockHeaderContext (kBlock 1 0 firstK).header kGenesis true = .ok () ∧
    (unpackK (kBlock 1 0 firstK).header.k).val = 0 :=
  ⟨rfl, rfl, rfl, packK_k1.symm, by decide +kernel, by decide +kernel⟩

/-- Blocks may come at any time here. -/
def epochChain : BlockChain Nat := { toyChain Nat with fastTestNet := true }

def epochBlock (node : KNode) (height : Nat) : NodeData Nat :=
  ⟨⟨legacyBlockVersion + expansionMadeBit, height, 0, 0, 0, 1600000000, 0, node.k, node.voteK, node.shards, height, 0⟩, 0, 0⟩

def epochBlocks (nodes : List KNode) (height : Nat) : List (NodeData Nat) :=
  (nodes.zipIdx height).map fun p => epochBlock p.1 p.2

section
variable {prev : BlockNode Nat} {node : KNode}

theorem checkHeaderRules_epochBlock (hone : node.shards = 1) (hvote : validateVoteK noTexts node.k node.voteK = .ok ())
    (hshards : prev.header.shards ≤ 1) (hk : calcNextK (prev.line.map kNode) = node.k) (height : Nat) :
    (votingChain noTexts epochChain).checkHeaderRules (epochBlock node height).header prev = .ok () := by
  have hbeacon : (votingChain noTexts epochChain).isBeacon = true := rfl
  have hmade : expansionMade (epochBlock node height).header.version = true := rfl
  have hdelta : ((epochBlock node height).header.shards : Int) = 1 := by exact_mod_cast hone
  simp only [BlockChain.checkHeaderRules, ok_rules, hbeacon, hmade, if_true]
  refine ⟨0, rfl, fun h => ?_, fun h => h.2 rfl, fun h => h.2 trivial, fun h => by omega, hk, ?_⟩
  · rcases h with h | h
    · exact h.2 rfl
    · exact h.1 trivial
  · split
    · exact mapError_eq_ok.2 hvote
    · rfl

theorem checkBlockHeaderContext_epochBlock (hheight : prev.height + 1 = prev.line.length)
    (hweight : prev.workSum = 0 ∧ prev.powWeight = 0 ∧ prev.header.chainWeight = 0)
    (hrules : (votingChain noTexts epochChain).checkHeaderRules (epochBlock node prev.line.length).header prev = .ok ()) :
    (votingChain noTexts epochChain).checkBlockHeaderContext (epochBlock node prev.line.length).header prev false =
      .ok () := by
  simp only [BlockChain.checkBlockHeaderContext, ok_rules]
  refine ⟨hheight.symm, hweight.1.symm, ?_, fun _ => hrules, rfl, none, rfl, rfl⟩
  rw [hweight.2.1, hweight.2.2]
  rfl

end

/-- Headers with the K and the votes of a beacon chain are accepted. -/
theorem acceptHeaders_epochBlocks (c : BeaconChain) (prev : BlockNode Nat) (rest : List KNode)
    (hsplit : prev.line.map kNode ++ rest = c.nodes)
    (hvotes : ∀ node ∈ rest, node.shards = 1 ∧ validateVoteK noTexts node.k node.voteK = .ok ())
    (hheight : prev.height + 1 = prev.line.length) (hshards : prev.header.shards ≤ 1)
    (hweight : prev.workSum = 0 ∧ prev.powWeight = 0 ∧ prev.header.chainWeight = 0) :
    ∃ tip, (votingChain noTexts epochChain).acceptHeaders prev (epochBlocks rest prev.line.length) = .ok tip := by
  induction rest generalizing prev with
  | nil => exact ⟨prev, rfl⟩
  | cons node rest ih =>
    rw [forall_mem_cons] at hvotes
    obtain ⟨⟨hone, hvote⟩, hvotes⟩ := hvotes
    have hk : calcNextK (prev.line.map kNode) = node.k := by
      have hnode : c.nodes[(prev.line.map kNode).length]? = some node := by
        rw [← hsplit, getElem?_append_right le_rfl, Nat.sub_self]
        rfl
      rw [c.expected _ _ hnode, ← hsplit, take_left']
      rfl
    have hcheck := checkBlockHeaderContext_epochBlock hheight hweight
      (checkHeaderRules_epochBlock hone hvote hshards hk prev.line.length)
    have hline := BlockNode.line_child prev (epochBlock node prev.line.length)
    obtain ⟨tip, htip⟩ := ih (prev.child (epochBlock node prev.line.length))
      (by rw [hline, map_append, append_assoc, ← hsplit]; rfl) hvotes (by rw [hline, length_append]; rfl) hone.le
      ⟨rfl, rfl, rfl⟩
    rw [hline, length_append, length_singleton] at htip
    refine ⟨tip, ?_⟩
    rw [epochBlocks, zipIdx_cons, map_cons, BlockChain.acceptHeaders, hcheck]
    exact htip

theorem k_in_range_voted : longBeacon.height = 2 * kBeaconEpochLen ∧
    969 / 1000 * (unpackK firstK).val ≤ (unpackK votedK).val ∧ (unpackK votedK).val ≤ 1012 / 1000 * (unpackK firstK).val := by
  obtain ⟨tip, htip⟩ := acceptHeaders_epochBlocks longBeacon kGenesis (List.replicate 8191 earlyNode ++ [⟨votedK, votedK, 1⟩])
    rfl (fun node hnode => by
      rcases mem_append.1 hnode with hearly | hlast
      · rw [eq_of_mem_replicate hearly]
        decide +kernel
      · rw [mem_singleton.1 hlast]
        decide +kernel) rfl (by decide) ⟨rfl, rfl, rfl⟩
  have hmem : epochBlock ⟨votedK, votedK, 1⟩ 8192 ∈
      epochBlocks (List.replicate 8191 earlyNode ++ [⟨votedK, votedK, 1⟩]) kGenesis.line.length := by
    rw [epochBlocks, zipIdx_append, map_append, length_replicate]
    exact mem_append_right _ (mem_singleton_self _)
  have hclose := (k_in_range noTexts rfl rfl rfl packK_k1.symm htip).2 kGenesis.toNodeData mem_cons_self _
    (mem_cons_of_mem _ hmem) (by decide)
  exact ⟨height_longBeacon, hclose⟩

end Sample

end Jaxnetd.Blockchain
