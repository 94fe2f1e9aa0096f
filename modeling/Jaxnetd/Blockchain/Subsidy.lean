import Jaxnetd.Blockchain.BlockStore
import Jaxnetd.Chaindata.Coinbase
import Jaxnetd.Lib.BinFloat
import Jaxnetd.MergeMining.Validate

/-!
# The reward of a shard block (`blockgen_shard.go`, `difficulty.go`, `inflation_fix.go`)

The reward of a shard block is its work times the coefficient K, which the beacon chain votes on. A shard reads K from the
beacon best chain at a height computed from its own, and where the chain has not come that far it takes the K of the tip. So
a growing beacon chain can change the reward of a block, unless the height read stays in one voting epoch.
-/

namespace Jaxnetd.Blockchain
open Wire Checks Chaindata BinFloat List Option

/-! ## The coefficient K -/

def bigToCompact (n : Int) : Nat :=
  if n = 0 then 0
  else
    let exponent := (BigFloat.bitLen n + 7) / 8
    let mantissa :=
      if exponent ≤ 3 then n.natAbs % 2 ^ 32 * 2 ^ (8 * (3 - exponent)) % 2 ^ 32
      else (n / 2 ^ (8 * (exponent - 3))).natAbs % 2 ^ 32
    let big := mantissa &&& 0x00800000 ≠ 0
    let mantissa := if big then mantissa >>> 8 else mantissa
    let exponent := if big then exponent + 1 else exponent
    let compact := exponent * 2 ^ 24 % 2 ^ 32 ||| mantissa
    if n < 0 then compact ||| 0x00800000 else compact

def kPrecision : BigFloat := .setInt (2 ^ 1000)

def kValFloatToInt (val : BigFloat) : Int := (val.mul kPrecision).int

def kValIntToFloat (nVal : Int) : BigFloat := (BigFloat.setInt nVal).quo kPrecision

def unpackK (val : Nat) : BigFloat := kValIntToFloat (compactToBig val)

def packK (val : BigFloat) : Nat := bigToCompact (kValFloatToInt val)

def k1 : BigFloat := BigFloat.setFloat64One.quo (.setInt (2 ^ 60))

def kBeaconEpochLen : Nat := 4096

def beaconEpoch (height : Nat) : Nat := height / kBeaconEpochLen + 1

structure KNode where
  k : Nat
  voteK : Nat
  shards : Nat

def calcMedianVoteK (nodes : List KNode) : Nat :=
  let voteKs := (nodes.reverse.take kBeaconEpochLen).map fun node => unpackK node.voteK
  let sorted := voteKs.mergeSort fun x y => decide (x.val ≤ y.val)
  packK (sorted.getD (sorted.length / 2) ⟨0, 0⟩)

/-- `calcNextK` after the nodes of a chain. -/
def calcNextK (nodes : List KNode) : Nat :=
  match nodes.getLast? with
  | none => packK k1
  | some lastNode =>
    if beaconEpoch nodes.length ≤ 2 then packK k1
    else if nodes.length % kBeaconEpochLen ≠ 0 then lastNode.k
    else calcMedianVoteK (nodes.take (nodes.length - kBeaconEpochLen))

/-- A beacon best chain, in which every header has the K expected of it. -/
structure BeaconChain where
  nodes : List KNode
  nonempty : nodes ≠ []
  expected : ∀ (i : Nat) (node : KNode), nodes[i]? = some node → node.k = calcNextK (nodes.take i)

namespace BeaconChain

variable (c : BeaconChain)

def tip : KNode := c.nodes.getLast c.nonempty

def height : Nat := c.nodes.length - 1

/-- `CalcKForHeight`, with nothing for the node that does not exist. -/
def calcKForHeight (height : Int) : Option Nat :=
  if (c.height : Int) ≤ height then some c.tip.k
  else if height < 0 then none
  else c.nodes[height.toNat]?.map KNode.k

end BeaconChain

/-! ## The reward -/

def juroPerJAXCoin : Nat := 10000

def shardTestnetBaseReward : Nat := 10

def calcShardBlockSubsidy (shards bits k : Nat) : Int :=
  let shards := if shards = 0 then 1 else shards
  let dk := (BigFloat.setInt (calcWork bits)).mul (unpackK k)
  let reward := Float64.ofRat (dk.quo (.setInt64 shards)).val
  if reward = .finite 0 then 0 else (reward.scale juroPerJAXCoin).toInt64

structure ShardCtx where
  shardID : Nat
  mainNet : Bool
  genesisBeaconHeight : Int

namespace ShardCtx

/-- The beacon height that the reward of a shard block is read at. -/
def relativeBeaconHeight (ctx : ShardCtx) (height : Int) : Int := wrap32 (ctx.genesisBeaconHeight + height.tdiv 16)

def calcBlockSubsidy (ctx : ShardCtx) (beacon : BeaconChain) (height : Int) (difficulty mergeMiningNumber : Nat) :
    Option Int := do
  let kVal ← beacon.calcKForHeight (ctx.relativeBeaconHeight height)
  let reward := calcShardBlockSubsidy mergeMiningNumber difficulty kVal
  if !ctx.mainNet ∧ reward < shardTestnetBaseReward * juroPerJAXCoin then
    return shardTestnetBaseReward * juroPerJAXCoin
  else return reward

def validateJaxAuxRules {H : Type} [ChainHash H] [DecidableEq H] [TxScript.Primitives] (ctx : ShardCtx)
    (nodesTypesSet : Nat) (beacon : BeaconChain) (header : ShardHeader H) (txs : List (MsgTx H))
    (height : Int) : Except Fault Unit := do
  MergeMining.validateMergeMiningData nodesTypesSet beacon.tip.shards ctx.shardID header
  let expectedReward ← orFail nilPointer
    (ctx.calcBlockSubsidy beacon height header.bits header.beaconHeader.mergeMiningNumber)
  let coinbase ← orFail indexOut txs.head?
  validateShardCoinbase header coinbase expectedReward

end ShardCtx

/-! ## K along a chain -/

/-- The two heights have one K by the rule: it changes between epochs, and not before the third. -/
def SameK (i j : Nat) : Prop := beaconEpoch i = beaconEpoch j ∨ beaconEpoch i ≤ 2 ∧ beaconEpoch j ≤ 2

instance (i j : Nat) : Decidable (SameK i j) := by unfold SameK; infer_instance

theorem calcNextK_early {nodes : List KNode} (h : beaconEpoch nodes.length ≤ 2) : calcNextK nodes = packK k1 := by
  unfold calcNextK
  split
  · rfl
  · rw [if_pos h]

namespace BeaconChain
variable {c c' : BeaconChain} {i j : Nat}

theorem length_pos (c : BeaconChain) : 0 < c.nodes.length := length_pos_iff.2 c.nonempty

def kAt (c : BeaconChain) (i : Nat) : Nat := (c.nodes.getD i c.tip).k

theorem kAt_expected (hi : i ≤ c.height) : c.kAt i = calcNextK (c.nodes.take i) := by
  have hlt : i < c.nodes.length := by
    have := c.length_pos
    unfold height at hi
    omega
  refine c.expected i _ ?_
  rw [getD_eq_getElem?_getD, getElem?_eq_getElem hlt, getD_some]

theorem kAt_early (hi : i ≤ c.height) (h : beaconEpoch i ≤ 2) : c.kAt i = packK k1 := by
  have hlen : (c.nodes.take i).length = i := by
    rw [length_take]
    unfold height at hi
    omega
  rw [kAt_expected hi, calcNextK_early (by rwa [hlen])]

theorem kAt_succ (hi : i + 1 ≤ c.height) (h : beaconEpoch (i + 1) = beaconEpoch i) : c.kAt (i + 1) = c.kAt i := by
  by_cases hearly : beaconEpoch i ≤ 2
  · rw [kAt_early hi (h ▸ hearly), kAt_early (by omega) hearly]
  have hlt : i < c.nodes.length := by
    unfold height at hi
    omega
  have hlen : (c.nodes.take (i + 1)).length = i + 1 := by
    rw [length_take]
    omega
  have hlast : (c.nodes.take (i + 1)).getLast? = some (c.nodes.getD i c.tip) := by
    rw [getLast?_eq_getElem?, hlen, getElem?_take_of_lt (by omega), getD_eq_getElem?_getD,
      Nat.add_sub_cancel, getElem?_eq_getElem hlt, getD_some]
  have hinside : (i + 1) % kBeaconEpochLen ≠ 0 := by
    unfold beaconEpoch kBeaconEpochLen at h
    unfold kBeaconEpochLen
    omega
  rw [kAt_expected hi, calcNextK, hlast]
  simp only [hlen]
  rw [if_neg (by rwa [h]), if_pos hinside]
  rfl

theorem kAt_eq (h : SameK i j) (hij : i ≤ j) (hj : j ≤ c.height) : c.kAt i = c.kAt j := by
  rcases h with h | ⟨hi, hj'⟩
  · induction j, hij using Nat.le_induction with
    | base => rfl
    | succ j hij ih =>
      -- the epochs are in order, so the height between has the epoch of both
      have hbetween : beaconEpoch i = beaconEpoch j ∧ beaconEpoch (j + 1) = beaconEpoch j := by
        unfold beaconEpoch kBeaconEpochLen at *
        omega
      rw [ih (by omega) hbetween.1, kAt_succ hj hbetween.2]
  · rw [kAt_early (by omega) hi, kAt_early hj hj']

/-- The height whose K is read for a height that the chain may not have reached. -/
def heightRead (c : BeaconChain) (r : Int) : Nat := min r.toNat c.height

theorem heightRead_le (c : BeaconChain) (r : Int) : c.heightRead r ≤ c.height := Nat.min_le_right _ _

theorem calcKForHeight_eq {r : Int} (hr : 0 ≤ r) : c.calcKForHeight r = some (c.kAt (c.heightRead r)) := by
  unfold calcKForHeight heightRead
  split
  · next h =>
    have hmin : min r.toNat c.height = c.nodes.length - 1 := by
      unfold height at h ⊢
      omega
    rw [hmin, kAt, tip, getD_eq_getElem?_getD, ← getLast?_eq_getElem?, getLast?_eq_some_getLast c.nonempty,
      getD_some]
  · next h =>
    have hlt : r.toNat < c.nodes.length := by
      unfold height at h
      omega
    rw [if_neg (by omega), show min r.toNat c.height = r.toNat by omega, kAt, getD_eq_getElem?_getD,
      getElem?_eq_getElem hlt]
    rfl

theorem kAt_extends (hext : c.nodes <+: c'.nodes) (hi : i ≤ c.height) : c.kAt i = c'.kAt i := by
  have hlt : i < c.nodes.length := by
    have := c.length_pos
    unfold height at hi
    omega
  obtain ⟨more, hmore⟩ := hext
  rw [kAt, kAt, ← hmore, getD_eq_getElem?_getD, getD_eq_getElem?_getD, getElem?_append_left hlt,
    getElem?_eq_getElem hlt]
  rfl

theorem height_mono (hext : c.nodes <+: c'.nodes) : c.height ≤ c'.height := by
  have := hext.length_le
  unfold height
  omega

theorem calcKForHeight_extends (hext : c.nodes <+: c'.nodes) {r : Int} (hr : 0 ≤ r)
    (h : SameK (c.heightRead r) (c'.heightRead r)) : c.calcKForHeight r = c'.calcKForHeight r := by
  have hmono := height_mono hext
  rw [calcKForHeight_eq hr, calcKForHeight_eq hr, kAt_extends hext (heightRead_le c r)]
  congr 1
  refine kAt_eq h ?_ (heightRead_le c' r)
  unfold heightRead
  omega

end BeaconChain

/-! ## The reward along a chain -/

section Main
variable {H : Type} [ChainHash H] [DecidableEq H] [TxScript.Primitives] {c c' : BeaconChain}

/-- A beacon chain and a longer one give one reward for a shard block, as long as the heights they read K at have
one K by the rule; and a block that is accepted with the one passes the check of its reward with the other. -/
theorem subsidy_stable (ctx : ShardCtx) (hext : c.nodes <+: c'.nodes)
    (hgenesis : 0 ≤ ctx.genesisBeaconHeight ∧ ctx.genesisBeaconHeight ≤ c.height) {height : Int} (hheight : 0 ≤ height)
    (hint32 : ctx.genesisBeaconHeight + height / 16 < 2 ^ 31)
    (hepoch : SameK (c.heightRead (ctx.relativeBeaconHeight height)) (c'.heightRead (ctx.relativeBeaconHeight height))) :
    (∀ difficulty mergeMiningNumber, ∃ reward, ctx.calcBlockSubsidy c height difficulty mergeMiningNumber = some reward ∧
      ctx.calcBlockSubsidy c' height difficulty mergeMiningNumber = some reward) ∧
    ∀ (nodesTypesSet : Nat) (header : ShardHeader H) (coinbase : MsgTx H) (txs : List (MsgTx H)),
      (ctx.validateJaxAuxRules nodesTypesSet c header (coinbase :: txs) height = .ok () →
        ∃ reward, ctx.calcBlockSubsidy c' height header.bits header.beaconHeader.mergeMiningNumber = some reward ∧
          validateShardCoinbase header coinbase reward = .ok ()) ∧
      (ctx.validateJaxAuxRules nodesTypesSet c' header (coinbase :: txs) height = .ok () →
        ∃ reward, ctx.calcBlockSubsidy c height header.bits header.beaconHeader.mergeMiningNumber = some reward ∧
          validateShardCoinbase header coinbase reward = .ok ()) := by
  have hr : 0 ≤ ctx.relativeBeaconHeight height := by
    have hdiv : height.tdiv 16 = height / 16 := Int.tdiv_eq_ediv_of_nonneg hheight
    unfold ShardCtx.relativeBeaconHeight wrap32
    omega
  have hk := BeaconChain.calcKForHeight_extends hext hr hepoch
  have hsame (difficulty mergeMiningNumber : Nat) : ctx.calcBlockSubsidy c height difficulty mergeMiningNumber =
      ctx.calcBlockSubsidy c' height difficulty mergeMiningNumber := by
    unfold ShardCtx.calcBlockSubsidy
    rw [hk]
  have hsome (difficulty mergeMiningNumber : Nat) :
      ∃ reward, ctx.calcBlockSubsidy c height difficulty mergeMiningNumber = some reward := by
    unfold ShardCtx.calcBlockSubsidy
    rw [BeaconChain.calcKForHeight_eq hr]
    simp only [bind_eq_bind, bind_some]
    split
    · exact ⟨_, rfl⟩
    · exact ⟨_, rfl⟩
  refine ⟨fun difficulty mergeMiningNumber => ?_, fun nodesTypesSet header coinbase txs => ?_⟩
  · obtain ⟨reward, hreward⟩ := hsome difficulty mergeMiningNumber
    exact ⟨reward, hreward, hsame _ _ ▸ hreward⟩
  · simp only [ShardCtx.validateJaxAuxRules, ok_rules, hsame, head?_cons, some.injEq, exists_eq_left']
    exact ⟨And.right, And.right⟩

end Main

/-! ## A block between two epochs -/

section Sample

def firstK : Nat := 0x76100000

def votedK : Nat := 0x760fae14

theorem packK_k1 : packK k1 = firstK := by decide +kernel

theorem packK_unpackK_votedK : packK (unpackK votedK) = votedK := by decide +kernel

def genesisNode : KNode := ⟨firstK, firstK, 0⟩

def earlyNode : KNode := ⟨firstK, votedK, 1⟩

theorem calcMedianVoteK_firstEpoch : calcMedianVoteK (genesisNode :: List.replicate 4095 earlyNode) = votedK := by
  have hread : (genesisNode :: List.replicate 4095 earlyNode).reverse.take kBeaconEpochLen =
      List.replicate 4095 earlyNode ++ [genesisNode] := by
    rw [reverse_cons, reverse_replicate, take_of_length_le]
    rw [length_append, length_replicate]
    rfl
  have hsorted : (List.replicate 4095 (unpackK votedK) ++ [unpackK firstK]).mergeSort (fun x y => decide (x.val ≤ y.val)) =
      List.replicate 4095 (unpackK votedK) ++ [unpackK firstK] := by
    refine mergeSort_of_pairwise (pairwise_append.2 ⟨pairwise_replicate.2 ?_, pairwise_singleton _ _, ?_⟩)
    · exact .inr (decide_eq_true (le_refl _))
    · intro x hx y hy
      rw [eq_of_mem_replicate hx, mem_singleton.1 hy]
      decide +kernel
  rw [calcMedianVoteK, hread]
  simp only [map_append, map_replicate, map_cons, map_nil, earlyNode, genesisNode, hsorted]
  rw [length_append, length_replicate, getD_eq_getElem?_getD,
    getElem?_append_left (by rw [length_replicate]; decide), getElem?_replicate_of_lt (by decide)]
  exact packK_unpackK_votedK

theorem early_expected {n i : Nat} (hn : n < 2 * kBeaconEpochLen) {node : KNode}
    (h : (genesisNode :: List.replicate n earlyNode)[i]? = some node) :
    node.k = calcNextK ((genesisNode :: List.replicate n earlyNode).take i) := by
  have hk : node.k = firstK := by
    rcases mem_cons.1 (mem_of_getElem? h) with rfl | hmem
    · rfl
    · rw [eq_of_mem_replicate hmem]
      rfl
  have hi : i < n + 1 := by
    have := (List.getElem?_eq_some_iff.1 h).1
    rwa [length_cons, length_replicate] at this
  rw [hk, calcNextK_early, packK_k1]
  rw [length_take, length_cons, length_replicate]
  unfold beaconEpoch
  unfold kBeaconEpochLen at *
  omega

def shortBeacon : BeaconChain where
  nodes := genesisNode :: List.replicate 8191 earlyNode
  nonempty := by exact cons_ne_nil _ _
  expected _ _ h := early_expected (by decide) h

theorem length_shortBeacon : shortBeacon.nodes.length = 8192 := by
  rw [shortBeacon, length_cons, length_replicate]

theorem getLast_shortBeacon : shortBeacon.nodes.getLast? = some earlyNode := by
  rw [shortBeacon, getLast?_cons, getLast?_replicate, if_neg (by decide), getD_some]

theorem calcNextK_shortBeacon : calcNextK shortBeacon.nodes = votedK := by
  have htake : shortBeacon.nodes.take (8192 - kBeaconEpochLen) = genesisNode :: List.replicate 4095 earlyNode := by
    rw [shortBeacon, show 8192 - kBeaconEpochLen = 4095 + 1 by rfl, take_succ_cons, take_replicate]
    rfl
  rw [calcNextK, getLast_shortBeacon, length_shortBeacon, htake]
  simp only
  rw [if_neg (by decide), if_neg (by decide), calcMedianVoteK_firstEpoch]

def longBeacon : BeaconChain where
  nodes := shortBeacon.nodes ++ [⟨votedK, votedK, 1⟩]
  nonempty := by simp
  expected i node h := by
    rcases Nat.lt_or_ge i shortBeacon.nodes.length with hi | hi
    · rw [getElem?_append_left hi] at h
      rw [take_append_of_le_length (by omega)]
      exact shortBeacon.expected i node h
    · rw [getElem?_append_right hi] at h
      match hlast : i - shortBeacon.nodes.length, h with
      | 0, h =>
        cases h
        rw [show i = shortBeacon.nodes.length by omega, take_left', calcNextK_shortBeacon]
        rfl

theorem height_shortBeacon : shortBeacon.height = 8191 := by rw [BeaconChain.height, length_shortBeacon]

theorem height_longBeacon : longBeacon.height = 8192 := by
  rw [BeaconChain.height, longBeacon, length_append, length_shortBeacon]
  rfl

def mainNetShard : ShardCtx := ⟨1, true, 8000⟩

/-- The reward of one shard block falls when the beacon chain enters the epoch it is read in. -/
theorem subsidy_follows_tip : shortBeacon.nodes <+: longBeacon.nodes ∧
    mainNetShard.genesisBeaconHeight ≤ shortBeacon.height ∧
    mainNetShard.calcBlockSubsidy shortBeacon 4000 0x1a010000 1 = some 640000 ∧
    mainNetShard.calcBlockSubsidy longBeacon 4000 0x1a010000 1 = some 627199 := by
  have hr : mainNetShard.relativeBeaconHeight 4000 = 8250 := rfl
  have hshortK : shortBeacon.calcKForHeight 8250 = some firstK := by
    have hlast : shortBeacon.tip = earlyNode :=
      some.inj ((getLast?_eq_some_getLast shortBeacon.nonempty).symm.trans getLast_shortBeacon)
    rw [BeaconChain.calcKForHeight, height_shortBeacon, if_pos (by decide), hlast]
    rfl
  have hlongK : longBeacon.calcKForHeight 8250 = some votedK := by
    have hlast : longBeacon.tip = ⟨votedK, votedK, 1⟩ := getLast_concat
    rw [BeaconChain.calcKForHeight, height_longBeacon, if_pos (by decide), hlast]
  refine ⟨prefix_append _ _, by rw [height_shortBeacon]; decide, ?_, ?_⟩
  · rw [ShardCtx.calcBlockSubsidy, hr, hshortK]
    decide +kernel
  · rw [ShardCtx.calcBlockSubsidy, hr, hlongK]
    decide +kernel

theorem subsidy_stable_reached : ∃ reward, mainNetShard.calcBlockSubsidy shortBeacon 16 0x1a010000 1 = some reward ∧
    mainNetShard.calcBlockSubsidy longBeacon 16 0x1a010000 1 = some reward := by
  let _ := sumHash
  let _ := TxScript.toyPrimitives
  refine (@subsidy_stable Nat _ _ _ shortBeacon longBeacon mainNetShard (prefix_append _ _) ?_ 16 (by decide) (by decide)
    ?_).1 0x1a010000 1
  · rw [height_shortBeacon]
    decide
  · rw [BeaconChain.heightRead, BeaconChain.heightRead, height_shortBeacon, height_longBeacon]
    decide

end Sample

end Jaxnetd.Blockchain
