import Jaxnetd.Blockchain.LedgerRun

/-!
# Relative lock times in blocks

`RelativeLockMet` is the lock that the sequence number of an input stands for. For the memory pool `calcSequenceLock`
computes the strongest lock of the inputs of a time lock transaction, which is active exactly if the lock of every input is
met (`relativeLocks_iff`). For blocks it computes none, and nothing asks for it.
-/

namespace Jaxnetd.Blockchain
open Wire TxScript Chaindata Checks UtxoViewpoint

section Main
variable {H : Type} [DecidableEq H]

/-- The sequence number asks for a lock: bit 31 is clear. Bit 22 makes its units 512 seconds, from the median time before
the block of the output on; otherwise it counts blocks. -/
def RelativeLockMet (b : BlockChain H) (node : BlockNode H) (median inputHeight : Int) (sequence : Nat) : Prop :=
  sequence.testBit 31 = false →
    if sequence.testBit 22 then ∃ before, node.ancestor (max (inputHeight - 1) 0) = some before ∧
      b.calcPastMedianTime before + (sequence % 2 ^ 16 : Nat) * 512 ≤ median
    else inputHeight + (sequence % 2 ^ 16 : Nat) ≤ node.height

def HeightRange (d : SpentTxOut) : Prop := 0 ≤ d.height ∧ d.height < 2 ^ 31 - 2 ^ 16

section
omit [DecidableEq H]

theorem and_shiftLeft_eq_iff (q k : Nat) : q &&& 1 <<< k = 1 <<< k ↔ q.testBit k := by
  rw [Nat.one_shiftLeft, Nat.and_two_pow]
  cases q.testBit k with
  | true => simp
  | false => simpa using (Nat.two_pow_pos k).ne

theorem and_sequenceLockTimeMask (q : Nat) : q &&& sequenceLockTimeMask = q % 2 ^ 16 :=
  Nat.and_two_pow_sub_one_eq_mod q 16

theorem sequenceLockActive_iff {lock : SequenceLock} {height median : Int} :
    sequenceLockActive lock height median ↔ lock.seconds < median ∧ lock.blockHeight < height := by
  simp [sequenceLockActive]

end

namespace BlockChain
variable {b : BlockChain H} {node : BlockNode H} {median : Int}

omit [DecidableEq H] in
theorem inputLock_active {inputHeight : Int} (h0 : 0 ≤ inputHeight) (hlt : inputHeight < 2 ^ 31 - 2 ^ 16)
    {sequence : Nat} {lock : SequenceLock} :
    (∃ lock', b.inputLock node inputHeight sequence lock = .ok lock' ∧ sequenceLockActive lock' node.height median) ↔
      sequenceLockActive lock node.height median ∧ RelativeLockMet b node median inputHeight sequence := by
  simp only [inputLock, sequenceLockTimeDisabled, sequenceLockTimeIsSeconds, and_shiftLeft_eq_iff,
    and_sequenceLockTimeMask, RelativeLockMet, sequenceLockActive_iff]
  cases hdisabled : sequence.testBit 31 with
  | true => simp
  | false =>
    cases hseconds : sequence.testBit 22 with
    | true =>
      rcases hbefore : node.ancestor (max (inputHeight - 1) 0) with _ | before
      · simp [orFail]
      · simp only [Bool.false_eq_true, if_false, if_true, orFail, sequenceLockTimeGranularity, bind_pure_comp,
          Except.map_ok, Except.ok.injEq, exists_eq_left', sup_lt_iff, Option.some.injEq, forall_const]
        omega
    | false =>
      -- the sum is far from where it would wrap
      have hwrap : wrap32 (inputHeight + ((sequence % 2 ^ 16 : Nat) - 1)) =
          inputHeight + ((sequence % 2 ^ 16 : Nat) - 1) := by
        unfold wrap32
        omega
      simp only [hwrap, Bool.false_eq_true, if_false, pure_eq_ok, exists_eq_left', sup_lt_iff, forall_const]
      omega

variable [ChainHash H]

omit [DecidableEq H] in
theorem lockInputs_active {tx : MsgTx H} {view : UtxoViewpoint H} (hheights : EntriesAll HeightRange view) {i : Nat}
    {txIns : List (TxIn H)} (hfound : ∀ txIn ∈ txIns, view.found txIn.previousOutPoint) {lock : SequenceLock} :
    (∃ lock', b.lockInputs node tx view i txIns lock = .ok lock' ∧ sequenceLockActive lock' node.height median) ↔
      sequenceLockActive lock node.height median ∧ ∀ txIn ∈ txIns, ∀ d, view.dataAt txIn.previousOutPoint = some d →
        RelativeLockMet b node median d.height txIn.sequence := by
  induction txIns generalizing i lock with
  | nil => simp [lockInputs]
  | cons txIn txIns ih =>
    rw [List.forall_mem_cons] at hfound
    obtain ⟨e, he⟩ := Option.isSome_iff_exists.1 hfound.1
    obtain ⟨h0, hlt⟩ := hheights _ e (lookupEntry_eq_some.1 he)
    have hpool : e.height ≠ 0x7fffffff := by omega
    have hstep : (∃ lock', b.lockInputs node tx view i (txIn :: txIns) lock = .ok lock' ∧
          sequenceLockActive lock' node.height median) ↔
        ∃ lock₁, b.inputLock node e.height txIn.sequence lock = .ok lock₁ ∧
          ∃ lock', b.lockInputs node tx view (i + 1) txIns lock₁ = .ok lock' ∧
            sequenceLockActive lock' node.height median := by
      simp only [lockInputs, he, if_neg hpool, bind_eq_ok]
      constructor
      · rintro ⟨lock', ⟨lock₁, h₁, h'⟩, hactive⟩
        exact ⟨lock₁, h₁, lock', h', hactive⟩
      · rintro ⟨lock₁, h₁, lock', h', hactive⟩
        exact ⟨lock', ⟨lock₁, h₁, h'⟩, hactive⟩
    have hround := @inputLock_active _ b node median e.height h0 hlt txIn.sequence lock
    rw [hstep, List.forall_mem_cons, dataAt_of_lookup he]
    simp only [ih hfound.2, Option.some.injEq, forall_eq']
    constructor
    · rintro ⟨lock₁, h₁, hactive, hrest⟩
      obtain ⟨hlock, hmet⟩ := hround.1 ⟨lock₁, h₁, hactive⟩
      exact ⟨hlock, hmet, hrest⟩
    · rintro ⟨hlock, hmet, hrest⟩
      obtain ⟨lock₁, h₁, hactive⟩ := hround.2 ⟨hlock, hmet⟩
      exact ⟨lock₁, h₁, hactive, hrest⟩

theorem outputsAll_heightRange {tx : MsgTx H} {height : Int} (h0 : 0 ≤ height) (hlt : height < 2 ^ 31 - 2 ^ 16) :
    OutputsAll HeightRange height tx := by
  intro o d hd
  obtain ⟨out, -, rfl⟩ := outputAt_data hd
  exact ⟨h0, hlt⟩

variable [Primitives]

/-- When the turn of a time lock transaction in an accepted block comes, the relative locks of its inputs are met
exactly if the sequence lock that is computed for the memory pool is active. -/
theorem relativeLocks_iff (b : BlockChain H) (U : UtxoSet H) (hU : RowsAll HeightRange U) (node : BlockNode H)
    (h0 : 0 ≤ node.height) (hlt : node.height < 2 ^ 31 - 2 ^ 16) (parent : BlockNode H)
    (hparent : node.parent = some parent)
    (hmedian : ∀ p, node.parent = some p → 0 ≤ b.calcPastMedianTime p) (txs : List (MsgTx H))
    (headerSanity : Except ChainError Unit)
    (hsanity : checkBlockSanityWF headerSanity node.header.maxLength node.header.merkleRoot txs = .ok ())
    (view : UtxoViewpoint H) (stxos : Option (List SpentTxOut))
    (haccept : b.checkConnectBlock U node txs (b.freshView node) (some []) = .ok (view, stxos))
    (pre post : List (MsgTx H)) (tx : MsgTx H) (htxs : txs = pre ++ tx :: post) (hversion : tx.version = txVerTimeLock)
    (hcb : ¬isCoinBase tx) (st : ConnectState H)
    (hst : b.connectTxs node.height pre (b.startState U node txs) = .ok st) :
    (∀ txIn ∈ tx.txIn, ∀ d, st.view.dataAt txIn.previousOutPoint = some d →
        RelativeLockMet b node (b.calcPastMedianTime parent) d.height txIn.sequence) ↔
      ∃ lock, b.calcSequenceLock node tx st.view true = .ok lock ∧
        sequenceLockActive lock node.height (b.calcPastMedianTime parent) := by
  have hblock := checkBlockSanityWF_ok hsanity
  obtain ⟨st', hchecked, -, -⟩ := checkConnectBlock_ok haccept
  obtain ⟨st₁, st₂, hst₁, htx, -⟩ := connectTxs_split htxs hchecked.run
  rw [hst, Except.ok.injEq] at hst₁
  subst hst₁
  have hswap : ¬tx.swapTx := by simp [MsgTx.swapTx, hversion, txVerTimeLock, txVerCrossShardSwap]
  have hheights : EntriesAll HeightRange st.view :=
    entriesAll_run hblock hU (fun _ _ => outputsAll_heightRange h0 hlt) ⟨tx :: post, htxs.symm⟩ hst
  have hconn := (connectTx_ok (hblock.sane tx (by simp [htxs])) (fun hs => absurd hs hswap) htx).connected
  have hfound : ∀ txIn ∈ tx.txIn, st.view.found txIn.previousOutPoint :=
    fun txIn htxIn => hconn.found_inputs hcb hswap _ (List.mem_map_of_mem htxIn)
  have hstart : sequenceLockActive ⟨-1, -1⟩ node.height (b.calcPastMedianTime parent) := by
    have hparentMedian := hmedian parent hparent
    exact sequenceLockActive_iff.2 ⟨lt_of_lt_of_le (by decide) hparentMedian, lt_of_lt_of_le (by decide) h0⟩
  have hcalc : b.calcSequenceLock node tx st.view true = b.lockInputs node tx st.view 0 tx.txIn ⟨-1, -1⟩ := by
    simp [calcSequenceLock, hversion, hcb]
  rw [hcalc, lockInputs_active hheights hfound]
  exact ⟨fun h => ⟨hstart, h⟩, fun h => h.2⟩

end BlockChain
end Main

section Sample
attribute [local instance] sumHash toyPrimitives

variable (sequence : Nat)

def relativeSpend : MsgTx Nat := ⟨2, [⟨⟨5, 0⟩, [], [], sequence⟩], [⟨4, [0x51]⟩], 0⟩

def relativeTxs : List (MsgTx Nat) := [sampleCoinbase [0, 0] [0x51], relativeSpend sequence]

def relativeParent : BlockNode Nat := ⟨⟨⟨1, 2, 0, 0, 0, 1600000000, 0, 0, 0, 0, 7, 0⟩, 0, 0⟩, []⟩

def relativeNode : BlockNode Nat where
  header := ⟨1, 3, 0, 7, merkleRoot (relativeTxs sequence) false, 1600000001, 0, 0, 0, 0, 8, 0⟩
  workSum := 0
  powWeight := 0
  ancestors := [relativeParent.toNodeData]

def relativeAccepted : Except ChainError (UtxoViewpoint Nat × Option (List SpentTxOut)) :=
  (toyChain Nat).checkConnectBlock sampleUtxos (relativeNode sequence) (relativeTxs sequence)
    ((toyChain Nat).freshView (relativeNode sequence)) (some [])

theorem relative_sane : ∀ sequence ∈ [10, 2], checkBlockSanityWF (.ok ()) 0
    (merkleRoot (relativeTxs sequence) false) (relativeTxs sequence) = .ok () := by
  decide

theorem relative_accepted : ∀ sequence ∈ [10, 2], (relativeAccepted sequence).isOk = true := by
  decide

def relativeTurn : Except ChainError (BlockChain.ConnectState Nat) :=
  (toyChain Nat).connectTxs (relativeNode sequence).height [sampleCoinbase [0, 0] [0x51]]
    ((toyChain Nat).startState sampleUtxos (relativeNode sequence) (relativeTxs sequence))

theorem relative_spent : (relativeTurn 10).map (fun st => st.view.dataAt ⟨5, 0⟩) = .ok (some ⟨5, [0x51], 1, false⟩) := by
  decide

/-- The block at height 3 is accepted, with an input that spends an output of height 1 and has to wait for ten
blocks. -/
theorem relativeLock_ignored : (relativeAccepted 10).isOk = true ∧ (relativeSpend 10).version = txVerTimeLock ∧
    ∃ st, relativeTurn 10 = .ok st ∧ ∃ txIn ∈ (relativeSpend 10).txIn, ∃ d,
      st.view.dataAt txIn.previousOutPoint = some d ∧ ¬RelativeLockMet (toyChain Nat) (relativeNode 10)
        ((toyChain Nat).calcPastMedianTime relativeParent) d.height txIn.sequence := by
  refine ⟨relative_accepted 10 (by simp), rfl, ?_⟩
  obtain ⟨st, hst, hspent⟩ := map_eq_ok.1 relative_spent
  refine ⟨st, hst, ⟨⟨5, 0⟩, [], [], 10⟩, by simp [relativeSpend], _, hspent, fun h => ?_⟩
  have hwait := h (by decide)
  exact absurd hwait (by decide)

theorem relative_active : (relativeTurn 2).map (fun st =>
    ((toyChain Nat).calcSequenceLock (relativeNode 2) (relativeSpend 2) st.view true).toOption.map fun lock =>
      sequenceLockActive lock (relativeNode 2).height ((toyChain Nat).calcPastMedianTime relativeParent)) =
        .ok (some true) := by
  decide

theorem relativeLocks_iff_two : ∃ st, relativeTurn 2 = .ok st ∧ ∀ txIn ∈ (relativeSpend 2).txIn, ∀ d,
    st.view.dataAt txIn.previousOutPoint = some d → RelativeLockMet (toyChain Nat) (relativeNode 2)
      ((toyChain Nat).calcPastMedianTime relativeParent) d.height txIn.sequence := by
  obtain ⟨st, hst, hactive⟩ := map_eq_ok.1 relative_active
  obtain ⟨⟨view, stxos⟩, hrun⟩ := isOk_iff.1 (relative_accepted 2 (by simp))
  refine ⟨st, hst, (BlockChain.relativeLocks_iff (toyChain Nat) sampleUtxos (rowsAll_single ⟨by decide, by decide⟩)
    (relativeNode 2) (by decide) (by decide)
    relativeParent rfl (fun p hp => ?_) _ (.ok ()) (relative_sane 2 (by simp)) view stxos hrun
      [sampleCoinbase [0, 0] [0x51]] []
    (relativeSpend 2) rfl rfl (by decide) st hst).2 (toOption_map_eq_some.1 hactive)⟩
  cases hp
  decide

end Sample

end Jaxnetd.Blockchain
