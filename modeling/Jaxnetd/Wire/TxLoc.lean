import Jaxnetd.Wire.SafeDecode

/-!
# Package `wire`: where the transactions of a block are (`msg_block.go`)

`DeserializeTxLoc` reads a block as `Deserialize` does and notes how much of the buffer is used up before and after each
transaction. Every reader of a part of a transaction depends on the bytes that it takes only (`Local`), so the bytes of
a region decode to the same transaction alone.
-/

namespace Jaxnetd.Wire
open Decoder List MsgBlock

structure TxLoc where
  txStart : Nat
  txLen : Nat

def TxLoc.region (loc : TxLoc) (s : Bytes) : Bytes := (s.drop loc.txStart).take loc.txLen

section Main
variable {H : Type}

/-- `fullLen - r.Len()`. -/
def position (fullLen : Nat) : Reader Nat := fun s => .ok (fullLen - s.length, s)

section
variable [ChainHash H] [HashArray H]

def MsgTx.deserialize : Reader (MsgTx H) := MsgTx.btcDecode true

variable (header : Option (BlockHeader H))

def MsgBlock.deserialize : Reader (MsgBlock H) := btcDecode header true

/-- The loop of `DeserializeTxLoc`, for the number of transactions left. -/
def locateTxs (fullLen : Nat) : Nat → Reader (List (MsgTx H) × List TxLoc)
  | 0 => return ([], [])
  | n + 1 => do
    let txStart ← position fullLen
    let tx ← MsgTx.deserialize
    let txEnd ← position fullLen
    let (txs, txLocs) ← locateTxs fullLen n
    return (tx :: txs, ⟨txStart, txEnd - txStart⟩ :: txLocs)

def MsgBlock.deserializeTxLoc : Reader (MsgBlock H × List TxLoc) := fun s => (do
  let header ← readHeader header
  let txCount ← readVarInt
  failIf (maxTxPerBlock < txCount)
    (tooMany "MsgBlock.DeserializeTxLoc" "transactions to fit into a block" txCount maxTxPerBlock)
  makeSlice 8 txCount
  makeSlice 16 txCount
  let (transactions, txLocs) ← locateTxs s.length txCount
  return (⟨header, transactions⟩, txLocs) : Reader (MsgBlock H × List TxLoc)) s

end

/-! ## Readers of a transaction -/

theorem local_full (n : Nat) : Local (readFull n) := by
  intro s w rest h
  obtain ⟨hlen, hs⟩ := canonical_full n s w rest h
  exact ⟨w, hs, reads_full hlen⟩

theorem local_uint (w : Nat) : Local (readUint w) := (local_full w).bind fun _ => .pure _

theorem local_int (w : Nat) : Local (readInt w) := (local_uint w).bind fun _ => .pure _

theorem local_varInt : Local readVarInt := by
  intro s n rest h
  obtain ⟨hlt, hs⟩ := canonical_varInt s n rest h
  exact ⟨varInt n, hs, reads_varInt hlt⟩

theorem local_script (maxAllowed : Nat) (fieldName : String) : Local (readScript maxAllowed fieldName) :=
  local_varInt.bind fun count => Local.failIf.bind fun _ => Local.failIf.bind fun _ => local_full count

theorem local_txOut : Local readTxOut := (local_int 8).bind fun _ => (local_script _ _).bind fun _ => .pure _

theorem local_txWitness : Local readTxWitness :=
  local_varInt.bind fun count => Local.failIf.bind fun _ => Local.failIf.bind fun _ => (local_script _ _).repeatN count

theorem local_witnesses (flag : Bool) (txIns : List (TxIn H)) : Local (readWitnesses flag txIns) := by
  unfold readWitnesses
  split
  · exact (local_txWitness.repeatN _).bind fun _ => .pure _
  · exact .pure _

theorem local_flag (witnessEncoding : Bool) (count : Nat) : Local (readFlag witnessEncoding count) := by
  unfold readFlag
  split
  · exact (local_full 1).bind fun _ => Local.failIf.bind fun _ => local_varInt.bind fun _ => .pure _
  · exact .pure _

theorem local_moveScripts (tx : MsgTx H) : Local tx.moveScripts := by
  refine Local.failIf.bind fun _ s tx' rest h => ⟨[], ?_⟩
  cases hplace : placeScripts (replicate (tx.scripts.map length).sum 0) 0 tx.scripts with
  | error e => simp [hplace, bind, Except.bind] at h
  | ok p =>
    simp only [hplace, bind, Except.bind, pure, Except.pure, Except.ok.injEq, Prod.mk.injEq] at h
    obtain ⟨rfl, rfl⟩ := h
    exact ⟨rfl, fun rest => by simp [bind, Except.bind, pure, Except.pure]⟩

variable [ChainHash H] [HashArray H]

theorem local_txIn : Local (readTxIn : Reader (TxIn H)) := by
  have hhash : Local (readHash : Reader H) := (local_full 32).bind fun _ => .pure _
  have hpoint : Local (readOutPoint : Reader (OutPoint H)) := hhash.bind fun _ => (local_uint 4).bind fun _ => .pure _
  exact hpoint.bind fun _ => (local_script _ _).bind fun _ => (local_uint 4).bind fun _ => .pure _

theorem local_tx : Local (MsgTx.deserialize : Reader (MsgTx H)) := by
  refine (local_int 4).bind fun _ => local_varInt.bind fun _ => (local_flag _ _).bind fun r => ?_
  refine Local.failIf.bind fun _ => Local.failIf.bind fun _ => Local.failIf.bind fun _ => ?_
  refine (local_txIn.repeatN _).bind fun _ => local_varInt.bind fun count => ?_
  refine Local.failIf.bind fun _ => Local.failIf.bind fun _ => Local.failIf.bind fun _ => ?_
  refine (local_txOut.repeatN count).bind fun _ => (local_witnesses _ _).bind fun _ => ?_
  exact (local_uint 4).bind fun _ => local_moveScripts _

/-! ## The regions -/

/-- The regions are one behind the other from `start` on and inside the string, and each decodes to its transaction. -/
structure Located (s : Bytes) (start : Nat) (txs : List (MsgTx H)) (locs : List TxLoc) : Prop where
  first : ∀ loc ∈ locs.head?, loc.txStart = start
  consecutive : locs.IsChain fun loc next => next.txStart = loc.txStart + loc.txLen
  inside : ∀ loc ∈ locs, loc.txStart + loc.txLen ≤ s.length
  decodes : Forall₂ (fun loc tx => MsgTx.deserialize (loc.region s) = .ok (tx, [])) locs txs

theorem locateTxs_txs (fullLen n : Nat) (s : Bytes) : (locateTxs fullLen n s).map (fun r => (r.1.1, r.2)) =
    repeatN (MsgTx.deserialize : Reader (MsgTx H)) n s := by
  induction n generalizing s with
  | zero => rfl
  | succ n ih =>
    rw [locateTxs, repeatN]
    simp only [bind_run, position]
    cases (MsgTx.deserialize : Reader (MsgTx H)) s with
    | error e => rfl
    | ok p =>
      simp only [← ih p.2]
      cases (locateTxs fullLen n : Reader (List (MsgTx H) × List TxLoc)) p.2 <;> rfl

theorem locateTxs_located {n : Nat} {front s rest : Bytes} {txs : List (MsgTx H)} {locs : List TxLoc}
    (h : locateTxs (front ++ s).length n s = .ok ((txs, locs), rest)) : Located (front ++ s) front.length txs locs := by
  induction n generalizing front s txs locs with
  | zero =>
    cases h
    exact ⟨nofun, .nil, nofun, .nil⟩
  | succ n ih =>
    simp only [locateTxs, bind_ok, position, pure_ok, Except.ok.injEq, Prod.mk.injEq, Prod.exists] at h
    obtain ⟨_, _, ⟨rfl, rfl⟩, tx, s', htx, _, _, ⟨rfl, rfl⟩, txs, locs, _, hrest, ⟨rfl, rfl⟩, rfl⟩ := h
    obtain ⟨w, rfl, hw⟩ := local_tx _ _ _ htx
    have hloc : (⟨(front ++ (w ++ s')).length - (w ++ s').length, (front ++ (w ++ s')).length - s'.length -
        ((front ++ (w ++ s')).length - (w ++ s').length)⟩ : TxLoc) = ⟨front.length, w.length⟩ := by
      simp only [length_append, TxLoc.mk.injEq]
      omega
    rw [hloc]
    rw [← append_assoc] at hrest ⊢
    have hnext := ih hrest
    refine ⟨fun loc hfirst => ?_, isChain_cons.2 ⟨?_, hnext.consecutive⟩, ?_, .cons ?_ hnext.decodes⟩
    · cases hfirst
      rfl
    · rw [← length_append]
      exact hnext.first
    · exact forall_mem_cons.2 ⟨by simp, hnext.inside⟩
    · have hregion : TxLoc.region ⟨front.length, w.length⟩ (front ++ w ++ s') = w ++ [] := by simp [TxLoc.region]
      rw [hregion]
      exact hw []

theorem deserializeTxLoc_ok_iff {header : Option (BlockHeader H)} {s rest : Bytes} {block : MsgBlock H} :
    (∃ locs, deserializeTxLoc header s = .ok ((block, locs), rest)) ↔
      deserialize header s = .ok (block, rest) := by
  have hmax : maxTxPerBlock = 78644 := by decide
  simp only [deserializeTxLoc, deserialize, btcDecode, makeSlice, bind_ok, failIf_ok, pure_ok]
  constructor
  · rintro ⟨locs, h, s₁, hheader, count, s₂, hcount, _, _, ⟨hlimit, rfl⟩, _, _, ⟨hmake, rfl⟩, _, _, ⟨-, rfl⟩, p, s₃,
      hlocate, heq, rfl⟩
    have htxs : _ = repeatN (MsgTx.deserialize : Reader (MsgTx H)) count s₂ := locateTxs_txs s.length count s₂
    rw [hlocate] at htxs
    cases heq
    exact ⟨h, s₁, hheader, count, s₂, hcount, (), _, ⟨hlimit, rfl⟩, (), _, ⟨hmake, rfl⟩, p.1, s₃, htxs.symm, rfl, rfl⟩
  · rintro ⟨h, s₁, hheader, count, s₂, hcount, _, _, ⟨hlimit, rfl⟩, _, _, ⟨hmake, rfl⟩, txs, s₃, hread, heq, rfl⟩
    have htxs : _ = repeatN (MsgTx.deserialize : Reader (MsgTx H)) count s₂ := locateTxs_txs s.length count s₂
    obtain ⟨⟨⟨txs, locs⟩, _⟩, hlocate, hp⟩ := Checks.map_eq_ok.1 (htxs.trans hread)
    cases hp
    exact ⟨locs, h, s₁, hheader, count, s₂, hcount, (), _, ⟨hlimit, rfl⟩, (), _, ⟨hmake, rfl⟩, (), _,
      ⟨by unfold maxAlloc; omega, rfl⟩, _, _, hlocate, by rw [← heq], rfl⟩

/-- What is returned for a string: the block of `Deserialize` with regions that begin right after the header and the count,
or an error where `Deserialize` returns one. -/
def LocatesTxs (header : Option (BlockHeader H)) (s : Bytes) :
    Except WireError ((MsgBlock H × List TxLoc) × Bytes) → Prop
  | .ok ((block, locs), rest) => deserialize header s = .ok (block, rest) ∧
      ∃ s₁ count s₂ front, readHeader header s = .ok (block.header, s₁) ∧ readVarInt s₁ = .ok (count, s₂) ∧
        s = front ++ s₂ ∧ Located s front.length block.transactions locs
  | .error _ => ∃ e, deserialize header s = .error e

theorem deserializeTxLoc_locates (header : Option (BlockHeader H)) (s : Bytes) :
    LocatesTxs header s (deserializeTxLoc header s) := by
  cases hrun : deserializeTxLoc header s with
  | error e =>
    cases hblock : deserialize header s with
    | error e' => exact ⟨e', hblock⟩
    | ok p =>
      obtain ⟨locs, hlocs⟩ := deserializeTxLoc_ok_iff.2 hblock
      rw [hrun] at hlocs
      cases hlocs
  | ok p =>
    obtain ⟨⟨block, locs⟩, rest⟩ := p
    refine ⟨deserializeTxLoc_ok_iff.1 ⟨locs, hrun⟩, ?_⟩
    simp only [deserializeTxLoc, makeSlice, bind_ok, failIf_ok, pure_ok] at hrun
    obtain ⟨h, s₁, hheader, count, s₂, hcount, _, _, ⟨-, rfl⟩, _, _, ⟨-, rfl⟩, _, _, ⟨-, rfl⟩, _, _, hlocate, heq,
      rfl⟩ := hrun
    cases heq
    obtain ⟨L, hsplits⟩ := splits_readHeader (N := 0) (Nat.zero_le _) header
    obtain ⟨w, -, rfl⟩ := (hsplits.accepts s s₁).1 ⟨h, hheader⟩
    obtain ⟨w', rfl, -⟩ := local_varInt _ _ _ hcount
    refine ⟨_, count, s₂, w ++ w', hheader, hcount, (append_assoc ..).symm, ?_⟩
    rw [← append_assoc] at hlocate ⊢
    exact locateTxs_located hlocate

end Main

end Jaxnetd.Wire
