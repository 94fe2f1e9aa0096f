import Jaxnetd.MergeMining.RoundTrip

/-!
# What earlier calls leave behind

A validation writes no package variable; a coding leaves the types of the leaves of its tree. The check of the
merge-mining number reads them, so what a header is answered depends on the last tree coded in the
process (`verdict_independent_iff`).
-/

namespace Jaxnetd.Wire.BeaconHeader
open MergeMining SlotTree

variable {H : Type} (b : BeaconHeader H)

/-- How many slots of the coded tree the package variable may mark without a change of the verdict. -/
def allowance (d : Nat) : Nat :=
  if b.mergeMiningNumber + 2 ^ d < 2 ^ 32 then b.mergeMiningNumber else b.mergeMiningNumber + 2 ^ d - 2 ^ 32

variable [ChainHash H]

/-- The header passes all checks but the one of the merge-mining number. -/
def Codes (beacon : Bool) (d : Nat) (T : SlotTree Nat) : Prop :=
  heightWithoutRoot b.shards = some d ∧
    Coherent d b.treeCodingLengthBits b.treeEncoding b.mergeMiningProof b.mergeMiningRoot beacon T

variable [DecidableEq H]

/-- `ValidateOrangeTree` with what a header holds, of the tree for its number of shards. -/
def accepted (vars : CodingVars) (beacon : Bool) : Prop :=
  ∃ d, heightWithoutRoot b.shards = some d ∧
    validateOrangeTree vars.nodesTypesSet d b.treeCodingLengthBits b.treeEncoding b.mergeMiningProof
      b.mergeMiningNumber b.mergeMiningRoot beacon = .ok ()

variable {b} {beacon : Bool} {d : Nat} {T : SlotTree Nat} (hT : b.Codes beacon d T)
include hT

omit [DecidableEq H] in
theorem Codes.depth_le : T.depth ≤ d := by
  obtain ⟨pos, idx, hread, -⟩ := hT.2.tree
  exact depth_readTree hread

/-- Only the check of the merge-mining number is left, which reads the package variable. -/
theorem Codes.verdict_iff (vars : CodingVars) : b.accepted vars beacon ↔ 2 ^ d ≤ (b.mergeMiningNumber +
    unmarked (fun i => vars.nodesTypesSet.testBit (2 * b.codingK - 1 + i)) d T) % 2 ^ 32 := by
  refine Iff.trans ?_ hT.2.validate_iff
  constructor
  · rintro ⟨d', hd', hok⟩
    rw [hT.1] at hd'
    cases hd'
    exact hok
  · intro hok
    exact ⟨d, hT.1, hok⟩

theorem Codes.verdict_start_iff : b.accepted ⟨0, 0, 0, 0⟩ beacon ↔ 2 ^ d ≤ (b.mergeMiningNumber + 2 ^ d) % 2 ^ 32 := by
  rw [hT.verdict_iff, unmarked_of_none (fun i => Nat.zero_testBit _) hT.depth_le]

end Jaxnetd.Wire.BeaconHeader

namespace Jaxnetd.MergeMining
open ChainHash Checks SlotTree BitString Wire

variable {H : Type} [ChainHash H] [DecidableEq H]

inductive Call (H : Type) where
  | catalanNumbersCoding (t : SparseMerkleTree H) (ht : t.height ≤ 31)
  | validateOrangeTree (b : BeaconHeader H) (beacon : Bool)

def Call.run (vars : CodingVars) : Call H → CodingVars
  | .catalanNumbersCoding t _ => (t.catalanNumbersCoding vars).1
  | .validateOrangeTree _ _ => vars

def afterCalls (calls : List (Call H)) : CodingVars := calls.foldl Call.run ⟨0, 0, 0, 0⟩

def SparseMerkleTree.typesLeft (t : SparseMerkleTree H) : Nat := (t.catalanNumbersCoding ⟨0, 0, 0, 0⟩).1.nodesTypesSet

theorem catalanNumbersCoding_types (t : SparseMerkleTree H) (vars : CodingVars) :
    (t.catalanNumbersCoding vars).1.nodesTypesSet = vars.nodesTypesSet ∨
      (t.catalanNumbersCoding vars).1.nodesTypesSet = t.typesLeft := by
  unfold SparseMerkleTree.typesLeft SparseMerkleTree.catalanNumbersCoding
  split
  · exact Or.inl rfl
  · split
    · exact Or.inl rfl
    · split
      · exact Or.inl rfl
      · exact Or.inr rfl

theorem afterCalls_types (calls : List (Call H)) : (afterCalls calls).nodesTypesSet = 0 ∨
    ∃ t : SparseMerkleTree H, t.height ≤ 31 ∧ (afterCalls calls).nodesTypesSet = t.typesLeft := by
  induction calls using List.reverseRecOn with
  | nil => exact Or.inl rfl
  | append_singleton calls call ih =>
    have hlast : afterCalls (calls ++ [call]) = call.run (afterCalls calls) := List.foldl_concat _ _ _ _
    rw [hlast]
    cases call with
    | validateOrangeTree b beacon => exact ih
    | catalanNumbersCoding t ht =>
      rcases catalanNumbersCoding_types t (afterCalls calls) with h | h
      · exact ih.imp h.trans fun ⟨t', ht', h'⟩ => ⟨t', ht', h.trans h'⟩
      · exact Or.inr ⟨t, ht, h⟩

section
omit [DecidableEq H]

theorem Coherent.height_le {d n : Nat} {coding : List UInt8} {hashes : List H} {root : H} {beacon : Bool}
    {T : SlotTree Nat} (h : Coherent d n coding hashes root beacon T) : d ≤ 15 := by
  by_contra hgt
  have hsize := h.size_le
  rw [maxCodingSize, if_neg (by omega), if_neg hgt] at hsize
  exact h.size_ne (by omega)

end

/-- A sum of the merge-mining number and the slots not marked: what it is compared with stays the same while no more slots
are marked than allowed. -/
theorem compare_iff {d mm marked unmarked : Nat} (hd : d ≤ 15) (hsum : marked + unmarked = 2 ^ d) (hmm : mm < 2 ^ 32) :
    (2 ^ d ≤ (mm + unmarked) % 2 ^ 32 ↔ 2 ^ d ≤ (mm + 2 ^ d) % 2 ^ 32) ↔
      marked ≤ if mm + 2 ^ d < 2 ^ 32 then mm else mm + 2 ^ d - 2 ^ 32 := by
  have hpow : 2 ^ d ≤ 2 ^ 15 := Nat.pow_le_pow_right (by decide) hd
  generalize 2 ^ d = a at *
  by_cases hall : mm + a < 2 ^ 32
  · rw [if_pos hall, Nat.mod_eq_of_lt hall, Nat.mod_eq_of_lt (by omega)]
    omega
  · have hover : (mm + a) % 2 ^ 32 = mm + a - 2 ^ 32 := by omega
    rw [if_neg hall, hover]
    by_cases hlt : mm + unmarked < 2 ^ 32
    · rw [Nat.mod_eq_of_lt hlt]
      omega
    · have hover' : (mm + unmarked) % 2 ^ 32 = mm + unmarked - 2 ^ 32 := by omega
      omega

/-- Any two histories give a header the same verdict exactly if it fails a check that does not read the package
variable, or no tree can leave types that mark more slots of the header's tree than allowed. -/
theorem verdict_independent_iff (b : BeaconHeader H) (hmm : b.mergeMiningNumber < 2 ^ 32) (beacon : Bool) :
    (∀ calls calls' : List (Call H), b.accepted (afterCalls calls) beacon ↔ b.accepted (afterCalls calls') beacon) ↔
      ∀ d T, b.Codes beacon d T → ∀ t : SparseMerkleTree H, t.height ≤ 31 →
        marked (fun i => t.typesLeft.testBit (2 * b.codingK - 1 + i)) d T ≤ b.allowance d := by
  constructor
  · intro hsame d T hT t ht
    have hcall := hsame [.catalanNumbersCoding t ht] []
    change b.accepted (t.catalanNumbersCoding ⟨0, 0, 0, 0⟩).1 beacon ↔ b.accepted ⟨0, 0, 0, 0⟩ beacon at hcall
    rw [hT.verdict_iff, hT.verdict_start_iff] at hcall
    exact (compare_iff hT.2.height_le (marked_add_unmarked hT.depth_le) hmm).1 hcall
  · intro hall
    have hsame : ∀ calls : List (Call H), b.accepted (afterCalls calls) beacon ↔ b.accepted ⟨0, 0, 0, 0⟩ beacon := by
      intro calls
      by_cases hcodes : ∃ d T, b.Codes beacon d T
      · obtain ⟨d, T, hT⟩ := hcodes
        rw [hT.verdict_iff, hT.verdict_start_iff]
        rcases afterCalls_types calls with hzero | ⟨t, ht, htypes⟩
        · rw [hzero, unmarked_of_none (fun i => Nat.zero_testBit _) hT.depth_le]
        · rw [htypes]
          exact (compare_iff hT.2.height_le (marked_add_unmarked hT.depth_le) hmm).2 (hall d T hT t ht)
      · -- another check fails, whatever the variable holds
        have hno : ∀ vars, ¬b.accepted vars beacon := by
          rintro vars ⟨d, hd, hok⟩
          obtain ⟨T, hT, -⟩ := validateOrangeTree_iff.1 hok
          exact hcodes ⟨d, T, hd, hT⟩
        exact iff_of_false (hno _) (hno _)
    exact fun calls calls' => (hsame calls).trans (hsame calls').symm

section Sample

def oneOfTwo : BeaconHeader Nat :=
  { twoShards with
    mergeMiningRoot := 26
    mergeMiningProof := [3]
    treeEncoding := [3] }

def threeOfFour : SparseMerkleTree Nat where
  height := 2
  nodes x := ⟨if x = 4 then some 0 else if 5 ≤ x ∧ x < 8 then some 3 else none, false⟩
  modifiedShardsIndex _ := true
  height_pos := Nat.two_pos

theorem oneOfTwo_accepted_iff (vars : CodingVars) : letI := unaryHash
    oneOfTwo.accepted vars false ↔ validateOrangeTree vars.nodesTypesSet 1 3 [3] [3] 1 26 false = .ok () := by
  let _ := unaryHash
  have hd : heightWithoutRoot 2 = some 1 := by decide
  constructor
  · rintro ⟨d, hd', hok⟩
    obtain rfl : 1 = d := Option.some.inj (hd.symm.trans hd')
    exact hok
  · intro hok
    exact ⟨1, hd, hok⟩

/-- The header is accepted in a new process, and not after the coding of another tree. -/
theorem verdict_depends : letI := unaryHash
    oneOfTwo.accepted ⟨0, 0, 0, 0⟩ false ∧
      ¬oneOfTwo.accepted (afterCalls [.catalanNumbersCoding threeOfFour (by decide)]) false := by
  let _ := unaryHash
  rw [oneOfTwo_accepted_iff, oneOfTwo_accepted_iff]
  decide

theorem verdict_dependent_oneOfTwo : letI := unaryHash
    ¬∀ d T, oneOfTwo.Codes false d T → ∀ t : SparseMerkleTree Nat, t.height ≤ 31 →
      marked (fun i => t.typesLeft.testBit (2 * oneOfTwo.codingK - 1 + i)) d T ≤ oneOfTwo.allowance d := by
  let _ := unaryHash
  rw [← verdict_independent_iff oneOfTwo (by decide) false]
  intro hsame
  have hcall := hsame [] [.catalanNumbersCoding threeOfFour (by decide)]
  rw [oneOfTwo_accepted_iff, oneOfTwo_accepted_iff] at hcall
  revert hcall
  decide

end Sample

end Jaxnetd.MergeMining
