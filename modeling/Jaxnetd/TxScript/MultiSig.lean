import Jaxnetd.TxScript.HtlcRun

/-!
# Signatures in the order of their keys

`opcodeCheckMultiSig` goes through the keys once and gives up a key at each turn, whether or not it verifies the next
signature. It finds signatures in the order of their keys whenever there is a way to match them (`opcodeCheckMultiSig_iff`).
-/

namespace Jaxnetd.TxScript
open Wire Checks Engine Stack List

/-! ## Matching in order -/

/-- Each item of the second list is matched with an item of the first one, at a place behind that of the item before. -/
def InOrder {α β : Type} (R : α → β → Prop) (as : List α) (bs : List β) : Prop :=
  ∃ used, used.Sublist as ∧ List.Forall₂ R used bs

namespace InOrder
variable {α β : Type} {R S : α → β → Prop} {a : α} {b : β} {as : List α} {bs : List β}

theorem nil : InOrder R as [] := ⟨[], nil_sublist _, .nil⟩

theorem cons (hab : R a b) (h : InOrder R as bs) : InOrder R (a :: as) (b :: bs) := by
  obtain ⟨used, hsub, hall⟩ := h
  exact ⟨a :: used, hsub.cons_cons a, .cons hab hall⟩

theorem skip (h : InOrder R as bs) : InOrder R (a :: as) bs := by
  obtain ⟨used, hsub, hall⟩ := h
  exact ⟨used, hsub.cons a, hall⟩

theorem imp (hRS : ∀ a, ∀ b ∈ bs, R a b → S a b) (h : InOrder R as bs) : InOrder S as bs := by
  obtain ⟨used, hsub, hall⟩ := h
  refine ⟨used, hsub, ?_⟩
  clear hsub
  induction hall with
  | nil => exact .nil
  | cons hab _ ih => exact .cons (hRS _ _ mem_cons_self hab) (ih fun a b hb => hRS a b (mem_cons_of_mem _ hb))

theorem tail (h : InOrder R as (b :: bs)) : InOrder R as bs := by
  obtain ⟨used, hsub, hall⟩ := h
  obtain ⟨a, used, -, hrest, rfl⟩ := List.forall₂_cons_right_iff.1 hall
  exact ⟨used, (sublist_cons_self a used).trans hsub, hrest⟩

theorem cons_cases (h : InOrder R (a :: as) (b :: bs)) : R a b ∧ InOrder R as bs ∨ InOrder R as (b :: bs) := by
  obtain ⟨used, hsub, hall⟩ := h
  obtain ⟨a', used, ha', hrest, rfl⟩ := List.forall₂_cons_right_iff.1 hall
  rcases cons_sublist_cons'.1 hsub with hlater | ⟨rfl, hhere⟩
  · exact .inr ⟨a' :: used, hlater, .cons ha' hrest⟩
  · exact .inl ⟨ha', used, hhere, hrest⟩

theorem length_le (h : InOrder R as bs) : bs.length ≤ as.length := by
  obtain ⟨used, hsub, hall⟩ := h
  exact hall.length_eq ▸ hsub.length_le

/-- A match for the first item is never given up for a later one. -/
theorem cons_iff (hab : R a b) : InOrder R (a :: as) (b :: bs) ↔ InOrder R as bs :=
  ⟨fun h => h.cons_cases.elim And.right tail, cons hab⟩

theorem skip_iff (hab : ¬R a b) : InOrder R (a :: as) (b :: bs) ↔ InOrder R as (b :: bs) :=
  ⟨fun h => h.cons_cases.resolve_left fun hhere => hab hhere.1, skip⟩

theorem iff_position : InOrder R as bs ↔ ∃ position : Fin bs.length → Fin as.length, StrictMono position ∧
    ∀ i, R (as.get (position i)) (bs.get i) := by
  constructor
  · rintro ⟨used, hsub, hall⟩
    obtain ⟨f, hf⟩ := sublist_iff_exists_fin_orderEmbedding_get_eq.1 hsub
    obtain ⟨hlen, hall⟩ := List.forall₂_iff_get.1 hall
    refine ⟨fun i => f (i.cast hlen.symm), fun i j hij => f.strictMono hij, fun i => ?_⟩
    rw [← hf]
    exact hall i.1 (hlen.symm ▸ i.2) i.2
  · rintro ⟨position, hmono, hall⟩
    refine ⟨List.ofFn fun i => as.get (position i), ?_, List.forall₂_iff_get.2 ⟨by simp, fun i _ h₂ => ?_⟩⟩
    · refine sublist_iff_exists_fin_orderEmbedding_get_eq.2
        ⟨(Fin.castOrderIso (by simp)).toOrderEmbedding.trans (OrderEmbedding.ofStrictMono position hmono), fun i => ?_⟩
      rw [get_ofFn]
      rfl
    · simpa using hall ⟨i, h₂⟩

end InOrder

section
variable {H : Type} {ctx : EngineCtx H} {vm vm' : Engine} {n : Int} {stk : List Bytes}

/-! ## The items on the stack -/

theorem popMany_ok {n : Nat} {xs : List Bytes} {vm' : Engine} (h : popMany n vm = .ok (xs, vm')) :
    xs.length = n ∧ ∃ d, vm' = { vm with dstack := d } ∧ vm.dstack.stk = xs ++ d.stk ∧
      d.verifyMinimalData = vm.dstack.verifyMinimalData := by
  induction n generalizing vm xs vm' with
  | zero =>
    cases h
    exact ⟨rfl, _, rfl, rfl, rfl⟩
  | succ n ih =>
    obtain ⟨x, vm₁, hx, h⟩ := stateT_bind_ok h
    obtain ⟨d, hd, rfl⟩ := onD_ok hx
    obtain ⟨rest, vm₂, hrest, h⟩ := stateT_bind_ok h
    cases h
    obtain ⟨hlen, d', hd', hstk, hmin⟩ := ih hrest
    obtain ⟨hx, hmin'⟩ := popByteArray_ok hd
    refine ⟨by rw [length_cons, hlen], d', hd', ?_, hmin.trans hmin'⟩
    rw [hx, hstk]
    rfl

theorem guard_ok {α : Type} {c : Prop} [Decidable c] {code : ErrorCode} {description : String} {m : OpM α} {r : α × Engine}
    (h : (if c then (fail code description : OpM PUnit) >>= fun _ => m else m) vm = .ok r) : ¬c ∧ m vm = .ok r := by
  split at h
  · cases h
  · next hc => exact ⟨hc, h⟩

variable [ChainHash H] [Primitives]

/-- A signature, with its hash type behind it, parses and verifies under a key for the digest of the script. An empty
one has no hash type. -/
def Verifies (ctx : EngineCtx H) (vm : Engine) (script : List ParsedOpcode) (key rawSig : Bytes) : Prop :=
  rawSig ≠ [] ∧ ∃ pubKey signature digest, Primitives.parsePubKey key = some pubKey ∧
    parseSig ctx (splitSig rawSig).2 = some signature ∧ sigHash ctx vm script (splitSig rawSig).1 = .ok digest ∧
    Primitives.verify signature digest pubKey = true

/-- `multiSigLoop` with the number of calls of `Verify`. -/
def countedLoop (ctx : EngineCtx H) (vm : Engine) (script : List ParsedOpcode) :
    List Bytes → List Bytes → Except ScriptError (Bool × Nat)
  | [], sigs => .ok (sigs.isEmpty, 0)
  | _ :: _, [] => .ok (true, 0)
  | pubKey :: pubKeys, rawSig :: sigs =>
    if pubKeys.length < sigs.length then .ok (false, 0)
    else if rawSig = [] then countedLoop ctx vm script pubKeys (rawSig :: sigs)
    else do
      let (hashType, signature) := splitSig rawSig
      checkHashTypeEncoding ctx hashType
      checkSignatureEncoding ctx signature
      match parseSig ctx signature with
      | none => countedLoop ctx vm script pubKeys (rawSig :: sigs)
      | some parsedSig =>
        checkPubKeyEncoding ctx vm pubKey
        match Primitives.parsePubKey pubKey with
        | none => countedLoop ctx vm script pubKeys (rawSig :: sigs)
        | some parsedPubKey =>
          let hashData ← sigHash ctx vm script hashType
          let (success, count) ← countedLoop ctx vm script pubKeys
            (if Primitives.verify parsedSig hashData parsedPubKey then sigs else rawSig :: sigs)
          return (success, count + 1)

variable {script : List ParsedOpcode} {key sig : Bytes} {keys sigs : List Bytes} {success : Bool} {count : Nat}

/-! ## The loop over the keys -/

theorem countedLoop_fst : (countedLoop ctx vm script keys sigs).map Prod.fst = multiSigLoop ctx vm script keys sigs := by
  induction keys generalizing sigs with
  | nil => rfl
  | cons key keys ih =>
    cases sigs with
    | nil => rfl
    | cons sig sigs =>
      rw [countedLoop, multiSigLoop]
      split
      · rfl
      split
      · exact ih
      obtain ⟨hashType, signature⟩ := splitSig sig
      dsimp only
      cases checkHashTypeEncoding ctx hashType with
      | error => rfl
      | ok =>
      cases checkSignatureEncoding ctx signature with
      | error => rfl
      | ok =>
      cases hparse : parseSig ctx signature with
      | none => exact ih
      | some signature =>
      cases checkPubKeyEncoding ctx vm key with
      | error => rfl
      | ok =>
      cases Primitives.parsePubKey key with
      | none => exact ih
      | some pubKey =>
      cases sigHash ctx vm script hashType with
      | error => rfl
      | ok digest =>
        dsimp only [bind, Except.bind]
        rw [← ih]
        cases countedLoop ctx vm script keys _ with
        | error => rfl
        | ok => rfl

theorem countedLoop_cons (h : countedLoop ctx vm script (key :: keys) (sig :: sigs) = .ok (success, count)) :
    keys.length < sigs.length ∧ success = false ∧ count = 0 ∨
      ∃ rest count', countedLoop ctx vm script keys rest = .ok (success, count') ∧ count ≤ count' + 1 ∧
        (Verifies ctx vm script key sig ∧ rest = sigs ∨ ¬Verifies ctx vm script key sig ∧ rest = sig :: sigs) := by
  rw [countedLoop] at h
  split at h
  · next hfew =>
    cases h
    exact .inl ⟨hfew, rfl, rfl⟩
  refine .inr ?_
  split at h
  · next hempty => exact ⟨_, _, h, Nat.le_succ _, .inr ⟨fun hv => hv.1 hempty, rfl⟩⟩
  next hsig =>
  simp only [ok_rules] at h
  obtain ⟨-, -, h⟩ := h
  split at h
  · next hparse =>
    refine ⟨_, _, h, Nat.le_succ _, .inr ⟨?_, rfl⟩⟩
    rintro ⟨-, _, _, _, _, hsome, -⟩
    cases hparse.symm.trans hsome
  next signature hparse =>
  simp only [ok_rules] at h
  obtain ⟨-, h⟩ := h
  split at h
  · next hkey =>
    refine ⟨_, _, h, Nat.le_succ _, .inr ⟨?_, rfl⟩⟩
    rintro ⟨-, _, _, _, hsome, -⟩
    cases hkey.symm.trans hsome
  next pubKey hkey =>
  simp only [ok_rules] at h
  obtain ⟨digest, hdigest, success, count', hloop, rfl, rfl⟩ := h
  refine ⟨_, count', hloop, Nat.le_refl _, ?_⟩
  split
  · next hverify => exact .inl ⟨⟨hsig, pubKey, signature, digest, hkey, hparse, hdigest, hverify⟩, rfl⟩
  · next hverify =>
    refine .inr ⟨?_, rfl⟩
    rintro ⟨-, _, _, _, hkey', hparse', hdigest', hverify'⟩
    cases hkey.symm.trans hkey'
    cases hparse.symm.trans hparse'
    cases hdigest.symm.trans hdigest'
    exact hverify hverify'

theorem countedLoop_spec (h : countedLoop ctx vm script keys sigs = .ok (success, count)) :
    (success = true ↔ InOrder (Verifies ctx vm script) keys sigs) ∧ count ≤ keys.length := by
  induction keys generalizing sigs count with
  | nil =>
    cases h
    refine ⟨⟨fun hnil => ?_, fun hall => ?_⟩, Nat.le_refl _⟩
    · rw [List.isEmpty_iff.1 hnil]
      exact .nil
    · simpa using hall.length_le
  | cons key keys ih =>
    cases sigs with
    | nil =>
      cases h
      exact ⟨iff_of_true rfl .nil, Nat.zero_le _⟩
    | cons sig sigs =>
      rcases countedLoop_cons h with ⟨hfew, rfl, rfl⟩ | ⟨rest, count', hloop, hcount, hnext⟩
      · refine ⟨iff_of_false nofun fun hall => ?_, Nat.zero_le _⟩
        have := hall.length_le
        simp only [length_cons] at this
        omega
      · obtain ⟨hiff, hle⟩ := ih hloop
        refine ⟨hiff.trans ?_, by rw [length_cons]; omega⟩
        rcases hnext with ⟨hverifies, rfl⟩ | ⟨hnot, rfl⟩
        · exact (InOrder.cons_iff hverifies).symm
        · exact (InOrder.skip_iff hnot).symm

theorem multiSigLoop_iff (h : multiSigLoop ctx vm script keys sigs = .ok success) :
    ∃ count, countedLoop ctx vm script keys sigs = .ok (success, count) ∧ count ≤ keys.length ∧
      (success = true ↔ InOrder (Verifies ctx vm script) keys sigs) := by
  rw [← countedLoop_fst, map_eq_ok] at h
  obtain ⟨⟨success, count⟩, hloop, rfl⟩ := h
  obtain ⟨hiff, hle⟩ := countedLoop_spec hloop
  exact ⟨count, hloop, hle, hiff⟩

/-! ## The opcode -/

theorem multiSigLoop_stacks {d : Stack} {numOps : Nat} :
    multiSigLoop ctx { vm with dstack := d, numOps := numOps } script keys sigs = multiSigLoop ctx vm script keys sigs := by
  induction keys generalizing sigs with
  | nil => rfl
  | cons key keys ih =>
    cases sigs with
    | nil => rfl
    | cons sig sigs =>
      simp only [multiSigLoop, ih]
      rfl

omit [Primitives] [ChainHash H] in
theorem popInt_dstack {x : Int} (h : onD popInt vm = .ok (x, vm')) : ∃ so d, vm' = { vm with dstack := d } ∧
    vm.dstack.stk = so :: d.stk ∧ makeScriptNum so vm.dstack.verifyMinimalData defaultScriptNumLen = .ok x ∧
    d.verifyMinimalData = vm.dstack.verifyMinimalData := by
  obtain ⟨d, hd, rfl⟩ := onD_ok h
  obtain ⟨so, hso⟩ := popInt_ok hd
  exact ⟨so, d, rfl, hso⟩

def multiSigScript (vm : Engine) (sigs : List Bytes) : List ParsedOpcode :=
  if vm.isWitnessVersionActive 0 then vm.subScript else sigs.foldl removeOpcodeByData vm.subScript

structure Checked (ctx : EngineCtx H) (vm vm' : Engine) (numKeys numSigs : Int) (keys sigs : List Bytes) (success : Bool) :
    Prop where
  stk : ∃ so so' dummy rest, vm.dstack.stk = so :: (keys ++ so' :: (sigs ++ dummy :: rest)) ∧
    makeScriptNum so vm.dstack.verifyMinimalData defaultScriptNumLen = .ok numKeys ∧
    makeScriptNum so' vm.dstack.verifyMinimalData defaultScriptNumLen = .ok numSigs ∧
    vm'.dstack.stk = fromBool success :: rest
  engine : ∃ d numOps, vm' = { vm with dstack := d, numOps := numOps }
  numKeys : scriptNumInt32 numKeys = keys.length
  numSigs : scriptNumInt32 numSigs = sigs.length
  few : keys.length ≤ maxPubKeysPerMultiSig
  fewer : sigs.length ≤ keys.length
  loop : multiSigLoop ctx vm (multiSigScript vm sigs) keys sigs = .ok success

theorem opcodeCheckMultiSig_ok (h : opcodeCheckMultiSig ctx vm = .ok ((), vm')) :
    ∃ numKeys numSigs keys sigs success, Checked ctx vm vm' numKeys numSigs keys sigs success := by
  obtain ⟨numKeys, vm₁, hn, h⟩ := stateT_bind_ok h
  obtain ⟨so, d₁, rfl, hstk₁, hnum₁, hmin₁⟩ := popInt_dstack hn
  obtain ⟨hpos, h⟩ := guard_ok h
  obtain ⟨hmax, h⟩ := guard_ok h
  obtain ⟨_, vm₂, hmodify, h⟩ := stateT_bind_ok h
  cases hmodify
  obtain ⟨_, vm₃, hget, h⟩ := stateT_bind_ok h
  cases hget
  obtain ⟨-, h⟩ := guard_ok h
  obtain ⟨keys, vm₄, hpop, h⟩ := stateT_bind_ok h
  obtain ⟨hlen₄, d₄, rfl, hstk₄, hmin₄⟩ := popMany_ok hpop
  obtain ⟨numSigs, vm₅, hm, h⟩ := stateT_bind_ok h
  obtain ⟨so', d₅, rfl, hstk₅, hnum₅, hmin₅⟩ := popInt_dstack hm
  obtain ⟨hpos', h⟩ := guard_ok h
  obtain ⟨hfewer, h⟩ := guard_ok h
  obtain ⟨sigs, vm₆, hpop', h⟩ := stateT_bind_ok h
  obtain ⟨hlen₆, d₆, rfl, hstk₆, -⟩ := popMany_ok hpop'
  obtain ⟨dummy, vm₇, hdummy, h⟩ := stateT_bind_ok h
  obtain ⟨d₇, hd₇, rfl⟩ := onD_ok hdummy
  obtain ⟨-, h⟩ := guard_ok h
  obtain ⟨vm₈, vm₉, hget, h⟩ := stateT_bind_ok h
  cases hget
  obtain ⟨success, vm₁₀, hsuccess, h⟩ := stateT_bind_ok h
  obtain ⟨success', hloop, hpure⟩ := bind_eq_ok.1 hsuccess
  cases hpure
  obtain ⟨-, h⟩ := guard_ok h
  obtain ⟨d₈, hd₈, rfl⟩ := onD_ok h
  cases hd₈
  refine ⟨numKeys, numSigs, keys, sigs, success,
    ⟨so, so', dummy, d₇.stk, ?_, hnum₁, ?_, rfl⟩, ⟨_, _, rfl⟩, by omega, by omega, by omega, by omega,
      multiSigLoop_stacks.symm.trans hloop⟩
  · rw [hstk₁, hstk₄, hstk₅, hstk₆, (popByteArray_ok hd₇).1]
  · rw [← hmin₁, ← hmin₄]
    exact hnum₅

/-- The boolean says whether the signatures can be matched with keys in their order, and no key is used for more than
one verification. -/
theorem opcodeCheckMultiSig_iff (ctx : EngineCtx H) (vm vm' : Engine) (h : opcodeCheckMultiSig ctx vm = .ok ((), vm')) :
    ∃ numKeys numSigs keys sigs success count, Checked ctx vm vm' numKeys numSigs keys sigs success ∧
      (success = true ↔ ∃ position : Fin sigs.length → Fin keys.length, StrictMono position ∧
        ∀ i, Verifies ctx vm (multiSigScript vm sigs) (keys.get (position i)) (sigs.get i)) ∧
      countedLoop ctx vm (multiSigScript vm sigs) keys sigs = .ok (success, count) ∧ count ≤ keys.length := by
  obtain ⟨numKeys, numSigs, keys, sigs, success, hchecked⟩ := opcodeCheckMultiSig_ok h
  obtain ⟨count, hcounted, hle, hiff⟩ := multiSigLoop_iff hchecked.loop
  exact ⟨numKeys, numSigs, keys, sigs, success, count, hchecked, hiff.trans InOrder.iff_position, hcounted, hle⟩

end

section Sample

/-- A signature is valid under the key with the same bytes. -/
@[reducible] def bytePrimitives : Primitives :=
  { toyPrimitives with PubKey := Bytes, Signature := Bytes, parsePubKey := some, parseSignature := some,
                       parseDERSignature := some, serializeUncompressed := id,
                       verify := fun signature _ key => signature = key }

attribute [local instance] sumHash bytePrimitives

def oneOfTwoCtx : EngineCtx Nat := ⟨⟨1, [], [], 0⟩, 0, {}, 0, 0, false⟩

def oneOfTwoEngine (stk : List Bytes) : Engine := ⟨[[]], 0, 0, 0, ⟨stk, false⟩, ⟨[], false⟩, [], 0, [], 0, none⟩

/-- The second of two keys has signed. -/
theorem oneOfTwo_checked : ∃ vm', opcodeCheckMultiSig oneOfTwoCtx (oneOfTwoEngine [[2], [7], [8], [1], [8, 1], []]) =
    .ok ((), vm') ∧ vm'.dstack.stk = [fromBool true] ∧ ∃ numKeys numSigs keys sigs success count, Checked oneOfTwoCtx
      (oneOfTwoEngine [[2], [7], [8], [1], [8, 1], []]) vm' numKeys numSigs keys sigs success ∧ count ≤ keys.length := by
  have hrun : (opcodeCheckMultiSig oneOfTwoCtx (oneOfTwoEngine [[2], [7], [8], [1], [8, 1], []])).toOption.map
      (·.2.dstack.stk) = some [fromBool true] := by
    decide +kernel
  obtain ⟨⟨_, vm'⟩, hrun, hstk⟩ := toOption_map_eq_some.1 hrun
  obtain ⟨numKeys, numSigs, keys, sigs, success, count, hchecked, -, -, hle⟩ := opcodeCheckMultiSig_iff _ _ _ hrun
  exact ⟨vm', hrun, hstk, numKeys, numSigs, keys, sigs, success, count, hchecked, hle⟩

end Sample

end Jaxnetd.TxScript
