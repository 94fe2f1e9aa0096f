import Jaxnetd.MergeMining.Validate
import Jaxnetd.TxScript.Addresses
import Jaxnetd.TxScript.HtlcRun

/-!
# Vanity addresses

`checkBtcVanityAddress` (`validate_coinbase_tx.go`) looks for an address that begins with `1JAX` (`base58.go`), and
`bch.JaxVanityPrefix` (`cash_address.go`) for one that begins with `qqjax` in the form of Bitcoin Cash. Both write
characters by their index in an alphabet, and no index is out of range.
-/

namespace Jaxnetd.Chaindata
open Wire TxScript Checks MergeMining

def charsAt (alphabet : List Char) (indices : List Nat) : Except Fault (List Char) :=
  indices.mapM fun i => orFail indexOut alphabet[i]?

theorem charsAt_ok (alphabet : List Char) {indices : List Nat} (h : ∀ i ∈ indices, i < alphabet.length) :
    ∃ chars, charsAt alphabet indices = .ok chars := by
  induction indices with
  | nil => exact ⟨[], rfl⟩
  | cons i indices ih =>
    obtain ⟨hi, hrest⟩ := List.forall_mem_cons.1 h
    obtain ⟨chars, hchars⟩ := ih hrest
    refine ⟨alphabet[i] :: chars, ?_⟩
    simp only [charsAt, List.mapM_cons, ok_rules] at hchars ⊢
    exact ⟨_, List.getElem?_eq_getElem hi, chars, hchars, rfl⟩

/-! ## Base58 -/

def base58Alphabet : List Char := "123456789ABCDEFGHJKLMNPQRSTUVWXYZabcdefghijkmnopqrstuvwxyz".toList

def base58Encode (b : Bytes) : Except Fault (List Char) := do
  let answer ← charsAt base58Alphabet (Nat.digits 58 (setBytes b))
  return (answer ++ (b.takeWhile (· = 0)).map fun _ => '1').reverse

section
variable (H : Type) [ChainHash H] [Primitives]

/-- `base58.CheckEncode`. -/
def checkEncode (input : Bytes) (version : UInt8) : Except Fault (List Char) :=
  let b := version :: input
  base58Encode (b ++ (doubleHashB H b).take 4)

/-- `EncodeAddress` on the main net; what follows the start of a Bech32 address is left out. -/
def encodeAddress : Address → Except Fault (List Char)
  | .pubKey key => checkEncode H (hash160 H key.1) 0x00
  | .pubKeyHash hash => checkEncode H hash.1 0x00
  | .scriptHash hash => checkEncode H hash.1 0x05
  | .witnessPubKeyHash _ | .witnessScriptHash _ => .ok "bc1".toList
  | .htlc script => checkEncode H script 0x05

def anyAddress (found : List Char) : List Address → Except Fault Bool
  | [] => .ok false
  | addr :: addrs => do
    let text ← encodeAddress H addr
    if found.isPrefixOf text then .ok true else anyAddress found addrs

def checkBtcVanityAddress (script : Bytes) : Except Fault Bool :=
  match extractPkScriptAddrs script with
  | .ok (_, address, _) => anyAddress H "1JAX".toList address
  | .error _ => .ok false

end

/-! ## Bitcoin Cash -/

def cashCharset : List Char := "qpzry9x8gf2tvdw0s3jn54khce6mua7l".toList

/-- `convertBits` from 8 to 5 bits with padding, for the accumulator and the number of bits left in it. -/
def convertBits : Nat → Nat → Bytes → List Nat
  | acc, bits, [] => if 0 < bits then [acc <<< (5 - bits) &&& 31] else []
  | acc, bits, value :: data =>
    let acc := (acc <<< 8 ||| value.toNat) &&& 0xfff
    let bits := bits + 8
    (List.range (bits / 5)).map (fun i => acc >>> (bits - 5 * (i + 1)) &&& 31) ++ convertBits acc (bits % 5) data

def polyMod (v : List Nat) : Nat :=
  let step (c d : Nat) : Nat :=
    let c0 := c >>> 35
    [0x98f2bc8e61, 0x79b76d99e2, 0xf33e5fb3c4, 0xae2eabe2a8, 0x1e4f43e470].zipIdx.foldl
      (fun c k => if c0.testBit k.2 then c ^^^ k.1 else c) ((c &&& 0x07ffffffff) <<< 5 ^^^ d)
  v.foldl step 1 ^^^ 1

def createChecksum (payload : List Nat) : List Nat :=
  let mod := polyMod ("bitcoincash".toList.map (fun c => c.toNat &&& 0x1f) ++ 0 :: payload ++ List.replicate 8 0)
  (List.range 8).map fun i => mod >>> (5 * (7 - i)) &&& 31

/-- `Encode` of a cash address. -/
def cashEncode (payload : List Nat) : Except Fault (List Char) :=
  charsAt cashCharset (payload ++ createChecksum payload)

/-- The version byte and the hash of `bch.ExtractPkScriptAddrs`. -/
def cashAddress (pkScript : Bytes) : Option (UInt8 × Bytes) :=
  let hash := (pkScript.drop 2).take 20
  let keyHash := (pkScript.drop 3).take 20
  if pkScript = [0xa9, 0x14] ++ hash ++ [0x87] ∧ hash.length = 20 then some (8, hash)
  else if pkScript = [0x76, 0xa9, 0x14] ++ keyHash ++ [0x88, 0xac] ∧ keyHash.length = 20 then some (0, keyHash)
  else none

def jaxVanityPrefix (pkScript : Bytes) : Except Fault Bool :=
  match cashAddress pkScript with
  | none => .ok false
  | some (versionByte, hash) => do
    let text ← cashEncode (convertBits 0 0 (versionByte :: hash))
    return "qqjax".toList.isPrefixOf text

/-- The loop of `ValidateBTCCoinbase` over the outputs. -/
def vanityAddressPresent (H : Type) [ChainHash H] [Primitives] : List TxOut → Except Fault Bool
  | [] => .ok false
  | out :: outs => do
    let btc ← checkBtcVanityAddress H out.pkScript
    let found ← (if btc then .ok true else jaxVanityPrefix out.pkScript)
    if found then .ok true else vanityAddressPresent H outs

/-! ## Indices in range -/

theorem and_31_lt (n : Nat) : n &&& 31 < cashCharset.length := Nat.lt_of_le_of_lt Nat.and_le_right (by decide)

theorem convertBits_lt (acc bits : Nat) (data : Bytes) : ∀ i ∈ convertBits acc bits data, i < cashCharset.length := by
  induction data generalizing acc bits with
  | nil =>
    intro i hi
    rw [convertBits] at hi
    split at hi
    · rw [List.mem_singleton.1 hi]
      exact and_31_lt _
    · cases hi
  | cons value data ih =>
    intro i hi
    rcases List.mem_append.1 hi with hi | hi
    · obtain ⟨j, -, rfl⟩ := List.mem_map.1 hi
      exact and_31_lt _
    · exact ih _ _ i hi

theorem createChecksum_lt (payload : List Nat) : ∀ i ∈ createChecksum payload, i < cashCharset.length := by
  intro i hi
  obtain ⟨j, -, rfl⟩ := List.mem_map.1 hi
  exact and_31_lt _

theorem jaxVanityPrefix_ok (pkScript : Bytes) : ∃ found, jaxVanityPrefix pkScript = .ok found := by
  unfold jaxVanityPrefix
  split
  · exact ⟨false, rfl⟩
  next versionByte hash _ =>
    obtain ⟨text, htext⟩ : ∃ text, cashEncode (convertBits 0 0 (versionByte :: hash)) = .ok text :=
      charsAt_ok cashCharset (List.forall_mem_append.2 ⟨convertBits_lt _ _ _, createChecksum_lt _⟩)
    exact ⟨_, by rw [htext]; rfl⟩

variable (H : Type) [ChainHash H] [Primitives]

theorem encodeAddress_ok (addr : Address) : ∃ text, encodeAddress H addr = .ok text := by
  have hencode : ∀ b, ∃ text, base58Encode b = .ok text := by
    intro b
    obtain ⟨answer, hanswer⟩ : ∃ answer, charsAt base58Alphabet (Nat.digits 58 (setBytes b)) = .ok answer :=
      charsAt_ok base58Alphabet fun i hi => Nat.digits_lt_base (by decide) hi
    exact ⟨_, by rw [base58Encode, hanswer]; rfl⟩
  cases addr with
  | pubKey _ | pubKeyHash _ | scriptHash _ | htlc _ => exact hencode _
  | witnessPubKeyHash _ | witnessScriptHash _ => exact ⟨_, rfl⟩

theorem vanityAddressPresent_ok (outs : List TxOut) : ∃ found, vanityAddressPresent H outs = .ok found := by
  have haddrs : ∀ addrs, ∃ found, anyAddress H "1JAX".toList addrs = .ok found := by
    intro addrs
    induction addrs with
    | nil => exact ⟨false, rfl⟩
    | cons addr addrs ih =>
      obtain ⟨text, htext⟩ := encodeAddress_ok H addr
      obtain ⟨found, hfound⟩ := ih
      simp only [anyAddress, htext, ok_rules, exists_eq_left']
      split
      · exact ⟨true, rfl⟩
      · exact ⟨found, hfound⟩
  have hbtc : ∀ script, ∃ found, checkBtcVanityAddress H script = .ok found := by
    intro script
    unfold checkBtcVanityAddress
    split
    · exact haddrs _
    · exact ⟨false, rfl⟩
  induction outs with
  | nil => exact ⟨false, rfl⟩
  | cons out outs ih =>
    obtain ⟨btc, hb⟩ := hbtc out.pkScript
    obtain ⟨cash, hcash⟩ := jaxVanityPrefix_ok out.pkScript
    obtain ⟨found, hfound⟩ := ih
    simp only [vanityAddressPresent, hb, hcash, hfound, ok_rules, exists_eq_left']
    cases btc <;> cases cash <;> simp

end Jaxnetd.Chaindata
