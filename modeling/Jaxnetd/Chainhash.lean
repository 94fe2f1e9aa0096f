import Mathlib

/-!
# Package `chainhash`

Hashes are an abstract type: the source's `Hash` is a 32-byte array and `HashH` a digest of byte
strings. Idealised assumptions on the digest (such as collision freedom) are impossible on a type
with `2^256` values, so the results that need one state it for the type at hand.
-/

namespace Jaxnetd

abbrev Bytes := List UInt8

/-- The hash type with its zero value (`chainhash.ZeroHash`), its bytes and the digest `HashH`. -/
class ChainHash (H : Type) where
  zeroHash : H
  bytes : H → List UInt8
  hashH : List UInt8 → H

/-- The array behind a hash, for code that reads hashes from bytes. -/
class HashArray (H : Type) [ChainHash H] where
  ofBytes : Bytes → H
  length_bytes (h : H) : (ChainHash.bytes h).length = 32
  ofBytes_bytes (h : H) : ofBytes (ChainHash.bytes h) = h
  bytes_ofBytes {b : Bytes} : b.length = 32 → ChainHash.bytes (ofBytes b) = b

theorem HashArray.bytes_inj {H : Type} [ChainHash H] [HashArray H] {a b : H}
    (h : ChainHash.bytes a = ChainHash.bytes b) : a = b := by
  rw [← HashArray.ofBytes_bytes a, h, HashArray.ofBytes_bytes]

/-- A small hash to run the models with: one byte a hash, and a digest that sums. -/
@[reducible] def sumHash : ChainHash Nat where
  zeroHash := 0
  bytes n := [UInt8.ofNat n]
  hashH data := 100 + (data.map UInt8.toNat).sum

/-- Hashes of the size that the source has, with a digest that keeps the first 32 bytes. -/
abbrev HeadHash := { b : Bytes // b.length = 32 }

@[reducible] def headHash : ChainHash HeadHash where
  zeroHash := ⟨List.replicate 32 0, List.length_replicate⟩
  bytes h := h.1
  hashH data := ⟨(data ++ List.replicate 32 0).take 32, by simp⟩

@[reducible] def headHashArray : @HashArray HeadHash headHash :=
  @HashArray.mk HeadHash headHash (fun b => if h : b.length = 32 then ⟨b, h⟩ else headHash.zeroHash)
    (fun h => h.2) (fun h => dif_pos h.2) (fun h => by rw [dif_pos h]; rfl)

def doubleHashH {H : Type} [ChainHash H] (b : List UInt8) : H :=
  ChainHash.hashH (ChainHash.bytes (ChainHash.hashH b : H))

/-- `HashB`, which is also `sha256.Sum256`. -/
def hashB (H : Type) [ChainHash H] (b : Bytes) : Bytes := ChainHash.bytes (ChainHash.hashH b : H)

def doubleHashB (H : Type) [ChainHash H] (b : Bytes) : Bytes := ChainHash.bytes (doubleHashH b : H)

def hexByte (b : UInt8) : String :=
  let digit (n : Nat) : String := String.singleton (Nat.digitChar n)
  digit (b.toNat / 16) ++ digit (b.toNat % 16)

/-- The verb `%x` of a byte slice. -/
def hexString (bs : Bytes) : String := String.join (bs.map hexByte)

def hashString {H : Type} [ChainHash H] (h : H) : String := hexString (ChainHash.bytes h).reverse

/-- The `w` low bytes of a number, little-endian. -/
def leBytes : Nat → Nat → List UInt8
  | 0, _ => []
  | w + 1, n => UInt8.ofNat (n % 256) :: leBytes w (n / 256)

theorem length_leBytes (w n : Nat) : (leBytes w n).length = w := by
  induction w generalizing n with
  | zero => rfl
  | succ w ih => rw [leBytes, List.length_cons, ih]

/-- Big-endian base-256 digits, with `fuel` an upper bound on their number. -/
def bigBytesAux : Nat → Nat → List UInt8
  | 0, _ => []
  | fuel + 1, n => if n = 0 then [] else bigBytesAux fuel (n / 256) ++ [UInt8.ofNat (n % 256)]

/-- `big.Int.Bytes`: the absolute value as a big-endian byte string without leading zeroes. -/
def bigBytes (x : Int) : List UInt8 := bigBytesAux x.natAbs x.natAbs

def nextPowerOfTwo (n : Nat) : Nat := if n &&& (n - 1) = 0 then n else 2 ^ (Nat.log2 n + 1)

def copyAt (dst : List UInt8) (off : Nat) (src : List UInt8) : List UInt8 :=
  dst.take off ++ src.take (dst.length - off) ++ dst.drop (off + src.length)

end Jaxnetd
