import Jaxnetd.TxScript.Opcode

/-!
# Package `txscript`: numbers and stacks

`scriptnum.go` and `stack.go`. A stack is the list of its items with the top first; its operations are
state transitions that may fail, as the methods of the source are.
-/

namespace Jaxnetd.TxScript
open Checks

/-! ## Numbers -/

def maxInt32 : Int := 2 ^ 31 - 1

def minInt32 : Int := -2 ^ 31

def defaultScriptNumLen : Nat := 4

def msb (v : Bytes) : Nat := (v.getLastD 0).toNat

def checkMinimalDataEncoding (v : Bytes) : Except ScriptError Unit :=
  failIf (v ≠ [] ∧ msb v &&& 0x7f = 0 ∧ (v.length = 1 ∨ msb v.dropLast &&& 0x80 = 0))
    ⟨.minimalData, "numeric value encoded as " ++ hexString v ++ " is not minimally encoded"⟩

/-- The little-endian digits of a number, without leading zeroes. Nine bytes hold every 64-bit number. -/
def magnitudeBytes : Nat → Nat → Bytes
  | 0, _ => []
  | fuel + 1, n => if n = 0 then [] else UInt8.ofNat (n % 256) :: magnitudeBytes fuel (n / 256)

def scriptNumBytes (n : Int) : Bytes :=
  let result := magnitudeBytes 9 n.natAbs
  let sign : UInt8 := if n < 0 then 0x80 else 0x00
  if n = 0 then []
  else if msb result &&& 0x80 ≠ 0 then result ++ [sign]
  else if n < 0 then result.dropLast ++ [UInt8.ofNat (msb result ||| 0x80)]
  else result

def scriptNumInt32 (n : Int) : Int := if maxInt32 < n then maxInt32 else if n < minInt32 then minInt32 else n

def makeScriptNum (v : Bytes) (requireMinimal : Bool) (scriptNumLen : Nat) : Except ScriptError Int := do
  failIf (scriptNumLen < v.length) ⟨.numberTooBig, "numeric value encoded as " ++ hexString v ++ " is " ++
    toString v.length ++ " bytes which exceeds the max allowed of " ++ toString scriptNumLen⟩
  if requireMinimal then checkMinimalDataEncoding v else .ok ()
  if msb v &&& 0x80 ≠ 0 then
    -- the sign bit is part of the little-endian number
    return -((leNat v : Int) - 0x80 * 2 ^ (8 * (v.length - 1)))
  else return leNat v

/-! ## Stacks -/

/-- A negative zero is false, as every other string of zeroes. -/
def asBool : Bytes → Bool
  | [] => false
  | [b] => b ≠ 0 && b ≠ 0x80
  | b :: bs => b ≠ 0 || asBool bs

def fromBool (v : Bool) : Bytes := if v then [1] else []

structure Stack where
  stk : List Bytes
  verifyMinimalData : Bool
deriving DecidableEq, Repr

abbrev StackM := StateT Stack (Except ScriptError)

namespace Stack

def depth (s : Stack) : Nat := s.stk.length

/-- The items with the top last, as `getStack` gives them. -/
def toArray (s : Stack) : List Bytes := s.stk.reverse

def setArray (s : Stack) (data : List Bytes) : Stack := { s with stk := data.reverse }

def pushByteArray (so : Bytes) : StackM Unit := modify fun s => { s with stk := so :: s.stk }

def pushInt (val : Int) : StackM Unit := pushByteArray (scriptNumBytes val)

def pushBool (val : Bool) : StackM Unit := pushByteArray (fromBool val)

variable (idx : Int)

def invalidIndex (s : Stack) : ScriptError :=
  ⟨.invalidStackOperation, "index " ++ toString idx ++ " is invalid for stack size " ++ toString s.depth⟩

def item (s : Stack) : Except ScriptError Bytes :=
  if idx < 0 then .error (invalidIndex idx s) else orFail (invalidIndex idx s) s.stk[idx.toNat]?

def peekByteArray : StackM Bytes := fun s => do return (← item idx s, s)

def nipN : StackM Bytes := fun s => do
  return (← item idx s, { s with stk := s.stk.eraseIdx idx.toNat })

def popByteArray : StackM Bytes := nipN 0

def popInt : StackM Int := do
  let so ← popByteArray
  makeScriptNum so (← get).verifyMinimalData defaultScriptNumLen

def popBool : StackM Bool := do return asBool (← popByteArray)

def tuck : StackM Unit := do
  let so2 ← popByteArray
  let so1 ← popByteArray
  pushByteArray so2
  pushByteArray so1
  pushByteArray so2

variable (n : Int)

/-- The error of the methods that take a number of items, when it is not positive. -/
def needPositive (verb rest : String) : StackM Unit := fun s =>
  if n < 1 then .error ⟨.invalidStackOperation, "attempt to " ++ verb ++ " " ++ toString n ++ " " ++ rest⟩
  else .ok ((), s)

/-- The loops of the methods below: `n` rounds of one step. -/
def repeatN : Nat → StackM Unit → StackM Unit
  | 0, _ => pure ()
  | n + 1, step => do step; repeatN n step

def dropN : StackM Unit := do
  needPositive n "drop" "items from stack"
  repeatN n.toNat do let _ ← popByteArray

def dupN : StackM Unit := do
  needPositive n "dup" "stack items"
  repeatN n.toNat do pushByteArray (← peekByteArray (n - 1))

def rotN : StackM Unit := do
  needPositive n "rotate" "stack items"
  repeatN n.toNat do pushByteArray (← nipN (3 * n - 1))

def swapN : StackM Unit := do
  needPositive n "swap" "stack items"
  repeatN n.toNat do pushByteArray (← nipN (2 * n - 1))

def overN : StackM Unit := do
  needPositive n "perform over on" "stack items"
  repeatN n.toNat do pushByteArray (← peekByteArray (2 * n - 1))

def pickN : StackM Unit := do pushByteArray (← peekByteArray n)

def rollN : StackM Unit := do pushByteArray (← nipN n)

end Stack

end Jaxnetd.TxScript
