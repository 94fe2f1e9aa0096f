import Jaxnetd.TxScript.LockScript
import Jaxnetd.Wire.TxCodec

/-!
# Scripts and their opcodes

`parseScript` and `unparseScript` undo each other on the scripts that parse and on the opcodes whose data fits them. The
parser of the source moves a cursor over one string; `parseAt` reads it that way, and no read of it is out of range.
-/

namespace Jaxnetd.TxScript
open Checks List

variable {script rest : Bytes} {i n : Nat} {pop : ParsedOpcode} {pops : List ParsedOpcode}

/-- The data has the length that the opcode fixes, or one that the length bytes after the opcode can say. -/
def ParsedOpcode.Fits (pop : ParsedOpcode) : Prop :=
  pop.value < 256 ∧ if 0 < opLength pop.value then (pop.data.length + 1 : Int) = opLength pop.value
    else pop.data.length < 256 ^ (opLength pop.value).natAbs

theorem encodes_wide {data : Bytes} {value width : Nat} (hvalue : value < 256) (hlen : opLength value = -(width : Int))
    (hwidth : 0 < width) (hdata : data.length < 256 ^ width) :
    Encodes (UInt8.ofNat value :: leBytes width data.length ++ data) ⟨value, data⟩ := by
  intro rest
  rw [cons_append, cons_append]
  refine parsed_cons ?_
  have hbyte : (UInt8.ofNat value).toNat = value := by
    rw [UInt8.toNat_ofNat']
    omega
  have hone : ¬(-(width : Int) = 1) := by omega
  have hwide : ¬(1 < -(width : Int)) := by omega
  have htake : (leBytes width data.length ++ (data ++ rest)).take width = leBytes width data.length := by
    rw [take_append_of_le_length (by rw [length_leBytes]), take_of_length_le (by rw [length_leBytes])]
  have hdrop : (leBytes width data.length ++ (data ++ rest)).drop width = data ++ rest := by
    rw [drop_append_of_le_length (by rw [length_leBytes]), drop_of_length_le (by rw [length_leBytes]), nil_append]
  simp only [parseOpcode, hbyte, hlen, if_neg hone, if_neg hwide, Int.natAbs_neg, Int.natAbs_natCast, append_assoc,
    htake, hdrop, Wire.leNat_leBytes, Nat.mod_eq_of_lt hdata, take_left, drop_left, ok_rules, and_true,
    length_append, length_leBytes]
  omega

theorem encodes_bytes (h : pop.Fits) : ∃ bs, pop.bytes = .ok bs ∧ Encodes bs pop := by
  obtain ⟨hvalue, hdata⟩ := h
  rcases opLength_cases pop.value with hneg | hone | ⟨h1, h75, hlen⟩
  · rw [if_neg (by omega)] at hdata
    have hwidth : opLength pop.value = -((opLength pop.value).natAbs : Int) := by omega
    refine ⟨_, ?_, encodes_wide hvalue hwidth (by omega) hdata⟩
    simp only [ParsedOpcode.bytes, if_neg (show ¬opLength pop.value = 1 by omega), if_pos hneg, Nat.mod_eq_of_lt hdata,
      ok_rules, and_true, length_append, length_cons]
    omega
  · rw [if_pos (by omega)] at hdata
    have hnil : pop.data = [] := length_eq_zero_iff.1 (by omega)
    refine ⟨[UInt8.ofNat pop.value], by simp [ParsedOpcode.bytes, hone, hnil, failIf], ?_⟩
    exact (show pop = ⟨pop.value, []⟩ by rw [← hnil]) ▸ encodes_op hvalue hone
  · rw [if_pos (by omega)] at hdata
    refine ⟨UInt8.ofNat pop.value :: pop.data, ?_, ?_⟩
    · simp only [ParsedOpcode.bytes, if_neg (show ¬opLength pop.value = 1 by omega),
        if_neg (show ¬opLength pop.value < 0 by omega), ok_rules, cons_append, nil_append, length_cons, and_true]
      omega
    · have hencodes : Encodes _ ⟨_, pop.data⟩ := encodes_push (by omega) (by omega)
      rwa [show pop.data.length = pop.value by omega] at hencodes

theorem parsed_unparsed (h : ∀ pop ∈ pops, pop.Fits) :
    ∃ script, unparseScript pops = .ok script ∧ parsed script = .ok pops := by
  induction pops with
  | nil => exact ⟨[], rfl, rfl⟩
  | cons pop pops ih =>
    rw [forall_mem_cons] at h
    obtain ⟨bs, hbytes, hencodes⟩ := encodes_bytes h.1
    obtain ⟨script, hunparse, hparsed⟩ := ih h.2
    exact ⟨bs ++ script, unparseScript_cons hbytes hunparse, by rw [hencodes, hparsed]; rfl⟩

/-- The slice expression `script[low:high]`, which fails where it is out of range. -/
def slice (script : Bytes) (low high : Nat) : Option Bytes :=
  if low ≤ high ∧ high ≤ script.length then some ((script.drop low).take (high - low)) else none

/-- A round of `parseScriptTemplate` with the cursor at `i`: `none` where it reads out of range, else the opcode and the
cursor after it, or `none` where the push is malformed. -/
def parseAt (script : Bytes) (i : Nat) : Option (Option (ParsedOpcode × Nat)) := do
  let instr ← script[i]?
  let value := instr.toNat
  let len := opLength value
  if len = 1 then return some (⟨value, []⟩, i + 1)
  else if 1 < len then
    if ((← slice script i script.length).length : Int) < len then return none
    return some (⟨value, ← slice script (i + 1) (i + len.toNat)⟩, i + len.toNat)
  else
    let off := i + 1
    if (← slice script off script.length).length < len.natAbs then return none
    let l := leNat (← slice script off (off + len.natAbs))
    let off := off + len.natAbs
    if (← slice script off script.length).length < l then return none
    return some (⟨value, ← slice script off (off + l)⟩, off + l)

theorem slice_of_drop (h : script.drop i = rest) (hi : i ≤ script.length) (hn : n ≤ rest.length) :
    slice script i (i + n) = some (rest.take n) := by
  have hlen := congrArg List.length h
  rw [length_drop] at hlen
  rw [slice, if_pos (by omega), h, Nat.add_sub_cancel_left]

theorem slice_rest (h : script.drop i = rest) (hi : i ≤ script.length) : slice script i script.length = some rest := by
  have hlen := congrArg List.length h
  rw [length_drop] at hlen
  have hslice := slice_of_drop h hi (le_refl rest.length)
  rwa [take_length, show i + rest.length = script.length by omega] at hslice

theorem toOption_failIf_bind {ε α : Type} {p : Prop} [Decidable p] {e : ε} {f : Unit → Except ε α} :
    (failIf p e >>= f).toOption = if p then none else (f ()).toOption := by
  by_cases h : p
  · rw [if_pos h, failIf, if_pos h]
    rfl
  · rw [if_neg h, failIf, if_neg h]
    rfl

theorem parseAt_eq {instr : UInt8} (h : script.drop i = instr :: rest) :
    parseAt script i = some ((parseOpcode instr rest).toOption.map fun r => (r.1, script.length - r.2.length)) := by
  have hlen := congrArg List.length h
  rw [length_drop, length_cons] at hlen
  have hread : script[i]? = some instr := by rw [← head?_drop, h, head?_cons]
  have hrest : script.drop (i + 1) = rest := by rw [← drop_drop, h, drop_one, tail_cons]
  have hafter (n : Nat) : script.drop (i + 1 + n) = rest.drop n := by rw [← drop_drop, hrest]
  unfold parseAt parseOpcode
  simp only [hread, Option.bind_eq_bind, Option.bind_some, slice_rest h (by omega), slice_rest hrest (by omega), length_cons]
  generalize opLength instr.toNat = len
  by_cases h1 : len = 1
  · rw [if_pos h1, if_pos h1]
    refine congrArg (fun k => some (some (_, k))) ?_
    show i + 1 = script.length - rest.length
    omega
  rw [if_neg h1, if_neg h1]
  by_cases hpos : 1 < len
  · rw [if_pos hpos, if_pos hpos, toOption_failIf_bind]
    by_cases hshort : ((rest.length + 1 : Nat) : Int) < len
    · rw [if_pos hshort, if_pos (by omega)]
      rfl
    · have hslice := slice_of_drop hrest (by omega) (show len.toNat - 1 ≤ rest.length by omega)
      rw [show i + 1 + (len.toNat - 1) = i + len.toNat by omega] at hslice
      rw [if_neg hshort, if_neg (by omega), hslice]
      refine congrArg (fun k => some (some (_, k))) ?_
      show i + len.toNat = script.length - (rest.drop (len.toNat - 1)).length
      rw [length_drop]
      omega
  · rw [if_neg hpos, if_neg hpos, toOption_failIf_bind]
    by_cases hshort : rest.length < len.natAbs
    · rw [if_pos hshort, if_pos hshort]
      rfl
    rw [if_neg hshort, if_neg hshort, slice_of_drop hrest (by omega) (by omega), Option.bind_some,
      slice_rest (hafter _) (by omega), Option.bind_some, toOption_failIf_bind]
    by_cases hover : (rest.drop len.natAbs).length < leNat (rest.take len.natAbs)
    · rw [if_pos hover, if_pos hover]
      rfl
    · rw [if_neg hover, if_neg hover, slice_of_drop (hafter _) (by omega) (by omega)]
      refine congrArg (fun k => some (some (_, k))) ?_
      show _ = script.length - ((rest.drop len.natAbs).drop _).length
      rw [length_drop, length_drop] at *
      omega

theorem script_codec : (∀ script pops, parsed script = .ok pops → unparseScript pops = .ok script) ∧
    (∀ pops : List ParsedOpcode, (∀ pop ∈ pops, pop.Fits) →
      ∃ script, unparseScript pops = .ok script ∧ parsed script = .ok pops) ∧
    ∀ (script : Bytes) (i : Nat), i < script.length → ∃ instr rest, script.drop i = instr :: rest ∧
      parseAt script i = some ((parseOpcode instr rest).toOption.map fun r => (r.1, script.length - r.2.length)) := by
  refine ⟨fun _ _ h => (unparse_parsed h).1, fun _ => parsed_unparsed, fun script i hi => ?_⟩
  obtain ⟨instr, rest, hdrop⟩ := exists_cons_of_ne_nil (mt drop_eq_nil_iff.1 (Nat.not_le.2 hi))
  exact ⟨instr, rest, hdrop, parseAt_eq hdrop⟩

end Jaxnetd.TxScript
