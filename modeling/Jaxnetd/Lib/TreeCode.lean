import Jaxnetd.Lib.SlotTree

/-!
# Trees as bit strings

The code of a `SlotTree` in preorder, which `readTree` reads, and the tree that an assignment of values to
`2^e` slots collapses to: subtrees without any value and subtrees full of them become leaves. Nodes are
numbered from the root `1` on, `2 * x` and `2 * x + 1` being the children of `x`.
-/

namespace SlotTree
open List
variable {α β : Type} {pos e : Nat} {marks : Nat → Bool} {t : SlotTree Nat}

def Reads (get : Nat → α) : Nat → List α → Prop
  | _, [] => True
  | pos, a :: l => get pos = a ∧ Reads get (pos + 1) l

variable {get : Nat → α} {l : List α} {bit : Nat → Bool} {idx : Nat}

theorem reads_append {m : List α} : Reads get pos (l ++ m) ↔ Reads get pos l ∧ Reads get (pos + l.length) m := by
  induction l generalizing pos with
  | nil => simp [Reads]
  | cons a l ih => rw [cons_append, Reads, Reads, ih, length_cons, and_assoc, Nat.add_assoc, Nat.add_comm 1]

theorem reads_of_getD {z : α} (h : ∀ i < l.length, get (pos + i) = l.getD i z) : Reads get pos l := by
  induction l generalizing pos with
  | nil => trivial
  | cons a l ih =>
    refine ⟨h 0 (by simp), ih fun i hi => ?_⟩
    rw [Nat.add_assoc, Nat.add_comm 1, h (i + 1) (by simpa using hi), getD_cons_succ]

theorem reads_getD (l : List α) (z : α) : Reads (fun i => l.getD i z) 0 l :=
  reads_of_getD (z := z) fun i _ => by rw [Nat.zero_add]

/-! ## The code in preorder -/

def leaves : SlotTree α → List α
  | leaf a => [a]
  | node l r => l.leaves ++ r.leaves

def preorder : SlotTree α → List Bool
  | leaf _ => [false]
  | node l r => true :: (l.preorder ++ r.preorder)

def inner : SlotTree α → Nat
  | leaf _ => 0
  | node l r => l.inner + r.inner + 1

def number : SlotTree α → Nat → SlotTree Nat
  | leaf _, idx => leaf idx
  | node l r, idx => node (l.number idx) (r.number (idx + l.leaves.length))

theorem length_leaves (t : SlotTree α) : t.leaves.length = t.inner + 1 := by
  induction t with
  | leaf a => rfl
  | node l r ihl ihr =>
    rw [leaves, length_append, ihl, ihr, inner]
    omega

theorem length_preorder (t : SlotTree α) : t.preorder.length = 2 * t.inner + 1 := by
  induction t with
  | leaf a => rfl
  | node l r ihl ihr =>
    rw [preorder, length_cons, length_append, ihl, ihr, inner]
    omega

theorem count_preorder (t : SlotTree α) : t.preorder.count true = t.inner := by
  induction t with
  | leaf a => rfl
  | node l r ihl ihr => simp [preorder, inner, ihl, ihr]

theorem inner_lt {t : SlotTree α} (h : t.depth ≤ e) : t.inner < 2 ^ e := by
  induction t generalizing e with
  | leaf a => exact Nat.pow_pos (by decide)
  | node l r ihl ihr =>
    rw [depth] at h
    obtain ⟨e, rfl⟩ : ∃ e', e = e' + 1 := ⟨e - 1, by omega⟩
    have hl := ihl (e := e) (by omega)
    have hr := ihr (e := e) (by omega)
    rw [inner, Nat.pow_succ]
    omega

theorem preorder_eq_concat (t : SlotTree α) : ∃ p, t.preorder = p ++ [false] := by
  induction t with
  | leaf a => exact ⟨[], rfl⟩
  | node l r _ ihr =>
    obtain ⟨p, hp⟩ := ihr
    exact ⟨true :: (l.preorder ++ p), by rw [preorder, hp, cons_append, append_assoc]⟩

theorem preorder_node (l r : SlotTree α) : ∃ p, (node l r).preorder = p ++ [false, false] := by
  induction r generalizing l with
  | leaf a =>
    obtain ⟨p, hp⟩ := preorder_eq_concat l
    exact ⟨true :: p, by rw [preorder, preorder, hp, append_assoc]; rfl⟩
  | node rl rr _ ih =>
    obtain ⟨p, hp⟩ := ih rl
    exact ⟨true :: (l.preorder ++ p), by rw [preorder, hp, cons_append, append_assoc]⟩

theorem readTree_preorder (t : SlotTree α) (hd : t.depth ≤ e) (h : Reads bit pos t.preorder) :
    readTree bit e pos idx = some (t.number idx, pos + t.preorder.length, idx + t.leaves.length) := by
  induction t generalizing e pos idx with
  | leaf a =>
    have hbit : bit pos = false := h.1
    cases e with
    | zero => simp [readTree, hbit, number, preorder, leaves]
    | succ e => simp [readTree, hbit, number, preorder, leaves]
  | node l r ihl ihr =>
    rw [depth] at hd
    obtain ⟨e, rfl⟩ : ∃ e', e = e' + 1 := ⟨e - 1, by omega⟩
    obtain ⟨hbit, hrest⟩ : bit pos = true ∧ Reads bit (pos + 1) (l.preorder ++ r.preorder) := h
    obtain ⟨hl, hr⟩ := reads_append.1 hrest
    simp only [readTree, hbit, if_true, ihl (e := e) (by omega) hl, ihr (e := e) (by omega) hr, Option.bind_eq_bind,
      Option.bind_some, Option.pure_def, number, preorder, leaves, length_cons, length_append,
      Option.some.injEq, Prod.mk.injEq, true_and]
    omega

theorem reads_of_readTree {t : SlotTree Nat × Nat × Nat}
    (h : readTree bit e pos idx = some t) : Reads bit pos t.1.preorder ∧ t.2.1 = pos + t.1.preorder.length ∧
      t.2.2 = idx + t.1.leaves.length := by
  refine readTree_induct (motive := fun _ pos idx t pos' idx' => Reads bit pos t.preorder ∧
    pos' = pos + t.preorder.length ∧ idx' = idx + t.leaves.length) (fun _ _ _ hb => ⟨⟨hb, trivial⟩, rfl, rfl⟩) ?_ h
  rintro _ pos idx l _ _ r _ _ hb ⟨hl, rfl, rfl⟩ ⟨hr, rfl, rfl⟩
  refine ⟨⟨hb, reads_append.2 ⟨hl, hr⟩⟩, ?_, ?_⟩
  · rw [preorder, length_cons, length_append]
    omega
  · rw [leaves, length_append, Nat.add_assoc]

theorem Reads.eq_map (h : Reads get pos l) : l = (List.range' pos l.length).map get := by
  induction l generalizing pos with
  | nil => rfl
  | cons a l ih => rw [length_cons, List.range'_succ, map_cons, ← ih h.2, h.1]

/-- No proper start of a code has more leaves than nodes. -/
theorem count_take_preorder (t : SlotTree α) {n : Nat} (h : n < t.preorder.length) :
    (t.preorder.take n).count false ≤ (t.preorder.take n).count true := by
  induction t generalizing n with
  | leaf a =>
    obtain rfl : n = 0 := by simpa [preorder] using h
    simp
  | node l r ihl ihr =>
    rw [preorder, length_cons, length_append] at h
    cases n with
    | zero => simp
    | succ n =>
      rw [preorder, take_succ_cons, take_append]
      simp only [count_cons, count_append]
      by_cases hn : n < l.preorder.length
      · have := ihl hn
        simp [show n - l.preorder.length = 0 by omega]
        omega
      · have hleft := count_false_add_count_true l.preorder
        rw [length_preorder, count_preorder] at hleft
        have := ihr (n := n - l.preorder.length) (by omega)
        rw [take_of_length_le (by omega), count_preorder]
        simp
        omega

theorem root_number (pair : β → β → β) (f : α → β) (t : SlotTree α) {g : Nat → β}
    (h : Reads g idx (t.leaves.map f)) : (t.number idx).root pair g = t.root pair f := by
  induction t generalizing idx with
  | leaf a => exact h.1
  | node l r ihl ihr =>
    rw [leaves, map_append, reads_append, length_map] at h
    rw [number, root, root, ihl h.1, ihr h.2]

def unmarked (marks : Nat → Bool) : Nat → SlotTree Nat → Nat
  | e, leaf i => if marks i then 0 else 2 ^ e
  | e, node l r => unmarked marks (e - 1) l + unmarked marks (e - 1) r

def marked (marks : Nat → Bool) : Nat → SlotTree Nat → Nat
  | e, leaf i => if marks i then 2 ^ e else 0
  | e, node l r => marked marks (e - 1) l + marked marks (e - 1) r

theorem marked_add_unmarked (hd : t.depth ≤ e) : marked marks e t + unmarked marks e t = 2 ^ e := by
  induction t generalizing e with
  | leaf i =>
    rw [marked, unmarked]
    split
    · rw [Nat.add_zero]
    · rw [Nat.zero_add]
  | node l r ihl ihr =>
    rw [depth] at hd
    obtain ⟨e, rfl⟩ : ∃ e', e = e' + 1 := ⟨e - 1, by omega⟩
    have hl := ihl (e := e) (by omega)
    have hr := ihr (e := e) (by omega)
    rw [marked, unmarked, Nat.add_sub_cancel, Nat.pow_succ]
    omega

theorem marked_of_none (h : ∀ i, marks i = false) (e : Nat) (t : SlotTree Nat) : marked marks e t = 0 := by
  induction t generalizing e with
  | leaf i => simp [marked, h i]
  | node l r ihl ihr => rw [marked, ihl, ihr]

theorem unmarked_of_none (h : ∀ i, marks i = false) (hd : t.depth ≤ e) : unmarked marks e t = 2 ^ e := by
  rw [← marked_add_unmarked hd, marked_of_none h, Nat.zero_add]

theorem unmarked_le (hd : t.depth ≤ e) : unmarked marks e t ≤ 2 ^ e := by
  rw [← marked_add_unmarked hd]
  exact Nat.le_add_left _ _

theorem depth_number (t : SlotTree α) (idx : Nat) : (t.number idx).depth = t.depth := by
  induction t generalizing idx with
  | leaf a => rfl
  | node l r ihl ihr => rw [number, depth, depth, ihl, ihr]

/-! ## Collapsed trees -/

def isNode : SlotTree α → Bool
  | leaf _ => false
  | node _ _ => true

/-- The tree over two trees, a leaf again if both are empty or both are full. -/
def join (pair : β → β → β) : SlotTree (Option β) → SlotTree (Option β) → SlotTree (Option β)
  | leaf none, leaf none => leaf none
  | leaf (some a), leaf (some b) => leaf (some (pair a b))
  | l, r => node l r

/-- The tree of height `e` under the node `x`, with `s` the values of the slots by their node. -/
def collapse (pair : β → β → β) (s : Nat → Option β) : Nat → Nat → SlotTree (Option β)
  | 0, x => leaf (s x)
  | e + 1, x => join pair (collapse pair s e (2 * x)) (collapse pair s e (2 * x + 1))

section
variable {pair : β → β → β} {l r : SlotTree (Option β)} {s : Nat → Option β}

@[simp] theorem join_eq_empty : join pair l r = leaf none ↔ l = leaf none ∧ r = leaf none := by
  rcases l with (_ | a) | _ <;> rcases r with (_ | b) | _ <;> simp [join]

theorem join_eq_full {c : β} (h : join pair l r = leaf (some c)) : ∃ a b, l = leaf (some a) ∧ r = leaf (some b) := by
  rcases l with (_ | a) | _ <;> rcases r with (_ | b) | _ <;> simp_all [join]

theorem join_eq_node {l' r' : SlotTree (Option β)} (h : join pair l r = node l' r') : l = l' ∧ r = r' := by
  rcases l with (_ | a) | _ <;> rcases r with (_ | b) | _ <;> simp_all [join]

theorem root_join {z : β} (h : join pair l r ≠ leaf none) :
    (join pair l r).root pair (·.getD z) = pair (l.root pair (·.getD z)) (r.root pair (·.getD z)) := by
  rcases l with (_ | a) | _ <;> rcases r with (_ | b) | _ <;> simp_all [join, root]

theorem isNode_join (h : join pair l r ≠ leaf none) :
    (join pair l r).isNode = true ↔ l = leaf none ∨ r = leaf none ∨ l.isNode = true ∨ r.isNode = true := by
  rcases l with (_ | a) | _ <;> rcases r with (_ | b) | _ <;> simp_all [join, isNode]

theorem depth_join_le (pair : β → β → β) (l r : SlotTree (Option β)) : (join pair l r).depth ≤ max l.depth r.depth + 1 := by
  rcases l with (_ | a) | _ <;> rcases r with (_ | b) | _ <;> simp [join, depth]

theorem depth_collapse_le (e x : Nat) : (collapse pair s e x).depth ≤ e := by
  induction e generalizing x with
  | zero => exact Nat.le_refl 0
  | succ e ih =>
    have hl := ih (2 * x)
    have hr := ih (2 * x + 1)
    have := depth_join_le pair (collapse pair s e (2 * x)) (collapse pair s e (2 * x + 1))
    rw [collapse]
    omega

variable {x : Nat}

theorem forall_slots_succ {P : Nat → Prop} : (∀ i < 2 ^ (e + 1), P (x * 2 ^ (e + 1) + i)) ↔
      (∀ i < 2 ^ e, P (2 * x * 2 ^ e + i)) ∧ ∀ i < 2 ^ e, P ((2 * x + 1) * 2 ^ e + i) := by
  have hl : x * 2 ^ (e + 1) = 2 * x * 2 ^ e := by ring
  have hr : (2 * x + 1) * 2 ^ e = 2 * x * 2 ^ e + 2 ^ e := by ring
  rw [hl, hr, Nat.pow_succ]
  constructor
  · intro h
    refine ⟨fun i hi => h i (by omega), fun i hi => ?_⟩
    rw [Nat.add_assoc]
    exact h (2 ^ e + i) (by omega)
  · rintro ⟨hleft, hright⟩ i hi
    by_cases hlt : i < 2 ^ e
    · exact hleft i hlt
    · have := hright (i - 2 ^ e) (by omega)
      rwa [Nat.add_assoc, Nat.add_sub_cancel' (by omega)] at this

theorem collapse_eq_empty : collapse pair s e x = leaf none ↔ ∀ i < 2 ^ e, s (x * 2 ^ e + i) = none := by
  induction e generalizing x with
  | zero => simp [collapse]
  | succ e ih => rw [collapse, join_eq_empty, ih, ih, forall_slots_succ (P := fun y => s y = none)]

theorem collapse_congr {s' : Nat → Option β} (h : ∀ i < 2 ^ e, s (x * 2 ^ e + i) = s' (x * 2 ^ e + i)) :
    collapse pair s e x = collapse pair s' e x := by
  induction e generalizing x with
  | zero => simpa [collapse] using h
  | succ e ih =>
    obtain ⟨hl, hr⟩ := (forall_slots_succ (P := fun y => s y = s' y)).1 h
    rw [collapse, collapse, ih hl, ih hr]

theorem collapse_eq_full : (∃ a, collapse pair s e x = leaf (some a)) ↔ ∀ i < 2 ^ e, s (x * 2 ^ e + i) ≠ none := by
  induction e generalizing x with
  | zero => simp [collapse, Option.ne_none_iff_exists']
  | succ e ih =>
    rw [forall_slots_succ (P := fun y => s y ≠ none), ← ih, ← ih, collapse]
    constructor
    · rintro ⟨c, hc⟩
      obtain ⟨a, b, ha, hb⟩ := join_eq_full hc
      exact ⟨⟨a, ha⟩, ⟨b, hb⟩⟩
    · rintro ⟨⟨a, ha⟩, ⟨b, hb⟩⟩
      exact ⟨pair a b, by rw [ha, hb, join]⟩

theorem isNode_collapse : (collapse pair s e x).isNode = true ↔
    (∃ i < 2 ^ e, s (x * 2 ^ e + i) ≠ none) ∧ ∃ i < 2 ^ e, s (x * 2 ^ e + i) = none := by
  have hempty : ¬collapse pair s e x = leaf none ↔ _ := not_congr collapse_eq_empty
  have hfull : ¬(∃ a, collapse pair s e x = leaf (some a)) ↔ _ := not_congr collapse_eq_full
  push Not at hempty hfull
  rw [← hempty, ← hfull]
  rcases collapse pair s e x with (_ | a) | _ <;> simp [isNode]

end

end SlotTree
