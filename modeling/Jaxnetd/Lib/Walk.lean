import Jaxnetd.Lib.Checks
import Jaxnetd.Lib.GoMap

/-!
# Walks with a cache

From one node of a graph to those next to it, and on from each of these: the nodes that such a walk finds are those that
can be reached. A walk keeps what it found from a node under the key of the node, and hands these results on to the walks
it calls.
-/

namespace Walk
open Checks List

variable {K α β ε σ : Type} {key : α → K} {nodes : Set α} {P : α → β → Prop}

/-! ## Results kept in a cache -/

/-- Each entry is a right result for the nodes with its key. -/
def Sound (nodes : Set α) (key : α → K) (P : α → β → Prop) (cache : GoMap K β) : Prop :=
  ∀ a ∈ nodes, ∀ b, cache.get (key a) = some b → P a b

variable {cache cache' : GoMap K β} {a c : α} {b : β}

theorem Sound.empty : Sound nodes key P .empty := by
  intro a _ b hb
  cases hb

variable [DecidableEq K]

theorem Sound.set (h : Sound nodes key P cache) (hkey : nodes.InjOn key) (ha : a ∈ nodes) (hb : P a b) :
    Sound nodes key P (cache.set (key a) b) := by
  intro a' ha' b' hb'
  rcases GoMap.get_set_cases hb' with ⟨heq, rfl⟩ | hold
  · rwa [hkey ha' ha heq]
  · exact h a' ha' b' hold

/-- The result that the cache has, or that of a call, which goes into the cache. -/
def cached (key : α → K) (visit : α → GoMap K β → Except ε (β × GoMap K β)) (a : α) (cache : GoMap K β) :
    Except ε (β × GoMap K β) :=
  match cache.get (key a) with
  | some b => .ok (b, cache)
  | none => do
    let (b, cache) ← visit a cache
    return (b, cache.set (key a) b)

section
variable {visit : α → GoMap K β → Except ε (β × GoMap K β)}

theorem Sound.cached (h : Sound nodes key P cache) (hkey : nodes.InjOn key) (ha : a ∈ nodes)
    (hvisit : ∀ b cache', visit a cache = .ok (b, cache') → P a b ∧ Sound nodes key P cache')
    (hrun : cached key visit a cache = .ok (b, cache')) : P a b ∧ Sound nodes key P cache' := by
  unfold Walk.cached at hrun
  split at hrun
  next hb =>
    cases hrun
    exact ⟨h a ha _ hb, h⟩
  · simp only [ok_rules] at hrun
    obtain ⟨b, cache₁, hcall, rfl, rfl⟩ := hrun
    obtain ⟨hb, h₁⟩ := hvisit _ _ hcall
    exact ⟨hb, h₁.set hkey ha hb⟩

theorem avoids_cached {bad : ε → Prop} (hvisit : Avoids bad (visit a cache)) : Avoids bad (cached key visit a cache) := by
  unfold Walk.cached
  split
  · exact avoids_ok
  · exact avoids_bind.2 ⟨hvisit, fun _ _ => avoids_ok⟩

end

/-! ## Nodes found -/

/-- A map from keys to nodes is a list of nodes with different keys. -/
def insertKey (key : α → K) (a : α) (found : List α) : List α := a :: found.filter (key · ≠ key a)

def insertAll (key : α → K) (more found : List α) : List α := more.foldl (fun found a => insertKey key a found) found

structure Distinct (nodes : Set α) (key : α → K) (found : List α) : Prop where
  held : ∀ a ∈ found, a ∈ nodes
  keys : found.Pairwise fun a b => key a ≠ key b

variable {found more as result : List α}

omit [DecidableEq K] in
theorem Distinct.nil : Distinct nodes key [] := ⟨fun _ h => absurd h not_mem_nil, .nil⟩

theorem Distinct.insertKey (h : Distinct nodes key found) (ha : a ∈ nodes) : Distinct nodes key (insertKey key a found) := by
  refine ⟨fun b hb => ?_, pairwise_cons.2 ⟨fun b hb => ?_, h.keys.filter _⟩⟩
  · rcases mem_cons.1 hb with rfl | hb
    · exact ha
    · exact h.held b (mem_filter.1 hb).1
  · exact (of_decide_eq_true (mem_filter.1 hb).2).symm

theorem Distinct.insertAll (h : Distinct nodes key found) (hmore : ∀ a ∈ more, a ∈ nodes) :
    Distinct nodes key (insertAll key more found) := by
  induction more generalizing found with
  | nil => exact h
  | cons a more ih =>
    rw [forall_mem_cons] at hmore
    exact ih (h.insertKey hmore.1) hmore.2

theorem mem_insertKey (h : Distinct nodes key found) (hkey : nodes.InjOn key) (ha : a ∈ nodes) :
    c ∈ insertKey key a found ↔ c = a ∨ c ∈ found := by
  rw [insertKey, mem_cons, mem_filter]
  refine or_congr_right' fun hne => and_iff_left_of_imp fun hc => ?_
  simpa using fun heq => hne (hkey (h.held c hc) ha heq)

theorem mem_insertAll (h : Distinct nodes key found) (hkey : nodes.InjOn key) (hmore : ∀ a ∈ more, a ∈ nodes) :
    c ∈ insertAll key more found ↔ c ∈ more ∨ c ∈ found := by
  induction more generalizing found with
  | nil => simp [insertAll]
  | cons a more ih =>
    rw [forall_mem_cons] at hmore
    rw [insertAll, foldl_cons, ← insertAll, ih (h.insertKey hmore.1) hmore.2, mem_insertKey h hkey hmore.1, mem_cons]
    tauto

/-! ## Walks -/

/-- The nodes next to one, each with those that a visit of it gives. -/
def gather (key : α → K) (visit : α → σ → Except ε (List α × σ)) : List α → List α → σ → Except ε (List α × σ)
  | [], found, s => .ok (found, s)
  | a :: as, found, s => do
    let (more, s) ← visit a s
    gather key visit as (insertAll key more (insertKey key a found)) s

/-- A walk, with a bound on how deep its calls can nest. -/
def search (key : α → K) (next : α → List α) (stop : ε) : Nat → α → GoMap K (List α) →
    Except ε (List α × GoMap K (List α))
  | 0, _, _ => .error stop
  | depth + 1, a, cache => gather key (cached key (search key next stop depth)) (next a) [] cache

/-- The nodes that can be reached from one over at least one edge. -/
structure Closure (nodes : Set α) (key : α → K) (next : α → List α) (a : α) (found : List α) : Prop
    extends Distinct nodes key found where
  reached : ∀ c, c ∈ found ↔ Relation.TransGen (fun a b => b ∈ next a) a c

variable {next : α → List α} {stop : ε}

theorem gather_spec {visit : α → σ → Except ε (List α × σ)} {s s' : σ} (I : σ → Prop) (hkey : nodes.InjOn key)
    (hvisit : ∀ a ∈ as, ∀ s more s', I s → visit a s = .ok (more, s') → Closure nodes key next a more ∧ I s')
    (has : ∀ a ∈ as, a ∈ nodes) (h : Distinct nodes key found) (hs : I s)
    (hrun : gather key visit as found s = .ok (result, s')) : Distinct nodes key result ∧
      (∀ c, c ∈ result ↔ c ∈ found ∨ ∃ a ∈ as, Relation.ReflTransGen (fun a b => b ∈ next a) a c) ∧ I s' := by
  induction as generalizing found s with
  | nil =>
    cases hrun
    simp [h, hs]
  | cons a as ih =>
    rw [forall_mem_cons] at has hvisit
    simp only [gather, ok_rules] at hrun
    obtain ⟨more, s₁, hmore, hrun⟩ := hrun
    obtain ⟨hclosure, hs₁⟩ := hvisit.1 _ _ _ hs hmore
    have hone := h.insertKey has.1
    obtain ⟨hdistinct, hmem, hs'⟩ := ih hvisit.2 has.2 (hone.insertAll hclosure.held) hs₁ hrun
    refine ⟨hdistinct, fun c => ?_, hs'⟩
    rw [hmem, mem_insertAll hone hkey hclosure.held, mem_insertKey h hkey has.1, hclosure.reached, exists_mem_cons_iff,
      Relation.reflTransGen_iff_eq_or_transGen]
    tauto

/-- A walk finds the transitive closure, whatever right results its cache has already. -/
theorem search_spec (hkey : nodes.InjOn key) (hnext : ∀ a, ∀ c ∈ next a, c ∈ nodes) {n : Nat}
    {cache cache' : GoMap K (List α)} (h : Sound nodes key (Closure nodes key next) cache)
    (hrun : search key next stop n a cache = .ok (found, cache')) :
    Closure nodes key next a found ∧ Sound nodes key (Closure nodes key next) cache' := by
  induction n generalizing a found cache cache' with
  | zero => cases hrun
  | succ n ih =>
    rw [search] at hrun
    obtain ⟨hdistinct, hmem, hsound⟩ := gather_spec (Sound nodes key (Closure nodes key next)) hkey
      (fun c hc s more s' hs => hs.cached hkey (hnext a c hc) fun _ _ => ih hs) (hnext a) .nil h hrun
    refine ⟨⟨hdistinct, fun c => ?_⟩, hsound⟩
    rw [hmem, Relation.TransGen.head'_iff]
    simp

section
variable {bad : ε → Prop}

theorem avoids_gather {visit : α → σ → Except ε (List α × σ)} (hvisit : ∀ a ∈ as, ∀ s, Avoids bad (visit a s)) (s : σ) :
    Avoids bad (gather key visit as found s) := by
  induction as generalizing found s with
  | nil => exact avoids_ok
  | cons a as ih =>
    rw [forall_mem_cons] at hvisit
    exact avoids_bind.2 ⟨hvisit.1 s, fun _ _ => ih hvisit.2 _⟩

/-- A walk along falling ranks nests no deeper than the ranks are high. -/
theorem avoids_search (nodes : Set α) (rank : α → Nat) {n : Nat} (hnext : ∀ a, ∀ c ∈ next a, c ∈ nodes)
    (hrank : ∀ a ∈ nodes, ∀ c ∈ next a, rank c < rank a) (ha : ∀ c ∈ next a, rank c < n) (cache : GoMap K (List α)) :
    Avoids bad (search key next stop (n + 1) a cache) := by
  induction n generalizing a cache with
  | zero => exact avoids_gather (fun c hc => absurd (ha c hc) (Nat.not_lt_zero _)) cache
  | succ n ih =>
    refine avoids_gather (fun c hc s => avoids_cached (ih (fun c' hc' => ?_) s)) cache
    have := hrank c (hnext a c hc) c' hc'
    have := ha c hc
    omega

end

end Walk
