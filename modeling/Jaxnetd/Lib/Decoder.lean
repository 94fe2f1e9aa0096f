import Mathlib

/-!
# Decoders of strings

A decoder takes a value off the front of a string or fails. What it returns on a string written for it
(`Reads`), and which strings it accepts and on which ones, up to a length, it ends in a bad failure (`Parses`), is
answered for a sequence from the answers for its parts.
-/

def Decoder (τ ε α : Type) := List τ → Except ε (α × List τ)

namespace Decoder
open List
variable {τ ε α β : Type} {s rest : List τ} {f : α → Decoder τ ε β} {e : ε} {write : α → List τ} {P : α → Prop}

instance : Monad (Decoder τ ε) where
  pure a := fun s => .ok (a, s)
  bind r f := fun s => match r s with
    | .ok (a, s) => f a s
    | .error e => .error e

def fail (e : ε) : Decoder τ ε α := fun _ => .error e

def failIf (c : Prop) [Decidable c] (e : ε) : Decoder τ ε Unit := if c then fail e else pure ()

def repeatN (r : Decoder τ ε α) : Nat → Decoder τ ε (List α)
  | 0 => pure []
  | n + 1 => do
    let a ← r
    let as ← repeatN r n
    return a :: as

theorem pure_run (a : α) (s : List τ) : (pure a : Decoder τ ε α) s = .ok (a, s) := rfl

variable {r : Decoder τ ε α} {a : α}

theorem pure_ok {b : α} : (pure a : Decoder τ ε α) s = .ok (b, rest) ↔ a = b ∧ s = rest := by
  rw [pure_run]
  simp

theorem bind_run (r : Decoder τ ε α) (f : α → Decoder τ ε β) (s : List τ) : (r >>= f) s = match r s with
      | .ok (a, s) => f a s
      | .error e => .error e := rfl

theorem bind_ok {b : β} : (r >>= f) s = .ok (b, rest) ↔ ∃ a s', r s = .ok (a, s') ∧ f a s' = .ok (b, rest) := by
  rw [bind_run]
  rcases r s with e | ⟨a, s'⟩ <;> simp

theorem bind_error : (r >>= f) s = .error e ↔ r s = .error e ∨ ∃ a s', r s = .ok (a, s') ∧ f a s' = .error e := by
  rw [bind_run]
  rcases r s with e' | ⟨a, s'⟩ <;> simp

theorem failIf_ok {c : Prop} [Decidable c] {u : Unit} :
    (failIf c e : Decoder τ ε Unit) s = .ok (u, rest) ↔ ¬c ∧ s = rest := by
  unfold failIf
  split
  · simp_all [fail]
  · simp_all [pure_run]

theorem failIf_error {c : Prop} [Decidable c] {e' : ε} :
    (failIf c e : Decoder τ ε Unit) s = .error e' ↔ c ∧ e = e' := by
  unfold failIf
  split
  · simp_all [fail]
  · simp_all [pure_run]

/-! ## What is read back -/

/-- On a string that starts with `w` the decoder returns `a` and leaves the rest. -/
def Reads (r : Decoder τ ε α) (w : List τ) (a : α) : Prop := ∀ rest, r (w ++ rest) = .ok (a, rest)

namespace Reads
variable {r : Decoder τ ε α} {w w' : List τ} {a a' : α}

protected theorem pure (a : α) : Reads (pure a : Decoder τ ε α) [] a := fun _ => rfl

protected theorem bind {f : α → Decoder τ ε β} {b : β} (h : Reads r w a) (h' : Reads (f a) w' b) :
    Reads (r >>= f) (w ++ w') b := by
  intro rest
  rw [bind_run, append_assoc, h]
  exact h' rest

protected theorem failIf {c : Prop} [Decidable c] {e : ε} (h : ¬c) : Reads (failIf c e : Decoder τ ε Unit) [] () := by
  intro rest
  exact failIf_ok.2 ⟨h, rfl⟩

protected theorem step {f : α → Decoder τ ε β} {b : β} (h : Reads r [] a) (h' : Reads (f a) w' b) :
    Reads (r >>= f) w' b := by
  simpa using h.bind h'

protected theorem check {f : α → Decoder τ ε β} {b : β} (h : Reads r w a) (h' : Reads (f a) [] b) :
    Reads (r >>= f) w b := by
  simpa using h.bind h'

theorem last {f : α → β} (h : Reads r w a) : Reads (r >>= fun a => pure (f a)) w (f a) := h.check (Reads.pure (f a))

theorem repeatN {write : β → List τ} {value : β → α} {bs : List β} (h : ∀ b ∈ bs, Reads r (write b) (value b)) :
    Reads (repeatN r bs.length) (bs.flatMap write) (bs.map value) := by
  induction bs with
  | nil => exact Reads.pure []
  | cons b bs ih =>
    have hrest := ih fun b' hb' => h b' (mem_cons_of_mem _ hb')
    exact (h b mem_cons_self).bind hrest.last

theorem unique (h : Reads r w a) (h' : Reads r w a') : a = a' := by
  have := (h []).symm.trans (h' [])
  simpa using this

end Reads

/-! ## What was written -/

/-- Every string that is read was written for the value, and `P` holds of it. -/
def Canonical (r : Decoder τ ε α) (P : α → Prop) (write : α → List τ) : Prop :=
  ∀ s a rest, r s = .ok (a, rest) → P a ∧ s = write a ++ rest

theorem Canonical.repeatN (h : Canonical r P write) (n : Nat) :
    Canonical (repeatN r n) (fun as => as.length = n ∧ ∀ a ∈ as, P a) fun as => as.flatMap write := by
  induction n with
  | zero =>
    intro s as rest hrun
    cases hrun
    exact ⟨⟨rfl, (fun _ ha => nomatch ha)⟩, rfl⟩
  | succ n ih =>
    intro s as rest hrun
    obtain ⟨a, s', hr, hrun⟩ := bind_ok.1 hrun
    obtain ⟨as', s'', hrest, hrun⟩ := bind_ok.1 hrun
    cases hrun
    obtain ⟨hp, rfl⟩ := h s a s' hr
    obtain ⟨⟨hlen, hall⟩, rfl⟩ := ih s' as' rest hrest
    refine ⟨⟨by rw [length_cons, hlen], ?_⟩, by simp⟩
    intro a' ha'
    rcases mem_cons.1 ha' with rfl | ha'
    · exact hp
    · exact hall a' ha'

/-! ## What a value depends on -/

/-- A value is read off the string in front of `rest`, whatever `rest` is. -/
def Local (r : Decoder τ ε α) : Prop := ∀ s a rest, r s = .ok (a, rest) → ∃ w, s = w ++ rest ∧ Reads r w a

namespace Local
variable {r : Decoder τ ε α}

protected theorem pure (a : α) : Local (pure a : Decoder τ ε α) := by
  intro s b rest h
  obtain ⟨rfl, rfl⟩ := pure_ok.1 h
  exact ⟨[], rfl, Reads.pure a⟩

protected theorem failIf {c : Prop} [Decidable c] : Local (failIf c e : Decoder τ ε Unit) := by
  intro s _ rest h
  obtain ⟨hc, rfl⟩ := failIf_ok.1 h
  exact ⟨[], rfl, Reads.failIf hc⟩

protected theorem bind (h : Local r) (h' : ∀ a, Local (f a)) : Local (r >>= f) := by
  intro s b rest hrun
  obtain ⟨a, s', hr, hf⟩ := bind_ok.1 hrun
  obtain ⟨w, rfl, hw⟩ := h s a s' hr
  obtain ⟨w', rfl, hw'⟩ := h' a s' b rest hf
  exact ⟨w ++ w', (append_assoc ..).symm, hw.bind hw'⟩

theorem repeatN (h : Local r) (n : Nat) : Local (repeatN r n) := by
  induction n with
  | zero => exact Local.pure []
  | succ n ih => exact h.bind fun a => ih.bind fun as => Local.pure (a :: as)

end Local

/-! ## What is accepted -/

/-- The decoder stops before `rest` exactly when the string before it is in the language. -/
def Accepts (r : Decoder τ ε α) (L : Language τ) : Prop :=
  ∀ s rest, (∃ a, r s = .ok (a, rest)) ↔ ∃ w ∈ L, s = w ++ rest

/-- What is written for the values in `P`. -/
def written (P : α → Prop) (write : α → List τ) : Language τ := {w | ∃ a, P a ∧ w = write a}

theorem Canonical.accepts (h : Canonical r P write)
    (hr : ∀ a, P a → Reads r (write a) a) : Accepts r (written P write) := by
  intro s rest
  constructor
  · rintro ⟨a, ha⟩
    obtain ⟨hp, hs⟩ := h s a rest ha
    exact ⟨write a, ⟨a, hp, rfl⟩, hs⟩
  · rintro ⟨w, ⟨a, hp, rfl⟩, rfl⟩
    exact ⟨a, hr a hp rest⟩

namespace Accepts
variable {r : Decoder τ ε α} {L L' : Language τ}

protected theorem pure (a : α) : Accepts (pure a : Decoder τ ε α) (1 : Language τ) := by
  intro s rest
  simp [pure_run, Language.mem_one]

protected theorem bind {f : α → Decoder τ ε β} (h : Accepts r L) (h' : ∀ a, Accepts (f a) L') :
    Accepts (r >>= f) (L * L') := by
  intro s rest
  constructor
  · rintro ⟨b, hb⟩
    obtain ⟨a, s', hr, hf⟩ := bind_ok.1 hb
    obtain ⟨w, hw, rfl⟩ := (h s s').1 ⟨a, hr⟩
    obtain ⟨w', hw', rfl⟩ := (h' a s' rest).1 ⟨b, hf⟩
    exact ⟨w ++ w', Language.mem_mul.2 ⟨w, hw, w', hw', rfl⟩, (append_assoc ..).symm⟩
  · rintro ⟨ww, hww, rfl⟩
    obtain ⟨w, hw, w', hw', rfl⟩ := Language.mem_mul.1 hww
    obtain ⟨a, hr⟩ := (h (w ++ (w' ++ rest)) (w' ++ rest)).2 ⟨w, hw, rfl⟩
    obtain ⟨b, hf⟩ := (h' a (w' ++ rest) rest).2 ⟨w', hw', rfl⟩
    rw [append_assoc]
    exact ⟨b, bind_ok.2 ⟨a, w' ++ rest, hr, hf⟩⟩

theorem last {f : α → β} (h : Accepts r L) : Accepts (r >>= fun a => pure (f a)) L := by
  have := h.bind fun a => Accepts.pure (f a)
  rwa [mul_one] at this

theorem repeatN (h : Accepts r L) (n : Nat) : Accepts (repeatN r n) (L ^ n) := by
  induction n with
  | zero => exact Accepts.pure []
  | succ n ih =>
    rw [pow_succ']
    exact h.bind fun a => ih.last

end Accepts

/-! ## Where it fails badly -/

/-- On strings up to length `N` there is no bad failure, and what is left of one is not longer. -/
def Tame (bad : ε → Prop) (N : Nat) (r : Decoder τ ε α) : Prop :=
  ∀ s, s.length ≤ N → match r s with
    | .ok (_, rest) => rest.length ≤ s.length
    | .error e => ¬bad e

/-- Of the strings up to length `N`, the decoder ends in a bad failure exactly on those in `S`. -/
def FailsOn (bad : ε → Prop) (N : Nat) (r : Decoder τ ε α) (S : Language τ) : Prop :=
  ∀ s, s.length ≤ N → ((∃ e, r s = .error e ∧ bad e) ↔ s ∈ S)

structure Parses (bad : ε → Prop) (N : Nat) (r : Decoder τ ε α) (L S : Language τ) : Prop where
  accepts : Accepts r L
  fails : FailsOn bad N r S

variable {bad : ε → Prop} {N : Nat} {r : Decoder τ ε α} {L L' S S' : Language τ}

namespace Tame

protected theorem pure (a : α) : Tame bad N (pure a : Decoder τ ε α) := fun _ _ => Nat.le_refl _

protected theorem failIf {c : Prop} [Decidable c] (he : ¬bad e) : Tame bad N (failIf c e : Decoder τ ε Unit) := by
  intro s _
  rw [Decoder.failIf]
  by_cases hc : c
  · rwa [if_pos hc]
  · rw [if_neg hc, pure_run]

theorem left (h : Tame bad N r) (hs : s.length ≤ N) (hrun : r s = .ok (a, rest)) : rest.length ≤ s.length := by
  have hr := h s hs
  rwa [hrun] at hr

theorem andThen (h : Tame bad N r)
    (h' : ∀ s a rest, s.length ≤ N → r s = .ok (a, rest) → Tame bad rest.length (f a)) : Tame bad N (r >>= f) := by
  intro s hs
  have hr := h s hs
  rw [bind_run]
  cases hrun : r s with
  | error e => rwa [hrun] at hr
  | ok p =>
    obtain ⟨a, s'⟩ := p
    have hf := h' s a s' hs hrun s' (Nat.le_refl _)
    have hleft := h.left hs hrun
    dsimp only
    cases hsecond : f a s' with
    | error e => rwa [hsecond] at hf
    | ok q =>
      rw [hsecond] at hf
      exact Nat.le_trans hf hleft

protected theorem bind (h : Tame bad N r) (h' : ∀ a, Tame bad N (f a)) : Tame bad N (r >>= f) :=
  h.andThen fun _ a _ hs hrun s' hs' => h' a s' (hs'.trans ((h.left hs hrun).trans hs))

theorem thenWritten (h : Tame bad N r) (hr : Canonical r P write)
    (h' : ∀ a n, P a → (write a).length + n ≤ N → Tame bad n (f a)) : Tame bad N (r >>= f) := by
  refine h.andThen fun s a rest hs hrun => ?_
  obtain ⟨hp, rfl⟩ := hr s a rest hrun
  rw [length_append] at hs
  exact h' a _ hp hs

theorem guard {c : Prop} [Decidable c] (he : ¬bad e) (h : ¬c → Tame bad N r) :
    Tame bad N (Decoder.failIf c e >>= fun _ => r) := by
  refine (Tame.failIf he).andThen fun s _ rest hs hrun => ?_
  obtain ⟨hc, rfl⟩ := failIf_ok.1 hrun
  exact fun s' hs' => h hc s' (hs'.trans hs)

theorem repeatN (h : Tame bad N r) (n : Nat) : Tame bad N (repeatN r n) := by
  induction n with
  | zero => exact Tame.pure []
  | succ n ih => exact h.bind fun a => ih.bind fun as => Tame.pure (a :: as)

theorem failsOn (h : Tame bad N r) : FailsOn bad N r 0 := by
  intro s hs
  have hr := h s hs
  simp only [Language.notMem_zero, iff_false]
  rintro ⟨e, hrun, hbad⟩
  rw [hrun] at hr
  exact hr hbad

end Tame

namespace Parses

theorem left (h : Parses bad N r L S) (hrun : r s = .ok (a, rest)) : rest.length ≤ s.length := by
  obtain ⟨w, -, rfl⟩ := (h.accepts s rest).1 ⟨a, hrun⟩
  simp

theorem tame (h : Parses bad N r L 0) : Tame bad N r := by
  intro s hs
  cases hrun : r s with
  | error e => exact fun hbad => Language.notMem_zero s ((h.fails s hs).1 ⟨e, hrun, hbad⟩)
  | ok p => exact h.left hrun

theorem thenFails (h : Parses bad N r L S) (h' : ∀ a, FailsOn bad N (f a) S') : FailsOn bad N (r >>= f) (S + L * S') := by
  intro s hs
  rw [Language.mem_add, ← h.fails s hs, Language.mem_mul]
  constructor
  · rintro ⟨e, he, hbad⟩
    rcases bind_error.1 he with he | ⟨a, s', hr, hf⟩
    · exact .inl ⟨e, he, hbad⟩
    · have hs' := h.left hr
      obtain ⟨w, hw, rfl⟩ := (h.accepts s s').1 ⟨a, hr⟩
      exact .inr ⟨w, hw, s', (h' a s' (by omega)).1 ⟨e, hf, hbad⟩, rfl⟩
  · rintro (⟨e, he, hbad⟩ | ⟨w, hw, s', hs', rfl⟩)
    · exact ⟨e, bind_error.2 (.inl he), hbad⟩
    · obtain ⟨a, hr⟩ := (h.accepts (w ++ s') s').2 ⟨w, hw, rfl⟩
      rw [length_append] at hs
      obtain ⟨e, hf, hbad⟩ := (h' a s' (by omega)).2 hs'
      exact ⟨e, bind_error.2 (.inr ⟨a, s', hr, hf⟩), hbad⟩

theorem thenTame (h : Parses bad N r L S) (h' : ∀ a, Tame bad N (f a)) : FailsOn bad N (r >>= f) S := by
  simpa using h.thenFails fun a => (h' a).failsOn

protected theorem bind (h : Parses bad N r L S) (h' : ∀ a, Parses bad N (f a) L' S') :
    Parses bad N (r >>= f) (L * L') (S + L * S') :=
  ⟨h.accepts.bind fun a => (h' a).accepts, h.thenFails fun a => (h' a).fails⟩

theorem after (h : Parses bad N r L 0) (h' : ∀ a, Parses bad N (f a) L' S') : Parses bad N (r >>= f) (L * L') (L * S') := by
  simpa using h.bind h'

theorem last {f : α → β} (h : Parses bad N r L S) : Parses bad N (r >>= fun a => pure (f a)) L S :=
  ⟨h.accepts.last, h.thenTame fun a => Tame.pure (f a)⟩

theorem repeatN (h : Parses bad N r L 0) (n : Nat) : Parses bad N (repeatN r n) (L ^ n) 0 :=
  ⟨h.accepts.repeatN n, (h.tame.repeatN n).failsOn⟩

end Parses

end Decoder
