import Mathlib

/-!
# Sequences of checks

A validation function is a sequence of checks that each fail with their own error. The lemmas turn
"the sequence succeeds" into the conjunction of its guards, and "the sequence never ends in a bad error" into the same of
its parts.
-/

namespace Checks
variable {ε ε' α β : Type} {e : ε} {c : Prop} {a : α} {x : Except ε α} {bad : ε → Prop} {bad' : ε' → Prop}

def failIf (c : Prop) [Decidable c] (e : ε) : Except ε Unit := if c then .error e else .ok ()

def orFail (e : ε) : Option α → Except ε α
  | some a => .ok a
  | none => .error e

def checkWhen (c : Prop) [Decidable c] (x : Except ε Unit) : Except ε Unit := if c then x else .ok ()

@[simp] theorem failIf_eq_ok [Decidable c] {u : Unit} : failIf c e = .ok u ↔ ¬ c := by
  unfold failIf
  split <;> simp_all

@[simp] theorem checkWhen_eq_ok [Decidable c] {x : Except ε Unit} {u : Unit} :
    checkWhen c x = .ok u ↔ (c → x = .ok ()) := by
  unfold checkWhen
  split <;> simp_all

@[simp] theorem orFail_eq_ok {o : Option α} : orFail e o = .ok a ↔ o = some a := by
  cases o <;> simp [orFail]

@[simp] theorem bind_eq_ok {f : α → Except ε β} {b : β} : (x >>= f) = .ok b ↔ ∃ a, x = .ok a ∧ f a = .ok b := by
  cases x <;> simp [bind, Except.bind]

@[simp] theorem exists_unit {p : Unit → Prop} : (∃ u, p u) ↔ p () := ⟨fun ⟨_, h⟩ => h, fun h => ⟨(), h⟩⟩

@[simp] theorem mapError_eq_ok {g : ε → ε'} : x.mapError g = .ok a ↔ x = .ok a := by
  cases x <;> simp [Except.mapError]

@[simp] theorem pure_eq_ok {b : α} : (pure a : Except ε α) = .ok b ↔ a = b := by
  simp [pure, Except.pure]

/-- The rules of success as one lemma, to be given to `simp only`. -/
theorem ok_rules : type_of% @bind_eq_ok ∧ type_of% @failIf_eq_ok ∧ type_of% @checkWhen_eq_ok ∧ type_of% @orFail_eq_ok ∧
    type_of% @mapError_eq_ok ∧ type_of% @pure_eq_ok ∧ type_of% @Except.ok.injEq.{0, 0} ∧ type_of% @exists_unit ∧
    type_of% @Prod.exists.{0, 0} ∧ type_of% @Prod.mk.injEq.{0, 0} ∧ type_of% @not_not :=
  ⟨@bind_eq_ok, @failIf_eq_ok, @checkWhen_eq_ok, @orFail_eq_ok, @mapError_eq_ok, @pure_eq_ok, @Except.ok.injEq,
    @exists_unit, @Prod.exists, @Prod.mk.injEq, @not_not⟩

theorem isOk_iff : x.isOk = true ↔ ∃ a, x = .ok a := by
  cases x <;> simp [Except.isOk, Except.toBool]

theorem map_eq_ok {f : α → β} {b : β} : x.map f = .ok b ↔ ∃ a, x = .ok a ∧ f a = b := by
  cases x <;> simp [Except.map]

theorem toOption_map_eq_some {f : α → β} {b : β} : x.toOption.map f = some b ↔ ∃ a, x = .ok a ∧ f a = b := by
  cases x <;> simp [Except.toOption]

/-! ## Errors that a sequence never ends in -/

def Avoids (bad : ε → Prop) (x : Except ε α) : Prop := ∀ e, x = .error e → ¬bad e

theorem avoids_ok : Avoids bad (.ok a : Except ε α) := fun _ h => nomatch h

theorem avoids_error : Avoids bad (.error e : Except ε α) ↔ ¬bad e :=
  ⟨fun h => h e rfl, fun h e' he' => by cases he'; exact h⟩

theorem avoids_bind {f : α → Except ε β} : Avoids bad (x >>= f) ↔ Avoids bad x ∧ ∀ a, x = .ok a → Avoids bad (f a) := by
  cases x with
  | error e =>
    have hbind : ((.error e : Except ε α) >>= f) = .error e := rfl
    simp [hbind, avoids_error]
  | ok a =>
    have hbind : ((.ok a : Except ε α) >>= f) = f a := rfl
    simp [hbind, avoids_ok]

theorem avoids_failIf [Decidable c] : Avoids bad (failIf c e) ↔ (c → ¬bad e) := by
  unfold failIf
  split <;> simp_all [avoids_ok, avoids_error]

theorem avoids_check [Decidable c] {f : Unit → Except ε β} (he : ¬bad e) (h : ¬c → Avoids bad (f ())) :
    Avoids bad (failIf c e >>= f) :=
  avoids_bind.2 ⟨avoids_failIf.2 fun _ => he, fun _ hc => h (failIf_eq_ok.1 hc)⟩

theorem avoids_checkWhen [Decidable c] {x : Except ε Unit} : Avoids bad (checkWhen c x) ↔ (c → Avoids bad x) := by
  unfold checkWhen
  split <;> simp_all [avoids_ok]

theorem avoids_orFail {o : Option α} : Avoids bad (orFail e o) ↔ (o = none → ¬bad e) := by
  cases o <;> simp [orFail, avoids_ok, avoids_error]

theorem avoids_mapError {g : ε → ε'} : Avoids bad' (x.mapError g) ↔ Avoids (fun e => bad' (g e)) x := by
  cases x <;> simp [Except.mapError, avoids_ok, avoids_error]

/-! ## Errors and stops -/

/-- How a check ends without success: with the text of an error, or without a verdict. -/
inductive Fault where
  | error (text : String)
  /-- A panic, or a loop that does not end. -/
  | stop (what : String)
deriving DecidableEq

namespace Fault
variable {text what context : String}

def within (context : String) : Fault → Fault
  | error text => error (context ++ text)
  | stop what => stop what

def IsStop (e : Fault) : Prop := ∃ what, e = stop what

@[simp] theorem isStop_stop : (stop what).IsStop := ⟨what, rfl⟩

@[simp] theorem not_isStop_error : ¬(error text).IsStop := fun ⟨_, h⟩ => by cases h

@[simp] theorem isStop_within {e : Fault} : (e.within context).IsStop ↔ e.IsStop := by
  cases e <;> simp [within]

end Fault

section
variable {text context : String} {x : Except Fault α}

theorem avoids_within : Avoids Fault.IsStop (x.mapError (.within context)) ↔ Avoids Fault.IsStop x := by
  simp [avoids_mapError]

theorem avoids_refusal [Decidable c] : Avoids Fault.IsStop (failIf c (.error text)) :=
  avoids_failIf.2 fun _ => Fault.not_isStop_error

theorem avoids_refusalThen [Decidable c] {f : Unit → Except Fault β} (h : ¬c → Avoids Fault.IsStop (f ())) :
    Avoids Fault.IsStop (failIf c (.error text) >>= f) :=
  avoids_check Fault.not_isStop_error h

/-- What a caller that looks at the error goes on with. -/
def caught : Except Fault α → Except Fault (Option α)
  | .ok a => .ok (some a)
  | .error (.error _) => .ok none
  | .error (.stop what) => .error (.stop what)

theorem caught_eq_some : caught x = .ok (some a) ↔ x = .ok a := by
  rcases x with (text | what) | b <;> simp [caught]

theorem avoids_caught : Avoids Fault.IsStop (caught x) ↔ Avoids Fault.IsStop x := by
  rcases x with (text | what) | b <;> simp [caught, avoids_ok, avoids_error]

end

def indexOut : Fault := .stop "index out of range"

def nilPointer : Fault := .stop "nil pointer dereference"

end Checks
