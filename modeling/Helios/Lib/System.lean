import Mathlib

/-!
# Runs of a system, and calls that may fail midway

* `System` — initial states and a step relation; `System.Reachable` — the states of its runs.
* `System.invariant` — what holds initially and is kept by every step holds in every reachable
  state; `System.mono` — what no step lowers no run lowers.
* `Attempt` — the outcome of a call that changes a state: its result, and the state it leaves
  behind, also when it fails halfway.  `request` and `andThen` chain such calls; `request_snd` and
  `andThen_snd` are the rules for what the state left behind satisfies, `request_ok` and
  `andThen_ok` those for a call that succeeds.
-/

set_option autoImplicit false

/-- Initial states and steps. -/
structure System (σ : Type) where
  init : σ → Prop
  step : σ → σ → Prop

namespace System

variable {σ : Type} {S : System σ}

/-- The states of the runs of a system. -/
inductive Reachable (S : System σ) : σ → Prop
  | init {s : σ} : S.init s → Reachable S s
  | step {s s' : σ} : Reachable S s → S.step s s' → Reachable S s'

/-- **The invariant rule.** -/
theorem invariant {I : σ → Prop} (hinit : ∀ s, S.init s → I s)
    (hstep : ∀ s s', S.Reachable s → I s → S.step s s' → I s') {s : σ} (h : S.Reachable s) : I s := by
  induction h with
  | init h => exact hinit _ h
  | step h hs ih => exact hstep _ _ h ih hs

/-- Some number of steps. -/
abbrev Steps (S : System σ) : σ → σ → Prop := Relation.ReflTransGen S.step

theorem Reachable.steps {s s' : σ} (h : S.Reachable s) (hs : S.Steps s s') : S.Reachable s' := by
  induction hs with
  | refl => exact h
  | tail _ hstep ih => exact ih.step hstep

/-- What no step lowers no run lowers. -/
theorem mono {α : Type} [Preorder α] {f : σ → α}
    (hstep : ∀ s s', S.Reachable s → S.step s s' → f s ≤ f s') {s s' : σ} (h : S.Reachable s)
    (hs : S.Steps s s') : f s ≤ f s' := by
  induction hs with
  | refl => exact le_rfl
  | tail hsteps hlast ih => exact ih.trans (hstep _ _ (h.steps hsteps) hlast)

end System

/-- The result of a call and the state it leaves behind. -/
abbrev Attempt (ε σ : Type) := Except ε Unit × σ

namespace Attempt

variable {ε σ α : Type}

/-- A request that leaves the state alone when it fails. -/
def request (r : Except ε α) (s : σ) (f : α → Attempt ε σ) : Attempt ε σ :=
  match r with
  | .error e => (.error e, s)
  | .ok a => f a

/-- One call after the other; the second does not start when the first fails. -/
def andThen (r : Attempt ε σ) (f : σ → Attempt ε σ) : Attempt ε σ :=
  match r with
  | (.error e, s) => (.error e, s)
  | (.ok (), s) => f s

theorem request_snd {P : σ → Prop} {r : Except ε α} {s : σ} {f : α → Attempt ε σ} (hs : P s)
    (hf : ∀ a, r = .ok a → P (f a).2) : P (request r s f).2 := by
  cases r with
  | error e => exact hs
  | ok a => exact hf a rfl

theorem andThen_snd {P : σ → Prop} {r : Attempt ε σ} {f : σ → Attempt ε σ} (hr : P r.2)
    (hf : ∀ s, r = (.ok (), s) → P (f s).2) : P (andThen r f).2 := by
  obtain ⟨r, s⟩ := r
  cases r with
  | error e => exact hr
  | ok u => exact hf s rfl

/-- A request before a call that changes nothing unless it succeeds. -/
theorem request_ok_or_same {r : Except ε α} {s : σ} {f : α → Attempt ε σ}
    (hf : ∀ a, (f a).1 = .ok () ∨ (f a).2 = s) :
    (request r s f).1 = .ok () ∨ (request r s f).2 = s := by
  cases r with
  | error e => exact Or.inr rfl
  | ok a => exact hf a

/-- An error that neither the request nor the call gives. -/
theorem request_ne_error {e : ε} {r : Except ε α} {s : σ} {f : α → Attempt ε σ}
    (hr : r ≠ .error e) (hf : ∀ a, (f a).1 ≠ .error e) : (request r s f).1 ≠ .error e := by
  cases r with
  | error e' => exact fun h => hr (by rw [Except.error.inj h])
  | ok a => exact hf a

theorem andThen_ne_error {e : ε} {r : Attempt ε σ} {f : σ → Attempt ε σ} (hr : r.1 ≠ .error e)
    (hf : ∀ s, (f s).1 ≠ .error e) : (andThen r f).1 ≠ .error e := by
  obtain ⟨r, s⟩ := r
  cases r with
  | error e' => exact hr
  | ok u => exact hf s

theorem eq_ok {r : Attempt ε σ} {s : σ} (h : r.1 = .ok ()) (hs : r.2 = s) : r = (.ok (), s) :=
  Prod.ext h hs

theorem request_ok {r : Except ε α} {s s' : σ} {f : α → Attempt ε σ} :
    request r s f = (.ok (), s') ↔ ∃ a, r = .ok a ∧ f a = (.ok (), s') := by
  cases r <;> simp [request]

theorem andThen_ok {r : Attempt ε σ} {s' : σ} {f : σ → Attempt ε σ} :
    andThen r f = (.ok (), s') ↔ ∃ s, r = (.ok (), s) ∧ f s = (.ok (), s') := by
  obtain ⟨r, s⟩ := r
  cases r <;> simp [andThen]

end Attempt
