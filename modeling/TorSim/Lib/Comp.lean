/-
  TorSim.Lib.Comp — computations that read and write a state and may raise.

  The host language rolls nothing back: when a statement raises, the writes made
  before it stay.  `Comp σ α` therefore returns a state next to the exception,
  and the question "what does a failing call leave behind?" has an answer.

  Main results:
    * `bind_eq_ok` / `bind_eq_error` — inversion of a sequential composition:
      the one way it returns, the two ways it raises.
    * `Preserves` and its rules — an assertion on the state that a computation
      keeps however it ends, composed statement by statement.
    * `attempt_ok` / `attempt_caught` / `attempt_escapes` — what an
      `except Exception` clause catches and what passes through it.
-/
import Mathlib.Tactic.Common

namespace TorSim.Lib

/-! ## §1. Exceptions. -/

/-- The exception classes the programs distinguish.  `exit` stands for the
classes outside `Exception` (`SystemExit`, `KeyboardInterrupt`). -/
inductive ExnClass where
  | assertion
  | attribute
  | type
  | value
  | key
  | index
  | overflow
  | zeroDivision
  | runtime
  | connection
  | exit
  deriving Repr, DecidableEq

/-- An exception: its class and the text `str(e)` gives. -/
structure Exn where
  cls : ExnClass
  msg : String
  deriving Repr, DecidableEq

/-- Whether `except Exception` catches it. -/
def Exn.isException (e : Exn) : Bool := e.cls != .exit

/-- `assert b, msg`. -/
def assertE (b : Bool) (msg : String) : Except Exn Unit :=
  if b then .ok () else .error ⟨.assertion, msg⟩

@[simp] theorem assertE_true (msg : String) : assertE true msg = .ok () := rfl

@[simp] theorem assertE_false (msg : String) :
    assertE false msg = .error ⟨.assertion, msg⟩ := rfl

theorem except_bind_error {α β : Type} {x : Except Exn α} {f : α → Except Exn β} {e : Exn}
    (h : (x >>= f) = .error e) : x = .error e ∨ ∃ a, x = .ok a ∧ f a = .error e := by
  cases x with
  | error e' =>
      cases h
      exact Or.inl rfl
  | ok a => exact Or.inr ⟨a, rfl, h⟩

/-- A composition of stateless steps returns only through both. -/
theorem except_bind_ok {α β : Type} {x : Except Exn α} {f : α → Except Exn β} {b : β}
    (h : (x >>= f) = .ok b) : ∃ a, x = .ok a ∧ f a = .ok b := by
  cases x with
  | error e => cases h
  | ok a => exact ⟨a, rfl, h⟩

/-! ## §2. Computations. -/

/-- A computation over the state `σ`: the outcome, and the state it leaves. -/
def Comp (σ α : Type) : Type := σ → Except Exn α × σ

namespace Comp

variable {σ τ α β : Type}

/-- Return a value, touch nothing. -/
def ret (a : α) : Comp σ α := fun s => (.ok a, s)

/-- Run `x`, then `f` on its result, unless `x` raised. -/
def andThen (x : Comp σ α) (f : α → Comp σ β) : Comp σ β := fun s =>
  match x s with
  | (.ok a, s') => f a s'
  | (.error e, s') => (.error e, s')

instance : Monad (Comp σ) where
  pure := ret
  bind := andThen

/-- `raise e`. -/
def raise (e : Exn) : Comp σ α := fun s => (.error e, s)

/-- A computation that does not use the state. -/
def lift (r : Except Exn α) : Comp σ α := fun s => (r, s)

/-- Read the state through `f`. -/
def gets (f : σ → α) : Comp σ α := fun s => (.ok (f s), s)

/-- Replace the state. -/
def update (f : σ → σ) : Comp σ Unit := fun s => (.ok (), f s)

/-- `try: x  except Exception as e: handler e`. -/
def attempt (x : Comp σ α) (handler : Exn → α) : Comp σ α := fun s =>
  match x s with
  | (.ok a, s') => (.ok a, s')
  | (.error e, s') => if e.isException then (.ok (handler e), s') else (.error e, s')

/-- Run a computation on a component of a larger state. -/
def zoom (view : τ → σ) (put : σ → τ → τ) (x : Comp σ α) : Comp τ α := fun t =>
  let r := x (view t)
  (r.1, put r.2 t)

/-- The result through a function. -/
def mapOk (f : α → β) (x : Comp σ α) : Comp σ β := do
  let a ← x
  return f a

/-- `for x in xs: f(x)`. -/
def forEach {ι : Type} (f : ι → Comp σ Unit) : List ι → Comp σ Unit
  | [] => pure ()
  | x :: xs => do
      f x
      forEach f xs

/-! ## §3. What each combinator does to a state. -/

@[simp] theorem pure_run (a : α) (s : σ) : (pure a : Comp σ α) s = (.ok a, s) := rfl

@[simp] theorem raise_run (e : Exn) (s : σ) : (raise e : Comp σ α) s = (.error e, s) := rfl

@[simp] theorem lift_run (r : Except Exn α) (s : σ) : (lift r : Comp σ α) s = (r, s) := rfl

@[simp] theorem gets_run (f : σ → α) (s : σ) : (gets f : Comp σ α) s = (.ok (f s), s) := rfl

@[simp] theorem update_run (f : σ → σ) (s : σ) : update f s = (.ok (), f s) := rfl

theorem bind_run (x : Comp σ α) (f : α → Comp σ β) (s : σ) :
    (x >>= f) s = match x s with
      | (.ok a, s') => f a s'
      | (.error e, s') => (.error e, s') := rfl

theorem bind_of_ok {x : Comp σ α} {f : α → Comp σ β} {s s' : σ} {a : α}
    (h : x s = (.ok a, s')) : (x >>= f) s = f a s' := by
  rw [bind_run, h]

theorem bind_of_error {x : Comp σ α} {f : α → Comp σ β} {s s' : σ} {e : Exn}
    (h : x s = (.error e, s')) : (x >>= f) s = (.error e, s') := by
  rw [bind_run, h]

@[simp] theorem pure_bind_run (a : α) (f : α → Comp σ β) (s : σ) :
    ((pure a : Comp σ α) >>= f) s = f a s := rfl

@[simp] theorem gets_bind_run (g : σ → α) (f : α → Comp σ β) (s : σ) :
    ((gets g : Comp σ α) >>= f) s = f (g s) s := rfl

@[simp] theorem update_bind_run (g : σ → σ) (f : Unit → Comp σ β) (s : σ) :
    (update g >>= f) s = f () (g s) := rfl

@[simp] theorem raise_bind_run (e : Exn) (f : α → Comp σ β) (s : σ) :
    ((raise e : Comp σ α) >>= f) s = (.error e, s) := rfl

@[simp] theorem lift_ok_bind_run (a : α) (f : α → Comp σ β) (s : σ) :
    ((lift (.ok a) : Comp σ α) >>= f) s = f a s := rfl

@[simp] theorem lift_error_bind_run (e : Exn) (f : α → Comp σ β) (s : σ) :
    ((lift (.error e) : Comp σ α) >>= f) s = (.error e, s) := rfl

theorem mapOk_run (f : α → β) (x : Comp σ α) (s : σ) :
    mapOk f x s = ((x s).1.map f, (x s).2) := by
  rw [mapOk, bind_run]
  rcases x s with ⟨e | a, s'⟩ <;> rfl

/-- A check at the end decides the outcome and leaves the state alone. -/
theorem check_run (check : σ → Except Exn β) (a : α) (s : σ) :
    ((gets id : Comp σ σ) >>= fun t => lift (check t) >>= fun _ => pure a) s
      = ((check s).map (fun _ => a), s) := by
  show (lift (check s) >>= fun _ => pure a) s = _
  cases check s <;> rfl

/-- **A composition returns in one way**: both parts return. -/
theorem bind_eq_ok {x : Comp σ α} {f : α → Comp σ β} {s t : σ} {b : β}
    (h : (x >>= f) s = (.ok b, t)) :
    ∃ a s', x s = (.ok a, s') ∧ f a s' = (.ok b, t) := by
  rw [bind_run] at h
  rcases hx : x s with ⟨_ | a, s'⟩
  · simp [hx] at h
  · rw [hx] at h
    exact ⟨a, s', rfl, h⟩

/-- **A composition raises in two ways**: the first part raises, or it returns
and the second does. -/
theorem bind_eq_error {x : Comp σ α} {f : α → Comp σ β} {s t : σ} {e : Exn}
    (h : (x >>= f) s = (.error e, t)) :
    x s = (.error e, t) ∨ ∃ a s', x s = (.ok a, s') ∧ f a s' = (.error e, t) := by
  rw [bind_run] at h
  rcases hx : x s with ⟨e' | a, s'⟩
  · rw [hx] at h
    simp only [Prod.mk.injEq, Except.error.injEq] at h
    exact Or.inl (by rw [h.1, h.2])
  · rw [hx] at h
    exact Or.inr ⟨a, s', rfl, h⟩

/-- **A loop returns exactly where its body does for every element**, as far as the
body's outcome does not depend on the state. -/
theorem forEach_returns_iff {ι : Type} {f : ι → Comp σ Unit} {P : ι → Prop}
    (hf : ∀ x s, (∃ s', f x s = (.ok (), s')) ↔ P x) (xs : List ι) :
    ∀ s, (∃ s', forEach f xs s = (.ok (), s')) ↔ ∀ x ∈ xs, P x := by
  induction xs with
  | nil => exact fun s => ⟨fun _ x hx => (nomatch hx), fun _ => ⟨s, rfl⟩⟩
  | cons x xs ih =>
      intro s
      rw [forEach, List.forall_mem_cons]
      constructor
      · intro ⟨s', h⟩
        obtain ⟨_, s1, hx, hrest⟩ := bind_eq_ok h
        exact ⟨(hf x s).mp ⟨s1, hx⟩, (ih s1).mp ⟨s', hrest⟩⟩
      · intro ⟨hx, hrest⟩
        obtain ⟨s1, hx⟩ := (hf x s).mpr hx
        obtain ⟨s', hrest⟩ := (ih s1).mpr hrest
        exact ⟨s', (bind_of_ok hx).trans hrest⟩

/-- An exception of a loop is one of its rounds'. -/
theorem forEach_error {ι : Type} {f : ι → Comp σ Unit} {e : Exn} (xs : List ι) :
    ∀ {s s' : σ}, forEach f xs s = (.error e, s') → ∃ x ∈ xs, ∃ t t', f x t = (.error e, t') := by
  induction xs with
  | nil =>
      intro s s' h
      cases h
  | cons x xs ih =>
      intro s s' h
      rw [forEach] at h
      rcases hx : f x s with ⟨e' | u, t⟩
      · rw [bind_of_error hx] at h
        cases h
        exact ⟨x, List.mem_cons_self, s, _, hx⟩
      · rw [bind_of_ok hx] at h
        obtain ⟨y, hy, hraise⟩ := ih h
        exact ⟨y, List.mem_cons_of_mem _ hy, hraise⟩
/-! ## §4. The `except Exception` clause. -/

theorem attempt_ok {x : Comp σ α} {handler : Exn → α} {s s' : σ} {a : α}
    (h : x s = (.ok a, s')) : attempt x handler s = (.ok a, s') := by
  simp [attempt, h]

theorem attempt_caught {x : Comp σ α} {handler : Exn → α} {s s' : σ} {e : Exn}
    (h : x s = (.error e, s')) (he : e.isException = true) :
    attempt x handler s = (.ok (handler e), s') := by
  simp [attempt, h, he]

theorem attempt_escapes {x : Comp σ α} {handler : Exn → α} {s s' : σ} {e : Exn}
    (h : x s = (.error e, s')) (he : e.isException = false) :
    attempt x handler s = (.error e, s') := by
  simp [attempt, h, he]

/-- The clause never changes the state: only the outcome is replaced. -/
@[simp] theorem attempt_state (x : Comp σ α) (handler : Exn → α) (s : σ) :
    (attempt x handler s).2 = (x s).2 := by
  rcases hx : x s with ⟨e | a, s'⟩
  · by_cases he : e.isException
    · rw [attempt_caught hx he]
    · rw [attempt_escapes hx (by simpa using he)]
  · rw [attempt_ok hx]

/-! ## §5. Assertions kept by a computation, however it ends. -/

/-- `x` keeps `P`, whether it returns or raises. -/
def Preserves (P : σ → Prop) (x : Comp σ α) : Prop := ∀ s, P s → P (x s).2

theorem preserves_pure (P : σ → Prop) (a : α) : Preserves P (pure a : Comp σ α) :=
  fun _ h => h

theorem preserves_raise (P : σ → Prop) (e : Exn) : Preserves P (raise e : Comp σ α) :=
  fun _ h => h

theorem preserves_lift (P : σ → Prop) (r : Except Exn α) : Preserves P (lift r : Comp σ α) :=
  fun _ h => h

theorem preserves_gets (P : σ → Prop) (f : σ → α) : Preserves P (gets f) :=
  fun _ h => h

theorem preserves_update {P : σ → Prop} {f : σ → σ} (h : ∀ s, P s → P (f s)) :
    Preserves P (update f) := h

theorem preserves_bind {P : σ → Prop} {x : Comp σ α} {f : α → Comp σ β}
    (hx : Preserves P x) (hf : ∀ a, Preserves P (f a)) : Preserves P (x >>= f) := by
  intro s hs
  have h1 := hx s hs
  rw [bind_run]
  rcases hxs : x s with ⟨e | a, s'⟩
  · simpa [hxs] using h1
  · rw [hxs] at h1
    exact hf a s' h1

/-! ## §6. Computations whose exceptions are all caught. -/

/-- Only exceptions that `except Exception` catches come out of `r`. -/
def CaughtE (r : Except Exn α) : Prop := ∀ e, r = .error e → e.isException = true

/-- Only exceptions that `except Exception` catches come out of `x`. -/
def Caught (x : Comp σ α) : Prop := ∀ s, CaughtE (x s).1

theorem caughtE_ok (a : α) : CaughtE (.ok a : Except Exn α) := by
  intro e h
  cases h

theorem caughtE_error {e : Exn} (he : e.isException = true) :
    CaughtE (.error e : Except Exn α) := by
  intro e' h
  rw [← Except.error.inj h]
  exact he

theorem caughtE_assert (b : Bool) (msg : String) : CaughtE (assertE b msg) := by
  cases b
  · exact caughtE_error rfl
  · exact caughtE_ok ()

theorem caughtE_bind {x : Except Exn α} {f : α → Except Exn β} (hx : CaughtE x)
    (hf : ∀ a, CaughtE (f a)) : CaughtE (x >>= f) := by
  cases x with
  | error e => exact caughtE_error (hx e rfl)
  | ok a => exact hf a

theorem caughtE_map {x : Except Exn α} (hx : CaughtE x) (f : α → β) : CaughtE (x.map f) := by
  cases x with
  | error e => exact caughtE_error (hx e rfl)
  | ok a => exact caughtE_ok (f a)

theorem caught_pure (a : α) : Caught (pure a : Comp σ α) := fun _ => caughtE_ok a

theorem caught_raise {e : Exn} (he : e.isException = true) : Caught (raise e : Comp σ α) :=
  fun _ => caughtE_error he

theorem caught_lift {r : Except Exn α} (h : CaughtE r) : Caught (lift r : Comp σ α) :=
  fun _ => h

theorem caught_gets (f : σ → α) : Caught (gets f) := fun s => caughtE_ok (f s)

theorem caught_update (f : σ → σ) : Caught (update f) := fun _ => caughtE_ok ()

theorem caught_bind {x : Comp σ α} {f : α → Comp σ β} (hx : Caught x)
    (hf : ∀ a, Caught (f a)) : Caught (x >>= f) := by
  intro s
  have h1 := hx s
  rw [bind_run]
  rcases hxs : x s with ⟨e | a, s'⟩
  · rw [hxs] at h1
    exact caughtE_error (h1 e rfl)
  · exact hf a s'

end Comp

end TorSim.Lib
