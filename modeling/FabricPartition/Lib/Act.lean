import Mathlib.Algebra.Order.BigOperators.Ring.Finset

/-!
# Computations on a state that survives its exceptions

A method of a C++ class reads and writes the members of its object and may leave by an exception;
whatever it has written by then stays written.  `Act ε σ α` is that: a function from the state to a
result — a value or an exception — and the state left behind.

Two ways of reasoning about such a computation are provided.

* The inversion lemmas `bind_ok` and `bind_eq` take a run of a sequence apart into the runs of its
  parts.
* `Within R m` says that every run of `m`, whether it returns or throws, moves the state along `R`.
  For a reflexive and transitive `R` it is established by going through the text of the
  computation (`Within.pure`, `Within.bind`, `Within.forEach`, …), so a frame condition — what a
  method leaves alone — is never proved by computing the method.
-/

set_option autoImplicit false

/-- A computation on a state `σ` that returns a value or throws; the state survives either way. -/
def Act (ε σ α : Type) : Type := σ → Except ε α × σ

namespace Act

variable {ε σ α β : Type}

instance : Monad (Act ε σ) where
  pure a := fun s => (.ok a, s)
  bind m f := fun s =>
    match m s with
    | (.ok a, t) => f a t
    | (.error e, t) => (.error e, t)

/-- The state. -/
def read : Act ε σ σ := fun s => (.ok s, s)

/-- Replace the state. -/
def modify (f : σ → σ) : Act ε σ Unit := fun s => (.ok (), f s)

/-- A computation that never throws. -/
def total (f : σ → α × σ) : Act ε σ α := fun s => (.ok (f s).1, (f s).2)

/-- Leave by an exception. -/
def throw (e : ε) : Act ε σ α := fun s => (.error e, s)

/-- Run a loop body on each element in turn, threading an accumulator. -/
def forEach (f : β → α → Act ε σ β) : β → List α → Act ε σ β
  | acc, [] => pure acc
  | acc, x :: xs => do
    let acc ← f acc x
    forEach f acc xs

@[simp]
theorem pure_apply (a : α) (s : σ) : (pure a : Act ε σ α) s = (.ok a, s) := rfl

@[simp]
theorem read_apply (s : σ) : (read : Act ε σ σ) s = (.ok s, s) := rfl

@[simp]
theorem modify_apply (f : σ → σ) (s : σ) : (modify f : Act ε σ Unit) s = (.ok (), f s) := rfl

@[simp]
theorem total_apply (f : σ → α × σ) (s : σ) :
    (total f : Act ε σ α) s = (.ok (f s).1, (f s).2) := rfl

@[simp]
theorem throw_apply (e : ε) (s : σ) : (throw e : Act ε σ α) s = (.error e, s) := rfl

theorem bind_apply (m : Act ε σ α) (f : α → Act ε σ β) (s : σ) :
    (m >>= f) s = match m s with
      | (.ok a, t) => f a t
      | (.error e, t) => (.error e, t) := rfl

@[simp]
theorem read_bind (f : σ → Act ε σ β) (s : σ) : (read >>= f) s = f s s := rfl

@[simp]
theorem modify_bind (g : σ → σ) (f : Unit → Act ε σ β) (s : σ) :
    (modify g >>= f) s = f () (g s) := rfl

@[simp]
theorem total_bind (g : σ → α × σ) (f : α → Act ε σ β) (s : σ) :
    (total g >>= f) s = f (g s).1 (g s).2 := rfl

@[simp]
theorem throw_bind (e : ε) (f : α → Act ε σ β) (s : σ) :
    ((throw e : Act ε σ α) >>= f) s = (.error e, s) := rfl

/-- A sequence returns exactly when both its parts do. -/
theorem bind_ok {m : Act ε σ α} {f : α → Act ε σ β} {s u : σ} {b : β} :
    (m >>= f) s = (.ok b, u) ↔ ∃ a t, m s = (.ok a, t) ∧ f a t = (.ok b, u) := by
  rw [bind_apply]
  rcases hm : m s with ⟨r, t⟩
  cases r with
  | ok a =>
    refine ⟨fun h => ⟨a, t, rfl, h⟩, ?_⟩
    rintro ⟨a', t', h, h'⟩
    cases h
    exact h'
  | error e =>
    refine ⟨fun h => (by cases h), ?_⟩
    rintro ⟨a', t', h, -⟩
    cases h

/-! ## What a computation returns -/

/-- Whatever `m` returns satisfies `P`. -/
def Yields (P : α → Prop) (m : Act ε σ α) : Prop := ∀ s a t, m s = (.ok a, t) → P a

namespace Yields

variable {P : α → Prop} {Q : β → Prop}

theorem pure {a : α} (h : P a) : Yields P (Pure.pure a : Act ε σ α) := by
  rintro s b t hb
  cases hb
  exact h

theorem bind {m : Act ε σ α} {f : α → Act ε σ β} (h : ∀ a, Yields Q (f a)) :
    Yields Q (m >>= f) := by
  intro s b u hb
  obtain ⟨a, t, -, ha⟩ := bind_ok.mp hb
  exact h a t b u ha

/-- Reading the state first. -/
theorem read_then {f : σ → Act ε σ β} (h : ∀ s, Yields Q (f s)) : Yields Q (Act.read >>= f) :=
  fun s => h s s

/-- A loop: what its body passes on. -/
theorem forEach {f : β → α → Act ε σ β} (h : ∀ b a, Q b → Yields Q (f b a)) (xs : List α) :
    ∀ acc, Q acc → Yields Q (Act.forEach f acc xs) := by
  induction xs with
  | nil => exact fun acc hacc => Yields.pure hacc
  | cons x xs ih =>
    intro acc hacc s b u hb
    obtain ⟨acc', t, hstep, hrest⟩ := bind_ok.mp hb
    exact ih acc' (h acc x hacc s acc' t hstep) t b u hrest

end Yields

/-! ## What a computation may do to the state -/

/-- Every run of `m` moves the state along `R`. -/
def Within (R : σ → σ → Prop) (m : Act ε σ α) : Prop := ∀ s, R s (m s).2

namespace Within

variable {R : σ → σ → Prop}

theorem pure (hrefl : ∀ s, R s s) (a : α) : Within R (Pure.pure a : Act ε σ α) := hrefl

theorem read (hrefl : ∀ s, R s s) : Within R (Act.read : Act ε σ σ) := hrefl

theorem throw (hrefl : ∀ s, R s s) (e : ε) : Within R (Act.throw e : Act ε σ α) := hrefl

theorem bind (htrans : ∀ s t u, R s t → R t u → R s u) {m : Act ε σ α} {f : α → Act ε σ β}
    (hm : Within R m) (hf : ∀ a, Within R (f a)) : Within R (m >>= f) := by
  intro s
  have hs := hm s
  rw [bind_apply]
  rcases h : m s with ⟨r, t⟩
  rw [h] at hs
  cases r with
  | ok a => exact htrans _ _ _ hs (hf a t)
  | error e => exact hs

/-- Reading the state first: the rest may depend on it. -/
theorem read_bind {f : σ → Act ε σ β} (hf : ∀ s, R s (f s s).2) : Within R (Act.read >>= f) := hf

/-- Reading the state first, when the rest moves along `R` wherever it starts. -/
theorem read_then {f : σ → Act ε σ β} (hf : ∀ s, Within R (f s)) : Within R (Act.read >>= f) :=
  fun s => hf s s

theorem forEach (hrefl : ∀ s, R s s) (htrans : ∀ s t u, R s t → R t u → R s u)
    {f : β → α → Act ε σ β} (hf : ∀ b a, Within R (f b a)) (xs : List α) :
    ∀ acc, Within R (Act.forEach f acc xs) := by
  induction xs with
  | nil => exact fun acc => Within.pure hrefl acc
  | cons x xs ih => exact fun acc => Within.bind htrans (hf acc x) ih

/-- A sequence whose second part is run on results of the first only. -/
theorem bind_yields (htrans : ∀ s t u, R s t → R t u → R s u) {P : α → Prop} {m : Act ε σ α}
    {f : α → Act ε σ β} (hm : Within R m) (hP : Yields P m) (hf : ∀ a, P a → Within R (f a)) :
    Within R (m >>= f) := by
  intro s
  have hs := hm s
  rw [bind_apply]
  rcases h : m s with ⟨_ | a, t⟩
  · rw [h] at hs
    exact hs
  · rw [h] at hs
    exact htrans _ _ _ hs (hf a (hP s a t h) t)

theorem mono {R' : σ → σ → Prop} (h : ∀ s t, R s t → R' s t) {m : Act ε σ α}
    (hm : Within R m) : Within R' m := fun s => h _ _ (hm s)

end Within

end Act
