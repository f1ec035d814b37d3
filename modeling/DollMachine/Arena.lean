import Mathlib.Order.Basic

/-!
# Computations in bounded memory

A computation `p : Comp σ α` takes the capacity of a memory area, a state and the number of bytes in
use, and fails or gives a result with the new state and the new number.  Bytes are never given back.

`Metered p` says that the capacity decides nothing but whether `p` goes through: from a state and a
number of bytes, either `p` fails in every memory, or there is one outcome, which `p` has in the
memories where it fits, while it fails in all others.  The rules say that `pure`, `bind`, the
allocations (`grow`) and what uses no memory (`lift`) are metered.

`Shrinks` and `Agree` are about recursion: a computation that leaves no larger state, and two that
agree on small states.  `Compositional` is what a property needs to hold of all that is built with
`pure`, `fail` and `bind`.
-/

namespace Arena

/-- The arguments are the capacity, the state and the number of bytes in use. -/
def Comp (σ α : Type) := Nat → σ → Nat → Option (α × σ × Nat)

variable {σ α β γ : Type} {p : Comp σ α} {f : α → Comp σ β} {cap cap' n : Nat} {s : σ}
  {x : α × σ × Nat}

instance : Monad (Comp σ) where
  pure a := fun _ s n => some (a, s, n)
  bind p f := fun cap s n => (p cap s n).bind fun x => f x.1 cap x.2.1 x.2.2

def fail : Comp σ α := fun _ _ _ => none

/-- A step that uses no memory. -/
def lift (g : σ → Option (α × σ)) : Comp σ α := fun _ s n => (g s).map fun x => (x.1, x.2, n)

/-- Go from `n` bytes in use to `g n`. -/
def grow (g : Nat → Nat) : Comp σ Unit := fun cap s n =>
  if g n ≤ cap then some ((), s, g n) else none

@[simp] theorem pure_apply (a : α) : (pure a : Comp σ α) cap s n = some (a, s, n) := rfl

theorem bind_apply :
    (p >>= f) cap s n = (p cap s n).bind fun x => f x.1 cap x.2.1 x.2.2 := rfl

@[simp] theorem lift_apply (g : σ → Option (α × σ)) :
    lift g cap s n = (g s).map fun x => (x.1, x.2, n) := rfl

theorem bind_of_eq_some (h : p cap s n = some x) : (p >>= f) cap s n = f x.1 cap x.2.1 x.2.2 := by
  rw [bind_apply, h, Option.bind_some]

theorem bind_of_eq_none (h : p cap s n = none) : (p >>= f) cap s n = none := by
  rw [bind_apply, h, Option.bind_none]

theorem bind_of_eq_ite {c : Prop} [Decidable c] (h : p cap s n = if c then some x else none) :
    (p >>= f) cap s n = if c then f x.1 cap x.2.1 x.2.2 else none := by
  split_ifs at h ⊢
  · exact bind_of_eq_some h
  · exact bind_of_eq_none h

theorem bind_assoc (p : Comp σ α) (f : α → Comp σ β) (g : β → Comp σ γ) :
    (p >>= f) >>= g = p >>= fun a => f a >>= g := by
  funext cap s n
  exact Option.bind_assoc ..

/-- The outcome `r` in a memory of the capacity `cap`. -/
def fit (cap : Nat) (r : Option (α × σ × Nat)) : Option (α × σ × Nat) :=
  r.bind fun x => if x.2.2 ≤ cap then some x else none

@[simp] theorem fit_none : fit cap (none : Option (α × σ × Nat)) = none := rfl

@[simp] theorem fit_some : fit cap (some x) = if x.2.2 ≤ cap then some x else none := rfl

theorem fit_eq_some_iff {r : Option (α × σ × Nat)} :
    fit cap r = some x ↔ r = some x ∧ x.2.2 ≤ cap := by
  cases r with
  | none => simp
  | some y =>
    rw [fit_some]
    constructor
    · intro h
      split_ifs at h with hy
      cases h
      exact ⟨rfl, hy⟩
    · rintro ⟨⟨⟩, hx⟩
      exact if_pos hx

/-- A property of computations that composes. -/
structure Compositional (P : ∀ {α : Type}, Comp σ α → Prop) : Prop where
  pure {α : Type} (a : α) : P (pure a)
  fail {α : Type} : P (fail : Comp σ α)
  bind {α β : Type} {p : Comp σ α} {f : α → Comp σ β} : P p → (∀ a, P (f a)) → P (p >>= f)

/-! ## Capacity -/

def Metered (p : Comp σ α) : Prop :=
  ∀ s n, ∃ r : Option (α × σ × Nat), (∀ x ∈ r, n ≤ x.2.2) ∧
    ∀ cap, n ≤ cap → p cap s n = fit cap r

theorem metered_pure (a : α) : Metered (pure a : Comp σ α) := by
  intro s n
  refine ⟨some (a, s, n), ?_, fun cap hcap => ?_⟩
  · rintro x ⟨⟩
    exact Nat.le_refl n
  · rw [fit_some, if_pos hcap]
    rfl

theorem metered_fail : Metered (fail : Comp σ α) := by
  intro s n
  refine ⟨none, ?_, fun cap _ => rfl⟩
  rintro x ⟨⟩

theorem metered_lift (g : σ → Option (α × σ)) : Metered (lift g) := by
  intro s n
  refine ⟨lift g 0 s n, fun x hx => ?_, fun cap hcap => ?_⟩
  · obtain ⟨y, -, rfl⟩ := Option.map_eq_some_iff.1 hx
    exact Nat.le_refl n
  · simp only [lift_apply]
    cases g s <;> simp [hcap]

theorem metered_grow {g : Nat → Nat} (hg : ∀ n, n ≤ g n) : Metered (grow g : Comp σ Unit) := by
  intro s n
  refine ⟨some ((), s, g n), ?_, fun cap _ => rfl⟩
  rintro x ⟨⟩
  exact hg n

/-- What has no room for its first part has none for the whole. -/
theorem Metered.bind (hp : Metered p) (hf : ∀ a, Metered (f a)) : Metered (p >>= f) := by
  intro s n
  obtain ⟨r, hle, hr⟩ := hp s n
  cases r with
  | none =>
    refine ⟨none, ?_, fun cap hcap => bind_of_eq_none (hr cap hcap)⟩
    rintro x ⟨⟩
  | some x =>
    have hn : n ≤ x.2.2 := hle x rfl
    obtain ⟨r', hle', hr'⟩ := hf x.1 x.2.1 x.2.2
    refine ⟨r', fun y hy => Nat.le_trans hn (hle' y hy), fun cap hcap => ?_⟩
    rw [bind_apply, hr cap hcap, fit_some]
    split_ifs with hx
    · exact hr' cap hx
    · rw [Option.bind_none, eq_comm, Option.eq_none_iff_forall_ne_some]
      intro y hy
      obtain ⟨hy, hcap'⟩ := fit_eq_some_iff.1 hy
      exact hx (Nat.le_trans (hle' y hy) hcap')

theorem metered : Compositional (σ := σ) Metered := ⟨metered_pure, metered_fail, Metered.bind⟩

theorem Metered.le (hp : Metered p) (hn : n ≤ cap) (h : p cap s n = some x) :
    n ≤ x.2.2 ∧ x.2.2 ≤ cap := by
  obtain ⟨r, hle, hr⟩ := hp s n
  rw [hr cap hn] at h
  obtain ⟨hx, hcap⟩ := fit_eq_some_iff.1 h
  exact ⟨hle x hx, hcap⟩

/-- The memory that a computation needs: no amount suffices, or there is a least one. -/
theorem Metered.threshold (hp : Metered p) (s : σ) (n : Nat) :
    (∀ cap, n ≤ cap → p cap s n = none) ∨
      ∃ x, n ≤ x.2.2 ∧ ∀ cap, n ≤ cap → p cap s n = if x.2.2 ≤ cap then some x else none := by
  obtain ⟨r, hle, hr⟩ := hp s n
  cases r with
  | none => exact .inl hr
  | some x => exact .inr ⟨x, hle x rfl, hr⟩

/-! ## Recursion -/

variable {μ : σ → Nat} {k : Nat} {q : Comp σ α} {g : α → Comp σ β}

def Shrinks (μ : σ → Nat) (p : Comp σ α) : Prop :=
  ∀ ⦃cap s n x⦄, p cap s n = some x → μ x.2.1 ≤ μ s

theorem shrinks_lift {g : σ → Option (α × σ)} (h : ∀ ⦃s x⦄, g s = some x → μ x.2 ≤ μ s) :
    Shrinks μ (lift g) := by
  intro cap s n x hx
  obtain ⟨y, hy, rfl⟩ := Option.map_eq_some_iff.1 hx
  exact h hy

theorem shrinks_grow (g : Nat → Nat) : Shrinks μ (grow g) := by
  intro cap s n x hx
  unfold grow at hx
  split_ifs at hx
  cases hx
  exact Nat.le_refl _

theorem shrinks : Compositional (Shrinks μ) where
  pure a := by
    rintro cap s n x ⟨⟩
    exact Nat.le_refl _
  fail := by
    rintro _ cap s n x ⟨⟩
  bind hp hf := by
    intro cap s n x hx
    obtain ⟨y, hy, hx⟩ := Option.bind_eq_some_iff.1 hx
    exact Nat.le_trans (hf y.1 hx) (hp hy)

def Agree (μ : σ → Nat) (k : Nat) (p q : Comp σ α) : Prop :=
  ∀ ⦃cap s n⦄, μ s ≤ k → p cap s n = q cap s n

theorem Agree.refl (p : Comp σ α) : Agree μ k p p := fun _ _ _ _ => rfl

theorem Agree.bind (hp : Agree μ k p q) (hs : Shrinks μ q) (h : ∀ a, Agree μ k (f a) (g a)) :
    Agree μ k (p >>= f) (q >>= g) := by
  intro cap s n hk
  rw [bind_apply, bind_apply, hp hk]
  refine Option.bind_congr fun x hx => ?_
  exact h x.1 (Nat.le_trans (hs hx) hk)

end Arena
