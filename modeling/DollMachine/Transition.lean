import Mathlib.Data.List.Basic

/-!
# Runs of partial state machines

A machine is a function `next : σ → ε → Option σ`; `next s e = none` says that the event `e` cannot
occur in the state `s`.  `Run next s tr t` says that the machine gets from `s` to `t` by the steps
recorded in `tr`, oldest first.  The rules below turn a fact about one step into a fact about all
steps of a run:

* `Run.invariant`: what every step preserves holds along the run;
* `Run.guarded`: what every step that meets a condition preserves holds along the run, as long as
  every step of the run meets the condition;
* `Run.exact`: a property of steps holds all along the run if and only if a condition on the state
  before each step does, when the two agree at every step that starts in an invariant state;
* `Run.simulation`: a machine whose steps are matched by another's has its runs matched;
* `Run.project`: a run of a machine is a run of each component that its events are events of;
* `Run.last_write`: a value that steps either write or leave alone is the one last written;
* `exec_run`: the executable runner `exec` computes runs.
-/

namespace Transition

variable {σ ε : Type*}

/-- One step of a machine: the state before it, the event, and the state after it. -/
structure Step (σ ε : Type*) where
  before : σ
  event : ε
  after : σ

/-- The machine gets from `s` to the last argument by the steps in the list. -/
inductive Run (next : σ → ε → Option σ) (s : σ) : List (Step σ ε) → σ → Prop
  | nil : Run next s [] s
  | snoc {tr : List (Step σ ε)} {t u : σ} {e : ε} (run : Run next s tr t)
      (step : next t e = some u) : Run next s (tr ++ [⟨t, e, u⟩]) u

/-- Run a list of events, recording the steps. -/
def exec (next : σ → ε → Option σ) (s : σ) : List ε → Option (List (Step σ ε) × σ)
  | [] => some ([], s)
  | e :: es => (next s e).bind fun t => (exec next t es).map fun r => (⟨s, e, t⟩ :: r.1, r.2)

variable {next : σ → ε → Option σ} {s t u : σ} {tr : List (Step σ ε)} {x : Step σ ε}

theorem Run.cons {e : ε} (step : next s e = some u) (run : Run next u tr t) :
    Run next s (⟨s, e, u⟩ :: tr) t := by
  induction run with
  | nil => exact .snoc .nil step
  | snoc _ last ih => exact .snoc ih last

theorem exec_run {es : List ε} (h : exec next s es = some (tr, t)) : Run next s tr t := by
  induction es generalizing s tr with
  | nil =>
    simp only [exec, Option.some.injEq, Prod.mk.injEq] at h
    obtain ⟨rfl, rfl⟩ := h
    exact .nil
  | cons e es ih =>
    simp only [exec, Option.bind_eq_some_iff, Option.map_eq_some_iff] at h
    obtain ⟨u, hu, ⟨tr', t'⟩, hr, heq⟩ := h
    simp only [Prod.mk.injEq] at heq
    obtain ⟨rfl, rfl⟩ := heq
    exact .cons hu (ih hr)

/-- A list of events whose outcome passes a test gives a run with that outcome. -/
theorem exists_run_of_exec (next : σ → ε → Option σ) (s : σ) (es : List ε)
    (p : List (Step σ ε) × σ → Bool) (h : (exec next s es).any p = true) :
    ∃ tr t, Run next s tr t ∧ p (tr, t) = true := by
  obtain ⟨⟨tr, t⟩, hr, hp⟩ := (Option.any_eq_true p _).1 h
  exact ⟨tr, t, exec_run hr, hp⟩

/-! ## From one step to a run -/

/-- A run that goes through a step is a run to the step, the step, and a run from it. -/
theorem Run.split {pre post : List (Step σ ε)} (run : Run next s (pre ++ x :: post) t) :
    Run next s pre x.before ∧ next x.before x.event = some x.after ∧
      Run next x.after post t := by
  generalize htr : pre ++ x :: post = tr at run
  induction run generalizing post with
  | nil => simp at htr
  | @snoc tr v w e run step ih =>
    rcases List.eq_nil_or_concat post with rfl | ⟨post, y, rfl⟩
    · obtain ⟨rfl, hx⟩ := List.append_inj' htr rfl
      obtain rfl := List.singleton_inj.1 hx
      exact ⟨run, step, .nil⟩
    · rw [List.concat_eq_append, ← List.cons_append, ← List.append_assoc] at htr
      obtain ⟨rfl, hy⟩ := List.append_inj' htr rfl
      obtain rfl := List.singleton_inj.1 hy
      obtain ⟨hpre, hx, hpost⟩ := ih rfl
      exact ⟨hpre, hx, by rw [List.concat_eq_append]; exact hpost.snoc step⟩

/-- Every step of a run is a step of the machine, taken in the state that the steps before it
reach. -/
theorem Run.at_step (run : Run next s tr t) (hx : x ∈ tr) :
    ∃ pre post, tr = pre ++ x :: post ∧ Run next s pre x.before ∧
      next x.before x.event = some x.after := by
  obtain ⟨pre, post, rfl⟩ := List.append_of_mem hx
  obtain ⟨hpre, step, -⟩ := run.split
  exact ⟨pre, post, rfl, hpre, step⟩

theorem Run.guarded {I : σ → Prop} {C : σ → ε → Prop}
    (keep : ∀ t e u, I t → C t e → next t e = some u → I u) (run : Run next s tr t) (h₀ : I s)
    (hC : ∀ x ∈ tr, C x.before x.event) : I t := by
  induction run with
  | nil => exact h₀
  | snoc run step ih =>
    have ht := ih fun x hx => hC x (List.mem_append_left _ hx)
    exact keep _ _ _ ht (hC _ (List.mem_append_right _ (List.mem_singleton_self _))) step

theorem Run.invariant {I : σ → Prop} (keep : ∀ t e u, I t → next t e = some u → I u)
    (run : Run next s tr t) (h₀ : I s) : I t :=
  run.guarded (C := fun _ _ => True) (fun t e u ht _ => keep t e u ht) h₀ fun _ _ => trivial

/-- An invariant holds before and after every step of the run. -/
theorem Run.invariant_at {I : σ → Prop} (keep : ∀ t e u, I t → next t e = some u → I u)
    (run : Run next s tr t) (h₀ : I s) (hx : x ∈ tr) :
    I x.before ∧ next x.before x.event = some x.after ∧ I x.after := by
  obtain ⟨pre, post, -, hpre, step⟩ := run.at_step hx
  exact ⟨hpre.invariant keep h₀, step, (hpre.snoc step).invariant keep h₀⟩

/-- A guarded invariant holds before every step of the run. -/
theorem Run.guarded_before {I : σ → Prop} {C : σ → ε → Prop}
    (keep : ∀ t e u, I t → C t e → next t e = some u → I u) (run : Run next s tr t) (h₀ : I s)
    (hC : ∀ x ∈ tr, C x.before x.event) (hx : x ∈ tr) : I x.before := by
  obtain ⟨pre, post, rfl, hpre, -⟩ := run.at_step hx
  exact hpre.guarded keep h₀ fun y hy => hC y (List.mem_append_left _ hy)

/-- `A` is what is assumed of the events of the run. -/
theorem Run.exact_of {I : σ → Prop} {A : ε → Prop} {C : σ → ε → Prop} {P : Step σ ε → Prop}
    (keep : ∀ t e u, I t → A e → C t e → next t e = some u → I u)
    (agree : ∀ t e u, I t → A e → next t e = some u → (P ⟨t, e, u⟩ ↔ C t e))
    (run : Run next s tr t) (h₀ : I s) (hA : ∀ x ∈ tr, A x.event) :
    (∀ x ∈ tr, P x) ↔ ∀ x ∈ tr, C x.before x.event := by
  induction run with
  | nil => simp
  | @snoc tr v w e run step ih =>
    simp only [List.forall_mem_append, List.forall_mem_singleton] at hA ⊢
    rw [ih hA.1]
    refine and_congr_right fun hC => agree v e w ?_ hA.2 step
    exact run.guarded (C := fun t e => A e ∧ C t e) (fun t e u ht h => keep t e u ht h.1 h.2) h₀
      fun x hx => ⟨hA.1 x hx, hC x hx⟩

theorem Run.exact {I : σ → Prop} {C : σ → ε → Prop} {P : Step σ ε → Prop}
    (keep : ∀ t e u, I t → C t e → next t e = some u → I u)
    (agree : ∀ t e u, I t → next t e = some u → (P ⟨t, e, u⟩ ↔ C t e))
    (run : Run next s tr t) (h₀ : I s) :
    (∀ x ∈ tr, P x) ↔ ∀ x ∈ tr, C x.before x.event :=
  run.exact_of (A := fun _ => True) (fun t e u ht _ => keep t e u ht)
    (fun t e u ht _ => agree t e u ht) h₀ fun _ _ => trivial

/-- If every step that meets a condition is matched by one of another machine, with an event that
agrees in what `f` and `g` tell, then so is a run. -/
theorem Run.simulation_map {τ ε' φ : Type*} {next' : τ → ε' → Option τ} {s' : τ} {R : σ → τ → Prop}
    {C : ε → Prop} {f : ε → φ} {g : ε' → φ}
    (match_step : ∀ t t' e u, R t t' → C e → next t e = some u →
      ∃ e' u', g e' = f e ∧ next' t' e' = some u' ∧ R u u')
    (run : Run next s tr t) (h₀ : R s s') (hC : ∀ x ∈ tr, C x.event) :
    ∃ tr' t', Run next' s' tr' t' ∧ R t t' ∧
      tr'.map (fun x => g x.event) = tr.map (fun x => f x.event) := by
  induction run with
  | nil => exact ⟨[], s', .nil, h₀, rfl⟩
  | @snoc tr v w e run step ih =>
    rw [List.forall_mem_append, List.forall_mem_singleton] at hC
    obtain ⟨tr', v', run', hR, hevents⟩ := ih hC.1
    obtain ⟨e', w', he, step', hR'⟩ := match_step v v' e w hR hC.2 step
    exact ⟨tr' ++ [⟨v', e', w'⟩], w', run'.snoc step', hR', by simp [hevents, he]⟩

/-- The same with the same events. -/
theorem Run.simulation {τ : Type*} {next' : τ → ε → Option τ} {s' : τ} {R : σ → τ → Prop}
    {C : ε → Prop}
    (match_step : ∀ t t' e u, R t t' → C e → next t e = some u →
      ∃ u', next' t' e = some u' ∧ R u u')
    (run : Run next s tr t) (h₀ : R s s') (hC : ∀ x ∈ tr, C x.event) :
    ∃ tr' t', Run next' s' tr' t' ∧ R t t' ∧ tr'.map Step.event = tr.map Step.event :=
  run.simulation_map (f := id) (g := id) (fun t t' e u hR he step => by
    obtain ⟨u', step', hR'⟩ := match_step t t' e u hR he step
    exact ⟨e, u', rfl, step', hR'⟩) h₀ hC

/-- The steps of a run that are events of a component. -/
def project {τ ε' : Type*} (f : σ → τ) (g : ε → Option ε') (tr : List (Step σ ε)) :
    List (Step τ ε') :=
  tr.filterMap fun x => (g x.event).map fun e => ⟨f x.before, e, f x.after⟩

theorem Run.project {τ ε' : Type*} {next' : τ → ε' → Option τ} {f : σ → τ} {g : ε → Option ε'}
    (keep : ∀ t e u, next t e = some u → g e = none → f u = f t)
    (move : ∀ t e u e', next t e = some u → g e = some e' → next' (f t) e' = some (f u))
    (run : Run next s tr t) : Run next' (f s) (Transition.project f g tr) (f t) := by
  induction run with
  | nil => exact .nil
  | @snoc tr v w e run step ih =>
    unfold Transition.project at ih ⊢
    cases hg : g e with
    | none => simpa [hg, keep v e w step hg] using ih
    | some e' => simpa [hg] using ih.snoc (move v e w e' step hg)

/-- A value `f` that every step overwrites with `g` or leaves alone is the one that the last step to
overwrite it put there, or the one at the start. -/
theorem Run.last_write {β : Type*} {f : σ → β} {g : σ → ε → Option β}
    (keep : ∀ t e u, next t e = some u → f u = (g t e).getD (f t))
    (run : Run next s tr t) (b : β) :
    f t = b ↔
      (∃ pre x post, tr = pre ++ x :: post ∧ g x.before x.event = some b ∧
        ∀ y ∈ post, g y.before y.event = none) ∨
      (∀ y ∈ tr, g y.before y.event = none) ∧ f s = b := by
  induction run with
  | nil => simp
  | @snoc tr v w e run step ih =>
    rw [keep v e w step]
    cases hw : g v e with
    | some c =>
      constructor
      · rintro rfl
        exact .inl ⟨tr, ⟨v, e, w⟩, [], rfl, hw, by simp⟩
      · rintro (⟨pre, x, post, heq, hx, hpost⟩ | ⟨hnone, -⟩)
        · rcases List.eq_nil_or_concat post with rfl | ⟨post, y, rfl⟩
          · obtain ⟨-, heq⟩ := List.append_inj' heq rfl
            obtain rfl := List.singleton_inj.1 heq
            exact Option.some.inj (hw.symm.trans hx)
          · rw [List.concat_eq_append, ← List.cons_append, ← List.append_assoc] at heq
            obtain ⟨-, heq⟩ := List.append_inj' heq rfl
            obtain rfl := List.singleton_inj.1 heq
            have hnone := hpost ⟨v, e, w⟩ (by simp)
            simp [hw] at hnone
        · have hlast := hnone ⟨v, e, w⟩ (by simp)
          simp [hw] at hlast
    | none =>
      rw [Option.getD_none, ih]
      constructor
      · rintro (⟨pre, x, post, rfl, hx, hpost⟩ | ⟨hnone, hs⟩)
        · refine .inl ⟨pre, x, post ++ [⟨v, e, w⟩], by simp, hx, ?_⟩
          rw [List.forall_mem_append, List.forall_mem_singleton]
          exact ⟨hpost, hw⟩
        · refine .inr ⟨?_, hs⟩
          rw [List.forall_mem_append, List.forall_mem_singleton]
          exact ⟨hnone, hw⟩
      · rintro (⟨pre, x, post, heq, hx, hpost⟩ | ⟨hnone, hs⟩)
        · rcases List.eq_nil_or_concat post with rfl | ⟨post, y, rfl⟩
          · obtain ⟨-, heq⟩ := List.append_inj' heq rfl
            obtain rfl := List.singleton_inj.1 heq
            simp [hw] at hx
          · rw [List.concat_eq_append] at heq hpost
            rw [← List.cons_append, ← List.append_assoc] at heq
            obtain ⟨rfl, -⟩ := List.append_inj' heq rfl
            exact .inl ⟨pre, x, post, rfl, hx, fun y hy => hpost y (List.mem_append_left _ hy)⟩
        · exact .inr ⟨fun y hy => hnone y (List.mem_append_left _ hy), hs⟩

end Transition
