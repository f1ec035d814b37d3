import DollMachine.Statistics.App
import DollMachine.Transition

/-!
# Whose records a screen shows

The shared list holds the records of whichever machine the database answered for last; a screen
takes it for the list of its own machine.  `own_records_iff`: every row of every screen comes from
the node of the screen's machine if and only if, whenever a screen lays out records of the shared
list, that list holds records of the screen's machine.
-/

namespace DollMachine

open Transition

namespace App

variable {app app' s t : App} {e : Event} {tr : List (Step App Event)}

/-- The rows of the open screen come from the node of its machine. -/
def ShowsOwn (app : App) : Prop :=
  ∀ d ∈ app.display, ∀ r ∈ d.rows, r.node = d.machineNum

/-- If the event lays out records of the shared list, the shared list holds records of the machine
of the open screen. -/
def ReadsOwn (app : App) (e : Event) : Prop :=
  app.source e = some rawDataList → ∀ l ∈ app.laid e, l.records ≠ [] →
    ∀ d ∈ app.display, ∀ r ∈ (app.heap.get rawDataList).records, r.node = d.machineNum

instance (app : App) (e : Event) : Decidable (app.ReadsOwn e) := by
  unfold ReadsOwn
  infer_instance

/-- The shared list has records of one machine, and what a screen has for itself is of its own. -/
structure Separate (app : App) : Prop where
  allocated : rawDataList < app.heap.size
  uniform : ∃ m, ∀ r ∈ (app.heap.get rawDataList).records, r.node = m
  current : ∀ d ∈ app.display, d.currentList < app.heap.size
  own : ∀ d ∈ app.display, d.currentList ≠ rawDataList →
    ∀ r ∈ (app.heap.get d.currentList).records, r.node = d.machineNum
  rows : app.ShowsOwn

theorem separate_start : start.Separate where
  allocated := Nat.one_pos
  uniform := ⟨0, fun r hr => by cases hr⟩
  current d hd := by cases hd
  own d hd := by cases hd
  rows d hd := by cases hd

/-- A step shows records of the screen's machine exactly when it reads such records. -/
theorem showsOwn_iff (h : app.Separate) (hc : app.Change e app') :
    app'.ShowsOwn ↔ app.ReadsOwn e := by
  rcases laid_cases hc with ⟨hl, hrows⟩ |
    ⟨d, d', list, l, hd, hd', hs, own, hl, sub, -, machineNum, rows⟩
  · refine iff_of_true (fun d' hd' => ?_) fun _ l hl' => by simp [hl] at hl'
    rcases hrows d' hd' with hnil | ⟨d, hd, hm, heq⟩
    · simp [hnil]
    · rw [hm, heq]
      exact h.rows d hd
  · have hshows : app'.ShowsOwn ↔ ∀ r ∈ l.records, r.node = d.machineNum := by
      simp [ShowsOwn, hd', rows, machineNum]
    rw [hshows]
    by_cases hlist : list = rawDataList
    · subst hlist
      simp only [ReadsOwn, hs, hl, hd, Option.mem_some_iff, forall_eq', true_implies]
      refine ⟨fun hr hne r hmem => ?_, fun hr r hmem => ?_⟩
      · -- one record of the machine among those selected makes the whole list the machine's
        obtain ⟨m, hm⟩ := h.uniform
        obtain ⟨r₀, hr₀⟩ := List.exists_mem_of_ne_nil _ hne
        rw [hm r hmem, ← hm r₀ (sub.subset hr₀), hr r₀ hr₀]
      · exact hr (List.ne_nil_of_mem hmem) r (sub.subset hmem)
    · obtain rfl := own.resolve_left hlist
      refine iff_of_true (fun r hr => h.own d hd hlist r (sub.subset hr)) fun hs' => ?_
      exact absurd (Option.some.inj (hs.symm.trans hs')) hlist

/-- A step that shows records of the screen's machine keeps the lists separate. -/
theorem separate_next (h : app.Separate) (hc : app.Change e app') (hs : app'.ShowsOwn) :
    app'.Separate := by
  refine ⟨Nat.lt_of_lt_of_le h.allocated (size_next hc), ?_,
    currentList_lt_next hc h.allocated h.current, fun d' hd' hne r hr => ?_, hs⟩
  · obtain ⟨m, hm⟩ := h.uniform
    rcases records_next hc h.allocated with hperm | ⟨-, i, m', children, -, hrecords⟩
    · exact ⟨m, fun r hr => hm r (hperm.mem_iff.1 hr)⟩
    · exact ⟨m', by simp [hrecords]⟩
  · rcases currentList_cases hc hd' with ⟨d, hd, hm, hlist⟩ | hlist | ⟨hlist, -, hrows⟩
    · rw [hlist] at hne hr
      have hperm := (records_next hc (h.current d hd)).resolve_right fun hraw => hne hraw.1
      rw [hm]
      exact h.own d hd hne r (hperm.mem_iff.1 hr)
    · exact absurd hlist hne
    · -- a list of its own has the records of the rows
      rw [hlist, hrows] at hr
      exact hs d' hd' r hr

/-- Along every run of a process, each screen shows only records of its own machine if and only if
the shared list holds records of the screen's machine whenever the screen lays out records of it. -/
theorem own_records_iff (run : Run next start tr t) :
    (∀ x ∈ tr, x.after.ShowsOwn) ↔ ∀ x ∈ tr, x.before.ReadsOwn x.event :=
  run.exact (I := Separate)
    (fun _ _ _ h hC step =>
      separate_next h (next_change step) ((showsOwn_iff h (next_change step)).2 hC))
    (fun _ _ _ h step => showsOwn_iff h (next_change step)) separate_start

/-- The master looks at the statistics of machine 1, after the answer and through a filter. -/
theorem own_records_first : ∃ tr t, Run next start tr t ∧ (∀ x ∈ tr, x.after.ShowsOwn) ∧
    t.display.map (·.rows) = some [⟨⟨5, 1, 200⟩, 1⟩] := by
  obtain ⟨tr, t, run, hp⟩ := exists_run_of_exec next start
    [.showStatus 1, .onItemSelected, .onDataChange 0 [⟨3, 1, 100⟩, ⟨5, 1, 200⟩], .reloadClick,
      .choose .maxCoin, .onItemSelected]
    (fun r => decide ((∀ x ∈ r.1, x.before.ReadsOwn x.event) ∧
      r.2.display.map (·.rows) = some [⟨⟨5, 1, 200⟩, 1⟩])) (by decide)
  obtain ⟨hC, hrows⟩ := of_decide_eq_true hp
  exact ⟨tr, t, run, (own_records_iff run).2 hC, hrows⟩

/-- The master looks at machine 1, goes back, opens the statistics of machine 2 and reloads before
the database answers: the rows are those of machine 1. -/
theorem own_records_fail : ∃ tr t, Run next start tr t ∧
    t.display.map (fun d => (d.machineNum, d.rows)) = some (2, [⟨⟨3, 1, 100⟩, 1⟩]) := by
  obtain ⟨tr, t, run, hp⟩ := exists_run_of_exec next start
    [.showStatus 1, .onDataChange 0 [⟨3, 1, 100⟩], .close, .showStatus 2, .reloadClick]
    (fun r => decide (r.2.display.map (fun d => (d.machineNum, d.rows)) =
      some (2, [⟨⟨3, 1, 100⟩, 1⟩]))) (by decide)
  exact ⟨tr, t, run, of_decide_eq_true hp⟩

end App

end DollMachine
