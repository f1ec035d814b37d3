import DollMachine.Statistics.App
import DollMachine.Transition

/-!
# The order of the rows

The database delivers the records of a machine oldest first, and `layoutListView` reverses the list
it is given, in place, so as to show the newest first.  A list that is laid out again is turned
back.

`newest_first_iff`: the rows of the screens are always newest first if and only if every list that
is laid out has been reversed an even number of times since it was delivered, or has at most one
record.
-/

namespace DollMachine

open Transition

def Ascending (l : List Record) : Prop := l.Pairwise fun a b => a.timestamp < b.timestamp

def Descending (l : List Record) : Prop := l.Pairwise fun a b => b.timestamp < a.timestamp

instance (l : List Record) : Decidable (Ascending l) := by
  unfold Ascending
  infer_instance

/-- The order of the list is the one it was delivered in, or the reverse, as `turns` says. -/
def RecordList.Ordered (l : RecordList) : Prop :=
  (l.turns % 2 = 0 → Ascending l.records) ∧ (l.turns % 2 = 1 → Descending l.records)

/-- An answer of the database has the records in strictly ascending order of their timestamps. -/
def Event.Ascending : Event → Prop
  | .onDataChange _ children => children.Pairwise fun a b => a.timestamp < b.timestamp
  | _ => True

instance (e : Event) : Decidable e.Ascending := by
  unfold Event.Ascending
  split <;> infer_instance

variable {l l' : RecordList}

theorem descending_reverse {l : List Record} : Descending l.reverse ↔ Ascending l :=
  List.pairwise_reverse

theorem ascending_reverse {l : List Record} : Ascending l.reverse ↔ Descending l :=
  List.pairwise_reverse

namespace RecordList

theorem ordered_empty : Ordered ⟨[], 0⟩ := ⟨fun _ => .nil, fun _ => .nil⟩

theorem Ordered.reverse (h : l.Ordered) : l.reverse.Ordered := by
  simp only [Ordered, RecordList.reverse, descending_reverse, ascending_reverse]
  exact ⟨fun ht => h.2 (by omega), fun ht => h.1 (by omega)⟩

theorem Ordered.sublist (h : l.Ordered) (sub : l'.records.Sublist l.records)
    (turns : l'.turns = l.turns) : l'.Ordered := by
  rw [Ordered, turns]
  exact ⟨fun ht => (h.1 ht).sublist sub, fun ht => (h.2 ht).sublist sub⟩

/-- A list is laid out newest first exactly when it has been reversed an even number of times, or
has no two records. -/
theorem Ordered.descending_iff (h : l.Ordered) :
    Descending l.records.reverse ↔ l.turns % 2 = 0 ∨ l.records.length ≤ 1 := by
  rw [descending_reverse]
  rcases Nat.mod_two_eq_zero_or_one l.turns with ht | ht
  · exact iff_of_true (h.1 ht) (.inl ht)
  · rw [ht]
    have hdesc := h.2 ht
    rcases hl : l.records with _ | ⟨a, _ | ⟨b, rs⟩⟩
    · simp [Ascending]
    · simp [Ascending]
    · rw [hl] at hdesc
      have hba := List.rel_of_pairwise_cons hdesc List.mem_cons_self
      refine iff_of_false (fun hasc => ?_) (by simp)
      have hab := List.rel_of_pairwise_cons hasc List.mem_cons_self
      omega

end RecordList

namespace App

variable {app app' s t : App} {e : Event} {tr : List (Step App Event)}

/-- The rows of the open screen are newest first. -/
def NewestFirst (app : App) : Prop := ∀ d ∈ app.display, Descending d.rows

/-- The list that the event lays out has been reversed an even number of times since it was
delivered, or has at most one record. -/
def LaysInOrder (app : App) (e : Event) : Prop :=
  ∀ l ∈ app.laid e, l.turns % 2 = 0 ∨ l.records.length ≤ 1

instance (app : App) (e : Event) : Decidable (app.LaysInOrder e) := by
  unfold LaysInOrder
  infer_instance

/-- All lists are in one of the two orders, and the rows are newest first. -/
structure Sorted (app : App) : Prop where
  lists : ∀ r, (app.heap.get r).Ordered
  rows : app.NewestFirst

theorem sorted_start : start.Sorted := ⟨fun _ => RecordList.ordered_empty, fun d hd => by cases hd⟩

/-- A step keeps every list in one of the two orders. -/
theorem lists_next (h : ∀ r, (app.heap.get r).Ordered) (he : e.Ascending)
    (hc : app.Change e app') (r : Heap.Ref) : (app'.heap.get r).Ordered := by
  cases hc with
  | quiet hl heap display => exact heap ▸ h r
  | opened d' hl hd heap display list rows =>
    rw [heap]
    exact Heap.forall_alloc h RecordList.ordered_empty r
  | filled i m children ha hm heap display =>
    subst ha
    rw [heap]
    refine Heap.forall_modify h (fun _ => ⟨fun _ => ?_, fun ht => by cases ht⟩) r
    exact List.pairwise_map.2 he
  | turned ha heap display =>
    rw [heap]
    exact Heap.forall_modify h .reverse r
  | shown d d' list hd hs own hl heap display machineNum hlist rows =>
    rw [heap]
    exact Heap.forall_modify h .reverse r
  | selected d d' list l hd hs own hl sub turns heap display machineNum hlist rows =>
    rw [heap]
    exact Heap.forall_modify (Heap.forall_alloc h ((h list).sublist sub turns)) .reverse r

/-- A step shows the newest first exactly when it lays out a list that is not turned. -/
theorem newestFirst_iff (h : app.Sorted) (hc : app.Change e app') :
    app'.NewestFirst ↔ app.LaysInOrder e := by
  rcases laid_cases hc with ⟨hl, hrows⟩ | ⟨d, d', list, l, -, hd', -, -, hl, sub, turns, -, rows⟩
  · refine iff_of_true (fun d' hd' => ?_) fun l hl' => by simp [hl] at hl'
    rcases hrows d' hd' with hnil | ⟨d, hd, -, heq⟩
    · rw [hnil]
      exact .nil
    · rw [heq]
      exact h.rows d hd
  · simp only [NewestFirst, LaysInOrder, hd', hl, Option.mem_some_iff, forall_eq', rows]
    exact ((h.lists list).sublist sub turns).descending_iff

/-- Along every run of a process in which the database answers with records in ascending order, the
rows are always newest first if and only if every list that is laid out has been reversed an even
number of times since it was delivered, or has at most one record. -/
theorem newest_first_iff (run : Run next start tr t) (hA : ∀ x ∈ tr, x.event.Ascending) :
    (∀ x ∈ tr, x.after.NewestFirst) ↔ ∀ x ∈ tr, x.before.LaysInOrder x.event :=
  run.exact_of (I := Sorted)
    (fun _ _ _ h hA hC step =>
      ⟨lists_next h.lists hA (next_change step), (newestFirst_iff h (next_change step)).2 hC⟩)
    (fun _ _ _ h _ step => newestFirst_iff h (next_change step)) sorted_start hA

/-- The owner's records arrive, and the preloader delivers them. -/
theorem newest_first_preload : ∃ tr t, Run next start tr t ∧ (∀ x ∈ tr, x.after.NewestFirst) ∧
    t.display.map (·.rows) = some [⟨⟨5, 1, 200⟩, 1⟩, ⟨⟨3, 1, 100⟩, 1⟩] := by
  obtain ⟨tr, t, run, hp⟩ := exists_run_of_exec next start
    [.login 1, .onItemSelected, .onDataChange 0 [⟨3, 1, 100⟩, ⟨5, 1, 200⟩], .onDataArrived]
    (fun r => decide ((∀ x ∈ r.1, x.event.Ascending) ∧
      (∀ x ∈ r.1, x.before.LaysInOrder x.event) ∧
      r.2.display.map (·.rows) = some [⟨⟨5, 1, 200⟩, 1⟩, ⟨⟨3, 1, 100⟩, 1⟩])) (by decide)
  obtain ⟨hA, hC, hrows⟩ := of_decide_eq_true hp
  exact ⟨tr, t, run, (newest_first_iff run hA).2 hC, hrows⟩

/-- After a filter, "所有紀錄" lays out the shared list for the second time: the oldest record is on
top. -/
theorem newest_first_fails : ∃ tr t, Run next start tr t ∧ (∀ x ∈ tr, x.event.Ascending) ∧
    t.display.map (·.rows) = some [⟨⟨3, 1, 100⟩, 1⟩, ⟨⟨5, 1, 200⟩, 1⟩] := by
  obtain ⟨tr, t, run, hp⟩ := exists_run_of_exec next start
    [.showStatus 1, .onItemSelected, .onDataChange 0 [⟨3, 1, 100⟩, ⟨5, 1, 200⟩], .reloadClick,
      .choose .maxCoin, .onItemSelected, .choose .all, .onItemSelected]
    (fun r => decide ((∀ x ∈ r.1, x.event.Ascending) ∧
      r.2.display.map (·.rows) = some [⟨⟨3, 1, 100⟩, 1⟩, ⟨⟨5, 1, 200⟩, 1⟩])) (by decide)
  exact ⟨tr, t, run, of_decide_eq_true hp⟩

end App

end DollMachine
