import DollMachine.Statistics.App
import DollMachine.Transition

/-!
# Lists and responses

The lists of a process are shared: the screen's `currentList` may be the static list itself, and all
of them are cleared, filled and reversed in place.  What is in them up to order is simple all the
same.  The static list has the records of the last response (`delivered`).  And the list of a date
query is an object of its own, which nothing but the screen that made it reaches: it keeps the
result of the query until the screen takes another list (`Event.KeepsList`).

`views_keep` says both for every run.
-/

namespace DollMachine

open Transition

/-- An event after which the open screen is still the same and has the list that it had. -/
def Event.KeepsList : Event → Prop
  | .reloadClick | .dateSet _ | .onDataArrived | .close => False
  | _ => True

instance (e : Event) : Decidable e.KeepsList := by
  unfold Event.KeepsList
  split <;> infer_instance

/-- The records that the database answers with. -/
def Event.response : Event → Option (List RawData)
  | .onDataChange _ children => some children
  | _ => none

namespace App

variable {app app' t : App} {e : Event} {tr : List (Step App Event)}

/-- The records of the last response of a run; none before the first. -/
def delivered (tr : List (Step App Event)) : List RawData :=
  tr.foldl (fun last x => x.event.response.getD last) []

/-- The screen has a list of its own, with the given records up to order. -/
def Holds (app : App) (l : List Record) : Prop :=
  ∃ d ∈ app.display, d.currentList ≠ rawDataList ∧ d.currentList < app.heap.size ∧
    (app.heap.get d.currentList).records.Perm l

/-- What such an event lays out, it takes from the list of the screen. -/
theorem source_of_keepsList {d : Display} {list : Heap.Ref} (he : e.KeepsList)
    (hd : app.display = some d) (hs : app.source e = some list) :
    e = .onItemSelected ∧ list = d.currentList := by
  cases e with
  | onItemSelected =>
    simp only [source, hd, Option.map_some, Option.some.injEq] at hs
    exact ⟨rfl, hs.symm⟩
  | reloadClick | dateSet _ | onDataArrived => exact absurd he (by simp [Event.KeepsList])
  | _ => cases hs

theorem currentList_next {d : Display} (he : e.KeepsList) (hd : app.display = some d)
    (hc : app.Change e app') :
    ∃ d', app'.display = some d' ∧ d'.currentList = d.currentList := by
  cases hc with
  | quiet hl heap display stays =>
    have hclose : e ≠ .close := by
      rintro rfl
      exact he
    obtain ⟨d', hd'⟩ := Option.ne_none_iff_exists'.1 (stays hclose (by simp [hd]))
    obtain ⟨d₀, hd₀, -, hlist, -⟩ := display d' hd'
    obtain rfl : d = d₀ := Option.some.inj (hd.symm.trans hd₀)
    exact ⟨d', hd', hlist⟩
  | opened d' hl hnone heap display list rows => simp [hd] at hnone
  | filled i m children ha hm heap display => exact ⟨d, display.trans hd, rfl⟩
  | turned ha heap display => exact ⟨d, display.trans hd, rfl⟩
  | shown d₀ d' list hd₀ hs own hl heap display machineNum hlist rows =>
    exact ⟨d', display, hlist.trans (source_of_keepsList he hd hs).2⟩
  | selected d₀ d' list l hd₀ hs own hl sub turns heap display machineNum hlist rows =>
    obtain ⟨ha, hown⟩ := source_of_keepsList he hd hs
    rw [if_pos ha] at hlist
    exact ⟨d', display, hlist.trans hown⟩

theorem holds_next {l : List Record} (h : app.Holds l) (he : e.KeepsList)
    (hc : app.Change e app') : app'.Holds l := by
  obtain ⟨d, hd, hne, hsize, hperm⟩ := h
  obtain ⟨d', hd', hlist⟩ := currentList_next he hd hc
  refine ⟨d', hd', hlist ▸ hne, hlist ▸ Nat.lt_of_lt_of_le hsize (size_next hc), ?_⟩
  rw [hlist]
  exact ((records_next hc hsize).resolve_right fun hraw => hne hraw.1).trans hperm

/-- A date query gives the screen a list of its own, with the records of the day. -/
theorem holds_dateSet {c : Int} (h : rawDataList < app.heap.size)
    (step : app.next (.dateSet c) = some app') :
    app'.Holds (dayRecords c (app.heap.get rawDataList).records) := by
  simp only [next] at step
  split at step
  · cases step
  · rename_i d hd
    cases step
    refine ⟨_, rfl, ?_, ?_, ?_⟩
    · simpa using (Nat.ne_of_gt h)
    · simp only [layoutNew, layoutListView, resetFilter_currentList]
      exact Nat.lt_succ_self _
    · simp [layoutNew, layoutListView, RecordList.reverse]

/-- A response refills the static list. -/
theorem shared_of_response {children : List RawData} (he : e.response = some children)
    (step : app.next e = some app') : app'.shared = children := by
  cases e with
  | onDataChange i l =>
    obtain rfl : l = children := Option.some.inj he
    simp only [next] at step
    split at step
    · cases step
    · cases step
      rw [shared, Heap.get_modify_self]
      exact data_children _ _
  | _ => cases he

theorem delivered_snoc (x : Step App Event) :
    delivered (tr ++ [x]) = x.event.response.getD (delivered tr) := by
  simp [delivered, List.foldl_append]

/-- The lists that a process refers to are objects that it has made. -/
theorem refs_lt_of_run (run : Run next start tr t) :
    rawDataList < t.heap.size ∧ ∀ d ∈ t.display, d.currentList < t.heap.size := by
  refine run.invariant (I := fun app => rawDataList < app.heap.size ∧
    ∀ d ∈ app.display, d.currentList < app.heap.size) ?_ ⟨Nat.one_pos, fun d hd => by cases hd⟩
  rintro w e v ⟨hshared, hcurrent⟩ step
  have hc := next_change step
  exact ⟨Nat.lt_of_lt_of_le hshared (size_next hc), currentList_lt_next hc hshared hcurrent⟩

theorem shared_of_run (run : Run next start tr t) : t.shared.Perm (delivered tr) := by
  induction run with
  | nil => exact .refl _
  | @snoc tr v w e run step ih =>
    rw [delivered_snoc]
    cases he : e.response with
    | some children => rw [shared_of_response he step, Option.getD_some]
    | none =>
      rw [Option.getD_none]
      rcases records_next (next_change step) (refs_lt_of_run run).1 with
        hkept | ⟨-, i, m, children, rfl, -⟩
      · exact (hkept.map _).trans ih
      · cases he

/-- Along every run of a process: the static list has the records of the last response, up to order;
and from a date query until the screen takes another list, the list of the screen has the records
that the query selected, up to order. -/
theorem views_keep (run : Run next start tr t) :
    t.shared.Perm (delivered tr) ∧
    ∀ pre x post c, tr = pre ++ x :: post → x.event = .dateSet c →
      (∀ y ∈ post, y.event.KeepsList) → ∃ d ∈ t.display,
        (t.heap.get d.currentList).records.Perm
          (dayRecords c (x.before.heap.get rawDataList).records) := by
  refine ⟨shared_of_run run, ?_⟩
  rintro pre x post c rfl hx hkeeps
  obtain ⟨hpre, step, hpost⟩ := run.split
  rw [hx] at step
  obtain ⟨d, hd, -, -, hperm⟩ := hpost.guarded (C := fun _ e => e.KeepsList)
    (fun _ _ _ h he step => holds_next h he (next_change step))
    (holds_dateSet (refs_lt_of_run hpre).1 step) hkeeps
  exact ⟨d, hd, hperm⟩

/-- A date query and two filters, while a second response arrives. -/
theorem views_keep_query : ∃ tr t, Run next start tr t ∧
    t.shared.Perm [⟨7, 1, 90000⟩] ∧
    ∃ d ∈ t.display, (t.heap.get d.currentList).records.Perm
      [⟨⟨3, 1, 100⟩, 1⟩, ⟨⟨5, 2, 200⟩, 1⟩] := by
  obtain ⟨tr, t, run, hp⟩ := exists_run_of_exec next start
    [.showStatus 1, .onItemSelected, .onDataChange 0 [⟨3, 1, 100⟩, ⟨5, 2, 200⟩, ⟨9, 2, 86400⟩],
      .reloadClick, .dateSet 0, .choose .maxCoin, .onItemSelected,
      .onDataChange 0 [⟨7, 1, 90000⟩], .choose .all, .onItemSelected]
    (fun r => decide (delivered r.1 = [⟨7, 1, 90000⟩]) &&
      match r.1.drop 4 with
      | x :: post => decide (x.event = .dateSet 0 ∧ (∀ y ∈ post, y.event.KeepsList) ∧
          dayRecords 0 (x.before.heap.get rawDataList).records =
            [⟨⟨5, 2, 200⟩, 1⟩, ⟨⟨3, 1, 100⟩, 1⟩])
      | [] => false) (by decide)
  obtain ⟨hlast, hp⟩ := Bool.and_eq_true_iff.1 hp
  have hlast : delivered tr = [⟨7, 1, 90000⟩] := of_decide_eq_true hlast
  cases hdrop : tr.drop 4 with
  | nil => simp [hdrop] at hp
  | cons x post =>
    simp only [hdrop] at hp
    obtain ⟨hx, hkeeps, hday⟩ := of_decide_eq_true hp
    have htr : tr = tr.take 4 ++ x :: post := by rw [← hdrop, List.take_append_drop]
    obtain ⟨hshared, hlist⟩ := views_keep run
    rw [hlast] at hshared
    obtain ⟨d, hd, hperm⟩ := hlist _ x post 0 htr hx hkeeps
    rw [hday] at hperm
    exact ⟨tr, t, run, hshared, d, hd, hperm.trans (.swap _ _ _)⟩

end App

end DollMachine
