import DollMachine.Extremum
import DollMachine.Statistics.Views
import Mathlib.Order.OrderDual

/-!
# The extremum filters

A loop of `onItemSelected` starts from the value of the first record and keeps the records that have
the best value so far, in a single pass.  For the two maxima the best value is the greatest one; for
the two minima it is the greatest one in the reversed order, so that one invariant serves all four
(`filterLoop_eq_greatest`).

`filters_exact`: a position of the spinner selects exactly the records that have the extremum, in
their order, and laying them out leaves the list of the screen as it is.
-/

namespace DollMachine

open Extremum Transition

/-- The record has the value that a position of the spinner asks for. -/
def Filter.selects : Filter → List Record → Record → Bool
  | .all, _, _ => true
  | .maxCoin, currentList, r => (currentList.map (·.coin)).max? = some r.coin
  | .maxGoods, currentList, r => (currentList.map (·.goods)).max? = some r.goods
  | .minCoin, currentList, r => (currentList.map (·.coin)).min? = some r.coin
  | .minGoods, currentList, r => (currentList.map (·.goods)).min? = some r.goods

section Loop

variable {τ : Type*} [LinearOrder τ] {key : Int → τ} {field : Record → Int}
  {better : Int → Int → Bool} {pre l : List Record} {base : Int}

/-- The loop after the records `pre`: `base` is their best value, and the list has the records with
that value. -/
theorem filterLoop_eq_greatest (hinj : Function.Injective key)
    (hbetter : ∀ x y, better x y = true ↔ key y < key x)
    (h : IsTop (fun r => key (field r)) pre (key base)) :
    filterLoop field better base (greatest (fun r => key (field r)) pre) l =
      greatest (fun r => key (field r)) (pre ++ l) := by
  induction l generalizing pre base with
  | nil => rw [filterLoop, List.append_nil]
  | cons r rs ih =>
    have hnext := h.snoc r
    rw [List.append_cons]
    unfold filterLoop
    split_ifs with hgt heq
    · have hlt := (hbetter _ _).1 hgt
      rw [max_eq_right hlt.le] at hnext
      rw [← ih hnext, greatest_snoc_of_gt h hlt]
    · subst heq
      rw [max_self] at hnext
      rw [← ih hnext, greatest_snoc_of_eq h]
    · have hle : key (field r) ≤ key base := not_lt.1 fun hlt => hgt ((hbetter _ _).2 hlt)
      have hlt := hle.lt_of_ne fun hkey => heq (hinj hkey)
      rw [max_eq_left hle] at hnext
      rw [← ih hnext, greatest_snoc_of_lt h hlt]

/-- The loop over a list that starts with `first`, from the value of `first`. -/
theorem filterLoop_first (hinj : Function.Injective key)
    (hbetter : ∀ x y, better x y = true ↔ key y < key x) (first : Record) (l : List Record) :
    filterLoop field better (field first) [] (first :: l) =
      greatest (fun r => key (field r)) (first :: l) := by
  have hfirst : better (field first) (field first) ≠ true := fun h =>
    lt_irrefl _ ((hbetter _ _).1 h)
  have hsingle : greatest (fun r => key (field r)) [first] = [first] := by
    simp [greatest]
  rw [filterLoop, if_neg hfirst, if_pos rfl, List.nil_append, ← hsingle]
  exact filterLoop_eq_greatest hinj hbetter (isTop_singleton _ first)

end Loop

variable {l : List Record} {r : Record}

theorem max?_eq_some_iff (f : Record → Int) (hr : r ∈ l) :
    (l.map f).max? = some (f r) ↔ ∀ s ∈ l, f s ≤ f r := by
  rw [List.max?_eq_some_iff, List.forall_mem_map]
  exact and_iff_right (List.mem_map_of_mem hr)

theorem min?_eq_some_iff (f : Record → Int) (hr : r ∈ l) :
    (l.map f).min? = some (f r) ↔ ∀ s ∈ l, f r ≤ f s := by
  rw [List.min?_eq_some_iff, List.forall_mem_map]
  exact and_iff_right (List.mem_map_of_mem hr)

theorem greatest_eq_filter_max? (f : Record → Int) (l : List Record) :
    greatest f l = l.filter fun r => (l.map f).max? = some (f r) :=
  List.filter_congr fun _ hr => decide_eq_decide.2 (max?_eq_some_iff f hr).symm

theorem greatest_eq_filter_min? (f : Record → Int) (l : List Record) :
    greatest (fun r => OrderDual.toDual (f r)) l =
      l.filter fun r => (l.map f).min? = some (f r) :=
  List.filter_congr fun _ hr => decide_eq_decide.2 (min?_eq_some_iff f hr).symm

/-- A position of the spinner selects the records that have the value it asks for. -/
theorem Filter.select_eq_filter (pos : Filter) (currentList : List Record) :
    pos.select currentList = currentList.filter (pos.selects currentList) := by
  have hmax : ∀ x y : Int, decide (x > y) = true ↔ id y < id x := fun x y => decide_eq_true_iff
  have hmin : ∀ x y : Int, decide (x < y) = true ↔ OrderDual.toDual y < OrderDual.toDual x :=
    fun x y => decide_eq_true_iff
  cases currentList with
  | nil => rfl
  | cons first l =>
    cases pos with
    | all => exact (List.filter_eq_self.2 fun r _ => rfl).symm
    | maxCoin =>
      exact (filterLoop_first Function.injective_id hmax first l).trans
        (greatest_eq_filter_max? (·.coin) _)
    | maxGoods =>
      exact (filterLoop_first Function.injective_id hmax first l).trans
        (greatest_eq_filter_max? (·.goods) _)
    | minCoin =>
      exact (filterLoop_first OrderDual.toDual.injective hmin first l).trans
        (greatest_eq_filter_min? (·.coin) _)
    | minGoods =>
      exact (filterLoop_first OrderDual.toDual.injective hmin first l).trans
        (greatest_eq_filter_min? (·.goods) _)

namespace App

variable {app app' : App} {d : Display} {pos : Filter} {rest : List Filter}
  {tr : List (Step App Event)}

/-- The call of `onItemSelected` for an extremum filter. -/
theorem next_filter (hd : app.display = some d) (hcalls : d.callbacks = pos :: rest)
    (hpos : pos ≠ .all) (hne : (app.heap.get d.currentList).records ≠ []) :
    app.next .onItemSelected = some (app.layoutNew { d with callbacks := rest }
      ⟨pos.select (app.heap.get d.currentList).records, (app.heap.get d.currentList).turns⟩) := by
  simp only [next, hd, hcalls, if_neg hne, if_neg hpos]

/-- For each of the four extremum filters: the list that `onItemSelected` builds from any list has
exactly the records with the extremum, in their order; and in every state that a run reaches, the
rows are the records built from the list of the screen, in reverse, and the list of the screen is
as it was. -/
theorem filters_exact (pos : Filter) (hpos : pos ≠ .all) :
    (∀ currentList, pos.select currentList = currentList.filter (pos.selects currentList)) ∧
    ∀ tr app d rest, Run next start tr app → app.display = some d → d.callbacks = pos :: rest →
      (app.heap.get d.currentList).records ≠ [] →
      ∃ app' d', app.next .onItemSelected = some app' ∧ app'.display = some d' ∧
        d'.currentList = d.currentList ∧
        app'.heap.get d.currentList = app.heap.get d.currentList ∧
        d'.rows.reverse = (app.heap.get d.currentList).records.filter
          (pos.selects (app.heap.get d.currentList).records) := by
  refine ⟨pos.select_eq_filter, fun tr app d rest run hd hcalls hne => ?_⟩
  have hlt := (refs_lt_of_run run).2 d hd
  refine ⟨_, _, next_filter hd hcalls hpos hne, rfl, rfl, ?_, ?_⟩
  · simp only [layoutNew, layoutListView, Heap.alloc_ref]
    rw [Heap.get_modify_of_ne _ _ _ _ (Nat.ne_of_lt hlt), Heap.get_alloc_of_lt _ _ _ hlt]
  · rw [← pos.select_eq_filter]
    simp [RecordList.reverse]

/-- Two of three records have the most coins; they are built in the order of the list, which the
reload has reversed. -/
theorem filters_exact_coin : ∃ tr app app' d', Run next start tr app ∧
    app.next .onItemSelected = some app' ∧ app'.display = some d' ∧
    app'.shared = [⟨3, 2, 300⟩, ⟨-5, 1, 200⟩, ⟨3, 1, 100⟩] ∧
    d'.rows.reverse = [⟨⟨3, 2, 300⟩, 1⟩, ⟨⟨3, 1, 100⟩, 1⟩] := by
  obtain ⟨tr, app, run, hp⟩ := exists_run_of_exec next start
    [.showStatus 1, .onItemSelected,
      .onDataChange 0 [⟨3, 1, 100⟩, ⟨-5, 1, 200⟩, ⟨3, 2, 300⟩], .reloadClick, .choose .maxCoin]
    (fun r => decide (r.2.display.map (fun d => (d.currentList, d.callbacks)) =
        some (rawDataList, [.maxCoin]) ∧
      (r.2.heap.get rawDataList).records =
        [⟨⟨3, 2, 300⟩, 1⟩, ⟨⟨-5, 1, 200⟩, 1⟩, ⟨⟨3, 1, 100⟩, 1⟩])) (by decide)
  obtain ⟨hscreen, hrecords⟩ := of_decide_eq_true hp
  obtain ⟨d, hd, hfields⟩ := Option.map_eq_some_iff.1 hscreen
  obtain ⟨hlist, hcalls⟩ := Prod.mk.inj hfields
  have hne : (app.heap.get d.currentList).records ≠ [] := by
    rw [hlist, hrecords]
    decide
  obtain ⟨app', d', step, hd', -, hkept, hrows⟩ :=
    (filters_exact .maxCoin (by decide)).2 _ _ _ _ run hd hcalls hne
  rw [hlist] at hkept hrows
  refine ⟨tr, app, app', d', run, step, hd', ?_, ?_⟩
  · rw [shared, hkept, hrecords]
    rfl
  · rw [hrows, hrecords]
    decide

end App

end DollMachine
