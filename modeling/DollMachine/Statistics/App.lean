import DollMachine.Heap
import DollMachine.Statistics.Filter

/-!
# The statistics screens

`ManageStatusActivity` and `SlaveActivity` show the records of a machine.  All screens of a process
share one static list, `rawDataList`, which `loadRawDataList` refills when the database answers; a
screen's `currentList` is either that object or one of its own.  `layoutListView` reverses the list
it is given in place, and the rows are copies.

One of the two screens is open at a time.  The spinner calls `onItemSelected` after the screen's
first layout and after each change of its position; the calls to come are queued (`callbacks`).  The
listener that a `SlaveActivity` gives to the preloader outlives it.

`next_change` says once what an event can do to the lists and the rows.
-/

namespace DollMachine

/-- An `ArrayList<RawData>`.  `turns` counts how often the order of its records has been reversed
since the database delivered them; the app does not keep it. -/
structure RecordList where
  records : List Record
  turns : Nat

/-- `Collections.reverse`. -/
def RecordList.reverse (l : RecordList) : RecordList := ⟨l.records.reverse, l.turns + 1⟩

inductive Activity
  | manageStatus
  | slave
deriving DecidableEq

/-- An open statistics screen: the title's or the user's machine number, the fields of the activity,
and the rows in its list view. -/
structure Display where
  activity : Activity
  machineNum : Int
  currentList : Heap.Ref
  position : Filter
  callbacks : List Filter
  rows : List Record

/-- A process of the app. -/
structure App where
  heap : Heap RecordList
  /-- The machine numbers of the `loadRawDataList` requests under way. -/
  requests : List Int
  display : Option Display
  /-- Whether a closed `SlaveActivity` still listens to the preloader. -/
  stray : Bool

/-- What can happen to the statistics of a process. -/
inductive Event
  /-- "經營狀況" in the dialog of `MasterActivity`. -/
  | showStatus (userMachineNum : Int)
  /-- A login starts the preloader and opens `SlaveActivity`. -/
  | login (machineNum : Int)
  | close
  /-- The answer to the `i`-th request, with the children of the node. -/
  | onDataChange (i : Nat) (children : List RawData)
  | onCancelled (i : Nat)
  | reloadClick
  /-- `onDateSet`, with the time at which the chosen day starts. -/
  | dateSet (cuzTimestamp : Int)
  /-- The user chooses a position of the spinner. -/
  | choose (pos : Filter)
  | onItemSelected
  /-- The preloader delivers to the open `SlaveActivity`. -/
  | onDataArrived
  /-- The preloader delivers to a closed one. -/
  | strayArrived
deriving DecidableEq

/-- The static `rawDataList`. -/
def rawDataList : Heap.Ref := 0

/-- `setSelection(0)`. -/
def Display.resetFilter (d : Display) : Display :=
  if d.position = .all then d
  else { d with position := .all, callbacks := d.callbacks ++ [.all] }

namespace App

/-- A new process. -/
def start : App := ⟨.single ⟨[], 0⟩, [], none, false⟩

/-- `loadRawDataList`. -/
def load (app : App) (machineNum : Int) : App :=
  { app with requests := app.requests ++ [machineNum] }

/-- A new screen, with an empty list of its own. -/
def openScreen (app : App) (activity : Activity) (machineNum : Int) : App :=
  let new := app.heap.alloc ⟨[], 0⟩
  { app with heap := new.1, display := some ⟨activity, machineNum, new.2, .all, [.all], []⟩ }

/-- `layoutListView(list)` on the screen `d`. -/
def layoutListView (app : App) (d : Display) (list : Heap.Ref) : App :=
  let heap := app.heap.modify list .reverse
  { app with heap := heap, display := some { d with rows := (heap.get list).records } }

/-- `layoutListView` of a new list on the screen `d`. -/
def layoutNew (app : App) (d : Display) (l : RecordList) : App :=
  let new := app.heap.alloc l
  { app with heap := new.1 }.layoutListView d new.2

/-- What an event does in the process; `none` when it cannot happen. -/
def next (app : App) : Event → Option App
  | .showStatus userMachineNum =>
    match app.display with
    | some _ => none
    | none => some ((app.load userMachineNum).openScreen .manageStatus userMachineNum)
  | .login machineNum =>
    match app.display with
    | some _ => none
    | none => some ((app.load machineNum).openScreen .slave machineNum)
  | .close =>
    match app.display with
    | none => none
    | some d =>
      some { app with display := none, stray := app.stray || d.activity = .slave }
  | .onDataChange i children =>
    match app.requests[i]? with
    | none => none
    | some m =>
      some { app with
        heap := app.heap.modify rawDataList fun _ => ⟨children.map fun r => ⟨r, m⟩, 0⟩
        requests := app.requests.eraseIdx i }
  | .onCancelled i =>
    match app.requests[i]? with
    | none => none
    | some _ => some { app with requests := app.requests.eraseIdx i }
  | .reloadClick =>
    match app.display with
    | none => none
    | some d =>
      let d := { d with currentList := rawDataList }.resetFilter
      some ((app.load d.machineNum).layoutListView d rawDataList)
  | .dateSet cuzTimestamp =>
    match app.display with
    | none => none
    | some d =>
      let l := app.heap.get rawDataList
      let d := { d with currentList := app.heap.size }.resetFilter
      some (app.layoutNew d ⟨dayRecords cuzTimestamp l.records, l.turns⟩)
  | .choose pos =>
    match app.display with
    | none => none
    | some d =>
      if pos = d.position then some app
      else some { app with
        display := some { d with position := pos, callbacks := d.callbacks ++ [pos] } }
  | .onItemSelected =>
    match app.display with
    | none => none
    | some d =>
      match d.callbacks with
      | [] => none
      | pos :: rest =>
        let d := { d with callbacks := rest }
        let l := app.heap.get d.currentList
        if l.records = [] then some { app with display := some d }
        else if pos = .all then some (app.layoutListView d d.currentList)
        else some (app.layoutNew d ⟨pos.select l.records, l.turns⟩)
  | .onDataArrived =>
    match app.display with
    | none => none
    | some d =>
      if d.activity = .slave then
        some (app.layoutListView { d with currentList := rawDataList } rawDataList)
      else none
  | .strayArrived =>
    if app.stray then some { app with heap := app.heap.modify rawDataList .reverse } else none

/-- What the app keeps of loaded records. -/
def data (l : List Record) : List RawData := l.map (·.toRawData)

/-- The records in the shared list. -/
def shared (app : App) : List RawData := data (app.heap.get rawDataList).records

theorem data_children (m : Int) (children : List RawData) :
    data (children.map fun r => ⟨r, m⟩) = children := by
  simp [data, Function.comp_def]

/-! ## What one event can do -/

/-- The list that an event hands to `layoutListView` on the open screen. -/
def laid (app : App) : Event → Option RecordList
  | .reloadClick | .onDataArrived => app.display.map fun _ => app.heap.get rawDataList
  | .dateSet cuzTimestamp => app.display.map fun _ =>
    let l := app.heap.get rawDataList
    ⟨dayRecords cuzTimestamp l.records, l.turns⟩
  | .onItemSelected => app.display.bind fun d =>
    let l := app.heap.get d.currentList
    match d.callbacks with
    | [] => none
    | pos :: _ => if l.records = [] then none else some ⟨pos.select l.records, l.turns⟩
  | _ => none

/-- Where the list that an event lays out is taken from. -/
def source (app : App) : Event → Option Heap.Ref
  | .reloadClick | .onDataArrived | .dateSet _ => app.display.map fun _ => rawDataList
  | .onItemSelected => app.display.map (·.currentList)
  | _ => none

/-- How an event can change the lists and the rows. -/
inductive Change (app : App) (e : Event) (app' : App) : Prop
  /-- Nothing changes, except that the screen may close. -/
  | quiet (hl : app.laid e = none) (heap : app'.heap = app.heap)
      (display : ∀ d' ∈ app'.display, ∃ d ∈ app.display,
        d'.machineNum = d.machineNum ∧ d'.currentList = d.currentList ∧ d'.rows = d.rows)
      (stays : e ≠ .close → app.display ≠ none → app'.display ≠ none)
  | opened (d' : Display) (hl : app.laid e = none) (hd : app.display = none)
      (heap : app'.heap = (app.heap.alloc ⟨[], 0⟩).1) (display : app'.display = some d')
      (list : d'.currentList = app.heap.size) (rows : d'.rows = [])
  /-- The shared list is refilled. -/
  | filled (i : Nat) (m : Int) (children : List RawData)
      (he : e = .onDataChange i children) (hm : app.requests[i]? = some m)
      (heap : app'.heap = app.heap.modify rawDataList fun _ => ⟨children.map fun r => ⟨r, m⟩, 0⟩)
      (display : app'.display = app.display)
  /-- A closed screen reverses the shared list. -/
  | turned (he : e = .strayArrived)
      (heap : app'.heap = app.heap.modify rawDataList .reverse)
      (display : app'.display = app.display)
  /-- The screen lays out a list that it has from then on. -/
  | shown (d d' : Display) (list : Heap.Ref) (hd : app.display = some d)
      (hs : app.source e = some list) (own : list = rawDataList ∨ list = d.currentList)
      (hl : app.laid e = some (app.heap.get list))
      (heap : app'.heap = app.heap.modify list .reverse) (display : app'.display = some d')
      (machineNum : d'.machineNum = d.machineNum) (hlist : d'.currentList = list)
      (rows : d'.rows = (app.heap.get list).records.reverse)
  /-- The screen lays out a new list with some of the records of another. -/
  | selected (d d' : Display) (list : Heap.Ref) (l : RecordList)
      (hd : app.display = some d) (hs : app.source e = some list)
      (own : list = rawDataList ∨ list = d.currentList) (hl : app.laid e = some l)
      (sub : l.records.Sublist (app.heap.get list).records)
      (turns : l.turns = (app.heap.get list).turns)
      (heap : app'.heap = (app.heap.alloc l).1.modify app.heap.size .reverse)
      (display : app'.display = some d') (machineNum : d'.machineNum = d.machineNum)
      (hlist : d'.currentList = if e = .onItemSelected then list else app.heap.size)
      (rows : d'.rows = l.records.reverse)

variable {app app' : App} {e : Event}

@[simp] theorem resetFilter_machineNum (d : Display) : d.resetFilter.machineNum = d.machineNum := by
  unfold Display.resetFilter
  split_ifs <;> rfl

@[simp] theorem resetFilter_currentList (d : Display) :
    d.resetFilter.currentList = d.currentList := by
  unfold Display.resetFilter
  split_ifs <;> rfl

/-- The layout of a list in place; `src` differs from the process at most by its requests. -/
theorem change_layoutListView {src : App} {d d' : Display} {list : Heap.Ref}
    (hd : app.display = some d) (hs : app.source e = some list)
    (own : list = rawDataList ∨ list = d.currentList)
    (hl : app.laid e = some (app.heap.get list)) (heap : src.heap = app.heap)
    (machineNum : d'.machineNum = d.machineNum) (hlist : d'.currentList = list) :
    app.Change e (src.layoutListView d' list) := by
  refine .shown d { d' with rows := (app.heap.get list).records.reverse } list hd hs own hl ?_ ?_
    machineNum hlist rfl
  · rw [← heap]
    rfl
  · simp [layoutListView, heap, RecordList.reverse]

/-- The layout of a new list. -/
theorem change_layoutNew {d d' : Display} {list : Heap.Ref} {l : RecordList}
    (hd : app.display = some d) (hs : app.source e = some list)
    (own : list = rawDataList ∨ list = d.currentList) (hl : app.laid e = some l)
    (sub : l.records.Sublist (app.heap.get list).records)
    (turns : l.turns = (app.heap.get list).turns) (machineNum : d'.machineNum = d.machineNum)
    (hlist : d'.currentList = if e = .onItemSelected then list else app.heap.size) :
    app.Change e (app.layoutNew d' l) := by
  refine .selected d { d' with rows := l.records.reverse } list l hd hs own hl sub turns rfl ?_
    machineNum hlist rfl
  simp [layoutNew, layoutListView, RecordList.reverse]

theorem next_change (h : app.next e = some app') : app.Change e app' := by
  cases e with
  | showStatus m | login m =>
    simp only [next] at h
    split at h
    · cases h
    · rename_i hd
      cases h
      exact .opened _ rfl hd rfl rfl rfl rfl
  | close =>
    simp only [next] at h
    split at h
    · cases h
    · cases h
      exact .quiet rfl rfl (fun d' hd' => by cases hd') fun hclose => absurd rfl hclose
  | onDataChange i children =>
    simp only [next] at h
    split at h
    · cases h
    · rename_i m hm
      cases h
      exact .filled i m children rfl hm rfl rfl
  | onCancelled i =>
    simp only [next] at h
    split at h
    · cases h
    · cases h
      exact .quiet rfl rfl (fun d' hd' => ⟨d', hd', rfl, rfl, rfl⟩) fun _ hne => hne
  | reloadClick =>
    simp only [next] at h
    split at h
    · cases h
    · rename_i d hd
      cases h
      exact change_layoutListView hd (by simp [source, hd]) (.inl rfl) (by simp [laid, hd]) rfl
        (by simp) (by simp)
  | dateSet cuzTimestamp =>
    simp only [next] at h
    split at h
    · cases h
    · rename_i d hd
      cases h
      exact change_layoutNew hd (by simp [source, hd]) (.inl rfl) (by simp [laid, hd])
        List.filter_sublist rfl (by simp) (by simp)
  | choose pos =>
    simp only [next] at h
    split at h
    · cases h
    · rename_i d hd
      split_ifs at h
      · cases h
        exact .quiet rfl rfl (fun d' hd' => ⟨d', hd', rfl, rfl, rfl⟩) fun _ hne => hne
      · cases h
        refine .quiet rfl rfl (fun d' hd' => ⟨d, hd, ?_⟩) (by simp)
        cases hd'
        exact ⟨rfl, rfl, rfl⟩
  | onItemSelected =>
    simp only [next] at h
    split at h
    · cases h
    · rename_i d hd
      split at h
      · cases h
      · rename_i pos rest hc
        split_ifs at h with hnil hall
        · cases h
          refine .quiet (by simp [laid, hd, hc, hnil]) rfl (fun d' hd' => ⟨d, hd, ?_⟩) (by simp)
          cases hd'
          exact ⟨rfl, rfl, rfl⟩
        · subst hall
          cases h
          refine change_layoutListView hd (by simp [source, hd]) (.inr rfl) ?_ rfl rfl rfl
          simp [laid, hd, hc, hnil, Filter.select_all]
        · cases h
          exact change_layoutNew hd (by simp [source, hd]) (.inr rfl) (by simp [laid, hd, hc, hnil])
            pos.select_sublist rfl rfl rfl
  | onDataArrived =>
    simp only [next] at h
    split at h
    · cases h
    · rename_i d hd
      split_ifs at h
      cases h
      exact change_layoutListView hd (by simp [source, hd]) (.inl rfl) (by simp [laid, hd]) rfl rfl
        rfl
  | strayArrived =>
    simp only [next] at h
    split_ifs at h
    cases h
    exact .turned rfl rfl rfl

/-- An event lays out nothing, and the rows stay, if the screen does; or it lays out records of the
shared list or of the screen's. -/
theorem laid_cases (hc : app.Change e app') :
    (app.laid e = none ∧ ∀ d' ∈ app'.display, d'.rows = [] ∨
      ∃ d ∈ app.display, d'.machineNum = d.machineNum ∧ d'.rows = d.rows) ∨
    ∃ d d' list l, app.display = some d ∧ app'.display = some d' ∧ app.source e = some list ∧
      (list = rawDataList ∨ list = d.currentList) ∧ app.laid e = some l ∧
      l.records.Sublist (app.heap.get list).records ∧ l.turns = (app.heap.get list).turns ∧
      d'.machineNum = d.machineNum ∧ d'.rows = l.records.reverse := by
  cases hc with
  | quiet hl heap display =>
    refine .inl ⟨hl, fun d' hd' => .inr ?_⟩
    obtain ⟨d, hd, hm, -, hrows⟩ := display d' hd'
    exact ⟨d, hd, hm, hrows⟩
  | opened d' hl hd heap display list rows =>
    refine .inl ⟨hl, fun d hd => .inl ?_⟩
    obtain rfl : d' = d := Option.some.inj (display.symm.trans hd)
    exact rows
  | filled i m children he hm heap display =>
    subst he
    exact .inl ⟨rfl, fun d hd => .inr ⟨d, display.symm.trans hd, rfl, rfl⟩⟩
  | turned he heap display =>
    subst he
    exact .inl ⟨rfl, fun d hd => .inr ⟨d, display.symm.trans hd, rfl, rfl⟩⟩
  | shown d d' list hd hs own hl heap display machineNum hlist rows =>
    exact .inr ⟨d, d', list, _, hd, display, hs, own, hl, .refl _, rfl, machineNum, rows⟩
  | selected d d' list l hd hs own hl sub turns heap display machineNum hlist rows =>
    exact .inr ⟨d, d', list, l, hd, display, hs, own, hl, sub, turns, machineNum, rows⟩

/-! ## The lists after an event -/

theorem size_next (hc : app.Change e app') : app.heap.size ≤ app'.heap.size := by
  cases hc with
  | opened d' hl hd heap display list rows => exact heap ▸ Nat.le_succ _
  | selected d d' list l hd hs own hl sub turns heap display machineNum hlist rows =>
    exact heap ▸ Nat.le_succ _
  | quiet hl heap | filled i m children he hm heap | turned he heap
  | shown d d' list hd hs own hl heap => exact heap ▸ Nat.le_refl _

theorem perm_of_reverse (heap : Heap RecordList) (r r' : Heap.Ref) :
    ((heap.modify r .reverse).get r').records.Perm (heap.get r').records := by
  by_cases hr : r' = r
  · subst hr
    rw [Heap.get_modify_self]
    exact List.reverse_perm _
  · rw [Heap.get_modify_of_ne _ _ _ _ hr]

/-- An event leaves the records of every list, up to order, except that a response refills the
shared one. -/
theorem records_next (hc : app.Change e app') {r : Heap.Ref} (hr : r < app.heap.size) :
    (app'.heap.get r).records.Perm (app.heap.get r).records ∨
      r = rawDataList ∧ ∃ i m children, e = .onDataChange i children ∧
        (app'.heap.get r).records = children.map fun x => ⟨x, m⟩ := by
  cases hc with
  | quiet hl heap display => exact .inl (by rw [heap])
  | opened d' hl hd heap display list rows =>
    exact .inl (by rw [heap, Heap.get_alloc_of_lt _ _ _ hr])
  | filled i m children he hm heap display =>
    rw [heap]
    by_cases hraw : r = rawDataList
    · subst hraw
      exact .inr ⟨rfl, i, m, children, he, by rw [Heap.get_modify_self]⟩
    · exact .inl (by rw [Heap.get_modify_of_ne _ _ _ _ hraw])
  | turned he heap display =>
    rw [heap]
    exact .inl (perm_of_reverse _ _ _)
  | shown d d' list hd hs own hl heap display machineNum hlist rows =>
    rw [heap]
    exact .inl (perm_of_reverse _ _ _)
  | selected d d' list l hd hs own hl sub turns heap display machineNum hlist rows =>
    rw [heap, Heap.get_modify_of_ne _ _ _ _ (Nat.ne_of_lt hr), Heap.get_alloc_of_lt _ _ _ hr]
    exact .inl (.refl _)

/-- The list of the screen after an event is the one it had, the shared one, or a new one with the
records of the rows. -/
theorem currentList_cases (hc : app.Change e app') {d' : Display} (hd' : app'.display = some d') :
    (∃ d ∈ app.display, d'.machineNum = d.machineNum ∧ d'.currentList = d.currentList) ∨
    d'.currentList = rawDataList ∨
    d'.currentList = app.heap.size ∧ app.heap.size < app'.heap.size ∧
      (app'.heap.get app.heap.size).records = d'.rows := by
  cases hc with
  | quiet hl heap display =>
    obtain ⟨d, hd, hm, hlist, -⟩ := display d' hd'
    exact .inl ⟨d, hd, hm, hlist⟩
  | opened d₁ hl hd heap display list rows =>
    obtain rfl : d₁ = d' := Option.some.inj (display.symm.trans hd')
    refine .inr (.inr ⟨list, heap ▸ Nat.lt_succ_self _, ?_⟩)
    simp [heap, rows]
  | filled i m children he hm heap display => exact .inl ⟨d', display.symm.trans hd', rfl, rfl⟩
  | turned he heap display => exact .inl ⟨d', display.symm.trans hd', rfl, rfl⟩
  | shown d d₁ list hd hs own hl heap display machineNum hlist rows =>
    obtain rfl : d₁ = d' := Option.some.inj (display.symm.trans hd')
    rcases own with rfl | rfl
    · exact .inr (.inl hlist)
    · exact .inl ⟨d, hd, machineNum, hlist⟩
  | selected d d₁ list l hd hs own hl sub turns heap display machineNum hlist rows =>
    obtain rfl : d₁ = d' := Option.some.inj (display.symm.trans hd')
    split_ifs at hlist
    · rcases own with rfl | rfl
      · exact .inr (.inl hlist)
      · exact .inl ⟨d, hd, machineNum, hlist⟩
    · refine .inr (.inr ⟨hlist, heap ▸ Nat.lt_succ_self _, ?_⟩)
      simp [heap, rows, RecordList.reverse]

theorem currentList_lt_next (hc : app.Change e app') (hraw : rawDataList < app.heap.size)
    (h : ∀ d ∈ app.display, d.currentList < app.heap.size) :
    ∀ d' ∈ app'.display, d'.currentList < app'.heap.size := by
  have hsize := size_next hc
  intro d' hd'
  rcases currentList_cases hc hd' with ⟨d, hd, -, hlist⟩ | hlist | ⟨hlist, hnew, -⟩
  · exact hlist ▸ Nat.lt_of_lt_of_le (h d hd) hsize
  · exact hlist ▸ Nat.lt_of_lt_of_le hraw hsize
  · exact hlist ▸ hnew

end App

end DollMachine
