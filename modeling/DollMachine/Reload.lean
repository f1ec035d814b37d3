import DollMachine.Statistics.App
import DollMachine.Users.World

/-!
# Reloads

A reload sends a request and lays out the list that is there at once; the preloader of a login lays
out the list after two seconds.  Neither waits for the answer.  So the rows are the records of the
answer when the list had them before, and after a preload also when the answer came in time.

`reload_iff` says so for the three screens, for every state before the reload.
-/

namespace DollMachine

open Transition

namespace App

/-- The rows of the open screen are the given records, each once. -/
def Shows (app : App) (children : List RawData) : Prop :=
  ∃ d ∈ app.display, (data d.rows).Perm children

variable {app : App} {d : Display} {list : Heap.Ref} {children : List RawData} {m : Int}

theorem data_reverse_perm (l : List Record) : (data l.reverse).Perm (data l) :=
  l.reverse_perm.map _

/-- A layout shows the records of the list that it is given. -/
theorem shows_layoutListView :
    (app.layoutListView d list).Shows children ↔
      (data (app.heap.get list).records).Perm children := by
  simp only [Shows, layoutListView, Option.mem_some_iff, exists_eq_left', Heap.get_modify_self,
    RecordList.reverse]
  exact (data_reverse_perm _).congr_left _

/-- The answer to a request refills the shared list and leaves the rows. -/
theorem next_onDataChange {i : Nat} (hm : app.requests[i]? = some m) (children : List RawData) :
    ∃ app', app.next (.onDataChange i children) = some app' ∧ app'.display = app.display ∧
      app'.shared = children := by
  refine ⟨{ app with
    heap := app.heap.modify rawDataList fun _ => ⟨children.map fun r => ⟨r, m⟩, 0⟩
    requests := app.requests.eraseIdx i }, by simp only [next, hm], rfl, ?_⟩
  rw [shared, Heap.get_modify_self]
  exact data_children m children

/-- A reload shows the records that the shared list has. -/
theorem next_reloadClick (hd : app.display = some d) :
    ∃ app', app.next .reloadClick = some app' ∧ app'.requests = app.requests ++ [d.machineNum] ∧
      ∀ children, app'.Shows children ↔ app.shared.Perm children :=
  ⟨(app.load d.machineNum).layoutListView { d with currentList := rawDataList }.resetFilter
      rawDataList, by simp [next, hd], rfl, fun _ => shows_layoutListView⟩

theorem next_login (hd : app.display = none) (hsize : rawDataList < app.heap.size) (m : Int) :
    ∃ app' d, app.next (.login m) = some app' ∧ app'.requests = app.requests ++ [m] ∧
      app'.display = some d ∧ d.activity = .slave ∧ app'.shared = app.shared := by
  refine ⟨(app.load m).openScreen .slave m, ⟨.slave, m, app.heap.size, .all, [.all], []⟩,
    by simp only [next, hd], rfl, rfl, rfl, ?_⟩
  have hget : ((app.load m).heap.alloc ⟨[], 0⟩).1.get rawDataList = app.heap.get rawDataList :=
    Heap.get_alloc_of_lt _ _ _ hsize
  exact congrArg (fun l : RecordList => data l.records) hget

/-- The delivery of the preloader shows the records that the shared list has. -/
theorem next_onDataArrived (hd : app.display = some d) (hslave : d.activity = .slave) :
    ∃ app', app.next .onDataArrived = some app' ∧ app'.requests = app.requests ∧
      ∀ children, app'.Shows children ↔ app.shared.Perm children :=
  ⟨app.layoutListView { d with currentList := rawDataList } rawDataList,
    by simp only [next, hd, hslave, if_true], rfl, fun _ => shows_layoutListView⟩

theorem Shows.congr {app' : App} (h : app'.display = app.display) :
    app'.Shows children ↔ app.Shows children := by
  rw [Shows, Shows, h]

/-- A reload, and the answer to its request. -/
theorem reload_shows_iff (hd : app.display ≠ none) (children : List RawData) :
    ∃ app₁ app₂, app.next .reloadClick = some app₁ ∧
      app₁.next (.onDataChange app.requests.length children) = some app₂ ∧
      (app₂.Shows children ↔ app.shared.Perm children) := by
  obtain ⟨d, hd⟩ := Option.ne_none_iff_exists'.1 hd
  obtain ⟨app₁, h₁, hreq, hshows⟩ := next_reloadClick hd
  have hlast : app₁.requests[app.requests.length]? = some d.machineNum := by
    rw [hreq, List.getElem?_concat_length]
  obtain ⟨app₂, h₂, hdisplay, -⟩ := next_onDataChange hlast children
  exact ⟨app₁, app₂, h₁, h₂, (Shows.congr hdisplay).trans (hshows children)⟩

/-- A preload that is answered before the delivery. -/
theorem preload_shows (hd : app.display = none) (hsize : rawDataList < app.heap.size) (m : Int)
    (children : List RawData) :
    ∃ app₁ app₂ app₃, app.next (.login m) = some app₁ ∧
      app₁.next (.onDataChange app.requests.length children) = some app₂ ∧
      app₂.next .onDataArrived = some app₃ ∧ app₃.Shows children := by
  obtain ⟨app₁, d, h₁, hreq, hd₁, hslave, -⟩ := next_login hd hsize m
  have hlast : app₁.requests[app.requests.length]? = some m := by
    rw [hreq, List.getElem?_concat_length]
  obtain ⟨app₂, h₂, hdisplay, hshared⟩ := next_onDataChange hlast children
  obtain ⟨app₃, h₃, -, hshows⟩ := next_onDataArrived (hdisplay.trans hd₁) hslave
  exact ⟨app₁, app₂, app₃, h₁, h₂, h₃, (hshows children).2 (hshared ▸ .refl _)⟩

/-- A preload that is answered after the delivery. -/
theorem late_preload_shows_iff (hd : app.display = none) (hsize : rawDataList < app.heap.size)
    (m : Int) (children : List RawData) :
    ∃ app₁ app₂ app₃, app.next (.login m) = some app₁ ∧ app₁.next .onDataArrived = some app₂ ∧
      app₂.next (.onDataChange app.requests.length children) = some app₃ ∧
      (app₃.Shows children ↔ app.shared.Perm children) := by
  obtain ⟨app₁, d, h₁, hreq, hd₁, hslave, hshared⟩ := next_login hd hsize m
  obtain ⟨app₂, h₂, hreq₂, hshows⟩ := next_onDataArrived hd₁ hslave
  have hlast : app₂.requests[app.requests.length]? = some m := by
    rw [hreq₂, hreq, List.getElem?_concat_length]
  obtain ⟨app₃, h₃, hdisplay, -⟩ := next_onDataChange hlast children
  refine ⟨app₁, app₂, app₃, h₁, h₂, h₃, (Shows.congr hdisplay).trans ?_⟩
  rw [← hshared]
  exact hshows children

end App

namespace Device

/-- The rows of the `MasterActivity` on top. -/
def masterRows (dev : Device) : Option (List Row) :=
  match dev.screens with
  | .master m :: _ => some m.rows
  | _ => none

/-- The rows of the `MasterActivity` on top are those of the given users, each once. -/
def ShowsUsers (dev : Device) (users : List User) : Prop :=
  ∃ rows ∈ dev.masterRows, rows.Perm (layoutListView users)

/-- A reload of `MasterActivity`, the answer of the database with the content it has by then, and
its delivery. -/
theorem reload_shows_iff (address : String → String) (server server' server'' : Server)
    {dev : Device} {m : Master} {rest : List Screen} (hs : dev.screens = .master m :: rest) :
    ∃ dev₁ dev₂ dev₃, dev.act address server .reloadClick = some (dev₁, none) ∧
      dev₁.act address server' .answer = some (dev₂, none) ∧
      dev₂.act address server'' (.onDataChange dev.answers.length) = some (dev₃, none) ∧
      dev₃.userManager.userList = server'.user.users ∧
      (dev₃.ShowsUsers server'.user.users ↔
        (layoutListView dev.userManager.userList).Perm (layoutListView server'.user.users)) := by
  let m₁ : Master := { m with rows := layoutListView dev.userManager.userList }
  let dev₁ : Device := { dev with requests := dev.requests + 1, screens := .master m₁ :: rest }
  let dev₂ : Device :=
    { dev₁ with requests := dev.requests, answers := dev.answers ++ [server'.user] }
  have hlast : dev₂.answers[dev.answers.length]? = some server'.user := List.getElem?_concat_length
  refine ⟨dev₁, dev₂, { dev₂ with
    userManager := dev.userManager.onDataChange server'.user
    answers := dev₂.answers.eraseIdx dev.answers.length }, by simp only [act, hs, dev₁, m₁], rfl,
    by simp only [act, hlast]; rfl, UserManager.onDataChange_userList _ _, ?_⟩
  constructor
  · rintro ⟨rows, hmem, hrows⟩
    obtain rfl : m₁.rows = rows := Option.some.inj hmem
    exact hrows
  · intro hrows
    exact ⟨m₁.rows, rfl, hrows⟩

end Device

/-- When the rows are the records of the answer, once it has arrived and nothing else has happened:
after a reload of a statistics screen, exactly when the shared list had these records before; after
a preload, always when the answer arrives before the delivery, and else exactly when the shared list
had these records before; after a reload of `MasterActivity`, exactly when the list of users had
these rows before. -/
theorem reload_iff (app : App) (m : Int) (children : List RawData) (address : String → String)
    (server server' server'' : Server) (dev : Device) :
    (app.display ≠ none → ∃ app₁ app₂, app.next .reloadClick = some app₁ ∧
      app₁.next (.onDataChange app.requests.length children) = some app₂ ∧
      (app₂.Shows children ↔ app.shared.Perm children)) ∧
    (app.display = none → rawDataList < app.heap.size →
      (∃ app₁ app₂ app₃, app.next (.login m) = some app₁ ∧
        app₁.next (.onDataChange app.requests.length children) = some app₂ ∧
        app₂.next .onDataArrived = some app₃ ∧ app₃.Shows children) ∧
      ∃ app₁ app₂ app₃, app.next (.login m) = some app₁ ∧ app₁.next .onDataArrived = some app₂ ∧
        app₂.next (.onDataChange app.requests.length children) = some app₃ ∧
        (app₃.Shows children ↔ app.shared.Perm children)) ∧
    ∀ master rest, dev.screens = .master master :: rest →
      ∃ dev₁ dev₂ dev₃, dev.act address server .reloadClick = some (dev₁, none) ∧
        dev₁.act address server' .answer = some (dev₂, none) ∧
        dev₂.act address server'' (.onDataChange dev.answers.length) = some (dev₃, none) ∧
        dev₃.userManager.userList = server'.user.users ∧
        (dev₃.ShowsUsers server'.user.users ↔
          (layoutListView dev.userManager.userList).Perm (layoutListView server'.user.users)) :=
  ⟨fun hd => App.reload_shows_iff hd children,
    fun hd hsize =>
      ⟨App.preload_shows hd hsize m children, App.late_preload_shows_iff hd hsize m children⟩,
    fun _ _ hs => Device.reload_shows_iff address server server' server'' hs⟩

/-- A reload of a statistics screen that is answered with the records that were there already, a
preload that is answered in time, and a reload of a master's list that has not changed. -/
theorem reload_again :
    (∃ (app app₁ app₂ : App), app.next .reloadClick = some app₁ ∧
      app₁.next (.onDataChange 0 [⟨3, 1, 100⟩, ⟨5, 1, 200⟩]) = some app₂ ∧
      app₂.Shows [⟨3, 1, 100⟩, ⟨5, 1, 200⟩]) ∧
    (∃ app₁ app₂ app₃, App.start.next (.login 1) = some app₁ ∧
      app₁.next (.onDataChange 0 [⟨3, 1, 100⟩]) = some app₂ ∧
      app₂.next .onDataArrived = some app₃ ∧ app₃.Shows [⟨3, 1, 100⟩]) ∧
    ∃ dev dev₁ dev₂ dev₃ : Device, dev.act id sampleServer .reloadClick = some (dev₁, none) ∧
      dev₁.act id sampleServer .answer = some (dev₂, none) ∧
      dev₂.act id sampleServer (.onDataChange 0) = some (dev₃, none) ∧
      dev₃.ShowsUsers sampleServer.user.users := by
  let master : Master := ⟨⟨2, 1, some "0911", none, some "master"⟩, [], none⟩
  let dev : Device :=
    ⟨⟨none, sampleServer.user.users, none⟩, none, [.master master], [], [], 0, []⟩
  have reload := fun app children =>
    reload_iff app 1 children id sampleServer sampleServer sampleServer dev
  refine ⟨?_, ?_, ?_⟩
  · obtain ⟨tr, app, -, hp⟩ := exists_run_of_exec App.next App.start
      [.showStatus 1, .onItemSelected, .onDataChange 0 [⟨3, 1, 100⟩, ⟨5, 1, 200⟩]]
      (fun r => decide (r.2.display.isSome = true ∧ r.2.requests.length = 0 ∧
        r.2.shared = [⟨3, 1, 100⟩, ⟨5, 1, 200⟩])) (by decide)
    obtain ⟨hd, hlen, hshared⟩ := of_decide_eq_true hp
    obtain ⟨app₁, app₂, h₁, h₂, hshows⟩ :=
      (reload app [⟨3, 1, 100⟩, ⟨5, 1, 200⟩]).1 (Option.isSome_iff_ne_none.1 hd)
    rw [hlen] at h₂
    exact ⟨app, app₁, app₂, h₁, h₂, hshows.2 (hshared ▸ .refl _)⟩
  · exact ((reload App.start [⟨3, 1, 100⟩]).2.1 rfl (by decide)).1
  · obtain ⟨dev₁, dev₂, dev₃, h₁, h₂, h₃, -, hshows⟩ :=
      (reload App.start []).2.2 master [] rfl
    exact ⟨dev, dev₁, dev₂, dev₃, h₁, h₂, h₃, hshows.2 (.refl _)⟩

/-- A new record arrives after the reload has laid out the old list; the first answer arrives after
the preloader has delivered; and an owner has been removed since the master's list was loaded. -/
theorem reload_fails :
    (∃ tr app, Run App.next App.start tr app ∧
      tr.map (·.event) = [.showStatus 1, .onItemSelected, .onDataChange 0 [⟨3, 1, 100⟩],
        .reloadClick, .onDataChange 0 [⟨3, 1, 100⟩, ⟨5, 1, 200⟩]] ∧
      app.display.map (App.data ·.rows) = some [⟨3, 1, 100⟩]) ∧
    (∃ tr app, Run App.next App.start tr app ∧
      tr.map (·.event) = [.login 1, .onDataArrived, .onDataChange 0 [⟨3, 1, 100⟩]] ∧
      app.display.map (App.data ·.rows) = some []) ∧
    ∃ tr t, Run (World.next id) (World.start sampleServer fun _ : Bool => none) tr t ∧
      (tr.map (·.event)).drop 12 =
        [(true, .reloadClick), (true, .answer), (true, .onDataChange 0)] ∧
      (t.device true).userManager.userList = [⟨2, 1, some "0911", none, some "master"⟩] ∧
      (t.device true).masterRows = some [⟨1, some "master"⟩, ⟨2, some "owner"⟩] := by
  refine ⟨?_, ?_, ?_⟩
  · obtain ⟨tr, app, run, hp⟩ := exists_run_of_exec App.next App.start
      [.showStatus 1, .onItemSelected, .onDataChange 0 [⟨3, 1, 100⟩], .reloadClick,
        .onDataChange 0 [⟨3, 1, 100⟩, ⟨5, 1, 200⟩]]
      (fun r => decide (r.1.map (·.event) = [.showStatus 1, .onItemSelected,
          .onDataChange 0 [⟨3, 1, 100⟩], .reloadClick,
          .onDataChange 0 [⟨3, 1, 100⟩, ⟨5, 1, 200⟩]] ∧
        r.2.display.map (App.data ·.rows) = some [⟨3, 1, 100⟩])) (by decide)
    exact ⟨tr, app, run, of_decide_eq_true hp⟩
  · obtain ⟨tr, app, run, hp⟩ := exists_run_of_exec App.next App.start
      [.login 1, .onDataArrived, .onDataChange 0 [⟨3, 1, 100⟩]]
      (fun r => decide (r.1.map (·.event) =
          [.login 1, .onDataArrived, .onDataChange 0 [⟨3, 1, 100⟩]] ∧
        r.2.display.map (App.data ·.rows) = some [])) (by decide)
    exact ⟨tr, app, run, of_decide_eq_true hp⟩
  · obtain ⟨tr, t, run, hp⟩ := exists_run_of_exec (World.next id)
      (World.start sampleServer fun _ : Bool => none)
      (World.loginEvents true "master" ++ World.loginEvents false "master" ++
        [(false, Act.itemClick 1), (false, .removeConfirm), (true, .reloadClick), (true, .answer),
          (true, .onDataChange 0)])
      (fun r => decide ((r.1.map (·.event)).drop 12 =
          [(true, .reloadClick), (true, .answer), (true, .onDataChange 0)] ∧
        (r.2.device true).userManager.userList = [⟨2, 1, some "0911", none, some "master"⟩] ∧
        (r.2.device true).masterRows = some [⟨1, some "master"⟩, ⟨2, some "owner"⟩])) (by decide)
    exact ⟨tr, t, run, of_decide_eq_true hp⟩

end DollMachine
