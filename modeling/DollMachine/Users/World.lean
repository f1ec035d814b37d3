import DollMachine.Users.Effect
import DollMachine.Transition

/-!
# The phones and the services

A `World` has any number of phones (`D`) around one authentication service and one database.  An
event is something that happens on one phone; what it writes takes effect with it, and the database
answers a request with the content it has at that moment, which may reach the phone much later.

`Device.Sourced` is the first fact about whole runs: a phone only ever holds lists that were the
content of the database at some moment of the run, and users from such lists.
-/

namespace DollMachine

open Transition

structure World (D : Type*) where
  server : Server
  device : D → Device

/-- The lists and the users on a phone come from the versions `trees` of the database. -/
structure Device.Sourced (trees : List UserTree) (dev : Device) : Prop where
  answers : ∀ t ∈ dev.answers, t ∈ trees
  userList : dev.userManager.userList = [] ∨ ∃ t ∈ trees, dev.userManager.userList = t.users
  mUser : ∀ u, dev.userManager.mUser = some u → ∃ t ∈ trees, u ∈ t.users

theorem Device.Sourced.mono {H H' : List UserTree} {dev : Device} (h : dev.Sourced H)
    (hH : ∀ t ∈ H, t ∈ H') : dev.Sourced H' where
  answers t ht := hH t (h.answers t ht)
  userList := h.userList.imp_right fun ⟨t, ht, hu⟩ => ⟨t, hH t ht, hu⟩
  mUser u hu := (h.mUser u hu).imp fun t ht => ⟨hH t ht.1, ht.2⟩

theorem Device.Sourced.effect {H : List UserTree} {address : String → String} {server : Server}
    {dev dev' : Device} {a : Act} {remote : Option Remote} (h : dev.Sourced H)
    (hs : server.user ∈ H) (he : Effect address server dev a dev' remote) : dev'.Sourced H := by
  have hanswers : ∀ t ∈ dev'.answers, t ∈ H := fun t ht =>
    (he.answers t ht).elim (h.answers t) fun ht => ht ▸ hs
  suffices hm : (dev'.userManager.userList = [] ∨ ∃ t ∈ H, dev'.userManager.userList = t.users) ∧
      ∀ u, dev'.userManager.mUser = some u → ∃ t ∈ H, u ∈ t.users from ⟨hanswers, hm.1, hm.2⟩
  have hc := he.manager
  generalize dev'.userManager = m' at hc ⊢
  cases hc with
  | keep => exact ⟨h.userList, h.mUser⟩
  | load t ht => exact ⟨.inr ⟨t, h.answers t ht, by simp⟩, by simpa using h.mUser⟩
  | reset auth => exact ⟨.inl rfl, fun u hu => by cases hu⟩
  | session x hx => exact ⟨h.userList, h.mUser⟩
  | lookup u m' hu =>
    obtain ⟨rfl, hfound⟩ := UserManager.currentUser_eq_ok hu
    refine ⟨h.userList, fun v hv => ?_⟩
    obtain rfl : u = v := Option.some.inj hv
    rcases hfound with hu | ⟨-, hmem, -⟩
    · exact h.mUser u hu
    · rcases h.userList with hl | ⟨t, ht, hl⟩
      · simp [hl] at hmem
      · exact ⟨t, ht, hl ▸ hmem⟩

/-- A master with machine 1 and an owner with machine 2, for concrete runs. -/
def sampleServer : Server :=
  ⟨["master", "owner"],
    (UserTree.empty.updateUserData ⟨2, 1, some "0911", none, some "master"⟩).updateUserData
      ⟨1, 2, some "0922", none, some "owner"⟩⟩

theorem sampleServer_email {k : Int} {e : String}
    (h : (sampleServer.user.node k).email = some e) :
    k = 1 ∧ e = "master" ∨ k = 2 ∧ e = "owner" := by
  simp only [sampleServer, UserTree.updateUserData, UserTree.node_put] at h
  split_ifs at h with h₂ h₁
  · exact .inr ⟨h₂.symm, (Option.some.inj h).symm⟩
  · exact .inl ⟨h₁.symm, (Option.some.inj h).symm⟩
  · simp [UserNode.absent] at h

namespace World

variable {D : Type*} [DecidableEq D]

/-- The step of the system at an event: what happens, and on which phone. -/
def next (address : String → String) (w : World D) (e : D × Act) : Option (World D) :=
  match (w.device e.1).act address w.server e.2 with
  | none => none
  | some (dev, remote) =>
    some ⟨remote.elim w.server w.server.apply, Function.update w.device e.1 dev⟩

/-- What an event makes a service do. -/
def call (address : String → String) (w : World D) (e : D × Act) : Option Remote :=
  ((w.device e.1).act address w.server e.2).bind (·.2)

/-- No process has done anything yet; sessions and tokens may be left from earlier processes. -/
def Fresh (w : World D) : Prop :=
  ∀ d, ∃ auth token, w.device d = ⟨⟨none, [], auth⟩, token, [], [], [], 0, []⟩

/-- New processes of the app with no session, on phones with the given tokens. -/
def start (server : Server) (token : D → Option String) : World D :=
  ⟨server, fun d => ⟨⟨none, [], none⟩, token d, [], [], [], 0, []⟩⟩

/-- A login on the phone `d`, with the list answered before the sign-in, for concrete runs. -/
def loginEvents (d : D) (email : String) : List (D × Act) :=
  [(d, .launch), (d, .loginClick email "pwd"), (d, .answer), (d, .onDataChange 0),
    (d, .signInComplete 0 true)]

/-- The versions of the `user` tree along a run. -/
def trees (s : World D) (tr : List (Step (World D) (D × Act))) : List UserTree :=
  s.server.user :: tr.map (·.after.server.user)

variable {address : String → String} {w w' s t : World D} {d : D} {a : Act}
  {tr : List (Step (World D) (D × Act))}

omit [DecidableEq D] in
theorem fresh_start (server : Server) (token : D → Option String) : (start server token).Fresh :=
  fun d => ⟨none, token d, rfl⟩

theorem next_eq_some :
    w.next address (d, a) = some w' ↔ ∃ dev remote,
      (w.device d).act address w.server a = some (dev, remote) ∧
        w' = ⟨remote.elim w.server w.server.apply, Function.update w.device d dev⟩ := by
  unfold next
  cases h : (w.device d).act address w.server a with
  | none => simp
  | some r =>
    obtain ⟨dev, remote⟩ := r
    simp only [Option.some.injEq, Prod.mk.injEq]
    constructor
    · rintro rfl
      exact ⟨dev, remote, ⟨rfl, rfl⟩, rfl⟩
    · rintro ⟨_, _, ⟨rfl, rfl⟩, rfl⟩
      rfl

theorem next_act (h : w.next address (d, a) = some w') :
    (w.device d).act address w.server a = some (w'.device d, w.call address (d, a)) := by
  obtain ⟨dev, remote, hact, rfl⟩ := next_eq_some.1 h
  simp [call, hact]

/-- A step changes one phone, by an effect of the event there. -/
theorem next_effect (h : w.next address (d, a) = some w') :
    Effect address w.server (w.device d) a (w'.device d) (w.call address (d, a)) ∧
      w'.server = (w.call address (d, a)).elim w.server w.server.apply ∧
      ∀ d', d' ≠ d → w'.device d' = w.device d' := by
  refine ⟨Device.act_effect (next_act h), ?_⟩
  obtain ⟨dev, remote, hact, rfl⟩ := next_eq_some.1 h
  exact ⟨by simp [call, hact], fun d' hd => Function.update_of_ne hd _ _⟩

/-- An event that nothing can make a service do something for. -/
theorem call_eq_none (step : w.next address (d, a) = some w')
    (h : ∀ r, ¬ Cause address w.server (w.device d) (w'.device d) a r) :
    w.call address (d, a) = none :=
  Option.eq_none_iff_forall_ne_some.2 fun r hr => h r ((next_effect step).1.cause r hr)

theorem server_of_call_none (step : w.next address (d, a) = some w')
    (h : w.call address (d, a) = none) : w'.server = w.server := by
  rw [(next_effect step).2.1, h]
  rfl

omit [DecidableEq D] in
theorem trees_snoc (x : Step (World D) (D × Act)) :
    s.trees (tr ++ [x]) = s.trees tr ++ [x.after.server.user] := by
  simp [trees]

theorem current_mem_trees (run : Run (next address) s tr t) : t.server.user ∈ s.trees tr := by
  cases run with
  | nil => exact List.mem_cons_self
  | snoc run step => simp [trees_snoc]

/-- Along a run from fresh processes, every phone is sourced in the versions of the database that
the run went through. -/
theorem sourced_of_run (hs : s.Fresh) (run : Run (next address) s tr t) (d : D) :
    (t.device d).Sourced (s.trees tr) := by
  induction run generalizing d with
  | nil =>
    obtain ⟨auth, token, hd⟩ := hs d
    rw [hd]
    exact ⟨fun t ht => (by cases ht), .inl rfl, fun u hu => (by cases hu)⟩
  | @snoc tr v w e run step ih =>
    obtain ⟨d', a⟩ := e
    obtain ⟨he, -, hother⟩ := next_effect step
    have hmono : ∀ T ∈ s.trees tr, T ∈ s.trees (tr ++ [⟨v, (d', a), w⟩]) := fun T hT => by
      rw [trees_snoc]
      exact List.mem_append_left _ hT
    by_cases hd : d = d'
    · subst hd
      exact ((ih d).mono hmono).effect (hmono _ (current_mem_trees run)) he
    · rw [hother d hd]
      exact (ih d).mono hmono

end World

end DollMachine
