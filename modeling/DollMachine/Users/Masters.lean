import DollMachine.Users.Rows

/-!
# Masters

A record with right 2 is a master's.  The app makes no such record, and it has two ways to lose one:
the removal of a row of the list, which shows the masters as well, and a sign-up whose check misses
the number of a master, since the record that it writes has right 1.  A token write leaves the right
as it is.

`masters_iff`: a master remains all along a run if and only if each removal or sign-up that hits the
record of a master leaves the record of another.
-/

namespace DollMachine

open Transition

namespace UserTree

/-- There is a master's record. -/
def HasMaster (t : UserTree) : Prop := ∃ n ∈ t.children, n.right = some 2

/-- If the node `n` is a master's, then so is another one. -/
def Spared (t : UserTree) (n : Int) : Prop :=
  (t.node n).right = some 2 → ∃ k, k ≠ n ∧ (t.node k).right = some 2

variable {t : UserTree} {k n : Int}

instance (t : UserTree) : Decidable t.HasMaster := by
  unfold HasMaster
  infer_instance

theorem hasMaster_iff : t.HasMaster ↔ ∃ k, (t.node k).right = some 2 := by
  unfold HasMaster
  constructor
  · rintro ⟨n, hn, hright⟩
    obtain ⟨-, k, rfl⟩ := mem_children.1 hn
    exact ⟨k, hright⟩
  · rintro ⟨k, hright⟩
    refine ⟨_, mem_children.2 ⟨fun habsent => ?_, k, rfl⟩, hright⟩
    simp [habsent, UserNode.absent] at hright

/-- A node that becomes one with another right. -/
theorem hasMaster_put_iff (h : t.HasMaster) {m : UserNode} (hm : m.right ≠ some 2) :
    (t.put n m).HasMaster ↔ t.Spared n := by
  have hnode : ∀ k, ((t.put n m).node k).right = some 2 ↔ k ≠ n ∧ (t.node k).right = some 2 := by
    intro k
    rw [node_put]
    by_cases hk : n = k
    · simp [hk, hm]
    · simp [hk, Ne.symm hk]
  rw [hasMaster_iff] at h ⊢
  simp only [hnode]
  refine ⟨fun hother _ => hother, fun hspared => ?_⟩
  obtain ⟨k, hk⟩ := h
  by_cases hkn : k = n
  · exact hspared (hkn ▸ hk)
  · exact ⟨k, hkn, hk⟩

theorem right_updateToken (token : Option String) :
    ((t.updateToken n token).node k).right = (t.node k).right := by
  rw [updateToken, node_put]
  split_ifs with hn
  · rw [hn]
  · rfl

theorem hasMaster_updateToken (token : Option String) :
    (t.updateToken n token).HasMaster ↔ t.HasMaster := by
  simp only [hasMaster_iff, right_updateToken]

/-- The condition looks at the nodes that exist. -/
theorem spared_iff : t.Spared n ↔
    ((t.node n).right = some 2 → ∃ p ∈ t.nodes.toList, p.1 ≠ n ∧ p.2.right = some 2) := by
  refine imp_congr_right fun _ => ?_
  simp only [Prod.exists, Std.ExtTreeMap.mem_toList_iff_getElem?_eq_some]
  constructor
  · rintro ⟨k, hk, hright⟩
    cases hget : t.nodes[k]? with
    | none => simp [node, hget, UserNode.absent] at hright
    | some m => exact ⟨k, m, hget, hk, by simpa [node, hget] using hright⟩
  · rintro ⟨k, m, hget, hk, hright⟩
    exact ⟨k, hk, by simpa [node, hget] using hright⟩

instance (t : UserTree) (n : Int) : Decidable (t.Spared n) := decidable_of_iff _ spared_iff.symm

end UserTree

namespace World

variable {D : Type*} [DecidableEq D] {address : String → String} {v w s t : World D}
  {tr : List (Step (World D) (D × Act))} {e : D × Act}

/-- A removal, or a sign-up that completes, that hits the record of a master leaves another. -/
def SparesMaster (w : World D) (e : D × Act) : Prop :=
  (e.2 = .removeConfirm →
    ∀ row ∈ (w.device e.1).confirmed e.2, w.server.user.Spared row.machineNum) ∧
  ∀ u ∈ (w.device e.1).written e.2, w.server.user.Spared u.machineNum

instance (w : World D) (e : D × Act) : Decidable (w.SparesMaster e) := by
  unfold SparesMaster
  infer_instance

/-- The condition, in terms of what the event makes the database do. -/
theorem sparesMaster_iff (step : v.next address e = some w) :
    v.SparesMaster e ↔
      (∀ n, v.call address e = some (.removeUserData n) → v.server.user.Spared n) ∧
        ∀ u, v.call address e = some (.updateUserData u) → v.server.user.Spared u.machineNum := by
  obtain ⟨d, a⟩ := e
  refine and_congr ⟨fun h n hn => ?_, fun h ha row hrow => ?_⟩ (forall_congr' fun u => ?_)
  · have hcause := (next_effect step).1.cause _ hn
    cases hcause with
    | removed m rest row hs hrow =>
      refine h rfl row ?_
      simp [Device.confirmed, hs, hrow]
  · subst ha
    exact h _ (call_removeConfirm hrow)
  · exact imp_congr_left (Device.act_updateUserData_iff (next_act step)).symm

theorem hasMaster_next_iff (hv : v.server.user.HasMaster) (step : v.next address e = some w) :
    w.server.user.HasMaster ↔ v.SparesMaster e := by
  rw [sparesMaster_iff step]
  obtain ⟨d, a⟩ := e
  obtain ⟨he, hserver, -⟩ := next_effect step
  cases hr : v.call address (d, a) with
  | none =>
    rw [server_of_call_none step hr]
    exact iff_of_true hv (by simp)
  | some r =>
    rw [hserver, hr]
    have hcause := he.cause r hr
    cases hcause with
    | createUser i p hp hc new =>
      exact iff_of_true hv (by simp)
    | opened _ u ho hu =>
      exact iff_of_true ((UserTree.hasMaster_updateToken _).2 hv) (by simp)
    | signUp i p n hp hat hc hn hs =>
      refine (UserTree.hasMaster_put_iff hv (by simp [UserNode.ofUser])).trans ?_
      simp
    | removed m rest row hs hrow =>
      refine (UserTree.hasMaster_put_iff hv (by simp [UserNode.absent])).trans ?_
      simp

/-- From a database with a master, there is always one if and only if each removal, and each sign-up
that completes, that hits the record of a master leaves the record of another. -/
theorem masters_iff (h₀ : s.server.user.HasMaster) (run : Run (next address) s tr t) :
    (∀ x ∈ tr, x.after.server.user.HasMaster) ↔ ∀ x ∈ tr, x.before.SparesMaster x.event :=
  run.exact (I := fun w => w.server.user.HasMaster)
    (fun _ _ _ hv hC step => (hasMaster_next_iff hv step).2 hC)
    (fun _ _ _ hv step => hasMaster_next_iff hv step) h₀

/-- The master removes the owner of machine 2, and signs up another for machine 3. -/
theorem masters_owner : ∃ tr t,
    Run (next id) (start sampleServer fun _ : Unit => none) tr t ∧
      (∀ x ∈ tr, x.after.server.user.HasMaster) ∧ t.server.user.children.length = 2 ∧
      (t.server.user.node 3).email = some "new" := by
  obtain ⟨tr, t, run, hp⟩ := exists_run_of_exec (next id) (start sampleServer fun _ : Unit => none)
    (loginEvents () "master" ++
      [((), Act.itemClick 1), ((), .removeConfirm), ((), .signUpMenu),
        ((), .signUpClick "new" "0933" "3"), ((), .createUser 0 true), ((), .signUpComplete 0)])
    (fun r => decide ((∀ x ∈ r.1, x.before.SparesMaster x.event) ∧
      r.2.server.user.children.length = 2 ∧ (r.2.server.user.node 3).email = some "new"))
    (by decide)
  obtain ⟨hC, hnodes⟩ := of_decide_eq_true hp
  exact ⟨tr, t, run, (masters_iff (by decide) run).2 hC, hnodes⟩

/-- The master removes the row that shows the master; or signs up an owner for machine "01", which
is the master's. -/
theorem masters_fail :
    sampleServer.user.HasMaster ∧
    (∃ tr t, Run (next id) (start sampleServer fun _ : Unit => none) tr t ∧
      t.server.user.users = [⟨1, 2, some "0922", none, some "owner"⟩] ∧
      ¬ t.server.user.HasMaster) ∧
    ∃ tr t, Run (next id) (start sampleServer fun _ : Unit => none) tr t ∧
      t.server.user.users =
        [⟨1, 1, some "0933", none, some "new"⟩, ⟨1, 2, some "0922", none, some "owner"⟩] ∧
      ¬ t.server.user.HasMaster := by
  refine ⟨by decide, ?_, ?_⟩
  · obtain ⟨tr, t, run, hp⟩ := exists_run_of_exec (next id)
      (start sampleServer fun _ : Unit => none)
      (loginEvents () "master" ++ [((), Act.itemClick 0), ((), .removeConfirm)])
      (fun r => decide (r.2.server.user.users = [⟨1, 2, some "0922", none, some "owner"⟩] ∧
        ¬ r.2.server.user.HasMaster)) (by decide)
    exact ⟨tr, t, run, of_decide_eq_true hp⟩
  · obtain ⟨tr, t, run, hp⟩ := exists_run_of_exec (next id)
      (start sampleServer fun _ : Unit => none)
      (loginEvents () "master" ++
        [((), Act.signUpMenu), ((), .signUpClick "new" "0933" "01"), ((), .createUser 0 true),
          ((), .signUpComplete 0)])
      (fun r => decide (r.2.server.user.users =
          [⟨1, 1, some "0933", none, some "new"⟩, ⟨1, 2, some "0922", none, some "owner"⟩] ∧
        ¬ r.2.server.user.HasMaster)) (by decide)
    exact ⟨tr, t, run, of_decide_eq_true hp⟩

end World

end DollMachine
