import DollMachine.Users.World

/-!
# Complete records

A record is complete when it has an email and stands under its own machine number.  Sign-ups and
removals keep all records complete; `updateToken` writes a single leaf, and makes a node with
nothing but a token when the record has gone in the meantime (`complete_updateToken_iff`).  The
lookup by email throws at such a node, for every user who logs in afterwards.

`records_complete_iff`: along a run all records stay complete, and the lookup throws on no list of
any phone, if and only if every screen that registers a token belongs to a user whose node still
exists.
-/

namespace DollMachine

open Transition

namespace UserTree

/-- Every record has an email and stands under its own machine number. -/
def Complete (t : UserTree) : Prop :=
  ∀ k, (t.node k).Exists → (t.node k).email ≠ none ∧ (t.node k).machineNum = some k

variable {t : UserTree}

theorem Complete.users_email (ht : t.Complete) {u : User} (hu : u ∈ t.users) : u.email ≠ none := by
  obtain ⟨k, hk, rfl⟩ := mem_users.1 hu
  exact (ht k hk).1

theorem complete_empty : empty.Complete := fun k hk => absurd hk (by simp)

theorem complete_updateUserData (ht : t.Complete) {u : User} (hu : u.email ≠ none) :
    (t.updateUserData u).Complete := by
  intro k hk
  rw [updateUserData, node_put] at hk ⊢
  split_ifs at hk ⊢ with h
  · exact ⟨hu, by rw [← h]; rfl⟩
  · exact ht k hk

theorem complete_removeUserData (ht : t.Complete) (n : Int) : (t.removeUserData n).Complete := by
  intro k hk
  rw [removeUserData, node_put] at hk ⊢
  split_ifs at hk ⊢ with h
  · exact absurd hk UserNode.not_exists_absent
  · exact ht k hk

/-- Writing a token keeps the records complete unless it makes a new node. -/
theorem complete_updateToken_iff (ht : t.Complete) (n : Int) (token : Option String) :
    (t.updateToken n token).Complete ↔ token = none ∨ (t.node n).Exists := by
  constructor
  · intro h
    by_contra hne
    obtain ⟨htoken, habsent⟩ := not_or.1 hne
    have hnode : t.node n = .absent := not_not.1 habsent
    obtain ⟨tk, rfl⟩ := Option.ne_none_iff_exists'.1 htoken
    refine (h n ?_).1 ?_
    · simp [updateToken, hnode, UserNode.Exists, UserNode.absent]
    · simp [updateToken, hnode, UserNode.absent]
  · intro h k hk
    rw [updateToken, node_put] at hk ⊢
    split_ifs at hk ⊢ with hn
    · subst hn
      rcases h with rfl | h
      · refine ht n fun habsent => hk ?_
        rw [habsent]
        rfl
      · exact ht n h
    · exact ht k hk

end UserTree

namespace World

variable {D : Type*} [DecidableEq D] {address : String → String} {s t : World D}
  {tr : List (Step (World D) (D × Act))}

/-- A screen that registers a token belongs to a user whose node exists. -/
def RegistersExisting (address : String → String) (w : World D) (e : D × Act) : Prop :=
  ∀ u ∈ (w.device e.1).opens address e.2,
    (w.device e.1).token = none ∨ (w.server.user.node u.machineNum).Exists

instance (address : String → String) (w : World D) (e : D × Act) :
    Decidable (w.RegistersExisting address e) := by
  unfold RegistersExisting
  infer_instance

theorem complete_next_iff {v w : World D} {e : D × Act} (hv : v.server.user.Complete)
    (step : v.next address e = some w) :
    w.server.user.Complete ↔ v.RegistersExisting address e := by
  obtain ⟨d, a⟩ := e
  obtain ⟨he, hserver, -⟩ := next_effect step
  generalize v.call address (d, a) = remote at he hserver
  have hquiet : (∀ n token, remote ≠ some (.updateToken n token)) →
      v.RegistersExisting address (d, a) :=
    fun hne u hu => absurd (he.opened u hu) (hne _ _)
  cases remote with
  | none =>
    rw [hserver]
    exact iff_of_true hv (hquiet fun n token => by simp)
  | some r =>
    have hcause := he.cause r rfl
    rw [hserver]
    cases hcause with
    | createUser i p hp hc new => exact iff_of_true hv (hquiet fun n token => by simp)
    | signUp i p n hp hat hc hn =>
      exact iff_of_true (UserTree.complete_updateUserData hv (by simp))
        (hquiet fun n token => by simp)
    | removed m rest row hs hrow =>
      exact iff_of_true (UserTree.complete_removeUserData hv _) (hquiet fun n token => by simp)
    | opened _ u ho hu =>
      refine (UserTree.complete_updateToken_iff hv _ _).trans ?_
      simp [RegistersExisting, ho]

/-- From a database of complete records, the records stay complete and the lookup by email throws on
no list that a phone has loaded, if and only if every `updateToken` that a screen makes finds the
node of the screen's user, or has no token to write. -/
theorem records_complete_iff (hs : s.Fresh) (h₀ : s.server.user.Complete)
    (run : Run (next address) s tr t) :
    (∀ x ∈ tr, x.after.server.user.Complete ∧ ∀ d email exception,
        findByEmail email (x.after.device d).userManager.userList ≠ .error exception) ↔
      ∀ x ∈ tr, x.before.RegistersExisting address x.event := by
  have hcomplete : (∀ x ∈ tr, x.after.server.user.Complete) ↔
      ∀ x ∈ tr, x.before.RegistersExisting address x.event :=
    run.exact (I := fun w => w.server.user.Complete)
      (fun v e w hv hC step => (complete_next_iff hv step).2 hC)
      (fun v e w hv step => complete_next_iff hv step) h₀
  rw [← hcomplete]
  refine ⟨fun h x hx => (h x hx).1, fun h x hx => ⟨h x hx, fun d email exception => ?_⟩⟩
  -- the list on the phone was the content of the database at some moment, hence complete
  obtain ⟨pre, post, rfl, hpre, hstep⟩ := run.at_step hx
  refine findByEmail_ne_error (fun u hu => ?_) exception
  rcases (sourced_of_run hs (hpre.snoc hstep) d).userList with hl | ⟨T, hT, hl⟩
  · simp [hl] at hu
  · rw [hl] at hu
    refine UserTree.Complete.users_email ?_ hu
    rcases List.mem_cons.1 hT with rfl | hT
    · exact h₀
    · obtain ⟨y, hy, rfl⟩ := List.mem_map.1 hT
      exact h y (by
        simp only [List.mem_append, List.mem_cons, List.not_mem_nil, or_false] at hy ⊢
        tauto)

theorem sampleServer_complete : sampleServer.user.Complete :=
  UserTree.complete_updateUserData
    (UserTree.complete_updateUserData UserTree.complete_empty (by decide)) (by decide)

/-- The owner logs in, and turns the phone. -/
theorem records_complete_owner : ∃ tr t,
    Run (next id) (start sampleServer fun _ : Unit => some "token") tr t ∧
      (∀ x ∈ tr, x.after.server.user.Complete ∧ ∀ d email exception,
        findByEmail email (x.after.device d).userManager.userList ≠ .error exception) ∧
      (t.server.user.node 2).token = some "token" := by
  obtain ⟨tr, t, run, hp⟩ := exists_run_of_exec (next id)
    (start sampleServer fun _ : Unit => some "token")
    (loginEvents () "owner" ++ [((), Act.recreate)])
    (fun r => decide ((∀ x ∈ r.1, x.before.RegistersExisting id x.event) ∧
      (r.2.server.user.node 2).token = some "token")) (by decide)
  obtain ⟨hC, htoken⟩ := of_decide_eq_true hp
  have hcomplete := (records_complete_iff (fresh_start _ _) sampleServer_complete run).2 hC
  exact ⟨tr, t, run, hcomplete, htoken⟩

/-- The master removes the owner while the owner's `SlaveActivity` is open on another phone; when
that phone is turned, the node comes back with nothing but a token, and the list that the master's
phone loads next makes the lookup of the owner's email throw. -/
theorem records_complete_fails : ∃ tr t,
    Run (next id) (start sampleServer fun d : Bool => some (toString d)) tr t ∧
      sampleServer.user.Complete ∧ ¬ t.server.user.Complete ∧
      t.server.user.node 2 = { UserNode.absent with token := some "false" } ∧
      findByEmail "owner" (t.device true).userManager.userList = .error .nullPointer := by
  obtain ⟨tr, t, run, hp⟩ := exists_run_of_exec (next id)
    (start sampleServer fun d : Bool => some (toString d))
    (loginEvents true "master" ++ loginEvents false "owner" ++
      [(true, Act.itemClick 1), (true, .removeConfirm), (false, .recreate), (true, .answer),
        (true, .onDataChange 0)])
    (fun r => decide (r.2.server.user.node 2 = { UserNode.absent with token := some "false" } ∧
      findByEmail "owner" (r.2.device true).userManager.userList = .error .nullPointer)) (by decide)
  obtain ⟨hnode, hlookup⟩ := of_decide_eq_true hp
  refine ⟨tr, t, run, sampleServer_complete, fun hc => ?_, hnode, hlookup⟩
  exact (hc 2 (by rw [hnode]; decide)).1 (by rw [hnode]; rfl)

end World

end DollMachine
