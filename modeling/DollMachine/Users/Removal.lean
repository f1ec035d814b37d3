import DollMachine.Users.Accounts
import DollMachine.Users.Rows
import DollMachine.Users.Session

/-!
# After a removal

Being an owner is known in three places: the account, the record, and the users that the phones have
cached.  A removal deletes the record and nothing else.  `World.Gone` is what is true of the account
from then on, in every run: it exists, and neither a record nor a sign-up under way belongs to it.

* `removed_owner`: no record of the account comes back, the service refuses every sign-up for it,
  and a login to it opens no screen on a phone that has cached no user and has loaded the list
  since.
* `removed_owner_stays`: the removed owner cannot be signed up again, and the login of the removed
  owner dereferences null.
-/

namespace DollMachine

open Transition

namespace World

variable {D : Type*} [DecidableEq D] {address : String → String} {v w s t : World D}
  {pre post : List (Step (World D) (D × Act))} {e : D × Act} {d : D} {x : String}

/-- The account `x` exists, and has neither a record nor a sign-up under way. -/
structure Gone (address : String → String) (w : World D) (x : String) : Prop where
  account : x ∈ w.server.accounts
  noRecord : ∀ k e, (w.server.user.node k).email = some e → address e ≠ x
  notMade : ∀ d, x ∉ (w.device d).made address

/-- The removal of the only record of an account. -/
theorem gone_of_removed (hv : v.Registered address address) {row : Row} {email : String}
    (hrow : (v.device d).confirmed .removeConfirm = some row)
    (hnode : (v.server.user.node row.machineNum).email = some email)
    (step : v.next address (d, .removeConfirm) = some w) : w.Gone address (address email) := by
  have hcall : v.call address (d, .removeConfirm) = some (.removeUserData row.machineNum) :=
    call_removeConfirm hrow
  refine ⟨accounts_next step (hv.account _ _ hnode), fun k e hk heq => ?_, fun d' hmade => ?_⟩
  · rw [(next_effect step).2.1, hcall] at hk
    obtain ⟨hne, hk⟩ := UserTree.email_removeUserData.1 hk
    exact hne (hv.oneRecord _ _ _ _ hnode hk heq.symm)
  · rcases mem_made_next step hmade with hmade | ⟨-, hcall'⟩
    · exact (hv.unwritten d' _ hmade).2 _ _ hnode rfl
    · simp [hcall] at hcall'

theorem gone_next (hv : v.Gone address x) (step : v.next address e = some w) :
    w.Gone address x := by
  obtain ⟨d, a⟩ := e
  refine ⟨accounts_next step hv.account, fun k e hk heq => ?_, fun d' hmade => ?_⟩
  · rcases email_next step hk with hk | ⟨i, p, hp, hc, rfl, -⟩
    · exact hv.noRecord k e hk heq
    · refine hv.notMade d ?_
      exact heq ▸ Device.mem_made.2 ⟨p, List.mem_of_getElem? hp, hc, rfl⟩
  · rcases mem_made_next step hmade with hmade | ⟨hnew, -⟩
    · exact hv.notMade d' hmade
    · exact hnew hv.account

/-- The service refuses a sign-up for an account that exists. -/
theorem refused_of_account {i : Nat} {p : SignUp} {ok : Bool}
    (step : v.next address (d, .createUser i ok) = some w)
    (hp : (v.device d).signUps[i]? = some p) (hacc : address p.email ∈ v.server.accounts) :
    w.server = v.server ∧ (w.device d).signUps[i]? = some { p with created := some false } := by
  obtain ⟨q, hq, -, ⟨⟨-, hnew⟩, -⟩ | ⟨hcall, hdev⟩⟩ := Device.act_createUser (next_act step)
  · obtain rfl : p = q := Option.some.inj (hp.symm.trans hq)
    exact absurd hacc hnew
  · obtain rfl : p = q := Option.some.inj (hp.symm.trans hq)
    refine ⟨server_of_call_none step hcall, ?_⟩
    rw [hdev]
    exact List.getElem?_set_self (List.getElem?_eq_some_iff.1 hp).1

/-- A login to an account without a record, with no user cached and a list that has no record of the
account either, opens no home screen. -/
theorem no_screen_of_unlisted {y : Step (World D) (D × Act)} {p : SignIn} {screen : Screen}
    (hy : Login y d p screen) (step : y.before.next address y.event = some y.after)
    (fresh : (y.before.device d).userManager.mUser = none)
    (unlisted : ∀ u ∈ (y.before.device d).userManager.userList,
      u.email ≠ some (address p.email)) : screen.user? = none := by
  refine Option.eq_none_iff_forall_ne_some.2 fun u hu => ?_
  obtain ⟨-, -, ⟨m, hm⟩, -⟩ := hy.lookup step hu
  rcases (UserManager.currentUser_eq_ok hm).2 with hcached | ⟨-, hmem, email, hauth, hemail⟩
  · simp [fresh] at hcached
  · obtain rfl : address p.email = email := Option.some.inj hauth
    exact unlisted u hmem hemail

/-- From records with an account each, and no sign-up under way: after a master has removed the
record of an account, in every run that follows, no record of the account is in the database again;
the service refuses every sign-up for it; and a login to it opens no home screen on a phone that has
cached no user and whose list, if it is not empty, is the content of the database at some moment
since the removal. -/
theorem removed_owner (idem : ∀ x, address (address x) = address x)
    (h₀ : s.server.user.OneRecord address)
    (hacc : ∀ k e, (s.server.user.node k).email = some e → address e ∈ s.server.accounts)
    (hnone : ∀ d, (s.device d).signUps = []) (before : Run (next address) s pre v)
    {row : Row} {email : String} (hrow : (v.device d).confirmed .removeConfirm = some row)
    (hnode : (v.server.user.node row.machineNum).email = some email)
    (removal : v.next address (d, .removeConfirm) = some w)
    (after : Run (next address) w post t) :
    (∀ k e, (t.server.user.node k).email = some e → address e ≠ address email) ∧
    (∀ y ∈ post, ∀ d' i p ok, y.event = (d', .createUser i ok) →
      (y.before.device d').signUps[i]? = some p → address p.email = address email →
        y.after.server = y.before.server ∧
          (y.after.device d').signUps[i]? = some { p with created := some false }) ∧
    ∀ y ∈ post, ∀ d' p screen, Login y d' p screen → address p.email = address email →
      (y.before.device d').userManager.mUser = none →
      ((y.before.device d').userManager.userList = [] ∨
        ∃ T ∈ w.trees post, (y.before.device d').userManager.userList = T.users) →
        screen.user? = none := by
  have hgone : w.Gone address (address email) := gone_of_removed
    (registered_of_run (fun _ _ h => h) h₀ hacc hnone before) hrow hnode removal
  have hat : ∀ y ∈ post, y.before.Gone address (address email) ∧
      y.before.next address y.event = some y.after ∧ y.after.Gone address (address email) :=
    fun y hy => after.invariant_at (fun _ _ _ => gone_next) hgone hy
  refine ⟨(after.invariant (fun _ _ _ => gone_next) hgone).noRecord, ?_, ?_⟩
  · intro y hy d' i p ok hevent hp hemail
    obtain ⟨hbefore, step, -⟩ := hat y hy
    rw [hevent] at step
    exact refused_of_account step hp (hemail ▸ hbefore.account)
  · intro y hy d' p screen hlogin hemail fresh hlist
    refine no_screen_of_unlisted hlogin (hat y hy).2.1 fresh fun u hu hfound => ?_
    rw [hemail] at hfound
    rcases hlist with hnil | ⟨T, hT, hlist⟩
    · simp [hnil] at hu
    · have hnoRecord : ∀ k e, (T.node k).email = some e → address e ≠ address email := by
        rcases List.mem_cons.1 hT with rfl | hT
        · exact hgone.noRecord
        · obtain ⟨z, hz, rfl⟩ := List.mem_map.1 hT
          exact (hat z hz).2.2.noRecord
      rw [hlist] at hu
      obtain ⟨k, -, rfl⟩ := UserTree.mem_users.1 hu
      exact hnoRecord k _ hfound (idem email)

/-- The master removes the owner of machine 2, and tries to sign the owner up again. -/
theorem removed_owner_second : ∃ pre v w post t,
    Run (next id) (start sampleServer fun _ : Unit => none) pre v ∧
      (v.server.user.node 2).email = some "owner" ∧ v.next id ((), .removeConfirm) = some w ∧
      Run (next id) w post t ∧ post ≠ [] ∧
      ∀ k e, (t.server.user.node k).email = some e → id e ≠ id "owner" := by
  obtain ⟨pre, v, before, hp⟩ := exists_run_of_exec (next id)
    (start sampleServer fun _ : Unit => none) (loginEvents () "master" ++ [((), Act.itemClick 1)])
    (fun r => decide ((r.2.device ()).confirmed .removeConfirm = some ⟨2, some "owner"⟩ ∧
        (r.2.server.user.node 2).email = some "owner") &&
      (r.2.next id ((), .removeConfirm)).any fun w =>
        (exec (next id) w [((), .signUpMenu), ((), .signUpClick "owner" "0955" "3"),
          ((), .createUser 0 true), ((), .signUpComplete 0)]).any fun q => !q.1.isEmpty) (by decide)
  obtain ⟨hv, hp⟩ := Bool.and_eq_true_iff.1 hp
  obtain ⟨hrow, hnode⟩ := of_decide_eq_true hv
  obtain ⟨w, removal, hp⟩ := (Option.any_eq_true _ _).1 hp
  obtain ⟨⟨post, t⟩, hafter, hp⟩ := (Option.any_eq_true _ _).1 hp
  have idem : ∀ x : String, id (id x) = id x := fun x => rfl
  refine ⟨pre, v, w, post, t, before, hnode, removal, exec_run hafter, by simpa using hp, ?_⟩
  exact (removed_owner idem sampleServer_oneRecord sampleServer_account (fun d => rfl) before hrow
    hnode removal (exec_run hafter)).1

/-- The master removes the owner of machine 2, and all loads are answered: the service refuses to
sign the removed owner up for machine 3, which is free.  And a login of the removed owner on another
phone, with the list loaded before, dereferences null. -/
theorem removed_owner_stays :
    (∃ tr t, Run (next id) (start sampleServer fun _ : Unit => none) tr t ∧
      ∃ x ∈ tr, x.event = ((), .createUser 0 true) ∧
        x.before.server.user.users = [⟨2, 1, some "0911", none, some "master"⟩] ∧
        (x.before.device ()).requests = 0 ∧ (x.before.device ()).answers.length = 0 ∧
        (x.before.device ()).signUps = [⟨"owner", "0955", "3", true, none⟩] ∧
        (x.after.device ()).signUps = [⟨"owner", "0955", "3", true, some false⟩] ∧
        t.server.user.users = [⟨2, 1, some "0911", none, some "master"⟩]) ∧
    ∃ tr t, Run (next id) (start sampleServer fun _ : Bool => none) tr t ∧
      ∃ x ∈ tr, x.event = (false, .signInComplete 0 true) ∧
        (x.before.device false).signIns = [⟨"owner", true⟩] ∧
        (x.before.device false).userManager.userList = x.before.server.user.users ∧
        x.before.server.user.users = [⟨2, 1, some "0911", none, some "master"⟩] ∧
        UserManager.currentUser { (x.before.device false).userManager with auth := some "owner" } =
          .error .nullPointer := by
  constructor
  · obtain ⟨tr, t, run, hp⟩ := exists_run_of_exec (next id)
      (start sampleServer fun _ : Unit => none)
      (loginEvents () "master" ++
        [((), Act.itemClick 1), ((), .removeConfirm), ((), .answer), ((), .onDataChange 0),
          ((), .signUpMenu), ((), .signUpClick "owner" "0955" "3"), ((), .createUser 0 true),
          ((), .signUpComplete 0)])
      (fun r => decide (∃ x ∈ r.1, x.event = ((), .createUser 0 true) ∧
        x.before.server.user.users = [⟨2, 1, some "0911", none, some "master"⟩] ∧
        (x.before.device ()).requests = 0 ∧ (x.before.device ()).answers.length = 0 ∧
        (x.before.device ()).signUps = [⟨"owner", "0955", "3", true, none⟩] ∧
        (x.after.device ()).signUps = [⟨"owner", "0955", "3", true, some false⟩] ∧
        r.2.server.user.users = [⟨2, 1, some "0911", none, some "master"⟩])) (by decide)
    exact ⟨tr, t, run, of_decide_eq_true hp⟩
  · obtain ⟨tr, t, run, hp⟩ := exists_run_of_exec (next id)
      (start sampleServer fun _ : Bool => none)
      (loginEvents true "master" ++ [(true, Act.itemClick 1), (true, .removeConfirm)] ++
        loginEvents false "owner")
      (fun r => decide (∃ x ∈ r.1, x.event = (false, .signInComplete 0 true) ∧
        (x.before.device false).signIns = [⟨"owner", true⟩] ∧
        (x.before.device false).userManager.userList = x.before.server.user.users ∧
        x.before.server.user.users = [⟨2, 1, some "0911", none, some "master"⟩] ∧
        UserManager.currentUser { (x.before.device false).userManager with auth := some "owner" } =
          .error .nullPointer)) (by decide)
    exact ⟨tr, t, run, of_decide_eq_true hp⟩

end World

end DollMachine
