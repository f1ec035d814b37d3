import DollMachine.Users.Completion
import Mathlib

/-!
# The first login after a sign-up

A record carries the email as it was typed, trimmed; the lookup at a login uses the address that the
authentication service reports for the account, which is in lower case.

`first_login_iff`: at the first login of a new owner, in a new process with a list that has the
record, `getCurrentUser` returns the record of the sign-up if and only if the trimmed text is the
address.
-/

namespace DollMachine

open Transition

/-- The address of an account made with an email: the email in lower case. -/
def lowerCase (email : String) : String := String.ofList (email.toList.map Char.toLower)

theorem lowerCase_idem (email : String) : lowerCase (lowerCase email) = lowerCase email := by
  simp [lowerCase, Function.comp_def, Char.toLower_toLower_eq_toLower]

@[simp] theorem UserNode.getValue_ofUser (u : User) : (UserNode.ofUser u).getValue = u := rfl

theorem UserNode.exists_ofUser (u : User) : (UserNode.ofUser u).Exists := by
  simp [UserNode.Exists, UserNode.ofUser, UserNode.absent]

/-- The first login to the account of `email`, in the state `m` of a new process whose list is the
content `t` of the database: the record `u` is still there, and the other records have emails of
other accounts. -/
structure FirstLogin (address : String → String) (u : User) (email : String) (t : UserTree)
    (m : UserManager) : Prop where
  kept : t.node u.machineNum = .ofUser u
  others : ∀ k, k ≠ u.machineNum → (t.node k).Exists →
    ∃ e, (t.node k).email = some e ∧ address e ≠ address email
  fresh : m.mUser = none
  loaded : m.userList = t.users
  session : m.auth = some (address email)

variable {address : String → String} {u : User} {email : String} {t : UserTree} {m : UserManager}

/-- The lookup by email finds a listed user that no other has the email of. -/
theorem findByEmail_of_unique {us : List User} (hu : u ∈ us) (hemail : u.email = some email)
    (hall : ∀ v ∈ us, v.email ≠ none) (hunique : ∀ v ∈ us, v.email = some email → v = u) :
    findByEmail email us = .ok (some u) := by
  obtain ⟨v, hv⟩ := findByEmail_isSome_iff.2 ⟨⟨u, hu, hemail⟩, readableUpTo_of_forall hall⟩
  obtain ⟨hmem, hvemail⟩ := findByEmail_eq_some hv
  rw [hv, hunique v hmem hvemail]

theorem UserManager.getCurrentUser_iff {x : String} (fresh : m.mUser = none)
    (session : m.auth = some x) :
    (∃ m', m.getCurrentUser = .ok (some u, m')) ↔ findByEmail x m.userList = .ok (some u) := by
  unfold getCurrentUser
  cases hf : findByEmail x m.userList with
  | error y => simp [fresh, session, hf]
  | ok v => simp [fresh, session, hf]

/-- The lookup of the first login finds the record exactly when the text in it is the address. -/
theorem FirstLogin.getCurrentUser_iff (idem : ∀ x, address (address x) = address x)
    (h : FirstLogin address u email t m) (hu : u.email = some email) :
    (∃ m', m.getCurrentUser = .ok (some u, m')) ↔ address email = email := by
  rw [UserManager.getCurrentUser_iff h.fresh h.session, h.loaded]
  constructor
  · intro hfound
    have hemail := (findByEmail_eq_some hfound).2
    rw [hu] at hemail
    exact (Option.some.inj hemail).symm
  · intro haddress
    have hnode : ∀ k, (t.node k).Exists → k ≠ u.machineNum →
        (t.node k).email ≠ none ∧ (t.node k).email ≠ some (address email) := by
      intro k hk hne
      obtain ⟨e, he, hother⟩ := h.others k hne hk
      refine ⟨by simp [he], fun heq => hother ?_⟩
      obtain rfl := Option.some.inj (he.symm.trans heq)
      exact idem email
    have hself : u ∈ t.users := UserTree.mem_users.2
      ⟨u.machineNum, h.kept ▸ UserNode.exists_ofUser u, by rw [h.kept]; rfl⟩
    refine findByEmail_of_unique hself (by rw [hu, haddress]) (fun v hv => ?_)
      fun v hv hvemail => ?_
    · obtain ⟨k, hk, rfl⟩ := UserTree.mem_users.1 hv
      by_cases hne : k = u.machineNum
      · rw [hne, h.kept]
        simp [hu]
      · exact (hnode k hk hne).1
    · obtain ⟨k, hk, rfl⟩ := UserTree.mem_users.1 hv
      by_cases hne : k = u.machineNum
      · rw [hne, h.kept]
        rfl
      · exact absurd hvemail (hnode k hk hne).2

namespace World

variable {D : Type*} [DecidableEq D] {s w : World D} {tr : List (Step (World D) (D × Act))}
  {x : Step (World D) (D × Act)}

/-- The record that a sign-up of the run writes has the email that was typed, trimmed; and at the
first login to its account, in a new process whose list has the record among records of other
accounts, `getCurrentUser` returns the record if and only if that text is the address which the
authentication service gives the account. -/
theorem first_login_iff (idem : ∀ x, address (address x) = address x)
    (hnone : ∀ d, (s.device d).signUps = []) (run : Run (next address) s tr w) (hx : x ∈ tr)
    (written : x.before.call address x.event = some (.updateUserData u)) :
    ∃ y ∈ tr, ∃ d typed phone machineNum, y.event = (d, .signUpClick typed phone machineNum) ∧
      u.email = some (trim typed) ∧
      ∀ t m, FirstLogin address u (trim typed) t m →
        ((∃ m', m.getCurrentUser = .ok (some u, m')) ↔ address (trim typed) = trim typed) := by
  obtain ⟨pre, post, rfl, hpre, step⟩ := run.at_step hx
  have hwritten := (Device.act_updateUserData_iff (next_act step)).1 written
  obtain ⟨p, i, n, -, hp, -, -, -, -, rfl⟩ := Device.ended_of_written (next_act step) hwritten
  obtain ⟨y, hy, hd, typed, phone, machineNum, ha, hemail, -, -⟩ :=
    fromClick_of_run hnone hpre (List.mem_of_getElem? hp)
  refine ⟨y, List.mem_append_left _ hy, y.event.1, typed, phone, machineNum, ?_, ?_, ?_⟩
  · rw [← ha]
  · rw [hemail]
  · intro t m hlogin
    exact hlogin.getCurrentUser_iff idem (by rw [hemail])

/-- The master signs up a new owner, whose email is typed with a blank before it; the list that is
loaded then leads a first login to the record. -/
theorem first_login_new : ∃ tr w,
    Run (next lowerCase) (start sampleServer fun _ : Unit => none) tr w ∧
    w.server.user.children.length = 3 ∧
    ∃ m', UserManager.getCurrentUser ⟨none, w.server.user.users, some "new"⟩ =
      .ok (some ⟨1, 3, some "0933", none, some "new"⟩, m') := by
  obtain ⟨tr, w, run, hp⟩ := exists_run_of_exec (next lowerCase)
    (start sampleServer fun _ : Unit => none)
    (loginEvents () "master" ++
      [((), Act.signUpMenu), ((), .signUpClick " new" "0933" "3"), ((), .createUser 0 true),
        ((), .signUpComplete 0)])
    (fun r => decide ((∃ x ∈ r.1, x.before.call lowerCase x.event =
        some (.updateUserData ⟨1, 3, some "0933", none, some "new"⟩)) ∧
      r.2.server.user.children.length = 3 ∧
      r.2.server.user.node 3 = .ofUser ⟨1, 3, some "0933", none, some "new"⟩ ∧
      ∀ q ∈ r.2.server.user.nodes.toList, q.1 ≠ 3 →
        q.2.email.any (fun e => lowerCase e ≠ lowerCase "new") = true)) (by decide)
  obtain ⟨⟨x, hx, hwritten⟩, hlen, hkept, hothers⟩ := of_decide_eq_true hp
  obtain ⟨y, -, d, typed, phone, machineNum, -, htyped, hlogin⟩ :=
    first_login_iff lowerCase_idem (fun d => rfl) run hx hwritten
  have htext : "new" = trim typed := Option.some.inj htyped
  rw [← htext] at hlogin
  have hlower : lowerCase "new" = "new" := by decide
  refine ⟨tr, w, run, hlen, ?_⟩
  refine (hlogin w.server.user _ ⟨hkept, fun k hk hexists => ?_, rfl, rfl, by rw [hlower]⟩).2 hlower
  have hany := hothers _ (UserTree.mem_toList_of_exists hexists) hk
  simpa [Option.any_eq_true] using hany

/-- The email of a new owner is typed with a capital; when the owner logs in on another phone, with
the list loaded, no user has the address of the account. -/
theorem first_login_fails : ∃ tr w,
    Run (next lowerCase) (start sampleServer fun _ : Bool => none) tr w ∧
      ∃ x ∈ tr, x.event = (false, .signInComplete 0 true) ∧
        (x.before.device false).signIns = [⟨"New", true⟩] ∧
        x.before.server.user.node 3 = .ofUser ⟨1, 3, some "0933", none, some "New"⟩ ∧
        (x.before.device false).userManager.mUser = none ∧
        (x.before.device false).userManager.userList = x.before.server.user.users ∧
        (UserManager.getCurrentUser
          { (x.before.device false).userManager with auth := some (lowerCase "New") }).map (·.1) =
            .ok none := by
  obtain ⟨tr, w, run, hp⟩ := exists_run_of_exec (next lowerCase)
    (start sampleServer fun _ : Bool => none)
    (loginEvents true "master" ++
      [(true, Act.signUpMenu), (true, .signUpClick "New" "0933" "3"), (true, .createUser 0 true),
        (true, .signUpComplete 0)] ++ loginEvents false "New")
    (fun r => decide (∃ x ∈ r.1, x.event = (false, .signInComplete 0 true) ∧
      (x.before.device false).signIns = [⟨"New", true⟩] ∧
      x.before.server.user.node 3 = .ofUser ⟨1, 3, some "0933", none, some "New"⟩ ∧
      (x.before.device false).userManager.mUser = none ∧
      (x.before.device false).userManager.userList = x.before.server.user.users ∧
      (UserManager.getCurrentUser
        { (x.before.device false).userManager with auth := some (lowerCase "New") }).map (·.1) =
          .ok none)) (by decide)
  exact ⟨tr, w, run, of_decide_eq_true hp⟩

end World

end DollMachine
