import DollMachine.Users.World

/-!
# Session identity

`UserManager` caches the current user in `mUser` and forgets it only in `signOut`.  The account that
`FirebaseAuth` holds also changes at a login that follows another one without `signOut`, and at the
creation of another account, so that the cache can be left behind.

* `session_identity`: as long as an account only becomes the current one in a process whose cache is
  empty or holds a record of that account, the cached user is always the signed-in one, and a login
  opens the screen that the account's own record is entitled to.
* `session_identity_fails`: a second login without `signOut` opens the first user's
  `MasterActivity`.
-/

namespace DollMachine

open Transition

/-! ## The cached user -/

/-- A cached user is a record of the signed-in account. -/
def UserManager.Own (m : UserManager) : Prop :=
  ∀ u, m.mUser = some u → ∃ email, m.auth = some email ∧ u.email = some email

theorem UserManager.Change.own {answers : List UserTree} {session : Option String}
    {m m' : UserManager} (h : m.Change answers session m') (hm : m.Own)
    (hs : ∀ x, session = some x → ∀ u, m.mUser = some u → u.email = some x) : m'.Own := by
  cases h with
  | keep => exact hm
  | load t ht =>
    intro u hu
    rw [onDataChange_mUser] at hu
    simpa using hm u hu
  | reset auth => exact fun u hu => by cases hu
  | session x hx => exact fun u hu => ⟨x, rfl, hs x hx u hu⟩
  | lookup u m' hu =>
    obtain ⟨rfl, hfound⟩ := currentUser_eq_ok hu
    intro v hv
    obtain rfl : u = v := Option.some.inj hv
    rcases hfound with hcached | ⟨-, -, email, hauth, hemail⟩
    · cases hsession : session with
      | none => simpa using hm u hcached
      | some x => exact ⟨x, rfl, hs x hsession u hcached⟩
    · exact ⟨email, hauth, hemail⟩

/-! ## The screen a login opens -/

theorem Screen.save_user? (screen : Screen) : screen.save.user? = none := by
  cases screen <;> rfl

/-- The screen that a login opens shows the user that the lookup returned: `MasterActivity` exactly
when that user has right 2. -/
theorem Device.loginComplete_screen {dev dev' : Device} {rest : List Screen}
    {remote : Option Remote} {screen : Screen} {u : User}
    (h : dev.loginComplete rest = (dev', remote)) (hs : dev'.screens.head? = some screen)
    (hu : screen.user? = some u) :
    (∃ m, dev.userManager.currentUser = .ok (u, m)) ∧
      (if u.right = 2 then ∃ m, screen = .master m else screen = .slave u) := by
  unfold loginComplete at h
  cases hv : dev.userManager.currentUser with
  | error x =>
    simp only [hv] at h
    cases h
    simp only [crash, exit] at hs
    have hmem := List.mem_of_head? hs
    obtain ⟨screen', -, rfl⟩ := List.mem_map.1 hmem
    rw [Screen.save_user?] at hu
    cases hu
  | ok r =>
    obtain ⟨v, m⟩ := r
    have hagain : m.currentUser = .ok (v, m) :=
      UserManager.currentUser_of_mUser (by rw [(UserManager.currentUser_eq_ok hv).1])
    simp only [hv, onCreate, detach, hagain] at h
    cases h
    simp only [List.head?_cons, Option.some.injEq] at hs
    by_cases hr : v.right = 2
    · simp only [hr, if_true] at hs
      subst hs
      obtain rfl : v = u := Option.some.inj hu
      exact ⟨⟨m, rfl⟩, by rw [if_pos hr]; exact ⟨_, rfl⟩⟩
    · simp only [hr, if_false] at hs
      subst hs
      obtain rfl : v = u := Option.some.inj hu
      exact ⟨⟨m, rfl⟩, by rw [if_neg hr]⟩

namespace World

variable {D : Type*} [DecidableEq D] {address : String → String} {s t : World D}
  {tr : List (Step (World D) (D × Act))}

/-- On every phone, `mUser` is a record of the account signed in there. -/
def SessionIdentity (w : World D) : Prop := ∀ d, (w.device d).userManager.Own

/-- An account that the event makes the current one finds no other user in the cache. -/
def KeepsSession (address : String → String) (w : World D) (e : D × Act) : Prop :=
  ∀ x ∈ (w.device e.1).session address e.2,
    ∀ u ∈ (w.device e.1).userManager.mUser, u.email = some x

instance (address : String → String) (w : World D) (e : D × Act) :
    Decidable (w.KeepsSession address e) := by
  unfold KeepsSession
  infer_instance

/-- The step is the successful completion of the login `p` on the phone `d`, and leaves `screen` on
top. -/
structure Login (x : Step (World D) (D × Act)) (d : D) (p : SignIn) (screen : Screen) : Prop where
  event : ∃ i, x.event = (d, .signInComplete i true) ∧ (x.before.device d).signIns[i]? = some p
  attached : p.attached = true
  login : ∃ rest, (x.before.device d).screens = .login :: rest
  opened : (x.after.device d).screens.head? = some screen

theorem sessionIdentity_next (v : World D) (e : D × Act) (w : World D) (hv : v.SessionIdentity)
    (hC : v.KeepsSession address e) (step : v.next address e = some w) : w.SessionIdentity := by
  obtain ⟨d', a⟩ := e
  obtain ⟨he, -, hother⟩ := next_effect step
  intro d
  by_cases hd : d = d'
  · subst hd
    exact he.manager.own (hv d) hC
  · rw [hother d hd]
    exact hv d

/-- What a login that opens a home screen looked up, and how it chose the screen. -/
theorem Login.lookup {x : Step (World D) (D × Act)} {d : D} {p : SignIn} {screen : Screen}
    {u : User} (hx : Login x d p screen) (step : x.before.next address x.event = some x.after)
    (hu : screen.user? = some u) :
    (x.before.device d).session address x.event.2 = some (address p.email) ∧ x.event.1 = d ∧
      (∃ m, UserManager.currentUser
        { (x.before.device d).userManager with auth := some (address p.email) } = .ok (u, m)) ∧
      (if u.right = 2 then ∃ m, screen = .master m else screen = .slave u) := by
  obtain ⟨⟨i, hevent, hp⟩, hat, ⟨rest, hlogin⟩, hopened⟩ := hx
  rw [hevent] at step ⊢
  obtain ⟨dev, remote, hact, hafter⟩ := next_eq_some.1 step
  rw [hafter] at hopened
  simp only [Function.update_self] at hopened
  refine ⟨Device.session_signIn hp, rfl, ?_⟩
  simp only [Device.act, hp, if_true] at hact
  split_ifs at hact with hacc
  simp only [Device.setAuth, hat, hlogin, Option.some.injEq] at hact
  exact Device.loginComplete_screen hact hopened hu

/-- As long as an account only becomes the current one on a phone whose cache is empty or holds a
record of that account, the cached user always is the signed-in one.  A login then opens a screen
for a record of its own account that the database held, `MasterActivity` exactly when that record
has right 2. -/
theorem session_identity (hs : s.Fresh) (run : Run (next address) s tr t)
    (hC : ∀ x ∈ tr, KeepsSession address x.before x.event) :
    (∀ x ∈ tr, x.after.SessionIdentity) ∧
      ∀ x ∈ tr, ∀ d p screen u, Login x d p screen → screen.user? = some u →
        u.email = some (address p.email) ∧
          (if u.right = 2 then ∃ m, screen = .master m else screen = .slave u) ∧
          ∃ pre post, tr = pre ++ x :: post ∧ ∃ T ∈ s.trees pre, u ∈ T.users := by
  have h₀ : s.SessionIdentity := fun d u hu => by
    obtain ⟨auth, token, hd⟩ := hs d
    rw [hd] at hu
    cases hu
  constructor
  · intro x hx
    obtain ⟨-, -, -, -, hstep⟩ := run.at_step hx
    have hbefore := run.guarded_before sessionIdentity_next h₀ hC hx
    exact sessionIdentity_next _ _ _ hbefore (hC x hx) hstep
  · intro x hx d p screen u hlogin hu
    obtain ⟨pre, post, htr, hpre, hstep⟩ := run.at_step hx
    obtain ⟨hsession, hd, ⟨m, hm⟩, hscreen⟩ := hlogin.lookup hstep hu
    have hsourced := sourced_of_run hs hpre d
    refine ⟨?_, hscreen, pre, post, htr, ?_⟩
    · rcases (UserManager.currentUser_eq_ok hm).2 with hcached | ⟨-, -, email, hauth, hemail⟩
      · subst hd
        exact hC x hx _ hsession u hcached
      · rwa [← Option.some.inj hauth] at hemail
    · rcases (UserManager.currentUser_eq_ok hm).2 with hcached | ⟨-, hmem, -⟩
      · exact hsourced.mUser u hcached
      · rcases hsourced.userList with hl | ⟨T, hT, hl⟩
        · simp [hl] at hmem
        · exact ⟨T, hT, hl ▸ hmem⟩

/-- The master logs in on a new phone. -/
theorem session_identity_master : ∃ tr t,
    Run (next id) (start sampleServer fun _ : Unit => none) tr t ∧ tr.length = 5 ∧
      (∀ x ∈ tr, x.after.SessionIdentity) ∧ (t.device ()).userManager.auth = some "master" ∧
      (t.device ()).userManager.mUser ≠ none := by
  obtain ⟨tr, t, run, hp⟩ := exists_run_of_exec (next id) (start sampleServer fun _ : Unit => none)
    (loginEvents () "master")
    (fun r => decide ((∀ x ∈ r.1, KeepsSession id x.before x.event) ∧ r.1.length = 5 ∧
      (r.2.device ()).userManager.auth = some "master" ∧
      (r.2.device ()).userManager.mUser ≠ none)) (by decide)
  obtain ⟨hC, hlen, hauth, hcached⟩ := of_decide_eq_true hp
  exact ⟨tr, t, run, hlen, (session_identity (fresh_start _ _) run hC).1, hauth, hcached⟩

/-- The master logs in and leaves with Back; when the owner then logs in on the same phone, the
cached user is still the master, and the owner gets the master's `MasterActivity`. -/
theorem session_identity_fails : ∃ tr t,
    Run (next id) (start sampleServer fun _ : Unit => none) tr t ∧ ¬ t.SessionIdentity ∧
      (t.device ()).userManager.auth = some "owner" ∧
      ∃ u, (t.device ()).screens.head?.bind Screen.user? = some u ∧ u.email = some "master" ∧
        u.right = 2 := by
  obtain ⟨tr, t, run, hp⟩ := exists_run_of_exec (next id) (start sampleServer fun _ : Unit => none)
    (loginEvents () "master" ++ [((), Act.back)] ++ loginEvents () "owner")
    (fun r => decide ((r.2.device ()).userManager.auth = some "owner" ∧
      (r.2.device ()).userManager.mUser = some ⟨2, 1, some "0911", none, some "master"⟩ ∧
      (r.2.device ()).screens.head?.bind Screen.user? =
        some ⟨2, 1, some "0911", none, some "master"⟩)) (by decide)
  obtain ⟨hauth, hcached, hscreen⟩ := of_decide_eq_true hp
  refine ⟨tr, t, run, fun hid => ?_, hauth, _, hscreen, rfl, rfl⟩
  obtain ⟨email, he, hu⟩ := hid () _ hcached
  rw [hauth] at he
  obtain rfl := Option.some.inj he
  exact absurd hu (by decide)

end World

end DollMachine
