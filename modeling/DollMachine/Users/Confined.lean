import DollMachine.Users.World

/-!
# What a phone can show

`MasterActivity` is only opened for a user with right 2, and `SignUpActivity` and the dialogs are
only reached from there.  `Stack` lists the stacks of activities that come out of this, and
`Device.Confined` ties them to the cached user and to the users for whom the phone has opened a home
screen so far.  Every event keeps it (`Device.Confined.act`).
-/

namespace DollMachine

open Transition

/-- The address that a successful login signs in with. -/
def Device.signedIn (address : String → String) (dev : Device) : Act → Option String
  | .signInComplete i true => dev.signIns[i]?.map fun p => address p.email
  | _ => none

/-- The activities that a `MasterActivity` is below, and itself, saved or not. -/
def Screen.OfMaster : Screen → Prop
  | .master _ | .savedMaster | .signUp | .manageStatus _ => True
  | _ => False

def Screen.IsSaved : Screen → Prop
  | .savedMaster | .savedSlave => True
  | _ => False

/-- The stacks of started activities on a phone with the cached user `mUser`. -/
inductive Stack (mUser : Option User) : List Screen → Prop
  | empty : Stack mUser []
  | login : Stack mUser [.login]
  | slave (user : User) (hu : mUser = some user) (hr : user.right ≠ 2) : Stack mUser [.slave user]
  | master (m : Master) (hu : mUser = some m.user) (hr : m.user.right = 2) :
      Stack mUser [.master m]
  | signUp (m : Master) (hu : mUser = some m.user) (hr : m.user.right = 2) :
      Stack mUser [.signUp, .master m]
  | manageStatus (n : Int) (m : Master) (hu : mUser = some m.user) (hr : m.user.right = 2) :
      Stack mUser [.manageStatus n, .master m]
  | savedSlave : Stack mUser [.savedSlave]
  | savedMaster : Stack mUser [.savedMaster]
  | savedSignUp : Stack mUser [.signUp, .savedMaster]
  | savedManageStatus (n : Int) : Stack mUser [.manageStatus n, .savedMaster]

variable {address : String → String} {server : Server} {dev dev' : Device} {a : Act}
  {remote : Option Remote} {us us' : List User} {mUser : Option User} {screens : List Screen}

/-- Once the process has died, a stack has no home screen left but saved ones. -/
theorem Stack.save (h : Stack mUser screens) (c : Option User) :
    Stack c (screens.map Screen.save) := by
  cases h with
  | empty => exact .empty
  | login => exact .login
  | slave user hu hr => exact .savedSlave
  | master m hu hr => exact .savedMaster
  | signUp m hu hr => exact .savedSignUp
  | manageStatus n m hu hr => exact .savedManageStatus n
  | savedSlave => exact .savedSlave
  | savedMaster => exact .savedMaster
  | savedSignUp => exact .savedSignUp
  | savedManageStatus n => exact .savedManageStatus n

theorem Stack.tail (h : Stack mUser screens) : Stack mUser screens.tail := by
  cases h with
  | signUp m hu hr => exact .master m hu hr
  | manageStatus n m hu hr => exact .master m hu hr
  | savedSignUp => exact .savedMaster
  | savedManageStatus n => exact .savedMaster
  | _ => exact .empty

/-- A home screen is that of the cached user, and the one that the user's right is for. -/
theorem Stack.shows (h : Stack mUser screens) : ∀ screen ∈ screens, ∀ u, screen.user? = some u →
    mUser = some u ∧ ((∃ m, screen = .master m) ↔ u.right = 2) := by
  cases h with
  | slave user hu hr => simp [Screen.user?, hu, hr]
  | master m hu hr => simp [Screen.user?, hu, hr]
  | signUp m hu hr => simp [Screen.user?, hu, hr]
  | manageStatus n m hu hr => simp [Screen.user?, hu, hr]
  | _ => simp [Screen.user?]

theorem Screen.ofMaster_save {screen : Screen} (h : screen.save.OfMaster) : screen.OfMaster := by
  cases screen <;> exact h

namespace Device

/-- A process that has loaded nothing and asked for nothing. -/
structure Idle (dev : Device) : Prop where
  userList : dev.userManager.userList = []
  mUser : dev.userManager.mUser = none
  answers : dev.answers = []
  requests : dev.requests = 0
  signIns : dev.signIns = []

/-- A phone that has opened home screens for the users in `us`. -/
structure Confined (us : List User) (dev : Device) : Prop where
  stack : Stack dev.userManager.mUser dev.screens
  cached : ∀ u, dev.userManager.mUser = some u → u ∈ us
  /-- Saved screens can only be looked at by a process that knows no user. -/
  idle : (∃ screen ∈ dev.screens, screen.IsSaved) → dev.Idle
  screens : (∃ screen ∈ dev.screens, screen.OfMaster) → ∃ u ∈ us, u.right = 2
  signUps : dev.signUps ≠ [] → ∃ u ∈ us, u.right = 2

theorem Confined.mono (h : dev.Confined us) (hh : us ⊆ us') : dev.Confined us' where
  stack := h.stack
  cached u hu := hh (h.cached u hu)
  idle := h.idle
  screens hs := (h.screens hs).imp fun _ hu => ⟨hh hu.1, hu.2⟩
  signUps hs := (h.signUps hs).imp fun _ hu => ⟨hh hu.1, hu.2⟩

theorem idle_exit (dev : Device) (screens : List Screen) : (dev.exit screens).Idle :=
  ⟨rfl, rfl, rfl, rfl, rfl⟩

theorem Confined.exit (h : dev.Confined us) {kept : List Screen}
    (hs : kept = dev.screens ∨ kept = dev.screens.tail) :
    (dev.exit (kept.map Screen.save)).Confined us where
  stack := by
    rcases hs with rfl | rfl
    · exact h.stack.save _
    · exact h.stack.tail.save _
  cached u hu := by cases hu
  idle _ := idle_exit _ _
  screens := by
    rintro ⟨_, hsaved, hm⟩
    obtain ⟨screen, hmem, rfl⟩ := List.mem_map.1 hsaved
    refine h.screens ⟨screen, ?_, Screen.ofMaster_save hm⟩
    rcases hs with rfl | rfl
    · exact hmem
    · exact List.mem_of_mem_tail hmem
  signUps hs := absurd rfl hs

theorem Confined.crash (h : dev.Confined us) : dev.crash.Confined us := h.exit (.inr rfl)

/-- An event that keeps the screens and the cached user. -/
theorem Confined.keep (h : dev.Confined us) (hs : dev'.screens = dev.screens)
    (hu : dev'.userManager.mUser = dev.userManager.mUser)
    (hi : dev.Idle → dev'.Idle)
    (hp : dev'.signUps ≠ [] → dev.signUps ≠ [] ∨ ∃ screen ∈ dev.screens, screen.OfMaster) :
    dev'.Confined us where
  stack := by rw [hs, hu]; exact h.stack
  cached := by rw [hu]; exact h.cached
  idle := by rw [hs]; exact fun hsaved => hi (h.idle hsaved)
  screens := by rw [hs]; exact h.screens
  signUps hne := (hp hne).elim h.signUps h.screens

/-- An event that changes nothing of what an idle process lacks. -/
theorem Confined.same (h : dev.Confined us) (hs : dev'.screens = dev.screens)
    (hu : dev'.userManager = dev.userManager) (ha : dev'.answers = dev.answers)
    (hr : dev'.requests = dev.requests) (hsign : dev'.signIns = dev.signIns)
    (hp : dev'.signUps ≠ [] → dev.signUps ≠ [] ∨ ∃ screen ∈ dev.screens, screen.OfMaster) :
    dev'.Confined us :=
  h.keep hs (by rw [hu])
    (fun hi => ⟨hu ▸ hi.userList, hu ▸ hi.mUser, ha ▸ hi.answers, hr ▸ hi.requests,
      hsign ▸ hi.signIns⟩) hp

@[simp] theorem detach_userManager : dev.detach.userManager = dev.userManager := rfl

theorem Confined.detach (h : dev.Confined us) : dev.detach.Confined us := by
  refine h.keep rfl rfl (fun hi => ?_) fun hne => .inl fun hnil => hne ?_
  · exact ⟨hi.userList, hi.mUser, hi.answers, hi.requests, by simp [Device.detach, hi.signIns]⟩
  · simp [Device.detach, hnil]

/-- The only screen is that of a user for whom one has been opened. -/
theorem Confined.home {u : User} {screen : Screen} (hmem : u ∈ us)
    (hu : dev.userManager.mUser = some u) (hs : dev.screens = [screen])
    (hscreen : u.right = 2 ∧ (∃ m : Master, m.user = u ∧ screen = .master m) ∨
      u.right ≠ 2 ∧ screen = .slave u)
    (hp : dev.signUps ≠ [] → ∃ u ∈ us, u.right = 2) : dev.Confined us where
  stack := by
    rw [hs]
    obtain ⟨hr, m, rfl, rfl⟩ | ⟨hr, rfl⟩ := hscreen
    · exact .master m hu hr
    · exact .slave u hu hr
  cached v hv := by
    obtain rfl := Option.some.inj (hu.symm.trans hv)
    exact hmem
  idle := by
    rw [hs]
    rintro ⟨s, hmem, hsaved⟩
    obtain rfl := List.mem_singleton.1 hmem
    obtain ⟨-, m, -, rfl⟩ | ⟨-, rfl⟩ := hscreen <;> cases hsaved
  screens := by
    rw [hs]
    rintro ⟨s, hmem', hmaster⟩
    obtain rfl := List.mem_singleton.1 hmem'
    obtain ⟨hr, -⟩ | ⟨-, rfl⟩ := hscreen
    · exact ⟨u, hmem, hr⟩
    · cases hmaster
  signUps := hp

/-- A lookup in an idle process finds nobody. -/
theorem Idle.currentUser (h : dev.Idle) : dev.userManager.currentUser = .error .nullPointer := by
  unfold UserManager.currentUser UserManager.getCurrentUser
  rw [h.mUser, h.userList]
  cases dev.userManager.auth <;> rfl

theorem Confined.onCreate {home : Home} (h : dev.Confined us) (hh : us ⊆ us')
    (hopen : ∀ u m, dev.userManager.currentUser = .ok (u, m) →
      u ∈ us' ∧ (home = .master ↔ u.right = 2))
    (hact : dev.onCreate home [] = (dev', remote)) : dev'.Confined us' := by
  unfold Device.onCreate at hact
  cases hu : dev.userManager.currentUser with
  | error x =>
    simp only [hu] at hact
    cases hact
    exact h.crash.mono hh
  | ok r =>
    obtain ⟨u, m⟩ := r
    obtain ⟨hmem, hhome⟩ := hopen u m hu
    simp only [hu] at hact
    cases hact
    refine .home hmem (by rw [(UserManager.currentUser_eq_ok hu).1]) rfl ?_ (h.mono hh).signUps
    cases home with
    | master => exact .inl ⟨hhome.1 rfl, _, rfl, rfl⟩
    | slave => exact .inr ⟨fun hr => (by cases hhome.2 hr), rfl⟩

theorem Confined.loginComplete (h : dev.Confined us) (hh : us ⊆ us')
    (hlogin : dev.screens = [.login])
    (hopen : ∀ u m, dev.userManager.currentUser = .ok (u, m) → u ∈ us')
    (hact : dev.loginComplete [] = (dev', remote)) : dev'.Confined us' := by
  unfold Device.loginComplete at hact
  cases hu : dev.userManager.currentUser with
  | error x =>
    simp only [hu] at hact
    cases hact
    exact h.crash.mono hh
  | ok r =>
    obtain ⟨u, m⟩ := r
    have hcached : m.mUser = some u := by rw [(UserManager.currentUser_eq_ok hu).1]
    have hlooked : ({ dev with userManager := m } : Device).Confined us' :=
      { stack := by rw [show dev.screens = _ from hlogin]; exact .login
        cached := fun v hv => by
          obtain rfl := Option.some.inj (hcached.symm.trans hv)
          exact hopen u m hu
        idle := by rw [show dev.screens = _ from hlogin]; simp [Screen.IsSaved]
        screens := (h.mono hh).screens
        signUps := (h.mono hh).signUps }
    simp only [hu] at hact
    refine hlooked.detach.onCreate (List.Subset.refl _) (fun v m' hv => ?_) hact
    rw [show ({ dev with userManager := m } : Device).detach.userManager.currentUser = _ from
      UserManager.currentUser_of_mUser hcached] at hv
    cases hv
    refine ⟨hopen u m hu, ?_⟩
    split_ifs with hr <;> simp [hr]

theorem Confined.signInComplete (h : dev.Confined us) {i : Nat} {ok : Bool}
    (hact : dev.act address server (.signInComplete i ok) = some (dev', remote)) :
    dev'.Confined (us ++ (dev.opens address (.signInComplete i ok)).toList) := by
  have hsub : us ⊆ us ++ (dev.opens address (.signInComplete i ok)).toList :=
    List.subset_append_left _ _
  simp only [act] at hact
  split at hact
  · cases hact
  · rename_i p hp
    have hbusy : ¬ dev.Idle := fun hi => by simp [hi.signIns] at hp
    have hrest : ({ dev with signIns := dev.signIns.eraseIdx i } : Device).Confined us :=
      h.keep rfl rfl (fun hi => absurd hi hbusy) .inl
    have hauth : (({ dev with signIns := dev.signIns.eraseIdx i } : Device).setAuth
        (address p.email)).Confined us :=
      h.keep rfl rfl (fun hi => absurd hi hbusy) .inl
    split_ifs at hact with hok
    · subst hok
      split at hact
      · rename_i rest hat hlogin
        obtain ⟨email, attached⟩ := p
        subst hat
        have hlogin : dev.screens = .login :: rest := hlogin
        have hc : dev.creates address (.signInComplete i true) =
            some { dev.userManager with auth := some (address email) } := by
          simp only [creates, hp, hlogin]
        have hstack := h.stack
        rw [hlogin] at hstack
        cases hstack
        refine hauth.loginComplete hsub hlogin (fun u m hu => ?_) (Option.some.inj hact)
        rw [opens_of_ok hc hu]
        simp
      · cases hact
        exact hauth.mono hsub
    · cases hact
      exact hrest.mono hsub

/-- Creating a home screen anew: one of a living process has its user cached, and a saved one brings
the process down. -/
theorem Confined.recreateHome {home : Home} (h : dev.Confined us) (hh : us ⊆ us')
    (hcase : (∃ u, dev.userManager.mUser = some u ∧ (home = .master ↔ u.right = 2)) ∨ dev.Idle)
    (hact : dev.detach.onCreate home [] = (dev', remote)) : dev'.Confined us' := by
  refine h.detach.onCreate hh (fun v m hv => ?_) hact
  rw [detach_userManager] at hv
  obtain ⟨u, hu, hhome⟩ | hi := hcase
  · rw [UserManager.currentUser_of_mUser hu] at hv
    cases hv
    exact ⟨hh (h.cached _ hu), hhome⟩
  · simp [hi.currentUser] at hv

theorem Confined.recreate (h : dev.Confined us)
    (hact : dev.act address server .recreate = some (dev', remote)) :
    dev'.Confined (us ++ (dev.opens address .recreate).toList) := by
  have hsub : us ⊆ us ++ (dev.opens address .recreate).toList := List.subset_append_left _ _
  have hstack := h.stack
  simp only [act] at hact
  split at hact
  · rename_i md rest hs
    rw [hs] at hstack
    cases hstack with
    | master _ hu hr =>
      exact h.recreateHome hsub (.inl ⟨_, hu, by simp [hr]⟩) (Option.some.inj hact)
  · rename_i rest hs
    have hi := h.idle ⟨.savedMaster, by simp [hs], trivial⟩
    rw [hs] at hstack
    cases hstack
    exact h.recreateHome hsub (.inr hi) (Option.some.inj hact)
  · rename_i user rest hs
    rw [hs] at hstack
    cases hstack with
    | slave _ hu hr =>
      exact h.recreateHome hsub (.inl ⟨_, hu, by simp [hr]⟩) (Option.some.inj hact)
  · rename_i rest hs
    have hi := h.idle ⟨.savedSlave, by simp [hs], trivial⟩
    rw [hs] at hstack
    cases hstack
    exact h.recreateHome hsub (.inr hi) (Option.some.inj hact)
  · cases hact
    exact h.detach.mono hsub

/-- Back on the only activity that a login leaves. -/
theorem Confined.login (h : dev.Confined us) (hs : dev'.screens = [.login])
    (hu : ∀ u, dev'.userManager.mUser = some u → dev.userManager.mUser = some u)
    (hp : dev'.signUps ≠ [] → dev.signUps ≠ []) : dev'.Confined us where
  stack := by rw [hs]; exact .login
  cached u hu' := h.cached u (hu u hu')
  idle := by rw [hs]; simp [Screen.IsSaved]
  screens := by rw [hs]; simp [Screen.OfMaster]
  signUps hne := h.signUps (hp hne)

theorem Confined.back (h : dev.Confined us) (hs : dev'.screens = dev.screens.tail)
    (hu : dev'.userManager = dev.userManager) (hi : dev.Idle → dev'.Idle)
    (hp : dev'.signUps ≠ [] → dev.signUps ≠ []) : dev'.Confined us where
  stack := by rw [hs, hu]; exact h.stack.tail
  cached := by rw [hu]; exact h.cached
  idle := by
    rw [hs]
    exact fun ⟨s, hmem, hsaved⟩ => hi (h.idle ⟨s, List.mem_of_mem_tail hmem, hsaved⟩)
  screens := by
    rw [hs]
    exact fun ⟨s, hmem, hm⟩ => h.screens ⟨s, List.mem_of_mem_tail hmem, hm⟩
  signUps hne := h.signUps (hp hne)

/-- What `MasterActivity` does to the stack: its own rows and dialog, and one activity above it. -/
theorem Confined.fromMaster (h : dev.Confined us) {m m' : Master} {rest : List Screen}
    (hs : dev.screens = .master m :: rest)
    (hs' : dev'.screens = .master m' :: rest ∨ dev'.screens = .signUp :: .master m' :: rest ∨
      ∃ n, dev'.screens = .manageStatus n :: .master m' :: rest)
    (hm : m'.user = m.user) (hu : dev'.userManager = dev.userManager)
    (hp : dev'.signUps = dev.signUps) : dev'.Confined us := by
  have hmaster := h.screens ⟨.master m, by simp [hs], trivial⟩
  have hstack := h.stack
  rw [hs, ← hu] at hstack
  cases hstack with
  | master _ hcached hr =>
    rw [← hm] at hcached hr
    have hnew : Stack dev'.userManager.mUser dev'.screens ∧
        ∀ screen ∈ dev'.screens, ¬ screen.IsSaved := by
      rcases hs' with hs' | hs' | ⟨n, hs'⟩ <;> rw [hs']
      · exact ⟨.master m' hcached hr, by simp [Screen.IsSaved]⟩
      · exact ⟨.signUp m' hcached hr, by simp [Screen.IsSaved]⟩
      · exact ⟨.manageStatus n m' hcached hr, by simp [Screen.IsSaved]⟩
    exact ⟨hnew.1, by rw [hu]; exact h.cached,
      fun ⟨s, hmem, hsaved⟩ => absurd hsaved (hnew.2 s hmem), fun _ => hmaster,
      by rw [hp]; exact h.signUps⟩

/-- One event on a phone, other than the completion of a login and the creation of a screen anew. -/
theorem Confined.local (h : dev.Confined us)
    (hact : dev.act address server a = some (dev', remote))
    (hsign : ∀ i ok, a ≠ .signInComplete i ok) (hre : a ≠ .recreate) : dev'.Confined us := by
  cases a with
  | launch =>
    simp only [act] at hact
    split at hact <;> cases hact
    exact h.login rfl (fun u hu => hu) id
  | back =>
    simp only [act] at hact
    split at hact
    · cases hact
    · rename_i screen rest hs
      cases hact
      exact h.detach.back (by rw [show dev.detach.screens = _ from hs]; rfl) rfl
        (fun hi => ⟨hi.userList, hi.mUser, hi.answers, hi.requests, hi.signIns⟩) id
  | stop =>
    cases hact
    exact h.detach
  | loginClick email pwd =>
    simp only [act] at hact
    split at hact
    · rename_i rest hs
      have hstack := h.stack
      rw [hs] at hstack
      cases hstack
      split_ifs at hact <;> cases hact <;> exact h.login hs (fun u hu => hu) id
    · cases hact
  | signInComplete i ok => exact absurd rfl (hsign i ok)
  | answer =>
    simp only [act] at hact
    split at hact
    · cases hact
    · rename_i n hn
      cases hact
      exact h.keep rfl rfl (fun hi => absurd hi.requests (by simp [hn])) .inl
  | onDataChange i =>
    simp only [act] at hact
    split at hact
    · cases hact
    · rename_i snapshot hsnap
      cases hact
      exact h.keep rfl (by simp) (fun hi => by simp [hi.answers] at hsnap) .inl
  | onCancelled =>
    simp only [act] at hact
    split at hact
    · cases hact
    · rename_i n hn
      cases hact
      exact h.keep rfl rfl (fun hi => absurd hi.requests (by simp [hn])) .inl
  | reloadClick =>
    simp only [act] at hact
    split at hact
    · rename_i m rest hs
      cases hact
      exact h.fromMaster hs (.inl rfl) rfl rfl rfl
    · rename_i user rest hs
      have hstack := h.stack
      rw [hs] at hstack
      cases hstack with
      | slave _ hu hr =>
        rw [UserManager.currentUser_of_mUser hu] at hact
        cases hact
        exact h
    · cases hact
  | signUpMenu =>
    simp only [act] at hact
    split at hact
    · rename_i m rest hs
      cases hact
      exact h.fromMaster hs (.inr (.inl rfl)) rfl rfl rfl
    · cases hact
  | signUpClick email phone machineNum =>
    simp only [act] at hact
    split at hact
    · rename_i rest hs
      cases hact
      have hmaster : ∃ screen ∈ dev.screens, screen.OfMaster := ⟨.signUp, by simp [hs], trivial⟩
      simp only [Device.signUpClick]
      split_ifs
      · exact h
      · exact h.same rfl rfl rfl rfl rfl fun _ => .inr hmaster
      · exact h
    · cases hact
  | createUser i ok =>
    obtain ⟨p, hp, -, ⟨-, -, rfl⟩ | ⟨-, rfl⟩⟩ := act_createUser hact
    all_goals
      refine h.same rfl rfl rfl rfl rfl fun _ => .inl ?_
      rintro hnil
      simp [hnil] at hp
  | signUpComplete i =>
    obtain ⟨p, hp, hcases⟩ := act_signUpComplete_cases hact
    have hsome : dev.signUps ≠ [] := by
      rintro hnil
      simp [hnil] at hp
    have hauth : ∀ m, m.mUser = dev.userManager.mUser → m.userList = dev.userManager.userList →
        ({ dev with userManager := m, signUps := dev.signUps.eraseIdx i } : Device).Confined us :=
      fun m hu hl => h.keep rfl hu
        (fun hi => ⟨hl.trans hi.userList, hu.trans hi.mUser, hi.answers, hi.requests, hi.signIns⟩)
        fun _ => .inl hsome
    rcases hcases with ⟨-, rfl, -⟩ | ⟨-, ⟨-, hact⟩ | ⟨-, rfl, -⟩⟩
    · exact hauth _ rfl rfl
    · unfold Device.signUpComplete at hact
      split at hact <;> cases hact
      · exact (hauth { dev.userManager with auth := some (address p.email) } rfl rfl).crash
      · exact hauth _ rfl rfl
    · exact hauth _ rfl rfl
  | signOut =>
    have hstack := h.stack
    simp only [act] at hact
    split at hact
    · rename_i m rest hs
      rw [hs] at hstack
      cases hstack
      cases hact
      exact h.detach.login rfl (fun u hu => by cases hu) id
    · rename_i user rest hs
      rw [hs] at hstack
      cases hstack
      cases hact
      exact h.detach.login rfl (fun u hu => by cases hu) id
    · cases hact
  | itemClick position =>
    simp only [act] at hact
    split at hact
    · rename_i m rest hs
      split at hact <;> cases hact
      exact h.fromMaster hs (.inl rfl) rfl rfl rfl
    · cases hact
  | showStatus =>
    simp only [act] at hact
    split at hact
    · rename_i user rows row rest hs
      cases hact
      exact h.fromMaster hs (.inr (.inr ⟨_, rfl⟩)) rfl rfl rfl
    · cases hact
  | callConfirm =>
    simp only [act] at hact
    split at hact
    · rename_i user rows row rest hs
      split at hact <;> cases hact
      · exact h.crash
      · exact h.fromMaster hs (.inl rfl) rfl rfl rfl
    · cases hact
  | removeConfirm =>
    simp only [act] at hact
    split at hact
    · rename_i user rows row rest hs
      cases hact
      exact h.fromMaster hs (.inl rfl) rfl rfl rfl
    · cases hact
  | recreate => exact absurd rfl hre
  | kill =>
    cases hact
    exact h.exit (.inl rfl)
  | tokenRefresh token =>
    cases hact
    exact h.same rfl rfl rfl rfl rfl .inl

theorem Confined.act (h : dev.Confined us)
    (hact : dev.act address server a = some (dev', remote)) :
    dev'.Confined (us ++ (dev.opens address a).toList) := by
  by_cases hsign : ∃ i ok, a = .signInComplete i ok
  · obtain ⟨i, ok, rfl⟩ := hsign
    exact h.signInComplete hact
  · by_cases hre : a = .recreate
    · subst hre
      exact h.recreate hact
    · exact (h.local hact (fun i ok ha => hsign ⟨i, ok, ha⟩) hre).mono (List.subset_append_left _ _)

/-- Whose screen an event opens: the cached user's, or that of the listed user with the address that
a login has just signed in with. -/
theorem Confined.opens_cases (h : dev.Confined us) {u : User}
    (ho : dev.opens address a = some u) :
    dev.userManager.mUser = some u ∨ u ∈ dev.userManager.userList ∧
      ∃ x, dev.signedIn address a = some x ∧ u.email = some x := by
  obtain ⟨m, hc, hm⟩ := Option.bind_eq_some_iff.1 ho
  cases hu : m.currentUser with
  | error x => simp [hu] at hm
  | ok r =>
    obtain ⟨v, m'⟩ := r
    simp only [hu, Option.some.injEq] at hm
    obtain rfl := hm
    have hfound := (UserManager.currentUser_eq_ok hu).2
    unfold creates at hc
    split at hc
    · split at hc
      · rename_i i _ _ email rest hp hs
        cases hc
        refine hfound.imp_right ?_
        rintro ⟨-, hmem, x, hx, hemail⟩
        refine ⟨hmem, x, ?_, hemail⟩
        simpa [signedIn, hp] using hx
      · cases hc
    · -- a screen created anew is that of a living process, or finds no user
      have hstack := h.stack
      have hidle : dev.Idle → ∀ v m, dev.userManager.currentUser ≠ .ok (v, m) := fun hi v m hv => by
        simp [hi.currentUser] at hv
      split at hc
      · rename_i hs
        cases hc
        rw [hs] at hstack
        cases hstack with
        | master md hcached hr =>
          exact .inl (hfound.elim id fun hnone => by simp [hcached] at hnone)
      · rename_i rest hs
        cases hc
        exact absurd hu (hidle (h.idle ⟨.savedMaster, by simp [hs], trivial⟩) _ _)
      · rename_i hs
        cases hc
        rw [hs] at hstack
        cases hstack with
        | slave user hcached hr =>
          exact .inl (hfound.elim id fun hnone => by simp [hcached] at hnone)
      · rename_i rest hs
        cases hc
        exact absurd hu (hidle (h.idle ⟨.savedSlave, by simp [hs], trivial⟩) _ _)
      · cases hc
    · cases hc

end Device

end DollMachine
