import DollMachine.Users.Device

/-!
# What one event can do

`act_effect` says once what an event can do to the data of a phone and which writes it can cause;
every invariant is derived from it and none unfolds `Device.act` again.
-/

namespace DollMachine

/-- The user whose `MasterActivity` or `SlaveActivity` a screen is. -/
def Screen.user? : Screen → Option User
  | .master m => some m.user
  | .slave user => some user
  | _ => none

/-- The address of the account that an event makes the current one. -/
def Device.session (address : String → String) (dev : Device) : Act → Option String
  | .signInComplete i true => dev.signIns[i]?.map fun p => address p.email
  | .signUpComplete i =>
    dev.signUps[i]?.bind fun p => if p.created = some true then some (address p.email) else none
  | _ => none

/-- The state of `UserManager` in which an event creates a `MasterActivity` or `SlaveActivity`. -/
def Device.creates (address : String → String) (dev : Device) : Act → Option UserManager
  | .signInComplete i true =>
    match dev.signIns[i]?, dev.screens with
    | some ⟨email, true⟩, .login :: _ =>
      some { dev.userManager with auth := some (address email) }
    | _, _ => none
  | .recreate =>
    match dev.screens with
    | .master _ :: _ | .savedMaster :: _ | .slave _ :: _ | .savedSlave :: _ => some dev.userManager
    | _ => none
  | _ => none

/-- The user whose `MasterActivity` or `SlaveActivity` an event opens. -/
def Device.opens (address : String → String) (dev : Device) (a : Act) : Option User :=
  (dev.creates address a).bind fun m =>
    match m.currentUser with
    | .ok (u, _) => some u
    | .error _ => none

/-- The record that an event writes: the completion of a sign-up whose account is made, while its
activity is there to hear of it and the text of the machine number can be converted. -/
def Device.written (dev : Device) : Act → Option User
  | .signUpComplete i =>
    match dev.signUps[i]?, dev.screens with
    | some ⟨email, phone, machineNum, true, some true⟩, .signUp :: _ =>
      match parseInt machineNum with
      | .ok n => some ⟨1, n, some phone, none, some email⟩
      | .error _ => none
    | _, _ => none
  | _ => none

/-- Whether the process of a phone ends with an event: it is killed, or a callback throws. -/
def Device.dies (address : String → String) (dev : Device) (a : Act) : Bool :=
  (dev.creates address a).any (fun m => m.currentUser.toOption.isNone) ||
    match a with
    | .kill => true
    | .reloadClick =>
      match dev.screens with
      | .slave _ :: _ => dev.userManager.currentUser.toOption.isNone
      | _ => false
    | .callConfirm =>
      match dev.screens with
      | .master ⟨_, _, some row⟩ :: _ => (dev.phoneToCall row).toOption.isNone
      | _ => false
    | .signUpComplete i =>
      match dev.signUps[i]?, dev.screens with
      | some ⟨_, _, machineNum, true, some true⟩, .signUp :: _ =>
        (parseInt machineNum).toOption.isNone
      | _, _ => false
    | _ => false

/-- How an event can change the user data of a phone: `answers` are the snapshots on their way, and
`session` is the account that the event makes the current one. -/
inductive UserManager.Change (answers : List UserTree) (session : Option String)
    (m : UserManager) : UserManager → Prop
  | keep : Change answers session m m
  | load (t : UserTree) (h : t ∈ answers) : Change answers session m (m.onDataChange t)
  | reset (auth : Option String) : Change answers session m ⟨none, [], auth⟩
  | session (address : String) (h : session = some address) :
      Change answers session m { m with auth := some address }
  | lookup (u : User) (m' : UserManager)
      (h : UserManager.currentUser { m with auth := session.or m.auth } = .ok (u, m')) :
      Change answers session m m'

/-- How an event can change the list of sign-ups under way. -/
inductive SignUp.Change (address : String → String) (dev : Device) (a : Act) : List SignUp → Prop
  | keep : Change address dev a dev.signUps
  | detach : Change address dev a (dev.signUps.map fun p => { p with attached := false })
  | clear (hd : dev.dies address a = true) : Change address dev a []
  | request (email phone machineNum : String) (ha : a = .signUpClick email phone machineNum)
      (he : trim email ≠ "") (hp : trim phone ≠ "")
      (free : dev.machineNumFree (trim machineNum) = true) :
      Change address dev a (dev.signUps ++ [⟨trim email, trim phone, trim machineNum, true, none⟩])
  | answer (i : Nat) (p : SignUp) (ok : Bool) (ha : ∃ ok', a = .createUser i ok')
      (hp : dev.signUps[i]? = some p) (hc : p.created = none) :
      Change address dev a (dev.signUps.set i { p with created := some ok })
  | complete (i : Nat) (ha : a = .signUpComplete i) :
      Change address dev a (dev.signUps.eraseIdx i)

/-- What makes a service do something. -/
inductive Cause (address : String → String) (server : Server) (dev dev' : Device) :
    Act → Remote → Prop
  | createUser (i : Nat) (p : SignUp) (hp : dev.signUps[i]? = some p) (hc : p.created = none)
      (new : address p.email ∉ server.accounts) :
      Cause address server dev dev' (.createUser i true) (.createAccount (address p.email))
  | signUp (i : Nat) (p : SignUp) (n : Int) (hp : dev.signUps[i]? = some p)
      (ha : p.attached = true) (hc : p.created = some true) (hn : parseInt p.machineNum = .ok n)
      (hs : dev'.signUps = dev.signUps.eraseIdx i) :
      Cause address server dev dev' (.signUpComplete i)
        (.updateUserData ⟨1, n, some p.phone, none, some p.email⟩)
  | opened (a : Act) (u : User) (ho : dev.opens address a = some u)
      (hu : dev'.screens.head?.bind Screen.user? = some u) :
      Cause address server dev dev' a (.updateToken u.machineNum dev.token)
  | removed (m : Master) (rest : List Screen) (row : Row) (hs : dev.screens = .master m :: rest)
      (hrow : m.dialog = some row) :
      Cause address server dev dev' .removeConfirm (.removeUserData row.machineNum)

/-- What an event can do to the user data of a phone and at the services. -/
structure Effect (address : String → String) (server : Server) (dev : Device) (a : Act)
    (dev' : Device) (remote : Option Remote) : Prop where
  manager : dev.userManager.Change dev.answers (dev.session address a) dev'.userManager
  answers : ∀ t ∈ dev'.answers, t ∈ dev.answers ∨ t = server.user
  signUps : SignUp.Change address dev a dev'.signUps
  cause : ∀ r, remote = some r → Cause address server dev dev' a r
  opened : ∀ u, dev.opens address a = some u → remote = some (.updateToken u.machineNum dev.token)

namespace Device

variable {address : String → String} {server : Server} {dev dev' : Device} {a : Act}
  {remote : Option Remote}

theorem session_signIn {i : Nat} {p : SignIn} (hp : dev.signIns[i]? = some p) :
    dev.session address (.signInComplete i true) = some (address p.email) := by
  simp [session, hp]

theorem session_signUp {i : Nat} {p : SignUp} (hp : dev.signUps[i]? = some p)
    (hc : p.created = some true) :
    dev.session address (.signUpComplete i) = some (address p.email) := by
  simp [session, hp, hc]

theorem opens_of_ok {m m' : UserManager} {u : User} (hc : dev.creates address a = some m)
    (hu : m.currentUser = .ok (u, m')) : dev.opens address a = some u := by
  simp [opens, hc, hu]

theorem opens_of_error {m : UserManager} {x : JavaException}
    (hc : dev.creates address a = some m) (hu : m.currentUser = .error x) :
    dev.opens address a = none := by
  simp [opens, hc, hu]

theorem dies_of_error {m : UserManager} {x : JavaException}
    (hc : dev.creates address a = some m) (hu : m.currentUser = .error x) :
    dev.dies address a = true := by
  simp [dies, hc, hu, Except.toOption]

/-- An event that touches none of the user data. -/
theorem effect_of_same (ho : dev.opens address a = none)
    (hm : dev'.userManager = dev.userManager) (ha : dev'.answers = dev.answers)
    (hs : dev'.signUps = dev.signUps ∨ dev'.signUps = dev.detach.signUps) :
    Effect address server dev a dev' none where
  manager := hm ▸ .keep
  answers t ht := .inl (ha ▸ ht)
  signUps := by
    rcases hs with hs | hs <;> rw [hs]
    · exact .keep
    · exact .detach
  cause r hr := by cases hr
  opened u hu := by simp [ho] at hu

/-- The end of the process, whatever changed before it. -/
theorem effect_exit {src : Device} {screens : List Screen} (ho : dev.opens address a = none)
    (hd : dev.dies address a = true) : Effect address server dev a (src.exit screens) none where
  manager := .reset _
  answers t ht := by cases ht
  signUps := .clear hd
  cause r hr := by cases hr
  opened u hu := by simp [ho] at hu

/-- Opening a home screen for the user `u` that the lookup in the state `m` finds. -/
theorem effect_opened {m m' : UserManager} {u : User} (hc : dev.creates address a = some m)
    (hu : m.currentUser = .ok (u, m'))
    (hm : m = { dev.userManager with auth := (dev.session address a).or dev.userManager.auth })
    (hm' : dev'.userManager = m') (ha : dev'.answers = dev.answers)
    (hs : SignUp.Change address dev a dev'.signUps)
    (htop : dev'.screens.head?.bind Screen.user? = some u) :
    Effect address server dev a dev' (some (.updateToken u.machineNum dev.token)) := by
  have ho : dev.opens address a = some u := opens_of_ok hc hu
  refine ⟨hm' ▸ .lookup u m' (hm ▸ hu), fun t ht => .inl (ha ▸ ht), hs, ?_, fun v hv => ?_⟩
  · rintro r ⟨⟩
    exact .opened a u ho htop
  · rw [ho] at hv
    obtain rfl := Option.some.inj hv
    rfl

/-- `onCreate` on the phone `src`, which may differ from the phone before the event by its session
and by the requests under way. -/
theorem effect_onCreate {src : Device} {home : Home} {rest : List Screen}
    (h : src.onCreate home rest = (dev', remote))
    (hc : dev.creates address a = some src.userManager)
    (hm : src.userManager =
      { dev.userManager with auth := (dev.session address a).or dev.userManager.auth })
    (ht : src.token = dev.token) (ha : src.answers = dev.answers)
    (hs : SignUp.Change address dev a src.signUps) : Effect address server dev a dev' remote := by
  unfold onCreate at h
  cases hu : src.userManager.currentUser with
  | error x =>
    simp only [hu] at h
    cases h
    exact effect_exit (opens_of_error hc hu) (dies_of_error hc hu)
  | ok r =>
    obtain ⟨u, m⟩ := r
    simp only [hu, ht] at h
    cases h
    refine effect_opened hc hu hm rfl ha hs ?_
    cases home <;> rfl

theorem effect_loginComplete {src : Device} {rest : List Screen}
    (h : src.loginComplete rest = (dev', remote))
    (hc : dev.creates address a = some src.userManager)
    (hm : src.userManager =
      { dev.userManager with auth := (dev.session address a).or dev.userManager.auth })
    (ht : src.token = dev.token) (ha : src.answers = dev.answers)
    (hs : src.signUps = dev.signUps) : Effect address server dev a dev' remote := by
  unfold loginComplete at h
  cases hu : src.userManager.currentUser with
  | error x =>
    simp only [hu] at h
    cases h
    exact effect_exit (opens_of_error hc hu) (dies_of_error hc hu)
  | ok r =>
    obtain ⟨u, m⟩ := r
    have hmu := (UserManager.currentUser_eq_ok hu).1
    -- `onCreate` looks the user up a second time, and finds it cached
    have hagain : m.currentUser = .ok (u, m) := UserManager.currentUser_of_mUser (by rw [hmu])
    simp only [hu, onCreate, detach, hagain, ht] at h
    cases h
    refine effect_opened hc hu hm rfl ha ?_ ?_
    · rw [hs]
      exact .detach
    · split_ifs <;> rfl

theorem effect_signUpComplete {i : Nat} {p : SignUp} {src : Device} {rest : List Screen}
    (h : src.signUpComplete p = (dev', remote))
    (hp : dev.signUps[i]? = some p) (hat : p.attached = true) (hc : p.created = some true)
    (hsign : dev.screens = .signUp :: rest)
    (hm : src.userManager = { dev.userManager with auth := some (address p.email) })
    (ha : src.answers = dev.answers) (hs : src.signUps = dev.signUps.eraseIdx i) :
    Effect address server dev (.signUpComplete i) dev' remote := by
  unfold signUpComplete at h
  cases hn : parseInt p.machineNum with
  | error x =>
    simp only [hn] at h
    cases h
    refine effect_exit rfl ?_
    obtain ⟨email, phone, machineNum, attached, created⟩ := p
    subst hat hc
    simp [dies, creates, hp, hsign, hn, Except.toOption]
  | ok n =>
    simp only [hn] at h
    cases h
    refine ⟨hm ▸ .session _ (session_signUp hp hc), fun t ht => .inl (ha ▸ ht),
      hs ▸ .complete i rfl, ?_, fun u hu => by cases hu⟩
    rintro r ⟨⟩
    exact .signUp i p n hp hat hc hn hs

/-- The service makes the account of a sign-up, which did not exist, or refuses to. -/
theorem act_createUser {i : Nat} {ok : Bool}
    (h : dev.act address server (.createUser i ok) = some (dev', remote)) :
    ∃ p, dev.signUps[i]? = some p ∧ p.created = none ∧
      ((ok = true ∧ address p.email ∉ server.accounts) ∧
          remote = some (.createAccount (address p.email)) ∧
          dev' = { dev with signUps := dev.signUps.set i { p with created := some true } } ∨
        remote = none ∧
          dev' = { dev with signUps := dev.signUps.set i { p with created := some false } }) := by
  simp only [act] at h
  split at h
  · cases h
  · rename_i p hp
    split at h
    · cases h
    · rename_i hc
      refine ⟨p, hp, hc, ?_⟩
      split_ifs at h with hok
      · cases h
        exact .inl ⟨hok, rfl, rfl⟩
      · cases h
        exact .inr ⟨rfl, rfl⟩

/-- The answer to a sign-up is a refusal; or an account, which becomes the current one, and the
listener is called if its activity is there. -/
theorem act_signUpComplete_cases {i : Nat}
    (h : dev.act address server (.signUpComplete i) = some (dev', remote)) :
    ∃ p, dev.signUps[i]? = some p ∧
      let src : Device := { dev with signUps := dev.signUps.eraseIdx i }
      (p.created = some false ∧ dev' = src ∧ remote = none ∨
        p.created = some true ∧
          ((p.attached = true ∧ ∃ rest, dev.screens = .signUp :: rest) ∧
              (src.setAuth (address p.email)).signUpComplete p = (dev', remote) ∨
            ¬ (p.attached = true ∧ ∃ rest, dev.screens = .signUp :: rest) ∧
              dev' = src.setAuth (address p.email) ∧ remote = none)) := by
  simp only [act] at h
  split at h
  · cases h
  · rename_i p hp
    refine ⟨p, hp, ?_⟩
    split at h
    · cases h
    · rename_i hc
      cases h
      exact .inl ⟨hc, rfl, rfl⟩
    · rename_i hc
      refine .inr ⟨hc, ?_⟩
      split at h
      · rename_i hat hsign
        exact .inl ⟨⟨hat, _, hsign⟩, Option.some.inj h⟩
      · rename_i hother
        cases h
        exact .inr ⟨fun ⟨hat, rest, hsign⟩ => hother rest hat hsign, rfl, rfl⟩

/-- An event that writes nothing and opens no home screen. -/
theorem effect_of_local (ho : dev.opens address a = none)
    (hm : dev.userManager.Change dev.answers (dev.session address a) dev'.userManager)
    (ha : ∀ t ∈ dev'.answers, t ∈ dev.answers ∨ t = server.user)
    (hs : SignUp.Change address dev a dev'.signUps) : Effect address server dev a dev' none :=
  ⟨hm, ha, hs, fun r hr => (by cases hr), fun u hu => by simp [ho] at hu⟩

theorem act_effect (h : dev.act address server a = some (dev', remote)) :
    Effect address server dev a dev' remote := by
  cases a with
  | launch =>
    simp only [act] at h
    split at h <;> cases h
    exact effect_of_same rfl rfl rfl (.inl rfl)
  | back =>
    simp only [act] at h
    split at h <;> cases h
    exact effect_of_same rfl rfl rfl (.inr rfl)
  | stop =>
    cases h
    exact effect_of_same rfl rfl rfl (.inr rfl)
  | loginClick email pwd =>
    simp only [act] at h
    split at h
    · split_ifs at h <;> cases h <;> exact effect_of_same rfl rfl rfl (.inl rfl)
    · cases h
  | signInComplete i ok =>
    simp only [act] at h
    split at h
    · cases h
    · rename_i p hp
      split_ifs at h with hok
      · subst hok
        split at h
        · rename_i hat hlogin
          obtain ⟨email, attached⟩ := p
          subst hat
          refine effect_loginComplete (Option.some.inj h) ?_ ?_ rfl rfl rfl
          · simp only [creates, hp]
            rw [show dev.screens = _ from hlogin]
            rfl
          · rw [session_signIn hp]
            rfl
        · rename_i hother
          cases h
          refine effect_of_local ?_ (.session _ (session_signIn hp)) (fun t ht => .inl ht) .keep
          -- the listener of a login whose activity is gone opens nothing
          have hc : dev.creates address (.signInComplete i true) = none := by
            simp only [creates, hp]
            split
            · rename_i hp' hlogin
              obtain rfl := Option.some.inj hp'
              exact absurd hlogin (hother _ rfl)
            · rfl
          simp [opens, hc]
      · cases h
        obtain rfl : ok = false := by simpa using hok
        exact effect_of_same rfl rfl rfl (.inl rfl)
  | answer =>
    simp only [act] at h
    split at h <;> cases h
    refine effect_of_local rfl .keep (fun t ht => ?_) .keep
    simpa using ht
  | onDataChange i =>
    simp only [act] at h
    split at h
    · cases h
    · rename_i snapshot hs
      cases h
      exact effect_of_local rfl (.load _ (List.mem_of_getElem? hs))
        (fun t ht => .inl (List.mem_of_mem_eraseIdx ht)) .keep
  | onCancelled =>
    simp only [act] at h
    split at h <;> cases h
    exact effect_of_same rfl rfl rfl (.inl rfl)
  | reloadClick =>
    simp only [act] at h
    split at h
    · cases h
      exact effect_of_same rfl rfl rfl (.inl rfl)
    · split at h
      · rename_i hs _ x hu
        cases h
        exact effect_exit rfl (by simp [dies, creates, hs, hu, Except.toOption])
      · rename_i r u m hu
        cases h
        exact effect_of_local rfl (.lookup u _ hu) (fun t ht => .inl ht) .keep
    · cases h
  | signUpMenu =>
    simp only [act] at h
    split at h <;> cases h
    exact effect_of_same rfl rfl rfl (.inl rfl)
  | signUpClick email phone machineNum =>
    simp only [act] at h
    split at h <;> cases h
    simp only [Device.signUpClick]
    split_ifs with hempty hfree
    · exact effect_of_same rfl rfl rfl (.inl rfl)
    · obtain ⟨hemail, hphone, -⟩ : trim email ≠ "" ∧ trim phone ≠ "" ∧ trim machineNum ≠ "" := by
        simpa only [not_or] using hempty
      exact effect_of_local rfl .keep (fun t ht => .inl ht)
        (.request email phone machineNum rfl hemail hphone hfree)
    · exact effect_of_same rfl rfl rfl (.inl rfl)
  | createUser i ok =>
    obtain ⟨p, hp, hc, ⟨⟨rfl, hnew⟩, rfl, rfl⟩ | ⟨rfl, rfl⟩⟩ := act_createUser h
    · refine ⟨.keep, fun t ht => .inl ht, .answer i p true ⟨_, rfl⟩ hp hc, ?_,
        fun u hu => by cases hu⟩
      rintro r ⟨⟩
      exact .createUser i p hp hc hnew
    · exact effect_of_local rfl .keep (fun t ht => .inl ht) (.answer i p false ⟨ok, rfl⟩ hp hc)
  | signUpComplete i =>
    obtain ⟨p, hp, ⟨-, rfl, rfl⟩ | ⟨hc, ⟨⟨hat, rest, hsign⟩, h⟩ | ⟨-, rfl, rfl⟩⟩⟩ :=
      act_signUpComplete_cases h
    · exact effect_of_local rfl .keep (fun t ht => .inl ht) (.complete i rfl)
    · exact effect_signUpComplete h hp hat hc hsign rfl rfl rfl
    · exact effect_of_local rfl (.session _ (session_signUp hp hc)) (fun t ht => .inl ht)
        (.complete i rfl)
  | signOut =>
    simp only [act] at h
    split at h
    · cases h
      exact effect_of_local rfl (.reset _) (fun t ht => .inl ht) .detach
    · cases h
      exact effect_of_local rfl (.reset _) (fun t ht => .inl ht) .detach
    · cases h
  | itemClick position =>
    simp only [act] at h
    split at h
    · split at h <;> cases h
      exact effect_of_same rfl rfl rfl (.inl rfl)
    · cases h
  | showStatus =>
    simp only [act] at h
    split at h <;> cases h
    exact effect_of_same rfl rfl rfl (.inl rfl)
  | callConfirm =>
    simp only [act] at h
    split at h
    · rename_i hs
      split at h
      · rename_i hcall
        cases h
        exact effect_exit rfl (by simp [dies, creates, hs, hcall, Except.toOption])
      · cases h
        exact effect_of_same rfl rfl rfl (.inl rfl)
    · cases h
  | removeConfirm =>
    simp only [act] at h
    split at h
    · rename_i hs
      cases h
      refine ⟨.keep, fun t ht => .inl ht, .keep, ?_, fun u hu => by cases hu⟩
      rintro r ⟨⟩
      exact .removed _ _ _ hs rfl
    · cases h
  | recreate =>
    simp only [act] at h
    split at h
    · rename_i hs
      exact effect_onCreate (Option.some.inj h) (by rw [creates, hs]; rfl) rfl rfl rfl .detach
    · rename_i hs
      exact effect_onCreate (Option.some.inj h) (by rw [creates, hs]; rfl) rfl rfl rfl .detach
    · rename_i hs
      exact effect_onCreate (Option.some.inj h) (by rw [creates, hs]; rfl) rfl rfl rfl .detach
    · rename_i hs
      exact effect_onCreate (Option.some.inj h) (by rw [creates, hs]; rfl) rfl rfl rfl .detach
    · cases h
      refine effect_of_same ?_ rfl rfl (.inr rfl)
      have hc : dev.creates address .recreate = none := by
        simp only [creates]
      simp [opens, hc]
  | kill =>
    cases h
    exact effect_exit rfl rfl
  | tokenRefresh token =>
    cases h
    exact effect_of_same rfl rfl rfl (.inl rfl)

/-- The completion of a sign-up writes the record that `written` says, or nothing. -/
theorem act_signUpComplete {i : Nat}
    (h : dev.act address server (.signUpComplete i) = some (dev', remote)) :
    remote = (dev.written (.signUpComplete i)).map .updateUserData := by
  obtain ⟨⟨email, phone, machineNum, attached, created⟩, hp, hcases⟩ := act_signUpComplete_cases h
  simp only [written, hp]
  rcases hcases with ⟨rfl, -, rfl⟩ | ⟨rfl, ⟨⟨rfl, rest, hsign⟩, h⟩ | ⟨hother, -, rfl⟩⟩
  · cases attached <;> rfl
  · simp only [hsign, signUpComplete] at h ⊢
    cases hn : parseInt machineNum with
    | error x =>
      simp only [hn] at h
      cases h
      rfl
    | ok n =>
      simp only [hn] at h
      cases h
      rfl
  · split
    · rename_i hp' hsign
      simp only [Option.some.injEq, SignUp.mk.injEq] at hp'
      exact absurd ⟨hp'.2.2.2.1, _, hsign⟩ hother
    · rfl

/-- The only events that write a record are completions of sign-ups. -/
theorem act_updateUserData_iff (h : dev.act address server a = some (dev', remote)) {u : User} :
    remote = some (.updateUserData u) ↔ dev.written a = some u := by
  constructor
  · intro hr
    have hcause := (act_effect h).cause _ hr
    cases hcause with
    | signUp i p n hp ha hc hn hs =>
      rw [act_signUpComplete h] at hr
      simpa using hr
  · intro hu
    cases a with
    | signUpComplete i => rw [act_signUpComplete h, hu]; rfl
    | _ => cases hu

end Device

end DollMachine
