import DollMachine.Users.Tree

/-!
# `UserManager`

The static fields `mUser` and `userList` of `UserManager`, with the account that `FirebaseAuth`
holds for the process.  A method that Java can leave by an exception returns `Except JavaException`.

An account is known to the authentication service by an address; `FirebaseUser.getEmail()` returns
that address, and the records of the `user` tree carry the text typed at sign-up.
-/

namespace DollMachine

/-- The exceptions the modelled methods can throw; nothing catches them. -/
inductive JavaException
  | nullPointer
  | numberFormat
deriving DecidableEq

/-- The static state of `UserManager` and the signed-in account. -/
structure UserManager where
  mUser : Option User
  userList : List User
  auth : Option String
deriving DecidableEq

/-- `getUserData(String)`: the first user with the given email.  The email of each user on the way
is dereferenced. -/
def findByEmail (email : String) : List User → Except JavaException (Option User)
  | [] => .ok none
  | u :: us =>
    match u.email with
    | none => .error .nullPointer
    | some e => if e = email then .ok (some u) else findByEmail email us

/-- `getUserData(int)`: the first user with the given machine number. -/
def findByMachineNum (machineNum : Int) : List User → Option User
  | [] => none
  | u :: us => if u.machineNum = machineNum then some u else findByMachineNum machineNum us

/-- No user before the first one with the email `email` lacks an email. -/
def ReadableUpTo (email : String) : List User → Prop
  | [] => True
  | u :: us => u.email = some email ∨ (u.email ≠ none ∧ ReadableUpTo email us)

theorem readableUpTo_of_forall {email : String} {us : List User} (h : ∀ u ∈ us, u.email ≠ none) :
    ReadableUpTo email us := by
  induction us with
  | nil => trivial
  | cons u us ih =>
    exact .inr ⟨h u List.mem_cons_self, ih fun v hv => h v (List.mem_cons_of_mem _ hv)⟩

theorem findByEmail_eq_some {email : String} {us : List User} {u : User}
    (h : findByEmail email us = .ok (some u)) : u ∈ us ∧ u.email = some email := by
  induction us with
  | nil => simp [findByEmail] at h
  | cons v us ih =>
    simp only [findByEmail] at h
    cases hv : v.email with
    | none => simp [hv] at h
    | some e =>
      simp only [hv] at h
      split_ifs at h with he
      · obtain rfl : v = u := by simpa using h
        exact ⟨List.mem_cons_self, by rw [hv, he]⟩
      · obtain ⟨hu, hem⟩ := ih h
        exact ⟨List.mem_cons_of_mem _ hu, hem⟩

/-- The lookup by email finds a user exactly when one is listed and can be reached. -/
theorem findByEmail_isSome_iff {email : String} {us : List User} :
    (∃ u, findByEmail email us = .ok (some u)) ↔
      (∃ u ∈ us, u.email = some email) ∧ ReadableUpTo email us := by
  induction us with
  | nil => simp [findByEmail]
  | cons v us ih =>
    cases hv : v.email with
    | none => simp [findByEmail, hv, ReadableUpTo]
    | some e =>
      by_cases he : e = email
      · simp [findByEmail, hv, ReadableUpTo, he]
      · simp [findByEmail, hv, ReadableUpTo, he, ih]

/-- The lookup by email throws nothing when every listed user has an email. -/
theorem findByEmail_ne_error {email : String} {us : List User} (h : ∀ u ∈ us, u.email ≠ none)
    (x : JavaException) : findByEmail email us ≠ .error x := by
  induction us with
  | nil => simp [findByEmail]
  | cons v us ih =>
    obtain ⟨e, he⟩ := Option.ne_none_iff_exists'.1 (h v List.mem_cons_self)
    simp only [findByEmail, he]
    split_ifs
    · simp
    · exact ih fun u hu => h u (List.mem_cons_of_mem _ hu)

namespace UserManager

/-- `signOut()`. -/
def signOut (_ : UserManager) : UserManager := ⟨none, [], none⟩

/-- `onDataChange` of the listener that `loadUserList()` registers. -/
def onDataChange (m : UserManager) (dataSnapshot : UserTree) : UserManager :=
  if dataSnapshot.children = [] then { m with userList := [] }
  else { m with userList := dataSnapshot.users }

/-- `getCurrentUser()`, with the state it leaves. -/
def getCurrentUser (m : UserManager) : Except JavaException (Option User × UserManager) :=
  match m.mUser with
  | some u => .ok (some u, m)
  | none =>
    match m.auth with
    | none => .error .nullPointer
    | some email =>
      match findByEmail email m.userList with
      | .error x => .error x
      | .ok u => .ok (u, { m with mUser := u })

/-- The result of `getCurrentUser()` where the caller goes on to dereference it. -/
def currentUser (m : UserManager) : Except JavaException (User × UserManager) :=
  match m.getCurrentUser with
  | .error x => .error x
  | .ok (none, _) => .error .nullPointer
  | .ok (some u, m') => .ok (u, m')

@[simp] theorem onDataChange_userList (m : UserManager) (t : UserTree) :
    (m.onDataChange t).userList = t.users := by
  unfold onDataChange
  split_ifs with h
  · simp [UserTree.users, h]
  · rfl

@[simp] theorem onDataChange_mUser (m : UserManager) (t : UserTree) :
    (m.onDataChange t).mUser = m.mUser := by
  unfold onDataChange
  split_ifs <;> rfl

@[simp] theorem onDataChange_auth (m : UserManager) (t : UserTree) :
    (m.onDataChange t).auth = m.auth := by
  unfold onDataChange
  split_ifs <;> rfl

/-- What a successful lookup returns: the cached user, or else the listed user with the address of
the signed-in account, which is cached from then on. -/
theorem currentUser_eq_ok {m m' : UserManager} {u : User} (h : m.currentUser = .ok (u, m')) :
    m' = { m with mUser := some u } ∧
      (m.mUser = some u ∨
        m.mUser = none ∧ u ∈ m.userList ∧ ∃ email, m.auth = some email ∧ u.email = some email) := by
  unfold currentUser getCurrentUser at h
  cases hm : m.mUser with
  | some v =>
    simp only [hm, Except.ok.injEq, Prod.mk.injEq] at h
    obtain ⟨rfl, rfl⟩ := h
    exact ⟨by rw [← hm], .inl rfl⟩
  | none =>
    cases ha : m.auth with
    | none => simp [hm, ha] at h
    | some email =>
      cases hf : findByEmail email m.userList with
      | error x => simp [hm, ha, hf] at h
      | ok r =>
        cases r with
        | none => simp [hm, ha, hf] at h
        | some v =>
          simp only [hm, ha, hf, Except.ok.injEq, Prod.mk.injEq] at h
          obtain ⟨rfl, rfl⟩ := h
          obtain ⟨hmem, hemail⟩ := findByEmail_eq_some hf
          exact ⟨by simp, .inr ⟨rfl, hmem, email, rfl, hemail⟩⟩

theorem currentUser_of_mUser {m : UserManager} {u : User} (h : m.mUser = some u) :
    m.currentUser = .ok (u, m) := by
  simp [currentUser, getCurrentUser, h]

/-- The current user is known exactly when it is cached, or the signed-in account is listed and can
be reached. -/
theorem currentUser_isOk_iff {m : UserManager} :
    (∃ u m', m.currentUser = .ok (u, m')) ↔
      m.mUser ≠ none ∨
        ∃ email, m.auth = some email ∧ (∃ u ∈ m.userList, u.email = some email) ∧
          ReadableUpTo email m.userList := by
  cases hm : m.mUser with
  | some v => simp [currentUser_of_mUser hm]
  | none =>
    cases ha : m.auth with
    | none => simp [currentUser, getCurrentUser, hm, ha]
    | some email =>
      simp only [ne_eq, not_true_eq_false, Option.some.injEq, exists_eq_left', false_or,
        ← findByEmail_isSome_iff]
      cases hf : findByEmail email m.userList with
      | error x => simp [currentUser, getCurrentUser, hm, ha, hf]
      | ok r => cases r <;> simp [currentUser, getCurrentUser, hm, ha, hf]

end UserManager

end DollMachine
