import DollMachine.Users.World

/-!
# Where the current user is dereferenced

`LoginActivity.onComplete`, `MasterActivity`, `SlaveActivity` and the reload of the latter use the
result of `getCurrentUser()` without a check.  A login click starts two requests, for the user list
and for the session, and uses the first in the answer to the second; an activity that Android
creates anew in a new process reads an empty list.

`current_user_known_iff` says that for an account that has a record in the database all along, such
a use finds the user exactly when the user is cached or the list is loaded, and `current_user_fails`
that both kinds of use go wrong otherwise.
-/

namespace DollMachine

open Transition

/-- The states of `UserManager` in which an event dereferences the result of `getCurrentUser()`: the
login in `onComplete`, the new activity in its field initialiser, the reload of `SlaveActivity`. -/
def Device.uses (address : String → String) (dev : Device) (a : Act) : List UserManager :=
  match a, dev.creates address a with
  | .signInComplete _ _, some m =>
    match m.currentUser with
    | .error _ => [m]
    | .ok (_, m') => [m, m']
  | _, some m => [m]
  | .reloadClick, none =>
    match dev.screens with
    | .slave _ :: _ => [dev.userManager]
    | _ => []
  | _, none => []

/-- The user is cached, or the list is loaded and can be read up to the account's record. -/
def UserManager.Knows (email : String) (m : UserManager) : Prop :=
  m.mUser ≠ none ∨ m.userList ≠ [] ∧ ReadableUpTo email m.userList

variable {address : String → String} {dev : Device} {a : Act} {m : UserManager}

theorem Device.creates_userList (h : dev.creates address a = some m) :
    m.userList = dev.userManager.userList := by
  unfold creates at h
  split at h
  · split at h <;> cases h
    rfl
  · split at h <;> cases h <;> rfl
  · cases h

theorem Device.uses_userList (h : m ∈ dev.uses address a) :
    m.userList = dev.userManager.userList := by
  unfold uses at h
  split at h
  · rename_i m₀ hc
    have hm₀ := creates_userList hc
    split at h
    · obtain rfl := List.mem_singleton.1 h
      exact hm₀
    · rename_i u m' hu
      simp only [List.mem_cons, List.not_mem_nil, or_false] at h
      rcases h with rfl | rfl
      · exact hm₀
      · rw [(UserManager.currentUser_eq_ok hu).1]
        exact hm₀
  · rename_i m₀ _ hc
    obtain rfl := List.mem_singleton.1 h
    exact creates_userList hc
  · split at h
    · obtain rfl := List.mem_singleton.1 h
      rfl
    · cases h
  · cases h

/-- Where every loaded list holds the account's record, the lookup succeeds exactly when the user is
cached or the list is loaded. -/
theorem UserManager.currentUser_iff_knows {email : String} (ha : m.auth = some email)
    (hl : m.userList = [] ∨ ∃ u ∈ m.userList, u.email = some email) :
    (∃ u m', m.currentUser = .ok (u, m')) ↔ m.Knows email := by
  rw [currentUser_isOk_iff, Knows]
  simp only [ha, Option.some.injEq, exists_eq_left']
  refine or_congr_right (and_congr_left fun _ => ?_)
  rcases hl with hl | hl
  · simp [hl]
  · obtain ⟨u, hu, hemail⟩ := hl
    exact iff_of_true ⟨u, hu, hemail⟩ (List.ne_nil_of_mem hu)

namespace World

variable {D : Type*} [DecidableEq D] {s t : World D} {tr : List (Step (World D) (D × Act))}

/-- For an account whose record stays in the database, the current user is known wherever it is
dereferenced in the account's session if and only if it is cached by then, or the list has been
loaded and no record without an email stands before the account's. -/
theorem current_user_known_iff (hs : s.Fresh) (run : Run (next address) s tr t) (email : String)
    (hrecord : ∀ T ∈ s.trees tr, ∃ u ∈ T.users, u.email = some email) :
    (∀ x ∈ tr, ∀ m ∈ (x.before.device x.event.1).uses address x.event.2, m.auth = some email →
        ∃ u m', m.currentUser = .ok (u, m')) ↔
      ∀ x ∈ tr, ∀ m ∈ (x.before.device x.event.1).uses address x.event.2, m.auth = some email →
        m.Knows email := by
  refine forall₂_congr fun x hx => forall₃_congr fun m hm ha =>
    UserManager.currentUser_iff_knows ha ?_
  obtain ⟨pre, post, rfl, hpre, -⟩ := run.at_step hx
  rw [Device.uses_userList hm]
  refine (sourced_of_run hs hpre x.event.1).userList.imp_right ?_
  rintro ⟨T, hT, hl⟩
  rw [hl]
  refine hrecord T ?_
  simp only [trees, List.map_append, List.mem_cons, List.mem_append] at hT ⊢
  tauto

/-- The owner's list arrives before the answer to the sign-in. -/
theorem current_user_known_owner : ∃ tr t,
    Run (next id) (start sampleServer fun _ : Unit => none) tr t ∧
      (∀ x ∈ tr, ∀ m ∈ (x.before.device x.event.1).uses id x.event.2, m.auth = some "owner" →
        ∃ u m', m.currentUser = .ok (u, m')) ∧
      ∃ x ∈ tr, ∃ m ∈ (x.before.device x.event.1).uses id x.event.2, m.auth = some "owner" := by
  obtain ⟨tr, t, run, hp⟩ := exists_run_of_exec (next id) (start sampleServer fun _ : Unit => none)
    (loginEvents () "owner" ++ [((), Act.recreate)])
    (fun r => decide (
      (∀ T ∈ trees (start sampleServer fun _ : Unit => none) r.1,
        ∃ u ∈ T.users, u.email = some "owner") ∧
      (∀ x ∈ r.1, ∀ m ∈ (x.before.device x.event.1).uses id x.event.2, m.auth = some "owner" →
        m.mUser ≠ none ∨ m.userList ≠ [] ∧ ∀ u ∈ m.userList, u.email ≠ none) ∧
      ∃ x ∈ r.1, ∃ m ∈ (x.before.device x.event.1).uses id x.event.2, m.auth = some "owner"))
    (by decide)
  obtain ⟨hrecord, hknows, hused⟩ := of_decide_eq_true hp
  refine ⟨tr, t, run,
    (current_user_known_iff (fresh_start _ _) run "owner" hrecord).2 fun x hx m hm ha => ?_, hused⟩
  exact (hknows x hx m hm ha).imp_right fun h => ⟨h.1, readableUpTo_of_forall h.2⟩

/-- The owner has a complete record throughout.  Once the answer to the sign-in arrives before that
to the request for the list, and once the process dies under `SlaveActivity` and Android creates the
activity anew, the result that is dereferenced is null. -/
theorem current_user_fails : ∃ tr t,
    Run (next id) (start sampleServer fun _ : Unit => none) tr t ∧
      (∀ T ∈ trees (start sampleServer fun _ : Unit => none) tr,
        T.node 2 = .ofUser ⟨1, 2, some "0922", none, some "owner"⟩) ∧
      (∃ x ∈ tr, x.event = ((), .signInComplete 0 true) ∧
        ∃ m ∈ (x.before.device ()).uses id (.signInComplete 0 true), m.auth = some "owner" ∧
          m.currentUser = .error .nullPointer) ∧
      ∃ x ∈ tr, x.event = ((), .recreate) ∧
        ∃ m ∈ (x.before.device ()).uses id .recreate, m.auth = some "owner" ∧
          m.currentUser = .error .nullPointer := by
  obtain ⟨tr, t, run, hp⟩ := exists_run_of_exec (next id) (start sampleServer fun _ : Unit => none)
    ([((), Act.launch), ((), .loginClick "owner" "pwd"), ((), .signInComplete 0 true)] ++
      loginEvents () "owner" ++ [((), Act.kill), ((), .recreate)])
    (fun r => decide (
      (∀ T ∈ trees (start sampleServer fun _ : Unit => none) r.1,
        T.node 2 = .ofUser ⟨1, 2, some "0922", none, some "owner"⟩) ∧
      (∃ x ∈ r.1, x.event = ((), .signInComplete 0 true) ∧
        ∃ m ∈ (x.before.device ()).uses id (.signInComplete 0 true), m.auth = some "owner" ∧
          m.currentUser = .error .nullPointer) ∧
      ∃ x ∈ r.1, x.event = ((), .recreate) ∧
        ∃ m ∈ (x.before.device ()).uses id .recreate, m.auth = some "owner" ∧
          m.currentUser = .error .nullPointer)) (by decide)
  exact ⟨tr, t, run, of_decide_eq_true hp⟩

end World

end DollMachine
