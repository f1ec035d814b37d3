import DollMachine.Holdings
import DollMachine.Users.World
import Mathlib.Data.Fintype.Basic

/-!
# Sign-ups and occupied machine numbers

`signUp` looks for the typed text among the cached users, asks for an account, and writes the record
under the number that the text denotes when the account is made.  `Device.pending` lists the numbers
that the sign-ups under way on a phone may still write; the invariant `World.Reserved` says that no
pending number has a node and that no number is pending twice.

`sign_up_no_overwrite`: no sign-up writes over a record in a run where every check finds a number
that is taken (`World.ChecksNumber`), and `sign_up_overwrites` that a leading zero is enough to get
past the check.
-/

namespace DollMachine

open Transition Holdings

/-- The number whose node a sign-up under way may still write. -/
def SignUp.number (p : SignUp) : Option Int :=
  if p.attached = true ∧ p.created ≠ some false then (parseInt p.machineNum).toOption else none

namespace Device

def pending (dev : Device) : List Int := dev.signUps.filterMap SignUp.number

variable {dev dev' : Device} {a : Act} {l : List SignUp} {i : Nat} {p q : SignUp} {n : Int}

/-- A number becomes pending on a phone only by a click on the sign-up button, for a text that the
check lets pass. -/
theorem pending_of_change (h : SignUp.Change address dev a l) :
    (l.filterMap SignUp.number).Subperm dev.pending ∨
      ∃ email phone machineNum n, a = .signUpClick email phone machineNum ∧
        dev.machineNumFree (trim machineNum) = true ∧ parseInt (trim machineNum) = .ok n ∧
        (l.filterMap SignUp.number).Perm (n :: dev.pending) := by
  cases h with
  | keep => exact .inl (.refl _)
  | detach =>
    refine .inl ?_
    rw [List.filterMap_map, List.filterMap_eq_nil_iff.2]
    · exact List.nil_subperm
    · intro p _
      simp [SignUp.number]
  | clear hd => exact .inl List.nil_subperm
  | request email phone machineNum ha he hp free =>
    cases hn : parseInt (trim machineNum) with
    | error x =>
      refine .inl (List.Perm.subperm ?_)
      simp [pending, SignUp.number, hn, Except.toOption]
    | ok n =>
      refine .inr ⟨email, phone, machineNum, n, ha, free, hn, ?_⟩
      simp [pending, SignUp.number, hn, Except.toOption]
  | answer i p ok ha hp hc =>
    refine .inl (filterMap_set_subperm hp ?_)
    cases ok <;> simp [SignUp.number, hc]
  | complete i ha => exact .inl ((List.eraseIdx_sublist _ _).filterMap _).subperm

theorem number_of_created (hat : p.attached = true) (hc : p.created = some true)
    (hn : parseInt p.machineNum = .ok n) : p.number = some n := by
  simp [SignUp.number, hat, hc, hn, Except.toOption]

theorem mem_pending (hp : dev.signUps[i]? = some p) (hn : p.number = some n) : n ∈ dev.pending :=
  List.mem_filterMap.2 ⟨p, List.mem_of_getElem? hp, hn⟩

/-- A completed sign-up releases its number. -/
theorem pending_perm_eraseIdx (hp : dev.signUps[i]? = some p) (hn : p.number = some n)
    (hs : dev'.signUps = dev.signUps.eraseIdx i) : dev.pending.Perm (n :: dev'.pending) := by
  have hperm := filterMap_perm_eraseIdx (f := SignUp.number) hp
  rwa [List.filterMap_cons_some hn, ← hs] at hperm

end Device

namespace UserTree

variable {t : UserTree} {k n : Int}

/-- Writing a token makes no node where there is none, unless it is the node of the token. -/
theorem exists_of_updateToken {token : Option String}
    (h : ((t.updateToken n token).node k).Exists) :
    (t.node k).Exists ∨ n = k ∧ token ≠ none := by
  rw [updateToken, node_put] at h
  split_ifs at h with hn
  · subst hn
    refine or_iff_not_imp_right.2 fun htoken habsent => h ?_
    obtain rfl : token = none := not_not.1 fun hne => htoken ⟨rfl, hne⟩
    rw [habsent]
    rfl
  · exact .inl h

theorem exists_of_updateUserData {u : User} (h : ((t.updateUserData u).node k).Exists) :
    (t.node k).Exists ∨ u.machineNum = k := by
  rw [updateUserData, node_put] at h
  split_ifs at h with hn
  · exact .inr hn
  · exact .inl h

theorem exists_of_removeUserData (h : ((t.removeUserData n).node k).Exists) :
    (t.node k).Exists := by
  rw [removeUserData, node_put] at h
  split_ifs at h with hn
  · exact absurd h UserNode.not_exists_absent
  · exact h

end UserTree

namespace World

variable {D : Type*} [DecidableEq D] {address : String → String} {v w s t : World D}
  {tr : List (Step (World D) (D × Act))} {e : D × Act} {d : D} {a : Act} {n : Int}

def Pending (w : World D) (n : Int) : Prop := ∃ d, n ∈ (w.device d).pending

/-- A machine number has a node, or a sign-up under way for it. -/
def Taken (w : World D) (n : Int) : Prop := (w.server.user.node n).Exists ∨ w.Pending n

instance [Fintype D] (w : World D) (n : Int) : Decidable (w.Pending n) :=
  inferInstanceAs (Decidable (∃ _, _))

instance [Fintype D] (w : World D) (n : Int) : Decidable (w.Taken n) :=
  inferInstanceAs (Decidable (_ ∨ _))

/-- The check of `signUp` finds a number that is taken: it is typed without leading zeros, and a
cached user has it.  And no screen of a user without a node registers a token while a sign-up is
under way for the user's number. -/
def ChecksNumber (address : String → String) (w : World D) (e : D × Act) : Prop :=
  (match e.2 with
    | .signUpClick _ _ machineNum =>
      match parseInt (trim machineNum) with
      | .ok n => w.Taken n → trim machineNum = valueOf n ∧
          ∃ u ∈ (w.device e.1).userManager.userList, u.machineNum = n
      | .error _ => True
    | _ => True) ∧
  ∀ u ∈ (w.device e.1).opens address e.2,
    (w.device e.1).token = none ∨ (w.server.user.node u.machineNum).Exists ∨
      ¬ w.Pending u.machineNum

instance [Fintype D] (address : String → String) (w : World D) (e : D × Act) :
    Decidable (w.ChecksNumber address e) := by
  unfold ChecksNumber
  refine @instDecidableAnd _ _ ?_ inferInstance
  split
  · split <;> infer_instance
  · infer_instance

/-- No pending number has a node, and no number is pending twice. -/
structure Reserved (w : World D) : Prop where
  unwritten : ∀ d, ∀ n ∈ (w.device d).pending, ¬ (w.server.user.node n).Exists
  nodup : ∀ d, (w.device d).pending.Nodup
  apart : ∀ d d', d ≠ d' → ∀ n ∈ (w.device d).pending, n ∉ (w.device d').pending

omit [DecidableEq D] in
theorem Reserved.exclusive (hv : v.Reserved) : Exclusive fun d => (v.device d).pending :=
  ⟨hv.nodup, hv.apart⟩

omit [DecidableEq D] in
theorem Fresh.reserved (hs : s.Fresh) : s.Reserved := by
  have hnil : ∀ d, (s.device d).pending = [] := fun d => by
    obtain ⟨auth, token, hd⟩ := hs d
    rw [hd]
    rfl
  have hexclusive := exclusive_of_nil hnil
  exact ⟨fun d n hn => by simp [hnil d] at hn, hexclusive.nodup, hexclusive.apart⟩

omit [DecidableEq D] in
/-- A click whose check passes is for a number that is not taken. -/
theorem not_taken_of_free {email phone machineNum : String}
    (hC : v.ChecksNumber address (d, .signUpClick email phone machineNum))
    (free : (v.device d).machineNumFree (trim machineNum) = true)
    (hn : parseInt (trim machineNum) = .ok n) : ¬ v.Taken n := by
  intro htaken
  simp only [ChecksNumber, hn] at hC
  obtain ⟨htext, u, hu, rfl⟩ := hC.1 htaken
  simp only [Device.machineNumFree, List.all_eq_true, decide_eq_true_eq] at free
  exact free u hu htext.symm

/-- Under the condition, the pending numbers of a phone only grow by one that is not taken, in a
step that opens no screen. -/
theorem pending_next (hC : v.ChecksNumber address (d, a)) (step : v.next address (d, a) = some w)
    (d' : D) :
    (w.device d').pending.Subperm (v.device d').pending ∨
      d' = d ∧ (v.device d).opens address a = none ∧ v.call address (d, a) = none ∧
        ∃ n, ¬ v.Taken n ∧ (w.device d').pending.Perm (n :: (v.device d').pending) := by
  obtain ⟨he, -, hother⟩ := next_effect step
  by_cases hd : d' = d
  · subst hd
    rcases Device.pending_of_change he.signUps with
      h | ⟨email, phone, machineNum, n, rfl, free, hn, h⟩
    · exact .inl h
    · refine .inr ⟨rfl, rfl, ?_, n, not_taken_of_free hC free hn, h⟩
      exact call_eq_none step fun r hcause => by
        cases hcause with
        | opened _ u ho hu => cases ho
  · rw [hother d' hd]
    exact .inl (.refl _)

theorem mem_pending_next (hC : v.ChecksNumber address (d, a))
    (step : v.next address (d, a) = some w) {d' : D} (hn : n ∈ (w.device d').pending) :
    n ∈ (v.device d').pending ∨ d' = d ∧ ¬ v.Taken n := by
  rcases pending_next hC step d' with h | ⟨rfl, -, -, m, hm, h⟩
  · exact .inl (h.subset hn)
  · rcases List.mem_cons.1 (h.mem_iff.1 hn) with rfl | hn
    · exact .inr ⟨rfl, hm⟩
    · exact .inl hn

/-- Under the condition, a step makes a node only for a number that is not pending afterwards. -/
theorem exists_next (hv : v.Reserved) (hC : v.ChecksNumber address (d, a))
    (step : v.next address (d, a) = some w) (hn : (w.server.user.node n).Exists) :
    (v.server.user.node n).Exists ∨ ¬ w.Pending n := by
  obtain ⟨he, hserver, hother⟩ := next_effect step
  cases hr : v.call address (d, a) with
  | none =>
    rw [server_of_call_none step hr] at hn
    exact .inl hn
  | some r =>
    rw [hserver, hr] at hn
    have hkeep : ∀ d', (w.device d').pending.Subperm (v.device d').pending := fun d' =>
      (pending_next hC step d').elim id fun h => by simp [hr] at h
    have hcause := he.cause r hr
    cases hcause with
    | createUser i p hp hc new => exact .inl hn
    | removed m rest row hs hrow => exact .inl (UserTree.exists_of_removeUserData hn)
    | opened _ u ho hu =>
      refine (UserTree.exists_of_updateToken hn).imp_right ?_
      rintro ⟨rfl, htoken⟩ ⟨d', hd'⟩
      rcases hC.2 u ho with h | h | h
      · exact htoken h
      · exact hv.unwritten d' _ ((hkeep d').subset hd') h
      · exact h ⟨d', (hkeep d').subset hd'⟩
    | signUp i p m hp hat hc hm hs =>
      refine (UserTree.exists_of_updateUserData hn).imp_right ?_
      rintro rfl ⟨d', hd'⟩
      obtain ⟨hself, hrest⟩ := hv.exclusive.release
        (Device.pending_perm_eraseIdx hp (Device.number_of_created hat hc hm) hs)
      by_cases hd : d' = d
      · subst hd
        exact hself hd'
      · exact hrest d' hd ((hkeep d').subset hd')

theorem reserved_next (hv : v.Reserved) (hC : v.ChecksNumber address e)
    (step : v.next address e = some w) : w.Reserved := by
  obtain ⟨d, a⟩ := e
  have hexclusive : Exclusive fun d => (w.device d).pending := by
    rcases pending_next hC step d with h | ⟨-, -, -, n, hn, h⟩
    · refine hv.exclusive.shrink fun d' => ?_
      by_cases hd : d' = d
      · exact hd ▸ h
      · rw [(next_effect step).2.2 d' hd]
    · refine hv.exclusive.take (fun d' hd' => hn (.inr ⟨d', hd'⟩)) h fun d' hd => ?_
      rw [(next_effect step).2.2 d' hd]
  refine ⟨fun d' n hn hexists => ?_, hexclusive.nodup, hexclusive.apart⟩
  rcases exists_next hv hC step hexists with h | h
  · rcases mem_pending_next hC step hn with hn | ⟨-, hn⟩
    · exact hv.unwritten d' n hn h
    · exact hn (.inl h)
  · exact h ⟨d', hn⟩

/-- In a run whose checks find the numbers that are taken, a sign-up writes only where no record is,
and leaves all records as they are. -/
theorem sign_up_no_overwrite (hs : s.Fresh) (run : Run (next address) s tr t)
    (hC : ∀ x ∈ tr, x.before.ChecksNumber address x.event) :
    ∀ x ∈ tr, ∀ u, x.before.call address x.event = some (.updateUserData u) →
      ¬ (x.before.server.user.node u.machineNum).Exists ∧
        ∀ k, (x.before.server.user.node k).Exists →
          x.after.server.user.node k = x.before.server.user.node k := by
  intro x hx u hu
  have hreserved : x.before.Reserved :=
    run.guarded_before (fun _ _ _ hv hC step => reserved_next hv hC step) hs.reserved hC hx
  obtain ⟨pre, post, -, -, step⟩ := run.at_step hx
  obtain ⟨v, ⟨d, a⟩, w⟩ := x
  obtain ⟨he, hserver, -⟩ := next_effect step
  have hfree : ¬ (v.server.user.node u.machineNum).Exists := by
    have hcause := he.cause _ hu
    cases hcause with
    | signUp i p n hp hat hc hn hs =>
      exact hreserved.unwritten d n (Device.mem_pending hp (Device.number_of_created hat hc hn))
  refine ⟨hfree, fun k hk => ?_⟩
  have hne : u.machineNum ≠ k := fun h => hfree (h ▸ hk)
  rw [hserver, hu]
  exact UserTree.node_put_of_ne _ _ hne

/-- The master signs up an owner for machine 3. -/
theorem sign_up_no_overwrite_third : ∃ tr t,
    Run (next id) (start sampleServer fun _ : Unit => none) tr t ∧
      (∀ x ∈ tr, ∀ u, x.before.call id x.event = some (.updateUserData u) →
        ¬ (x.before.server.user.node u.machineNum).Exists ∧
          ∀ k, (x.before.server.user.node k).Exists →
            x.after.server.user.node k = x.before.server.user.node k) ∧
      t.server.user.node 3 = .ofUser ⟨1, 3, some "0933", none, some "new"⟩ := by
  obtain ⟨tr, t, run, hp⟩ := exists_run_of_exec (next id) (start sampleServer fun _ : Unit => none)
    (loginEvents () "master" ++
      [((), Act.signUpMenu), ((), .signUpClick "new" "0933" "3"), ((), .createUser 0 true),
        ((), .signUpComplete 0)])
    (fun r => decide ((∀ x ∈ r.1, x.before.ChecksNumber id x.event) ∧
      r.2.server.user.node 3 = .ofUser ⟨1, 3, some "0933", none, some "new"⟩)) (by decide)
  obtain ⟨hC, hnode⟩ := of_decide_eq_true hp
  exact ⟨tr, t, run, sign_up_no_overwrite (fresh_start _ _) run hC, hnode⟩

/-- With the owner of machine 2 in the loaded list, "02" passes the check, and the record of machine
2 is written over. -/
theorem sign_up_overwrites : ∃ tr t,
    Run (next id) (start sampleServer fun _ : Unit => none) tr t ∧
      ∃ x ∈ tr, x.before.call id x.event =
          some (.updateUserData ⟨1, 2, some "0933", none, some "new"⟩) ∧
        x.before.server.user.node 2 = .ofUser ⟨1, 2, some "0922", none, some "owner"⟩ ∧
        x.after.server.user.node 2 = .ofUser ⟨1, 2, some "0933", none, some "new"⟩ := by
  obtain ⟨tr, t, run, hp⟩ := exists_run_of_exec (next id) (start sampleServer fun _ : Unit => none)
    (loginEvents () "master" ++
      [((), Act.signUpMenu), ((), .signUpClick "new" "0933" "02"), ((), .createUser 0 true),
        ((), .signUpComplete 0)])
    (fun r => decide (∃ x ∈ r.1,
      x.before.call id x.event = some (.updateUserData ⟨1, 2, some "0933", none, some "new"⟩) ∧
        x.before.server.user.node 2 = .ofUser ⟨1, 2, some "0922", none, some "owner"⟩ ∧
        x.after.server.user.node 2 = .ofUser ⟨1, 2, some "0933", none, some "new"⟩)) (by decide)
  exact ⟨tr, t, run, of_decide_eq_true hp⟩

end World

end DollMachine
