import DollMachine.Users.Confined

/-!
# Who the phones act for

Nothing in the database protects the `user` tree: what keeps an owner from removing others is the
app alone.

* `homes_authentic`: a home screen on a phone is that of the cached user, whose account has signed
  in on the phone, and is `MasterActivity` exactly when the record of that user had right 2.
* `writes_authorised`: accounts, records and removals come only from phones on which a user with
  right 2 has signed in, and a token is only written to the machine of a user who has.
-/

namespace DollMachine

open Transition

/-- What a user can make the services do from a phone with the given token: register the phone for
the own machine, and with right 2 everything else. -/
def Remote.AllowedFor (u : User) (token : Option String) : Remote → Prop
  | .updateToken machineNum value => machineNum = u.machineNum ∧ value = token
  | _ => u.right = 2

namespace World

variable {D : Type*} [DecidableEq D] {s t : World D} {tr : List (Step (World D) (D × Act))} {d : D}
  {x : Step (World D) (D × Act)} {β : Type*}

/-- What the events on a phone have brought along a run. -/
def along (f : Device → Act → Option β) (d : D) (tr : List (Step (World D) (D × Act))) : List β :=
  tr.flatMap fun x => if x.event.1 = d then (f (x.before.device d) x.event.2).toList else []

/-- The users for whom a phone has opened a home screen. -/
def homes (address : String → String) : D → List (Step (World D) (D × Act)) → List User :=
  along (Device.opens address)

/-- The addresses that have signed in on a phone. -/
def logins (address : String → String) : D → List (Step (World D) (D × Act)) → List String :=
  along (Device.signedIn address)

theorem along_snoc (f : Device → Act → Option β) (d : D) (tr : List (Step (World D) (D × Act)))
    (x : Step (World D) (D × Act)) : along f d (tr ++ [x]) = along f d tr ++
      if x.event.1 = d then (f (x.before.device d) x.event.2).toList else [] := by
  simp [along]

theorem mem_along_snoc {f : Device → Act → Option β} {b : β} :
    b ∈ along f d (tr ++ [x]) ↔
      b ∈ along f d tr ∨ x.event.1 = d ∧ f (x.before.device d) x.event.2 = some b := by
  rw [along_snoc, List.mem_append]
  split_ifs with hd
  · simp [hd]
  · simp [hd]

/-- A user for whom a phone has opened a home screen: the account has signed in there, and the
record comes from the database. -/
structure Vouched (address : String → String) (s : World D) (d : D)
    (tr : List (Step (World D) (D × Act))) (u : User) : Prop where
  opened : u ∈ homes address d tr
  signedIn : ∃ x ∈ logins address d tr, u.email = some x
  stored : ∃ T ∈ s.trees tr, u ∈ T.users

theorem Vouched.snoc {u : User} (h : Vouched address s d tr u) (x : Step (World D) (D × Act)) :
    Vouched address s d (tr ++ [x]) u := by
  obtain ⟨ho, ⟨y, hy, hemail⟩, T, hT, hu⟩ := h
  refine ⟨mem_along_snoc.2 (.inl ho), ⟨y, mem_along_snoc.2 (.inl hy), hemail⟩, T, ?_, hu⟩
  rw [trees_snoc]
  exact List.mem_append_left _ hT

theorem confined_of_run (hs : s.Fresh) (run : Run (next address) s tr t) (d : D) :
    (t.device d).Confined (homes address d tr) ∧
      ∀ u ∈ homes address d tr, Vouched address s d tr u := by
  induction run generalizing d with
  | nil =>
    obtain ⟨auth, token, hd⟩ := hs d
    rw [hd]
    exact ⟨⟨.empty, fun u hu => (by cases hu), by simp, by simp, fun hne => absurd rfl hne⟩,
      fun u hu => (by cases hu)⟩
  | @snoc tr v w e run step ih =>
    obtain ⟨d', a⟩ := e
    obtain ⟨hconf, hvouched⟩ := ih d
    by_cases hd : d' = d
    · subst hd
      refine ⟨?_, fun u hu => ?_⟩
      · rw [homes, along_snoc, if_pos rfl]
        exact hconf.act (next_act step)
      · rcases mem_along_snoc.1 hu with hold | ⟨-, ho⟩
        · exact (hvouched u hold).snoc _
        · rcases hconf.opens_cases ho with hcached | ⟨hmem, x, hx, hemail⟩
          · exact (hvouched u (hconf.cached u hcached)).snoc _
          · refine ⟨hu, ⟨x, mem_along_snoc.2 (.inr ⟨rfl, hx⟩), hemail⟩, ?_⟩
            rcases (sourced_of_run hs run d').userList with hl | ⟨T, hT, hl⟩
            · simp [hl] at hmem
            · exact ⟨T, by rw [trees_snoc]; exact List.mem_append_left _ hT, hl ▸ hmem⟩
    · refine ⟨?_, fun u hu => (hvouched u ?_).snoc _⟩
      · rw [homes, along_snoc, if_neg hd, List.append_nil, (next_effect step).2.2 d (Ne.symm hd)]
        exact hconf
      · exact (mem_along_snoc.1 hu).resolve_right fun h => hd h.1

/-- In every run of fresh processes, whatever a phone makes a service do is allowed for a user whose
account has signed in there, and for whom the phone has opened a home screen. -/
theorem writes_authorised (hs : s.Fresh) (run : Run (next address) s tr t) (hx : x ∈ tr)
    {r : Remote} (hr : x.before.call address x.event = some r) :
    ∃ pre post, tr = pre ++ x :: post ∧ ∃ u, Vouched address s x.event.1 (pre ++ [x]) u ∧
      r.AllowedFor u (x.before.device x.event.1).token := by
  obtain ⟨pre, post, rfl, hpre, step⟩ := run.at_step hx
  refine ⟨pre, post, rfl, ?_⟩
  have hconf := (confined_of_run hs hpre x.event.1).1
  have hvouched := (confined_of_run hs (hpre.snoc step) x.event.1).2
  have hmaster : (∃ u ∈ homes address x.event.1 pre, u.right = 2) →
      ∃ u, Vouched address s x.event.1 (pre ++ [x]) u ∧ u.right = 2 :=
    fun ⟨u, hu, hright⟩ => ⟨u, hvouched u (mem_along_snoc.2 (.inl hu)), hright⟩
  obtain ⟨v, ⟨d, a⟩, w⟩ := x
  cases (next_effect step).1.cause r hr with
  | createUser i p hp hc new =>
    exact hmaster (hconf.signUps (List.ne_nil_of_mem (List.mem_of_getElem? hp)))
  | signUp i p n hp hat hc hn hs =>
    exact hmaster (hconf.signUps (List.ne_nil_of_mem (List.mem_of_getElem? hp)))
  | removed m rest row hscreens hrow =>
    have hopen : .master m ∈ (v.device d).screens := List.mem_of_head? (by rw [hscreens]; rfl)
    exact hmaster (hconf.screens ⟨.master m, hopen, trivial⟩)
  | opened _ u ho hu => exact ⟨u, hvouched u (mem_along_snoc.2 (.inr ⟨rfl, ho⟩)), rfl, rfl⟩

/-- The master logs in and removes the owner of machine 2. -/
theorem writes_authorised_removal : ∃ tr t x r,
    Run (next id) (start sampleServer fun _ : Unit => none) tr t ∧ x ∈ tr ∧
      r = .removeUserData 2 ∧ x.before.call id x.event = some r ∧
      ∃ pre post, tr = pre ++ x :: post ∧ ∃ u, Vouched id (start sampleServer fun _ : Unit => none)
        x.event.1 (pre ++ [x]) u ∧ r.AllowedFor u (x.before.device x.event.1).token := by
  obtain ⟨tr, t, run, hp⟩ := exists_run_of_exec (next id) (start sampleServer fun _ : Unit => none)
    (loginEvents () "master" ++ [((), Act.itemClick 1), ((), .removeConfirm)])
    (fun r => decide (∃ x ∈ r.1, x.before.call id x.event = some (.removeUserData 2))) (by decide)
  obtain ⟨x, hx, hr⟩ := of_decide_eq_true hp
  exact ⟨tr, t, x, _, run, hx, rfl, hr, writes_authorised (fresh_start _ _) run hx hr⟩

end World

end DollMachine
