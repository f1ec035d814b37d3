import DollMachine.Holdings
import DollMachine.Users.World

/-!
# Records and accounts

Nothing in the app looks whether an email already has a record.  That no two records share one
rests on the authentication service: `createUserWithEmailAndPassword` fails for an account that
exists.  `World.Registered` ties the three places where an owner is known to each other: the
records, the accounts, and the sign-ups whose account is made and whose record is not yet written
(`Device.made`).  It holds along every run (`registered_of_run`).

`emails_unique`: no two records have the same email, so that the first user that the lookup by email
finds in a loaded list is the only one.
-/

namespace DollMachine

open Transition Holdings

/-- The account that was made for a sign-up under way. -/
def SignUp.account (address : String → String) (p : SignUp) : Option String :=
  if p.created = some true then some (address p.email) else none

namespace UserTree

/-- No two records have emails with the same key; with `id`, no two have the same email. -/
def OneRecord (key : String → String) (t : UserTree) : Prop :=
  ∀ k k' e e', (t.node k).email = some e → (t.node k').email = some e' → key e = key e' → k = k'

variable {t : UserTree} {k n : Int} {e : String}

@[simp] theorem email_updateToken (token : Option String) :
    ((t.updateToken n token).node k).email = (t.node k).email := by
  rw [updateToken, node_put]
  split_ifs with hn
  · rw [hn]
  · rfl

theorem email_removeUserData :
    ((t.removeUserData n).node k).email = some e ↔ n ≠ k ∧ (t.node k).email = some e := by
  rw [removeUserData, node_put]
  split_ifs with hn
  · simp [hn, UserNode.absent]
  · simp [hn]

theorem email_updateUserData {u : User} (h : ((t.updateUserData u).node k).email = some e) :
    (t.node k).email = some e ∨ u.machineNum = k ∧ u.email = some e := by
  rw [updateUserData, node_put] at h
  split_ifs at h with hn
  · exact .inr ⟨hn, h⟩
  · exact .inl h

/-- Where no two records share an email, no two users of a snapshot do. -/
theorem OneRecord.pairwise_users (h : t.OneRecord id) :
    t.users.Pairwise fun u v => ∀ e, u.email = some e → v.email ≠ some e := by
  rw [users, children, List.pairwise_map, List.pairwise_map]
  have hkeys := Std.ExtTreeMap.distinct_keys_toList (t := t.nodes)
  refine hkeys.imp_of_mem fun {a b} ha hb hne e hae hbe => hne ?_
  have hnode : ∀ c ∈ t.nodes.toList, t.node c.1 = c.2 := fun c hc => by
    have hget := Std.ExtTreeMap.mem_toList_iff_getElem?_eq_some.1 hc
    simp [node, hget]
  have hkey : a.1 = b.1 := h a.1 b.1 e e (by rw [hnode a ha]; exact hae)
    (by rw [hnode b hb]; exact hbe) rfl
  simp [hkey]

theorem OneRecord.filter_users (h : t.OneRecord id) {u : User}
    (hu : findByEmail e t.users = .ok (some u)) :
    t.users.filter (fun v => v.email = some e) = [u] := by
  obtain ⟨hmem, hemail⟩ := findByEmail_eq_some hu
  have hin : u ∈ t.users.filter (fun v => v.email = some e) := by simp [hmem, hemail]
  have hpair := h.pairwise_users.filter (fun v => v.email = some e)
  have hall : ∀ v ∈ t.users.filter (fun v => v.email = some e), v.email = some e := by simp
  revert hin hpair hall
  generalize t.users.filter (fun v => v.email = some e) = l
  intro hin hpair hall
  match l with
  | [] => cases hin
  | [v] => rw [List.mem_singleton.1 hin]
  | v :: w :: l =>
    exact absurd (hall w (by simp)) (List.rel_of_pairwise_cons hpair List.mem_cons_self e
      (hall v List.mem_cons_self))

end UserTree

namespace Device

variable {address : String → String} {server : Server} {dev dev' : Device} {a : Act}
  {remote : Option Remote} {i : Nat} {p : SignUp}

/-- The accounts that were made for the sign-ups under way on a phone. -/
def made (address : String → String) (dev : Device) : List String :=
  dev.signUps.filterMap (SignUp.account address)

theorem account_of_created (hc : p.created = some true) :
    p.account address = some (address p.email) := by
  simp [SignUp.account, hc]

theorem mem_made {b : String} :
    b ∈ dev.made address ↔ ∃ p ∈ dev.signUps, p.created = some true ∧ address p.email = b := by
  simp [made, SignUp.account]

/-- The accounts of the sign-ups under way only grow by one that the service makes anew. -/
theorem made_next (h : dev.act address server a = some (dev', remote)) :
    (dev'.made address).Subperm (dev.made address) ∨
      ∃ b, b ∉ server.accounts ∧ remote = some (.createAccount b) ∧
        (dev'.made address).Perm (b :: dev.made address) := by
  have hc := (act_effect h).signUps
  unfold made
  generalize hl : dev'.signUps = l at hc ⊢
  cases hc with
  | keep => exact .inl (.refl _)
  | detach =>
    refine .inl (List.Perm.subperm ?_)
    rw [List.filterMap_map]
    rfl
  | clear hd => exact .inl List.nil_subperm
  | request email phone machineNum ha he hp free =>
    refine .inl (List.Perm.subperm ?_)
    simp [SignUp.account]
  | answer i p ok ha hp hc =>
    obtain ⟨ok', rfl⟩ := ha
    have hnone : p.account address = none := by simp [SignUp.account, hc]
    obtain ⟨q, hq, -, ⟨⟨-, hnew⟩, hremote, hdev⟩ | ⟨-, hdev⟩⟩ := act_createUser h
    · obtain rfl : p = q := Option.some.inj (hp.symm.trans hq)
      rw [← hl, hdev]
      exact .inr ⟨_, hnew, hremote, filterMap_set_perm_cons hp hnone rfl⟩
    · obtain rfl : p = q := Option.some.inj (hp.symm.trans hq)
      rw [← hl, hdev]
      exact .inl (filterMap_set_subperm hp (.inl rfl))
  | complete i ha => exact .inl ((List.eraseIdx_sublist _ _).filterMap _).subperm

/-- A completed sign-up lets go of its account. -/
theorem made_perm_eraseIdx (hp : dev.signUps[i]? = some p) (hc : p.created = some true)
    (hs : dev'.signUps = dev.signUps.eraseIdx i) :
    (dev.made address).Perm (address p.email :: dev'.made address) := by
  have hperm := filterMap_perm_eraseIdx (f := SignUp.account address) hp
  rwa [List.filterMap_cons_some (account_of_created hc), ← hs] at hperm

end Device

theorem Server.accounts_apply (s : Server) {r : Remote} {b : String} (h : b ∈ s.accounts) :
    b ∈ (s.apply r).accounts := by
  cases r with
  | createAccount address => exact List.mem_cons_of_mem _ h
  | _ => exact h

namespace World

variable {D : Type*} [DecidableEq D] {address key : String → String} {v w s t : World D}
  {tr : List (Step (World D) (D × Act))} {e : D × Act} {d : D} {a : Act} {k : Int}

/-- The records, the accounts and the sign-ups under way belong together: no two records have emails
with the same key, every record has an account, and the accounts made for the sign-ups under way are
there, are made once, and have no record. -/
structure Registered (key address : String → String) (w : World D) : Prop where
  oneRecord : w.server.user.OneRecord key
  account : ∀ k e, (w.server.user.node k).email = some e → address e ∈ w.server.accounts
  unwritten : ∀ d, ∀ b ∈ (w.device d).made address, b ∈ w.server.accounts ∧
    ∀ k e, (w.server.user.node k).email = some e → address e ≠ b
  exclusive : Exclusive fun d => (w.device d).made address

theorem accounts_next (step : v.next address e = some w) {b : String}
    (h : b ∈ v.server.accounts) : b ∈ w.server.accounts := by
  rw [(next_effect step).2.1]
  cases v.call address e with
  | none => exact h
  | some r => exact v.server.accounts_apply h

/-- An email gets into a node only by the completion of a sign-up whose account is made. -/
theorem email_next (step : v.next address (d, a) = some w) {x : String}
    (h : (w.server.user.node k).email = some x) :
    (v.server.user.node k).email = some x ∨ ∃ i p, (v.device d).signUps[i]? = some p ∧
      p.created = some true ∧ p.email = x ∧ (w.device d).signUps = (v.device d).signUps.eraseIdx i ∧
      v.call address (d, a) = some (.updateUserData ⟨1, k, some p.phone, none, some x⟩) := by
  obtain ⟨he, hserver, -⟩ := next_effect step
  cases hr : v.call address (d, a) with
  | none => exact .inl (server_of_call_none step hr ▸ h)
  | some r =>
    rw [hserver, hr] at h
    have hcause := he.cause r hr
    cases hcause with
    | createUser i p hp hc new => exact .inl h
    | opened _ u ho hu => exact .inl (by simpa [Server.apply] using h)
    | removed m rest row hs hrow => exact .inl (UserTree.email_removeUserData.1 h).2
    | signUp i p n hp hat hc hn hs =>
      refine (UserTree.email_updateUserData h).imp_right ?_
      rintro ⟨rfl, hx⟩
      obtain rfl := Option.some.inj hx
      exact ⟨i, p, hp, hc, rfl, hs, rfl⟩

/-- The accounts made for the sign-ups under way on all phones, before and after a step. -/
theorem made_next (step : v.next address (d, a) = some w) :
    (∀ d', ((w.device d').made address).Subperm ((v.device d').made address)) ∨
      ∃ b, b ∉ v.server.accounts ∧ v.call address (d, a) = some (.createAccount b) ∧
        ((w.device d).made address).Perm (b :: (v.device d).made address) ∧
        ∀ d', d' ≠ d → (w.device d').made address = (v.device d').made address := by
  have hother : ∀ d', d' ≠ d → (w.device d').made address = (v.device d').made address :=
    fun d' hd => by rw [(next_effect step).2.2 d' hd]
  rcases Device.made_next (next_act step) with h | ⟨b, hnew, hcall, h⟩
  · refine .inl fun d' => ?_
    by_cases hd : d' = d
    · exact hd ▸ h
    · rw [hother d' hd]
  · exact .inr ⟨b, hnew, hcall, h, hother⟩

theorem mem_made_next (step : v.next address (d, a) = some w) {d' : D} {b : String}
    (h : b ∈ (w.device d').made address) :
    b ∈ (v.device d').made address ∨
      b ∉ v.server.accounts ∧ v.call address (d, a) = some (.createAccount b) := by
  rcases made_next step with hsub | ⟨c, hnew, hcall, hperm, hother⟩
  · exact .inl ((hsub d').subset h)
  · by_cases hd : d' = d
    · subst hd
      rcases List.mem_cons.1 (hperm.mem_iff.1 h) with rfl | h
      · exact .inr ⟨hnew, hcall⟩
      · exact .inl h
    · exact .inl (hother d' hd ▸ h)

/-- A step that writes the record of a sign-up leaves its account with no sign-up under way. -/
theorem not_mem_made_of_written (hv : v.Registered key address)
    (step : v.next address (d, a) = some w) {i : Nat} {p : SignUp}
    (hp : (v.device d).signUps[i]? = some p) (hc : p.created = some true)
    (hs : (w.device d).signUps = (v.device d).signUps.eraseIdx i) (d' : D) :
    address p.email ∉ (w.device d').made address := by
  obtain ⟨hself, hrest⟩ := hv.exclusive.release (Device.made_perm_eraseIdx hp hc hs)
  by_cases hd : d' = d
  · exact hd ▸ hself
  · rw [(next_effect step).2.2 d' hd]
    exact hrest d' hd

theorem registered_next (hkey : ∀ x y, key x = key y → address x = address y)
    (hv : v.Registered key address) (step : v.next address e = some w) :
    w.Registered key address := by
  obtain ⟨d, a⟩ := e
  have hmade : ∀ {i : Nat} {p : SignUp}, (v.device d).signUps[i]? = some p →
      p.created = some true → address p.email ∈ (v.device d).made address := fun hp hc =>
    Device.mem_made.2 ⟨_, List.mem_of_getElem? hp, hc, rfl⟩
  refine ⟨fun k k' x y hx hy hxy => ?_, fun k x hx => ?_, fun d' b hb => ?_, ?_⟩
  · rcases email_next step hx with hx | ⟨i, p, hp, hc, rfl, -, hcall⟩ <;>
      rcases email_next step hy with hy | ⟨j, q, hq, hc', rfl, -, hcall'⟩
    · exact hv.oneRecord k k' x y hx hy hxy
    · exact absurd (hkey _ _ hxy) ((hv.unwritten d _ (hmade hq hc')).2 k x hx)
    · exact absurd (hkey _ _ hxy).symm ((hv.unwritten d _ (hmade hp hc)).2 k' y hy)
    · rw [hcall] at hcall'
      simp only [Option.some.injEq, Remote.updateUserData.injEq, User.mk.injEq] at hcall'
      exact hcall'.2.1
  · rcases email_next step hx with hx | ⟨i, p, hp, hc, rfl, -⟩
    · exact accounts_next step (hv.account k x hx)
    · exact accounts_next step (hv.unwritten d _ (hmade hp hc)).1
  · rcases mem_made_next step hb with hold | ⟨hnew, hcall⟩
    · refine ⟨accounts_next step (hv.unwritten d' b hold).1, fun k x hx => ?_⟩
      rcases email_next step hx with hx | ⟨i, p, hp, hc, rfl, hs, -⟩
      · exact (hv.unwritten d' b hold).2 k x hx
      · exact fun heq => not_mem_made_of_written hv step hp hc hs d' (heq ▸ hb)
    · refine ⟨?_, fun k x hx heq => ?_⟩
      · rw [(next_effect step).2.1, hcall]
        exact List.mem_cons_self
      · rcases email_next step hx with hx | ⟨i, p, hp, hc, rfl, hs, hcall'⟩
        · exact hnew (heq ▸ hv.account k x hx)
        · simp [hcall] at hcall'
  · rcases made_next step with hsub | ⟨b, hnew, -, hperm, hother⟩
    · exact hv.exclusive.shrink hsub
    · exact hv.exclusive.take (fun d' hd' => hnew (hv.unwritten d' b hd').1) hperm hother

theorem registered_of_run (hkey : ∀ x y, key x = key y → address x = address y)
    (h₀ : s.server.user.OneRecord key)
    (hacc : ∀ k e, (s.server.user.node k).email = some e → address e ∈ s.server.accounts)
    (hnone : ∀ d, (s.device d).signUps = []) (run : Run (next address) s tr t) :
    t.Registered key address := by
  have hnil : ∀ d, (s.device d).made address = [] := fun d => by simp [Device.made, hnone d]
  refine run.invariant (fun _ _ _ => registered_next hkey)
    ⟨h₀, hacc, fun d b hb => ?_, exclusive_of_nil hnil⟩
  simp [hnil d] at hb

/-- From records with different emails, each with an account, and no sign-up under way: no two
records ever have the same email, and the user that the lookup by email finds in a list just loaded
is the only one there with that email. -/
theorem emails_unique (h₀ : s.server.user.OneRecord id)
    (hacc : ∀ k e, (s.server.user.node k).email = some e → address e ∈ s.server.accounts)
    (hnone : ∀ d, (s.device d).signUps = []) (run : Run (next address) s tr t) :
    (∀ k k' e, (t.server.user.node k).email = some e → (t.server.user.node k').email = some e →
      k = k') ∧
    ∀ (m : UserManager) email u,
      findByEmail email (m.onDataChange t.server.user).userList = .ok (some u) →
        (m.onDataChange t.server.user).userList.filter (fun v => v.email = some email) = [u] := by
  have ht := (registered_of_run (fun x y h => congrArg address h) h₀ hacc hnone run).oneRecord
  refine ⟨fun k k' e hk hk' => ht k k' e e hk hk' rfl, fun m email u hu => ?_⟩
  rw [UserManager.onDataChange_userList] at hu ⊢
  exact ht.filter_users hu

theorem sampleServer_oneRecord : sampleServer.user.OneRecord id := by
  intro k k' e e' hk hk' he
  rcases sampleServer_email hk with ⟨rfl, rfl⟩ | ⟨rfl, rfl⟩ <;>
    rcases sampleServer_email hk' with ⟨rfl, rfl⟩ | ⟨rfl, rfl⟩
  · rfl
  · exact absurd he (by decide)
  · exact absurd he (by decide)
  · rfl

theorem sampleServer_account (k : Int) (e : String)
    (h : (sampleServer.user.node k).email = some e) : id e ∈ sampleServer.accounts := by
  rcases sampleServer_email h with ⟨-, rfl⟩ | ⟨-, rfl⟩ <;> decide

/-- Two phones sign up the same email at the same time, for two machines. -/
theorem emails_unique_race : ∃ tr t,
    Run (next id) (start sampleServer fun _ : Bool => none) tr t ∧
      (∀ k k' e, (t.server.user.node k).email = some e → (t.server.user.node k').email = some e →
        k = k') ∧
      t.server.user.node 3 = .ofUser ⟨1, 3, some "0933", none, some "new"⟩ ∧
      t.server.user.node 4 = .absent := by
  obtain ⟨tr, t, run, hp⟩ := exists_run_of_exec (next id) (start sampleServer fun _ : Bool => none)
    (loginEvents true "master" ++ loginEvents false "master" ++
      [(true, Act.signUpMenu), (true, .signUpClick "new" "0933" "3"), (false, .signUpMenu),
        (false, .signUpClick "new" "0944" "4"), (true, .createUser 0 true),
        (false, .createUser 0 true), (false, .signUpComplete 0), (true, .signUpComplete 0)])
    (fun r => decide (r.2.server.user.node 3 = .ofUser ⟨1, 3, some "0933", none, some "new"⟩ ∧
      r.2.server.user.node 4 = .absent)) (by decide)
  obtain ⟨hthird, hfourth⟩ := of_decide_eq_true hp
  have hunique := (emails_unique sampleServer_oneRecord sampleServer_account (fun d => rfl) run).1
  exact ⟨tr, t, run, hunique, hthird, hfourth⟩

end World

end DollMachine
