import DollMachine.Users.Accounts

/-!
# Sign-ups from the click to the end

A sign-up makes the account first and writes the record when the answer arrives.  In between, the
activity may stop, which drops the listener, and the process may end; and the text of the machine
number is converted only then.  `Device.ended` lists the sign-ups that end with an event, and a
sign-up that has not ended in a run is under way after it (`World.under_way_of_run`).

`all_or_nothing_iff`: every sign-up of a run ends with its account and its record, or with neither,
if and only if the process never ends while an account is made whose record is not written, and a
completed sign-up finds its screen on top and its number in the range of an `int`.
-/

namespace DollMachine

open Transition Holdings

/-- The record that a sign-up is for, with the number that the digits typed denote. -/
def SignUp.record (p : SignUp) : User :=
  ⟨1, digitsValue p.machineNum.toList, some p.phone, none, some p.email⟩

/-- The machine number that a click on "註冊" has typed. -/
def Act.typedNumber : Act → Option String
  | .signUpClick _ _ machineNum => some machineNum
  | _ => none

/-- The sign-up that is answered. -/
def Act.answered : Act → Option Nat
  | .signUpComplete i => some i
  | _ => none

/-- A sign-up is the one that a click asks for. -/
def SignUp.FromClick (p : SignUp) (a : Act) : Prop :=
  ∃ email phone machineNum, a = .signUpClick email phone machineNum ∧
    p.email = trim email ∧ p.phone = trim phone ∧ p.machineNum = trim machineNum

/-- `q` is what has become of the sign-up `p`. -/
structure SignUp.Later (p q : SignUp) : Prop where
  email : q.email = p.email
  phone : q.phone = p.phone
  machineNum : q.machineNum = p.machineNum
  created : p.created ≠ none → q.created = p.created

theorem SignUp.Later.refl (p : SignUp) : p.Later p := ⟨rfl, rfl, rfl, fun _ => rfl⟩

theorem SignUp.Later.trans {p q r : SignUp} (h : p.Later q) (h' : q.Later r) : p.Later r where
  email := h'.email.trans h.email
  phone := h'.phone.trans h.phone
  machineNum := h'.machineNum.trans h.machineNum
  created hne := by
    have hq := h.created hne
    rw [h'.created (hq ▸ hne), hq]

namespace Device

variable {address : String → String} {server : Server} {dev dev' : Device} {a : Act}
  {remote : Option Remote} {r : Remote} {l : List SignUp} {p q : SignUp} {u : User}

/-- The activity on top is `SignUpActivity`. -/
def onSignUp (dev : Device) : Bool :=
  match dev.screens with
  | .signUp :: _ => true
  | _ => false

/-- The sign-ups that end with an event: the one that is answered, or all of them when the process
ends. -/
def ended (address : String → String) (dev : Device) (a : Act) : List SignUp :=
  if dev.dies address a then dev.signUps
  else
    match a with
    | .signUpComplete i => dev.signUps[i]?.toList
    | _ => []

/-- A sign-up that has not ended with an event is under way after it. -/
theorem under_way_of_change (h : SignUp.Change address dev a l) (hp : p ∈ dev.signUps) :
    p ∈ dev.ended address a ∨ ∃ q ∈ l, p.Later q := by
  cases h with
  | keep => exact .inr ⟨p, hp, .refl p⟩
  | detach => exact .inr ⟨_, List.mem_map_of_mem hp, rfl, rfl, rfl, fun _ => rfl⟩
  | clear hd => exact .inl (by simpa [ended, hd] using hp)
  | request email phone machineNum ha he hph free =>
    exact .inr ⟨p, List.mem_append_left _ hp, .refl p⟩
  | answer i q ok ha hq hc =>
    obtain ⟨hi, rfl⟩ := List.getElem?_eq_some_iff.1 hq
    refine .inr ?_
    rcases List.mem_cons.1 ((List.getElem_cons_eraseIdx_perm hi).mem_iff.2 hp) with rfl | hp
    · refine ⟨_, (List.set_perm_cons_eraseIdx hi _).mem_iff.2 List.mem_cons_self, rfl, rfl, rfl, ?_⟩
      exact fun hne => absurd hc hne
    · exact ⟨p, (List.set_perm_cons_eraseIdx hi _).mem_iff.2 (List.mem_cons_of_mem _ hp), .refl p⟩
  | complete i ha =>
    subst ha
    by_cases hi : i < dev.signUps.length
    · rcases List.mem_cons.1 ((List.getElem_cons_eraseIdx_perm hi).mem_iff.2 hp) with rfl | hrest
      · refine .inl ?_
        unfold ended
        split_ifs
        · exact hp
        · simp [hi]
      · exact .inr ⟨p, hrest, .refl p⟩
    · rw [List.eraseIdx_of_length_le (Nat.le_of_not_lt hi)]
      exact .inr ⟨p, hp, .refl p⟩

/-- A sign-up under way after an event was under way before it, or is asked for by it. -/
theorem mem_of_change (h : SignUp.Change address dev a l) (hq : q ∈ l) :
    (∃ p ∈ dev.signUps, q.email = p.email ∧ q.phone = p.phone ∧ q.machineNum = p.machineNum) ∨
      q.FromClick a := by
  cases h with
  | keep => exact .inl ⟨q, hq, rfl, rfl, rfl⟩
  | detach =>
    obtain ⟨p, hp, rfl⟩ := List.mem_map.1 hq
    exact .inl ⟨p, hp, rfl, rfl, rfl⟩
  | clear hd => cases hq
  | request email phone machineNum ha he hph free =>
    rcases List.mem_append.1 hq with hq | hq
    · exact .inl ⟨q, hq, rfl, rfl, rfl⟩
    · obtain rfl := List.mem_singleton.1 hq
      exact .inr ⟨email, phone, machineNum, ha, rfl, rfl, rfl⟩
  | answer i p ok ha hp hc =>
    rcases List.mem_or_eq_of_mem_set hq with hq | rfl
    · exact .inl ⟨q, hq, rfl, rfl, rfl⟩
    · exact .inl ⟨p, List.mem_of_getElem? hp, rfl, rfl, rfl⟩
  | complete i ha => exact .inl ⟨q, List.mem_of_mem_eraseIdx hq, rfl, rfl, rfl⟩

/-- What a phone makes a service do, it does in an event that its process survives. -/
theorem dies_of_cause (h : Cause address server dev dev' a r) : dev.dies address a = false := by
  cases h with
  | createUser i p hp hc new => rfl
  | removed m rest row hs hrow => rfl
  | signUp i p n hp hat hc hn hs =>
    obtain ⟨email, phone, machineNum, attached, created⟩ := p
    subst hat hc
    simp only [dies, creates, hp, Option.any_none, Bool.false_or]
    split
    · rename_i heq _
      simp only [Option.some.injEq, SignUp.mk.injEq] at heq
      rw [← heq.2.2.1, hn]
      rfl
    · rfl
  | opened _ u ho hu =>
    cases hc : dev.creates address a with
    | none => simp [opens, hc] at ho
    | some m =>
      cases hm : m.currentUser with
      | error x => simp [opens, hc, hm] at ho
      | ok y =>
        simp only [dies, hc, Option.any_some, hm]
        cases a <;> first | rfl | cases hc

/-- The record that an event writes is that of a sign-up that ends with it, and of no other. -/
theorem ended_of_written (h : dev.act address server a = some (dev', remote))
    (hu : dev.written a = some u) :
    ∃ p i n, a = .signUpComplete i ∧ dev.signUps[i]? = some p ∧ dev.ended address a = [p] ∧
      p.attached = true ∧ p.created = some true ∧ parseInt p.machineNum = .ok n ∧
      u = ⟨1, n, some p.phone, none, some p.email⟩ := by
  have hcause := (act_effect h).cause _ ((act_updateUserData_iff h).2 hu)
  have hd := dies_of_cause hcause
  cases hcause with
  | signUp i p n hp hat hc hn hs =>
    exact ⟨p, i, n, rfl, hp, by simp [ended, hd, hp], hat, hc, hn, rfl⟩

theorem mem_ended : p ∈ dev.ended address a ↔
    dev.dies address a = true ∧ p ∈ dev.signUps ∨
      dev.dies address a = false ∧ ∃ i, a = .signUpComplete i ∧ dev.signUps[i]? = some p := by
  unfold ended
  cases hd : dev.dies address a with
  | true => simp
  | false => cases a <;> simp [Option.mem_toList]

theorem mem_ended_complete {i : Nat} (hp : dev.signUps[i]? = some p) :
    p ∈ dev.ended address (.signUpComplete i) := by
  rw [mem_ended]
  cases hd : dev.dies address (.signUpComplete i) with
  | true => exact .inl ⟨rfl, List.mem_of_getElem? hp⟩
  | false => exact .inr ⟨rfl, i, rfl, hp⟩

/-- When the completion of a sign-up whose account is made writes the record. -/
theorem written_record_iff {i : Nat} (hp : dev.signUps[i]? = some p) (hd : Digits p.machineNum)
    (hc : p.created = some true) : dev.written (.signUpComplete i) = some p.record ↔
      p.attached = true ∧ dev.onSignUp = true ∧ digitsValue p.machineNum.toList ≤ 2147483647 := by
  have hparse := parseInt_of_digits hd
  obtain ⟨email, phone, machineNum, attached, created⟩ := p
  subst hc
  simp only [written, hp, onSignUp]
  cases attached with
  | false => simp
  | true =>
    split
    · rename_i heq hs
      simp only [Option.some.injEq, SignUp.mk.injEq] at heq
      obtain ⟨rfl, rfl, rfl, -, -⟩ := heq
      simp only [hs, hparse]
      split_ifs with hfits
      · simp [hfits, SignUp.record]
      · simp [hfits]
    · rename_i hother
      have hoff : ¬ ∃ rest, dev.screens = .signUp :: rest := by
        rintro ⟨rest, hs⟩
        exact hother email phone machineNum rest rfl hs
      split
      · rename_i rest hs
        exact absurd ⟨rest, hs⟩ hoff
      · simp

end Device

namespace World

variable {D : Type*} [DecidableEq D] {address : String → String} {v w s t : World D}
  {tr : List (Step (World D) (D × Act))} {e : D × Act} {d : D} {a : Act}

/-- Each sign-up that ends with the step leaves its account and its record, if its account was made;
else the step leaves the services as they are. -/
def AllOrNothing (address : String → String) (x : Step (World D) (D × Act)) : Prop :=
  ∀ p ∈ (x.before.device x.event.1).ended address x.event.2,
    if p.created = some true then
      address p.email ∈ x.after.server.accounts ∧
        x.before.call address x.event = some (.updateUserData p.record) ∧
        x.after.server.user.node p.record.machineNum = .ofUser p.record
    else x.after.server = x.before.server

/-- The process does not end while an account is made whose record is not written; and a completed
sign-up whose account is made has its listener, its screen on top, and a number in the range of an
`int`. -/
def CompletesSignUps (address : String → String) (w : World D) (e : D × Act) : Prop :=
  ((w.device e.1).dies address e.2 = true →
    ∀ p ∈ (w.device e.1).signUps, p.created ≠ some true) ∧
  match e.2 with
  | .signUpComplete i => ∀ p ∈ (w.device e.1).signUps[i]?, p.created = some true →
      p.attached = true ∧ (w.device e.1).onSignUp = true ∧
        digitsValue p.machineNum.toList ≤ 2147483647
  | _ => True

omit [DecidableEq D] in
theorem completesSignUps_iff : w.CompletesSignUps address e ↔
    ((w.device e.1).dies address e.2 = true →
      ∀ p ∈ (w.device e.1).signUps, p.created ≠ some true) ∧
    ∀ i ∈ e.2.answered, ∀ p ∈ (w.device e.1).signUps[i]?, p.created = some true →
      p.attached = true ∧ (w.device e.1).onSignUp = true ∧
        digitsValue p.machineNum.toList ≤ 2147483647 := by
  obtain ⟨d, a⟩ := e
  cases a <;> simp [CompletesSignUps, Act.answered]

instance (address : String → String) (w : World D) (e : D × Act) :
    Decidable (w.CompletesSignUps address e) :=
  decidable_of_iff _ completesSignUps_iff.symm

/-- What is typed as a machine number is a string of digits. -/
def TypesDigits (e : D × Act) : Prop :=
  ∀ email phone machineNum, e.2 = .signUpClick email phone machineNum → Digits machineNum

omit [DecidableEq D] in
theorem typesDigits_iff : TypesDigits e ↔ ∀ machineNum ∈ e.2.typedNumber, Digits machineNum := by
  obtain ⟨d, a⟩ := e
  cases a <;> simp [TypesDigits, Act.typedNumber]

instance (e : D × Act) : Decidable (TypesDigits e) :=
  decidable_of_iff _ typesDigits_iff.symm

/-- The sign-ups under way have digits as machine numbers, and their accounts if these are made. -/
def SignUpsSound (address : String → String) (w : World D) : Prop :=
  ∀ d, ∀ p ∈ (w.device d).signUps,
    Digits p.machineNum ∧ (p.created = some true → address p.email ∈ w.server.accounts)

theorem mem_signUps_next (step : v.next address (d, a) = some w) {d' : D} {q : SignUp}
    (hq : q ∈ (w.device d').signUps) :
    (∃ p ∈ (v.device d').signUps,
      q.email = p.email ∧ q.phone = p.phone ∧ q.machineNum = p.machineNum) ∨
      d' = d ∧ q.FromClick a := by
  obtain ⟨he, -, hother⟩ := next_effect step
  by_cases hd : d' = d
  · subst hd
    exact (Device.mem_of_change he.signUps hq).imp_right fun h => ⟨rfl, h⟩
  · rw [hother d' hd] at hq
    exact .inl ⟨q, hq, rfl, rfl, rfl⟩

theorem signUpsSound_next (hv : v.SignUpsSound address) (hA : TypesDigits e)
    (step : v.next address e = some w) : w.SignUpsSound address := by
  obtain ⟨d, a⟩ := e
  intro d' q hq
  constructor
  · rcases mem_signUps_next step hq with
      ⟨p, hp, -, -, hnum⟩ | ⟨-, email, phone, num, ha, -, -, hnum⟩
    · exact hnum ▸ (hv d' p hp).1
    · have hdigits := hA email phone num ha
      rwa [hnum, trim_of_digits hdigits]
  · intro hc
    have hmade : address q.email ∈ (w.device d').made address := Device.mem_made.2 ⟨q, hq, hc, rfl⟩
    rcases mem_made_next step hmade with hmade | ⟨-, hcall⟩
    · obtain ⟨p, hp, hc', heq⟩ := Device.mem_made.1 hmade
      exact accounts_next step (heq ▸ (hv d' p hp).2 hc')
    · rw [(next_effect step).2.1, hcall]
      exact List.mem_cons_self

theorem allOrNothing_iff (hv : v.SignUpsSound address) (step : v.next address e = some w) :
    AllOrNothing address ⟨v, e, w⟩ ↔ v.CompletesSignUps address e := by
  obtain ⟨d, a⟩ := e
  have hwritten : ∀ u, v.call address (d, a) = some (.updateUserData u) ↔
      (v.device d).written a = some u := fun u => Device.act_updateUserData_iff (next_act step)
  have hlives : ∀ r, v.call address (d, a) = some r → (v.device d).dies address a = false :=
    fun r hr => Device.dies_of_cause ((next_effect step).1.cause r hr)
  constructor
  · intro h
    refine ⟨fun hdies p hp hc => ?_, ?_⟩
    · have hdone := h p (Device.mem_ended.2 (.inl ⟨hdies, hp⟩))
      rw [if_pos hc] at hdone
      have hlive := hlives _ hdone.2.1
      simp [hdies] at hlive
    · cases a with
      | signUpComplete i =>
        intro p hp hc
        have hdone := h p (Device.mem_ended_complete hp)
        rw [if_pos hc, hwritten] at hdone
        exact (Device.written_record_iff hp (hv d p (List.mem_of_getElem? hp)).1 hc).1 hdone.2.1
      | _ => trivial
  · intro hC p hp
    by_cases hc : p.created = some true
    · rw [if_pos hc]
      rcases Device.mem_ended.1 hp with ⟨hdies, hp⟩ | ⟨-, i, rfl, hp⟩
      · exact absurd hc (hC.1 hdies p hp)
      · have hsound := hv d p (List.mem_of_getElem? hp)
        have hcall := (hwritten _).2 ((Device.written_record_iff hp hsound.1 hc).2 (hC.2 p hp hc))
        refine ⟨accounts_next step (hsound.2 hc), hcall, ?_⟩
        dsimp only
        rw [(next_effect step).2.1, hcall]
        exact UserTree.node_put_self _ _ _
    · rw [if_neg hc]
      refine server_of_call_none step (Option.eq_none_iff_forall_ne_some.2 fun r hr => ?_)
      rcases Device.mem_ended.1 hp with ⟨hdies, -⟩ | ⟨-, i, rfl, hp⟩
      · have hlive := hlives r hr
        simp [hdies] at hlive
      · have hcause := (next_effect step).1.cause r hr
        cases hcause with
        | signUp i q n hq hat hc' hn hs =>
          obtain rfl : p = q := Option.some.inj (hp.symm.trans hq)
          exact hc hc'
        | opened _ u ho hu => cases ho

/-- A sign-up under way ends with a step of the run, or is under way after the run. -/
theorem under_way_of_run (run : Run (next address) s tr t) {p : SignUp}
    (hp : p ∈ (s.device d).signUps) :
    (∃ x ∈ tr, x.event.1 = d ∧
        ∃ q ∈ (x.before.device d).ended address x.event.2, p.Later q) ∨
      ∃ q ∈ (t.device d).signUps, p.Later q := by
  induction run with
  | nil => exact .inr ⟨p, hp, .refl p⟩
  | @snoc tr v w e run step ih =>
    obtain ⟨d', a⟩ := e
    obtain ⟨he, -, hother⟩ := next_effect step
    rcases ih with ⟨x, hx, hended⟩ | ⟨q, hq, hlater⟩
    · exact .inl ⟨x, List.mem_append_left _ hx, hended⟩
    · by_cases hd : d = d'
      · subst hd
        rcases Device.under_way_of_change he.signUps hq with hend | ⟨r, hr, hlater'⟩
        · exact .inl ⟨_, List.mem_append_right _ (List.mem_singleton_self _), rfl, q, hend, hlater⟩
        · exact .inr ⟨r, hr, hlater.trans hlater'⟩
      · exact .inr ⟨q, by rwa [hother d hd], hlater⟩

/-- Every sign-up under way was asked for by a click of the run. -/
theorem fromClick_of_run (hnone : ∀ d, (s.device d).signUps = []) (run : Run (next address) s tr t)
    {p : SignUp} (hp : p ∈ (t.device d).signUps) :
    ∃ y ∈ tr, y.event.1 = d ∧ p.FromClick y.event.2 := by
  induction run generalizing p with
  | nil => simp [hnone d] at hp
  | @snoc tr v w e run step ih =>
    obtain ⟨d', a⟩ := e
    rcases mem_signUps_next step hp with ⟨q, hq, he, hph, hn⟩ | ⟨rfl, hclick⟩
    · obtain ⟨y, hy, hd, email, phone, machineNum, ha, he', hph', hn'⟩ := ih hq
      refine ⟨y, List.mem_append_left _ hy, hd, email, phone, machineNum, ha, ?_, ?_, ?_⟩
      · rw [he, he']
      · rw [hph, hph']
      · rw [hn, hn']
    · exact ⟨_, List.mem_append_right _ (List.mem_singleton_self _), rfl, hclick⟩

end World

end DollMachine
