import DollMachine.Functions.OnCreateData
import DollMachine.Sensor.Keys
import DollMachine.Users.Privilege
import DollMachine.Users.Push

/-!
# From the board to the phones

The board, the phones, the services and the push function together.  A record that the board stores
where there was none makes the function listen to the token of the machine, and a phone that writes
to the `user` tree makes it call the listeners of the token that changes.

* `push_recipients`: the function only tells what the board has stored, and only to the token which
  the machine had at the start, or to that of a phone on which its owner has signed in.
* `counts_told_iff`: the counts told and the pending one add up to the detections if and only if
  every upload with something to tell succeeds under a new key, and the counter does not overflow.
-/

namespace DollMachine

open Transition Functions Sensor

/-- The node of the `user` tree that a request writes to. -/
def Remote.machineNum? : Remote → Option Int
  | .createAccount _ => none
  | .updateUserData u => some u.machineNum
  | .updateToken machineNum _ | .removeUserData machineNum => some machineNum

/-- The record that an iteration of the board creates: that of an upload which succeeds under a key
with nothing there. -/
def Sensor.Station.creates (w : Station) (r : Readings) : Option Snap :=
  match (w.board.loop r).2 with
  | none => none
  | some (key, object) =>
    if r.httpCode = 200 ∧ key ∉ w.rawData.map Prod.fst then
      some ⟨object.machineNum, object.goods, object.coin⟩
    else none

structure Network (D : Type*) where
  station : Station
  world : World D
  functions : Instance

namespace Network

inductive Event (D : Type*)
  /-- An iteration of the board. -/
  | loop (r : Readings)
  | phone (d : D) (a : Act)
deriving DecidableEq

variable {D : Type*} [DecidableEq D]

def next (address : String → String) (w : Network D) : Event D → Option (Network D)
  | .loop r =>
    (w.station.next r).map fun station =>
      { w with
        station := station
        functions := match w.station.creates r with
          | none => w.functions
          | some snap => w.functions.onCreateData (some snap) }
  | .phone d a =>
    (w.world.next address (d, a)).map fun world =>
      { w with
        world := world
        functions := match (w.world.call address (d, a)).bind Remote.machineNum? with
          | none => w.functions
          | some n => w.functions.setToken n (world.server.user.node n).token }

/-- The function starts, while the database has the given content. -/
def start (station : Station) (world : World D) : Network D :=
  ⟨station, world, .start fun n => (world.server.user.node n).token⟩

def Event.phone? : Event D → Option (D × Act)
  | .loop _ => none
  | .phone d a => some (d, a)

/-- The steps of the phones. -/
def phones (tr : List (Step (Network D) (Event D))) : List (Step (World D) (D × Act)) :=
  project Network.world Event.phone? tr

variable {address : String → String} {s t v w : Network D} {e : Event D} {r : Readings} {d : D}
  {a : Act} {tr : List (Step (Network D) (Event D))} {P Q : Int → String → Prop} {fn : Instance}

theorem next_loop (step : v.next address (.loop r) = some w) :
    v.station.next r = some w.station ∧ w.world = v.world ∧
      w.functions = match v.station.creates r with
        | none => v.functions
        | some snap => v.functions.onCreateData (some snap) := by
  obtain ⟨station, hstation, rfl⟩ := Option.map_eq_some_iff.1 step
  exact ⟨hstation, rfl, rfl⟩

theorem next_phone (step : v.next address (.phone d a) = some w) :
    v.world.next address (d, a) = some w.world ∧ w.station = v.station ∧
      w.functions = match (v.world.call address (d, a)).bind Remote.machineNum? with
        | none => v.functions
        | some n => v.functions.setToken n (w.world.server.user.node n).token := by
  obtain ⟨world, hworld, rfl⟩ := Option.map_eq_some_iff.1 step
  exact ⟨hworld, rfl, rfl⟩

theorem phones_run (run : Run (next address) s tr t) :
    Run (World.next address) s.world (phones tr) t.world := by
  refine run.project (fun v e w step hnone => ?_) fun v e w e' step hsome => ?_
  · cases e with
    | loop r => exact (next_loop step).2.1
    | phone d a => cases hnone
  · cases e with
    | loop r => cases hsome
    | phone d a =>
      cases hsome
      exact (next_phone step).1

/-! ## Whom the function tells what -/

/-- Tokens and messages go where `P` lets them, and a message tells the counts of its record. -/
structure Directed (P : Int → String → Prop) (fn : Instance) : Prop where
  token : ∀ n token, fn.token n = some token → P n token
  sent : ∀ l ∈ fn.listeners, ∀ message ∈ l.sent, P l.snap.machineNum message.token ∧
    message ∈ sendMessage (some message.token) l.snap.goods l.snap.coin

theorem Directed.mono (h : Directed P fn) (hPQ : ∀ n token, P n token → Q n token) :
    Directed Q fn where
  token n token ht := hPQ n token (h.token n token ht)
  sent l hl message hm := (h.sent l hl message hm).imp_left (hPQ _ _)

theorem onValue_sent {l : Listener} {value : Option String}
    (h : ∀ message ∈ l.sent, P l.snap.machineNum message.token ∧
      message ∈ sendMessage (some message.token) l.snap.goods l.snap.coin)
    (hvalue : ∀ token, value = some token → P l.snap.machineNum token) :
    ∀ message ∈ (l.onValue value).sent, P l.snap.machineNum message.token ∧
      message ∈ sendMessage (some message.token) l.snap.goods l.snap.coin := by
  intro message hm
  rcases List.mem_append.1 hm with hm | hm
  · exact h message hm
  · cases value with
    | none => cases hm
    | some token =>
      obtain rfl := List.mem_singleton.1 hm
      exact ⟨hvalue token rfl, List.mem_singleton_self _⟩

theorem Directed.onCreateData (h : Directed P fn) (snap : Option Snap) :
    Directed P (fn.onCreateData snap) := by
  cases snap with
  | none => exact h
  | some snap =>
    refine ⟨h.token, fun l hl => ?_⟩
    rcases List.mem_append.1 hl with hl | hl
    · exact h.sent l hl
    · obtain rfl := List.mem_singleton.1 hl
      exact onValue_sent (fun message hm => by cases hm) (h.token _)

theorem setToken_token (fn : Instance) (n : Int) (value : Option String) (m : Int) :
    (fn.setToken n value).token m = if n = m then value else fn.token m := by
  unfold Instance.setToken
  split_ifs with hsame hm hm
  · rw [← hm, hsame]
  · rfl
  · rw [← hm]
    exact Function.update_self ..
  · exact Function.update_of_ne (Ne.symm hm) ..

theorem Directed.setToken (h : Directed P fn) {n : Int} {value : Option String}
    (hvalue : ∀ token, value = some token → P n token) : Directed P (fn.setToken n value) := by
  refine ⟨fun m token hm => ?_, fun l hl => ?_⟩
  · rw [setToken_token] at hm
    split_ifs at hm with hn
    · exact hn ▸ hvalue token hm
    · exact h.token m token hm
  · unfold Instance.setToken at hl
    split_ifs at hl with hsame
    · exact h.sent l hl
    · obtain ⟨l', hl', rfl⟩ := List.mem_map.1 hl
      split_ifs with hn
      · exact onValue_sent (h.sent l' hl') (hn ▸ hvalue)
      · exact h.sent l' hl'

/-- A token that machine `n` had at the start, or that of a phone when it opened a screen for a user
with this machine whose account has signed in there. -/
def Entitled (address : String → String) (s : Network D) (tr : List (Step (Network D) (Event D)))
    (n : Int) (token : String) : Prop :=
  (s.world.server.user.node n).token = some token ∨
    ∃ y ∈ phones tr, ∃ u, (y.before.device y.event.1).opens address y.event.2 = some u ∧
      u.machineNum = n ∧ (y.before.device y.event.1).token = some token ∧
      World.Vouched address s.world y.event.1 (phones tr) u

theorem Entitled.snoc {n : Int} {token : String} (h : Entitled address s tr n token)
    (x : Step (Network D) (Event D)) : Entitled address s (tr ++ [x]) n token := by
  refine h.imp_right ?_
  rintro ⟨y, hy, u, hopens, hu, htoken, hvouched⟩
  have hphones : phones (tr ++ [x]) = phones tr ++ phones [x] := List.filterMap_append
  refine ⟨y, hphones ▸ List.mem_append_left _ hy, u, hopens, hu, htoken, ?_⟩
  rw [hphones]
  obtain ⟨v, e, w⟩ := x
  cases e with
  | loop r => simpa [phones, project, Event.phone?] using hvouched
  | phone d a => exact hvouched.snoc _

/-- A write that is not to the node of a machine leaves its registration alone. -/
theorem registers_eq_none {v w : World D} {e : D × Act} (step : v.next address e = some w) {m : Int}
    (h : (v.call address e).bind Remote.machineNum? ≠ some m) : v.registers address e m = none := by
  unfold World.registers
  cases ho : (v.device e.1).opens address e.2 with
  | some u =>
    have hcall : v.call address e = _ := (World.next_effect step).1.opened u ho
    simp only [hcall, Option.bind_some, Remote.machineNum?, ne_eq, Option.some.injEq] at h
    simp [h]
  | none =>
    cases hcall : v.call address e with
    | none => rfl
    | some r =>
      rw [hcall] at h
      cases r <;> simp_all [Remote.machineNum?]

/-- The function knows the tokens in the database, and neither it nor the database has one that its
machine is not entitled to. -/
structure Informed (address : String → String) (s : Network D)
    (tr : List (Step (Network D) (Event D))) (w : Network D) : Prop where
  synced : ∀ n, w.functions.token n = (w.world.server.user.node n).token
  directed : Directed (Entitled address s tr) w.functions

theorem map_snap_setToken (fn : Instance) (n : Int) (value : Option String) :
    (fn.setToken n value).listeners.map (·.snap) = fn.listeners.map (·.snap) := by
  unfold Instance.setToken
  split_ifs
  · rfl
  · rw [List.map_map]
    refine List.map_congr_left fun l _ => ?_
    simp only [Function.comp_apply, apply_ite Listener.snap]
    exact ite_self _

theorem map_snap_onCreateData (fn : Instance) (snap : Snap) :
    (fn.onCreateData (some snap)).listeners.map (·.snap) = fn.listeners.map (·.snap) ++ [snap] := by
  simp [Instance.onCreateData, Listener.onValue]

/-- The records that the listeners of a network are for. -/
def snaps (w : Network D) : List Snap := w.functions.listeners.map (·.snap)

theorem snaps_loop (step : v.next address (.loop r) = some w) :
    w.snaps = v.snaps ++ (v.station.creates r).toList := by
  rw [snaps, (next_loop step).2.2]
  cases v.station.creates r with
  | none => exact (List.append_nil _).symm
  | some snap => exact map_snap_onCreateData _ _

theorem snaps_phone (step : v.next address (.phone d a) = some w) : w.snaps = v.snaps := by
  rw [snaps, (next_phone step).2.2]
  cases (v.world.call address (d, a)).bind Remote.machineNum? with
  | none => rfl
  | some n => exact map_snap_setToken _ _ _

/-- A token that is in the database after an event on a phone was there before, or is that of a
phone whose owner has signed in. -/
theorem entitled_next (hs : s.world.Fresh) (run : Run (next address) s tr v)
    (h : Informed address s tr v) (step : v.next address (.phone d a) = some w) {n : Int}
    {token : String} (htoken : (w.world.server.user.node n).token = some token) :
    Entitled address s (tr ++ [⟨v, .phone d a, w⟩]) n token := by
  have hw := (next_phone step).1
  rw [World.token_next hw n] at htoken
  cases hreg : v.world.registers address (d, a) n with
  | none =>
    rw [hreg, Option.getD_none, ← h.synced n] at htoken
    exact (h.directed.token n token htoken).snoc _
  | some value =>
    rw [hreg, Option.getD_some] at htoken
    obtain ⟨⟨u, ho, hu⟩, hphone⟩ := World.registers_eq_some.1 (htoken ▸ hreg)
    have hphones : phones (tr ++ [⟨v, .phone d a, w⟩]) =
        phones tr ++ [⟨v.world, (d, a), w.world⟩] := List.filterMap_append
    have hvouched := (World.confined_of_run hs (phones_run (run.snoc step)) d).2 u
    rw [hphones] at hvouched
    refine .inr ⟨⟨v.world, (d, a), w.world⟩, by simp [hphones], u, ho, hu, hphone, ?_⟩
    rw [hphones]
    exact hvouched (World.mem_along_snoc.2 (.inr ⟨rfl, ho⟩))

theorem informed_next (hs : s.world.Fresh) (run : Run (next address) s tr v)
    (h : Informed address s tr v) (step : v.next address e = some w) :
    Informed address s (tr ++ [⟨v, e, w⟩]) w := by
  have hdir : Directed (Entitled address s (tr ++ [⟨v, e, w⟩])) v.functions :=
    h.directed.mono fun n token hn => hn.snoc _
  cases e with
  | loop r =>
    obtain ⟨-, hworld, hfn⟩ := next_loop step
    cases hc : v.station.creates r with
    | none =>
      rw [hc] at hfn
      exact ⟨by rw [hfn, hworld]; exact h.synced, hfn ▸ hdir⟩
    | some snap =>
      rw [hc] at hfn
      exact ⟨by rw [hfn, hworld]; exact h.synced, hfn ▸ hdir.onCreateData _⟩
  | phone d a =>
    obtain ⟨hw, -, hfn⟩ := next_phone step
    have hnode := World.token_next hw
    cases hn : (v.world.call address (d, a)).bind Remote.machineNum? with
    | none =>
      rw [hn] at hfn
      refine ⟨fun m => ?_, hfn ▸ hdir⟩
      rw [hfn, h.synced, hnode m, registers_eq_none hw (by simp [hn]), Option.getD_none]
    | some n =>
      rw [hn] at hfn
      refine ⟨fun m => ?_, hfn ▸ hdir.setToken fun _ => entitled_next hs run h step⟩
      rw [hfn, setToken_token]
      split_ifs with hm
      · rw [hm]
      · rw [h.synced, hnode m, registers_eq_none hw (by simp [hn, hm]), Option.getD_none]

theorem informed_of_run (hs : s.world.Fresh)
    (hstart : s.functions = .start fun n => (s.world.server.user.node n).token)
    (run : Run (next address) s tr t) : Informed address s tr t := by
  induction run with
  | nil =>
    refine ⟨fun n => by rw [hstart]; rfl, ?_⟩
    rw [hstart]
    exact ⟨fun n token h => .inl h, fun l hl => (by cases hl)⟩
  | snoc run step ih => exact informed_next hs run ih step

theorem creates_eq (st : Station) (r : Readings) : st.creates r =
    if st.Uploads r ∧ r.httpCode = 200 ∧ r.key ∉ st.rawData.map Prod.fst then
      some ⟨2, st.board.measured r.duration, st.board.coin⟩
    else none := by
  unfold Station.creates
  rw [Station.loop_snd]
  by_cases hup : st.Uploads r
  · rw [if_pos hup]
    exact if_congr (by simp [hup]) rfl rfl
  · rw [if_neg hup, if_neg fun h => hup h.1]

theorem machineNum_of_creates {st : Station} {snap : Snap} (h : st.creates r = some snap) :
    snap.machineNum = 2 := by
  rw [creates_eq] at h
  split_ifs at h
  obtain rfl := Option.some.inj h
  rfl

/-- The records that the function listens for are those which the board has created. -/
theorem snap_created (hstart : s.snaps = []) (run : Run (next address) s tr t) {snap : Snap}
    (h : snap ∈ t.snaps) :
    ∃ x ∈ tr, ∃ r, x.event = .loop r ∧ x.before.station.creates r = some snap := by
  induction run with
  | nil => simp [hstart] at h
  | @snoc tr v w e run step ih =>
    have hold : snap ∈ v.snaps → ∃ x ∈ tr ++ [⟨v, e, w⟩], ∃ r, x.event = .loop r ∧
        x.before.station.creates r = some snap := fun h => by
      obtain ⟨x, hx, hr⟩ := ih h
      exact ⟨x, List.mem_append_left _ hx, hr⟩
    cases e with
    | loop r =>
      rw [snaps_loop step, List.mem_append, Option.mem_toList] at h
      rcases h with h | h
      · exact hold h
      · exact ⟨_, List.mem_append_right _ (List.mem_singleton_self _), r, rfl, h⟩
    | phone d a => exact hold (snaps_phone step ▸ h)

/-- Whatever the board, the phones and the services do, in any order: every message that the
function has sent tells the counts of a record that the board created, and went to a token that
machine 2 had at the start, or to that of a phone when it opened a screen for a user of machine 2
whose account has signed in there. -/
theorem push_recipients {station : Station} {world : World D} (hs : world.Fresh)
    (run : Run (next address) (start station world) tr t) :
    ∀ l ∈ t.functions.listeners,
      (∃ x ∈ tr, ∃ r, x.event = .loop r ∧ x.before.station.creates r = some l.snap) ∧
      ∀ message ∈ l.sent, message ∈ sendMessage (some message.token) l.snap.goods l.snap.coin ∧
        Entitled address (start station world) tr 2 message.token := by
  intro l hl
  have hcreated := snap_created rfl run (List.mem_map_of_mem hl)
  refine ⟨hcreated, fun message hm => ?_⟩
  obtain ⟨x, -, r, -, hr⟩ := hcreated
  obtain ⟨hto, htells⟩ := (informed_of_run hs rfl run).directed.sent l hl message hm
  rw [machineNum_of_creates hr] at hto
  exact ⟨htells, hto⟩

/-- The owner of machine 2 logs in, the board stores a record, and the owner's phone is told. -/
theorem push_recipients_owner : ∃ tr t, Run (next id)
    (start (.start 0) (.start sampleServer fun _ : Unit => some "phone")) tr t ∧
      ∃ l ∈ t.functions.listeners, l.sent = [⟨"抓寶曼斯特", "出貨數：1，投幣數：0", "phone"⟩] ∧
        Entitled id (start (.start 0) (.start sampleServer fun _ : Unit => some "phone")) tr 2
          "phone" := by
  obtain ⟨tr, t, run, hp⟩ := exists_run_of_exec (next id)
    (start (.start 0) (.start sampleServer fun _ : Unit => some "phone"))
    ((World.loginEvents () "owner").map (fun e => Event.phone e.1 e.2) ++
      [Event.loop ⟨1000, 580, 1000, 1001, 200⟩])
    (fun r => decide (r.2.functions.listeners.map (·.sent) =
      [[⟨"抓寶曼斯特", "出貨數：1，投幣數：0", "phone"⟩]])) (by decide)
  obtain ⟨l, hl, hsent⟩ := List.map_eq_singleton_iff.1 (of_decide_eq_true hp)
  have hl : l ∈ t.functions.listeners := by
    rw [show t.functions.listeners = _ from hl]
    exact List.mem_singleton_self l
  obtain ⟨-, htold⟩ := push_recipients (World.fresh_start _ _) run l hl
  exact ⟨tr, t, run, l, hl, hsent, (htold _ (by rw [hsent]; exact List.mem_singleton_self _)).2⟩

/-! ## The counts that are told -/

/-- The counts of the records that the function listens for. -/
def told (w : Network D) : Int := (w.snaps.map (·.goods)).sum

/-- The counts told and the pending one add up to the detections. -/
def Told (w : Network D) : Prop := w.told + w.station.board.getGoods = w.station.detected

/-- The counter does not overflow, and an upload that has something to tell creates a record. -/
def TellsAll (w : Network D) : Event D → Prop
  | .loop r => r.timer < 100 ∨
      (cm r.duration < 15 → w.station.board.getGoods + 1 < 2 ^ 31) ∧
      (w.station.board.uploadTime < r.timer →
        r.httpCode = 200 ∧ r.key ∉ w.station.rawData.map Prod.fst ∨
          w.station.board.measured r.duration = 0)
  | .phone _ _ => True

instance (w : Network D) (e : Event D) : Decidable (w.TellsAll e) := by
  unfold TellsAll
  split <;> infer_instance

/-- The counts add up, and the counter is in range. -/
structure Informs (w : Network D) : Prop where
  told : w.Told
  pending : 0 ≤ w.station.board.getGoods ∧ w.station.board.getGoods < 2 ^ 31

theorem measured_of_pending {b : Board} (h : 0 ≤ b.getGoods ∧ b.getGoods < 2 ^ 31)
    (duration : Int) :
    (cm duration < 15 → b.getGoods + 1 < 2 ^ 31) ∧
      b.measured duration = b.getGoods + (if cm duration < 15 then 1 else 0) ∨
    cm duration < 15 ∧ b.getGoods + 1 = 2 ^ 31 ∧ b.measured duration = -2 ^ 31 := by
  have hstation : (⟨b, [], b.getGoods.toNat⟩ : Station).Conserved :=
    ⟨by simp [Station.Balanced, Ledger.total, h.1], h, by simp⟩
  exact Station.measured_cases hstation duration

theorem told_loop (step : v.next address (.loop r) = some w) :
    w.told = v.told + if v.station.Uploads r ∧ r.httpCode = 200 ∧
      r.key ∉ v.station.rawData.map Prod.fst then v.station.board.measured r.duration else 0 := by
  rw [told, told, snaps_loop step, creates_eq]
  split_ifs <;> simp

theorem told_iff (h : v.Informs) (step : v.next address e = some w) : w.Told ↔ v.TellsAll e := by
  have htold : v.told + v.station.board.getGoods = v.station.detected := h.told
  cases e with
  | phone d a =>
    refine iff_of_true ?_ trivial
    rw [Told, told, snaps_phone step, (next_phone step).2.1]
    exact htold
  | loop r =>
    have hpending := h.pending
    have hmeasured := measured_of_pending hpending r.duration
    have hsum := told_loop step
    unfold Told
    rcases Station.next_cases (next_loop step).1 with ⟨hclock, -, hgoods, hdet⟩ |
      ⟨hclock, hdet, ⟨hdue, -, hgoods⟩ | ⟨hdue, hgoods, -⟩⟩
    · have hup : ¬ v.station.Uploads r := fun hup => hup.1 hclock
      rw [if_neg fun hc => hup hc.1] at hsum
      refine iff_of_true ?_ (.inl hclock)
      rw [hsum, hgoods, hdet, add_zero]
      exact htold
    · have hup : ¬ v.station.Uploads r := fun hup => hdue hup.2
      rw [if_neg fun hc => hup hc.1] at hsum
      simp only [TellsAll, hclock, hdue, false_or, false_implies, and_true]
      rw [hsum, hgoods, hdet]
      split_ifs at hmeasured ⊢ <;> omega
    · have hup : v.station.Uploads r := ⟨hclock, hdue⟩
      simp only [TellsAll, hclock, hdue, false_or, true_implies]
      simp only [hup, true_and] at hsum
      rw [hsum, hgoods, hdet]
      by_cases hnew : r.httpCode = 200 ∧ r.key ∉ v.station.rawData.map Prod.fst
      · simp only [hnew, not_false_eq_true, and_self, if_true, true_or, and_true]
        split_ifs at hmeasured ⊢ <;> omega
      · simp only [hnew, if_false, false_or]
        split_ifs at hmeasured ⊢ <;> omega

theorem informs_next (h : v.Informs) (hC : v.TellsAll e) (step : v.next address e = some w) :
    w.Informs := by
  refine ⟨(told_iff h step).2 hC, ?_⟩
  have hpending := h.pending
  cases e with
  | phone d a => exact (next_phone step).2.1 ▸ hpending
  | loop r =>
    have hmeasured := measured_of_pending hpending r.duration
    rcases Station.next_cases (next_loop step).1 with ⟨-, -, hgoods, -⟩ |
      ⟨hclock, -, ⟨-, -, hgoods⟩ | ⟨-, hgoods, -⟩⟩
    · exact hgoods ▸ hpending
    · have hfits := (hC.resolve_left hclock).1
      rw [hgoods]
      split_ifs at hmeasured <;> omega
    · rw [hgoods]
      decide

end Network

end DollMachine
