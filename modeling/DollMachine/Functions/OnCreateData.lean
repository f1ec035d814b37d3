import DollMachine.Transition

/-!
# The push function

`onCreateData` runs for each record that is created under `rawData`: it registers a listener for the
token of the record's machine, with `on('value')`, which sends the record's counts to the token at
once and again whenever the token changes.  No listener is ever taken back.

`one_push_iff`: in one instance of the function, each record is sent exactly to the token that its
machine had when the record was created if and only if no machine with a record gets another token.
-/

namespace DollMachine

open Transition

namespace Functions

/-- The value of a created record. -/
structure Snap where
  machineNum : Int
  goods : Int
  coin : Int
deriving DecidableEq

structure Message where
  title : String
  body : String
  token : String
deriving DecidableEq

/-- The listener for one created record: the counts that its callback holds, what it has sent, and
the token of the machine when the record was created, which the function does not keep. -/
structure Listener where
  snap : Snap
  sent : List Message
  stored : Option String
deriving DecidableEq

/-- An instance of the function with the children `token` of the `user` tree. -/
structure Instance where
  token : Int → Option String
  listeners : List Listener

inductive Event
  /-- A record is created under `rawData`; `none` is a value that is no data. -/
  | create (snap : Option Snap)
  | setToken (machineNum : Int) (token : Option String)
deriving DecidableEq

/-- `sendMessage(recipient, goods, coin)`: the messages it sends. -/
def sendMessage (recipient : Option String) (goods coin : Int) : List Message :=
  match recipient with
  | none => []
  | some token =>
    [⟨"抓寶曼斯特", "出貨數：" ++ toString goods ++ "，投幣數：" ++ toString coin, token⟩]

/-- The callback of a listener, called with a new value of the token. -/
def Listener.onValue (l : Listener) (value : Option String) : Listener :=
  { l with sent := l.sent ++ sendMessage value l.snap.goods l.snap.coin }

namespace Instance

/-- A new instance. -/
def start (token : Int → Option String) : Instance := ⟨token, []⟩

/-- `onCreateData`. -/
def onCreateData (w : Instance) (snap : Option Snap) : Instance :=
  match snap with
  | none => w
  | some snap =>
    let value := w.token snap.machineNum
    { w with listeners := w.listeners ++ [(⟨snap, [], value⟩ : Listener).onValue value] }

/-- A write of `user/{machineNum}/token` calls the machine's listeners when it changes the value. -/
def setToken (w : Instance) (machineNum : Int) (value : Option String) : Instance :=
  if w.token machineNum = value then w
  else ⟨Function.update w.token machineNum value,
    w.listeners.map fun l => if l.snap.machineNum = machineNum then l.onValue value else l⟩

def next (w : Instance) : Event → Option Instance
  | .create snap => some (w.onCreateData snap)
  | .setToken machineNum token => some (w.setToken machineNum token)

variable {v w s t : Instance} {e : Event} {tr : List (Step Instance Event)}

/-- Each record created so far has been sent to the token that its machine had then, once, and to no
other. -/
def OnePush (w : Instance) : Prop :=
  ∀ l ∈ w.listeners, l.sent = sendMessage l.stored l.snap.goods l.snap.coin

/-- The event gives no machine with a record another token. -/
def KeepsToken (w : Instance) : Event → Prop
  | .create _ => True
  | .setToken machineNum token =>
    token = none ∨ w.token machineNum = token ∨ ∀ l ∈ w.listeners, l.snap.machineNum ≠ machineNum

instance (w : Instance) (e : Event) : Decidable (w.KeepsToken e) := by
  unfold KeepsToken
  split <;> infer_instance

theorem onePush_onCreateData (h : w.OnePush) (snap : Option Snap) :
    (w.onCreateData snap).OnePush := by
  cases snap with
  | none => exact h
  | some snap =>
    intro l hl
    simp only [onCreateData, List.mem_append, List.mem_singleton] at hl
    rcases hl with hl | rfl
    · exact h l hl
    · simp [Listener.onValue]

theorem sendMessage_eq_nil {recipient : Option String} {goods coin : Int} :
    sendMessage recipient goods coin = [] ↔ recipient = none := by
  cases recipient <;> simp [sendMessage]

/-- After a change of the token, every record is still sent only once exactly when the new token is
null or no record of the machine was created. -/
theorem onePush_setToken_iff (h : w.OnePush) (machineNum : Int) (value : Option String) :
    (w.setToken machineNum value).OnePush ↔ w.KeepsToken (.setToken machineNum value) := by
  unfold setToken KeepsToken
  split_ifs with hsame
  · exact iff_of_true h (.inr (.inl hsame))
  · simp only [hsame, false_or, OnePush, List.forall_mem_map]
    constructor
    · intro hone
      refine or_iff_not_imp_left.2 fun hvalue l hl hnum => hvalue ?_
      have hsent := hone l hl
      simp only [hnum, if_true, Listener.onValue, h l hl, List.append_right_eq_self] at hsent
      exact sendMessage_eq_nil.1 hsent
    · rintro (rfl | hother) l hl
      · split_ifs
        · simp [Listener.onValue, sendMessage, h l hl]
        · exact h l hl
      · rw [if_neg (hother l hl)]
        exact h l hl

theorem onePush_next_iff (h : w.OnePush) (step : w.next e = some v) :
    v.OnePush ↔ w.KeepsToken e := by
  cases e with
  | create snap =>
    cases step
    exact iff_of_true (onePush_onCreateData h snap) trivial
  | setToken machineNum value =>
    cases step
    exact onePush_setToken_iff h machineNum value

/-- In every run of an instance, each created record is sent once to the token stored at its
creation, if there was one, and never again, if and only if no write gives a machine that has had a
record since the instance started a token other than null and the one it has. -/
theorem one_push_iff {token : Int → Option String} (run : Run next (start token) tr t) :
    (∀ x ∈ tr, x.after.OnePush) ↔ ∀ x ∈ tr, x.before.KeepsToken x.event :=
  run.exact (I := OnePush) (fun _ _ _ h hC step => (onePush_next_iff h step).2 hC)
    (fun _ _ _ h step => onePush_next_iff h step) fun _ hl => by cases hl

/-- A record of machine 2 is created, and the machine loses its token. -/
theorem one_push_owner : ∃ tr t, Run next (start fun _ => some "owner") tr t ∧
    (∀ x ∈ tr, x.after.OnePush) ∧
    t.listeners.map (·.sent) = [[⟨"抓寶曼斯特", "出貨數：1，投幣數：3", "owner"⟩]] := by
  obtain ⟨tr, t, run, hp⟩ := exists_run_of_exec next (start fun _ => some "owner")
    [.setToken 2 (some "owner"), .create (some ⟨2, 1, 3⟩), .setToken 2 none]
    (fun r => decide ((∀ x ∈ r.1, x.before.KeepsToken x.event) ∧
      r.2.listeners.map (·.sent) = [[⟨"抓寶曼斯特", "出貨數：1，投幣數：3", "owner"⟩]])) (by decide)
  obtain ⟨hC, hsent⟩ := of_decide_eq_true hp
  exact ⟨tr, t, run, (one_push_iff run).2 hC, hsent⟩

/-- The machine gets another owner's phone: the old record is sent to it. -/
theorem one_push_fails : ∃ tr t, Run next (start fun _ => some "owner") tr t ∧
    t.listeners.map (·.sent) = [[⟨"抓寶曼斯特", "出貨數：1，投幣數：3", "owner"⟩,
      ⟨"抓寶曼斯特", "出貨數：1，投幣數：3", "new"⟩]] := by
  obtain ⟨tr, t, run, hp⟩ := exists_run_of_exec next (start fun _ => some "owner")
    [.create (some ⟨2, 1, 3⟩), .setToken 2 (some "new")]
    (fun r => decide (r.2.listeners.map (·.sent) =
      [[⟨"抓寶曼斯特", "出貨數：1，投幣數：3", "owner"⟩,
        ⟨"抓寶曼斯特", "出貨數：1，投幣數：3", "new"⟩]])) (by decide)
  exact ⟨tr, t, run, of_decide_eq_true hp⟩

end Instance

end Functions

end DollMachine
