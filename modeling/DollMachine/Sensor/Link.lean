import DollMachine.Sensor.Payload
import DollMachine.Sensor.Keys

/-!
# The records as text

The station again, with the database as the server has it: a text under each path.  The board sends
a PUT request with the path and the text of the record, and the text replaces the one at its path.

`texts_refine`: the runs of the two are the same, and under the path of a key a reader finds the
text of the record which the station has under that key.
-/

namespace DollMachine

namespace Sensor

open Transition

/-- The board, and the texts that the run has stored. -/
structure Link where
  board : Board
  texts : List (List Char × List Char)

namespace Link

def start (timer : Int) : Link := ⟨.start timer, []⟩

/-- `firebaseSendHttpRequest(path, "PUT", payload)`. -/
def put (w : Link) (httpCode : Int) (path payload : List Char) : Link :=
  if httpCode = 200 then { w with texts := Ledger.put path payload w.texts } else w

/-- An iteration. -/
def next (w : Link) (r : Readings) : Option Link :=
  let w' := { w with board := (w.board.loop r).1 }
  match (w.board.loop r).2 with
  | none => some w'
  | some (key, object) => some (w'.put r.httpCode (path key) (body object))

end Link

/-- A time that `ltoa` can print. -/
def IsTime (n : Int) : Prop := -2 ^ 31 < n ∧ n < 2 ^ 31

instance (n : Int) : Decidable (IsTime n) := inferInstanceAs (Decidable (_ ∧ _))

/-- The clock shows times that can be printed. -/
def Readings.AreTimes (r : Readings) : Prop := IsTime r.timestamp ∧ IsTime r.key

instance (r : Readings) : Decidable r.AreTimes := inferInstanceAs (Decidable (_ ∧ _))

/-- A link and a station in corresponding states. -/
structure Corresponds (l : Link) (w : Station) : Prop where
  board : l.board = w.board
  coin : IsLong w.board.coin
  getGoods : IsLong w.board.getGoods
  keys : ∀ p ∈ w.rawData, IsLong p.1
  records : ∀ p ∈ w.rawData, p.2.Fits
  texts : l.texts = w.rawData.map (Prod.map path body)

variable {v w : Link} {s t : Station} {r : Readings} {tr : List (Step Link Readings)}

theorem IsTime.isLong {n : Int} (h : IsTime n) : IsLong n := ⟨h.1.le, h.2⟩

theorem path_injective {m n : Int} (hm : IsLong m) (hn : IsLong n) (h : path m = path n) : m = n :=
  ltoa_injective hm hn (List.append_cancel_left h)

theorem isLong_wrap32 (n : Int) : IsLong (wrap32 n) := by
  have hlow := Int.le_bmod (x := n) (m := 2 ^ 32) (by decide)
  have hhigh := Int.bmod_lt (x := n) (m := 2 ^ 32) (by decide)
  exact ⟨hlow, hhigh⟩

theorem isLong_measured {b : Board} (h : IsLong b.getGoods) (duration : Int) :
    IsLong (b.measured duration) := by
  unfold Board.measured
  split_ifs
  · exact isLong_wrap32 _
  · exact h

theorem isLong_loop {b : Board} (hcoin : IsLong b.coin) (hgoods : IsLong b.getGoods) :
    IsLong (b.loop r).1.coin ∧ IsLong (b.loop r).1.getGoods := by
  by_cases hclock : r.timer < 100
  · rw [Board.loop_unset hclock]
    exact ⟨hcoin, hgoods⟩
  · by_cases hdue : b.uploadTime < r.timer
    · rw [Board.loop_upload hclock hdue]
      exact ⟨show IsLong 0 by decide, show IsLong 0 by decide⟩
    · rw [Board.loop_measure hclock hdue]
      exact ⟨hcoin, isLong_measured hgoods _⟩

theorem corresponds_start (timer : Int) : Corresponds (.start timer) (.start timer) where
  board := rfl
  coin := show IsLong 0 by decide
  getGoods := show IsLong 0 by decide
  keys := nofun
  records := nofun
  texts := rfl

/-- An iteration of the link is one of the station. -/
theorem corresponds_next (h : Corresponds w s) (hr : r.AreTimes) (step : w.next r = some v) :
    ∃ t, s.next r = some t ∧ Corresponds v t := by
  obtain ⟨hcoin, hgoods⟩ := isLong_loop (r := r) h.coin h.getGoods
  have hsnd := Station.loop_snd s r
  unfold Link.next at step
  rw [h.board] at step
  unfold Station.next
  split_ifs at hsnd with hup
  · have hfits : RawData.Fits ⟨s.board.coin, s.board.measured r.duration, 2, r.timestamp⟩ :=
      ⟨h.coin, isLong_measured h.getGoods _, show IsLong 2 by decide, hr.1.isLong⟩
    simp only [hsnd] at step ⊢
    cases step
    refine ⟨_, rfl, ?_⟩
    by_cases hcode : r.httpCode = 200
    · simp only [Link.put, Station.set, if_pos hcode]
      refine ⟨rfl, hcoin, hgoods, Ledger.forall_put h.keys hr.2.isLong,
        Ledger.forall_put h.records hfits, ?_⟩
      dsimp only
      rw [h.texts, Ledger.map_put fun p hp heq => path_injective (h.keys p hp) hr.2.isLong heq]
    · simp only [Link.put, Station.set, if_neg hcode]
      exact ⟨rfl, hcoin, hgoods, h.keys, h.records, h.texts⟩
  · simp only [hsnd] at step ⊢
    cases step
    exact ⟨_, rfl, rfl, hcoin, hgoods, h.keys, h.records, h.texts⟩

/-- Every run with a clock that shows times: the station has a run with the same readings, after
which the board is the same, the paths of the texts are those of the keys, and what a reader finds
under the path of a key and reads as a record is the record under that key. -/
theorem texts_refine {timer : Int} (run : Run Link.next (.start timer) tr w)
    (htimes : ∀ x ∈ tr, x.event.AreTimes) :
    ∃ tr' t, Run Station.next (.start timer) tr' t ∧ tr'.map Step.event = tr.map Step.event ∧
      w.board = t.board ∧ w.texts.map Prod.fst = t.rawData.map (fun p => path p.1) ∧
      ∀ key, IsTime key → (w.texts.lookup (path key)).bind decode = t.rawData.lookup key := by
  obtain ⟨tr', t, run', h, hevents⟩ := run.simulation (C := Readings.AreTimes)
    (fun _ _ _ _ h hr step => corresponds_next h hr step) (corresponds_start timer) htimes
  refine ⟨tr', t, run', hevents, h.board, ?_, fun key hkey => ?_⟩
  · rw [h.texts, List.map_map]
    rfl
  · rw [h.texts]
    exact Ledger.lookup_map (fun p hp heq => path_injective (h.keys p hp) hkey.isLong heq)
      fun p hp => decode_body (h.records p hp)

/-- A run with an upload at 1000, under the key 1001. -/
theorem texts_refine_upload : ∃ tr w tr' t, Run Link.next (.start 0) tr w ∧
    Run Station.next (.start 0) tr' t ∧ w.texts.length = 1 ∧
    (w.texts.lookup (path 1001)).bind decode = t.rawData.lookup 1001 := by
  obtain ⟨tr, w, run, hp⟩ := exists_run_of_exec Link.next (.start 0)
    [⟨3, 580, 3, 3, 200⟩, ⟨1000, 580, 1000, 1001, 200⟩]
    (fun r => decide ((∀ x ∈ r.1, x.event.AreTimes) ∧ r.2.texts.length = 1)) (by decide)
  obtain ⟨htimes, hlength⟩ := of_decide_eq_true hp
  obtain ⟨tr', t, run', -, -, -, hread⟩ := texts_refine run htimes
  exact ⟨tr, w, tr', t, run, run', hlength, hread 1001 (by decide)⟩

end Sensor

end DollMachine
