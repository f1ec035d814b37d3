import Mathlib.Data.List.TakeDrop
import Mathlib.Tactic.Linarith

/-!
# Input that arrives in bursts

A `Feed` is what a reader of a connection has before it: what has arrived, and the bursts that are
yet to arrive.  After the last burst the other end may close the connection or leave it open; in
both cases a read that finds nothing gives up.

Reading depends on the input as a whole (`Feed.all`) and not on the bursts it comes in:
`readUntil_eq` and `take_eq`.
-/

variable {α : Type*}

structure Feed (α : Type*) where
  now : List α
  later : List (List α)
  /-- The other end closes the connection after the last burst. -/
  closes : Bool

namespace Feed

def all (f : Feed α) : List α := f.now ++ f.later.flatten

/-- A bound on the reads and the waits to come. -/
def size (f : Feed α) : Nat := f.now.length + (f.later.map (·.length + 1)).sum

/-- There is input, or there may be. -/
def connected (f : Feed α) : Bool := !f.now.isEmpty || !f.later.isEmpty || !f.closes

/-- The first element of the bursts. -/
def readLater (closes : Bool) : List (List α) → Option (α × Feed α)
  | [] => none
  | [] :: bursts => readLater closes bursts
  | (c :: cs) :: bursts => some (c, ⟨cs, bursts, closes⟩)

/-- Read an element, and wait for it if necessary. -/
def read (f : Feed α) : Option (α × Feed α) :=
  match f.now with
  | c :: cs => some (c, ⟨cs, f.later, f.closes⟩)
  | [] => readLater f.closes f.later

variable {f g : Feed α} {c : α}

theorem readLater_cases (closes : Bool) (bursts : List (List α)) :
    readLater closes bursts = none ∧ bursts.flatten = [] ∨
      ∃ c g, readLater closes bursts = some (c, g) ∧ bursts.flatten = c :: g.all ∧
        g.closes = closes ∧ g.size < (bursts.map (·.length + 1)).sum := by
  induction bursts with
  | nil => exact .inl ⟨rfl, rfl⟩
  | cons burst bursts ih =>
    cases burst with
    | nil =>
      refine ih.imp id ?_
      rintro ⟨c, g, hread, hall, hcloses, hsize⟩
      refine ⟨c, g, hread, hall, hcloses, hsize.trans_le ?_⟩
      rw [List.map_cons, List.sum_cons]
      omega
    | cons c cs =>
      refine .inr ⟨c, ⟨cs, bursts, closes⟩, rfl, rfl, rfl, ?_⟩
      simp only [size, List.map_cons, List.sum_cons, List.length_cons]
      omega

/-- A read fails when there is no input left, and else takes its first element. -/
theorem read_cases (f : Feed α) : f.read = none ∧ f.all = [] ∨
    ∃ c g, f.read = some (c, g) ∧ f.all = c :: g.all ∧ g.closes = f.closes ∧ g.size < f.size := by
  obtain ⟨now, later, closes⟩ := f
  cases now with
  | nil => simpa [read, all, size] using readLater_cases closes later
  | cons c cs =>
    refine .inr ⟨c, ⟨cs, later, closes⟩, rfl, rfl, rfl, ?_⟩
    simp only [size, List.length_cons]
    omega

theorem size_of_read (h : f.read = some (c, g)) : g.size < f.size := by
  rcases f.read_cases with ⟨hnone, -⟩ | ⟨c', g', hread, -, -, hsize⟩
  · rw [hnone] at h
    cases h
  · rw [hread] at h
    cases h
    exact hsize

/-- Read up to a separator, which is dropped, or to the end of the input. -/
def readUntil [DecidableEq α] (stop : α) (f : Feed α) : List α × Feed α :=
  match _h : f.read with
  | none => ([], f)
  | some (c, g) =>
    if c = stop then ([], g)
    else
      let r := readUntil stop g
      (c :: r.1, r.2)
termination_by f.size
decreasing_by exact size_of_read _h

/-- Read `n` elements, or as many as there are. -/
def take : Nat → Feed α → List α × Feed α
  | 0, f => ([], f)
  | n + 1, f =>
    match f.read with
    | none => ([], f)
    | some (c, g) => (c :: (take n g).1, (take n g).2)

section Until

variable [DecidableEq α] {stop : α}

theorem readUntil_none (h : f.read = none) : f.readUntil stop = ([], f) := by
  rw [readUntil]
  split
  · rfl
  · rename_i hsome
    rw [h] at hsome
    cases hsome

theorem readUntil_some (h : f.read = some (c, g)) : f.readUntil stop =
    if c = stop then ([], g) else (c :: (g.readUntil stop).1, (g.readUntil stop).2) := by
  rw [readUntil]
  split
  · rename_i hnone
    rw [h] at hnone
    cases hnone
  · rename_i hsome
    rw [h] at hsome
    cases hsome
    rfl

/-- Reading up to a separator splits the input there. -/
theorem readUntil_eq (stop : α) (f : Feed α) :
    (f.readUntil stop).1 = f.all.takeWhile (· ≠ stop) ∧
      (f.readUntil stop).2.all = (f.all.dropWhile (· ≠ stop)).tail ∧
      (f.readUntil stop).2.closes = f.closes ∧
      (f.readUntil stop).2.size ≤ f.size ∧
      (f.all ≠ [] → (f.readUntil stop).2.size < f.size) := by
  induction hn : f.size using Nat.strong_induction_on generalizing f with
  | _ n ih =>
    subst hn
    rcases f.read_cases with ⟨hread, hall⟩ | ⟨c, g, hread, hall, hcloses, hsize⟩
    · simp [readUntil_none hread, hall]
    · obtain ⟨htaken, hrest, hcl, hle, -⟩ := ih g.size hsize g rfl
      rw [readUntil_some hread, hall]
      split_ifs with hc
      · subst hc
        simp [hcloses, hsize, hsize.le]
      · refine ⟨?_, ?_, hcl.trans hcloses, ?_, fun _ => ?_⟩
        · rw [List.takeWhile_cons_of_pos (by simpa using hc), htaken]
        · rw [List.dropWhile_cons_of_pos (by simpa using hc), hrest]
        · exact (hle.trans_lt hsize).le
        · exact hle.trans_lt hsize

theorem readUntil_of_all {line rest : List α} (hall : f.all = line ++ stop :: rest)
    (hline : stop ∉ line) : (f.readUntil stop).1 = line ∧ (f.readUntil stop).2.all = rest ∧
      (f.readUntil stop).2.closes = f.closes := by
  obtain ⟨htaken, hrest, hcloses, -⟩ := readUntil_eq stop f
  have hkeep : ∀ c ∈ line, decide (c ≠ stop) = true := fun c hc => by
    simpa using ne_of_mem_of_not_mem hc hline
  rw [hall, List.takeWhile_append_of_pos hkeep, List.takeWhile_cons_of_neg (by simp)] at htaken
  rw [hall, List.dropWhile_append_of_pos hkeep, List.dropWhile_cons_of_neg (by simp)] at hrest
  exact ⟨htaken.trans (List.append_nil _), hrest, hcloses⟩

end Until

/-- To prove something of all feeds: of those where something has arrived, of the empty ones, and
that waiting for a burst leads back to it. -/
theorem wait_induction {P : Feed α → Prop} (now : ∀ f : Feed α, f.now ≠ [] → P f)
    (nil : ∀ closes, P ⟨[], [], closes⟩)
    (wait : ∀ burst bursts closes, P ⟨burst, bursts, closes⟩ → P ⟨[], burst :: bursts, closes⟩)
    (f : Feed α) : P f := by
  obtain ⟨arrived, later, closes⟩ := f
  induction later generalizing arrived with
  | nil =>
    cases arrived with
    | nil => exact nil closes
    | cons c cs => exact now _ (List.cons_ne_nil c cs)
  | cons burst bursts ih =>
    cases arrived with
    | nil => exact wait burst bursts closes (ih burst)
    | cons c cs => exact now _ (List.cons_ne_nil c cs)

/-- Taking elements splits the input at their number. -/
theorem take_eq (n : Nat) (f : Feed α) : (f.take n).1 = f.all.take n ∧
    (f.take n).2.all = f.all.drop n ∧ (f.take n).2.closes = f.closes ∧
    (f.take n).2.size ≤ f.size ∧ (n ≠ 0 → f.all ≠ [] → (f.take n).2.size < f.size) := by
  induction n generalizing f with
  | zero => exact ⟨rfl, rfl, rfl, le_refl _, fun hne => absurd rfl hne⟩
  | succ n ih =>
    rcases f.read_cases with ⟨hread, hall⟩ | ⟨c, g, hread, hall, hcloses, hsize⟩
    · simp [take, hread, hall]
    · obtain ⟨htaken, hrest, hcl, hle, -⟩ := ih g
      have hlt := hle.trans_lt hsize
      simp [take, hread, hall, htaken, hrest, hcl, hcloses, hlt, hlt.le]

theorem connected_of_all (h : f.all ≠ []) : f.connected = true := by
  obtain ⟨now, later, closes⟩ := f
  cases now with
  | nil =>
    cases later with
    | nil => simp [all] at h
    | cons burst bursts => simp [connected]
  | cons c cs => simp [connected]

/-- Waiting for a burst brings the reader nearer to the end. -/
theorem size_wait (burst : List α) (bursts : List (List α)) (closes : Bool) :
    (⟨burst, bursts, closes⟩ : Feed α).size < (⟨[], burst :: bursts, closes⟩ : Feed α).size := by
  simp only [size, List.map_cons, List.sum_cons, List.length_nil]
  omega

end Feed
