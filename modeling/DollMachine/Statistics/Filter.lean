import Mathlib.Data.List.Basic

/-!
# Records and filters

The records under `rawData/{machineNum}`, and the lists that the statistics screens select from
them: the five positions of the filter spinner, and the records of one day.  The four loops of
`onItemSelected` differ in the field and in the comparison (`filterLoop`).
-/

namespace DollMachine

/-- The app's class of that name; `timestamp` is the number that the stored text denotes. -/
structure RawData where
  coin : Int
  goods : Int
  timestamp : Int
deriving DecidableEq

/-- A loaded record.  `node` is the machine number of the node it was loaded from, which the app
does not keep. -/
structure Record extends RawData where
  node : Int
deriving DecidableEq

/-- The positions of the filter spinner: "所有紀錄", "最高營收", "最高出貨", "最低營收", "最低出貨". -/
inductive Filter
  | all
  | maxCoin
  | maxGoods
  | minCoin
  | minGoods
deriving DecidableEq

/-- A loop of `onItemSelected`: `base` is the best value so far and `newRawDataList` has the records
with that value. -/
def filterLoop (field : Record → Int) (better : Int → Int → Bool) (base : Int)
    (newRawDataList : List Record) : List Record → List Record
  | [] => newRawDataList
  | r :: rs =>
    if better (field r) base then filterLoop field better (field r) [r] rs
    else if field r = base then filterLoop field better base (newRawDataList ++ [r]) rs
    else filterLoop field better base newRawDataList rs

/-- The list that `onItemSelected` builds for a position; position 0 keeps `currentList` itself. -/
def Filter.select (pos : Filter) (currentList : List Record) : List Record :=
  match currentList with
  | [] => []
  | first :: _ =>
    match pos with
    | .all => currentList
    | .maxCoin => filterLoop (·.coin) (· > ·) first.coin [] currentList
    | .maxGoods => filterLoop (·.goods) (· > ·) first.goods [] currentList
    | .minCoin => filterLoop (·.coin) (· < ·) first.coin [] currentList
    | .minGoods => filterLoop (·.goods) (· < ·) first.goods [] currentList

/-- The records that `timeQuery` selects for the day that starts at `cuzTimestamp`. -/
def dayRecords (cuzTimestamp : Int) (rawDataList : List Record) : List Record :=
  rawDataList.filter fun r => cuzTimestamp - 1 < r.timestamp ∧ r.timestamp < cuzTimestamp + 86400

variable {field : Record → Int} {better : Int → Int → Bool} {base : Int} {acc l : List Record}

theorem filterLoop_sublist : (filterLoop field better base acc l).Sublist (acc ++ l) := by
  induction l generalizing base acc with
  | nil => simp [filterLoop]
  | cons r rs ih =>
    unfold filterLoop
    split_ifs
    · exact ih.trans (List.sublist_append_right _ _)
    · have h : (filterLoop field better base (acc ++ [r]) rs).Sublist (acc ++ [r] ++ rs) := ih
      rwa [List.append_assoc, List.singleton_append] at h
    · exact ih.trans ((List.sublist_cons_self _ _).append_left _)

theorem Filter.select_all : Filter.all.select l = l := by
  cases l <;> rfl

theorem Filter.select_sublist (pos : Filter) : (pos.select l).Sublist l := by
  cases l with
  | nil => exact .slnil
  | cons r rs =>
    cases pos with
    | all => exact .refl _
    | _ => exact filterLoop_sublist

end DollMachine
