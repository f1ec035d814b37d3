import Mathlib.Data.List.Sort

/-!
# The `user` tree of the database

`User` is the app's class of that name, `UserNode` what the database holds under `user/{k}`: a child
that was never written, or was written with `null`, does not exist, and neither does a node without
children.  `UserTree` is the whole `user` node, keyed by the machine number whose decimal form is
the key `k`; a stored node always exists (`UserTree.stored`).

The three writes of the app are `updateUserData`, `updateToken` and `removeUserData`; a snapshot is
read back with `UserTree.users`, in the order of the keys.
-/

namespace DollMachine

/-- An app user; a field that Java leaves `null` is `none`. -/
structure User where
  right : Int
  machineNum : Int
  phone : Option String
  token : Option String
  email : Option String
deriving DecidableEq

/-- The children of a node `user/{k}`. -/
structure UserNode where
  right : Option Int
  machineNum : Option Int
  phone : Option String
  token : Option String
  email : Option String
deriving DecidableEq

namespace UserNode

/-- A node none of whose children exists, so that it does not exist itself. -/
def absent : UserNode := ⟨none, none, none, none, none⟩

def Exists (n : UserNode) : Prop := n ≠ absent

instance (n : UserNode) : Decidable n.Exists := inferInstanceAs (Decidable (_ ≠ _))

/-- `snapshot.getValue(User.class)`: a missing child leaves the default of the field's type. -/
def getValue (n : UserNode) : User :=
  ⟨n.right.getD 0, n.machineNum.getD 0, n.phone, n.token, n.email⟩

/-- The node that `setValue(user)` stores: the two `int` fields always, the others unless `null`. -/
def ofUser (u : User) : UserNode := ⟨some u.right, some u.machineNum, u.phone, u.token, u.email⟩

@[simp] theorem not_exists_absent : ¬ absent.Exists := fun h => h rfl

end UserNode

/-- The `user` node. -/
structure UserTree where
  nodes : Std.ExtTreeMap Int UserNode
  stored : ∀ (k : Int) (n : UserNode), nodes[k]? = some n → n.Exists

namespace UserTree

def empty : UserTree := ⟨∅, by simp⟩

/-- The node `user/{k}`. -/
def node (t : UserTree) (k : Int) : UserNode := t.nodes[k]?.getD .absent

/-- Make `n` the node `user/{k}`. -/
def put (t : UserTree) (k : Int) (n : UserNode) : UserTree :=
  if h : n.Exists then
    ⟨t.nodes.insert k n, by
      intro j m hm
      rw [Std.ExtTreeMap.getElem?_insert] at hm
      split_ifs at hm
      · exact Option.some.inj hm ▸ h
      · exact t.stored j m hm⟩
  else
    ⟨t.nodes.erase k, by
      intro j m hm
      rw [Std.ExtTreeMap.getElem?_erase] at hm
      split_ifs at hm
      exact t.stored j m hm⟩

@[simp] theorem node_empty (k : Int) : empty.node k = .absent := by
  simp [node, empty]

theorem node_put (t : UserTree) (k j : Int) (n : UserNode) :
    (t.put k n).node j = if k = j then n else t.node j := by
  unfold put node
  split_ifs with hn hk hk
  · simp [hk]
  · simp [Std.ExtTreeMap.getElem?_insert, hk]
  · subst hk
    simpa [UserNode.Exists, eq_comm] using hn
  · simp [Std.ExtTreeMap.getElem?_erase, hk]

@[simp] theorem node_put_self (t : UserTree) (k : Int) (n : UserNode) : (t.put k n).node k = n := by
  simp [node_put]

theorem node_put_of_ne (t : UserTree) {k j : Int} (n : UserNode) (h : k ≠ j) :
    (t.put k n).node j = t.node j := by
  simp [node_put, h]

/-! ## The writes -/

/-- `child("user").child(String.valueOf(user.machine_num)).setValue(user)`. -/
def updateUserData (t : UserTree) (u : User) : UserTree := t.put u.machineNum (.ofUser u)

/-- `child("user").child(String.valueOf(machineNum)).child("token").setValue(token)`. -/
def updateToken (t : UserTree) (machineNum : Int) (token : Option String) : UserTree :=
  t.put machineNum { t.node machineNum with token := token }

/-- `child("user").child(String.valueOf(machineNum)).removeValue()`. -/
def removeUserData (t : UserTree) (machineNum : Int) : UserTree := t.put machineNum .absent

/-! ## Reading a snapshot -/

/-- The children of the snapshot, in the order of their keys. -/
def children (t : UserTree) : List UserNode := t.nodes.toList.map (·.2)

/-- The users a listener builds from the children of the snapshot. -/
def users (t : UserTree) : List User := t.children.map UserNode.getValue

theorem mem_children {t : UserTree} {n : UserNode} :
    n ∈ t.children ↔ n.Exists ∧ ∃ k, t.node k = n := by
  simp only [children, List.mem_map, Prod.exists, Std.ExtTreeMap.mem_toList_iff_getElem?_eq_some,
    exists_eq_right, node]
  constructor
  · rintro ⟨k, hk⟩
    exact ⟨t.stored k n hk, k, by simp [hk]⟩
  · rintro ⟨hn, k, hk⟩
    refine ⟨k, ?_⟩
    cases h : t.nodes[k]? with
    | none => exact absurd (by simpa [h] using hk.symm) hn
    | some m => simpa [h] using hk

theorem mem_toList_of_exists {t : UserTree} {k : Int} (h : (t.node k).Exists) :
    (k, t.node k) ∈ t.nodes.toList := by
  rw [Std.ExtTreeMap.mem_toList_iff_getElem?_eq_some]
  cases hget : t.nodes[k]? with
  | none => exact absurd (by simp [node, hget]) h
  | some m => simp [node, hget]

theorem mem_users {t : UserTree} {u : User} :
    u ∈ t.users ↔ ∃ k, (t.node k).Exists ∧ (t.node k).getValue = u := by
  simp only [users, List.mem_map, mem_children]
  constructor
  · rintro ⟨n, ⟨hn, k, rfl⟩, rfl⟩
    exact ⟨k, hn, rfl⟩
  · rintro ⟨k, hn, rfl⟩
    exact ⟨_, ⟨hn, k, rfl⟩, rfl⟩

end UserTree

end DollMachine
