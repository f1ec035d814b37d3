import Mathlib.Data.List.Perm.Subperm

/-!
# Exclusive holdings

Each holder `d` has a list `h d` of the values it holds, and `Exclusive h` says that no value is
held twice.  It survives when holders let go of values (`Exclusive.shrink`), and when one of them
takes a value that nobody holds (`Exclusive.take`); a value that one holder lets go is held by
nobody (`Exclusive.release`).

The values may be read off a list of entries by a function `f`; the lemmas about `eraseIdx` and
`set` say what becomes of them when an entry goes or changes.
-/

namespace Holdings

variable {D α β : Type*} {h h' : D → List β} {d : D} {b : β}

/-- No value is held twice, by one holder or by two. -/
structure Exclusive (h : D → List β) : Prop where
  nodup : ∀ d, (h d).Nodup
  apart : ∀ d d', d ≠ d' → ∀ b ∈ h d, b ∉ h d'

theorem exclusive_of_nil (hnil : ∀ d, h d = []) : Exclusive h where
  nodup d := by rw [hnil d]; exact List.nodup_nil
  apart d _ _ b hb := by simp [hnil d] at hb

theorem Exclusive.shrink (H : Exclusive h) (sub : ∀ d, (h' d).Subperm (h d)) : Exclusive h' where
  nodup d := by
    obtain ⟨l, hperm, hsub⟩ := sub d
    exact hperm.nodup_iff.1 ((H.nodup d).sublist hsub)
  apart d d' hd b hb hb' := H.apart d d' hd b ((sub d).subset hb) ((sub d').subset hb')

theorem Exclusive.take (H : Exclusive h) (free : ∀ d', b ∉ h d') (self : (h' d).Perm (b :: h d))
    (other : ∀ d', d' ≠ d → h' d' = h d') : Exclusive h' := by
  have hmem : ∀ d' c, c ∈ h' d' → c ∈ h d' ∨ d' = d ∧ c = b := by
    intro d' c hc
    by_cases hd : d' = d
    · subst hd
      rcases List.mem_cons.1 (self.mem_iff.1 hc) with hc | hc
      · exact .inr ⟨rfl, hc⟩
      · exact .inl hc
    · exact .inl (other d' hd ▸ hc)
  refine ⟨fun d' => ?_, fun d₁ d₂ hne c h₁ h₂ => ?_⟩
  · by_cases hd : d' = d
    · subst hd
      exact self.nodup_iff.2 (List.nodup_cons.2 ⟨free d', H.nodup d'⟩)
    · rw [other d' hd]
      exact H.nodup d'
  · rcases hmem d₁ c h₁ with h₁ | ⟨rfl, rfl⟩ <;> rcases hmem d₂ c h₂ with h₂ | ⟨rfl, hc⟩
    · exact H.apart d₁ d₂ hne c h₁ h₂
    · exact free d₁ (hc ▸ h₁)
    · exact free d₂ h₂
    · exact hne rfl

theorem Exclusive.release {l : List β} (H : Exclusive h) (hd : (h d).Perm (b :: l)) :
    b ∉ l ∧ ∀ d', d' ≠ d → b ∉ h d' := by
  have hb : b ∈ h d := hd.mem_iff.2 List.mem_cons_self
  exact ⟨(List.nodup_cons.1 (hd.nodup_iff.1 (H.nodup d))).1,
    fun d' hne => H.apart d d' (Ne.symm hne) b hb⟩

/-! ## Values read off a list of entries -/

variable {f : α → Option β} {l : List α} {i : Nat} {p q : α}

theorem filterMap_perm_eraseIdx (hp : l[i]? = some p) :
    (l.filterMap f).Perm ((p :: l.eraseIdx i).filterMap f) := by
  obtain ⟨hi, rfl⟩ := List.getElem?_eq_some_iff.1 hp
  exact ((List.getElem_cons_eraseIdx_perm hi).filterMap f).symm

theorem filterMap_set_perm (hp : l[i]? = some p) :
    ((l.set i q).filterMap f).Perm ((q :: l.eraseIdx i).filterMap f) := by
  obtain ⟨hi, rfl⟩ := List.getElem?_eq_some_iff.1 hp
  exact (List.set_perm_cons_eraseIdx hi q).filterMap f

/-- A changed entry that has the value it had, or none, adds none. -/
theorem filterMap_set_subperm (hp : l[i]? = some p) (hq : f q = none ∨ f q = f p) :
    ((l.set i q).filterMap f).Subperm (l.filterMap f) := by
  refine (filterMap_set_perm hp).subperm.trans (.trans ?_ (filterMap_perm_eraseIdx hp).symm.subperm)
  rcases hq with hq | hq
  · rw [List.filterMap_cons_none hq]
    exact ((List.sublist_cons_self _ _).filterMap f).subperm
  · simp only [List.filterMap_cons, hq]
    exact .refl _

/-- A changed entry that had no value adds the one it has. -/
theorem filterMap_set_perm_cons (hp : l[i]? = some p) (hnone : f p = none) (hq : f q = some b) :
    ((l.set i q).filterMap f).Perm (b :: l.filterMap f) := by
  refine (filterMap_set_perm hp).trans ?_
  rw [List.filterMap_cons_some hq]
  refine List.Perm.cons b ?_
  have hl := (filterMap_perm_eraseIdx (f := f) hp).symm
  rwa [List.filterMap_cons_none hnone] at hl

end Holdings
