import BtApiBase.PyDict
import Mathlib.Algebra.GroupWithZero.Nat

/-!
# Indexes of two levels

An index groups entries under a first key, as a dictionary of dictionaries or of
lists. What is put under a new key makes its group, and a group that runs empty
is taken out.
-/

namespace PyIndexes

open PyDict

variable {K J V : Type*} [DecidableEq K] [DecidableEq J]

/-! ## Dictionaries of dictionaries -/

/-- `d.get(k, {}).get(j)` -/
def entry (d : Dict K (Dict J V)) (k : K) (j : J) : Option V := (d.get k).bind fun inner => inner.get j

/-- `d.setdefault(k, {})[j] = v` -/
def enter (d : Dict K (Dict J V)) (k : K) (j : J) (v : V) : Dict K (Dict J V) :=
  d.set k (((d.get k).getD Dict.empty).set j v)

/-- `j` is popped from the group of `k`, which is popped when it is empty then. -/
def discard (d : Dict K (Dict J V)) (k : K) (j : J) : Dict K (Dict J V) :=
  match d.get k with
  | none => d
  | some inner => if (inner.pop j).items.isEmpty then d.pop k else d.set k (inner.pop j)

/-- No group is empty. -/
def Pruned (d : Dict K (Dict J V)) : Prop := ∀ k inner, d.get k = some inner → inner.items ≠ []

theorem get_of_isEmpty {d : Dict J V} (h : d.items.isEmpty = true) (j : J) : d.get j = none := by
  rw [Dict.get, List.isEmpty_iff.mp h, find_nil]

theorem entry_enter (d : Dict K (Dict J V)) (k k' : K) (j j' : J) (v : V) :
    entry (enter d k j v) k' j' = if k' = k ∧ j' = j then some v else entry d k' j' := by
  by_cases hk : k' = k
  · subst hk
    simp only [entry, enter, Dict.get_set, if_true, Option.bind_some, true_and]
    cases d.get k' with
    | none => simp [Dict.get, Dict.empty]
    | some inner => rfl
  · simp [entry, enter, Dict.get_set, hk]

theorem entry_discard (d : Dict K (Dict J V)) (k k' : K) (j j' : J) :
    entry (discard d k j) k' j' = if k' = k ∧ j' = j then none else entry d k' j' := by
  unfold discard entry
  cases hd : d.get k with
  | none =>
    by_cases hk : k' = k
    · simp [hk, hd]
    · simp [hk]
  | some inner =>
    have hpop : (inner.pop j).get j' = if j' = j then none else inner.get j' := Dict.get_pop inner j j'
    by_cases hk : k' = k
    · subst hk
      dsimp only
      split
      · next hempty =>
        rw [get_of_isEmpty hempty] at hpop
        simpa [Dict.get_pop, hd] using hpop
      · simpa [Dict.get_set, hd] using hpop
    · dsimp only
      split <;> simp [Dict.get_pop, Dict.get_set, hk]

omit [DecidableEq J] in
theorem pruned_empty : Pruned (Dict.empty : Dict K (Dict J V)) := by
  intro k inner h
  cases h

theorem pruned_enter {d : Dict K (Dict J V)} (h : Pruned d) (k : K) (j : J) (v : V) :
    Pruned (enter d k j v) := by
  intro k' inner hk hempty
  rw [enter, Dict.get_set] at hk
  split at hk
  · have hget := Dict.get_set_same ((d.get k).getD Dict.empty) j v
    rw [Option.some.inj hk, get_of_isEmpty (List.isEmpty_iff.mpr hempty)] at hget
    cases hget
  · exact h k' inner hk hempty

theorem pruned_discard {d : Dict K (Dict J V)} (h : Pruned d) (k : K) (j : J) : Pruned (discard d k j) := by
  unfold discard
  cases hd : d.get k with
  | none => exact h
  | some inner =>
    intro k' inner' hk
    dsimp only at hk
    split at hk
    · rw [Dict.get_pop] at hk
      split at hk
      · cases hk
      · exact h k' inner' hk
    · next hrest =>
      rw [Dict.get_set] at hk
      split at hk
      · rw [← Option.some.inj hk]
        exact fun he => hrest (List.isEmpty_iff.mpr he)
      · exact h k' inner' hk

/-! ## Dictionaries of lists -/

/-- `d.get(k, [])` -/
def group (d : Dict K (List V)) (k : K) : List V := (d.get k).getD []

/-- `d.setdefault(k, []).append(v)` -/
def append (d : Dict K (List V)) (k : K) (v : V) : Dict K (List V) := d.set k (group d k ++ [v])

/-- The group of `k` is filtered, and popped when it is empty then. -/
def restrict (d : Dict K (List V)) (k : K) (p : V → Bool) : Dict K (List V) :=
  match d.get k with
  | none => d
  | some xs => if (xs.filter p).isEmpty then d.pop k else d.set k (xs.filter p)

theorem group_append (d : Dict K (List V)) (k k' : K) (v : V) :
    group (append d k v) k' = if k' = k then group d k ++ [v] else group d k' := by
  simp only [group, append, Dict.get_set]
  split <;> rfl

theorem group_restrict (d : Dict K (List V)) (k k' : K) (p : V → Bool) :
    group (restrict d k p) k' = if k' = k then (group d k).filter p else group d k' := by
  unfold restrict group
  cases hd : d.get k with
  | none =>
    by_cases hk : k' = k
    · simp [hk, hd]
    · simp [hk]
  | some xs =>
    dsimp only
    split
    · next hempty =>
      rw [Dict.get_pop]
      by_cases hk : k' = k
      · simp [hk, List.isEmpty_iff.mp hempty]
      · simp [hk]
    · rw [Dict.get_set]
      by_cases hk : k' = k
      · simp [hk]
      · simp [hk]

/-! ## The values as a whole -/

/-- An assignment takes out the value that stood there and puts in the new one. -/
theorem values_set_perm (d : Dict K V) (k : K) (v : V) :
    ((d.set k v).values ++ (d.get k).toList).Perm (d.values ++ [v]) := by
  obtain ⟨items, hn⟩ := d
  simp only [Dict.values, Dict.set, Dict.get]
  clear hn
  induction items with
  | nil => exact .refl _
  | cons kv items ih =>
    by_cases hk : kv.1 = k
    · simp only [put, find, hk, beq_self_eq_true, if_true, List.map_cons, Option.toList_some]
      have hswap : (v :: (items.map Prod.snd ++ [kv.2])).Perm (v :: kv.2 :: items.map Prod.snd) :=
        (List.perm_append_singleton _ _).cons v
      exact (hswap.trans (.swap _ _ _)).trans ((List.perm_append_singleton _ _).symm.cons kv.2)
    · simp only [put, find, beq_iff_eq, hk, if_false, List.map_cons, List.cons_append]
      exact ih.cons kv.2

theorem values_pop_perm (d : Dict K V) (k : K) : ((d.pop k).values ++ (d.get k).toList).Perm d.values := by
  obtain ⟨items, hn⟩ := d
  simp only [Dict.values, Dict.pop, Dict.get]
  induction items with
  | nil => exact .refl _
  | cons kv items ih =>
    obtain ⟨hkv, hn⟩ := List.nodup_cons.mp hn
    by_cases hk : kv.1 = k
    · have hrest : drop (· == k) items = items := by
        refine List.filter_eq_self.mpr fun x hx => ?_
        have hne : x.1 ≠ k := fun he => hkv (hk ▸ he ▸ List.mem_map_of_mem hx)
        simp [hne]
      have hdrop : drop (· == k) (kv :: items) = items := by
        simp only [drop, List.filter_cons, hk, beq_self_eq_true, Bool.not_true, Bool.false_eq_true,
          if_false]
        exact hrest
      rw [hdrop]
      simp only [find, hk, beq_self_eq_true, if_true, Option.toList_some, List.map_cons]
      exact List.perm_append_singleton _ _
    · have hdrop : drop (· == k) (kv :: items) = kv :: drop (· == k) items := by simp [drop, hk]
      rw [hdrop]
      simp only [find, beq_iff_eq, hk, if_false, List.map_cons, List.cons_append]
      exact (ih hn).cons kv.2

/-- An assignment replaces the old value in the count, if there was one. -/
theorem countP_values_set (d : Dict K V) (k : K) (v : V) (p : V → Bool) :
    (d.set k v).values.countP p + (d.get k).toList.countP p = d.values.countP p + [v].countP p := by
  have h := (values_set_perm d k v).countP_eq p
  rwa [List.countP_append, List.countP_append] at h

theorem countP_values_pop (d : Dict K V) (k : K) (p : V → Bool) :
    (d.pop k).values.countP p + (d.get k).toList.countP p = d.values.countP p := by
  have h := (values_pop_perm d k).countP_eq p
  rwa [List.countP_append] at h

theorem sum_values_set (d : Dict K V) (k : K) (v : V) (f : V → Nat) :
    ((d.set k v).values.map f).sum + ((d.get k).toList.map f).sum = (d.values.map f).sum + f v := by
  have h := ((values_set_perm d k v).map f).sum_nat
  simpa using h

theorem sum_values_pop (d : Dict K V) (k : K) (f : V → Nat) :
    ((d.pop k).values.map f).sum + ((d.get k).toList.map f).sum = (d.values.map f).sum := by
  have h := ((values_pop_perm d k).map f).sum_nat
  simpa using h

end PyIndexes
