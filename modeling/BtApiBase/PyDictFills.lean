import BtApiBase.PyDict
import Mathlib.Algebra.BigOperators.Group.List.Basic

/-!
# Dictionaries filled from a list

The elements of a list are assigned one after the other, each under its key. An element whose
key comes again is overwritten; what is left of the list is what the dictionary holds.
-/

namespace PyDictFills

open PyDict

theorem put_of_new {K V : Type} {p : K → Bool} {items : List (K × V)} (h : find p items = none) (k : K) (v : V) :
    put p k v items = items ++ [(k, v)] := by
  induction items with
  | nil => rfl
  | cons item items ih =>
    by_cases hp : p item.1 = true
    · simp [find, hp] at h
    · simp only [find, hp, Bool.false_eq_true, if_false] at h
      simp [put, hp, ih h]

variable {α K V M : Type} [DecidableEq K] (key : α → K) (value : α → V)

def fill (d : Dict K V) (as : List α) : Dict K V :=
  as.foldl (fun d a => d.set (key a) (value a)) d

/-- The elements whose key does not come again. -/
def kept : List α → List α
  | [] => []
  | a :: as => if key a ∈ as.map key then kept as else a :: kept as

/-- The elements whose key comes again. -/
def overwritten : List α → List α
  | [] => []
  | a :: as => if key a ∈ as.map key then a :: overwritten as else overwritten as

theorem kept_sublist (as : List α) : (kept key as).Sublist as := by
  induction as with
  | nil => exact List.Sublist.slnil
  | cons a as ih =>
    unfold kept
    split
    · exact ih.cons a
    · exact ih.cons_cons a

theorem perm_overwritten (as : List α) : (kept key as ++ overwritten key as).Perm as := by
  induction as with
  | nil => exact List.Perm.nil
  | cons a as ih =>
    unfold kept overwritten
    split
    · exact List.perm_middle.trans (ih.cons a)
    · exact ih.cons a

theorem nodup_kept (as : List α) : ((kept key as).map key).Nodup := by
  induction as with
  | nil => exact List.nodup_nil
  | cons a as ih =>
    unfold kept
    split
    · exact ih
    · next hnew =>
      apply List.nodup_cons.mpr
      refine ⟨?_, ih⟩
      intro hmem
      exact hnew (((kept_sublist key as).map key).subset hmem)

variable {key value}

theorem get_fill (d : Dict K V) (as : List α) (k : K) (v : V) :
    (fill key value d as).get k = some v ↔
      (∃ a ∈ kept key as, key a = k ∧ value a = v) ∨ k ∉ as.map key ∧ d.get k = some v := by
  induction as generalizing d with
  | nil => simp [fill, kept]
  | cons a as ih =>
    have hstep : fill key value d (a :: as) = fill key value (d.set (key a) (value a)) as := rfl
    rw [hstep, ih, Dict.get_set]
    by_cases hk : k = key a
    · subst hk
      by_cases hagain : key a ∈ as.map key
      · simp [kept, hagain]
      · have hnone : ∀ b ∈ kept key as, key b ≠ key a := by
          intro b hb heq
          exact hagain (heq ▸ List.mem_map_of_mem ((kept_sublist key as).subset hb))
        simp only [kept, hagain, if_false, not_false_eq_true, true_and, if_true, Option.some.injEq,
          List.mem_cons, List.map_cons, not_true_eq_false, false_and, or_false]
        constructor
        · rintro (⟨b, hb, heq, -⟩ | rfl)
          · exact absurd heq (hnone b hb)
          · exact ⟨a, .inl rfl, rfl, rfl⟩
        · rintro ⟨b, rfl | hb, heq, rfl⟩
          · exact .inr rfl
          · exact absurd heq (hnone b hb)
    · have hother : ∀ b, key b = k → b ≠ a := by
        rintro b rfl rfl
        exact hk rfl
      by_cases hagain : key a ∈ as.map key
      · simp [kept, hagain, hk]
      · simp only [kept, hagain, if_false, hk, List.mem_cons, List.map_cons, false_or]
        constructor
        · rintro (⟨b, hb, heq, hv⟩ | hd)
          · exact .inl ⟨b, .inr hb, heq, hv⟩
          · exact .inr hd
        · rintro (⟨b, rfl | hb, heq, hv⟩ | hd)
          · exact absurd rfl (hother b heq)
          · exact .inl ⟨b, hb, heq, hv⟩
          · exact .inr hd

theorem items_fill (as : List α) :
    (fill key value Dict.empty as).items.Perm ((kept key as).map fun a => (key a, value a)) := by
  have hitems : (fill key value Dict.empty as).items.Nodup := List.Nodup.of_map _ (Dict.nodup _)
  have hkept : ((kept key as).map fun a => (key a, value a)).Nodup := by
    apply List.Nodup.of_map Prod.fst
    rw [List.map_map]
    exact nodup_kept key as
  apply (List.perm_ext_iff_of_nodup hitems hkept).mpr
  rintro ⟨k, v⟩
  have hmem : (k, v) ∈ (fill key value Dict.empty as).items ↔ (fill key value Dict.empty as).get k = some v :=
    ⟨Dict.get_of_mem _, Dict.mem_of_get⟩
  rw [hmem, get_fill]
  simp

theorem get_fill_of_not_mem (d : Dict K V) {as : List α} {k : K} (h : k ∉ as.map key) :
    (fill key value d as).get k = d.get k := by
  induction as generalizing d with
  | nil => rfl
  | cons a as ih =>
    rw [List.map_cons, List.mem_cons, not_or] at h
    exact (ih (d.set (key a) (value a)) h.2).trans (Dict.get_set_other d _ h.1)

theorem get_fill_of_mem (d : Dict K V) {as : List α} (hn : (as.map key).Nodup) {a : α} (ha : a ∈ as) :
    (fill key value d as).get (key a) = some (value a) := by
  induction as generalizing d with
  | nil => cases ha
  | cons b as ih =>
    obtain ⟨hb, hn⟩ := List.nodup_cons.mp hn
    rcases List.mem_cons.mp ha with rfl | ha
    · exact (get_fill_of_not_mem (d.set (key a) (value a)) hb).trans (Dict.get_set_same ..)
    · exact ih (d.set (key b) (value b)) hn ha

/-- New keys, each given once, stand behind the others in their order. -/
theorem items_fill_of_new {d : Dict K V} {as : List α} (hd : ∀ a ∈ as, d.get (key a) = none)
    (hn : (as.map key).Nodup) :
    (fill key value d as).items = d.items ++ as.map fun a => (key a, value a) := by
  induction as generalizing d with
  | nil => exact (List.append_nil _).symm
  | cons a as ih =>
    obtain ⟨ha, hn⟩ := List.nodup_cons.mp hn
    have hset : (d.set (key a) (value a)).items = d.items ++ [(key a, value a)] :=
      put_of_new (hd a List.mem_cons_self) (key a) (value a)
    have hrest : ∀ b ∈ as, (d.set (key a) (value a)).get (key b) = none := by
      intro b hb
      have hne : key b ≠ key a := by
        intro heq
        exact ha (heq ▸ List.mem_map_of_mem hb)
      rw [Dict.get_set_other d _ hne]
      exact hd b (List.mem_cons_of_mem a hb)
    have hfill : fill key value d (a :: as) = fill key value (d.set (key a) (value a)) as := rfl
    rw [hfill, ih hrest hn, hset, List.map_cons, List.append_assoc]
    rfl

/-- Two fillings by the same keys have the same keys. -/
theorem keys_fill {W : Type} {other : α → W} {d : Dict K V} {e : Dict K W} (h : d.keys = e.keys) (as : List α) :
    (fill key value d as).keys = (fill key other e as).keys := by
  induction as generalizing d e with
  | nil => exact h
  | cons a as ih =>
    apply ih
    rw [Dict.keys_set, Dict.keys_set, h]

variable (key value)

/-- What is overwritten is what the sum of a filled dictionary lacks. -/
theorem sum_fill [AddCommMonoid M] (g : V → M) (as : List α) :
    ((fill key value Dict.empty as).values.map g).sum + ((overwritten key as).map fun a => g (value a)).sum =
      (as.map fun a => g (value a)).sum := by
  have hvalues : ((fill key value Dict.empty as).values.map g).sum = ((kept key as).map fun a => g (value a)).sum := by
    have hitems : (fill key value Dict.empty as).items.Perm _ := items_fill as
    have hperm := (hitems.map (fun e => g e.2)).sum_eq
    rw [List.map_map] at hperm
    rw [Dict.values, List.map_map]
    exact hperm
  rw [hvalues, ← List.sum_append, ← List.map_append]
  exact ((perm_overwritten key as).map _).sum_eq

end PyDictFills
