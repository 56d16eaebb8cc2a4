import Mathlib.Data.List.Nodup

/-!
# Insertion-ordered dictionaries

An assignment to a key that is present replaces the value where it stands and
one to a new key appends, so iteration follows the order of first insertion.
The list operations take the test a key has to pass, because a Python key can
equal another without being the same object; `Dict` fixes the test to equality
and carries the fact that no key stands twice.
-/

namespace PyDict

variable {K V : Type*}

/-- The value at the first key that passes `p`. -/
def find (p : K → Bool) : List (K × V) → Option V
  | [] => none
  | (k, v) :: rest => if p k then some v else find p rest

/-- Replace the value at the first key that passes `p`, or append `k`. -/
def put (p : K → Bool) (k : K) (v : V) : List (K × V) → List (K × V)
  | [] => [(k, v)]
  | (k', v') :: rest => if p k' then (k', v) :: rest else (k', v') :: put p k v rest

def drop (p : K → Bool) (items : List (K × V)) : List (K × V) :=
  items.filter fun kv => !p kv.1

@[simp] theorem find_nil (p : K → Bool) : find p ([] : List (K × V)) = none := rfl

theorem find_put_same {p : K → Bool} {k : K} (hk : p k = true) (v : V) (items : List (K × V)) :
    find p (put p k v items) = some v := by
  induction items with
  | nil => simp [put, find, hk]
  | cons kv rest ih =>
    by_cases h : p kv.1 = true
    · simp [put, find, h]
    · simp [put, find, h, ih]

/-- Two tests that no key passes together do not see each other's writes. -/
theorem find_put_other {p q : K → Bool} {k : K} (hpq : ∀ x, p x = true → q x = false)
    (hk : p k = true) (v : V) (items : List (K × V)) :
    find q (put p k v items) = find q items := by
  induction items with
  | nil => simp [put, find, hpq k hk]
  | cons kv rest ih =>
    by_cases h : p kv.1 = true
    · simp [put, find, h, hpq kv.1 h]
    · simp [put, find, h, ih]

theorem find_drop_same (p : K → Bool) (items : List (K × V)) : find p (drop p items) = none := by
  induction items with
  | nil => rfl
  | cons kv rest ih =>
    by_cases h : p kv.1 = true
    · simpa [drop, h] using ih
    · simpa [drop, h, find] using ih

/-- A filter on the keys that lets the wanted one through. -/
theorem find_filter {p q : K → Bool} (hpq : ∀ x, p x = true → q x = true) (items : List (K × V)) :
    find p (items.filter fun kv => q kv.1) = find p items := by
  induction items with
  | nil => rfl
  | cons kv items ih =>
    by_cases hp : p kv.1 = true
    · simp [List.filter, hpq kv.1 hp, find, hp]
    · by_cases hq : q kv.1 = true
      · simp [List.filter, hq, find, hp, ih]
      · simp [List.filter, hq, find, hp, ih]

theorem find_drop_other {p q : K → Bool} (hpq : ∀ x, p x = true → q x = false)
    (items : List (K × V)) : find q (drop p items) = find q items := by
  apply find_filter (q := fun x => !p x)
  intro x hx
  cases hp : p x with
  | false => rfl
  | true =>
    rw [hpq x hp] at hx
    cases hx

theorem find_isSome (p : K → Bool) (items : List (K × V)) :
    (find p items).isSome ↔ ∃ kv ∈ items, p kv.1 = true := by
  induction items with
  | nil => simp
  | cons kv rest ih =>
    by_cases h : p kv.1 = true <;> simp [find, h, ih]

theorem mem_of_find {p : K → Bool} {v : V} {items : List (K × V)} (h : find p items = some v) :
    ∃ kv ∈ items, p kv.1 = true ∧ kv.2 = v := by
  induction items with
  | nil => cases h
  | cons kv rest ih =>
    by_cases hp : p kv.1 = true
    · simp only [find, hp, if_true, Option.some.injEq] at h
      exact ⟨kv, List.mem_cons_self, hp, h⟩
    · simp only [find, hp, Bool.false_eq_true, if_false] at h
      obtain ⟨e, he, hpv⟩ := ih h
      exact ⟨e, List.mem_cons_of_mem _ he, hpv⟩

theorem keys_put [DecidableEq K] (k : K) (v : V) (items : List (K × V)) :
    (put (· == k) k v items).map Prod.fst =
      if k ∈ items.map Prod.fst then items.map Prod.fst else items.map Prod.fst ++ [k] := by
  induction items with
  | nil => simp [put]
  | cons kv rest ih =>
    by_cases h : kv.1 = k
    · simp [put, h]
    · have hk : k ≠ kv.1 := fun he => h he.symm
      simp only [put, beq_iff_eq, h, ↓reduceIte, List.map_cons, ih, List.mem_cons, hk, false_or]
      split <;> simp

/-- The items under other keys stay at their places. -/
theorem getElem?_put_other [DecidableEq K] {k j : K} (h : j ≠ k) (v x : V) (items : List (K × V)) (n : Nat) :
    (put (· == k) k v items)[n]? = some (j, x) ↔ items[n]? = some (j, x) := by
  induction items generalizing n with
  | nil => cases n <;> simp [put, h.symm]
  | cons kv rest ih =>
    by_cases hk : kv.1 = k
    · cases n with
      | zero =>
        have hne : kv ≠ (j, x) := fun he => h (by rw [← hk, he])
        simp [put, hk, h.symm, hne]
      | succ n => simp [put, hk]
    · cases n with
      | zero => simp [put, hk, Prod.ext_iff]
      | succ n => simpa [put, hk] using ih n

/-- A dictionary whose keys compare by equality; no key stands twice. -/
structure Dict (K V : Type*) where
  items : List (K × V)
  nodup : (items.map Prod.fst).Nodup

namespace Dict

def empty : Dict K V := ⟨[], by simp⟩

def keys (d : Dict K V) : List K := d.items.map Prod.fst
def values (d : Dict K V) : List V := d.items.map Prod.snd
def length (d : Dict K V) : Nat := d.items.length

variable [DecidableEq K]

def get (d : Dict K V) (k : K) : Option V := find (· == k) d.items

def set (d : Dict K V) (k : K) (v : V) : Dict K V where
  items := put (· == k) k v d.items
  nodup := by
    rw [keys_put]
    split
    · exact d.nodup
    · next h =>
      refine List.nodup_append.mpr ⟨d.nodup, by simp, ?_⟩
      intro a ha b hb he
      rw [List.mem_singleton] at hb
      exact h (hb ▸ he ▸ ha)

/-- `dict.pop(k, None)` without its value. -/
def pop (d : Dict K V) (k : K) : Dict K V where
  items := drop (· == k) d.items
  nodup := d.nodup.sublist (List.Sublist.map _ List.filter_sublist)

@[simp] theorem get_empty (k : K) : (empty : Dict K V).get k = none := rfl

theorem get_set (d : Dict K V) (k j : K) (v : V) :
    (d.set k v).get j = if j = k then some v else d.get j := by
  split
  · next h => subst h; exact find_put_same (by simp) v d.items
  · next h =>
    refine find_put_other (fun x hx => ?_) (by simp) v d.items
    simp only [beq_iff_eq] at hx
    subst hx
    simpa using fun he => h he.symm

@[simp] theorem get_set_same (d : Dict K V) (k : K) (v : V) : (d.set k v).get k = some v := by
  simp [get_set]

theorem get_set_other (d : Dict K V) {k j : K} (v : V) (h : j ≠ k) :
    (d.set k v).get j = d.get j := by simp [get_set, h]

theorem get_pop (d : Dict K V) (k j : K) :
    (d.pop k).get j = if j = k then none else d.get j := by
  split
  · next h => subst h; exact find_drop_same _ d.items
  · next h =>
    simp only [get, pop]
    refine find_drop_other (fun x hx => ?_) d.items
    simp only [beq_iff_eq] at hx
    subst hx
    simpa using fun he => h he.symm

theorem get_of_mem (d : Dict K V) {k : K} {v : V} (h : (k, v) ∈ d.items) : d.get k = some v := by
  obtain ⟨items, hn⟩ := d
  simp only [get]
  induction items with
  | nil => cases h
  | cons kv rest ih =>
    obtain ⟨hkv, hn⟩ := List.nodup_cons.mp hn
    rcases List.mem_cons.mp h with rfl | h
    · simp [find]
    · have hne : kv.1 ≠ k := fun he => hkv (he ▸ List.mem_map_of_mem h)
      simpa [find, hne] using ih hn h

theorem mem_of_get {d : Dict K V} {k : K} {v : V} (h : d.get k = some v) : (k, v) ∈ d.items := by
  obtain ⟨⟨k', v'⟩, hm, hk, rfl⟩ := mem_of_find h
  obtain rfl : k' = k := by simpa using hk
  exact hm

theorem keys_set (d : Dict K V) (k : K) (v : V) :
    (d.set k v).keys = if k ∈ d.keys then d.keys else d.keys ++ [k] := keys_put k v d.items

theorem mem_keys (d : Dict K V) (k : K) : k ∈ d.keys ↔ (d.get k).isSome := by
  simp [keys, get, find_isSome]

/-- An assignment to a key that is there adds none. -/
theorem keys_set_of_get {d : Dict K V} {k : K} (v : V) (h : (d.get k).isSome) :
    (d.set k v).keys = d.keys := by
  rw [keys_set, if_pos ((mem_keys d k).mpr h)]

/-- A dictionary is given by its keys in order and what stands under them. -/
theorem ext_get {d d' : Dict K V} (hk : d.keys = d'.keys) (hg : ∀ k, d.get k = d'.get k) : d = d' := by
  have hitems : ∀ d : Dict K V,
      d.keys.map (fun k => (k, d.get k)) = d.items.map fun kv => (kv.1, some kv.2) := by
    intro d
    rw [keys, List.map_map]
    refine List.map_congr_left fun kv hkv => ?_
    simp [get_of_mem d hkv]
  have hsame : d.items.map (fun kv => (kv.1, some kv.2)) = d'.items.map fun kv => (kv.1, some kv.2) := by
    rw [← hitems d, ← hitems d', hk]
    exact List.map_congr_left fun k _ => by rw [hg k]
  have hinj : Function.Injective fun kv : K × V => (kv.1, some kv.2) := by
    rintro ⟨k, v⟩ ⟨k', v'⟩ h
    simpa using h
  obtain ⟨items, hn⟩ := d
  obtain ⟨items', hn'⟩ := d'
  obtain rfl : items = items' := List.map_injective_iff.mpr hinj hsame
  rfl

end Dict

end PyDict
