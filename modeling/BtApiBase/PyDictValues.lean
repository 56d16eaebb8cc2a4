import BtApiBase.PyDict

/-!
# Dictionaries with other values

A function on the values leaves the keys and their order as they are, and commutes with the
assignment to a key, with its removal and with the lookup. An assignment changes the number of
values of a kind by the value that goes and the one that comes.
-/

namespace PyDict

variable {K V W : Type*}

theorem map_put (p : K → Bool) (k : K) (v : V) (f : V → W) (items : List (K × V)) :
    (put p k v items).map (fun kv => (kv.1, f kv.2)) =
      put p k (f v) (items.map fun kv => (kv.1, f kv.2)) := by
  induction items with
  | nil => rfl
  | cons kv rest ih =>
    by_cases h : p kv.1 = true
    · simp [put, h]
    · simp [put, h, ih]

theorem map_drop (p : K → Bool) (f : V → W) (items : List (K × V)) :
    (drop p items).map (fun kv => (kv.1, f kv.2)) = drop p (items.map fun kv => (kv.1, f kv.2)) := by
  induction items with
  | nil => rfl
  | cons kv rest ih =>
    by_cases h : p kv.1 = true
    · simpa [drop, h] using ih
    · simpa [drop, h] using ih

theorem find_map (p : K → Bool) (f : V → W) (items : List (K × V)) :
    find p (items.map fun kv => (kv.1, f kv.2)) = (find p items).map f := by
  induction items with
  | nil => rfl
  | cons kv rest ih =>
    by_cases h : p kv.1 = true
    · simp [find, h]
    · simp [find, h, ih]

theorem countP_put [DecidableEq K] (k : K) (v : V) (p : V → Bool) (items : List (K × V)) :
    ((put (· == k) k v items).map Prod.snd).countP p + (if (find (· == k) items).any p then 1 else 0) =
      (items.map Prod.snd).countP p + (if p v then 1 else 0) := by
  induction items with
  | nil => simp [put, List.countP_cons]
  | cons kv rest ih =>
    by_cases h : kv.1 = k
    · simp only [put, find, beq_iff_eq, h, ↓reduceIte, List.map_cons, List.countP_cons, Option.any_some]
      omega
    · simp only [put, find, beq_iff_eq, h, ↓reduceIte, List.map_cons, List.countP_cons]
      omega

namespace Dict

theorem eq_of_items {d d' : Dict K V} (h : d.items = d'.items) : d = d' := by
  obtain ⟨items, hn⟩ := d
  obtain ⟨items', hn'⟩ := d'
  obtain rfl : items = items' := h
  rfl

/-- The same keys in the same order, with `f` of what stands under them. -/
def mapValues (d : Dict K V) (f : V → W) : Dict K W where
  items := d.items.map fun kv => (kv.1, f kv.2)
  nodup := by
    rw [List.map_map]
    exact d.nodup

@[simp] theorem length_mapValues (d : Dict K V) (f : V → W) : (d.mapValues f).length = d.length :=
  List.length_map _

theorem mapValues_congr {d : Dict K V} {f g : V → W} (h : ∀ kv ∈ d.items, f kv.2 = g kv.2) :
    d.mapValues f = d.mapValues g :=
  eq_of_items (List.map_congr_left fun kv hkv => by rw [h kv hkv])

variable [DecidableEq K]

theorem mapValues_set (d : Dict K V) (k : K) (v : V) (f : V → W) :
    (d.set k v).mapValues f = (d.mapValues f).set k (f v) := eq_of_items (map_put _ k v f d.items)

theorem mapValues_pop (d : Dict K V) (k : K) (f : V → W) :
    (d.pop k).mapValues f = (d.mapValues f).pop k := eq_of_items (map_drop (· == k) f d.items)

@[simp] theorem get_mapValues (d : Dict K V) (f : V → W) (k : K) :
    (d.mapValues f).get k = (d.get k).map f := find_map _ f d.items

/-- The value that goes is counted out, the one that comes is counted in. -/
theorem countP_set (d : Dict K V) (k : K) (v : V) (p : V → Bool) :
    (d.set k v).values.countP p + (if (d.get k).any p then 1 else 0) =
      d.values.countP p + (if p v then 1 else 0) := countP_put k v p d.items

theorem pop_of_absent {d : Dict K V} {k : K} (h : d.get k = none) : d.pop k = d := by
  apply eq_of_items
  refine List.filter_eq_self.mpr fun kv hkv => ?_
  have hne : kv.1 ≠ k := by
    rintro rfl
    have hget := d.get_of_mem (k := kv.1) (v := kv.2) hkv
    rw [h] at hget
    cases hget
  simpa using hne

end Dict

end PyDict
