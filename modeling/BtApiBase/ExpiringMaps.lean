import BtApiBase.PyDict
import Mathlib.Order.Lattice

/-!
# Maps with expiry and recency

What a history of operations says about a map whose entries expire and that throws
entries out: the entry that stands under a key, and when a key was last used. A store
in the order of last use reflects the history when it holds what stands, up to entries
that have expired, and this is what each operation on it has to keep.
-/

namespace ExpiringMaps

open PyDict

variable {K V T : Type*} [DecidableEq K] [LinearOrder T]

/-- An entry that is set is given with the time it expires after. -/
inductive Op (K V T : Type*) where
  | get (k : K)
  | set (k : K) (v : V) (expiry : T)
  | delete (k : K)
  | clear
  | cleanup

/-- An operation, the time of it and the keys that were thrown out. -/
structure Event (K V T : Type*) where
  op : Op K V T
  time : T
  evicted : List K

/-- The newest event stands first. -/
abbrev History (K V T : Type*) := List (Event K V T)

/-- The last entry set under the key, unless it was deleted, cleared or thrown out
since. -/
def standing (k : K) : History K V T → Option (V × T)
  | [] => none
  | e :: older =>
    if k ∈ e.evicted then none
    else match e.op with
      | .set j v expiry => if j = k then some (v, expiry) else standing k older
      | .delete j => if j = k then none else standing k older
      | .clear => none
      | .get _ | .cleanup => standing k older

/-- What a reader finds under the key. -/
def lookup (k : K) (now : T) (history : History K V T) : Option V :=
  (standing k history).bind fun entry => if entry.2 < now then none else some entry.1

/-- Whether the event sets the key, or gets it with success. -/
def uses (k : K) (e : Event K V T) (older : History K V T) : Bool :=
  match e.op with
  | .set j _ _ => j = k
  | .get j => j = k && (lookup k e.time older).isSome
  | _ => false

/-- The number of the event that last used the key. -/
def lastUse (k : K) : History K V T → Nat
  | [] => 0
  | e :: older => if uses k e older then older.length + 1 else lastUse k older

theorem lastUse_le (k : K) (history : History K V T) : lastUse k history ≤ history.length := by
  induction history with
  | nil => exact Nat.le_refl 0
  | cons e older ih =>
    rw [lastUse, List.length_cons]
    split <;> omega

omit [LinearOrder T] in
theorem standing_evicted (k : K) (op : Op K V T) (time : T) (gone : List K) (older : History K V T) :
    standing k (⟨op, time, gone⟩ :: older) = if k ∈ gone then none else standing k (⟨op, time, []⟩ :: older) := by
  simp [standing]

theorem lastUse_evicted (k : K) (op : Op K V T) (time : T) (gone : List K) (older : History K V T) :
    lastUse k (⟨op, time, gone⟩ :: older) = lastUse k (⟨op, time, []⟩ :: older) := rfl

/-! ## Stores -/

/-- The store without the entries that do not pass. -/
def keep (p : V → Bool) (d : Dict K V) : Dict K V where
  items := d.items.filter fun kv => p kv.2
  nodup := d.nodup.sublist (List.Sublist.map _ List.filter_sublist)

theorem get_keep (p : V → Bool) (d : Dict K V) (k : K) : (keep p d).get k = (d.get k).filter p := by
  cases hd : d.get k with
  | none =>
    rw [Option.filter_none]
    cases hk : (keep p d).get k with
    | none => rfl
    | some v =>
      have hmem := List.mem_of_mem_filter (Dict.mem_of_get hk)
      rw [Dict.get_of_mem d hmem] at hd
      cases hd
  | some v =>
    by_cases hv : p v = true
    · have hmem : (k, v) ∈ (keep p d).items := List.mem_filter.mpr ⟨Dict.mem_of_get hd, hv⟩
      rw [Dict.get_of_mem _ hmem, Option.filter_some, if_pos hv]
    · rw [Option.filter_some, if_neg hv]
      cases hk : (keep p d).get k with
      | none => rfl
      | some w =>
        obtain ⟨hmem, hw⟩ := List.mem_filter.mp (Dict.mem_of_get hk)
        have hget := Dict.get_of_mem d hmem
        rw [hd, Option.some.injEq] at hget
        exact absurd (hget ▸ hw) hv

/-- What is left of a store is unchanged. -/
theorem get_of_sublist {d d' : Dict K V} (h : d'.items.Sublist d.items) {k : K} (hk : k ∈ d'.keys) :
    d'.get k = d.get k := by
  obtain ⟨⟨j, v⟩, hmem, rfl⟩ := List.mem_map.mp hk
  rw [Dict.get_of_mem _ hmem, Dict.get_of_mem _ (h.subset hmem)]

theorem keys_pop_sublist (d : Dict K V) (k : K) : (d.pop k).keys.Sublist d.keys :=
  List.Sublist.map _ List.filter_sublist

theorem not_mem_keys_pop (d : Dict K V) (k : K) : k ∉ (d.pop k).keys := by
  rw [Dict.mem_keys, Dict.get_pop, if_pos rfl]
  simp

theorem pop_of_absent {d : Dict K V} {k : K} (h : k ∉ d.keys) : d.pop k = d := by
  obtain ⟨items, hn⟩ := d
  have hitems : drop (· == k) items = items := by
    refine List.filter_eq_self.mpr fun kv hkv => ?_
    have hne : kv.1 ≠ k := fun he => h (List.mem_map.mpr ⟨kv, hkv, he⟩)
    simp [hne]
  simp only [Dict.pop, hitems]

/-- `move_to_end`, or the assignment after a `pop`: the key stands last. -/
def toEnd (d : Dict K V) (k : K) (v : V) : Dict K V := (d.pop k).set k v

theorem keys_toEnd (d : Dict K V) (k : K) (v : V) : (toEnd d k v).keys = (d.pop k).keys ++ [k] := by
  rw [toEnd, Dict.keys_set, if_neg (not_mem_keys_pop d k)]

theorem get_toEnd (d : Dict K V) (k j : K) (v : V) :
    (toEnd d k v).get j = if j = k then some v else d.get j := by
  rw [toEnd, Dict.get_set]
  split
  · rfl
  · next h => rw [Dict.get_pop, if_neg h]

/-! ## Stores that reflect a history -/

structure Reflects (store : Dict K (V × T)) (now : T) (history : History K V T) : Prop where
  stored : ∀ k entry, store.get k = some entry → standing k history = some entry
  dropped : ∀ k entry, standing k history = some entry → store.get k = none → entry.2 < now
  ordered : store.keys.Pairwise fun j k => lastUse j history < lastUse k history

theorem reflects_empty (now : T) : Reflects (.empty : Dict K (V × T)) now [] where
  stored k entry h := by cases h
  dropped k entry h := by cases h
  ordered := List.Pairwise.nil

variable {store : Dict K (V × T)} {now : T} {history : History K V T}

theorem Reflects.wait (h : Reflects store now history) {later : T} (hl : now ≤ later) :
    Reflects store later history where
  stored := h.stored
  dropped k entry hs hd := lt_of_lt_of_le (h.dropped k entry hs hd) hl
  ordered := h.ordered

/-- The history is answered from the store. -/
theorem Reflects.lookup_eq (h : Reflects store now history) (k : K) :
    lookup k now history = (store.get k).bind fun entry => if entry.2 < now then none else some entry.1 := by
  unfold lookup
  cases hk : store.get k with
  | some entry => rw [h.stored k entry hk]
  | none =>
    cases hs : standing k history with
    | none => rfl
    | some entry => simp [h.dropped k entry hs hk]

/-- An event that changes neither what stands nor what was used, on a store that has
lost entries which have expired. -/
theorem Reflects.lose (h : Reflects store now history) {e : Event K V T} {store' : Dict K (V × T)}
    (hstanding : ∀ k, standing k (e :: history) = standing k history)
    (huse : ∀ k, lastUse k (e :: history) = lastUse k history)
    (hkeys : store'.keys.Sublist store.keys)
    (hget : ∀ k entry, store'.get k = some entry → store.get k = some entry)
    (hlost : ∀ k entry, store.get k = some entry → store'.get k = none → entry.2 < now) :
    Reflects store' now (e :: history) where
  stored k entry hk := by
    rw [hstanding]
    exact h.stored k entry (hget k entry hk)
  dropped k entry hs hk := by
    rw [hstanding] at hs
    cases hd : store.get k with
    | none => exact h.dropped k entry hs hd
    | some entry' =>
      have hsame := (h.stored k entry' hd).symm.trans hs
      rw [Option.some.injEq] at hsame
      exact hsame ▸ hlost k entry' hd hk
  ordered := by
    simp only [huse]
    exact h.ordered.sublist hkeys

/-- The key is used and stands last. -/
theorem Reflects.use (h : Reflects store now history) {e : Event K V T} {k : K} {entry : V × T}
    (hk : standing k (e :: history) = some entry)
    (hstanding : ∀ j, j ≠ k → standing j (e :: history) = standing j history)
    (huse : ∀ j, uses j e history = decide (j = k)) :
    Reflects (toEnd store k entry) now (e :: history) where
  stored j entry' hj := by
    rw [get_toEnd] at hj
    split at hj
    · next he => rw [he, hk, hj]
    · next he =>
      rw [hstanding j he]
      exact h.stored j entry' hj
  dropped j entry' hs hj := by
    rw [get_toEnd] at hj
    split at hj
    · cases hj
    · next he =>
      rw [hstanding j he] at hs
      exact h.dropped j entry' hs hj
  ordered := by
    have hother : ∀ j ∈ (store.pop k).keys, lastUse j (e :: history) = lastUse j history := by
      intro j hj
      have hne : j ≠ k := by
        rintro rfl
        exact not_mem_keys_pop store j hj
      simp [lastUse, huse, hne]
    rw [keys_toEnd, List.pairwise_append]
    refine ⟨?_, List.pairwise_singleton _ _, fun j hj i hi => ?_⟩
    · refine (h.ordered.sublist (keys_pop_sublist store k)).imp_of_mem fun {a b} ha hb hab => ?_
      rw [hother a ha, hother b hb]
      exact hab
    · have hlast : lastUse k (e :: history) = history.length + 1 := by simp [lastUse, huse]
      have hle := lastUse_le j history
      rw [List.mem_singleton.mp hi, hother j hj, hlast]
      omega

theorem Reflects.delete (h : Reflects store now history) (k : K) (time : T) :
    Reflects (store.pop k) now (⟨.delete k, time, []⟩ :: history) where
  stored j entry hj := by
    rw [Dict.get_pop] at hj
    split at hj
    · cases hj
    · next he => simpa [standing, Ne.symm he] using h.stored j entry hj
  dropped j entry hs hj := by
    by_cases he : j = k
    · simp [standing, he] at hs
    · rw [Dict.get_pop, if_neg he] at hj
      exact h.dropped j entry (by simpa [standing, Ne.symm he] using hs) hj
  ordered := h.ordered.sublist (keys_pop_sublist store k)

theorem reflects_clear (now time : T) (history : History K V T) :
    Reflects .empty now (⟨.clear, time, []⟩ :: history) where
  stored k entry hk := by cases hk
  dropped k entry hs _ := by simp [standing] at hs
  ordered := List.Pairwise.nil

theorem Reflects.cleanup (h : Reflects store now history) (time : T) :
    Reflects (keep (fun entry => !decide (entry.2 < now)) store) now (⟨.cleanup, time, []⟩ :: history) := by
  refine h.lose (fun k => rfl) (fun k => rfl) (List.filter_sublist.map _) (fun k entry hk => ?_)
    fun k entry hd hk => ?_
  · rw [get_keep, Option.filter_eq_some_iff] at hk
    exact hk.1
  · rw [get_keep, hd, Option.filter_some] at hk
    split at hk
    · cases hk
    · next hexpired => simpa using hexpired

/-- The first keys of the store are thrown out. -/
theorem Reflects.evict {op : Op K V T} {time : T} (h : Reflects store now (⟨op, time, []⟩ :: history))
    {gone : List K} {kept : Dict K (V × T)} (hkeys : gone ++ kept.keys = store.keys)
    (hkept : kept.items.Sublist store.items) :
    Reflects kept now (⟨op, time, gone⟩ :: history) := by
  have hnodup : (gone ++ kept.keys).Nodup := hkeys ▸ store.nodup
  constructor
  · intro k entry hk
    have hmem : k ∈ kept.keys := (Dict.mem_keys _ _).mpr (by simp [hk])
    have hnot : k ∉ gone := fun hg => (List.disjoint_of_nodup_append hnodup) hg hmem
    rw [standing_evicted, if_neg hnot]
    exact h.stored k entry (by rw [← get_of_sublist hkept hmem, hk])
  · intro k entry hs hk
    rw [standing_evicted] at hs
    split at hs
    · cases hs
    · next hnot =>
      refine h.dropped k entry hs ?_
      have hmem : k ∉ store.keys := by
        rw [← hkeys, List.mem_append, Dict.mem_keys kept, hk]
        simpa using hnot
      rwa [Dict.mem_keys, Option.not_isSome_iff_eq_none] at hmem
  · simp only [lastUse_evicted]
    exact h.ordered.sublist (hkeys ▸ List.sublist_append_right _ _)

end ExpiringMaps
