import Mathlib.Data.List.Nodup
import Mathlib.Logic.Function.Basic

/-!
# Tables that are written by key beside counters

Each owner has a table from keys to values and a counter for each topic of a
value. Registering overwrites the table and always counts; dropping takes a key
out of one table. `live` records the entries that were registered and not yet
dropped. The three agree as long as no key is registered while it is live.
-/

namespace Registry

variable {ι κ τ ν : Type*}

structure Entry (ι κ ν : Type*) where
  owner : ι
  key : κ
  value : ν

structure Book (ι κ τ ν : Type*) where
  table : ι → κ → Option ν
  count : ι → τ → Int
  live : List (Entry ι κ ν)

/-- An entry in `live` and a key in a table go together. -/
def Tracked (b : Book ι κ τ ν) : Prop :=
  ∀ i k, (b.table i k).isSome ↔ ∃ e ∈ b.live, e.owner = i ∧ e.key = k

variable [DecidableEq ι] [DecidableEq κ] [DecidableEq τ] (topic : ν → τ)

/-- How many live entries of an owner have a topic. -/
def number (live : List (Entry ι κ ν)) (i : ι) (t : τ) : Nat :=
  live.countP fun e => e.owner = i ∧ topic e.value = t

def Book.register (b : Book ι κ τ ν) (e : Entry ι κ ν) : Book ι κ τ ν where
  table := Function.update b.table e.owner (Function.update (b.table e.owner) e.key (some e.value))
  count := Function.update b.count e.owner
    (Function.update (b.count e.owner) (topic e.value) (b.count e.owner (topic e.value) + 1))
  live := b.live ++ [e]

/-- The entries that are left when key `k` of owner `i` is dropped. -/
def others (live : List (Entry ι κ ν)) (i : ι) (k : κ) : List (Entry ι κ ν) :=
  live.filter fun e => ¬ (e.owner = i ∧ e.key = k)

def Book.drop (b : Book ι κ τ ν) (i : ι) (k : κ) (v : ν) : Book ι κ τ ν where
  table := Function.update b.table i (Function.update (b.table i) k none)
  count := Function.update b.count i
    (Function.update (b.count i) (topic v) (b.count i (topic v) - 1))
  live := others b.live i k

/-- No two live entries share a key, each is in its table, and the counters count
them. -/
structure Consistent (b : Book ι κ τ ν) : Prop where
  distinct : (b.live.map Entry.key).Nodup
  registered : ∀ e ∈ b.live, b.table e.owner e.key = some e.value
  counted : ∀ i t, b.count i t = number topic b.live i t

section

variable {topic} {b : Book ι κ τ ν}

theorem table_register (b : Book ι κ τ ν) (e : Entry ι κ ν) (i : ι) (k : κ) :
    (b.register topic e).table i k = if i = e.owner ∧ k = e.key then some e.value else b.table i k := by
  simp only [Book.register, Function.update_apply]
  by_cases hi : i = e.owner
  · by_cases hk : k = e.key <;> simp [hi, hk]
  · simp [hi]

theorem table_drop (b : Book ι κ τ ν) (i : ι) (k : κ) (v : ν) (i' : ι) (k' : κ) :
    (b.drop topic i k v).table i' k' = if i' = i ∧ k' = k then none else b.table i' k' := by
  simp only [Book.drop, Function.update_apply]
  by_cases hi : i' = i
  · by_cases hk : k' = k <;> simp [hi, hk]
  · simp [hi]

theorem count_register (b : Book ι κ τ ν) (e : Entry ι κ ν) (i : ι) (t : τ) :
    (b.register topic e).count i t =
      b.count i t + if e.owner = i ∧ topic e.value = t then 1 else 0 := by
  simp only [Book.register, Function.update_apply]
  by_cases hi : i = e.owner
  · subst hi
    by_cases ht : t = topic e.value
    · simp [ht]
    · simp [ht, Ne.symm ht]
  · simp [hi, Ne.symm hi]

theorem count_drop (b : Book ι κ τ ν) (i : ι) (k : κ) (v : ν) (i' : ι) (t : τ) :
    (b.drop topic i k v).count i' t = b.count i' t - if i = i' ∧ topic v = t then 1 else 0 := by
  simp only [Book.drop, Function.update_apply]
  by_cases hi : i' = i
  · subst hi
    by_cases ht : t = topic v
    · simp [ht]
    · simp [ht, Ne.symm ht]
  · simp [hi, Ne.symm hi]

theorem mem_others {live : List (Entry ι κ ν)} {i : ι} {k : κ} {e : Entry ι κ ν} :
    e ∈ others live i k ↔ e ∈ live ∧ ¬ (e.owner = i ∧ e.key = k) := by
  simp [others, imp_iff_not_or]

omit [DecidableEq κ] in
theorem number_concat (live : List (Entry ι κ ν)) (e : Entry ι κ ν) (i : ι) (t : τ) :
    number topic (live ++ [e]) i t =
      number topic live i t + if e.owner = i ∧ topic e.value = t then 1 else 0 := by
  simp [number, List.countP_append, List.countP_cons]

/-- Dropping the key of a live entry takes that entry and no other. -/
theorem number_others {live : List (Entry ι κ ν)} (hn : (live.map Entry.key).Nodup) {e : Entry ι κ ν}
    (he : e ∈ live) (i : ι) (t : τ) :
    number topic live i t =
      number topic (others live e.owner e.key) i t + if e.owner = i ∧ topic e.value = t then 1 else 0 := by
  induction live with
  | nil => cases he
  | cons x live ih =>
    obtain ⟨hx, hn⟩ := List.nodup_cons.mp hn
    rcases List.mem_cons.mp he with rfl | he
    · have hkeep : others (e :: live) e.owner e.key = live := by
        rw [others, List.filter_cons_of_neg (by simp)]
        refine List.filter_eq_self.mpr fun y hy => ?_
        have hne : y.key ≠ e.key := fun heq => hx (heq ▸ List.mem_map_of_mem hy)
        simp [hne]
      rw [hkeep]
      simp [number, List.countP_cons]
    · have hne : x.key ≠ e.key := fun heq => hx (heq ▸ List.mem_map_of_mem he)
      have hkeep : others (x :: live) e.owner e.key = x :: others live e.owner e.key := by
        simp [others, hne]
      have hrest := ih hn he
      rw [hkeep]
      simp only [number, List.countP_cons] at hrest ⊢
      omega

theorem tracked_register (h : Tracked b) (e : Entry ι κ ν) : Tracked (b.register topic e) := by
  intro i k
  rw [table_register]
  by_cases hik : i = e.owner ∧ k = e.key
  · rw [if_pos hik]
    simp only [Option.isSome_some, true_iff]
    exact ⟨e, by simp [Book.register], hik.1.symm, hik.2.symm⟩
  · rw [if_neg hik, h i k]
    constructor
    · rintro ⟨x, hx, hi, hk⟩
      exact ⟨x, List.mem_append_left _ hx, hi, hk⟩
    · rintro ⟨x, hx, rfl, rfl⟩
      rcases List.mem_append.mp hx with hx | hx
      · exact ⟨x, hx, rfl, rfl⟩
      · rw [List.mem_singleton] at hx
        subst hx
        exact absurd ⟨rfl, rfl⟩ hik

theorem tracked_drop (h : Tracked b) (i : ι) (k : κ) (v : ν) : Tracked (b.drop topic i k v) := by
  intro i' k'
  rw [table_drop]
  by_cases hik : i' = i ∧ k' = k
  · rw [if_pos hik]
    simp only [Option.isSome_none, Bool.false_eq_true, false_iff]
    rintro ⟨x, hx, rfl, rfl⟩
    exact (mem_others.mp hx).2 hik
  · rw [if_neg hik, h i' k']
    constructor
    · rintro ⟨x, hx, rfl, rfl⟩
      exact ⟨x, mem_others.mpr ⟨hx, hik⟩, rfl, rfl⟩
    · rintro ⟨x, hx, hi, hk⟩
      exact ⟨x, (mem_others.mp hx).1, hi, hk⟩

/-- Registering keeps the three together exactly for a key that is not live. -/
theorem register_consistent_iff (h : Consistent topic b) (e : Entry ι κ ν) :
    Consistent topic (b.register topic e) ↔ e.key ∉ b.live.map Entry.key := by
  constructor
  · intro hc hmem
    have hn : ((b.live ++ [e]).map Entry.key).Nodup := hc.distinct
    rw [List.map_append, List.nodup_append] at hn
    exact hn.2.2 e.key hmem e.key (by simp) rfl
  · intro hnew
    refine ⟨?_, ?_, ?_⟩
    · show ((b.live ++ [e]).map Entry.key).Nodup
      rw [List.map_append]
      refine List.nodup_append.mpr ⟨h.distinct, by simp, ?_⟩
      intro k hk k' hk' heq
      rw [List.map_singleton, List.mem_singleton] at hk'
      exact hnew (hk' ▸ heq ▸ hk)
    · intro x hx
      rw [table_register]
      rcases List.mem_append.mp hx with hx | hx
      · have hne : ¬ (x.owner = e.owner ∧ x.key = e.key) :=
          fun hik => hnew (hik.2 ▸ List.mem_map_of_mem hx)
        rw [if_neg hne]
        exact h.registered x hx
      · rw [List.mem_singleton] at hx
        rw [hx, if_pos ⟨rfl, rfl⟩]
    · intro i t
      have hnum : number topic (b.register topic e).live i t = _ := number_concat b.live e i t
      rw [count_register, h.counted i t, hnum]
      split <;> simp

/-- Dropping a key that is there keeps the three together. -/
theorem consistent_drop (ht : Tracked b) (h : Consistent topic b) {i : ι} {k : κ} {v : ν}
    (hv : b.table i k = some v) : Consistent topic (b.drop topic i k v) := by
  obtain ⟨e, he, rfl, rfl⟩ := (ht i k).mp (by simp [hv])
  obtain rfl : e.value = v := Option.some.inj ((h.registered e he).symm.trans hv)
  refine ⟨?_, ?_, ?_⟩
  · exact h.distinct.sublist (List.Sublist.map _ List.filter_sublist)
  · intro x hx
    obtain ⟨hx, hne⟩ := mem_others.mp hx
    rw [table_drop, if_neg hne]
    exact h.registered x hx
  · intro i t
    rw [count_drop, h.counted i t, number_others h.distinct he i t]
    show ((_ + _ : Nat) : Int) - _ = _
    split <;> simp [Book.drop]

end

end Registry
