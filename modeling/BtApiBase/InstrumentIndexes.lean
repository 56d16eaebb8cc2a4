import BtApiBase.Instruments

/-!
# What the indexes of the instrument manager say

Every entry of the index by venue is a registered instrument with that venue and
venue symbol, and the index by underlying lists the registered instruments that
have one. The converse of the first fails: two instruments with one venue symbol
share its entry.
-/

namespace InstrumentIndexes

open PyText PyDict PyValue PyIndexes Runs Instruments

variable {β : Type}

structure Consistent (m : InstrumentManager β) : Prop where
  names : ∀ x i, m.get x = some i → i.internal = x
  venues : ∀ v s i, m.getByVenue v s = some i →
    i.venue = v ∧ i.venueSymbol = s ∧ m.get i.internal = some i
  pruned : Pruned m.byVenue
  members : ∀ name i, i ∈ group m.byUnderlying name ↔
    i.underlyingName = some name ∧ m.get i.internal = some i
  once : ∀ name, ((group m.byUnderlying name).map Instrument.internal).Nodup

theorem consistent_new : Consistent (.new : InstrumentManager β) where
  names _ _ h := by cases h
  venues _ _ _ h := by cases h
  pruned := pruned_empty
  members name i := by
    constructor
    · intro h
      cases h
    · rintro ⟨-, h⟩
      cases h
  once _ := List.nodup_nil

variable {m : InstrumentManager β}

/-- A registration takes the instruments of its name from every list. -/
theorem group_register (h : Consistent m) (i : Instrument β) (name : PyStr) :
    group (m.register i).byUnderlying name =
      (group m.byUnderlying name).filter (fun j => j.internal ≠ i.internal) ++
        (if i.underlyingName = some name then [i] else []) := by
  have hkeep : (∀ j, j.underlyingName = some name → m.get i.internal ≠ some j) →
      (group m.byUnderlying name).filter (fun j => j.internal ≠ i.internal) = group m.byUnderlying name := by
    intro hnone
    refine List.filter_eq_self.mpr fun j hj => ?_
    obtain ⟨hname, hget⟩ := (h.members name j).mp hj
    simp only [ne_eq, decide_eq_true_eq]
    intro he
    exact hnone j hname (he ▸ hget)
  unfold InstrumentManager.register
  cases hprev : m.instruments.get i.internal with
  | none =>
    rw [hkeep fun j _ hj => by rw [InstrumentManager.get, hprev] at hj; cases hj]
    exact InstrumentManager.group_index m i name
  | some previous =>
    have hsame : previous.internal = i.internal := h.names _ _ hprev
    simp only [InstrumentManager.group_index, InstrumentManager.group_unindex, hsame]
    split
    · rfl
    · next hother =>
      rw [hkeep]
      intro j hj hget
      rw [InstrumentManager.get, hprev] at hget
      exact hother (Option.some.inj hget ▸ hj)

theorem consistent_register (h : Consistent m) (i : Instrument β) : Consistent (m.register i) where
  names x j hj := by
    rw [InstrumentManager.get_register] at hj
    split at hj
    · next hx => rw [← Option.some.inj hj, hx]
    · exact h.names x j hj
  venues v s j hj := by
    rw [InstrumentManager.getByVenue_register] at hj
    split at hj
    · next hpair =>
      obtain rfl := Option.some.inj hj
      exact ⟨hpair.1.symm, hpair.2.symm, by simp [InstrumentManager.get_register]⟩
    · split at hj
      · cases hj
      · next hprev =>
        obtain ⟨hv, hs, hget⟩ := h.venues v s j hj
        refine ⟨hv, hs, ?_⟩
        rw [InstrumentManager.get_register, if_neg]
        · exact hget
        · intro hname
          exact hprev ⟨j, hname ▸ hget, hv.symm, hs.symm⟩
  pruned := InstrumentManager.pruned_register m i h.pruned
  members name j := by
    rw [group_register h, List.mem_append, List.mem_filter, h.members, InstrumentManager.get_register]
    by_cases hj : j.internal = i.internal
    · by_cases hname : i.underlyingName = some name
      · simp only [hj, hname, ne_eq, not_true_eq_false, decide_false, Bool.false_eq_true, and_false,
          if_true, List.mem_singleton, false_or, Option.some.injEq]
        constructor
        · rintro rfl
          exact ⟨hname, rfl⟩
        · rintro ⟨-, he⟩
          exact he.symm
      · simp only [hj, hname, ne_eq, not_true_eq_false, decide_false, Bool.false_eq_true, and_false,
          if_true, if_false, List.not_mem_nil, or_self, Option.some.injEq, false_iff, not_and]
        rintro hother rfl
        exact hname hother
    · have hne : j ≠ i := fun he => hj (he ▸ rfl)
      by_cases hname : i.underlyingName = some name <;> simp [hj, hname, hne]
  once name := by
    rw [group_register h, List.map_append, List.nodup_append]
    have hsub : (((group m.byUnderlying name).filter fun j => j.internal ≠ i.internal).map
        Instrument.internal).Sublist ((group m.byUnderlying name).map Instrument.internal) :=
      List.Sublist.map _ List.filter_sublist
    refine ⟨(h.once name).sublist hsub, by split <;> simp, ?_⟩
    intro a ha b hb he
    obtain ⟨j, hj, rfl⟩ := List.mem_map.mp ha
    have hne : j.internal ≠ i.internal := by simpa using (List.mem_filter.mp hj).2
    split at hb
    · simp only [List.map_cons, List.map_nil, List.mem_singleton] at hb
      exact hne (he.trans hb)
    · cases hb

/-- The indexes agree with the instruments in every state that a manager reaches. -/
theorem consistent_run (ops : List (Op β)) : Consistent (run InstrumentManager.step .new ops) :=
  run_step_induction consistent_new (fun _ i h => consistent_register h i) ops

/-! ## What the queries answer -/

theorem mem_registered (h : Consistent m) (i : Instrument β) :
    i ∈ m.instruments.values ↔ m.get i.internal = some i := by
  constructor
  · intro hi
    obtain ⟨⟨x, j⟩, hmem, rfl⟩ := List.mem_map.mp hi
    have hget : m.get x = some j := Dict.get_of_mem _ hmem
    rw [h.names x j hget]
    exact hget
  · intro hi
    exact List.mem_map_of_mem (f := Prod.snd) (Dict.mem_of_get hi)

theorem nodup_registered (h : Consistent m) : m.instruments.values.Nodup := by
  refine List.Nodup.of_map Instrument.internal ?_
  have hkeys : m.instruments.values.map Instrument.internal = m.instruments.keys := by
    rw [Dict.values, Dict.keys, List.map_map]
    refine List.map_congr_left fun kv hkv => ?_
    exact h.names kv.1 kv.2 (Dict.get_of_mem _ hkv)
  rw [hkeys]
  exact m.instruments.nodup

theorem venue_of_mem_allVenues (h : Consistent m) {v : PyStr} (hv : v ∈ m.allVenues) :
    ∃ i ∈ m.instruments.values, i.venue = v := by
  obtain ⟨inner, hinner⟩ := Option.isSome_iff_exists.mp ((Dict.mem_keys _ v).mp hv)
  obtain ⟨⟨s, i⟩, hmem⟩ := List.exists_mem_of_ne_nil _ (h.pruned v inner hinner)
  have hentry : m.getByVenue v s = some i := by
    simp [InstrumentManager.getByVenue, entry, hinner, Dict.get_of_mem inner hmem]
  obtain ⟨hvenue, -, hget⟩ := h.venues v s i hentry
  exact ⟨i, (mem_registered h i).mpr hget, hvenue⟩

theorem underlyingName_eq_some (i : Instrument β) (name : PyStr) :
    i.underlyingName = some name ↔ name ≠ [] ∧ i.underlying = some name := by
  simp [Instrument.underlyingName, Option.filter_eq_some_iff, and_comm]

theorem group_perm (h : Consistent m) (name : PyStr) :
    (group m.byUnderlying name).Perm
      (m.instruments.values.filter fun i => name ≠ [] ∧ i.underlying = some name) := by
  refine (List.perm_ext_iff_of_nodup (h.once name).of_map ((nodup_registered h).filter _)).mpr ?_
  intro i
  rw [h.members, List.mem_filter, mem_registered h, underlyingName_eq_some]
  simp only [decide_eq_true_eq]
  exact and_comm

/-- Lookups lead to registered instruments, each venue listed has one, and the list of
an underlying that is not empty is exactly the instruments that have it. -/
theorem lookups_sound (ops : List (Op β)) :
    let m := run InstrumentManager.step .new ops
    (∀ v s x, m.toInternal v s = some x →
      (∃ i, m.get x = some i ∧ i.venue = v ∧ i.venueSymbol = s) ∧ m.toVenueSymbol x = some s) ∧
    (∀ v ∈ m.allVenues, ∃ i ∈ m.instruments.values, i.venue = v) ∧
    (∀ name, (group m.byUnderlying name).Perm
      (m.instruments.values.filter fun i => name ≠ [] ∧ i.underlying = some name)) := by
  intro m
  have hc : Consistent m := consistent_run ops
  refine ⟨fun v s x hx => ?_, fun v hv => venue_of_mem_allVenues hc hv, group_perm hc⟩
  obtain ⟨i, hi, rfl⟩ := Option.map_eq_some_iff.mp hx
  obtain ⟨hv, hs, hget⟩ := hc.venues v s i hi
  refine ⟨⟨i, hget, hv, hs⟩, ?_⟩
  rw [InstrumentManager.toVenueSymbol, hget, Option.map_some, hs]

/-- An empty underlying counts as none. -/
theorem empty_underlying_not_listed :
    ¬ ∀ name, (group (run InstrumentManager.step .new
        [.register ⟨u "IF2506", u "CTP___FUTURE", u "IF2506", .future, some [], ()⟩]).byUnderlying name).Perm
      ((run InstrumentManager.step .new
        [.register ⟨u "IF2506", u "CTP___FUTURE", u "IF2506", .future, some [], ()⟩]).instruments.values.filter
          fun i => i.underlying = some name) := by
  intro h
  have hlength := (h []).length_eq
  revert hlength
  decide +kernel

end InstrumentIndexes
