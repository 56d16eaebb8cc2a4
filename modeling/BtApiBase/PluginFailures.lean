import BtApiBase.PluginTakeovers

/-!
# What a failed plugin leaves behind

Whatever fails before the commit leaves the main registry and the registrar
alone. The commit itself has no way back: when an answer of the isolated objects
raises, what was registered before it stays, unless it is what stood there.
-/

namespace PluginFailures

open PyText PyDict PyValue PluginRegistries PluginLoading PluginCommits PluginTakeovers

variable {α : Type} [DecidableEq α]

/-- A call that ends with the plugin in `failed` or `skipped` changes nothing. -/
def FailsCleanly (w : Settings) (l : PluginLoader α) (e : EntryPoint α) : Prop :=
  (∃ key, (l.loadOne w e).1 = .failed key ∨ (l.loadOne w e).1 = .skipped key) →
    (l.step w e).main = l.main

/-- The registrations find what they leave: the last one for a slot of the registry its
own value, and one of an adapter a name that keeps what it has. -/
def LeavesNothing (i : Interp) (m : Tables α) (regs : List (Registration α)) : Prop :=
  ∀ pre r post, regs = pre ++ r :: post →
    (r.slot.isAdapter = true → ¬ Writes i m r) ∧
    (r.slot.isAdapter = false → (∀ r' ∈ post, r'.slot ≠ r.slot) → m.lookup r.slot = some r.value)

/-- If an answer raises during the commit, the registrations before it find what they
leave. -/
def CommitsOrLeavesNothing (w : Settings) (l : PluginLoader α) (e : EntryPoint α) : Prop :=
  ∀ p, Committing w l e p → stopped p.isolated.registrations ≠ none →
    LeavesNothing w.interp l.main (made p.isolated.registrations)

/-! ## Tables with the same keys -/

/-- The tables have the same keys in the same order. -/
structure SameKeys (m m' : Tables α) : Prop where
  feeds : m'.registry.feedClasses.keys = m.registry.feedClasses.keys
  exchangeData : m'.registry.exchangeDataClasses.keys = m.registry.exchangeDataClasses.keys
  balanceHandlers : m'.registry.balanceHandlers.keys = m.registry.balanceHandlers.keys
  exchanges : m'.registry.streamClasses.keys = m.registry.streamClasses.keys
  streams : ∀ name, (m'.registry.getStreamClasses name).keys = (m.registry.getStreamClasses name).keys
  adapters : m'.registrar.adapters.keys = m.registrar.adapters.keys

omit [DecidableEq α] in
theorem SameKeys.refl (m : Tables α) : SameKeys m m := ⟨rfl, rfl, rfl, rfl, fun _ => rfl, rfl⟩

omit [DecidableEq α] in
theorem SameKeys.trans {m m' m'' : Tables α} (h : SameKeys m m') (h' : SameKeys m' m'') :
    SameKeys m m'' :=
  ⟨h'.feeds.trans h.feeds, h'.exchangeData.trans h.exchangeData,
    h'.balanceHandlers.trans h.balanceHandlers, h'.exchanges.trans h.exchanges,
    fun name => (h'.streams name).trans (h.streams name), h'.adapters.trans h.adapters⟩

omit [DecidableEq α] in
/-- Tables are given by their keys and what is looked up in them. -/
theorem tables_ext {m m' : Tables α} (hk : SameKeys m m') (hl : ∀ s, m'.lookup s = m.lookup s) :
    m' = m := by
  obtain ⟨⟨feeds, streams, data, handlers⟩, ⟨adapters⟩⟩ := m
  obtain ⟨⟨feeds', streams', data', handlers'⟩, ⟨adapters'⟩⟩ := m'
  obtain rfl : feeds' = feeds := Dict.ext_get hk.feeds fun k => hl (.feed k)
  obtain rfl : data' = data := Dict.ext_get hk.exchangeData fun k => hl (.exchangeData k)
  obtain rfl : handlers' = handlers := Dict.ext_get hk.balanceHandlers fun k => hl (.balanceHandler k)
  obtain rfl : adapters' = adapters := Dict.ext_get hk.adapters fun k => hl (.adapter k)
  obtain rfl : streams' = streams := by
    refine Dict.ext_get hk.exchanges fun name => ?_
    have hinner : (streams'.get name).getD Dict.empty = (streams.get name).getD Dict.empty :=
      Dict.ext_get (hk.streams name) fun type => hl (.stream name type)
    have hsome : (streams'.get name).isSome ↔ (streams.get name).isSome := by
      rw [← Dict.mem_keys, ← Dict.mem_keys]
      exact iff_of_eq (congrArg (name ∈ ·) hk.exchanges)
    cases h : streams'.get name with
    | none =>
      cases h' : streams.get name with
      | none => rfl
      | some d => simp [h, h'] at hsome
    | some d' =>
      cases h' : streams.get name with
      | none => simp [h, h'] at hsome
      | some d =>
        rw [h, h'] at hinner
        exact congrArg some hinner
  rfl

/-! ## Registrations that find what they leave -/

/-- The registration writes nothing, or to a slot of the registry that has an entry. -/
def Quiet (i : Interp) (m : Tables α) (r : Registration α) : Prop :=
  ¬ Writes i m r ∨ (r.slot.isAdapter = false ∧ (m.lookup r.slot).isSome)

theorem register_of_not_writes {i : Interp} {m : Tables α} {r : Registration α} (h : ¬ Writes i m r) :
    m.register i r = m := by
  obtain ⟨slot, value⟩ := r
  cases slot with
  | adapter type =>
    have hkept : m.registrar.registerAdapter i type value = m.registrar := by
      have hget : m.registrar.getAdapter i type =
          (m.lookup (Slot.target i (.adapter type))).join := rfl
      unfold GatewayRuntimeRegistrar.registerAdapter
      rw [hget]
      cases hex : (m.lookup (Slot.target i (.adapter type))).join with
      | some c =>
        by_cases hv : some c = value
        · simp [hv]
        · simp [hv]
      | none =>
        have hv : value = none := by
          by_contra hv
          exact h fun _ => ⟨hex, hv⟩
        simp [hv]
    simp only [Tables.register, hkept]
  | _ => exact absurd (fun ha => by cases ha) h

theorem sameKeys_register {i : Interp} {m : Tables α} {r : Registration α} (h : Quiet i m r) :
    SameKeys m (m.register i r) ∧ (m.register i r).registrar = m.registrar := by
  rcases h with h | ⟨ha, h⟩
  · rw [register_of_not_writes h]
    exact ⟨.refl m, rfl⟩
  · obtain ⟨slot, value⟩ := r
    cases slot with
    | adapter type => cases ha
    | feed name => exact ⟨⟨Dict.keys_set_of_get value h, rfl, rfl, rfl, fun _ => rfl, rfl⟩, rfl⟩
    | exchangeData name => exact ⟨⟨rfl, Dict.keys_set_of_get value h, rfl, rfl, fun _ => rfl, rfl⟩, rfl⟩
    | balanceHandler name => exact ⟨⟨rfl, rfl, Dict.keys_set_of_get value h, rfl, fun _ => rfl, rfl⟩, rfl⟩
    | stream name type =>
      have hname : (m.registry.streamClasses.get name).isSome := by
        cases hget : m.registry.streamClasses.get name with
        | none =>
          simp only [Tables.lookup, ExchangeRegistry.getStreamClasses, hget, Option.getD_none] at h
          cases h
        | some d => rfl
      refine ⟨⟨rfl, rfl, rfl, Dict.keys_set_of_get _ hname, fun other => ?_, rfl⟩, rfl⟩
      simp only [Tables.register, getStreamClasses_registerStream]
      split
      · next hother => rw [hother, Dict.keys_set_of_get value h]
      · rfl

theorem quiet_register {i : Interp} {m : Tables α} {r r' : Registration α} (h : Quiet i m r) :
    Quiet i (m.register i r') r := by
  rcases h with h | ⟨ha, h⟩
  · left
    intro hw
    refine h fun ha => ⟨?_, (hw ha).2⟩
    have hnone := (hw ha).1
    obtain ⟨type, hslot⟩ := Slot.exists_adapter ha
    rw [hslot, Slot.target] at hnone ⊢
    by_contra hsome
    obtain ⟨c, hc⟩ := Option.ne_none_iff_exists'.mp hsome
    have hkeep : (registerAll i m [r']).lookup (.adapter (normalized i type)) = some (some c) :=
      lookup_registerAll_adapter (Option.join_eq_some_iff.mp hc)
    rw [registerAll, List.foldl_cons, List.foldl_nil] at hkeep
    rw [hkeep] at hnone
    cases hnone
  · right
    refine ⟨ha, ?_⟩
    rw [lookup_register]
    split
    · rfl
    · exact h

theorem sameKeys_registerAll {i : Interp} {m : Tables α} {regs : List (Registration α)}
    (h : ∀ r ∈ regs, Quiet i m r) :
    SameKeys m (registerAll i m regs) ∧ (registerAll i m regs).registrar = m.registrar := by
  induction regs generalizing m with
  | nil => exact ⟨.refl m, rfl⟩
  | cons r regs ih =>
    have hstep := sameKeys_register (h r List.mem_cons_self)
    have hrest := ih (m := m.register i r) fun r' hr' => quiet_register (h r' (List.mem_cons_of_mem _ hr'))
    exact ⟨hstep.1.trans hrest.1, hrest.2.trans hstep.2⟩

omit [DecidableEq α] in
/-- The last registration for a slot. -/
theorem exists_last {regs : List (Registration α)} {s : Slot} (h : ∃ r ∈ regs, r.slot = s) :
    ∃ pre r post, regs = pre ++ r :: post ∧ r.slot = s ∧ ∀ r' ∈ post, r'.slot ≠ s := by
  induction regs with
  | nil => simp at h
  | cons x regs ih =>
    by_cases hlater : ∃ r ∈ regs, r.slot = s
    · obtain ⟨pre, r, post, hsplit, hr, hlast⟩ := ih hlater
      exact ⟨x :: pre, r, post, by rw [hsplit, List.cons_append], hr, hlast⟩
    · obtain ⟨r, hr, hslot⟩ := h
      rcases List.mem_cons.mp hr with rfl | hr
      · exact ⟨[], r, regs, rfl, hslot, fun r' hr' he => hlater ⟨r', hr', he⟩⟩
      · exact absurd ⟨r, hr, hslot⟩ hlater

omit [DecidableEq α] in
theorem quiet_of_leavesNothing {i : Interp} {m : Tables α} {regs : List (Registration α)}
    (h : LeavesNothing i m regs) : ∀ r ∈ regs, Quiet i m r := by
  intro r hr
  cases ha : r.slot.isAdapter with
  | true =>
    obtain ⟨pre, post, hsplit⟩ := List.append_of_mem hr
    exact .inl ((h pre r post hsplit).1 ha)
  | false =>
    obtain ⟨pre, r', post, hsplit, hslot, hlast⟩ := exists_last ⟨r, hr, rfl⟩
    have hfound := (h pre r' post hsplit).2 (hslot ▸ ha) fun r'' hr'' => hslot ▸ hlast r'' hr''
    refine .inr ⟨ha, ?_⟩
    rw [← hslot, hfound]
    rfl

theorem registerAll_of_leavesNothing {i : Interp} {m : Tables α} {regs : List (Registration α)}
    (h : LeavesNothing i m regs) : registerAll i m regs = m := by
  obtain ⟨hkeys, hregistrar⟩ := sameKeys_registerAll (quiet_of_leavesNothing h)
  refine tables_ext hkeys fun s => ?_
  cases ha : s.isAdapter with
  | true =>
    obtain ⟨k, rfl⟩ := Slot.exists_adapter ha
    simp only [Tables.lookup, hregistrar]
  | false =>
    by_cases hs : ∃ r ∈ regs, r.slot = s
    · obtain ⟨pre, r, post, hsplit, rfl, hlast⟩ := exists_last hs
      rw [(h pre r post hsplit).2 ha hlast, hsplit]
      refine lookup_registerAll_last ha fun r' hr' ht => ?_
      exact absurd (Slot.eq_of_target ha ht) (hlast r' hr')
    · refine lookup_registerAll_other fun r hr ht => hs ⟨r, hr, Slot.eq_of_target ha ht⟩

/-- The registry shows the last registration for a slot, and an adapter that is written
leaves its name with one. -/
theorem leavesNothing_of_registerAll {i : Interp} {m : Tables α} {regs : List (Registration α)}
    (h : registerAll i m regs = m) : LeavesNothing i m regs := by
  intro pre r post hsplit
  refine ⟨fun ha hw => ?_, fun ha hlast => ?_⟩
  · obtain ⟨hnone, hv⟩ := hw ha
    obtain ⟨c, hc⟩ := Option.ne_none_iff_exists'.mp hv
    obtain ⟨k, hk⟩ : ∃ k, r.slot.target i = .adapter k := by
      obtain ⟨type, hslot⟩ := Slot.exists_adapter ha
      exact ⟨normalized i type, by rw [hslot]; rfl⟩
    have hwritten : ∃ c', ((registerAll i m pre).register i r).lookup (.adapter k) = some (some c') := by
      rw [lookup_register]
      by_cases hwrites : Writes i (registerAll i m pre) r
      · exact ⟨c, by rw [if_pos ⟨hk.symm, hwrites⟩, hc]⟩
      · rw [if_neg fun hs => hwrites hs.2]
        by_contra hsome
        refine hwrites fun _ => ⟨?_, hv⟩
        rw [hk]
        by_contra hne
        obtain ⟨c', hc'⟩ := Option.ne_none_iff_exists'.mp hne
        exact hsome ⟨c', Option.join_eq_some_iff.mp hc'⟩
    obtain ⟨c', hc'⟩ := hwritten
    have happend : registerAll i m regs = registerAll i ((registerAll i m pre).register i r) post := by
      simp [registerAll, hsplit, List.foldl_append]
    have hend : (registerAll i m regs).lookup (.adapter k) = some (some c') := by
      rw [happend]
      exact lookup_registerAll_adapter hc'
    rw [h, ← hk] at hend
    rw [hend] at hnone
    cases hnone
  · have hend : (registerAll i m (pre ++ r :: post)).lookup r.slot = some r.value :=
      lookup_registerAll_last ha fun r' hr' ht => absurd (Slot.eq_of_target ha ht) (hlast r' hr')
    rw [← hsplit, h] at hend
    exact hend

/-! ## Calls that fail -/

section

variable {w : Settings} {l : PluginLoader α} {e : EntryPoint α}

omit [DecidableEq α] in
theorem fst_record (l : PluginLoader α) (key : PyStr) (exc : PluginExc) :
    ∃ k, (record l key exc).1 = .failed k ∨ (record l key exc).1 = .skipped k := by
  unfold record
  split
  · exact ⟨key, .inr rfl⟩
  · exact ⟨key, .inl rfl⟩

/-- A commit that an answer ends leaves the plugin in `failed` or `skipped`, and no other
commit does. -/
theorem fails_iff_stopped {p : Plugin α} (h : Committing w l e p) :
    (∃ key, (l.loadOne w e).1 = .failed key ∨ (l.loadOne w e).1 = .skipped key) ↔
      stopped p.isolated.registrations ≠ none := by
  obtain ⟨hknown, hload, info, hchecked⟩ := h
  simp only [PluginLoader.loadOne, hknown, hload, hchecked, commit_eq, Bool.false_eq_true, if_false]
  cases hstop : stopped p.isolated.registrations with
  | some exc =>
    simp only [ne_eq, reduceCtorEq, not_false_eq_true, iff_true]
    exact fst_record _ _ _
  | none =>
    simp only [ne_eq, not_true_eq_false, iff_false]
    split <;> simp

end

/-- A call fails without a trace exactly when a commit that does not come to its end has
left nothing. -/
theorem failsCleanly_iff_commitsOrLeavesNothing (w : Settings) (l : PluginLoader α)
    (e : EntryPoint α) : FailsCleanly w l e ↔ CommitsOrLeavesNothing w l e := by
  constructor
  · intro h p hp hstop
    have hmain := h ((fails_iff_stopped hp).mpr hstop)
    rw [main_step_of_committing hp] at hmain
    exact leavesNothing_of_registerAll hmain
  · intro h hfails
    by_cases hc : ∃ p, Committing w l e p
    · obtain ⟨p, hp⟩ := hc
      rw [main_step_of_committing hp]
      exact registerAll_of_leavesNothing (h p hp ((fails_iff_stopped hp).mp hfails))
    · exact main_step_of_not (not_exists.mp hc)

/-- A plugin that registers a feed and puts `None` in the place of its stream classes. -/
def brokenStreams : EntryPoint Nat where
  name := u "broken"
  module := u "broken.plugin"
  load := .ok
    { returned := .ok (.info ⟨u "broken", u "1.0", u ">=0.1", [u "BROKEN___SPOT"], []⟩)
      isolated :=
        { exchanges := [.ok
            { exchangeName := u "BROKEN___SPOT"
              feedClass := .ok (some 1)
              exchangeDataClass := .ok none
              balanceHandler := .ok none
              streamClasses := [.error ⟨.other, u "'NoneType' object has no attribute 'copy'"⟩] }]
          adapterNames := []
          adapters := [] } }

/-- The plugin is in `failed`, and the feed is in the main registry. -/
theorem feed_left_behind :
    (emptyLoader.loadOne settings brokenStreams).1 = .failed (u "broken") ∧
      ¬ FailsCleanly settings emptyLoader brokenStreams := by
  refine ⟨by decide +kernel, fun h => ?_⟩
  have hmain := h ⟨u "broken", .inl (by decide +kernel)⟩
  have hfeed := congrArg (fun m => m.lookup (.feed (u "BROKEN___SPOT"))) hmain
  revert hfeed
  decide +kernel

end PluginFailures
