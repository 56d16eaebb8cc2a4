import BtApiBase.PluginLoading

/-!
# What a commit writes

A commit makes registrations until an answer raises. A slot of the registry ends
with the value that was registered for it last; an adapter that is there stays,
and else the first class that comes is entered. Isolated objects that were used
by their methods give one value for a slot, and no answer of theirs raises.
-/

namespace PluginCommits

open PyText PyDict PyValue PluginRegistries PluginLoading

variable {α : Type}

/-- The registrations before the first answer that raises. -/
def made : List (Except PluginExc (Registration α)) → List (Registration α)
  | .ok r :: rest => r :: made rest
  | _ => []

/-- The exception that ends a commit. -/
def stopped : List (Except PluginExc (Registration α)) → Option PluginExc
  | [] => none
  | .ok _ :: rest => stopped rest
  | .error e :: _ => some e

theorem made_map_ok (regs : List (Registration α)) : made (regs.map .ok) = regs := by
  induction regs with
  | nil => rfl
  | cons r regs ih => simp [made, ih]

section

variable [DecidableEq α]

def registerAll (i : Interp) (m : Tables α) (regs : List (Registration α)) : Tables α :=
  regs.foldl (Tables.register i) m

theorem commit_eq (i : Interp) (m : Tables α) (steps : List (Except PluginExc (Registration α))) :
    commit i m steps = (registerAll i m (made steps), stopped steps) := by
  induction steps generalizing m with
  | nil => rfl
  | cons s steps ih =>
    cases s with
    | error e => rfl
    | ok r => exact ih (m.register i r)

variable {i : Interp} {m : Tables α} {regs : List (Registration α)} {s : Slot}

theorem lookup_registerAll_other (h : ∀ r ∈ regs, r.slot.target i ≠ s) :
    (registerAll i m regs).lookup s = m.lookup s := by
  induction regs generalizing m with
  | nil => rfl
  | cons r regs ih =>
    have hr : ¬ (s = r.slot.target i ∧ Writes i m r) := fun hs => h r List.mem_cons_self hs.1.symm
    have hrest := ih (m := m.register i r) fun r' hr' => h r' (List.mem_cons_of_mem _ hr')
    rw [lookup_register, if_neg hr] at hrest
    exact hrest

/-- Where all registrations for a slot have one value, the slot keeps what it has or
has that value. -/
theorem lookup_registerAll_same {v : Option α}
    (h : ∀ r ∈ regs, r.slot.target i = s → r.value = v) :
    (registerAll i m regs).lookup s = m.lookup s ∨ (registerAll i m regs).lookup s = some v := by
  induction regs generalizing m with
  | nil => exact .inl rfl
  | cons r regs ih =>
    rcases ih (m := m.register i r) fun r' hr' => h r' (List.mem_cons_of_mem _ hr') with hrest | hrest
    · rw [lookup_register] at hrest
      split at hrest
      · next hs =>
        right
        rw [← h r List.mem_cons_self hs.1.symm]
        exact hrest
      · exact .inl hrest
    · exact .inr hrest

/-- The value of the last registration for a slot of the registry. -/
theorem lookup_registerAll_last {pre post : List (Registration α)} {r : Registration α}
    (ha : r.slot.isAdapter = false) (hpost : ∀ r' ∈ post, r'.slot.target i = r.slot → r'.value = r.value) :
    (registerAll i m (pre ++ r :: post)).lookup r.slot = some r.value := by
  have htarget : r.slot.target i = r.slot := Slot.target_of_not_adapter ha
  have hwrite : ((registerAll i m pre).register i r).lookup r.slot = some r.value := by
    rw [lookup_register, if_pos ⟨htarget.symm, fun h => by rw [ha] at h; cases h⟩]
  have hsplit : registerAll i m (pre ++ r :: post) =
      registerAll i ((registerAll i m pre).register i r) post := by
    simp [registerAll, List.foldl_append]
  rw [hsplit]
  rcases lookup_registerAll_same (m := (registerAll i m pre).register i r) hpost with h | h
  · rw [h, hwrite]
  · exact h

/-- An adapter stays. -/
theorem lookup_registerAll_adapter {k : PyStr} {c : α} (h : m.lookup (.adapter k) = some (some c)) :
    (registerAll i m regs).lookup (.adapter k) = some (some c) := by
  induction regs generalizing m with
  | nil => exact h
  | cons r regs ih =>
    refine ih (m := m.register i r) ?_
    rw [lookup_register]
    split
    · next hs =>
      obtain ⟨type, hslot, -⟩ := Slot.adapter_of_target hs.1.symm
      have hnone := (hs.2 (by rw [hslot]; rfl)).1
      rw [← hs.1, h] at hnone
      cases hnone
    · exact h

/-- A class for a name without an adapter is entered. -/
theorem lookup_registerAll_new {k : PyStr} {c : α} (hnone : (m.lookup (.adapter k)).join = none)
    (hsame : ∀ r ∈ regs, r.slot.target i = .adapter k → r.value ≠ none → r.value = some c)
    (hmem : ∃ r ∈ regs, r.slot.target i = .adapter k ∧ r.value = some c) :
    (registerAll i m regs).lookup (.adapter k) = some (some c) := by
  induction regs generalizing m with
  | nil => simp at hmem
  | cons r regs ih =>
    by_cases hr : r.slot.target i = .adapter k ∧ r.value ≠ none
    · refine lookup_registerAll_adapter (m := m.register i r) ?_
      have hwrites : Writes i m r := fun _ => ⟨by rw [hr.1]; exact hnone, hr.2⟩
      rw [lookup_register, if_pos ⟨hr.1.symm, hwrites⟩, hsame r List.mem_cons_self hr.1 hr.2]
    · have hkeep : (m.register i r).lookup (.adapter k) = m.lookup (.adapter k) := by
        rw [lookup_register, if_neg]
        rintro ⟨hk, hw⟩
        obtain ⟨type, hslot, -⟩ := Slot.adapter_of_target hk.symm
        exact hr ⟨hk.symm, (hw (by rw [hslot]; rfl)).2⟩
      refine ih (m := m.register i r) (hkeep ▸ hnone)
        (fun r' hr' => hsame r' (List.mem_cons_of_mem _ hr')) ?_
      obtain ⟨r', hr', hk, hv⟩ := hmem
      rcases List.mem_cons.mp hr' with rfl | hr'
      · exact absurd ⟨hk, by rw [hv]; simp⟩ hr
      · exact ⟨r', hr', hk, hv⟩

end

/-! ## Isolated objects that were used by their methods -/

/-- The tables of an isolated registry and an isolated registrar. -/
def isolatedOf (t : Tables α) : Isolated α := .ofTables t.registry t.registrar.adapters

def ofClass (slot : Slot) : Option α → List (Registration α)
  | none => []
  | some c => [⟨slot, some c⟩]

def registrationsOf (t : Tables α) : List (Registration α) :=
  (t.registry.listExchanges.flatMap fun name =>
    ofClass (.feed name) (t.registry.getFeedClass name) ++
      ofClass (.exchangeData name) (t.registry.getExchangeDataClass name) ++
      ofClass (.balanceHandler name) (t.registry.getBalanceHandler name) ++
      (t.registry.getStreamClasses name).items.map fun x => ⟨.stream name x.1, x.2⟩) ++
  t.registrar.adapters.items.map fun x => ⟨.adapter x.1, x.2⟩

theorem answer_ok (slot : Slot) (c : Option α) : answer slot (.ok c) = (ofClass slot c).map .ok := by
  cases c <;> rfl

theorem registrations_isolatedOf (t : Tables α) :
    (isolatedOf t).registrations = (registrationsOf t).map .ok := by
  simp only [isolatedOf, Isolated.ofTables, Isolated.registrations, registrationsOf,
    Listing.registrations, answer_ok, List.flatMap_map, List.map_append, List.map_map,
    List.map_flatMap]
  rfl

def Slot.exchange : Slot → Option PyStr
  | .feed name | .exchangeData name | .balanceHandler name | .stream name _ => some name
  | .adapter _ => none

/-- The commit comes to the slot: it walks the exchanges that have an entry in the feed
table, and all adapters. -/
def Listed (t : Tables α) (s : Slot) : Prop :=
  ∀ name, Slot.exchange s = some name → name ∈ t.registry.listExchanges

/-- `None` is copied as a stream class or an adapter only. -/
def Slot.takesNone : Slot → Bool
  | .stream _ _ | .adapter _ => true
  | _ => false

theorem mem_ofClass {slot : Slot} {c : Option α} {r : Registration α} :
    r ∈ ofClass slot c ↔ r.slot = slot ∧ r.value = c ∧ c ≠ none := by
  obtain ⟨s, v⟩ := r
  cases c <;> simp [ofClass]

theorem mem_items_iff {V : Type} (d : Dict PyStr V) (k : PyStr) (v : V) :
    (k, v) ∈ d.items ↔ d.get k = some v := ⟨Dict.get_of_mem d, Dict.mem_of_get⟩

theorem join_eq_some_iff {x : Option (Option α)} {v : Option α} (hv : v ≠ none) :
    x.join = v ↔ x = some v := by
  rcases x with _ | _ | c
  · simp [Ne.symm hv]
  · simp [Ne.symm hv]
  · simp

theorem exists_listed_iff {names : List PyStr} {name : PyStr} {P : PyStr → Prop} :
    (∃ n ∈ names, name = n ∧ P n) ↔ (∀ n, name = n → n ∈ names) ∧ P name := by
  constructor
  · rintro ⟨n, hn, rfl, h⟩
    exact ⟨fun _ he => he ▸ hn, h⟩
  · rintro ⟨hn, h⟩
    exact ⟨name, hn name rfl, rfl, h⟩

/-- What the commit copies of isolated objects. -/
theorem mem_registrationsOf {t : Tables α} {r : Registration α} :
    r ∈ registrationsOf t ↔
      Listed t r.slot ∧ t.lookup r.slot = some r.value ∧ (r.value = none → Slot.takesNone r.slot) := by
  obtain ⟨s, v⟩ := r
  simp only [registrationsOf, List.mem_append, List.mem_flatMap, List.mem_map, mem_ofClass]
  have hclass : ∀ {x : Option (Option α)}, (v = x.join ∧ x.join ≠ none) ↔ x = some v ∧ v ≠ none := by
    intro x
    constructor
    · rintro ⟨rfl, hne⟩
      exact ⟨(join_eq_some_iff hne).mp rfl, hne⟩
    · rintro ⟨rfl, hne⟩
      exact ⟨rfl, hne⟩
  cases s with
  | feed name =>
    simp only [Slot.feed.injEq, reduceCtorEq, false_and, or_false, Registration.mk.injEq, and_false,
      exists_false, ExchangeRegistry.getFeedClass, hclass, Listed, Slot.exchange, Option.some.injEq,
      Tables.lookup, Slot.takesNone, Bool.false_eq_true, imp_false]
    exact exists_listed_iff
  | exchangeData name =>
    simp only [Slot.exchangeData.injEq, reduceCtorEq, false_and, or_false, false_or,
      Registration.mk.injEq, and_false, exists_false, ExchangeRegistry.getExchangeDataClass, hclass,
      Listed, Slot.exchange, Option.some.injEq, Tables.lookup, Slot.takesNone, Bool.false_eq_true,
      imp_false]
    exact exists_listed_iff
  | balanceHandler name =>
    simp only [Slot.balanceHandler.injEq, reduceCtorEq, false_and, or_false, false_or,
      Registration.mk.injEq, and_false, exists_false, ExchangeRegistry.getBalanceHandler, hclass,
      Listed, Slot.exchange, Option.some.injEq, Tables.lookup, Slot.takesNone, Bool.false_eq_true,
      imp_false]
    exact exists_listed_iff
  | stream name type =>
    simp only [reduceCtorEq, false_and, false_or, Registration.mk.injEq, Slot.stream.injEq,
      exists_false, and_false, or_false, Listed, Slot.exchange, Option.some.injEq, Tables.lookup,
      Slot.takesNone, implies_true, and_true, ← mem_items_iff]
    constructor
    · rintro ⟨n, hn, ⟨type', v'⟩, hx, ⟨rfl, rfl⟩, rfl⟩
      exact ⟨fun _ he => he ▸ hn, hx⟩
    · rintro ⟨hn, h⟩
      exact ⟨name, hn name rfl, (type, v), h, ⟨rfl, rfl⟩, rfl⟩
  | adapter type =>
    simp only [reduceCtorEq, false_and, or_self, Registration.mk.injEq, Slot.adapter.injEq,
      exists_false, and_false, false_or, Listed, Slot.exchange, false_imp_iff, implies_true,
      true_and, Tables.lookup, Slot.takesNone, and_true, ← mem_items_iff]
    constructor
    · rintro ⟨⟨type', v'⟩, hx, rfl, rfl⟩
      exact hx
    · intro h
      exact ⟨(type, v), h, rfl, rfl⟩

/-! ## Calls of `_load_one` -/

section

variable [DecidableEq α] {w : Settings} {l : PluginLoader α} {e : EntryPoint α} {p : Plugin α}

/-- The call passes all checks, so that it commits what the plugin registered. -/
def Committing (w : Settings) (l : PluginLoader α) (e : EntryPoint α) (p : Plugin α) : Prop :=
  l.known e.name = false ∧ e.load = .ok p ∧ ∃ info, checked w l.main e p = .ok info

omit [DecidableEq α] in
theorem main_record (l : PluginLoader α) (key : PyStr) (exc : PluginExc) :
    (record l key exc).2.main = l.main := by
  unfold record
  split <;> rfl

theorem main_step_of_committing (h : Committing w l e p) :
    (l.step w e).main = registerAll w.interp l.main (made p.isolated.registrations) := by
  obtain ⟨hknown, hload, info, hchecked⟩ := h
  simp only [PluginLoader.step, PluginLoader.loadOne, hknown, hload, hchecked, commit_eq,
    Bool.false_eq_true, if_false]
  split
  · exact main_record _ _ _
  · split <;> rfl

theorem main_step_of_not (h : ∀ p, ¬ Committing w l e p) : (l.step w e).main = l.main := by
  simp only [PluginLoader.step, PluginLoader.loadOne]
  split
  · rfl
  · next hknown =>
    split
    · exact main_record _ _ _
    · next p hload =>
      split
      · exact main_record _ _ _
      · next info hchecked =>
        exact absurd ⟨by simpa using hknown, hload, info, hchecked⟩ (h p)

end

/-- An entry point whose plugin registers in the isolated objects by their methods. -/
structure Registrant (α : Type) where
  name : PyStr
  module : PyStr
  load : Except PluginExc (Except PluginExc Returned × Tables α)

def Registrant.entryPoint (e : Registrant α) : EntryPoint α where
  name := e.name
  module := e.module
  load := e.load.map fun p => ⟨p.1, isolatedOf p.2⟩

section

variable [DecidableEq α] {w : Settings} {l : PluginLoader α} {e : Registrant α}

/-- The call commits the tables. -/
def Copies (w : Settings) (l : PluginLoader α) (e : Registrant α) (t : Tables α) : Prop :=
  ∃ returned, e.load = .ok (returned, t) ∧ Committing w l e.entryPoint ⟨returned, isolatedOf t⟩

omit [DecidableEq α] in
theorem copies_of_committing {p : Plugin α} (h : Committing w l e.entryPoint p) :
    ∃ t, p.isolated = isolatedOf t ∧ Copies w l e t := by
  obtain ⟨hknown, hload, hchecked⟩ := h
  obtain ⟨⟨returned, t⟩, hl, rfl⟩ : ∃ x, e.load = .ok x ∧ ⟨x.1, isolatedOf x.2⟩ = p := by
    cases hx : e.load with
    | error exc => simp [Registrant.entryPoint, hx, Except.map] at hload
    | ok x => exact ⟨x, rfl, by simpa [Registrant.entryPoint, hx, Except.map] using hload⟩
  exact ⟨t, rfl, returned, hl, hknown, hload, hchecked⟩

/-- One entry point of a sequence. -/
def loadRegistrant (w : Settings) (l : PluginLoader α) (e : Registrant α) : PluginLoader α :=
  l.step w e.entryPoint

theorem main_step_of_copies {t : Tables α} (h : Copies w l e t) :
    (loadRegistrant w l e).main = registerAll w.interp l.main (registrationsOf t) := by
  obtain ⟨returned, -, hc⟩ := h
  rw [loadRegistrant, main_step_of_committing hc, registrations_isolatedOf, made_map_ok]

theorem main_step_of_not_copies (h : ∀ t, ¬ Copies w l e t) :
    (loadRegistrant w l e).main = l.main := by
  refine main_step_of_not fun p hp => ?_
  obtain ⟨t, -, hc⟩ := copies_of_committing hp
  exact h t hc

end

end PluginCommits
