import BtApiBase.PluginCommits

/-!
# What a plugin can take over

The duplicate check asks for the exchanges that a plugin declares, and for feeds
only; the commit copies what the plugin registered. What was there stays there
exactly when the commit brings nothing else for a slot that holds a class. The
registrar keeps its adapters by itself.
-/

namespace PluginTakeovers

open PyText PyDict PyValue PluginRegistries PluginLoading PluginCommits Runs

variable {α : Type} [DecidableEq α]

/-- Every class and handler that was there is there unchanged. -/
def Kept (m m' : Tables α) : Prop := ∀ s c, m.lookup s = some (some c) → m'.lookup s = some (some c)

/-- No call of `_load_one` in the sequence takes anything over. -/
def NoTakeover (w : Settings) (l : PluginLoader α) (entries : List (Registrant α)) : Prop :=
  ∀ pre e, pre ++ [e] <+: entries →
    Kept (run (loadRegistrant w) l pre).main (loadRegistrant w (run (loadRegistrant w) l pre) e).main

/-- The tables that a call commits bring no other value for a slot of the main registry
that holds a class. -/
def BringsNothingElse (w : Settings) (l : PluginLoader α) (e : Registrant α) : Prop :=
  ∀ t, Copies w l e t → ∀ r ∈ registrationsOf t, r.slot.isAdapter = false →
    ∀ c, l.main.lookup r.slot = some (some c) → r.value = some c

omit [DecidableEq α] in
/-- The registrations of isolated tables have one value for each slot of the registry. -/
theorem value_of_slot {i : Interp} {t : Tables α} {r r' : Registration α} (hr : r ∈ registrationsOf t)
    (hr' : r' ∈ registrationsOf t) (ha : r.slot.isAdapter = false) (h : r'.slot.target i = r.slot) :
    r'.value = r.value := by
  have hslot : r'.slot = r.slot := Slot.eq_of_target ha h
  have h₁ := (mem_registrationsOf.mp hr).2.1
  have h₂ := (mem_registrationsOf.mp hr').2.1
  rw [hslot, h₁] at h₂
  exact (Option.some.inj h₂).symm

theorem lookup_registrationsOf {i : Interp} {m t : Tables α} {r : Registration α}
    (hr : r ∈ registrationsOf t) (ha : r.slot.isAdapter = false) :
    (registerAll i m (registrationsOf t)).lookup r.slot = some r.value := by
  obtain ⟨pre, post, hsplit⟩ := List.append_of_mem hr
  have hpost : ∀ r' ∈ post, r'.slot.target i = r.slot → r'.value = r.value := by
    intro r' hr' h
    have hmem : r' ∈ registrationsOf t := by
      rw [hsplit]
      exact List.mem_append_right _ (List.mem_cons_of_mem _ hr')
    exact value_of_slot hr hmem ha h
  rw [hsplit]
  exact lookup_registerAll_last ha hpost

theorem kept_step_iff (w : Settings) (l : PluginLoader α) (e : Registrant α) :
    Kept l.main (loadRegistrant w l e).main ↔ BringsNothingElse w l e := by
  constructor
  · intro h t ht r hr ha c hc
    have hkept := h r.slot c hc
    rw [main_step_of_copies ht, lookup_registrationsOf hr ha] at hkept
    exact Option.some.inj hkept
  · intro h s c hc
    by_cases hcopies : ∃ t, Copies w l e t
    · obtain ⟨t, ht⟩ := hcopies
      rw [main_step_of_copies ht]
      cases hs : s.isAdapter with
      | true =>
        obtain ⟨k, rfl⟩ := Slot.exists_adapter hs
        exact lookup_registerAll_adapter hc
      | false =>
        have hsame : ∀ r ∈ registrationsOf t, r.slot.target w.interp = s → r.value = some c := by
          intro r hr htarget
          have hslot : r.slot = s := Slot.eq_of_target hs htarget
          exact h t ht r hr (hslot ▸ hs) c (hslot ▸ hc)
        rcases lookup_registerAll_same (m := l.main) hsame with hl | hl
        · rw [hl, hc]
        · exact hl
    · rw [main_step_of_not_copies (not_exists.mp hcopies)]
      exact hc

/-- A sequence of entry points takes nothing over exactly when no commit in it brings
another value for a slot that holds a class. -/
theorem noTakeover_iff_bringsNothingElse (w : Settings) (l : PluginLoader α)
    (entries : List (Registrant α)) :
    NoTakeover w l entries ↔ Meets (loadRegistrant w) (BringsNothingElse w) l entries := by
  constructor
  · intro h pre e hp
    exact (kept_step_iff w _ e).mp (h pre e hp)
  · intro h pre e hp
    exact (kept_step_iff w _ e).mpr (h pre e hp)

/-- A loader that has loaded nothing, on empty registries. -/
def emptyLoader : PluginLoader Nat where
  main := ⟨ExchangeRegistry.createIsolated, ⟨Dict.empty⟩⟩
  loaded := Dict.empty
  failed := Dict.empty
  skipped := Dict.empty

def settings : Settings where
  interp := Interp.ascii
  compatible _ := .ok true

/-- A plugin that registers a feed and declares exchanges. -/
def feedPlugin (name : String) (exchangeName : String) (cls : Nat) (declared : List PyStr) :
    Registrant Nat where
  name := u name
  module := u name
  load := .ok (.ok (.info ⟨u name, u "1.0", u ">=0.1", declared, []⟩),
    ⟨ExchangeRegistry.createIsolated.registerFeed (u exchangeName) (some cls), ⟨Dict.empty⟩⟩)

/-- The second plugin declares no exchange and registers the feed of the first one. -/
theorem feed_taken_over :
    ¬ NoTakeover settings emptyLoader
      [feedPlugin "first" "DUP___SPOT" 1 [u "DUP___SPOT"], feedPlugin "second" "DUP___SPOT" 2 []] := by
  intro h
  have hkept := h [feedPlugin "first" "DUP___SPOT" 1 [u "DUP___SPOT"]]
    (feedPlugin "second" "DUP___SPOT" 2 []) List.prefix_rfl (.feed (u "DUP___SPOT")) 1 (by decide +kernel)
  revert hkept
  decide +kernel

end PluginTakeovers
