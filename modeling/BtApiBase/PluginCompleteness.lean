import BtApiBase.Effects
import BtApiBase.PluginTakeovers

/-!
# What a loaded plugin finds again

The commit walks the exchanges of the isolated feed table. A class that stands
in another table, for an exchange without an entry there, is left out. Adapters
are copied under their names after these have been normalised once more.
-/

namespace PluginCompleteness

open PyText PyDict PyValue PluginRegistries PluginLoading PluginCommits PluginTakeovers

variable {α : Type} [DecidableEq α]

/-- Everything that the isolated objects hold is in the main ones under the same name. -/
def Complete (w : Settings) (t main : Tables α) : Prop :=
  ∀ s c, t.lookup s = some (some c) → main.lookup (s.target w.interp) = some (some c)

/-- Each exchange under which a class stands has an entry in the isolated feed table, or
the main registry holds that class already; and adapters whose names are normalised
to one name are the same. -/
structure Walked (w : Settings) (t main : Tables α) : Prop where
  exchanges : ∀ s c, s.isAdapter = false → t.lookup s = some (some c) →
    Listed t s ∨ main.lookup s = some (some c)
  adapters : ∀ k k' c c', t.lookup (.adapter k) = some (some c) →
    t.lookup (.adapter k') = some (some c') →
    normalized w.interp k = normalized w.interp k' → c = c'

omit [DecidableEq α] in
/-- A registration that is in the isolated tables and that the commit comes to. -/
theorem mem_of_listed {t : Tables α} {s : Slot} {c : α} (hl : Listed t s)
    (h : t.lookup s = some (some c)) : (⟨s, some c⟩ : Registration α) ∈ registrationsOf t :=
  mem_registrationsOf.mpr ⟨hl, h, fun hn => by cases hn⟩

theorem mapM_id_ok (names : List PyStr) :
    (names.map Except.ok : List (Except PluginExc PyStr)).mapM id = .ok names := by
  induction names with
  | nil => rfl
  | cons name names ih =>
    rw [List.map_cons, List.mapM_cons, ih]
    rfl

omit [DecidableEq α] in
theorem getAdapter_of_checked {w : Settings} {m : Tables α} {info : PluginInfo} {iso : Isolated α}
    {names : List PyStr} (hn : iso.adapterNames.mapM id = .ok names)
    (h : checkDuplicateRegistration w m info iso = .ok ()) :
    ∀ a ∈ names, m.registrar.getAdapter w.interp a = none := by
  intro a ha
  obtain ⟨names', hn', h⟩ := Effects.bind_eq_ok h
  obtain rfl : names = names' := Except.ok.inj (hn.symm.trans hn')
  dsimp only at h
  split at h
  · next hempty =>
    have hfilter := List.filter_eq_nil_iff.mp (List.isEmpty_iff.mp (Bool.and_eq_true_iff.mp hempty).2)
    simpa using hfilter a ha
  · cases h

omit [DecidableEq α] in
/-- The duplicate check has found no adapter under the names of the plugin. -/
theorem no_adapter_of_copies {w : Settings} {l : PluginLoader α} {e : Registrant α} {t : Tables α}
    (h : Copies w l e t) {k : PyStr} {c : α} (hk : t.lookup (.adapter k) = some (some c)) :
    (l.main.lookup (.adapter (normalized w.interp k))).join = none := by
  obtain ⟨returned, -, -, -, info, hchecked⟩ := h
  have hmem : k ∈ t.registrar.adapters.keys := by
    rw [Dict.mem_keys, show t.registrar.adapters.get k = some (some c) from hk]
    rfl
  obtain ⟨i, -, -, -, hduplicate⟩ := of_checked hchecked
  exact getAdapter_of_checked (mapM_id_ok t.registrar.adapters.keys) hduplicate k hmem

theorem complete_iff_walked {w : Settings} {l : PluginLoader α} {e : Registrant α} {t : Tables α}
    (h : Copies w l e t) : Complete w t (loadRegistrant w l e).main ↔ Walked w t l.main := by
  rw [main_step_of_copies h]
  constructor
  · intro hc
    refine ⟨fun s c ha hs => ?_, fun k k' c c' hk hk' hn => ?_⟩
    · by_cases hl : Listed t s
      · exact .inl hl
      · right
        have hfound := hc s c hs
        rw [Slot.target_of_not_adapter ha, lookup_registerAll_other] at hfound
        · exact hfound
        · intro r hr htarget
          exact hl (Slot.eq_of_target ha htarget ▸ (mem_registrationsOf.mp hr).1)
    · have h₁ := hc (.adapter k) c hk
      have h₂ := hc (.adapter k') c' hk'
      simp only [Slot.target] at h₁ h₂
      rw [hn, h₂] at h₁
      simpa using h₁.symm
  · intro hw s c hs
    cases ha : s.isAdapter with
    | false =>
      rw [Slot.target_of_not_adapter ha]
      by_cases hl : Listed t s
      · exact lookup_registrationsOf (r := ⟨s, some c⟩) (mem_of_listed hl hs) ha
      · have hmain := (hw.exchanges s c ha hs).resolve_left hl
        rw [lookup_registerAll_other, hmain]
        intro r hr htarget
        exact hl (Slot.eq_of_target ha htarget ▸ (mem_registrationsOf.mp hr).1)
    | true =>
      obtain ⟨k, rfl⟩ := Slot.exists_adapter ha
      refine lookup_registerAll_new (no_adapter_of_copies h hs) ?_ ?_
      · intro r hr htarget hv
        obtain ⟨k', hslot, hk'⟩ := Slot.adapter_of_target htarget
        obtain ⟨c', hc'⟩ := Option.ne_none_iff_exists'.mp hv
        have hlookup := (mem_registrationsOf.mp hr).2.1
        rw [hslot, hc'] at hlookup
        rw [hc', hw.adapters k' k c' c hlookup hs hk']
      · exact ⟨⟨.adapter k, some c⟩, mem_of_listed (fun _ hn => by cases hn) hs, rfl, rfl⟩

/-- A call that records a plugin as loaded has committed its tables. -/
theorem copies_of_loaded {w : Settings} {l : PluginLoader α} {e : Registrant α} {returned}
    {t : Tables α} (hload : e.load = .ok (returned, t)) {info : PluginInfo}
    (h : (l.loadOne w e.entryPoint).1 = .loaded info) : Copies w l e t := by
  have hentry : e.entryPoint.load = .ok ⟨returned, isolatedOf t⟩ := by
    simp [Registrant.entryPoint, hload, Except.map]
  have hrecord : ∀ (l : PluginLoader α) key exc, (record l key exc).1 ≠ .loaded info := by
    intro l key exc
    unfold record
    split <;> simp
  refine ⟨returned, hload, ?_⟩
  unfold PluginLoader.loadOne at h
  split at h
  · cases h
  · next hknown =>
    rw [hentry] at h
    dsimp only at h
    split at h
    · exact absurd h (hrecord _ _ _)
    · next i hchecked => exact ⟨by simpa using hknown, hentry, i, hchecked⟩

/-- A plugin that is recorded as loaded is complete exactly when the walk over its feed
table comes to all that it registered. -/
theorem loaded_complete_iff_walked {w : Settings} {l : PluginLoader α} {e : Registrant α} {returned}
    {t : Tables α} (hload : e.load = .ok (returned, t)) {info : PluginInfo}
    (h : (l.loadOne w e.entryPoint).1 = .loaded info) :
    Complete w t (loadRegistrant w l e).main ↔ Walked w t l.main :=
  complete_iff_walked (copies_of_loaded hload h)

/-- A plugin that registers a feed and the exchange data for the exchanges given. -/
def dataPlugin (feedName dataName : String) : Tables Nat :=
  ⟨(ExchangeRegistry.createIsolated.registerFeed (u feedName) (some 1)).registerExchangeData
      (u dataName) (some 2),
    ⟨Dict.empty.set (u "DEMO") (some 3)⟩⟩

def registrant (t : Tables Nat) : Registrant Nat where
  name := u "demo"
  module := u "demo.plugin"
  load := .ok (.ok (.info ⟨u "demo", u "1.0", u ">=0.1", [u "DEMO___SPOT"], []⟩), t)

theorem loaded_complete_iff_walked_demo :
    Complete settings (dataPlugin "DEMO___SPOT" "DEMO___SPOT")
        (loadRegistrant settings emptyLoader (registrant (dataPlugin "DEMO___SPOT" "DEMO___SPOT"))).main ↔
      Walked settings (dataPlugin "DEMO___SPOT" "DEMO___SPOT") emptyLoader.main := by
  have hloaded : (emptyLoader.loadOne settings
      (registrant (dataPlugin "DEMO___SPOT" "DEMO___SPOT")).entryPoint).1 =
        .loaded ⟨u "demo", u "1.0", u ">=0.1", [u "DEMO___SPOT"], u "demo.plugin"⟩ := by decide +kernel
  exact loaded_complete_iff_walked rfl hloaded

/-- The plugin is recorded as loaded, and its exchange data is not in the main
registry. -/
theorem exchange_data_dropped :
    (emptyLoader.loadOne settings (registrant (dataPlugin "DEMO___SPOT" "DEMO___SWAP")).entryPoint).1 =
        .loaded ⟨u "demo", u "1.0", u ">=0.1", [u "DEMO___SPOT"], u "demo.plugin"⟩ ∧
      ¬ Complete settings (dataPlugin "DEMO___SPOT" "DEMO___SWAP")
        (loadRegistrant settings emptyLoader (registrant (dataPlugin "DEMO___SPOT" "DEMO___SWAP"))).main := by
  refine ⟨by decide +kernel, fun h => ?_⟩
  have hdata := h (.exchangeData (u "DEMO___SWAP")) 2 (by decide +kernel)
  revert hdata
  decide +kernel

end PluginCompleteness
