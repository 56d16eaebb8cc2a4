import BtApiBase.PluginReloads
import BtApiBase.RepeatedEvents

/-!
# Two tables of gateway adapters

`GatewayRuntime` keeps adapters in a table of its own, where a later class
replaces an earlier one, and passes each on to the registrar, which keeps the
first. It fills its table from the registrar, once the plugins are loaded. The two
agree as long as no other class comes through `GatewayRuntime` for a name that the
registrar knows.
-/

namespace AdapterRegistries

open PyText PyDict PyValue PluginRegistries PluginLoading PluginCommits Runs

variable {α : Type} [DecidableEq α]

structure Registries (α : Type) where
  adapterRegistry : Dict PyStr (Option α)
  registrar : GatewayRuntimeRegistrar α
  pluginsLoaded : Bool

/-- What `_ensure_plugins_loaded` works with: a new registry and the entry points. -/
structure Env (α : Type) where
  settings : Settings
  registry : ExchangeRegistry α
  entryPoints : List (EntryPoint α)

def Env.interp (env : Env α) : Interp := env.settings.interp

def start : Registries α := ⟨Dict.empty, ⟨Dict.empty⟩, false⟩

namespace Registries

variable (env : Env α) (s : Registries α)

def ensurePluginsLoaded : Registries α :=
  if s.pluginsLoaded then s
  else
    let loader := PluginReloads.loadAll env.settings (PluginReloads.fresh ⟨env.registry, s.registrar⟩)
      env.entryPoints
    { s with registrar := loader.main.registrar, pluginsLoaded := true }

/-- `GatewayRuntime.register_adapter` -/
def registerAdapter (exchangeType : PyStr) (adapterCls : Option α) : Registries α :=
  let name := normalized env.interp exchangeType
  { s with
    adapterRegistry := s.adapterRegistry.set name adapterCls
    registrar := s.registrar.registerAdapter env.interp name adapterCls }

def getAdapterClass (exchangeType : PyStr) : Except PyStr α × Registries α :=
  let name := normalized env.interp exchangeType
  match (s.adapterRegistry.get name).join with
  | some adapterCls => (.ok adapterCls, s)
  | none =>
    let s := s.ensurePluginsLoaded env
    match s.registrar.getAdapter env.interp name with
    | none => (.error (u "unsupported gateway exchange: " ++ exchangeType), s)
    | some adapterCls =>
      (.ok adapterCls, { s with adapterRegistry := s.adapterRegistry.set name (some adapterCls) })

end Registries

inductive Op (α : Type) where
  | runtimeRegister (exchangeType : PyStr) (adapterCls : Option α)
  | registrarRegister (exchangeType : PyStr) (adapterCls : Option α)
  | getAdapterClass (exchangeType : PyStr)

def Registries.step (env : Env α) (s : Registries α) : Op α → Registries α
  | .runtimeRegister exchangeType adapterCls => s.registerAdapter env exchangeType adapterCls
  | .registrarRegister exchangeType adapterCls =>
    { s with registrar := s.registrar.registerAdapter env.interp exchangeType adapterCls }
  | .getAdapterClass exchangeType => (s.getAdapterClass env exchangeType).2

def Knows (env : Env α) (s : Registries α) (exchangeType : PyStr) : Prop :=
  (s.adapterRegistry.get (normalized env.interp exchangeType)).join ≠ none ∨
    s.registrar.getAdapter env.interp exchangeType ≠ none

/-- Both give one class for every exchange type that one of them knows. -/
def Agree (env : Env α) (s : Registries α) : Prop := ∀ exchangeType, Knows env s exchangeType →
  ∃ adapterCls, (s.getAdapterClass env exchangeType).1 = .ok adapterCls ∧
    s.registrar.getAdapter env.interp exchangeType = some adapterCls

/-- A class that comes through `GatewayRuntime` is the one that the registrar has, if it
has one. -/
def SameClass (env : Env α) (s : Registries α) : Op α → Prop
  | .runtimeRegister exchangeType adapterCls => ∀ new known, adapterCls = some new →
    s.registrar.getAdapter env.interp exchangeType = some known → known = new
  | _ => True

/-- A name that is stripped and in upper case stays as it is. -/
def NormalizedOnce (i : Interp) : Prop := ∀ x, normalized i (normalized i x) = normalized i x

/-! ## What the registrar keeps -/

section

variable {env : Env α} {s : Registries α}

theorem getAdapter_registerAdapter (i : Interp) (r : GatewayRuntimeRegistrar α) (x y : PyStr)
    (adapterCls : Option α) : (r.registerAdapter i y adapterCls).getAdapter i x =
      if normalized i x = normalized i y ∧ r.getAdapter i y = none then adapterCls else r.getAdapter i x := by
  unfold GatewayRuntimeRegistrar.registerAdapter
  have hsame : normalized i x = normalized i y → r.getAdapter i x = r.getAdapter i y := by
    intro h
    rw [GatewayRuntimeRegistrar.getAdapter, h]
    rfl
  dsimp only
  split
  · next hcls =>
    split
    · next hx => rw [hsame hx.1, hcls]
    · rfl
  · split
    · next hsome =>
      rw [if_neg]
      rintro ⟨-, hnone⟩
      rw [hnone] at hsome
      cases hsome
    · next hnone =>
      have hy : r.getAdapter i y = none := Option.not_isSome_iff_eq_none.mp hnone
      by_cases hx : normalized i x = normalized i y
      · rw [if_pos ⟨hx, hy⟩, GatewayRuntimeRegistrar.getAdapter, hx, Dict.get_set_same]
        rfl
      · rw [if_neg fun h => hx h.1, GatewayRuntimeRegistrar.getAdapter, Dict.get_set_other _ _ hx]
        rfl

/-- A loader leaves the adapters that are there. -/
theorem getAdapter_loadAll {w : Settings} {l : PluginLoader α} {entryPoints : List (EntryPoint α)}
    {x : PyStr} {c : α} (h : l.main.registrar.getAdapter w.interp x = some c) :
    (PluginReloads.loadAll w l entryPoints).main.registrar.getAdapter w.interp x = some c := by
  have hlookup : ∀ l : PluginLoader α, l.main.registrar.getAdapter w.interp x = some c ↔
      l.main.lookup (.adapter (normalized w.interp x)) = some (some c) := by
    intro l
    rw [GatewayRuntimeRegistrar.getAdapter, Option.join_eq_some_iff]
    rfl
  rw [hlookup] at h ⊢
  refine run_induction (P := fun l : PluginLoader α =>
    l.main.lookup (.adapter (normalized w.interp x)) = some (some c)) ?_ h entryPoints
  intro l e hl
  by_cases hc : ∃ p, Committing w l e p
  · obtain ⟨p, hp⟩ := hc
    rw [main_step_of_committing hp]
    exact lookup_registerAll_adapter hl
  · rw [main_step_of_not (not_exists.mp hc)]
    exact hl

theorem getAdapter_ensurePluginsLoaded {x : PyStr} {c : α}
    (h : s.registrar.getAdapter env.interp x = some c) :
    (s.ensurePluginsLoaded env).registrar.getAdapter env.interp x = some c := by
  unfold Registries.ensurePluginsLoaded
  split
  · exact h
  · exact getAdapter_loadAll (l := PluginReloads.fresh ⟨env.registry, s.registrar⟩) h

theorem adapterRegistry_ensurePluginsLoaded :
    (s.ensurePluginsLoaded env).adapterRegistry = s.adapterRegistry := by
  unfold Registries.ensurePluginsLoaded
  split <;> rfl

omit [DecidableEq α] in
theorem getAdapter_normalized (h : NormalizedOnce env.interp) (r : GatewayRuntimeRegistrar α) (x : PyStr) :
    r.getAdapter env.interp (normalized env.interp x) = r.getAdapter env.interp x := by
  rw [GatewayRuntimeRegistrar.getAdapter, h x]
  rfl

/-- The two agree when the table of `GatewayRuntime` repeats the registrar. -/
theorem agree_iff (h : NormalizedOnce env.interp) : Agree env s ↔
    ∀ x c, (s.adapterRegistry.get (normalized env.interp x)).join = some c →
      s.registrar.getAdapter env.interp x = some c := by
  constructor
  · intro hagree x c hc
    obtain ⟨c', hclass, hget⟩ := hagree x (.inl (by rw [hc]; simp))
    simp only [Registries.getAdapterClass, hc, Except.ok.injEq] at hclass
    rw [hget, hclass]
  · intro hrepeats x hknows
    cases htable : (s.adapterRegistry.get (normalized env.interp x)).join with
    | some c => exact ⟨c, by simp only [Registries.getAdapterClass, htable], hrepeats x c htable⟩
    | none =>
      have hsome := hknows.resolve_left fun hne => hne htable
      obtain ⟨c, hc⟩ := Option.ne_none_iff_exists'.mp hsome
      refine ⟨c, ?_, hc⟩
      simp only [Registries.getAdapterClass, htable, getAdapter_normalized h,
        getAdapter_ensurePluginsLoaded hc]

/-! ## One call -/

theorem agree_runtimeRegister (h : NormalizedOnce env.interp) (hagree : Agree env s) (y : PyStr)
    (adapterCls : Option α) : Agree env (s.step env (.runtimeRegister y adapterCls)) ↔
      SameClass env s (.runtimeRegister y adapterCls) := by
  have hrepeats := (agree_iff h).mp hagree
  have htable : ∀ x, ((s.step env (.runtimeRegister y adapterCls)).adapterRegistry.get
      (normalized env.interp x)).join = if normalized env.interp x = normalized env.interp y
        then adapterCls else (s.adapterRegistry.get (normalized env.interp x)).join := by
    intro x
    simp only [Registries.step, Registries.registerAdapter, Dict.get_set]
    split <;> rfl
  have hregistrar : ∀ x, (s.step env (.runtimeRegister y adapterCls)).registrar.getAdapter env.interp x =
      if normalized env.interp x = normalized env.interp y ∧ s.registrar.getAdapter env.interp y = none
        then adapterCls else s.registrar.getAdapter env.interp x := by
    intro x
    simp only [Registries.step, Registries.registerAdapter, getAdapter_registerAdapter, h y,
      getAdapter_normalized h]
  rw [agree_iff h]
  constructor
  · intro hafter new known hnew hknown
    have hy := hafter y new (by rw [htable, if_pos rfl, hnew])
    have hnot : ¬ (normalized env.interp y = normalized env.interp y ∧
        s.registrar.getAdapter env.interp y = none) := by
      rintro ⟨-, hnone⟩
      rw [hnone] at hknown
      cases hknown
    rw [hregistrar, if_neg hnot, hknown] at hy
    exact Option.some.inj hy
  · intro hsame x c hc
    rw [htable] at hc
    rw [hregistrar]
    by_cases hx : normalized env.interp x = normalized env.interp y
    · rw [if_pos hx] at hc
      by_cases hnone : s.registrar.getAdapter env.interp y = none
      · rw [if_pos ⟨hx, hnone⟩, hc]
      · obtain ⟨known, hknown⟩ := Option.ne_none_iff_exists'.mp hnone
        have hxy : s.registrar.getAdapter env.interp x = s.registrar.getAdapter env.interp y := by
          rw [GatewayRuntimeRegistrar.getAdapter, hx]
          rfl
        rw [if_neg fun hn => hnone hn.2, hxy, hknown, hsame c known hc hknown]
    · rw [if_neg hx] at hc
      rw [if_neg fun hn => hx hn.1]
      exact hrepeats x c hc

theorem agree_registrarRegister (h : NormalizedOnce env.interp) (hagree : Agree env s) (y : PyStr)
    (adapterCls : Option α) : Agree env (s.step env (.registrarRegister y adapterCls)) := by
  have hrepeats := (agree_iff h).mp hagree
  refine (agree_iff h).mpr ?_
  intro x c hc
  have hx := hrepeats x c hc
  rw [Registries.step, getAdapter_registerAdapter, if_neg]
  · exact hx
  · rintro ⟨hxy, hnone⟩
    rw [GatewayRuntimeRegistrar.getAdapter, hxy] at hx
    rw [GatewayRuntimeRegistrar.getAdapter, hx] at hnone
    cases hnone

theorem agree_getAdapterClass (h : NormalizedOnce env.interp) (hagree : Agree env s) (y : PyStr) :
    Agree env (s.step env (.getAdapterClass y)) := by
  have hrepeats := (agree_iff h).mp hagree
  have hloaded : Agree env (s.ensurePluginsLoaded env) := by
    refine (agree_iff h).mpr ?_
    intro x c hc
    rw [adapterRegistry_ensurePluginsLoaded] at hc
    exact getAdapter_ensurePluginsLoaded (hrepeats x c hc)
  simp only [Registries.step, Registries.getAdapterClass]
  split
  · exact hagree
  · split
    · exact hloaded
    · next c hc =>
      have hrepeats' := (agree_iff h).mp hloaded
      refine (agree_iff h).mpr ?_
      intro x c' hx
      simp only [Dict.get_set] at hx
      split at hx
      · next hxy =>
        cases hx
        rw [getAdapter_normalized h] at hc
        rw [GatewayRuntimeRegistrar.getAdapter, hxy]
        exact hc
      · exact hrepeats' x c' hx

end

/-- The two registries agree in every state of a run exactly when no call of
`GatewayRuntime.register_adapter` brings another class for a name that the registrar
knows. -/
theorem agree_iff_sameClass (env : Env α) (h : NormalizedOnce env.interp) (ops : List (Op α)) :
    Throughout (Registries.step env) (Agree env) start ops ↔
      Meets (Registries.step env) (SameClass env) start ops := by
  refine throughout_iff_meets (Q := fun _ => True) ?_ ?_ trivial ?_ ops
  · intro s op _
    trivial
  · intro s op _ hagree
    cases op with
    | runtimeRegister y c => exact agree_runtimeRegister h hagree y c
    | registrarRegister y c => exact iff_of_true (agree_registrarRegister h hagree y c) trivial
    | getAdapterClass y => exact iff_of_true (agree_getAdapterClass h hagree y) trivial
  · refine (agree_iff h).mpr ?_
    intro x c hc
    cases hc

/-! ## ASCII names -/

def upperChar : PyChar → PyChar
  | .scalar c => .scalar c.toUpper
  | c => c

theorem upperChar_cases (c : PyChar) : upperChar c = c ∨ ∃ n, 97 ≤ n ∧ n ≤ 122 ∧ c = .scalar (Char.ofNat n) := by
  cases c with
  | surrogate n => exact .inl rfl
  | scalar c =>
    by_cases hc : 97 ≤ c.val ∧ c.val ≤ 122
    · right
      rw [UInt32.le_iff_toNat_le, UInt32.le_iff_toNat_le] at hc
      exact ⟨c.toNat, hc.1, hc.2, by rw [Char.ofNat_toNat]⟩
    · left
      have hsame : c.toUpper = c := dif_neg hc
      rw [upperChar, hsame]

theorem normalizedOnce_ascii : NormalizedOnce .ascii := by
  have hupper : ∀ s : PyStr, Interp.ascii.upper s = s.map upperChar := by
    intro s
    refine List.map_congr_left ?_
    intro c _
    cases c <;> rfl
  have hspace : ∀ c, isSpace (upperChar c) = isSpace c := by
    intro c
    rcases upperChar_cases c with hc | ⟨n, hl, hu, rfl⟩
    · rw [hc]
    · interval_cases n <;> decide
  have htwice : ∀ c, upperChar (upperChar c) = upperChar c := by
    intro c
    rcases upperChar_cases c with hc | ⟨n, hl, hu, rfl⟩
    · rw [hc, hc]
    · interval_cases n <;> decide
  intro x
  simp only [normalized, hupper, PyStrips.strip_map hspace, PyStrips.strip_strip, List.map_map]
  refine List.map_congr_left ?_
  intro c _
  exact htwice c

def noPlugins : Env Nat := ⟨⟨.ascii, fun _ => .ok true⟩, ExchangeRegistry.createIsolated, []⟩

def oneClass : List (Op Nat) :=
  [.registrarRegister (u " okx") (some 1), .getAdapterClass (u "OKX"), .runtimeRegister (u "okx ") (some 1)]

theorem agree_oneClass : Throughout (Registries.step noPlugins) (Agree noPlugins) start oneClass := by
  refine (agree_iff_sameClass noPlugins normalizedOnce_ascii oneClass).mpr ?_
  refine (meets_cons ..).mpr ⟨trivial, (meets_cons ..).mpr ⟨trivial, (meets_cons ..).mpr ⟨?_, meets_nil _ _ _⟩⟩⟩
  intro new known hnew hknown
  cases hnew
  exact Option.some.inj (hknown.symm.trans (by decide +kernel))

/-- The second class replaces the first one in one table only. -/
theorem replaced_in_one : ¬ Agree noPlugins (run (Registries.step noPlugins) start
    [.runtimeRegister (u "OKX") (some 1), .runtimeRegister (u "OKX") (some 2)]) := by
  intro h
  obtain ⟨c, hclass, hget⟩ := h (u "OKX") (.inl (by decide +kernel))
  have hruntime : ((run (Registries.step noPlugins) start [.runtimeRegister (u "OKX") (some 1),
      .runtimeRegister (u "OKX") (some 2)]).getAdapterClass noPlugins (u "OKX")).1 = .ok 2 := by
    decide +kernel
  have hregistrar : (run (Registries.step noPlugins) start [.runtimeRegister (u "OKX") (some 1),
      .runtimeRegister (u "OKX") (some 2)]).registrar.getAdapter noPlugins.interp (u "OKX") = some 1 := by
    decide +kernel
  rw [hruntime] at hclass
  rw [hregistrar] at hget
  cases hclass
  cases hget

end AdapterRegistries
