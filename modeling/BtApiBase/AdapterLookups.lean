import BtApiBase.OnceInits
import BtApiBase.PluginRegistries

/-!
# Adapter lookups by several threads

`get_adapter_class` looks into the table of the runtime, makes sure that the plugins are
loaded, asks the registrar and fills the table. The registrar keeps the first class of a
name, but tests and assigns without a lock. Plugins register while they are loaded, and
any thread may register at any time, at the registrar or at the runtime, which overwrites
its table first.
-/

namespace AdapterLookups

open PyText PyValue PluginRegistries Runs OnceInits

variable {α : Type}

/-- Where a call of `get_adapter_class` is; the argument is kept as it was given. -/
inductive Phase (α : Type) where
  | idle
  | ensuring (exchangeType : PyStr)
  | asking (exchangeType : PyStr)
  | storing (exchangeType : PyStr) (adapterCls : α)
  deriving DecidableEq, Repr

/-- A call that returned a class, or raised because no adapter is known; `loaded` is
`_plugins_loaded` at its end. -/
structure Answer (α : Type) where
  exchangeType : PyStr
  adapterCls : Option α
  loaded : Bool
  deriving DecidableEq, Repr

structure World (α : Type) where
  /-- `ADAPTER_REGISTRY` -/
  adapterRegistry : PyStr → Option α
  /-- `GatewayRuntimeRegistrar._adapters` -/
  _adapters : PyStr → Option α
  /-- `_plugins_loaded` and `_plugin_loader_lock`. -/
  plugins : Once Unit
  phases : Nat → Phase α
  /-- The calls of the registrar that have found no class for the name. -/
  pending : Nat → Option (PyStr × α)
  /-- The class that came first for a name. -/
  first : PyStr → Option α
  answers : List (Answer α)

def init : World α := ⟨fun _ => none, fun _ => none, {}, fun _ => .idle, fun _ => none, fun _ => none, []⟩

inductive Label (α : Type) where
  | lookup (t : Nat) (exchangeType : PyStr)
  | acquire (t : Nat)
  | retest (t : Nat)
  /-- `load_all` returns or raises. -/
  | loadAll (t : Nat) (ok : Bool)
  | ensured (t : Nat)
  | ask (t : Nat)
  | store (t : Nat)
  /-- The two halves of `GatewayRuntimeRegistrar.register_adapter`. -/
  | check (call : Nat) (exchangeType : PyStr) (adapterCls : α)
  | assign (call : Nat)
  /-- `GatewayRuntime.register_adapter` writes its class into the table; then it registers it. -/
  | override (exchangeType : PyStr) (adapterCls : α)
  deriving DecidableEq, Repr

def World.goTo (w : World α) (t : Nat) (p : Phase α) : World α :=
  { w with phases := Function.update w.phases t p }

def World.answer (w : World α) (exchangeType : PyStr) (adapterCls : Option α) : World α :=
  { w with answers := w.answers ++ [⟨exchangeType, adapterCls, w.plugins.value.isSome⟩] }

def step (i : Interp) (w : World α) : Label α → World α
  | .lookup t x =>
    match w.phases t with
    | .idle => match w.adapterRegistry (normalized i x) with
      | some adapterCls => w.answer x (some adapterCls)
      | none => { w with plugins := OnceInits.step w.plugins (.enter t) }.goTo t (.ensuring x)
    | _ => w
  | .acquire t => { w with plugins := OnceInits.step w.plugins (.acquire t) }
  | .retest t => { w with plugins := OnceInits.step w.plugins (.retest t) }
  | .loadAll t ok =>
    { w with plugins := OnceInits.step w.plugins (.finish t (if ok then some () else none)) }
  | .ensured t => match w.phases t with
    | .ensuring x =>
      if w.plugins.points t = .returned then
        { w with plugins := OnceInits.step w.plugins (.leave t) }.goTo t (.asking x)
      else if w.plugins.points t = .raised then
        { w with plugins := OnceInits.step w.plugins (.leave t) }.goTo t .idle
      else w
    | _ => w
  | .ask t => match w.phases t with
    | .asking x => match w._adapters (normalized i (normalized i x)) with
      | some adapterCls => w.goTo t (.storing x adapterCls)
      | none => (w.answer x none).goTo t .idle
    | _ => w
  | .store t => match w.phases t with
    | .storing x adapterCls => ({ w with
      adapterRegistry := Function.update w.adapterRegistry (normalized i x) (some adapterCls)
      }.answer x (some adapterCls)).goTo t .idle
    | _ => w
  | .check call x adapterCls =>
    if w.pending call = none ∧ w._adapters (normalized i x) = none then
      { w with pending := Function.update w.pending call (some (normalized i x, adapterCls)) }
    else w
  | .assign call => match w.pending call with
    | some (name, adapterCls) => { w with
      _adapters := Function.update w._adapters name (some adapterCls)
      first := Function.update w.first name (some ((w.first name).getD adapterCls))
      pending := Function.update w.pending call none }
    | none => w
  | .override x adapterCls =>
    { w with adapterRegistry := Function.update w.adapterRegistry (normalized i x) (some adapterCls) }

/-! ## The plugins are loaded once -/

/-- A call that has come past the plugins finds them loaded, and so do all that were refused. -/
structure Loaded (w : World α) : Prop where
  once : Sound w.plugins
  asking : ∀ t x, w.phases t = .asking x → w.plugins.value.isSome = true
  refused : ∀ a ∈ w.answers, a.adapterCls = none → a.loaded = true

section

variable {i : Interp} {w : World α}

theorem loaded_init : Loaded (init (α := α)) := ⟨sound_new, by simp [init], by simp [init]⟩

theorem isSome_step {o : Once Unit} (h : Sound o) (hv : o.value.isSome = true) (l : OnceInits.Label Unit) :
    (OnceInits.step o l).value.isSome = true := by
  obtain ⟨v, hv⟩ := Option.isSome_iff_exists.mp hv
  simp [value_step h hv l]

/-- The plugins move on, and a thread may reach another point. -/
theorem Loaded.move (h : Loaded w) (l : OnceInits.Label Unit) {w' : World α}
    (hp : w'.plugins = OnceInits.step w.plugins l)
    (hphase : ∀ t x, w'.phases t = .asking x → w.phases t = .asking x ∨ w.plugins.value.isSome = true)
    (ha : w'.answers = w.answers) : Loaded w' := by
  refine ⟨?_, ?_, ?_⟩
  · rw [hp]
    exact sound_step h.once l
  · intro t x hx
    rw [hp]
    refine isSome_step h.once ?_ l
    rcases hphase t x hx with hx | hx
    · exact h.asking t x hx
    · exact hx
  · rw [ha]
    exact h.refused

theorem Loaded.goTo (h : Loaded w) {t : Nat} {p : Phase α}
    (hp : ∀ x, p = .asking x → w.plugins.value.isSome = true) : Loaded (w.goTo t p) := by
  refine ⟨h.once, ?_, h.refused⟩
  intro u x hx
  by_cases hu : u = t
  · subst hu
    simp only [World.goTo, Function.update_self] at hx
    exact hp x hx
  · simp only [World.goTo, Function.update_of_ne hu] at hx
    exact h.asking u x hx

theorem Loaded.answer (h : Loaded w) (x : PyStr) {adapterCls : Option α}
    (hc : adapterCls = none → w.plugins.value.isSome = true) : Loaded (w.answer x adapterCls) := by
  refine ⟨h.once, h.asking, ?_⟩
  intro a ha hnone
  rw [World.answer, List.mem_append, List.mem_singleton] at ha
  rcases ha with ha | rfl
  · exact h.refused a ha hnone
  · exact hc hnone

theorem loaded_step (h : Loaded w) (l : Label α) : Loaded (step i w l) := by
  cases l with
  | lookup t x =>
    simp only [step]
    split
    · split
      · exact h.answer x (by simp)
      · have hw : Loaded { w with plugins := OnceInits.step w.plugins (.enter t) } :=
          h.move (.enter t) rfl (fun _ _ hx => Or.inl hx) rfl
        exact hw.goTo (by simp)
    · exact h
  | acquire t => exact h.move (.acquire t) rfl (fun _ _ hx => Or.inl hx) rfl
  | retest t => exact h.move (.retest t) rfl (fun _ _ hx => Or.inl hx) rfl
  | loadAll t ok =>
    exact h.move (.finish t (if ok then some () else none)) rfl (fun _ _ hx => Or.inl hx) rfl
  | ensured t =>
    simp only [step]
    split
    · next x _ =>
      have hleave : Loaded { w with plugins := OnceInits.step w.plugins (.leave t) } :=
        h.move (.leave t) rfl (fun _ _ hx => Or.inl hx) rfl
      split
      · next hr =>
        refine hleave.goTo fun _ _ => ?_
        exact isSome_step h.once (h.once.returned t hr) (.leave t)
      · split
        · exact hleave.goTo (by simp)
        · exact h
    · exact h
  | ask t =>
    simp only [step]
    split
    · next x hx =>
      split
      · exact h.goTo (by simp)
      · exact (h.answer x fun _ => h.asking t x hx).goTo (by simp)
    · exact h
  | store t =>
    simp only [step]
    split
    · next x adapterCls hx =>
      have hw : Loaded { w with
          adapterRegistry := Function.update w.adapterRegistry (normalized i x) (some adapterCls) } :=
        ⟨h.once, h.asking, h.refused⟩
      exact (hw.answer x (by simp)).goTo (by simp)
    · exact h
  | check call x adapterCls =>
    simp only [step]
    split
    · exact ⟨h.once, h.asking, h.refused⟩
    · exact h
  | assign call =>
    simp only [step]
    split
    · exact ⟨h.once, h.asking, h.refused⟩
    · exact h
  | override x adapterCls => exact ⟨h.once, h.asking, h.refused⟩

/-- In every interleaving one thread at most runs `load_all`, it returns once at most, and a
lookup is refused only after it has returned. -/
theorem loaded_run (i : Interp) (labels : List (Label α)) :
    (∀ t u, (run (step i) init labels).plugins.points t = .making →
      (run (step i) init labels).plugins.points u = .making → t = u) ∧
    (run (step i) init labels).plugins.completed ≤ 1 ∧
    ∀ a ∈ (run (step i) init labels).answers, a.adapterCls = none → a.loaded = true := by
  have h := run_induction (P := Loaded) (fun _ l h => loaded_step (i := i) h l)
    (loaded_init (α := α)) labels
  refine ⟨fun t u => h.once.unique, ?_, h.refused⟩
  rw [h.once.completed]
  split <;> omega

/-! ## All lookups of a name agree -/

/-- A class is assigned where none has come since the test, or the same one has. -/
def Unraced (w : World α) : Label α → Prop
  | .assign call => ∀ name adapterCls, w.pending call = some (name, adapterCls) →
      ∀ known, w._adapters name = some known → known = adapterCls
  | _ => True

/-- A class is written into the table of the runtime where it came first for its name. -/
def Confirms (i : Interp) (w : World α) : Label α → Prop
  | .override x adapterCls => w.first (normalized i (normalized i x)) = some adapterCls
  | _ => True

/-- The registrar has the class that came first for every name. -/
def KeepsFirst (w : World α) : Prop := ∀ name, w._adapters name = w.first name

theorem keepsFirst_step (h : KeepsFirst w) (l : Label α) : KeepsFirst (step i w l) ↔ Unraced w l := by
  cases l with
  | assign call =>
    simp only [step, Unraced]
    cases hp : w.pending call with
    | none => simpa using h
    | some entry =>
      obtain ⟨name, adapterCls⟩ := entry
      have hname := h name
      constructor
      · rintro hk _ _ ⟨⟩ known hknown
        have := hk name
        simp only [Function.update_self, ← hname, hknown, Option.getD_some, Option.some.injEq] at this
        exact this.symm
      · intro hu other
        by_cases ho : other = name
        · subst ho
          cases hk : w._adapters other with
          | none => simp [← hname, hk]
          | some known => simp [← hname, hk, hu other adapterCls rfl known hk]
        · simpa [ho] using h other
  | lookup t x =>
    simp only [step, Unraced, iff_true]
    split
    · split <;> exact h
    · exact h
  | acquire t | retest t | loadAll t ok | override x adapterCls =>
    simp only [Unraced, iff_true]
    exact h
  | ensured t =>
    simp only [step, Unraced, iff_true]
    split
    · split
      · exact h
      · split <;> exact h
    · exact h
  | ask t =>
    simp only [step, Unraced, iff_true]
    split
    · split <;> exact h
    · exact h
  | store t =>
    simp only [step, Unraced, iff_true]
    split <;> exact h
  | check call x adapterCls =>
    simp only [step, Unraced, iff_true]
    split <;> exact h

/-- Every class that was answered, or is about to be, came first for the name. -/
structure Answered (i : Interp) (w : World α) : Prop where
  registry : ∀ name c, w.adapterRegistry name = some c → w.first (normalized i name) = some c
  storing : ∀ t x c, w.phases t = .storing x c → w.first (normalized i (normalized i x)) = some c
  answers : ∀ a ∈ w.answers, ∀ c, a.adapterCls = some c →
    w.first (normalized i (normalized i a.exchangeType)) = some c

theorem answered_init (i : Interp) : Answered i (init (α := α)) :=
  ⟨by simp [init], by simp [init], by simp [init]⟩

/-- Only the plugins and the registrar move, and what came first stays. -/
theorem Answered.move (h : Answered i w) {w' : World α} (hr : w'.adapterRegistry = w.adapterRegistry)
    (hp : w'.phases = w.phases) (ha : w'.answers = w.answers)
    (hf : ∀ name c, w.first name = some c → w'.first name = some c) : Answered i w' := by
  refine ⟨?_, ?_, ?_⟩
  · rw [hr]
    exact fun name c hc => hf _ c (h.registry name c hc)
  · rw [hp]
    exact fun t x c hc => hf _ c (h.storing t x c hc)
  · rw [ha]
    exact fun a hm c hc => hf _ c (h.answers a hm c hc)

theorem Answered.goTo (h : Answered i w) {t : Nat} {p : Phase α}
    (hp : ∀ x c, p = .storing x c → w.first (normalized i (normalized i x)) = some c) :
    Answered i (w.goTo t p) := by
  refine ⟨h.registry, ?_, h.answers⟩
  intro u x c hx
  by_cases hu : u = t
  · subst hu
    simp only [World.goTo, Function.update_self] at hx
    exact hp x c hx
  · simp only [World.goTo, Function.update_of_ne hu] at hx
    exact h.storing u x c hx

theorem Answered.answer (h : Answered i w) (x : PyStr) {adapterCls : Option α}
    (hc : ∀ c, adapterCls = some c → w.first (normalized i (normalized i x)) = some c) :
    Answered i (w.answer x adapterCls) := by
  refine ⟨h.registry, h.storing, ?_⟩
  intro a ha c hac
  rw [World.answer, List.mem_append, List.mem_singleton] at ha
  rcases ha with ha | rfl
  · exact h.answers a ha c hac
  · exact hc c hac

/-- The table takes a class that came first for its name. -/
theorem Answered.write (h : Answered i w) {x : PyStr} {c : α}
    (hc : w.first (normalized i (normalized i x)) = some c) : Answered i { w with
      adapterRegistry := Function.update w.adapterRegistry (normalized i x) (some c) } := by
  refine ⟨?_, h.storing, h.answers⟩
  intro name d hd
  by_cases hn : name = normalized i x
  · subst hn
    simp only [Function.update_self, Option.some.injEq] at hd
    rw [← hd]
    exact hc
  · simp only [Function.update_of_ne hn] at hd
    exact h.registry name d hd

theorem answered_step (h : Answered i w) (hk : KeepsFirst w) {l : Label α} (hl : Confirms i w l) :
    Answered i (step i w l) := by
  cases l with
  | lookup t x =>
    simp only [step]
    split
    · split
      · next c hc =>
        refine h.answer x ?_
        rintro _ ⟨⟩
        exact h.registry _ c hc
      · have hw : Answered i { w with plugins := OnceInits.step w.plugins (.enter t) } :=
          h.move rfl rfl rfl fun _ _ hf => hf
        exact hw.goTo (by simp)
    · exact h
  | acquire t | retest t | loadAll t ok => exact h.move rfl rfl rfl fun _ _ hf => hf
  | ensured t =>
    have hw : Answered i { w with plugins := OnceInits.step w.plugins (.leave t) } :=
      h.move rfl rfl rfl fun _ _ hf => hf
    simp only [step]
    split
    · split
      · exact hw.goTo (by simp)
      · split
        · exact hw.goTo (by simp)
        · exact h
    · exact h
  | ask t =>
    simp only [step]
    split
    · split
      · next c hc =>
        refine h.goTo ?_
        rintro _ _ ⟨⟩
        rw [← hk]
        exact hc
      · exact (h.answer _ (by simp)).goTo (by simp)
    · exact h
  | store t =>
    simp only [step]
    split
    · next x c hx =>
      have hfirst := h.storing t x c hx
      refine ((h.write hfirst).answer x ?_).goTo (by simp)
      rintro _ ⟨⟩
      exact hfirst
    · exact h
  | check call x c =>
    simp only [step]
    split
    · exact h.move rfl rfl rfl fun _ _ hf => hf
    · exact h
  | assign call =>
    simp only [step]
    split
    · next name c hp =>
      refine h.move rfl rfl rfl fun other d hd => ?_
      by_cases ho : other = name
      · subst ho
        simp [hd]
      · simpa [ho] using hd
    · exact h
  | override x c => exact h.write hl

/-- The registrar keeps the first class of every name exactly if no assignment follows another
one that came after its test; then, if the runtime's own table is overwritten with no other class,
all lookups of a name, by any threads and at any times, give the same class. -/
theorem lookups_agree (i : Interp) (labels : List (Label α)) :
    (Throughout (step i) KeepsFirst init labels ↔ Meets (step i) Unraced init labels) ∧
    (Meets (step i) Unraced init labels → Meets (step i) (Confirms i) init labels → ∀ a ∈ (run (step i) init labels).answers,
      ∀ b ∈ (run (step i) init labels).answers, ∀ c d, a.adapterCls = some c → b.adapterCls = some d →
      normalized i a.exchangeType = normalized i b.exchangeType → c = d) := by
  have hiff : Throughout (step i) KeepsFirst init labels ↔ Meets (step i) Unraced init labels :=
    throughout_iff_meets (P := KeepsFirst) (Q := fun _ => True) (fun _ _ _ => trivial)
      (fun _ l _ h => keepsFirst_step h l) trivial (fun _ => rfl) labels
  refine ⟨hiff, fun hm hw a ha b hb c d hc hd hname => ?_⟩
  have hboth : Meets (step i) (fun w l => Unraced w l ∧ Confirms i w l) init labels :=
    fun pre l hpre => ⟨hm pre l hpre, hw pre l hpre⟩
  have hkept : KeepsFirst (run (step i) init labels) ∧ Answered i (run (step i) init labels) :=
    throughout_last (throughout_of_meets (P := fun w => KeepsFirst w ∧ Answered i w)
      (fun _ l h hl => ⟨(keepsFirst_step h.1 l).mpr hl.1, answered_step h.2 h.1 hl.2⟩)
      ⟨fun _ => rfl, answered_init i⟩ hboth)
  have hans := hkept.2.answers
  have hac := hans a ha c hc
  have hbd := hans b hb d hd
  rw [hname, hbd] at hac
  exact (Option.some.inj hac).symm

end

end AdapterLookups
