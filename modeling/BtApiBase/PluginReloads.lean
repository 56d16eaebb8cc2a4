import BtApiBase.Effects
import BtApiBase.PluginFailures

/-!
# Loading the same entry points again

`_load_one` asks for the name of the entry point and records under the name in
the metadata. Where these are the same, a second pass finds every entry point
known but the skipped ones, and skips these again. Under another name the plugin
is loaded once more, and fails as a duplicate of itself.
-/

namespace PluginReloads

open PyText PyDict PyValue PluginRegistries PluginLoading PluginCommits Runs

variable {α : Type} [DecidableEq α]

def loadAll (w : Settings) (l : PluginLoader α) (entryPoints : List (EntryPoint α)) : PluginLoader α :=
  run (PluginLoader.step w) l entryPoints

/-- A loader that has loaded nothing. -/
def fresh (main : Tables α) : PluginLoader α := ⟨main, Dict.empty, Dict.empty, Dict.empty⟩

/-- No key is in both `loaded` and `failed`. -/
def Apart (l : PluginLoader α) : Prop := ∀ key, ¬ ((l.loaded.get key).isSome ∧ (l.failed.get key).isSome)

/-- What becomes of the plugin is recorded under the name of the entry point, and no
answer of its isolated objects ends the commit with an optional dependency. -/
def RecordedByName (e : EntryPoint α) : Prop :=
  ∀ p, e.load = .ok p → failureKey e p = e.name ∧
    ∀ exc, stopped p.isolated.registrations = some exc → exc.type ≠ .optionalDependency

/-- Each call that comes so far skips the entry point with this exception. -/
def SkipsWith (w : Settings) (e : EntryPoint α) (exc : PluginExc) : Prop :=
  ∀ l : PluginLoader α, l.known e.name = false →
    l.step w e = { l with skipped := l.skipped.set e.name exc }

/-! ## One call -/

section

variable {w : Settings} {l : PluginLoader α} {e : EntryPoint α}

/-- How a call that gets past the first test ends. -/
inductive Ends (l : PluginLoader α) (name : PyStr) : PluginLoader α → Prop where
  | failed (main : Tables α) (exc : PluginExc) :
    Ends l name { l with main := main, failed := l.failed.set name exc }
  | loaded (main : Tables α) (info : PluginInfo) :
    Ends l name { l with main := main, loaded := l.loaded.set name info }

theorem step_known (h : l.known e.name = true) : l.step w e = l := by
  simp only [PluginLoader.step, PluginLoader.loadOne, h, if_true]

omit [DecidableEq α] in
theorem ends_record (main : Tables α) (name : PyStr) {exc : PluginExc}
    (h : exc.type ≠ .optionalDependency) : Ends l name (record { l with main := main } name exc).2 := by
  simp only [record, if_neg h]
  exact .failed main exc

omit [DecidableEq α] in
theorem record_optional (l : PluginLoader α) (name : PyStr) {exc : PluginExc}
    (h : exc.type = .optionalDependency) :
    (record l name exc).2 = { l with skipped := l.skipped.set name exc } := by
  simp only [record, if_pos h]

omit [DecidableEq α] in
/-- The duplicate check raises by itself only when there are duplicates. -/
theorem checkDuplicate_optional {m : Tables α} {info : PluginInfo} {iso : Isolated α} {exc : PluginExc}
    (h : checkDuplicateRegistration w m info iso = .error exc) (ho : exc.type = .optionalDependency)
    (m' : Tables α) : checkDuplicateRegistration w m' info iso = .error exc := by
  unfold checkDuplicateRegistration at h ⊢
  cases hnames : iso.adapterNames.mapM id with
  | error exc' =>
    rw [hnames] at h
    exact h
  | ok names =>
    rw [hnames] at h
    simp only [bind, Except.bind] at h
    split at h
    · cases h
    · cases h
      cases ho

omit [DecidableEq α] in
theorem checked_optional {m : Tables α} {p : Plugin α} {exc : PluginExc}
    (h : checked w m e p = .error exc) (ho : exc.type = .optionalDependency) (m' : Tables α) :
    checked w m' e p = .error exc := by
  unfold checked at h ⊢
  cases hreturned : p.returned with
  | error exc' =>
    rw [hreturned] at h
    exact h
  | ok returned =>
    rw [hreturned] at h
    cases returned with
    | other typeName => exact h
    | malformed name exc' => exact h
    | info info =>
      simp only [bind, Except.bind] at h ⊢
      split at h
      · exact h
      · split at h
        · next hduplicate =>
          cases h
          rw [checkDuplicate_optional hduplicate ho m']
        · cases h

omit [DecidableEq α] in
theorem name_of_checked {m : Tables α} {p : Plugin α} {info : PluginInfo}
    (h : checked w m e p = .ok info) : failureKey e p = info.name := by
  obtain ⟨i, hreturned, rfl, -, -⟩ := of_checked h
  rw [failureKey, hreturned]
  dsimp only
  split <;> rfl

omit [DecidableEq α] in
theorem unknown_iff {k : PyStr} : l.known k = false ↔ l.failed.get k = none ∧ l.loaded.get k = none := by
  simp [PluginLoader.known]

/-- An entry point that is recorded under its name is skipped in every state, or is known
after the call. -/
theorem step_unknown (hr : RecordedByName e) (hk : l.known e.name = false) :
    (∃ exc, SkipsWith w e exc) ∨ Ends l e.name (l.step w e) := by
  cases hload : e.load with
  | error exc =>
    by_cases ho : exc.type = .optionalDependency
    · left
      refine ⟨exc, ?_⟩
      intro l' hk'
      simp only [PluginLoader.step, PluginLoader.loadOne, hk', hload, Bool.false_eq_true, if_false]
      exact record_optional l' e.name ho
    · right
      simp only [PluginLoader.step, PluginLoader.loadOne, hk, hload, Bool.false_eq_true, if_false]
      exact ends_record l.main e.name ho
  | ok p =>
    obtain ⟨hkey, hstop⟩ := hr p hload
    cases hchecked : checked w l.main e p with
    | error exc =>
      by_cases ho : exc.type = .optionalDependency
      · left
        refine ⟨exc, ?_⟩
        intro l' hk'
        simp only [PluginLoader.step, PluginLoader.loadOne, hk', hload, Bool.false_eq_true, if_false,
          checked_optional hchecked ho l'.main, hkey]
        exact record_optional l' e.name ho
      · right
        simp only [PluginLoader.step, PluginLoader.loadOne, hk, hload, hchecked, hkey,
          Bool.false_eq_true, if_false]
        exact ends_record l.main e.name ho
    | ok info =>
      right
      have hname : info.name = e.name := (name_of_checked hchecked).symm.trans hkey
      simp only [PluginLoader.step, PluginLoader.loadOne, hk, hload, hchecked, hkey, commit_eq, hname,
        (unknown_iff.mp hk).2, Option.isSome_none, Bool.false_eq_true, if_false]
      cases hs : stopped p.isolated.registrations with
      | some exc => exact ends_record _ e.name (hstop exc hs)
      | none => exact .loaded _ info

omit [DecidableEq α] in
theorem Ends.known {name : PyStr} {l' : PluginLoader α} (h : Ends l name l') : l'.known name = true := by
  cases h <;> simp [PluginLoader.known]

omit [DecidableEq α] in
theorem Ends.known_other {name k : PyStr} {l' : PluginLoader α} (h : Ends l name l') (hk : k ≠ name) :
    l'.known k = l.known k := by
  cases h <;> simp [PluginLoader.known, Dict.get_set_other _ _ hk]

omit [DecidableEq α] in
theorem Ends.skipped {name : PyStr} {l' : PluginLoader α} (h : Ends l name l') :
    l'.skipped = l.skipped := by
  cases h <;> rfl

theorem known_step_other (hr : RecordedByName e) {k : PyStr} (hk : k ≠ e.name) :
    (l.step w e).known k = l.known k ∧ (l.step w e).skipped.get k = l.skipped.get k := by
  by_cases hknown : l.known e.name = true
  · rw [step_known hknown]
    exact ⟨rfl, rfl⟩
  · have hunknown := Bool.eq_false_iff.mpr hknown
    rcases step_unknown (w := w) hr hunknown with ⟨exc, hskips⟩ | hends
    · rw [hskips l hunknown]
      exact ⟨rfl, Dict.get_set_other _ _ hk⟩
    · exact ⟨hends.known_other hk, by rw [hends.skipped]⟩

theorem apart_step (hr : RecordedByName e) (h : Apart l) : Apart (l.step w e) := by
  by_cases hknown : l.known e.name = true
  · rw [step_known hknown]
    exact h
  · have hunknown := Bool.eq_false_iff.mpr hknown
    obtain ⟨hfailed, hloaded⟩ := unknown_iff.mp hunknown
    rcases step_unknown (w := w) hr hunknown with ⟨exc, hskips⟩ | hends
    · rw [hskips l hunknown]
      exact h
    · generalize l.step w e = l' at hends
      intro key hboth
      have hkey := h key
      cases hends <;> simp only [Dict.get_set] at hboth
      all_goals
        by_cases hk : key = e.name
        · subst hk
          simp [hfailed, hloaded] at hboth
        · simp only [hk, if_false] at hboth
          exact hkey hboth

/-! ## A pass and its repetition -/

/-- A further call ignores the entry point, or skips it as before. -/
def Settled (w : Settings) (l : PluginLoader α) (e : EntryPoint α) : Prop :=
  l.known e.name = true ∨ (∃ exc, SkipsWith w e exc) ∧ (l.skipped.get e.name).isSome

theorem settled_self (hr : RecordedByName e) : Settled w (l.step w e) e := by
  by_cases hknown : l.known e.name = true
  · left
    rwa [step_known hknown]
  · have hunknown := Bool.eq_false_iff.mpr hknown
    rcases step_unknown (w := w) hr hunknown with ⟨exc, hskips⟩ | hends
    · right
      refine ⟨⟨exc, hskips⟩, ?_⟩
      rw [hskips l hunknown, Dict.get_set_same]
      rfl
    · exact .inl hends.known

theorem known_step (hr : RecordedByName e) {k : PyStr} (h : l.known k = true) :
    (l.step w e).known k = true := by
  by_cases hk : k = e.name
  · rwa [step_known (hk ▸ h)]
  · rwa [(known_step_other hr hk).1]

theorem settled_step (hr : RecordedByName e) {e' : EntryPoint α} (h : Settled w l e') :
    Settled w (l.step w e) e' := by
  by_cases hname : e'.name = e.name
  · have hself := settled_self (w := w) (l := l) hr
    rcases h with hknown | ⟨hskips, -⟩
    · exact .inl (known_step hr hknown)
    · rw [Settled, ← hname] at hself
      rcases hself with hknown | ⟨-, hsome⟩
      · exact .inl hknown
      · exact .inr ⟨hskips, hsome⟩
  · obtain ⟨hknown, hskipped⟩ := known_step_other (w := w) (l := l) hr hname
    rwa [Settled, hknown, hskipped]

/-- The second loader differs in what it keeps of the skipped entry points only. -/
structure Resembles (l l' : PluginLoader α) : Prop where
  main : l'.main = l.main
  loaded : l'.loaded = l.loaded
  failed : l'.failed = l.failed
  keys : l'.skipped.keys = l.skipped.keys

omit [DecidableEq α] in
theorem Resembles.known {l' : PluginLoader α} (h : Resembles l l') (k : PyStr) :
    l'.known k = l.known k := by
  rw [PluginLoader.known, PluginLoader.known, h.failed, h.loaded]

theorem resembles_step {l' : PluginLoader α} (h : Resembles l l') (hs : Settled w l e) :
    Resembles l (l'.step w e) := by
  by_cases hknown : l.known e.name = true
  · rw [step_known ((h.known e.name).trans hknown)]
    exact h
  · obtain ⟨⟨exc, hskips⟩, hsome⟩ := hs.resolve_left hknown
    rw [hskips l' ((h.known e.name).trans (Bool.eq_false_iff.mpr hknown))]
    refine ⟨h.main, h.loaded, h.failed, ?_⟩
    rw [← h.keys]
    refine Dict.keys_set_of_get exc ?_
    rw [← Dict.mem_keys, h.keys, Dict.mem_keys]
    exact hsome

end

section

variable {w : Settings} {l l' : PluginLoader α} {entryPoints : List (EntryPoint α)} {k : PyStr}

theorem settled_loadAll (hr : ∀ e ∈ entryPoints, RecordedByName e) :
    ∀ e ∈ entryPoints, Settled w (loadAll w l entryPoints) e := by
  have hkeep : ∀ (rest : List (EntryPoint α)) (l : PluginLoader α) (e : EntryPoint α),
      (∀ e' ∈ rest, RecordedByName e') → Settled w l e → Settled w (loadAll w l rest) e := by
    intro rest
    induction rest with
    | nil =>
      intro l e _ h
      exact h
    | cons e' rest ih =>
      intro l e hr h
      exact ih _ e (fun x hx => hr x (List.mem_cons_of_mem _ hx))
        (settled_step (hr e' List.mem_cons_self) h)
  induction entryPoints generalizing l with
  | nil =>
    intro e he
    cases he
  | cons e' rest ih =>
    have hrest : ∀ x ∈ rest, RecordedByName x := fun x hx => hr x (List.mem_cons_of_mem _ hx)
    intro e he
    rcases List.mem_cons.mp he with rfl | he
    · exact hkeep rest _ e hrest (settled_self (hr e List.mem_cons_self))
    · exact ih hrest e he

theorem known_loadAll (hr : ∀ e ∈ entryPoints, RecordedByName e) (h : l.known k = true) :
    (loadAll w l entryPoints).known k = true := by
  induction entryPoints generalizing l with
  | nil => exact h
  | cons e rest ih =>
    exact ih (fun x hx => hr x (List.mem_cons_of_mem _ hx)) (known_step (hr e List.mem_cons_self) h)

theorem resembles_loadAll (h : Resembles l l') (hs : ∀ e ∈ entryPoints, Settled w l e) :
    Resembles l (loadAll w l' entryPoints) := by
  induction entryPoints generalizing l' with
  | nil => exact h
  | cons e rest ih =>
    exact ih (resembles_step h (hs e List.mem_cons_self)) fun x hx => hs x (List.mem_cons_of_mem _ hx)

/-- Nothing is skipped under a name that is known. -/
theorem skipped_known (hr : ∀ e ∈ entryPoints, RecordedByName e) (h : l.known k = true) :
    (loadAll w l entryPoints).skipped.get k = l.skipped.get k := by
  induction entryPoints generalizing l with
  | nil => rfl
  | cons e rest ih =>
    have he := hr e List.mem_cons_self
    have hrest := ih (fun x hx => hr x (List.mem_cons_of_mem _ hx)) (known_step (w := w) he h)
    refine hrest.trans ?_
    by_cases hk : k = e.name
    · rw [step_known (hk ▸ h)]
    · exact (known_step_other he hk).2

/-- Two passes skip a name alike, or neither of them does. -/
theorem skipped_alike (hr : ∀ e ∈ entryPoints, RecordedByName e)
    (hs : ∀ e ∈ entryPoints, e.name = k → ∃ exc, SkipsWith w e exc) (hk : l.known k = false)
    (hk' : l'.known k = false) :
    (loadAll w l' entryPoints).skipped.get k = (loadAll w l entryPoints).skipped.get k ∨
      (loadAll w l' entryPoints).skipped.get k = l'.skipped.get k ∧
        (loadAll w l entryPoints).skipped.get k = l.skipped.get k := by
  induction entryPoints generalizing l l' with
  | nil => exact .inr ⟨rfl, rfl⟩
  | cons e rest ih =>
    have hrest : ∀ x ∈ rest, RecordedByName x := fun x hx => hr x (List.mem_cons_of_mem _ hx)
    have hsrest : ∀ x ∈ rest, x.name = k → ∃ exc, SkipsWith w x exc :=
      fun x hx => hs x (List.mem_cons_of_mem _ hx)
    by_cases hname : e.name = k
    · obtain ⟨exc, hskips⟩ := hs e List.mem_cons_self hname
      have hstep := hskips l (hname ▸ hk)
      have hstep' := hskips l' (hname ▸ hk')
      have halike : (l'.step w e).skipped.get k = (l.step w e).skipped.get k := by
        rw [hstep, hstep', hname, Dict.get_set_same, Dict.get_set_same]
      have hunknown : (l.step w e).known k = false := by
        rw [hstep]
        exact hk
      have hunknown' : (l'.step w e).known k = false := by
        rw [hstep']
        exact hk'
      left
      rcases ih hrest hsrest hunknown hunknown' with h | ⟨h', h⟩
      · exact h
      · exact h'.trans (halike.trans h.symm)
    · have hother := known_step_other (w := w) (l := l) (hr e List.mem_cons_self) (Ne.symm hname)
      have hother' := known_step_other (w := w) (l := l') (hr e List.mem_cons_self) (Ne.symm hname)
      have hpass := ih hrest hsrest (hother.1.trans hk) (hother'.1.trans hk')
      rw [hother.2, hother'.2] at hpass
      exact hpass

/-- A second pass leaves everything as the first one left it. -/
theorem loadAll_loadAll (hr : ∀ e ∈ entryPoints, RecordedByName e) :
    loadAll w (loadAll w l entryPoints) entryPoints = loadAll w l entryPoints := by
  have hsettled := settled_loadAll (w := w) (l := l) hr
  have hsame : Resembles (loadAll w l entryPoints) (loadAll w l entryPoints) := ⟨rfl, rfl, rfl, rfl⟩
  have hres := resembles_loadAll hsame hsettled
  have hskipped : (loadAll w (loadAll w l entryPoints) entryPoints).skipped =
      (loadAll w l entryPoints).skipped := by
    refine Dict.ext_get hres.keys ?_
    intro k
    by_cases hknown : (loadAll w l entryPoints).known k = true
    · exact skipped_known hr hknown
    · have hbefore : l.known k = false := by
        rw [Bool.eq_false_iff]
        intro h
        exact hknown (known_loadAll hr h)
      have hskips : ∀ e ∈ entryPoints, e.name = k → ∃ exc, SkipsWith w e exc := by
        intro e he hname
        exact ((hsettled e he).resolve_left (hname ▸ hknown)).1
      rcases skipped_alike hr hskips hbefore (Bool.eq_false_iff.mpr hknown) with h | ⟨h, -⟩
      · exact h
      · exact h
  have hmain := hres.main
  have hloaded := hres.loaded
  have hfailed := hres.failed
  generalize loadAll w (loadAll w l entryPoints) entryPoints = second at *
  generalize loadAll w l entryPoints = first at *
  obtain ⟨main, loaded, failed, skipped⟩ := first
  obtain ⟨main', loaded', failed', skipped'⟩ := second
  obtain rfl : main' = main := hmain
  obtain rfl : loaded' = loaded := hloaded
  obtain rfl : failed' = failed := hfailed
  obtain rfl : skipped' = skipped := hskipped
  rfl

end

/-- Where every plugin is recorded under the name of its entry point, no key is ever in
both `loaded` and `failed`, and a second `load_all` changes nothing. -/
theorem again_of_recordedByName (w : Settings) (main : Tables α)
    {earlier entryPoints : List (EntryPoint α)} (h : ∀ e ∈ earlier ++ entryPoints, RecordedByName e) :
    Throughout (PluginLoader.step w) Apart (fresh main) (earlier ++ entryPoints ++ entryPoints) ∧
      loadAll w (loadAll w (loadAll w (fresh main) earlier) entryPoints) entryPoints =
        loadAll w (loadAll w (fresh main) earlier) entryPoints := by
  constructor
  · refine throughout_of_meets (C := fun _ e => RecordedByName e) ?_ ?_ ?_
    · intro l e hl he
      exact apart_step he hl
    · intro key hboth
      cases hboth.1
    · intro pre e hp
      have hmem : e ∈ earlier ++ entryPoints ++ entryPoints := hp.subset (by simp)
      refine h e ?_
      simp only [List.mem_append] at hmem ⊢
      tauto
  · refine loadAll_loadAll ?_
    intro e he
    exact h e (List.mem_append_right _ he)

/-! ## A plugin of another name -/

section

variable {w : Settings} {l : PluginLoader α} {e : EntryPoint α} {p : Plugin α} {info : PluginInfo}

omit [DecidableEq α] in
theorem checkDuplicate_registered {m m' : Tables α} {iso : Isolated α}
    (h : checkDuplicateRegistration w m info iso = .ok ())
    (hex : ∃ x ∈ info.supportedExchanges, m'.registry.hasExchange x = true) :
    ∃ exc, exc.type = .registration ∧ checkDuplicateRegistration w m' info iso = .error exc := by
  obtain ⟨names, hnames, -⟩ := Effects.bind_eq_ok h
  have hsome : (info.supportedExchanges.filter m'.registry.hasExchange).isEmpty = false := by
    obtain ⟨x, hx, hhas⟩ := hex
    rw [List.isEmpty_eq_false_iff_exists_mem]
    exact ⟨x, List.mem_filter.mpr ⟨hx, hhas⟩⟩
  unfold checkDuplicateRegistration
  rw [hnames]
  simp only [bind, Except.bind, hsome, Bool.false_and, Bool.false_eq_true, if_false]
  exact ⟨_, rfl, rfl⟩

omit [DecidableEq α] in
/-- A plugin that declares an exchange that is registered meanwhile fails its second check. -/
theorem checked_registered {m m' : Tables α} (h : checked w m e p = .ok info)
    (hex : ∃ x ∈ info.supportedExchanges, m'.registry.hasExchange x = true) :
    ∃ exc, exc.type = .registration ∧ checked w m' e p = .error exc := by
  obtain ⟨i, hreturned, rfl, hcore, hduplicate⟩ := of_checked h
  obtain ⟨exc, htype, herror⟩ := checkDuplicate_registered hduplicate hex
  refine ⟨exc, htype, ?_⟩
  unfold checked
  rw [hreturned]
  simp only [bind, Except.bind]
  split
  · next hcore' => cases hcore.symm.trans hcore'
  · split
    · next hd =>
      cases hd.symm.trans herror
      rfl
    · next hd => cases hd.symm.trans herror

/-- Loaded under a name that is not that of its entry point, a plugin whose exchange is
registered by then fails as a duplicate of itself. -/
theorem loaded_and_failed (hk : l.known e.name = false) (hload : e.load = .ok p)
    (hchecked : checked w l.main e p = .ok info) (hstop : stopped p.isolated.registrations = none)
    (hname : info.name ≠ e.name) (hnew : l.loaded.get info.name = none)
    (hex : ∃ x ∈ info.supportedExchanges, (l.step w e).main.registry.hasExchange x = true) :
    ¬ Apart ((l.step w e).step w e) := by
  have hstep : l.step w e =
      { l with main := (l.step w e).main, loaded := l.loaded.set info.name info } := by
    simp only [PluginLoader.step, PluginLoader.loadOne, hk, hload, hchecked, commit_eq, hstop, hnew,
      Option.isSome_none, Bool.false_eq_true, if_false]
  generalize (l.step w e).main = m at hstep hex
  obtain ⟨exc, htype, herror⟩ := checked_registered hchecked hex
  rw [hstep]
  generalize hsecond : ({ l with main := m, loaded := l.loaded.set info.name info } : PluginLoader α) = l'
  have hloaded : l'.loaded.get info.name = some info := by
    rw [← hsecond, Dict.get_set_same]
  have hk' : l'.known e.name = false := by
    rw [← hsecond, PluginLoader.known, Dict.get_set_other _ _ (Ne.symm hname)]
    exact hk
  have herror' : checked w l'.main e p = .error exc := by
    rw [← hsecond]
    exact herror
  have hkey : failureKey e p = info.name := name_of_checked hchecked
  have hfails : l'.step w e = { l' with failed := l'.failed.set info.name exc } := by
    simp only [PluginLoader.step, PluginLoader.loadOne, hk', hload, herror', hkey, record, htype,
      reduceCtorEq, Bool.false_eq_true, if_false]
  intro h
  refine h info.name ?_
  rw [hfails]
  exact ⟨by rw [hloaded]; rfl, by rw [Dict.get_set_same]; rfl⟩

end

def listing (exchangeName : PyStr) (cls : Nat) : Listing Nat where
  exchangeName := exchangeName
  feedClass := .ok (some cls)
  exchangeDataClass := .ok none
  balanceHandler := .ok none
  streamClasses := []

/-- The entry point `alpha_feed` of a plugin whose metadata have the name given. -/
def alpha (name : PyStr) : EntryPoint Nat where
  name := u "alpha_feed"
  module := u "alpha.plugin"
  load := .ok
    { returned := .ok (.info ⟨name, u "1.0", u ">=0.1", [u "ALPHA___SPOT"], []⟩)
      isolated := { exchanges := [.ok (listing (u "ALPHA___SPOT") 1)], adapterNames := [], adapters := [] } }

/-- An entry point whose optional dependency is not installed. -/
def betaFeed : EntryPoint Nat where
  name := u "beta_feed"
  module := u "beta.plugin"
  load := .error ⟨.optionalDependency, u "beta SDK is not installed"⟩

theorem again_alpha_optional :
    Throughout (PluginLoader.step PluginTakeovers.settings) Apart (fresh PluginTakeovers.emptyLoader.main)
        ([betaFeed] ++ [alpha (u "alpha_feed"), betaFeed] ++ [alpha (u "alpha_feed"), betaFeed]) ∧
      loadAll PluginTakeovers.settings (loadAll PluginTakeovers.settings
          (loadAll PluginTakeovers.settings (fresh PluginTakeovers.emptyLoader.main) [betaFeed])
          [alpha (u "alpha_feed"), betaFeed]) [alpha (u "alpha_feed"), betaFeed] =
        loadAll PluginTakeovers.settings
          (loadAll PluginTakeovers.settings (fresh PluginTakeovers.emptyLoader.main) [betaFeed])
          [alpha (u "alpha_feed"), betaFeed] := by
  refine again_of_recordedByName PluginTakeovers.settings PluginTakeovers.emptyLoader.main ?_
  have halpha : RecordedByName (alpha (u "alpha_feed")) := by
    intro p hp
    cases hp
    refine ⟨rfl, ?_⟩
    intro exc hexc
    cases hexc
  have hoptional : RecordedByName betaFeed := by
    rintro p ⟨⟩
  intro e he
  simp only [List.cons_append, List.nil_append, List.mem_cons, List.not_mem_nil, or_false] at he
  rcases he with rfl | rfl | rfl
  · exact hoptional
  · exact halpha
  · exact hoptional

/-- The second pass puts the name of the loaded plugin in `failed`. -/
theorem second_pass_fails :
    loadAll PluginTakeovers.settings (loadAll PluginTakeovers.settings
        (fresh PluginTakeovers.emptyLoader.main) [alpha (u "alpha")]) [alpha (u "alpha")] ≠
      loadAll PluginTakeovers.settings (fresh PluginTakeovers.emptyLoader.main) [alpha (u "alpha")] ∧
    ¬ Apart (loadAll PluginTakeovers.settings (loadAll PluginTakeovers.settings
        (fresh PluginTakeovers.emptyLoader.main) [alpha (u "alpha")]) [alpha (u "alpha")]) := by
  constructor
  · intro h
    have hfailed := congrArg (fun l => (l.failed.get (u "alpha")).isSome) h
    revert hfailed
    decide +kernel
  · intro h
    have hboth := h (u "alpha")
    revert hboth
    decide +kernel

end PluginReloads
