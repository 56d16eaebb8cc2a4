import BtApiBase.Effects
import BtApiBase.PluginRegistries

/-!
# Loading plugins

`_load_one` lets a plugin register in isolated objects, checks what it declares
and copies what it registered. The plugin may do anything to the isolated
objects, so they are known by what their methods answer in the order in which
the loader asks: any of the answers may be an exception. `compatible` is the
test of a version specifier against the core version.
-/

namespace PluginLoading

open PyText PyDict PyValue PluginRegistries

variable {α : Type}

inductive PluginExcType where
  | optionalDependency | registration | versionMismatch | importError | other
  deriving DecidableEq, Repr

structure PluginExc where
  type : PluginExcType
  text : PyStr
  deriving DecidableEq, Repr

structure PluginInfo where
  name : PyStr
  version : PyStr
  coreRequires : PyStr
  supportedExchanges : List PyStr
  pluginModule : PyStr := []
  deriving DecidableEq, Repr

/-! ## The isolated objects -/

/-- What an isolated registry answers about one exchange that it lists. -/
structure Listing (α : Type) where
  exchangeName : PyStr
  feedClass : Except PluginExc (Option α)
  exchangeDataClass : Except PluginExc (Option α)
  balanceHandler : Except PluginExc (Option α)
  streamClasses : List (Except PluginExc (PyStr × Option α))

/-- `exchanges` are the answers to the walk over `list_exchanges()`, `adapterNames`
and `adapters` those of `list_adapters()` and `items()`. -/
structure Isolated (α : Type) where
  exchanges : List (Except PluginExc (Listing α))
  adapterNames : List (Except PluginExc PyStr)
  adapters : List (Except PluginExc (PyStr × Option α))

/-- What isolated objects answer that were used by their methods only. -/
def Isolated.ofTables (r : ExchangeRegistry α) (adapters : Dict PyStr (Option α)) : Isolated α where
  exchanges := r.listExchanges.map fun name => .ok
    { exchangeName := name
      feedClass := .ok (r.getFeedClass name)
      exchangeDataClass := .ok (r.getExchangeDataClass name)
      balanceHandler := .ok (r.getBalanceHandler name)
      streamClasses := (r.getStreamClasses name).items.map .ok }
  adapterNames := adapters.keys.map .ok
  adapters := adapters.items.map .ok

/-! ## The commit -/

/-- A class is registered unless it is `None`. -/
def answer (slot : Slot) : Except PluginExc (Option α) → List (Except PluginExc (Registration α))
  | .error e => [.error e]
  | .ok none => []
  | .ok (some c) => [.ok ⟨slot, some c⟩]

def Listing.registrations (l : Listing α) : List (Except PluginExc (Registration α)) :=
  answer (.feed l.exchangeName) l.feedClass ++
    answer (.exchangeData l.exchangeName) l.exchangeDataClass ++
    answer (.balanceHandler l.exchangeName) l.balanceHandler ++
    l.streamClasses.map fun s => s.map fun x => ⟨.stream l.exchangeName x.1, x.2⟩

/-- What the commit does in order: a registration in the main objects, or an answer
that raises and ends it. -/
def Isolated.registrations (iso : Isolated α) : List (Except PluginExc (Registration α)) :=
  (iso.exchanges.flatMap fun l =>
    match l with
    | .error e => [.error e]
    | .ok l => l.registrations) ++
  iso.adapters.map fun a => a.map fun x => ⟨.adapter x.1, x.2⟩

variable [DecidableEq α]

/-- `_commit_registry` and `_commit_runtime`. -/
def commit (i : Interp) : Tables α → List (Except PluginExc (Registration α)) →
    Tables α × Option PluginExc
  | m, [] => (m, none)
  | m, .ok r :: rest => commit i (m.register i r) rest
  | m, .error e :: _ => (m, some e)

/-! ## The loader -/

/-- What `register_plugin` returns; `malformed` is a `PluginInfo` whose fields make a
check raise. -/
inductive Returned where
  | info (i : PluginInfo)
  | malformed (name : PyStr) (e : PluginExc)
  | other (typeName : PyStr)

structure Plugin (α : Type) where
  returned : Except PluginExc Returned
  isolated : Isolated α

structure EntryPoint (α : Type) where
  name : PyStr
  module : PyStr
  load : Except PluginExc (Plugin α)

structure PluginLoader (α : Type) where
  main : Tables α
  loaded : Dict PyStr PluginInfo
  failed : Dict PyStr PluginExc
  skipped : Dict PyStr PluginExc

/-- How a call of `_load_one` ends. -/
inductive Outcome where
  | ignored
  | loaded (info : PluginInfo)
  | repeated
  | failed (key : PyStr)
  | skipped (key : PyStr)
  deriving DecidableEq, Repr

structure Settings where
  interp : Interp
  /-- `Version(__version__) in SpecifierSet(core_requires)` -/
  compatible : PyStr → Except PluginExc Bool

def coreVersion : PyStr := u "0.15.4"

def joined (names : List PyStr) : PyStr :=
  (u ", ").intercalate (names.mergeSort fun a b => !before b a)

def checkCoreCompatibility (w : Settings) (info : PluginInfo) : Except PluginExc Unit := do
  if ← w.compatible info.coreRequires then pure ()
  else throw ⟨.versionMismatch, u "plugin " ++ info.name ++ u " requires core " ++ info.coreRequires ++
    u ", current=" ++ coreVersion⟩

def checkDuplicateRegistration (w : Settings) (m : Tables α) (info : PluginInfo) (iso : Isolated α) :
    Except PluginExc Unit := do
  let duplicateExchanges := info.supportedExchanges.filter m.registry.hasExchange
  let adapterNames ← iso.adapterNames.mapM id
  let duplicateAdapters := adapterNames.filter fun a => (m.registrar.getAdapter w.interp a).isSome
  if duplicateExchanges.isEmpty && duplicateAdapters.isEmpty then pure ()
  else
    let parts := (if duplicateExchanges.isEmpty then []
        else [u "duplicate exchanges: " ++ joined duplicateExchanges]) ++
      (if duplicateAdapters.isEmpty then []
        else [u "duplicate adapters: " ++ joined duplicateAdapters])
    throw ⟨.registration, u "duplicate registration skipped: " ++ (u "; ").intercalate parts⟩

/-- The tests of `_load_one` between `register_plugin` and the commit. -/
def checked (w : Settings) (m : Tables α) (e : EntryPoint α) (p : Plugin α) :
    Except PluginExc PluginInfo := do
  match ← p.returned with
  | .other typeName =>
    throw ⟨.registration, u "plugin " ++ e.name ++ u " returned invalid plugin metadata: " ++ typeName⟩
  | .malformed _ exc => throw exc
  | .info info =>
    let info := if info.pluginModule.isEmpty then { info with pluginModule := e.module } else info
    checkCoreCompatibility w info
    checkDuplicateRegistration w m info p.isolated
    return info

omit [DecidableEq α] in
/-- What the tests have let through. -/
theorem of_checked {w : Settings} {m : Tables α} {e : EntryPoint α} {p : Plugin α} {info : PluginInfo}
    (h : checked w m e p = .ok info) :
    ∃ i, p.returned = .ok (.info i) ∧
      info = (if i.pluginModule.isEmpty then { i with pluginModule := e.module } else i) ∧
      checkCoreCompatibility w info = .ok () ∧ checkDuplicateRegistration w m info p.isolated = .ok () := by
  obtain ⟨returned, hreturned, h⟩ := Effects.bind_eq_ok h
  cases returned with
  | other typeName => cases h
  | malformed name exc => cases h
  | info i =>
    obtain ⟨⟨⟩, hcore, h⟩ := Effects.bind_eq_ok h
    obtain ⟨⟨⟩, hduplicate, h⟩ := Effects.bind_eq_ok h
    cases h
    exact ⟨i, hreturned, rfl, hcore, hduplicate⟩

/-- The name in the metadata, if there is any. -/
def failureKey (e : EntryPoint α) (p : Plugin α) : PyStr :=
  match p.returned with
  | .ok (.info info) => info.name
  | .ok (.malformed name _) => name
  | _ => e.name

def record (l : PluginLoader α) (key : PyStr) (exc : PluginExc) : Outcome × PluginLoader α :=
  if exc.type = .optionalDependency then (.skipped key, { l with skipped := l.skipped.set key exc })
  else (.failed key, { l with failed := l.failed.set key exc })

def PluginLoader.known (l : PluginLoader α) (entryName : PyStr) : Bool :=
  (l.failed.get entryName).isSome || (l.loaded.get entryName).isSome

def PluginLoader.loadOne (w : Settings) (l : PluginLoader α) (e : EntryPoint α) :
    Outcome × PluginLoader α :=
  if l.known e.name then (.ignored, l)
  else match e.load with
    | .error exc => record l e.name exc
    | .ok p => match checked w l.main e p with
      | .error exc => record l (failureKey e p) exc
      | .ok info =>
        let out := commit w.interp l.main p.isolated.registrations
        let l := { l with main := out.1 }
        match out.2 with
        | some exc => record l (failureKey e p) exc
        | none =>
          if (l.loaded.get info.name).isSome then (.repeated, l)
          else (.loaded info, { l with loaded := l.loaded.set info.name info })

def PluginLoader.step (w : Settings) (l : PluginLoader α) (e : EntryPoint α) : PluginLoader α :=
  (l.loadOne w e).2

end PluginLoading
