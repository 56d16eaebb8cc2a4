import BtApiBase.PluginRegistries

/-!
# Registry objects

`ExchangeRegistry` as objects in memory. An instance refers to its dictionaries,
the table of streams refers to one more dictionary for each exchange, and a
lookup hands out a dictionary that its caller may change at any time. A name of
the public API leads to the method of the instance, or through the class to the
default instance. Instances are numbered in the order of their creation.
-/

namespace RegistryObjects

open PyText PyDict PluginRegistries

variable {α : Type}

/-- Classes and handlers by name, or by the type of a stream. -/
abbrev Classes (α : Type) := Dict PyStr (Option α)

structure Instance where
  feedClasses : Nat
  streamClasses : Nat
  exchangeDataClasses : Nat
  balanceHandlers : Nat

/-- `held` lists the dictionaries that callers were handed; `next` is the first
address that is not in use. -/
structure Memory (α : Type) where
  classes : Nat → Classes α
  streams : Nat → Dict PyStr Nat
  instances : List Instance
  default : Option Nat
  held : List Nat
  next : Nat

def start : Memory α := ⟨fun _ => Dict.empty, fun _ => Dict.empty, [], none, [], 0⟩

inductive Call (α : Type) where
  | registerFeed (exchangeName : PyStr) (feedClass : Option α)
  | registerStream (exchangeName streamType : PyStr) (streamClass : Option α)
  | registerExchangeData (exchangeName : PyStr) (exchangeDataClass : Option α)
  | registerBalanceHandler (exchangeName : PyStr) (handlerFunc : Option α)
  | unregisterFeed (exchangeName : PyStr)
  | getFeedClass (exchangeName : PyStr)
  | getFeedClasses
  | createFeed (exchangeName : PyStr)
  | createExchangeData (exchangeName : PyStr)
  | getExchangeDataClass (exchangeName : PyStr)
  | getExchangeDataClasses
  | getStreamClasses (exchangeName : PyStr)
  | getStreamClass (exchangeName streamType : PyStr)
  | getBalanceHandler (exchangeName : PyStr)
  | hasExchange (exchangeName : PyStr)
  | listExchanges
  | clear

/-- `created` names the class that is called, `notFound` is `ExchangeNotFoundError`. -/
inductive Answer (α : Type) where
  | none
  | bool (b : Bool)
  | cls (c : Option α)
  | classes (d : Classes α)
  | created (c : α)
  | notFound (exchangeName : PyStr) (available : List PyStr)
  | names (exchangeNames : List PyStr)

/-- `_create_feed` and `_create_exchange_data`, which look into different tables. -/
def created (table : Classes α) (exchangeName : PyStr) : Answer α :=
  match (table.get exchangeName).join with
  | some c => .created c
  | none => .notFound exchangeName table.keys

/-! ## The methods -/

namespace Memory

variable (w : Memory α)

def put (a : Nat) (d : Classes α) : Memory α := { w with classes := Function.update w.classes a d }

/-- `outer.setdefault(name, {})` -/
def setdefault (outer : Nat) (name : PyStr) : Nat × Memory α :=
  match (w.streams outer).get name with
  | some inner => (inner, w)
  | none => (w.next, { w with
      classes := Function.update w.classes w.next Dict.empty
      streams := Function.update w.streams outer ((w.streams outer).set name w.next)
      next := w.next + 1 })

/-- A copy is a new dictionary in the hands of the caller. -/
def copy (d : Classes α) : Answer α × Memory α :=
  (.classes d, { w.put w.next d with held := w.next :: w.held, next := w.next + 1 })

def streamsOf (m : Instance) (exchangeName : PyStr) : Classes α :=
  ((w.streams m.streamClasses).get exchangeName).elim Dict.empty w.classes

/-- The four `clear` calls. -/
def cleared (m : Instance) : Memory α :=
  { (((w.put m.feedClasses Dict.empty).put m.exchangeDataClasses Dict.empty).put
      m.balanceHandlers Dict.empty) with
    streams := Function.update w.streams m.streamClasses Dict.empty }

def perform (m : Instance) : Call α → Answer α × Memory α
  | .registerFeed name c => (.none, w.put m.feedClasses ((w.classes m.feedClasses).set name c))
  | .registerStream name type c =>
    let (inner, w) := w.setdefault m.streamClasses name
    (.none, w.put inner ((w.classes inner).set type c))
  | .registerExchangeData name c =>
    (.none, w.put m.exchangeDataClasses ((w.classes m.exchangeDataClasses).set name c))
  | .registerBalanceHandler name c =>
    (.none, w.put m.balanceHandlers ((w.classes m.balanceHandlers).set name c))
  | .unregisterFeed name =>
    (.bool ((w.classes m.feedClasses).get name).join.isSome,
      w.put m.feedClasses ((w.classes m.feedClasses).pop name))
  | .getFeedClass name => (.cls ((w.classes m.feedClasses).get name).join, w)
  | .getFeedClasses => w.copy (w.classes m.feedClasses)
  | .createFeed name => (created (w.classes m.feedClasses) name, w)
  | .createExchangeData name => (created (w.classes m.exchangeDataClasses) name, w)
  | .getExchangeDataClass name => (.cls ((w.classes m.exchangeDataClasses).get name).join, w)
  | .getExchangeDataClasses => w.copy (w.classes m.exchangeDataClasses)
  | .getStreamClasses name => w.copy (w.streamsOf m name)
  | .getStreamClass name type => (.cls ((w.streamsOf m name).get type).join, w)
  | .getBalanceHandler name => (.cls ((w.classes m.balanceHandlers).get name).join, w)
  | .hasExchange name => (.bool ((w.classes m.feedClasses).get name).isSome, w)
  | .listExchanges => (.names (w.classes m.feedClasses).keys, w)
  | .clear => (.none, w.cleared m)

/-! ## The class -/

/-- The tables of a new instance. -/
def newInstance : Memory α :=
  { ((w.put w.next Dict.empty).put (w.next + 2) Dict.empty).put (w.next + 3) Dict.empty with
    streams := Function.update w.streams (w.next + 1) Dict.empty
    instances := w.instances ++ [⟨w.next, w.next + 1, w.next + 2, w.next + 3⟩]
    next := w.next + 4 }

/-- `ExchangeRegistry()` and `_get_default` -/
def getDefault : Nat × Memory α :=
  match w.default with
  | some r => (r, w)
  | none => (w.instances.length, { w.newInstance with default := some w.instances.length })

end Memory

/-- The object that a method is looked up on. -/
inductive Receiver where
  | cls
  | obj (r : Nat)

inductive Action (α : Type) where
  | construct
  | createIsolated
  | call (receiver : Receiver) (c : Call α)
  | change (a : Nat) (d : Classes α)

/-- `_ClassMethodOrInstance.__get__` -/
def dispatch (w : Memory α) : Receiver → Nat × Memory α
  | .cls => w.getDefault
  | .obj r => (r, w)

/-- A caller can use any instance and change any dictionary that it was handed. -/
def step (w : Memory α) : Action α → Memory α
  | .construct => w.getDefault.2
  | .createIsolated => w.newInstance
  | .call receiver c =>
    let (r, w) := dispatch w receiver
    match w.instances[r]? with
    | some m => (w.perform m c).2
    | none => w
  | .change a d => if a ∈ w.held then w.put a d else w

/-- The call that instance `r` gets in a step. -/
def callTo (r : Nat) (w : Memory α) : Action α → List (Call α)
  | .call receiver c =>
    let (s, w) := dispatch w receiver
    if s = r ∧ s < w.instances.length then [c] else []
  | _ => []

/-- The answer that instance `r` gives in a step. -/
def answerOf (r : Nat) (w : Memory α) : Action α → List (Answer α)
  | .call receiver c =>
    let (s, w) := dispatch w receiver
    match w.instances[s]? with
    | some m => if s = r then [(w.perform m c).1] else []
    | none => []
  | _ => []

def callsTo (r : Nat) (as : List (Action α)) : List (Call α) := Runs.log step (callTo r) start as

def answersOf (r : Nat) (as : List (Action α)) : List (Answer α) := Runs.log step (answerOf r) start as

/-! ## One registry as a value -/

/-- The registry after a call, as if it stood alone. -/
def after (r : ExchangeRegistry α) : Call α → ExchangeRegistry α
  | .registerFeed name c => r.registerFeed name c
  | .registerStream name type c => r.registerStream name type c
  | .registerExchangeData name c => r.registerExchangeData name c
  | .registerBalanceHandler name c => r.registerBalanceHandler name c
  | .unregisterFeed name => { r with feedClasses := r.feedClasses.pop name }
  | .clear => ExchangeRegistry.createIsolated
  | _ => r

def answer (r : ExchangeRegistry α) : Call α → Answer α
  | .unregisterFeed name => .bool (r.getFeedClass name).isSome
  | .getFeedClass name => .cls (r.getFeedClass name)
  | .getFeedClasses => .classes r.feedClasses
  | .createFeed name => created r.feedClasses name
  | .createExchangeData name => created r.exchangeDataClasses name
  | .getExchangeDataClass name => .cls (r.getExchangeDataClass name)
  | .getExchangeDataClasses => .classes r.exchangeDataClasses
  | .getStreamClasses name => .classes (r.getStreamClasses name)
  | .getStreamClass name type => .cls ((r.getStreamClasses name).get type).join
  | .getBalanceHandler name => .cls (r.getBalanceHandler name)
  | .hasExchange name => .bool (r.hasExchange name)
  | .listExchanges => .names r.listExchanges
  | _ => .none

/-- The answers of a registry that gets these calls and nothing else. -/
def answers (r : ExchangeRegistry α) : List (Call α) → List (Answer α)
  | [] => []
  | c :: calls => answer r c :: answers (after r c) calls

/-- The dictionaries behind the addresses in a table of streams. -/
def resolve (classes : Nat → Classes α) (d : Dict PyStr Nat) : Dict PyStr (Classes α) where
  items := d.items.map fun kv => (kv.1, classes kv.2)
  nodup := by simpa [Function.comp_def] using d.nodup

def Memory.contents (w : Memory α) (m : Instance) : ExchangeRegistry α where
  feedClasses := w.classes m.feedClasses
  streamClasses := resolve w.classes (w.streams m.streamClasses)
  exchangeDataClasses := w.classes m.exchangeDataClasses
  balanceHandlers := w.classes m.balanceHandlers

/-- What instance `r` holds, once it exists. -/
def Memory.view (w : Memory α) (r : Nat) : Option (ExchangeRegistry α) := w.instances[r]?.map w.contents

@[simp] theorem keys_resolve (classes : Nat → Classes α) (d : Dict PyStr Nat) :
    (resolve classes d).keys = d.keys := by simp [resolve, Dict.keys, Function.comp_def]

@[simp] theorem get_resolve (classes : Nat → Classes α) (d : Dict PyStr Nat) (k : PyStr) :
    (resolve classes d).get k = (d.get k).map classes := by
  simp only [Dict.get, resolve]
  induction d.items with
  | nil => rfl
  | cons kv items ih =>
    by_cases hk : kv.1 = k
    · simp [find, hk]
    · simpa [find, hk] using ih

/-- Only the dictionaries that the table refers to count. -/
theorem resolve_congr {f g : Nat → Classes α} {d : Dict PyStr Nat}
    (h : ∀ k a, d.get k = some a → f a = g a) : resolve f d = resolve g d := by
  refine Dict.ext_get (by simp) fun k => ?_
  rw [get_resolve, get_resolve]
  cases hk : d.get k with
  | none => rfl
  | some a => simp [h k a hk]

/-! ## Where the dictionaries are -/

inductive Field where
  | feedClasses | streamClasses | exchangeDataClasses | balanceHandlers
  | stream (exchangeName : PyStr)

def Memory.cell (w : Memory α) (m : Instance) : Field → Option Nat
  | .feedClasses => some m.feedClasses
  | .streamClasses => some m.streamClasses
  | .exchangeDataClasses => some m.exchangeDataClasses
  | .balanceHandlers => some m.balanceHandlers
  | .stream name => (w.streams m.streamClasses).get name

/-- Instance `r` has the dictionary at `a` in field `f`. -/
def Memory.Has (w : Memory α) (r : Nat) (f : Field) (a : Nat) : Prop :=
  ∃ m, w.instances[r]? = some m ∧ w.cell m f = some a

/-- Every dictionary has one place, and no caller holds it. -/
structure Separate (w : Memory α) : Prop where
  once : ∀ {r s f g a}, w.Has r f a → w.Has s g a → r = s ∧ f = g
  allocated : ∀ {r f a}, w.Has r f a → a < w.next
  unheld : ∀ {r f a}, w.Has r f a → a ∉ w.held
  handed : ∀ a ∈ w.held, a < w.next

/-- What a step that only concerns instance `r` does to all instances. -/
structure Effect (w w' : Memory α) (r : Nat) (g : ExchangeRegistry α → ExchangeRegistry α) : Prop where
  separate : Separate w'
  default : w'.default = w.default
  length : w'.instances.length = w.instances.length
  view : ∀ s, w'.view s = if s = r then (w.view s).map g else w.view s

variable {w : Memory α} {r : Nat} {m : Instance}

theorem effect_id (hw : Separate w) (r : Nat) : Effect w w r id where
  separate := hw
  default := rfl
  length := rfl
  view s := by simp

theorem contents_put_other {a : Nat} (h : ∀ f, w.cell m f ≠ some a) (d : Classes α) :
    (w.put a d).contents m = w.contents m := by
  have hc : ∀ {f b}, w.cell m f = some b → Function.update w.classes a d b = w.classes b := by
    intro f b hb
    have hne : b ≠ a := fun he => h f (he ▸ hb)
    simp [hne]
  have hf := hc (f := .feedClasses) rfl
  have he := hc (f := .exchangeDataClasses) rfl
  have hb := hc (f := .balanceHandlers) rfl
  have hs : resolve (Function.update w.classes a d) (w.streams m.streamClasses) =
      resolve w.classes (w.streams m.streamClasses) :=
    resolve_congr fun k b hk => hc (f := .stream k) hk
  simp only [Memory.contents, Memory.put, hf, he, hb, hs]

/-- A write to a dictionary of instance `r` leaves the places as they are. -/
theorem effect_put (hw : Separate w) (hm : w.instances[r]? = some m) {f : Field} {a : Nat}
    (ha : w.cell m f = some a) {d : Classes α} {g : ExchangeRegistry α → ExchangeRegistry α}
    (hg : (w.put a d).contents m = g (w.contents m)) : Effect w (w.put a d) r g where
  separate := ⟨hw.once, hw.allocated, hw.unheld, hw.handed⟩
  default := rfl
  length := rfl
  view s := by
    split
    · next hs => simp [Memory.view, hs, hm, Memory.put, ← hg]
    · next hs =>
      cases hi : w.instances[s]? with
      | none => simp [Memory.view, Memory.put, hi]
      | some m' =>
        have hother : ∀ f', w.cell m' f' ≠ some a :=
          fun f' he => hs (hw.once ⟨m', hi, he⟩ ⟨m, hm, ha⟩).1
        have hc := contents_put_other hother d
        simpa [Memory.view, Memory.put, hi] using hc

/-- Two fields of one instance are two dictionaries. -/
theorem Separate.ne (hw : Separate w) (hm : w.instances[r]? = some m) {f g : Field} {a b : Nat}
    (ha : w.cell m f = some a) (hb : w.cell m g = some b) (hne : f ≠ g) : a ≠ b :=
  fun he => hne (hw.once ⟨m, hm, ha⟩ ⟨m, hm, he ▸ hb⟩).2

/-- An assignment to the dictionary in a field. -/
def assign (d : Classes α) : Field → ExchangeRegistry α → ExchangeRegistry α
  | .feedClasses, x => { x with feedClasses := d }
  | .streamClasses, x => x
  | .exchangeDataClasses, x => { x with exchangeDataClasses := d }
  | .balanceHandlers, x => { x with balanceHandlers := d }
  | .stream name, x => { x with streamClasses := x.streamClasses.set name d }

theorem classes_put (hw : Separate w) (hm : w.instances[r]? = some m) {f g : Field} {a b : Nat}
    (ha : w.cell m f = some a) (hb : w.cell m g = some b) (hne : g ≠ f) (d : Classes α) :
    (w.put a d).classes b = w.classes b := by simp [Memory.put, hw.ne hm hb ha hne]

theorem classes_put_self (w : Memory α) (a : Nat) (d : Classes α) : (w.put a d).classes a = d := by simp [Memory.put]

theorem resolve_put (hw : Separate w) (hm : w.instances[r]? = some m) {f : Field} {a : Nat}
    (ha : w.cell m f = some a) (hf : ∀ name, f ≠ .stream name) (d : Classes α) :
    resolve (w.put a d).classes (w.streams m.streamClasses) = resolve w.classes (w.streams m.streamClasses) :=
  resolve_congr fun k _ hk => classes_put hw hm ha (g := .stream k) hk (hf k).symm d

theorem resolve_put_stream (hw : Separate w) (hm : w.instances[r]? = some m) {name : PyStr} {a : Nat}
    (ha : w.cell m (.stream name) = some a) (d : Classes α) :
    resolve (w.put a d).classes (w.streams m.streamClasses) =
      (resolve w.classes (w.streams m.streamClasses)).set name d := by
  have hget : (w.streams m.streamClasses).get name = some a := ha
  refine Dict.ext_get ?_ fun k => ?_
  · rw [Dict.keys_set_of_get d (by simp [hget]), keys_resolve, keys_resolve]
  · rw [get_resolve, Dict.get_set]
    by_cases hk : k = name
    · rw [if_pos hk, hk, hget]
      exact congrArg some (classes_put_self w a d)
    · rw [if_neg hk, get_resolve]
      cases hb : (w.streams m.streamClasses).get k with
      | none => rfl
      | some b => exact congrArg some (classes_put hw hm ha (g := .stream k) hb (by simpa using hk) d)

theorem contents_put (hw : Separate w) (hm : w.instances[r]? = some m) {f : Field} {a : Nat}
    (ha : w.cell m f = some a) (d : Classes α) : (w.put a d).contents m = assign d f (w.contents m) := by
  have hself := classes_put_self w a d
  have hfeed := classes_put hw hm ha (g := .feedClasses) rfl
  have hdata := classes_put hw hm ha (g := .exchangeDataClasses) rfl
  have hbalance := classes_put hw hm ha (g := .balanceHandlers) rfl
  have hstreams := resolve_put hw hm ha
  have hplace : (w.put a d).streams = w.streams := rfl
  cases f with
  | feedClasses =>
    obtain rfl : m.feedClasses = a := Option.some.inj ha
    simp [Memory.contents, assign, hself, hplace, hdata, hbalance, hstreams]
  | exchangeDataClasses =>
    obtain rfl : m.exchangeDataClasses = a := Option.some.inj ha
    simp [Memory.contents, assign, hself, hplace, hfeed, hbalance, hstreams]
  | balanceHandlers =>
    obtain rfl : m.balanceHandlers = a := Option.some.inj ha
    simp [Memory.contents, assign, hself, hplace, hfeed, hdata, hstreams]
  | streamClasses => simp [Memory.contents, assign, hplace, hfeed, hdata, hbalance, hstreams]
  | stream name =>
    have hstream := resolve_put_stream hw hm ha d
    simp [Memory.contents, assign, hplace, hfeed, hdata, hbalance, hstream]

/-- A write to a dictionary of instance `r` is an assignment to its field. -/
theorem effect_assign (hw : Separate w) (hm : w.instances[r]? = some m) {f : Field} {a : Nat}
    (ha : w.cell m f = some a) (d : Classes α) : Effect w (w.put a d) r (assign d f) :=
  effect_put hw hm ha (contents_put hw hm ha d)

theorem Effect.trans {w₁ w₂ w₃ : Memory α} {g h : ExchangeRegistry α → ExchangeRegistry α}
    (h₁ : Effect w₁ w₂ r g) (h₂ : Effect w₂ w₃ r h) : Effect w₁ w₃ r (h ∘ g) where
  separate := h₂.separate
  default := h₂.default.trans h₁.default
  length := h₂.length.trans h₁.length
  view s := by
    rw [h₂.view, h₁.view]
    split
    · next hs => rw [Option.map_map]
    · next hs => rfl

/-- The table of streams of instance `r` refers to other dictionaries now. -/
def Memory.putStreams (w : Memory α) (a : Nat) (d : Dict PyStr Nat) : Memory α :=
  { w with streams := Function.update w.streams a d }

theorem has_putStreams (hw : Separate w) (hm : w.instances[r]? = some m) {d : Dict PyStr Nat} {s : Nat}
    {f : Field} {a : Nat} (h : (w.putStreams m.streamClasses d).Has s f a) :
    w.Has s f a ∨ s = r ∧ ∃ name, f = .stream name ∧ d.get name = some a := by
  obtain ⟨m', hi, hc⟩ := h
  cases f with
  | stream name =>
    have hget : (Function.update w.streams m.streamClasses d m'.streamClasses).get name = some a := hc
    by_cases he : m'.streamClasses = m.streamClasses
    · have hs := (hw.once (f := .streamClasses) (g := .streamClasses) ⟨m', hi, rfl⟩ ⟨m, hm, congrArg some he.symm⟩).1
      rw [he, Function.update_self] at hget
      exact .inr ⟨hs, name, rfl, hget⟩
    · rw [Function.update_of_ne he] at hget
      exact .inl ⟨m', hi, hget⟩
  | feedClasses => exact .inl ⟨m', hi, hc⟩
  | streamClasses => exact .inl ⟨m', hi, hc⟩
  | exchangeDataClasses => exact .inl ⟨m', hi, hc⟩
  | balanceHandlers => exact .inl ⟨m', hi, hc⟩

theorem view_putStreams (hw : Separate w) (hm : w.instances[r]? = some m) (d : Dict PyStr Nat) (s : Nat) :
    (w.putStreams m.streamClasses d).view s =
      if s = r then (w.view s).map fun x => { x with streamClasses := resolve w.classes d }
      else w.view s := by
  split
  · next hs => simp [Memory.view, hs, hm, Memory.putStreams, Memory.contents]
  · next hs =>
    cases hi : w.instances[s]? with
    | none => simp [Memory.view, Memory.putStreams, hi]
    | some m' =>
      have hne : m'.streamClasses ≠ m.streamClasses := fun he =>
        hs (hw.once (f := .streamClasses) (g := .streamClasses) ⟨m', hi, rfl⟩ ⟨m, hm, congrArg some he.symm⟩).1
      simp [Memory.view, Memory.putStreams, hi, Memory.contents, hne]

theorem effect_clearStreams (hw : Separate w) (hm : w.instances[r]? = some m) :
    Effect w (w.putStreams m.streamClasses Dict.empty) r fun x => { x with streamClasses := Dict.empty } := by
  have hhas : ∀ {s f a}, (w.putStreams m.streamClasses Dict.empty).Has s f a → w.Has s f a := by
    intro s f a h
    rcases has_putStreams hw hm h with h | ⟨-, name, -, h⟩
    · exact h
    · cases h
  exact ⟨⟨fun h h' => hw.once (hhas h) (hhas h'), fun h => hw.allocated (hhas h),
    fun h => hw.unheld (hhas h), hw.handed⟩, rfl, rfl, view_putStreams hw hm Dict.empty⟩

theorem effect_cleared (hw : Separate w) (hm : w.instances[r]? = some m) :
    Effect w (w.cleared m) r fun _ => ExchangeRegistry.createIsolated := by
  have h₁ := effect_assign hw hm (f := .feedClasses) rfl Dict.empty
  have h₂ := effect_assign h₁.separate hm (f := .exchangeDataClasses) rfl Dict.empty
  have h₃ := effect_assign h₂.separate hm (f := .balanceHandlers) rfl Dict.empty
  exact ((h₁.trans h₂).trans h₃).trans (effect_clearStreams h₃.separate hm)

/-- The next address is given to nobody and stays at nobody's place. -/
theorem not_has_next (hw : Separate w) (s : Nat) (f : Field) : ¬ w.Has s f w.next :=
  fun h => Nat.lt_irrefl _ (hw.allocated h)

/-- A dictionary at the next address. -/
def Memory.alloc (w : Memory α) (d : Classes α) : Memory α := { w.put w.next d with next := w.next + 1 }

theorem separate_alloc (hw : Separate w) (d : Classes α) : Separate (w.alloc d) where
  once := hw.once
  allocated h := Nat.lt_succ_of_lt (hw.allocated h)
  unheld := hw.unheld
  handed a ha := Nat.lt_succ_of_lt (hw.handed a ha)

theorem view_alloc (hw : Separate w) (d : Classes α) (s : Nat) : (w.alloc d).view s = w.view s := by
  cases hi : w.instances[s]? with
  | none => simp [Memory.view, Memory.alloc, Memory.put, hi]
  | some m =>
    have hc : (w.alloc d).contents m = w.contents m :=
      contents_put_other (fun f h => not_has_next hw s f ⟨m, hi, h⟩) d
    have hi' : (w.alloc d).instances[s]? = some m := hi
    simp [Memory.view, hi, hi', hc]

theorem effect_copy (hw : Separate w) (r : Nat) (d : Classes α) : Effect w (w.copy d).2 r id where
  separate := by
    have ha := separate_alloc hw d
    refine ⟨ha.once, ha.allocated, ?_, ?_⟩
    · intro s f a h hmem
      rcases List.mem_cons.mp hmem with rfl | hmem
      · exact not_has_next hw s f h
      · exact hw.unheld h hmem
    · intro a hmem
      rcases List.mem_cons.mp hmem with rfl | hmem
      · exact Nat.lt_succ_self _
      · exact ha.handed a hmem
  default := rfl
  length := rfl
  view s := by
    have hv : (w.copy d).2.view s = w.view s := view_alloc hw d s
    simp [hv]

/-- A new dictionary in the table of streams of instance `r`. -/
theorem has_newStream (hw : Separate w) (hm : w.instances[r]? = some m) {name : PyStr} {s : Nat}
    {f : Field} {a : Nat}
    (h : ((w.alloc Dict.empty).putStreams m.streamClasses
      ((w.streams m.streamClasses).set name w.next)).Has s f a) :
    w.Has s f a ∨ s = r ∧ f = .stream name ∧ a = w.next := by
  rcases has_putStreams (separate_alloc hw Dict.empty) hm h with h | ⟨hs, k, rfl, hk⟩
  · exact .inl h
  · rw [Dict.get_set] at hk
    by_cases hn : k = name
    · rw [if_pos hn, Option.some.injEq] at hk
      exact .inr ⟨hs, congrArg Field.stream hn, hk.symm⟩
    · rw [if_neg hn] at hk
      exact .inl ⟨m, hs ▸ hm, hk⟩

theorem effect_newStream (hw : Separate w) (hm : w.instances[r]? = some m) (name : PyStr) :
    Effect w ((w.alloc Dict.empty).putStreams m.streamClasses ((w.streams m.streamClasses).set name w.next))
      r fun x => { x with streamClasses := x.streamClasses.set name Dict.empty } where
  separate := by
    have ha := separate_alloc hw (Dict.empty : Classes α)
    refine ⟨fun h h' => ?_, fun h => ?_, fun h => ?_, ha.handed⟩
    · rcases has_newStream hw hm h with h | ⟨rfl, rfl, rfl⟩
      · rcases has_newStream hw hm h' with h' | ⟨rfl, rfl, rfl⟩
        · exact hw.once h h'
        · exact absurd h (not_has_next hw _ _)
      · rcases has_newStream hw hm h' with h' | ⟨rfl, rfl, -⟩
        · exact absurd h' (not_has_next hw _ _)
        · exact ⟨rfl, rfl⟩
    · rcases has_newStream hw hm h with h | ⟨-, -, rfl⟩
      · exact ha.allocated h
      · exact Nat.lt_succ_self _
    · rcases has_newStream hw hm h with h | ⟨-, -, rfl⟩
      · exact hw.unheld h
      · exact fun hmem => Nat.lt_irrefl _ (hw.handed _ hmem)
  default := rfl
  length := rfl
  view s := by
    rw [view_putStreams (separate_alloc hw Dict.empty) hm, view_alloc hw]
    split
    · next hs =>
      have hr : resolve (w.alloc Dict.empty).classes ((w.streams m.streamClasses).set name w.next) =
          (resolve w.classes (w.streams m.streamClasses)).set name Dict.empty := by
        refine Dict.ext_get ?_ fun k => ?_
        · rw [keys_resolve, Dict.keys_set, Dict.keys_set, keys_resolve]
        · rw [get_resolve, Dict.get_set, Dict.get_set, get_resolve]
          split
          · simp [Memory.alloc, Memory.put]
          · cases hk : (w.streams m.streamClasses).get k with
            | none => rfl
            | some b =>
              have hb : b ≠ w.next := fun he => not_has_next hw r (.stream k) ⟨m, hm, he ▸ hk⟩
              simp [Memory.alloc, Memory.put, hb]
      simp [Memory.view, hs, hm, Memory.contents, hr]
    · rfl

theorem effect_registerStream (hw : Separate w) (hm : w.instances[r]? = some m) (name type : PyStr)
    (c : Option α) :
    Effect w (w.perform m (.registerStream name type c)).2 r fun x => x.registerStream name type c := by
  simp only [Memory.perform, Memory.setdefault]
  cases hn : (w.streams m.streamClasses).get name with
  | some inner =>
    have h := effect_assign hw hm (f := .stream name) hn ((w.classes inner).set type c)
    refine ⟨h.separate, h.default, h.length, fun s => ?_⟩
    rw [h.view]
    split
    · next hs =>
      simp [Memory.view, hs, hm, ExchangeRegistry.registerStream, ExchangeRegistry.getStreamClasses,
        Memory.contents, assign, hn]
    · rfl
  | none =>
    have h₁ := effect_newStream hw hm name
    have hnext : (((w.alloc Dict.empty).putStreams m.streamClasses
        ((w.streams m.streamClasses).set name w.next)).streams m.streamClasses).get name = some w.next := by
      simp [Memory.putStreams]
    have h₂ := effect_assign h₁.separate hm (f := .stream name) hnext (Dict.set Dict.empty type c)
    have h := h₁.trans h₂
    have hnew : Function.update w.classes w.next Dict.empty w.next = (Dict.empty : Classes α) :=
      Function.update_self ..
    dsimp only
    rw [hnew]
    refine ⟨h.separate, h.default, h.length, fun s => (h.view s).trans ?_⟩
    split
    · next hs =>
      have hset : ∀ x : Dict PyStr (Classes α), x.get name = none →
          (x.set name Dict.empty).set name (Dict.set Dict.empty type c) =
            x.set name (((x.get name).getD Dict.empty).set type c) := by
        intro x hx
        refine Dict.ext_get ?_ fun k => ?_
        · rw [Dict.keys_set_of_get _ (by simp), Dict.keys_set, Dict.keys_set]
        · simp only [Dict.get_set, hx, Option.getD_none]
          split <;> rfl
      simp [Memory.view, hs, hm, ExchangeRegistry.registerStream, ExchangeRegistry.getStreamClasses,
        Memory.contents, assign, hset, hn]
    · rfl

/-! ## One call -/

theorem getStreamClasses_contents (w : Memory α) (m : Instance) (name : PyStr) :
    (w.contents m).getStreamClasses name = w.streamsOf m name := by
  simp only [ExchangeRegistry.getStreamClasses, Memory.contents, get_resolve, Memory.streamsOf]
  cases (w.streams m.streamClasses).get name <;> rfl

/-- The answer depends on what the instance itself holds. -/
theorem perform_answer (w : Memory α) (m : Instance) (c : Call α) :
    (w.perform m c).1 = answer (w.contents m) c := by
  cases c with
  | getStreamClasses name => exact congrArg Answer.classes (getStreamClasses_contents w m name).symm
  | getStreamClass name type =>
    simp only [Memory.perform, answer, getStreamClasses_contents]
  | registerStream name type c => rfl
  | _ => rfl

/-- A call changes the instance that it is made on as if that stood alone, and no other one. -/
theorem perform_effect (hw : Separate w) (hm : w.instances[r]? = some m) (c : Call α) :
    Effect w (w.perform m c).2 r fun x => after x c := by
  have hview : ∀ {g : ExchangeRegistry α → ExchangeRegistry α} {w' : Memory α}, Effect w w' r g →
      g (w.contents m) = after (w.contents m) c → Effect w w' r fun x => after x c := by
    intro g w' h hg
    refine ⟨h.separate, h.default, h.length, fun s => (h.view s).trans ?_⟩
    split
    · next hs => simp [Memory.view, hs, hm, hg]
    · rfl
  cases c with
  | registerFeed name c => exact hview (effect_assign hw hm (f := .feedClasses) rfl _) rfl
  | registerStream name type c => exact effect_registerStream hw hm name type c
  | registerExchangeData name c => exact hview (effect_assign hw hm (f := .exchangeDataClasses) rfl _) rfl
  | registerBalanceHandler name c => exact hview (effect_assign hw hm (f := .balanceHandlers) rfl _) rfl
  | unregisterFeed name => exact hview (effect_assign hw hm (f := .feedClasses) rfl _) rfl
  | clear => exact effect_cleared hw hm
  | getFeedClasses => exact effect_copy hw r _
  | getExchangeDataClasses => exact effect_copy hw r _
  | getStreamClasses name => exact effect_copy hw r _
  | _ => exact effect_id hw r

/-! ## Whole runs -/

/-- The dictionaries are apart, and the default instance exists. -/
structure Sound (w : Memory α) : Prop where
  separate : Separate w
  default : ∀ {d}, w.default = some d → d < w.instances.length

theorem sound_start : Sound (start : Memory α) where
  separate := by
    have hnone : ∀ {s f a}, ¬ (start : Memory α).Has s f a := by
      rintro s f a ⟨m, hm, -⟩
      cases hm
    exact ⟨fun h => absurd h hnone, fun h => absurd h hnone, fun h => absurd h hnone, by simp [start]⟩
  default h := by cases h

/-- What instance `r` holds; one that does not exist yet will be empty. -/
def Memory.registry (w : Memory α) (r : Nat) : ExchangeRegistry α :=
  (w.view r).getD ExchangeRegistry.createIsolated

theorem Effect.registry {w' : Memory α} {g : ExchangeRegistry α → ExchangeRegistry α} (h : Effect w w' r g)
    (hm : w.instances[r]? = some m) (s : Nat) :
    w'.registry s = if s = r then g (w.registry s) else w.registry s := by
  simp only [Memory.registry, h.view]
  split
  · next hs => simp [Memory.view, hs, hm]
  · rfl

/-- The addresses that the fields of a new instance get. -/
def Memory.newCell (w : Memory α) : Field → Option Nat
  | .feedClasses => some w.next
  | .streamClasses => some (w.next + 1)
  | .exchangeDataClasses => some (w.next + 2)
  | .balanceHandlers => some (w.next + 3)
  | .stream _ => none

theorem newCell_bounds {f : Field} {a : Nat} (h : w.newCell f = some a) : w.next ≤ a ∧ a < w.next + 4 := by
  cases f <;> simp only [Memory.newCell, Option.some.injEq, reduceCtorEq] at h <;> omega

theorem newCell_injective {f g : Field} {a : Nat} (hf : w.newCell f = some a) (hg : w.newCell g = some a) :
    f = g := by
  cases f <;> cases g <;> simp only [Memory.newCell, Option.some.injEq, reduceCtorEq] at hf hg <;>
    first | rfl | omega

/-- A place after the creation of an instance. -/
theorem has_newInstance (hw : Separate w) {s : Nat} {f : Field} {a : Nat} (h : w.newInstance.Has s f a) :
    w.Has s f a ∨ s = w.instances.length ∧ w.newCell f = some a := by
  obtain ⟨m, hm, hc⟩ := h
  by_cases hs : s < w.instances.length
  · have hold : w.instances[s]? = some m := by
      simpa [Memory.newInstance, Memory.put, List.getElem?_append_left hs] using hm
    refine .inl ⟨m, hold, ?_⟩
    cases f with
    | stream name =>
      have hne : m.streamClasses ≠ w.next + 1 := fun he =>
        Nat.not_succ_lt_self (hw.allocated (f := .streamClasses) ⟨m, hold, congrArg some he⟩)
      simpa [Memory.cell, Memory.newInstance, Memory.put, hne] using hc
    | _ => exact hc
  · have hlast : s = w.instances.length ∧ m = ⟨w.next, w.next + 1, w.next + 2, w.next + 3⟩ := by
      obtain ⟨hlen, -⟩ := List.getElem?_eq_some_iff.mp hm
      have hlen' : s < w.instances.length + 1 := by simpa [Memory.newInstance] using hlen
      obtain rfl : s = w.instances.length := by omega
      exact ⟨rfl, by simpa [Memory.newInstance, Memory.put] using hm.symm⟩
    obtain ⟨rfl, rfl⟩ := hlast
    refine .inr ⟨rfl, ?_⟩
    cases f with
    | stream name =>
      simp [Memory.cell, Memory.newInstance] at hc
    | _ => exact hc

theorem separate_newInstance (hw : Separate w) : Separate w.newInstance where
  once {s t f g a} h h' := by
    rcases has_newInstance hw h with hold | ⟨hs, hnew⟩
    · rcases has_newInstance hw h' with hold' | ⟨-, hnew'⟩
      · exact hw.once hold hold'
      · exact absurd (hw.allocated hold) (Nat.not_lt.mpr (newCell_bounds hnew').1)
    · rcases has_newInstance hw h' with hold' | ⟨ht, hnew'⟩
      · exact absurd (hw.allocated hold') (Nat.not_lt.mpr (newCell_bounds hnew).1)
      · exact ⟨hs.trans ht.symm, newCell_injective hnew hnew'⟩
  allocated h := by
    rcases has_newInstance hw h with hold | ⟨-, hnew⟩
    · exact Nat.lt_add_right 4 (hw.allocated hold)
    · exact (newCell_bounds hnew).2
  unheld h hmem := by
    rcases has_newInstance hw h with hold | ⟨-, hnew⟩
    · exact hw.unheld hold hmem
    · exact absurd (hw.handed _ hmem) (Nat.not_lt.mpr (newCell_bounds hnew).1)
  handed a hmem := Nat.lt_add_right 4 (hw.handed a hmem)

/-- The instances that are there keep what they hold, and the new one holds nothing. -/
theorem registry_newInstance (hw : Separate w) (r : Nat) : w.newInstance.registry r = w.registry r := by
  have hview : w.newInstance.view r =
      if r = w.instances.length then some ExchangeRegistry.createIsolated else w.view r := by
    rcases Nat.lt_trichotomy r w.instances.length with hr | rfl | hr
    · have hm : w.instances[r]? = some w.instances[r] := List.getElem?_eq_getElem hr
      have hold : w.newInstance.instances[r]? = some w.instances[r] := by
        rw [← hm]
        exact List.getElem?_append_left hr
      generalize w.instances[r] = m at hm hold
      have hcell : ∀ {f a}, w.cell m f = some a → a < w.next := fun ha => hw.allocated ⟨m, hm, ha⟩
      have hclasses : ∀ {f a}, w.cell m f = some a → w.newInstance.classes a = w.classes a := by
        intro f a ha
        have hlt := hcell ha
        have h₀ : a ≠ w.next := by omega
        have h₂ : a ≠ w.next + 2 := by omega
        have h₃ : a ≠ w.next + 3 := by omega
        simp [Memory.newInstance, Memory.put, h₀, h₂, h₃]
      have hstreams : w.newInstance.streams m.streamClasses = w.streams m.streamClasses := by
        have hlt := hcell (f := .streamClasses) rfl
        have h₁ : m.streamClasses ≠ w.next + 1 := by omega
        simp [Memory.newInstance, h₁]
      have hcontents : w.newInstance.contents m = w.contents m := by
        have hs := resolve_congr (d := w.streams m.streamClasses)
          fun k a hk => hclasses (f := .stream k) hk
        simp only [Memory.contents, hstreams, hs, hclasses (f := .feedClasses) rfl,
          hclasses (f := .exchangeDataClasses) rfl, hclasses (f := .balanceHandlers) rfl]
      rw [if_neg hr.ne, Memory.view, Memory.view, hm, hold, Option.map_some, Option.map_some, hcontents]
    · have hnew : w.newInstance.instances[w.instances.length]? =
          some ⟨w.next, w.next + 1, w.next + 2, w.next + 3⟩ := by simp [Memory.newInstance]
      rw [if_pos rfl, Memory.view, hnew, Option.map_some]
      simp [Memory.contents, Memory.newInstance, Memory.put, ExchangeRegistry.createIsolated, resolve, Dict.empty]
    · have h₁ : w.newInstance.instances[r]? = none := by
        simp [Memory.newInstance]
        omega
      have h₂ : w.instances[r]? = none := by
        simp
        omega
      rw [if_neg hr.ne', Memory.view, Memory.view, h₁, h₂]
      rfl
  simp only [Memory.registry, hview]
  split
  · next hr =>
    have hnone : w.instances[r]? = none := by simp [hr]
    simp [Memory.view, hnone]
  · rfl

theorem sound_newInstance (hw : Sound w) : Sound w.newInstance where
  separate := separate_newInstance hw.separate
  default {d} h := by
    have hd := hw.default h
    simp only [Memory.newInstance, List.length_append, List.length_singleton]
    omega

theorem sound_getDefault (hw : Sound w) : Sound w.getDefault.2 := by
  unfold Memory.getDefault
  split
  · exact hw
  · have hn := sound_newInstance hw
    have hs : Separate w.newInstance := hn.separate
    refine ⟨⟨hs.once, hs.allocated, hs.unheld, hs.handed⟩, ?_⟩
    rintro d ⟨⟩
    simp [Memory.newInstance]

theorem default_getDefault (w : Memory α) : w.getDefault.2.default = some w.getDefault.1 := by
  unfold Memory.getDefault
  split
  · next d hd => exact hd
  · rfl

theorem getDefault_of_default {d : Nat} (h : w.default = some d) : w.getDefault = (d, w) := by
  simp [Memory.getDefault, h]

theorem registry_getDefault (hw : Sound w) (r : Nat) : w.getDefault.2.registry r = w.registry r := by
  unfold Memory.getDefault
  split
  · rfl
  · exact registry_newInstance hw.separate r

/-- Whatever a method is looked up on, no registry changes by that. -/
theorem sound_dispatch (hw : Sound w) (receiver : Receiver) : Sound (dispatch w receiver).2 := by
  cases receiver with
  | cls => exact sound_getDefault hw
  | obj s => exact hw

theorem registry_dispatch (hw : Sound w) (receiver : Receiver) (r : Nat) :
    (dispatch w receiver).2.registry r = w.registry r := by
  cases receiver with
  | cls => exact registry_getDefault hw r
  | obj s => rfl

theorem sound_effect {w' : Memory α} {g : ExchangeRegistry α → ExchangeRegistry α} (hw : Sound w)
    (h : Effect w w' r g) : Sound w' where
  separate := h.separate
  default hd := by
    rw [h.length]
    exact hw.default (h.default ▸ hd)

/-- Changing a dictionary that was handed out changes no registry. -/
theorem change_spec (hw : Sound w) (a : Nat) (d : Classes α) :
    Sound (step w (.change a d)) ∧ ∀ r, (step w (.change a d)).view r = w.view r := by
  dsimp only [step]
  split
  · next ha =>
    refine ⟨⟨⟨hw.separate.once, hw.separate.allocated, hw.separate.unheld, hw.separate.handed⟩, hw.default⟩, ?_⟩
    intro r
    cases hm : w.instances[r]? with
    | none => simp [Memory.view, Memory.put, hm]
    | some m =>
      have hc : (w.put a d).contents m = w.contents m :=
        contents_put_other (fun f h => hw.separate.unheld ⟨m, hm, h⟩ ha) d
      have hm' : (w.put a d).instances[r]? = some m := hm
      simp [Memory.view, hm, hm', hc]
  · exact ⟨hw, fun r => rfl⟩

/-- A step gives the answers of the registry that it is addressed to, which
alone changes, as if it stood alone. -/
theorem step_spec (hw : Sound w) (a : Action α) (r : Nat) :
    Sound (step w a) ∧ answerOf r w a = answers (w.registry r) (callTo r w a) ∧
      (step w a).registry r = (callTo r w a).foldl after (w.registry r) := by
  cases a with
  | construct => exact ⟨sound_getDefault hw, rfl, registry_getDefault hw r⟩
  | createIsolated => exact ⟨sound_newInstance hw, rfl, registry_newInstance hw.separate r⟩
  | change a d =>
    have hc := change_spec hw a d
    exact ⟨hc.1, rfl, by simp [callTo, Memory.registry, hc.2]⟩
  | call receiver c =>
    have hs := sound_dispatch hw receiver
    have hr := registry_dispatch hw receiver r
    dsimp only [step, answerOf, callTo]
    generalize dispatch w receiver = target at hs hr ⊢
    obtain ⟨s, w₁⟩ := target
    dsimp only at hs hr ⊢
    cases hm : w₁.instances[s]? with
    | none =>
      have hlen : ¬ s < w₁.instances.length := by simpa using hm
      simp [hs, hlen, hr, answers]
    | some m =>
      have hlen : s < w₁.instances.length := (List.getElem?_eq_some_iff.mp hm).1
      have he := perform_effect hs.separate hm c
      refine ⟨sound_effect hs he, ?_, ?_⟩
      · by_cases hsr : s = r
        · subst hsr
          have hc : w.registry s = w₁.contents m := by
            rw [← hr, Memory.registry, Memory.view, hm]
            rfl
          simp [hlen, answers, perform_answer, hc]
        · simp [hsr, answers]
      · rw [he.registry hm, hr]
        by_cases hsr : r = s
        · subst hsr
          simp [hlen]
        · simp [hsr, Ne.symm hsr]

theorem answers_append (x : ExchangeRegistry α) (cs ds : List (Call α)) :
    answers x (cs ++ ds) = answers x cs ++ answers (cs.foldl after x) ds := by
  induction cs generalizing x with
  | nil => rfl
  | cons c cs ih => simp [answers, ih]

theorem sound_run (hw : Sound w) (as : List (Action α)) : Sound (Runs.run step w as) :=
  Runs.run_induction (P := Sound) (fun _ a h => (step_spec h a 0).1) hw as

theorem log_answers (hw : Sound w) (r : Nat) (as : List (Action α)) :
    Runs.log step (answerOf r) w as = answers (w.registry r) (Runs.log step (callTo r) w as) := by
  induction as generalizing w with
  | nil => rfl
  | cons a as ih =>
    obtain ⟨hs, ha, hr⟩ := step_spec hw a r
    rw [Runs.log, Runs.log, answers_append, ← ha, ← hr, ih hs]

/-- What a registry answers in a run is what it answers to its own calls. -/
theorem answersOf_eq (r : Nat) (as : List (Action α)) :
    answersOf r as = answers ExchangeRegistry.createIsolated (callsTo r as) := by
  have hstart : (start : Memory α).registry r = ExchangeRegistry.createIsolated := rfl
  rw [answersOf, log_answers sound_start, hstart, callsTo]

/-- Once the receiver is there, a call makes no instance and keeps the default one. -/
theorem call_keeps (hw : Sound w) (receiver : Receiver) (c : Call α) :
    (step w (.call receiver c)).instances.length = (dispatch w receiver).2.instances.length ∧
      (step w (.call receiver c)).default = (dispatch w receiver).2.default := by
  have hs := sound_dispatch hw receiver
  dsimp only [step]
  generalize dispatch w receiver = target at hs ⊢
  obtain ⟨s, w₁⟩ := target
  cases hm : w₁.instances[s]? with
  | none => exact ⟨rfl, rfl⟩
  | some m =>
    have he := perform_effect hs.separate hm c
    exact ⟨he.length, he.default⟩

/-- Calls on the instance that is alone in memory all reach it. -/
theorem callsTo_obj (hw : Sound w) (h : 0 < w.instances.length) (calls : List (Call α)) :
    Runs.log step (callTo 0) w (calls.map (.call (.obj 0))) = calls := by
  induction calls generalizing w with
  | nil => rfl
  | cons c calls ih =>
    have hstep : callTo 0 w (.call (.obj 0) c) = [c] := by simp [callTo, dispatch, h]
    have hlen := (call_keeps hw (.obj 0) c).1
    have hrest := ih (step_spec hw (.call (.obj 0) c) 0).1 (hlen ▸ h)
    rw [List.map_cons, Runs.log, hstep, hrest]
    rfl

/-- So do calls through the class where the default instance is the first one. -/
theorem callsTo_cls (hw : Sound w) (h : w.getDefault.1 = 0) (calls : List (Call α)) :
    Runs.log step (callTo 0) w (calls.map (.call .cls)) = calls := by
  induction calls generalizing w with
  | nil => rfl
  | cons c calls ih =>
    have hs := sound_getDefault hw
    have hd : w.getDefault.2.default = some 0 := h ▸ default_getDefault w
    have hstep : callTo 0 w (.call .cls c) = [c] := by simp [callTo, dispatch, h, hs.default hd]
    have hd' : (step w (.call .cls c)).default = some 0 := (call_keeps hw .cls c).2.trans hd
    have hrest := ih (step_spec hw (.call .cls c) 0).1 (by rw [Memory.getDefault, hd'])
    rw [List.map_cons, Runs.log, hstep, hrest]
    rfl

/-- Once it exists, the default instance stays the same. -/
theorem default_step (hw : Sound w) {d : Nat} (h : w.default = some d) (a : Action α) :
    (step w a).default = some d := by
  have hget := getDefault_of_default h
  cases a with
  | construct => simpa [step, hget] using h
  | createIsolated => exact h
  | call receiver c =>
    rw [(call_keeps hw _ _).2]
    cases receiver with
    | cls => simpa [dispatch, hget] using h
    | obj s => exact h
  | change a d' =>
    dsimp only [step]
    split <;> exact h

theorem default_run {d : Nat} (hw : Sound w) (h : w.default = some d) (as : List (Action α)) :
    (Runs.run step w as).default = some d := by
  have hrun : Sound (Runs.run step w as) ∧ (Runs.run step w as).default = some d :=
    Runs.run_induction (P := fun w => Sound w ∧ w.default = some d)
      (fun w a h => ⟨(step_spec h.1 a 0).1, default_step h.1 h.2 a⟩) ⟨hw, h⟩ as
  exact hrun.2

/-- In every run each registry gives the answers that it gives alone, to its own
calls, made on an isolated instance or through the class. `ExchangeRegistry()`
leads to one instance from then on, on which calls through the class act. No
change to a dictionary that was handed out is a change to a registry. -/
theorem registries_isolated (as : List (Action α)) :
    (∀ r, answersOf r as = answersOf 0 (.createIsolated :: (callsTo r as).map (.call (.obj 0))) ∧
      answersOf r as = answersOf 0 ((callsTo r as).map (.call .cls))) ∧
    (∃ d, ∀ bs, let w := Runs.run step start (as ++ .construct :: bs)
      w.getDefault = (d, w) ∧ ∀ c, step w (.call .cls c) = step w (.call (.obj d) c) ∧
        ∀ r, answerOf r w (.call .cls c) = answerOf r w (.call (.obj d) c)) ∧
    (∀ a d r, (Runs.run step start (as ++ [.change a d])).view r = (Runs.run step start as).view r) := by
  have hs := sound_run (sound_start : Sound (start : Memory α)) as
  refine ⟨fun r => ⟨?_, ?_⟩, ?_, ?_⟩
  · have hcalls : callsTo 0 (.createIsolated :: (callsTo r as).map (.call (.obj 0))) = callsTo r as :=
      callsTo_obj (sound_newInstance sound_start) (Nat.zero_lt_succ 0) _
    rw [answersOf_eq, answersOf_eq, hcalls]
  · have hcalls : callsTo 0 ((callsTo r as).map (.call .cls)) = callsTo r as := callsTo_cls sound_start rfl _
    rw [answersOf_eq, answersOf_eq, hcalls]
  · refine ⟨(Runs.run step start as).getDefault.1, fun bs => ?_⟩
    have hrun := default_run (sound_getDefault hs) (default_getDefault _) bs
    have hget : (Runs.run step start (as ++ .construct :: bs)).getDefault =
        ((Runs.run step start as).getDefault.1, Runs.run step start (as ++ .construct :: bs)) := by
      rw [Runs.run_append, Runs.run_cons]
      show Memory.getDefault (Runs.run step (Runs.run step start as).getDefault.2 bs) = _
      rw [getDefault_of_default hrun]
      rfl
    refine ⟨hget, fun c => ⟨?_, fun r => ?_⟩⟩
    · simp only [step, dispatch, hget]
    · simp only [answerOf, dispatch, hget]
      rfl
  · intro a d r
    rw [Runs.run_concat]
    exact (change_spec hs a d).2 r

end RegistryObjects
