import BtApiBase.PyValue
import BtApiBase.PyIndexes
import BtApiBase.Runs

/-!
# Instruments and their manager

An instrument is known by its internal name, and at its venue by a venue symbol.
`InstrumentFactory` derives the internal name from the venue symbol alone. The
manager keeps the instruments by internal name, with one index by venue and one
by underlying; a registration under a name that is taken first removes the
previous instrument from both. `β` stands for the fields that nothing here reads.
-/

namespace Instruments

open PyText PyDict PyValue PyIndexes Runs

variable {β : Type}

inductive AssetType where
  | spot | swap | future | option | stk | fund | bond | fx | index
  deriving DecidableEq, Repr

structure Instrument (β : Type) where
  internal : PyStr
  venue : PyStr
  venueSymbol : PyStr
  assetType : AssetType
  underlying : Option PyStr
  others : β
  deriving DecidableEq, Repr

/-- The underlying, unless it is `None` or empty. -/
def Instrument.underlyingName (i : Instrument β) : Option PyStr := i.underlying.filter (· ≠ [])

/-! ## The factory -/

def separators : List PyChar := ['-', '/', '_', '.'].map .scalar

def knownQuotes : List PyStr :=
  ["USDT", "USDC", "BUSD", "TUSD", "FDUSD", "USD", "BTC", "ETH", "BNB", "EUR", "GBP", "AUD", "TRY",
    "BRL"].map u

/-- `_make_internal`; the venue and the asset type are not looked at. -/
def makeInternal (py : Interp) (_venue venueSymbol : PyStr) (_assetType : AssetType) : PyStr :=
  match separators.find? (· ∈ venueSymbol) with
  | some sep => (u "-").intercalate (venueSymbol.splitOn sep)
  | none =>
    let upper := py.upper venueSymbol
    match knownQuotes.find? fun quote => quote.isSuffixOf upper && quote.length < upper.length with
    | some quote => upper.take (upper.length - quote.length) ++ u "-" ++ quote
    | none => venueSymbol

def fromVenue (py : Interp) (venue venueSymbol : PyStr) (assetType : AssetType)
    (underlying : Option PyStr) (others : β) : Instrument β :=
  ⟨makeInternal py venue venueSymbol assetType, venue, venueSymbol, assetType, underlying, others⟩

/-! ## The manager -/

structure InstrumentManager (β : Type) where
  instruments : Dict PyStr (Instrument β)
  byVenue : Dict PyStr (Dict PyStr (Instrument β))
  byUnderlying : Dict PyStr (List (Instrument β))

namespace InstrumentManager

def new : InstrumentManager β := ⟨Dict.empty, Dict.empty, Dict.empty⟩

variable (m : InstrumentManager β)

/-- The index entries of an instrument whose name is registered again. -/
def unindex (previous : Instrument β) : InstrumentManager β :=
  { m with
    byVenue := discard m.byVenue previous.venue previous.venueSymbol
    byUnderlying := match previous.underlyingName with
      | some name => restrict m.byUnderlying name fun i => i.internal ≠ previous.internal
      | none => m.byUnderlying }

def index (instrument : Instrument β) : InstrumentManager β where
  instruments := m.instruments.set instrument.internal instrument
  byVenue := enter m.byVenue instrument.venue instrument.venueSymbol instrument
  byUnderlying := match instrument.underlyingName with
    | some name => append m.byUnderlying name instrument
    | none => m.byUnderlying

def register (instrument : Instrument β) : InstrumentManager β :=
  match m.instruments.get instrument.internal with
  | some previous => (m.unindex previous).index instrument
  | none => m.index instrument

def registerMany (instruments : List (Instrument β)) : InstrumentManager β :=
  instruments.foldl register m

def get (internal : PyStr) : Option (Instrument β) := m.instruments.get internal

def getByVenue (venue venueSymbol : PyStr) : Option (Instrument β) := entry m.byVenue venue venueSymbol

def toInternal (venue venueSymbol : PyStr) : Option PyStr :=
  (m.getByVenue venue venueSymbol).map Instrument.internal

def toVenueSymbol (internal : PyStr) : Option PyStr := (m.get internal).map Instrument.venueSymbol

def allInternals : List PyStr := m.instruments.keys

def allVenues : List PyStr := m.byVenue.keys

def count : Nat := m.instruments.length

def clear (_m : InstrumentManager β) : InstrumentManager β := ⟨Dict.empty, Dict.empty, Dict.empty⟩

end InstrumentManager

inductive Op (β : Type) where
  | register (instrument : Instrument β)
  | registerMany (instruments : List (Instrument β))
  | clear

def InstrumentManager.step (m : InstrumentManager β) : Op β → InstrumentManager β
  | .register instrument => m.register instrument
  | .registerMany instruments => m.registerMany instruments
  | .clear => m.clear

/-! ## What a registration changes -/

namespace InstrumentManager

variable (m : InstrumentManager β) (instrument : Instrument β)

theorem get_register (internal : PyStr) :
    (m.register instrument).get internal =
      if internal = instrument.internal then some instrument else m.get internal := by
  unfold register get
  cases m.instruments.get instrument.internal <;> exact Dict.get_set _ _ _ _

theorem getByVenue_register (venue venueSymbol : PyStr) :
    (m.register instrument).getByVenue venue venueSymbol =
      if venue = instrument.venue ∧ venueSymbol = instrument.venueSymbol then some instrument
      else if ∃ previous, m.get instrument.internal = some previous ∧
          venue = previous.venue ∧ venueSymbol = previous.venueSymbol then none
      else m.getByVenue venue venueSymbol := by
  unfold register get getByVenue
  cases m.instruments.get instrument.internal with
  | none => simp [index, entry_enter]
  | some previous => simp [index, unindex, entry_enter, entry_discard]

theorem pruned_register (h : Pruned m.byVenue) : Pruned (m.register instrument).byVenue := by
  unfold register
  cases m.instruments.get instrument.internal with
  | none => exact pruned_enter h _ _ _
  | some previous => exact pruned_enter (pruned_discard h _ _) _ _ _

theorem group_index (name : PyStr) :
    group (m.index instrument).byUnderlying name =
      group m.byUnderlying name ++ (if instrument.underlyingName = some name then [instrument] else []) := by
  unfold index
  cases instrument.underlyingName with
  | none => simp
  | some n =>
    by_cases h : name = n
    · simp [group_append, h]
    · simp [group_append, h, Ne.symm h]

theorem group_unindex (previous : Instrument β) (name : PyStr) :
    group (m.unindex previous).byUnderlying name =
      if previous.underlyingName = some name then
        (group m.byUnderlying name).filter fun i => i.internal ≠ previous.internal
      else group m.byUnderlying name := by
  unfold unindex
  cases previous.underlyingName with
  | none => simp
  | some n =>
    by_cases h : name = n
    · simp [group_restrict, h]
    · simp [group_restrict, h, Ne.symm h]

end InstrumentManager

/-! ## Runs from any state -/

/-- A property that every registration keeps holds in every state that a new manager
reaches. -/
theorem run_step_induction {P : InstrumentManager β → Prop} (hnew : P .new)
    (hregister : ∀ m i, P m → P (m.register i)) (ops : List (Op β)) :
    P (run InstrumentManager.step .new ops) := by
  refine run_induction (P := P) (fun m op h => ?_) hnew ops
  cases op with
  | register i => exact hregister m i h
  | registerMany is =>
    show P (run InstrumentManager.register m is)
    exact run_induction (P := P) hregister h is
  | clear => exact hnew

end Instruments
