import Mathlib.Algebra.BigOperators.Fin
import BtApiBase.PyValue
import BtApiBase.Runs

/-!
# The tick recorder

Ticks are appended to a buffer for their symbol. A flush pops the buffer under
the lock, and then, without it, reads the file of the symbol and the trading day
and writes it back with the popped rows behind. A thread is at one of the places
between these steps. `day` is what `_trading_day` makes of a timestamp, and
`written` records what was written, for the statements only.
-/

namespace TickWriters

open PyText PyDict PyValue

/-- The columns of `TICK_SCHEMA`. -/
structure Row where
  timestamp : PyFloat
  symbol : PyStr
  exchange : PyStr
  assetType : PyStr
  price : PyFloat
  volume : PyFloat
  bidPrice : PyFloat
  askPrice : PyFloat
  bidVolume : PyFloat
  askVolume : PyFloat
  deriving DecidableEq

/-- The attributes that a tick has. -/
structure Tick where
  timestamp : Option PyFloat := none
  symbol : Option PyStr := none
  exchange : Option PyStr := none
  assetType : Option PyStr := none
  price : Option PyFloat := none
  volume : Option PyFloat := none
  bidPrice : Option PyFloat := none
  askPrice : Option PyFloat := none
  bidVolume : Option PyFloat := none
  askVolume : Option PyFloat := none

structure Settings where
  exchange : PyStr
  assetType : PyStr
  flushCount : Int
  day : PyFloat → PyStr

def Settings.row (w : Settings) (tick : Tick) : Row where
  timestamp := tick.timestamp.getD (.finite 0)
  symbol := tick.symbol.getD []
  exchange := tick.exchange.getD w.exchange
  assetType := tick.assetType.getD w.assetType
  price := tick.price.getD (.finite 0)
  volume := tick.volume.getD (.finite 0)
  bidPrice := tick.bidPrice.getD (.finite 0)
  askPrice := tick.askPrice.getD (.finite 0)
  bidVolume := tick.bidVolume.getD (.finite 0)
  askVolume := tick.askVolume.getD (.finite 0)

/-- The trading day and the symbol, below the directory of the writer. -/
structure Path where
  day : PyStr
  symbol : PyStr
  deriving DecidableEq

/-- Where a thread is: between two calls, with symbols left to flush, before it reads
the file with the rows that it popped, or before it writes them behind the rows that
it read. -/
inductive Place where
  | idle
  | flushing (symbols : List PyStr)
  | reading (path : Path) (rows : List Row) (rest : List PyStr)
  | writing (path : Path) (rows existing : List Row) (rest : List PyStr)
  deriving DecidableEq

structure TickWriter (ι : Type) where
  buffers : Dict PyStr (List Row)
  files : Path → Option (List Row)
  place : ι → Place
  written : List Row

/-- A thread calls `write` or `_flush_all`, or takes its next step; `fail` is a step
that raises before the file is touched. -/
inductive Event (ι : Type) where
  | write (t : ι) (tick : Tick)
  | flushAll (t : ι)
  | advance (t : ι)
  | fail (t : ι)

variable {ι : Type} [DecidableEq ι]

namespace TickWriter

def buffer (w : TickWriter ι) (symbol : PyStr) : List Row := (w.buffers.get symbol).getD []

def content (w : TickWriter ι) (path : Path) : List Row := (w.files path).getD []

def goTo (w : TickWriter ι) (t : ι) (p : Place) : TickWriter ι :=
  { w with place := Function.update w.place t p }

def write (settings : Settings) (w : TickWriter ι) (t : ι) (tick : Tick) : TickWriter ι :=
  let row := settings.row tick
  let rows := w.buffer row.symbol ++ [row]
  { w with
    buffers := w.buffers.set row.symbol rows
    written := w.written ++ [row]
    place := Function.update w.place t
      (if settings.flushCount ≤ rows.length then .flushing [row.symbol] else .idle) }

/-- The next step of `_flush_all` and `_flush_symbol`. -/
def advance (settings : Settings) (w : TickWriter ι) (t : ι) : TickWriter ι :=
  match w.place t with
  | .idle => w
  | .flushing [] => w.goTo t .idle
  | .flushing (symbol :: rest) =>
    let popped : TickWriter ι := { w with buffers := w.buffers.pop symbol }
    match w.buffer symbol with
    | [] => popped.goTo t (.flushing rest)
    | row :: rows => popped.goTo t (.reading ⟨settings.day row.timestamp, symbol⟩ (row :: rows) rest)
  | .reading path rows rest => w.goTo t (.writing path rows (w.content path) rest)
  | .writing path rows existing rest =>
    { w.goTo t (.flushing rest) with files := Function.update w.files path (some (existing ++ rows)) }

/-- The handler of `_flush_symbol` puts the rows back in front of the buffer. -/
def restore (w : TickWriter ι) (t : ι) (symbol : PyStr) (rows : List Row) (rest : List PyStr) :
    TickWriter ι :=
  { w.goTo t (.flushing rest) with buffers := w.buffers.set symbol (rows ++ w.buffer symbol) }

def fail (w : TickWriter ι) (t : ι) : TickWriter ι :=
  match w.place t with
  | .reading path rows rest => w.restore t path.symbol rows rest
  | .writing path rows _ rest => w.restore t path.symbol rows rest
  | _ => w

/-- A thread that is inside a call does not begin another one. -/
def step (settings : Settings) (w : TickWriter ι) : Event ι → TickWriter ι
  | .write t tick => if w.place t = .idle then w.write settings t tick else w
  | .flushAll t => if w.place t = .idle then w.goTo t (.flushing w.buffers.keys) else w
  | .advance t => w.advance settings t
  | .fail t => w.fail t

end TickWriter

/-! ## Where the rows of a symbol are -/

/-- The rows of a symbol that a thread holds. -/
def inFlight (symbol : PyStr) : Place → Multiset Row
  | .reading path rows _ | .writing path rows _ _ => if path.symbol = symbol then rows else 0
  | _ => 0

def writtenTo (symbol : PyStr) (rows : List Row) : List Row := rows.filter fun r => r.symbol = symbol

/-- The rows that a thread holds for the symbol are of the day of the path. -/
def Dated (settings : Settings) (path : Path) : Place → Prop
  | .reading p rows _ | .writing p rows _ _ =>
    p.symbol = path.symbol → p = path ∧ ∀ row ∈ rows, settings.day row.timestamp = path.day
  | _ => True

/-- The thread is about to read the file. -/
def Place.reads (path : Path) : Place → Bool
  | .reading p _ _ => p = path
  | _ => false

/-- The thread has read the file and not yet written it. -/
def Place.writes (path : Path) : Place → Bool
  | .writing p _ _ _ => p = path
  | _ => false

def Writing (path : Path) (p : Place) : Prop := ∃ rows existing rest, p = .writing path rows existing rest

theorem writes_iff {path : Path} {p : Place} : p.writes path = true ↔ Writing path p := by
  constructor
  · intro h
    cases p with
    | writing p rows existing rest =>
      obtain rfl : p = path := of_decide_eq_true h
      exact ⟨rows, existing, rest, rfl⟩
    | idle => cases h
    | flushing symbols => cases h
    | reading p rows rest => cases h
  · rintro ⟨rows, existing, rest, rfl⟩
    simp [Place.writes]

/-- At most one thread is about to write the file, and with what the file still
holds. -/
structure Guarded (w : TickWriter ι) (path : Path) : Prop where
  current : ∀ t rows existing rest, w.place t = .writing path rows existing rest →
    existing = w.content path
  single : ∀ t t', Writing path (w.place t) → Writing path (w.place t') → t = t'

/-- No row is lost or doubled: what the file held before and what was written since is
in the file, in the buffer and with the threads. -/
structure Balanced [Fintype ι] (settings : Settings) (path : Path) (before : List Row)
    (w : TickWriter ι) : Prop where
  total : (w.content path : Multiset Row) + w.buffer path.symbol +
    ∑ t, inFlight path.symbol (w.place t) = before + writtenTo path.symbol w.written
  guarded : Guarded w path
  buffered : ∀ row ∈ w.buffer path.symbol, settings.day row.timestamp = path.day
  dated : ∀ t, Dated settings path (w.place t)

theorem sum_update {β M : Type*} [Fintype ι] [AddCommMonoid M] (f : β → M) (g : ι → β) (t : ι) (p : β) :
    (∑ x, f (Function.update g t p x)) + f (g t) = (∑ x, f (g x)) + f p := by
  have hrest : ∑ x ∈ Finset.univ.erase t, f (Function.update g t p x) =
      ∑ x ∈ Finset.univ.erase t, f (g x) := by
    refine Finset.sum_congr rfl fun x hx => ?_
    rw [Function.update_of_ne (Finset.ne_of_mem_erase hx)]
  rw [← Finset.add_sum_erase _ _ (Finset.mem_univ t), Function.update_self, hrest,
    ← Finset.add_sum_erase _ (fun x => f (g x)) (Finset.mem_univ t)]
  ac_rfl

section

variable {settings : Settings} {path : Path} {before : List Row} {w w' : TickWriter ι} {t : ι}
  {p : Place}

/-- A thread that is not about to write leaves the file guarded. -/
theorem Guarded.update (h : Guarded w path) (hp : w'.place = Function.update w.place t p)
    (hc : w'.content path = w.content path) (hn : ¬ Writing path p) : Guarded w' path := by
  have hold : ∀ x, Writing path (w'.place x) → x ≠ t ∧ w'.place x = w.place x := by
    intro x hx
    rw [hp] at hx ⊢
    by_cases he : x = t
    · subst he
      rw [Function.update_self] at hx
      exact absurd hx hn
    · exact ⟨he, Function.update_of_ne he _ _⟩
  constructor
  · intro x rows existing rest hx
    rw [(hold x ⟨rows, existing, rest, hx⟩).2] at hx
    rw [hc]
    exact h.current x rows existing rest hx
  · intro x y hx hy
    have hx' := (hold x hx).2
    have hy' := (hold y hy).2
    rw [hx'] at hx
    rw [hy'] at hy
    exact h.single x y hx hy

variable [Fintype ι]

/-- One thread moves on, and the rows that leave one place arrive at another. -/
theorem Balanced.update (h : Balanced settings path before w)
    (hp : w'.place = Function.update w.place t p)
    (hmove : (w'.content path : Multiset Row) + w'.buffer path.symbol + inFlight path.symbol p +
        writtenTo path.symbol w.written =
      w.content path + w.buffer path.symbol + inFlight path.symbol (w.place t) +
        writtenTo path.symbol w'.written)
    (hg : Guarded w' path) (hb : ∀ row ∈ w'.buffer path.symbol, settings.day row.timestamp = path.day)
    (hd : Dated settings path p) : Balanced settings path before w' where
  total := by
    have hsum := sum_update (inFlight path.symbol) w.place t p
    have htotal := h.total
    rw [hp]
    generalize (∑ x, inFlight path.symbol (Function.update w.place t p x)) = sum' at *
    generalize (∑ x, inFlight path.symbol (w.place x)) = sum at *
    refine add_right_cancel (b := inFlight path.symbol (w.place t) +
      (writtenTo path.symbol w.written : Multiset Row)) ?_
    calc (w'.content path : Multiset Row) + w'.buffer path.symbol + sum' +
          (inFlight path.symbol (w.place t) + (writtenTo path.symbol w.written : Multiset Row))
        = ((w'.content path : Multiset Row) + w'.buffer path.symbol +
            (writtenTo path.symbol w.written : Multiset Row)) +
          (sum' + inFlight path.symbol (w.place t)) := by ac_rfl
      _ = ((w'.content path : Multiset Row) + w'.buffer path.symbol + inFlight path.symbol p +
            (writtenTo path.symbol w.written : Multiset Row)) + sum := by
          rw [hsum]
          ac_rfl
      _ = ((w.content path : Multiset Row) + w.buffer path.symbol + sum) +
          (inFlight path.symbol (w.place t) + (writtenTo path.symbol w'.written : Multiset Row)) := by
          rw [hmove]
          ac_rfl
      _ = (before : Multiset Row) + writtenTo path.symbol w'.written +
          (inFlight path.symbol (w.place t) + (writtenTo path.symbol w.written : Multiset Row)) := by
          rw [htotal]
          ac_rfl
  guarded := hg
  buffered := hb
  dated x := by
    rw [hp]
    by_cases he : x = t
    · subst he
      rw [Function.update_self]
      exact hd
    · rw [Function.update_of_ne he]
      exact h.dated x

end

end TickWriters
