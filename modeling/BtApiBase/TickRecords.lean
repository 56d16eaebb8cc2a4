import BtApiBase.TickFlushes
import BtApiBase.PyIndexes

/-!
# One thread records ticks

With one thread, a flush pops rows, files them behind what the file holds or puts them
back in front of the buffer, and nothing is written in between. So the rows of a symbol,
in the order they were written, are filed up to some place and buffered from there on.
-/

namespace TickRecords

open PyText PyDict PyIndexes PyValue TickWriters TickFlushes Runs

/-- The writer with its counters. -/
structure Recorder where
  writer : TickWriter Unit
  _totalWritten : Nat
  _totalFlushed : Nat
  _flushErrors : Nat

def Recorder.step (settings : Settings) (r : Recorder) (e : Event Unit) : Recorder where
  writer := r.writer.step settings e
  _totalWritten := match e, r.writer.place () with
    | .write _ _, .idle => r._totalWritten + 1
    | _, _ => r._totalWritten
  _totalFlushed := match e, r.writer.place () with
    | .advance _, .writing _ rows _ _ => r._totalFlushed + rows.length
    | _, _ => r._totalFlushed
  _flushErrors := match e, r.writer.place () with
    | .fail _, .reading _ _ _ => r._flushErrors + 1
    | .fail _, .writing _ _ _ _ => r._flushErrors + 1
    | _, _ => r._flushErrors

def Recorder.start (files : Path → Option (List Row)) : Recorder := ⟨TickFlushes.start files, 0, 0, 0⟩

def bufferedCount (w : TickWriter Unit) : Nat := (w.buffers.values.map List.length).sum

/-! ## Where the rows of a symbol are -/

/-- The rows of a symbol that the flush has popped. -/
def held (symbol : PyStr) : Place → List Row
  | .reading path rows _ | .writing path rows _ _ => if path.symbol = symbol then rows else []
  | _ => []

def heldCount : Place → Nat
  | .reading _ rows _ | .writing _ rows _ _ => rows.length
  | _ => 0

@[simp] theorem heldCount_idle : heldCount .idle = 0 := rfl

/-- The rows filed under a trading day. -/
def filedOn (day : PyStr) (filed : List (PyStr × Row)) : List Row :=
  (filed.filter fun f => f.1 = day).map Prod.snd

theorem filedOn_append (day : PyStr) (filed filed' : List (PyStr × Row)) :
    filedOn day (filed ++ filed') = filedOn day filed ++ filedOn day filed' := by
  simp [filedOn]

theorem filedOn_batch (day d : PyStr) (rows : List Row) :
    filedOn day (rows.map fun row => (d, row)) = if d = day then rows else [] := by
  by_cases h : d = day
  · subst h
    simp [filedOn, List.filter_map, Function.comp_def]
  · simp [filedOn, List.filter_map, Function.comp_def, h]

/-- The rows written, in order: the filed ones, each in the file of some day behind what
it held before, then those in the hands of the flush, then the buffered ones. -/
structure Kept (files : Path → Option (List Row)) (symbol : PyStr) (w : TickWriter Unit) : Prop where
  filed : ∃ filed : List (PyStr × Row),
    filed.map Prod.snd ++ (held symbol (w.place ()) ++ w.buffer symbol) = writtenTo symbol w.written ∧
    ∀ day, w.content ⟨day, symbol⟩ = (files ⟨day, symbol⟩).getD [] ++ filedOn day filed
  existing : ∀ path rows existing rest, w.place () = .writing path rows existing rest →
    existing = w.content path

variable {files : Path → Option (List Row)} {symbol : PyStr} {w w' : TickWriter Unit}

/-- A step that files nothing. -/
theorem Kept.move (h : Kept files symbol w) (hfiles : w'.files = w.files) (hwritten : w'.written = w.written)
    (hrows : held symbol (w'.place ()) ++ w'.buffer symbol = held symbol (w.place ()) ++ w.buffer symbol)
    (hexisting : ∀ path rows existing rest, w'.place () = .writing path rows existing rest →
      existing = w'.content path) : Kept files symbol w' where
  filed := by
    obtain ⟨filed, hw, hc⟩ := h.filed
    refine ⟨filed, by rw [hrows, hwritten, hw], fun day => ?_⟩
    rw [← hc day, TickWriter.content, hfiles]
    rfl
  existing := hexisting

theorem place_goTo (w : TickWriter Unit) (p : Place) : (w.goTo () p).place () = p := by
  simp [TickWriter.goTo]

theorem kept_write (h : Kept files symbol w) (settings : Settings) (tick : Tick) (hidle : w.place () = .idle) :
    Kept files symbol (w.write settings () tick) := by
  obtain ⟨filed, hw, hc⟩ := h.filed
  have hplace : (w.write settings () tick).place () =
      if settings.flushCount ≤ (w.buffer (settings.row tick).symbol ++ [settings.row tick]).length
      then .flushing [(settings.row tick).symbol] else .idle := by simp [TickWriter.write]
  have hheld : held symbol ((w.write settings () tick).place ()) = [] := by
    rw [hplace]
    split <;> rfl
  refine ⟨⟨filed, ?_, hc⟩, fun path rows existing rest hp => ?_⟩
  · rw [hidle] at hw
    simp only [held, List.nil_append] at hw
    rw [hheld, TickWriter.write, buffer_set]
    dsimp only
    rw [writtenTo, List.filter_append, ← writtenTo, ← hw]
    by_cases hs : (settings.row tick).symbol = symbol
    · simp [hs]
    · simp [hs, Ne.symm hs]
  · rw [hplace] at hp
    split at hp <;> cases hp

/-- The handler puts the rows back where they came from. -/
theorem kept_restore (h : Kept files symbol w) {path : Path} {rows : List Row} (rest : List PyStr)
    (hp : held symbol (w.place ()) = if path.symbol = symbol then rows else []) :
    Kept files symbol (w.restore () path.symbol rows rest) := by
  have hplace : (w.restore () path.symbol rows rest).place () = .flushing rest := place_goTo w _
  refine h.move rfl rfl ?_ fun _ _ _ _ hw => by rw [hplace] at hw; cases hw
  rw [hplace, hp, TickWriter.restore, TickWriter.goTo, buffer_set]
  by_cases hs : path.symbol = symbol
  · simp [hs, held]
  · simp [hs, Ne.symm hs, held]

theorem kept_fail (h : Kept files symbol w) : Kept files symbol (w.fail ()) := by
  unfold TickWriter.fail
  split
  · next hp => exact kept_restore h _ (by rw [hp]; rfl)
  · next hp => exact kept_restore h _ (by rw [hp]; rfl)
  · exact h

/-- The buffer of a symbol goes into the hands of the flush. -/
theorem kept_pop (h : Kept files symbol w) {s : PyStr} {p : Place}
    (hnone : held symbol (w.place ()) = []) (hp : held symbol p = if symbol = s then w.buffer symbol else [])
    (hw : ∀ path rows existing rest, p ≠ .writing path rows existing rest) :
    Kept files symbol (({ w with buffers := w.buffers.pop s } : TickWriter Unit).goTo () p) := by
  refine h.move rfl rfl ?_ fun path rows existing rest he => ?_
  · rw [place_goTo, hnone, hp, TickWriter.goTo]
    show _ ++ ({ w with buffers := w.buffers.pop s } : TickWriter Unit).buffer symbol = _
    rw [buffer_pop]
    split <;> simp
  · rw [place_goTo] at he
    exact absurd he (hw path rows existing rest)

/-- The rows are filed behind what the file held. -/
theorem kept_writeBack (h : Kept files symbol w) {path : Path} {rows existing : List Row} {rest : List PyStr}
    (hp : w.place () = .writing path rows existing rest) :
    Kept files symbol { w.goTo () (.flushing rest) with
      files := Function.update w.files path (some (existing ++ rows)) } := by
  obtain ⟨filed, hw, hc⟩ := h.filed
  have hheld : held symbol (w.place ()) = if path.symbol = symbol then rows else [] := by rw [hp]; rfl
  refine ⟨⟨filed ++ (held symbol (w.place ())).map fun row => (path.day, row), ?_, fun day => ?_⟩,
    fun _ _ _ _ he => by simp [TickWriter.goTo] at he⟩
  · have hnone : held symbol (({ w.goTo () (.flushing rest) with
        files := Function.update w.files path (some (existing ++ rows)) } : TickWriter Unit).place ()) = [] := by
      simp [TickWriter.goTo, held]
    rw [hnone, List.map_append, List.append_assoc]
    simp only [List.map_map, Function.comp_def, List.map_id', List.nil_append]
    exact hw
  · rw [filedOn_append, filedOn_batch, ← List.append_assoc, ← hc day, hheld]
    obtain rfl := h.existing path rows existing rest hp
    refine (content_write w path ⟨day, symbol⟩ _ _).trans ?_
    by_cases hpath : ⟨day, symbol⟩ = path
    · subst hpath
      simp
    · rw [if_neg hpath]
      have hno : (if path.day = day then (if path.symbol = symbol then rows else []) else []) = [] := by
        split
        · next hday =>
          rw [if_neg]
          rintro hsym
          exact hpath (by rw [← hday, ← hsym])
        · rfl
      rw [hno, List.append_nil]

theorem kept_advance (h : Kept files symbol w) (settings : Settings) :
    Kept files symbol (w.advance settings ()) := by
  unfold TickWriter.advance
  split
  · exact h
  · next hp =>
    refine h.move rfl rfl ?_ fun _ _ _ _ he => by simp [place_goTo] at he
    rw [place_goTo, hp]
    rfl
  · next s rest hp =>
    have hnone : held symbol (w.place ()) = [] := by rw [hp]; rfl
    dsimp only
    split
    · next hbuf =>
      refine kept_pop h hnone ?_ nofun
      by_cases hs : symbol = s
      · simp [held, hs, hbuf]
      · simp [held, hs]
    · next row rows hbuf =>
      refine kept_pop h hnone ?_ nofun
      by_cases hs : symbol = s
      · simp [held, hs, hbuf]
      · simp [held, hs, Ne.symm hs]
  · next path rows rest hp =>
    refine h.move rfl rfl ?_ fun path' rows' existing rest' he => ?_
    · rw [place_goTo, hp]
      rfl
    · rw [place_goTo] at he
      cases he
      rfl
  · next hp => exact kept_writeBack h hp

theorem kept_step (h : Kept files symbol w) (settings : Settings) (e : Event Unit) :
    Kept files symbol (w.step settings e) := by
  cases e with
  | write t tick =>
    dsimp only [TickWriter.step]
    split
    · next hidle => exact kept_write h settings tick hidle
    · exact h
  | flushAll t =>
    obtain rfl : t = () := rfl
    dsimp only [TickWriter.step]
    split
    · next hidle =>
      refine h.move rfl rfl ?_ fun _ _ _ _ he => by simp [place_goTo] at he
      rw [place_goTo, hidle]
      rfl
    · exact h
  | advance t => exact kept_advance h settings
  | fail t => exact kept_fail h

/-! ## The counters -/

theorem bufferedCount_set {s : PyStr} {rows : List Row} (hb : w'.buffers = w.buffers.set s rows) :
    bufferedCount w' + (w.buffer s).length = bufferedCount w + rows.length := by
  have h := sum_values_set w.buffers s rows List.length
  unfold bufferedCount TickWriter.buffer
  rw [hb]
  cases hg : w.buffers.get s with
  | none => simpa [hg] using h
  | some old => simpa [hg] using h

theorem bufferedCount_pop {s : PyStr} (hb : w'.buffers = w.buffers.pop s) :
    bufferedCount w' + (w.buffer s).length = bufferedCount w := by
  have h := sum_values_pop w.buffers s List.length
  unfold bufferedCount TickWriter.buffer
  rw [hb]
  cases hg : w.buffers.get s with
  | none => simpa [hg] using h
  | some old => simpa [hg] using h

/-- How many rows are buffered or in the hands of the flush. -/
def load (w : TickWriter Unit) : Nat := bufferedCount w + heldCount (w.place ())

/-- What a step files. -/
def filedBy (w : TickWriter Unit) : Event Unit → Nat
  | .advance _ => match w.place () with
    | .writing _ rows _ _ => rows.length
    | _ => 0
  | _ => 0

/-- What a step adds to the rows written. -/
def writtenBy (w : TickWriter Unit) : Event Unit → Nat
  | .write _ _ => if w.place () = .idle then 1 else 0
  | _ => 0

theorem load_write (settings : Settings) (tick : Tick) (hidle : w.place () = .idle) :
    load (w.write settings () tick) = load w + 1 := by
  have hset : bufferedCount (w.write settings () tick) + (w.buffer (settings.row tick).symbol).length =
      bufferedCount w + (w.buffer (settings.row tick).symbol ++ [settings.row tick]).length :=
    bufferedCount_set rfl
  have hheld : heldCount ((w.write settings () tick).place ()) = 0 := by
    simp only [TickWriter.write, Function.update_self]
    split <;> rfl
  rw [load, load, hheld, hidle, heldCount_idle]
  rw [List.length_append, List.length_singleton] at hset
  omega

theorem load_restore {path : Path} {rows : List Row} (rest : List PyStr)
    (hp : heldCount (w.place ()) = rows.length) : load (w.restore () path.symbol rows rest) = load w := by
  have hset : bufferedCount (w.restore () path.symbol rows rest) + (w.buffer path.symbol).length =
      bufferedCount w + (rows ++ w.buffer path.symbol).length := bufferedCount_set rfl
  have hheld : heldCount ((w.restore () path.symbol rows rest).place ()) = 0 :=
    congrArg heldCount (place_goTo w (.flushing rest))
  rw [load, load, hheld, hp]
  rw [List.length_append] at hset
  omega

theorem load_fail (w : TickWriter Unit) : load (w.fail ()) = load w := by
  unfold TickWriter.fail
  split
  · next hp => exact load_restore _ (by rw [hp]; rfl)
  · next hp => exact load_restore _ (by rw [hp]; rfl)
  · rfl

theorem load_advance (settings : Settings) (w : TickWriter Unit) :
    load (w.advance settings ()) + filedBy w (.advance ()) = load w := by
  unfold TickWriter.advance filedBy load
  split
  · next hp => simp [hp]
  · next hp => simp [hp, heldCount, bufferedCount, TickWriter.goTo]
  · next s rest hp =>
    have hpop : ∀ p, bufferedCount (({ w with buffers := w.buffers.pop s } : TickWriter Unit).goTo () p) +
        (w.buffer s).length = bufferedCount w := fun p => bufferedCount_pop rfl
    dsimp only
    split
    · next hbuf =>
      have h := hpop (.flushing rest)
      simp only [place_goTo, hp, heldCount, hbuf, List.length_nil] at h ⊢
      omega
    · next row rows hbuf =>
      have h := hpop (.reading ⟨settings.day row.timestamp, s⟩ (row :: rows) rest)
      simp only [place_goTo, hp, heldCount, hbuf] at h ⊢
      omega
  · next hp => simp [hp, heldCount, bufferedCount, TickWriter.goTo]
  · next hp => simp [hp, heldCount, bufferedCount, TickWriter.goTo]

theorem load_step (settings : Settings) (w : TickWriter Unit) (e : Event Unit) :
    load (w.step settings e) + filedBy w e = load w + writtenBy w e := by
  cases e with
  | write t tick =>
    obtain rfl : t = () := rfl
    dsimp only [TickWriter.step, filedBy, writtenBy]
    split
    · next hidle => exact load_write settings tick hidle
    · rfl
  | flushAll t =>
    obtain rfl : t = () := rfl
    dsimp only [TickWriter.step, filedBy, writtenBy]
    split
    · next hidle => simp [load, hidle, heldCount, bufferedCount, TickWriter.goTo]
    · rfl
  | advance t => exact load_advance settings w
  | fail t => exact load_fail w

/-- What counts as written is counted as flushed, buffered or in the hands of the
flush. -/
structure Counted (r : Recorder) : Prop where
  written : r._totalWritten = r.writer.written.length
  balance : r._totalWritten = r._totalFlushed + load r.writer

theorem written_step (settings : Settings) (w : TickWriter Unit) (e : Event Unit) :
    (w.step settings e).written.length = w.written.length + writtenBy w e := by
  cases e with
  | write t tick =>
    obtain rfl : t = () := rfl
    dsimp only [TickWriter.step, writtenBy]
    split
    · simp [TickWriter.write]
    · rfl
  | flushAll t =>
    dsimp only [TickWriter.step, writtenBy]
    split <;> rfl
  | advance t =>
    dsimp only [TickWriter.step, TickWriter.advance, writtenBy]
    repeat' split
    all_goals rfl
  | fail t =>
    dsimp only [TickWriter.step, TickWriter.fail, writtenBy]
    split <;> rfl

theorem counted_step {r : Recorder} (h : Counted r) (settings : Settings) (e : Event Unit) :
    Counted (r.step settings e) := by
  have hw : (r.step settings e)._totalWritten = r._totalWritten + writtenBy r.writer e := by
    cases e with
    | write t tick => cases hp : r.writer.place () <;> simp [Recorder.step, writtenBy, hp]
    | _ => rfl
  have hf : (r.step settings e)._totalFlushed = r._totalFlushed + filedBy r.writer e := by
    cases e with
    | advance t => cases hp : r.writer.place () <;> simp [Recorder.step, filedBy, hp]
    | _ => rfl
  have hload := load_step settings r.writer e
  have hwritten := written_step settings r.writer e
  have h₁ := h.written
  have h₂ := h.balance
  constructor
  · show _ = (r.writer.step settings e).written.length
    omega
  · show _ = _ + load (r.writer.step settings e)
    omega

/-- Between two calls of a run in which any step of a flush may raise: the rows of every
symbol, in the order they were written, are those filed, each behind what the file of
some day held, and then those buffered; and the counters agree. -/
theorem rows_recorded_once (settings : Settings) (files : Path → Option (List Row)) (events : List (Event Unit))
    (hidle : (run (Recorder.step settings) (.start files) events).writer.place () = .idle) :
    let r := run (Recorder.step settings) (.start files) events
    (∀ symbol, ∃ filed : List (PyStr × Row),
      filed.map Prod.snd ++ r.writer.buffer symbol = writtenTo symbol r.writer.written ∧
      ∀ day, r.writer.content ⟨day, symbol⟩ = (files ⟨day, symbol⟩).getD [] ++ filedOn day filed) ∧
    r._totalWritten = r.writer.written.length ∧
    r._totalWritten = r._totalFlushed + bufferedCount r.writer := by
  intro r
  have hkept : ∀ symbol, Kept files symbol r.writer := fun symbol =>
    run_induction (P := fun r : Recorder => Kept files symbol r.writer)
      (fun r e h => kept_step h settings e)
      ⟨⟨[], rfl, fun day => by simp [filedOn]; rfl⟩, fun _ _ _ _ he => by cases he⟩ events
  have hcounted : Counted r :=
    run_induction (P := Counted) (fun r e h => counted_step h settings e) ⟨rfl, rfl⟩ events
  refine ⟨fun symbol => ?_, hcounted.written, ?_⟩
  · obtain ⟨filed, hw, hc⟩ := (hkept symbol).filed
    rw [hidle] at hw
    exact ⟨filed, hw, hc⟩
  · have hb := hcounted.balance
    rwa [load, hidle, heldCount_idle, Nat.add_zero] at hb

/-- The first flush fails, and the second files both rows. -/
theorem rows_recorded_once_retried :
    let events := [.write () (tickAt 1), .flushAll (), .advance (), .fail (), .advance (),
      .write () (tickAt 2), .advance (), .advance (), .advance (), .advance ()]
    let r := run (Recorder.step sample) (.start fun _ => none) events
    r.writer.place () = .idle ∧ r._flushErrors = 1 ∧
      r._totalWritten = r._totalFlushed + bufferedCount r.writer := by
  intro events r
  have hidle : r.writer.place () = .idle := by decide +kernel
  exact ⟨hidle, by decide +kernel, (rows_recorded_once sample (fun _ => none) events hidle).2.2⟩

end TickRecords
