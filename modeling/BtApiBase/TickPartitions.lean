import BtApiBase.TickFlushes

/-!
# The day that a tick is stored under

A flush writes all the rows that it popped into one file, the one of the day of
the first of them. One thread calls the writer here; `flushed` records the rows
that were written to some file, for the statements only. Each flushed row is in
the file of its own day exactly when no batch is of two days.
-/

namespace TickPartitions

open PyText PyDict PyValue TickWriters TickFlushes Runs

structure Recorder where
  writer : TickWriter Unit
  flushed : List Row

/-- The rows that a thread is about to write. -/
def batch : Place → List Row
  | .writing _ rows _ _ => rows
  | _ => []

def flushedBy (w : TickWriter Unit) : Event Unit → List Row
  | .advance t => batch (w.place t)
  | _ => []

def Recorder.step (settings : Settings) (r : Recorder) (e : Event Unit) : Recorder where
  writer := r.writer.step settings e
  flushed := r.flushed ++ flushedBy r.writer e

def fresh (files : Path → Option (List Row)) : Recorder := ⟨start files, []⟩

/-- The file of the symbol of a row, under the directory of its own trading day. -/
def ownPath (settings : Settings) (row : Row) : Path := ⟨settings.day row.timestamp, row.symbol⟩

/-- Behind what it held before, each file holds the flushed rows of its symbol and day. -/
def Partitioned (settings : Settings) (files : Path → Option (List Row)) (r : Recorder) : Prop :=
  ∀ path, r.writer.content path =
    (files path).getD [] ++ r.flushed.filter fun row => ownPath settings row = path

/-- The rows that the thread is about to write are of the day of their file. -/
def OneDayBatch (settings : Settings) : Place → Prop
  | .writing path rows _ _ => ∀ row ∈ rows, settings.day row.timestamp = path.day
  | _ => True

instance (settings : Settings) : (p : Place) → Decidable (OneDayBatch settings p)
  | .writing path rows _ _ =>
    inferInstanceAs (Decidable (∀ row ∈ rows, settings.day row.timestamp = path.day))
  | .idle | .flushing _ | .reading _ _ _ => instDecidableTrue

/-- A step that writes a batch writes one of a single day. -/
def WritesOneDay (settings : Settings) (r : Recorder) : Event Unit → Prop
  | .advance t => OneDayBatch settings (r.writer.place t)
  | _ => True

instance (settings : Settings) (r : Recorder) : (e : Event Unit) → Decidable (WritesOneDay settings r e)
  | .advance t => inferInstanceAs (Decidable (OneDayBatch settings (r.writer.place t)))
  | .write _ _ | .flushAll _ | .fail _ => instDecidableTrue

/-! ## What one thread holds -/

/-- The rows that a thread holds are of the symbol of their path, and what it read is
what the file still holds. -/
def Holds (w : TickWriter Unit) : Place → Prop
  | .reading path rows _ => ∀ row ∈ rows, row.symbol = path.symbol
  | .writing path rows existing _ => existing = w.content path ∧ ∀ row ∈ rows, row.symbol = path.symbol
  | _ => True

structure Kept (w : TickWriter Unit) : Prop where
  buffered : ∀ symbol, ∀ row ∈ w.buffer symbol, row.symbol = symbol
  held : Holds w (w.place ())

section

variable {settings : Settings} {w : TickWriter Unit}

theorem goTo_place (w : TickWriter Unit) (p : Place) : (w.goTo () p).place () = p := by
  simp [TickWriter.goTo]

theorem kept_write (h : Kept w) (tick : Tick) : Kept (w.write settings () tick) := by
  constructor
  · intro symbol row hrow
    simp only [TickWriter.write, buffer_set] at hrow
    split at hrow
    · next hs =>
      rcases List.mem_append.mp hrow with hrow | hrow
      · exact (h.buffered _ row hrow).trans hs.symm
      · rw [List.mem_singleton.mp hrow]
        exact hs.symm
    · exact h.buffered symbol row hrow
  · have hplace : (w.write settings () tick).place () =
        if settings.flushCount ≤ (w.buffer (settings.row tick).symbol ++ [settings.row tick]).length
        then .flushing [(settings.row tick).symbol] else .idle := by
      simp [TickWriter.write]
    rw [hplace]
    split <;> trivial

theorem kept_pop (h : Kept w) {symbol : PyStr} {rest : List PyStr}
    (hplace : w.place () = .flushing (symbol :: rest)) : Kept (w.advance settings ()) := by
  have hbuffered : ∀ s, ∀ row ∈ ({ w with buffers := w.buffers.pop symbol } : TickWriter Unit).buffer s,
      row.symbol = s := by
    intro s row hrow
    rw [buffer_pop] at hrow
    split at hrow
    · cases hrow
    · exact h.buffered s row hrow
  simp only [TickWriter.advance, hplace]
  cases hrows : w.buffer symbol with
  | nil =>
    refine ⟨hbuffered, ?_⟩
    rw [goTo_place]
    trivial
  | cons row rows =>
    refine ⟨hbuffered, ?_⟩
    rw [goTo_place]
    intro r hr
    exact h.buffered symbol r (hrows ▸ hr)

theorem kept_restore (h : Kept w) {path : Path} {rows : List Row} (rest : List PyStr)
    (hrows : ∀ row ∈ rows, row.symbol = path.symbol) : Kept (w.restore () path.symbol rows rest) := by
  constructor
  · intro symbol row hrow
    simp only [TickWriter.restore, TickWriter.goTo, buffer_set] at hrow
    split at hrow
    · next hs =>
      subst hs
      rcases List.mem_append.mp hrow with hrow | hrow
      · exact hrows row hrow
      · exact h.buffered _ row hrow
    · exact h.buffered symbol row hrow
  · show Holds _ ((w.goTo () (.flushing rest)).place ())
    rw [goTo_place]
    trivial

/-- Only one thread writes, so what it read stays what the file holds. -/
theorem kept_step (h : Kept w) (e : Event Unit) : Kept (w.step settings e) := by
  cases e with
  | write t tick =>
    simp only [TickWriter.step]
    split
    · exact kept_write h tick
    · exact h
  | flushAll t =>
    simp only [TickWriter.step]
    split
    · refine ⟨h.buffered, ?_⟩
      rw [goTo_place]
      trivial
    · exact h
  | advance t =>
    have hheld := h.held
    simp only [TickWriter.step]
    cases hplace : w.place () with
    | idle =>
      simp only [TickWriter.advance, hplace]
      exact h
    | flushing symbols =>
      cases symbols with
      | nil =>
        simp only [TickWriter.advance, hplace]
        refine ⟨h.buffered, ?_⟩
        rw [goTo_place]
        trivial
      | cons symbol rest => exact kept_pop h hplace
    | reading path rows rest =>
      rw [hplace] at hheld
      simp only [TickWriter.advance, hplace]
      refine ⟨h.buffered, ?_⟩
      rw [goTo_place]
      exact ⟨rfl, hheld⟩
    | writing path rows existing rest =>
      simp only [TickWriter.advance, hplace]
      refine ⟨h.buffered, ?_⟩
      show Holds _ ((w.goTo () (.flushing rest)).place ())
      rw [goTo_place]
      trivial
  | fail t =>
    have hheld := h.held
    simp only [TickWriter.step, TickWriter.fail]
    cases hplace : w.place () with
    | idle => exact h
    | flushing symbols => exact h
    | reading path rows rest =>
      rw [hplace] at hheld
      exact kept_restore h rest hheld
    | writing path rows existing rest =>
      rw [hplace] at hheld
      exact kept_restore h rest hheld.2

/-! ## What a step adds to the files -/

/-- Every step but the last one of a flush leaves the files as they are. -/
theorem content_step (settings : Settings) (w : TickWriter Unit) (e : Event Unit)
    (hnot : ∀ t path rows existing rest, e = .advance t → w.place t ≠ .writing path rows existing rest)
    (path : Path) : (w.step settings e).content path = w.content path ∧ flushedBy w e = [] := by
  cases e with
  | write t tick =>
    refine ⟨?_, rfl⟩
    simp only [TickWriter.step]
    split <;> rfl
  | flushAll t =>
    refine ⟨?_, rfl⟩
    simp only [TickWriter.step]
    split <;> rfl
  | advance t =>
    simp only [TickWriter.step, flushedBy]
    cases hplace : w.place t with
    | idle => exact ⟨by simp only [TickWriter.advance, hplace], rfl⟩
    | flushing symbols =>
      refine ⟨?_, rfl⟩
      cases symbols with
      | nil =>
        simp only [TickWriter.advance, hplace]
        rfl
      | cons symbol rest =>
        simp only [TickWriter.advance, hplace]
        split <;> rfl
    | reading p rows rest =>
      refine ⟨?_, rfl⟩
      simp only [TickWriter.advance, hplace]
      rfl
    | writing p rows existing rest => exact absurd hplace (hnot t p rows existing rest rfl)
  | fail t =>
    refine ⟨?_, rfl⟩
    simp only [TickWriter.step, TickWriter.fail]
    split <;> rfl

theorem filter_eq_iff {α β : Type*} [DecidableEq β] (f : α → β) (b : β) (xs : List α) :
    (∀ c, (if c = b then xs else []) = xs.filter fun x => f x = c) ↔ ∀ x ∈ xs, f x = b := by
  constructor
  · intro h x hx
    have hall := (h b).symm
    rw [if_pos rfl] at hall
    exact of_decide_eq_true (List.filter_eq_self.mp hall x hx)
  · intro h c
    by_cases hc : c = b
    · subst hc
      rw [if_pos rfl]
      exact (List.filter_eq_self.mpr fun x hx => decide_eq_true (h x hx)).symm
    · rw [if_neg hc]
      refine (List.filter_eq_nil_iff.mpr ?_).symm
      intro x hx
      rw [h x hx]
      simpa using Ne.symm hc

end

variable {settings : Settings} {files : Path → Option (List Row)} {r : Recorder}

/-- The last step of a flush keeps the files in parts by days exactly when its rows are
of one day. -/
theorem partitioned_writing (hk : Kept r.writer) (hp : Partitioned settings files r) {t : Unit}
    {path : Path} {rows existing : List Row} {rest : List PyStr}
    (hplace : r.writer.place t = .writing path rows existing rest) :
    Partitioned settings files (r.step settings (.advance t)) ↔
      ∀ row ∈ rows, settings.day row.timestamp = path.day := by
  have hheld := hk.held
  rw [hplace] at hheld
  obtain ⟨rfl, hsymbols⟩ := hheld
  have hcontent : ∀ q, (r.step settings (.advance t)).writer.content q =
      (files q).getD [] ++ (r.flushed.filter fun row => ownPath settings row = q) ++
        if q = path then rows else [] := by
    intro q
    simp only [Recorder.step, TickWriter.step, TickWriter.advance, hplace, TickWriter.goTo, content_write]
    rw [← hp q]
    split
    · next hq => rw [hq]
    · rw [List.append_nil]
  have hflushed : (r.step settings (.advance t)).flushed = r.flushed ++ rows := by
    simp only [Recorder.step, flushedBy, hplace, batch]
  have hown : (∀ row ∈ rows, ownPath settings row = path) ↔
      ∀ row ∈ rows, settings.day row.timestamp = path.day := by
    refine forall₂_congr ?_
    intro row hrow
    constructor
    · intro h
      rw [← h]
      rfl
    · intro h
      rw [ownPath, h, hsymbols row hrow]
  rw [← hown, ← filter_eq_iff (ownPath settings) path rows]
  refine forall_congr' ?_
  intro q
  rw [hcontent q, hflushed, List.filter_append, List.append_assoc, List.append_cancel_left_eq,
    List.append_cancel_left_eq]

theorem partitioned_step (hk : Kept r.writer) (hp : Partitioned settings files r) (e : Event Unit) :
    Partitioned settings files (r.step settings e) ↔ WritesOneDay settings r e := by
  by_cases hw : ∃ t path rows existing rest, e = .advance t ∧
      r.writer.place t = .writing path rows existing rest
  · obtain ⟨t, path, rows, existing, rest, rfl, hplace⟩ := hw
    rw [partitioned_writing hk hp hplace, WritesOneDay, hplace]
    rfl
  · have hsame := content_step settings r.writer e
      fun t path rows existing rest he hplace => hw ⟨t, path, rows, existing, rest, he, hplace⟩
    have hguard : WritesOneDay settings r e := by
      cases e with
      | advance t =>
        show OneDayBatch settings (r.writer.place t)
        cases hplace : r.writer.place t with
        | writing path rows existing rest => exact absurd ⟨t, path, rows, existing, rest, rfl, hplace⟩ hw
        | idle => trivial
        | flushing symbols => trivial
        | reading path rows rest => trivial
      | write t tick => trivial
      | flushAll t => trivial
      | fail t => trivial
    refine iff_of_true ?_ hguard
    intro path
    obtain ⟨hcontent, hflushed⟩ := hsame path
    simp only [Recorder.step, hcontent, hflushed, List.append_nil]
    exact hp path

/-- The flushed ticks are under their own days in every state of a run exactly when no
flush of the run writes a batch of two days. -/
theorem partitioned_iff_one_day (settings : Settings) (files : Path → Option (List Row))
    (events : List (Event Unit)) :
    Throughout (Recorder.step settings) (Partitioned settings files) (fresh files) events ↔
      Meets (Recorder.step settings) (WritesOneDay settings) (fresh files) events := by
  refine throughout_iff_meets (Q := fun r => Kept r.writer) ?_ ?_ ?_ ?_ events
  · intro r e h
    exact kept_step h e
  · intro r e hk hp
    exact partitioned_step hk hp e
  · constructor
    · intro symbol row hrow
      cases hrow
    · trivial
  · intro path
    exact (List.append_nil _).symm

/-- Seconds of the first day of the epoch, and later ones. -/
def firstDay : PyFloat → PyStr
  | .finite q => if q < 86400 then u "19700101" else u "19700102"
  | _ => u "19700102"

def midnight : Settings := { sample with day := firstDay }

def atSecond (second : Rat) : Tick := { symbol := some (u "BTCUSDT"), timestamp := some (.finite second) }

/-- The second tick is of the next day, and the batch of both is flushed. -/
def spanning : List (Event Unit) :=
  [.write () (atSecond 86399), .write () (atSecond 86400), .advance (), .advance (), .advance (),
    .advance ()]

theorem stored_under_the_first :
    ¬ Partitioned midnight (fun _ => none)
      (run (Recorder.step midnight) (fresh fun _ => none) spanning) := by
  intro h
  have hday := h ⟨u "19700102", u "BTCUSDT"⟩
  revert hday
  decide +kernel

end TickPartitions
