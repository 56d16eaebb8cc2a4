import BtApiBase.TickWriters

/-!
# Which flushes lose ticks

While a thread holds what it read from the file of a symbol, no other thread
reads that file: then whoever writes it writes what it still holds. Under this
condition every tick of the symbol is in one place. Two flushes that read the
same file write one after the other, and the second takes back what the first
one added.
-/

namespace TickFlushes

open PyText PyDict PyValue TickWriters Runs

variable {ι : Type} [DecidableEq ι]

/-- A thread that is about to read the file finds no other one about to write it. -/
def Exclusive (path : Path) (w : TickWriter ι) : Event ι → Prop
  | .advance t => (w.place t).reads path → ∀ t', ¬ (w.place t').writes path
  | _ => True

instance [Fintype ι] (path : Path) (w : TickWriter ι) : (e : Event ι) → Decidable (Exclusive path w e)
  | .advance t =>
    inferInstanceAs (Decidable ((w.place t).reads path → ∀ t', ¬ (w.place t').writes path))
  | .write _ _ | .flushAll _ | .fail _ => instDecidableTrue

/-- The ticks of the symbol are of one trading day. -/
def OneDay (settings : Settings) (path : Path) : Event ι → Prop
  | .write _ tick => (settings.row tick).symbol = path.symbol →
    settings.day (settings.row tick).timestamp = path.day
  | _ => True

omit [DecidableEq ι] in
theorem buffer_set (w : TickWriter ι) (symbol : PyStr) (rows : List Row) (s : PyStr)
    (place : ι → Place) (written : List Row) :
    ({ w with buffers := w.buffers.set symbol rows, place := place, written := written } :
      TickWriter ι).buffer s = if s = symbol then rows else w.buffer s := by
  simp only [TickWriter.buffer, Dict.get_set]
  split <;> rfl

omit [DecidableEq ι] in
theorem buffer_pop (w : TickWriter ι) (symbol s : PyStr) :
    ({ w with buffers := w.buffers.pop symbol } : TickWriter ι).buffer s =
      if s = symbol then [] else w.buffer s := by
  simp only [TickWriter.buffer, Dict.get_pop]
  split <;> rfl

section

variable [Fintype ι] {settings : Settings} {path : Path} {before : List Row} {w : TickWriter ι} {t : ι}

/-- A step between two places without rows. -/
theorem balanced_goTo (h : Balanced settings path before w) {p : Place}
    (hp : inFlight path.symbol p = inFlight path.symbol (w.place t)) (hn : ¬ Writing path p)
    (hd : Dated settings path p) : Balanced settings path before (w.goTo t p) :=
  h.update (t := t) rfl (by rw [hp]; rfl) (h.guarded.update rfl rfl hn) h.buffered hd

theorem balanced_write (h : Balanced settings path before w) (hidle : w.place t = .idle) {tick : Tick}
    (hday : OneDay settings path (.write t tick)) :
    Balanced settings path before (w.write settings t tick) := by
  have hplace : ∀ (b : Prop) [Decidable b], inFlight path.symbol
      (if b then Place.flushing [(settings.row tick).symbol] else Place.idle) = 0 := by
    intro b _
    split <;> rfl
  have hbuffer := buffer_set w (settings.row tick).symbol
    (w.buffer (settings.row tick).symbol ++ [settings.row tick]) path.symbol
  refine h.update (t := t) rfl ?_ (h.guarded.update rfl rfl ?_) ?_ ?_
  · rw [hplace, hidle]
    simp only [TickWriter.write, hbuffer]
    by_cases hs : path.symbol = (settings.row tick).symbol
    · simp only [hs, if_true, writtenTo, List.filter_append, List.filter_cons, List.filter_nil,
        decide_true, ← Multiset.coe_add, inFlight]
      simp only [TickWriter.content]
      ac_rfl
    · simp only [hs, if_false, writtenTo, List.filter_append, List.filter_cons, List.filter_nil,
        Ne.symm hs, decide_false, Bool.false_eq_true, List.append_nil, inFlight]
      rfl
  · rintro ⟨rows, existing, rest, he⟩
    split at he <;> cases he
  · intro row hrow
    simp only [TickWriter.write, hbuffer] at hrow
    split at hrow
    · next hs =>
      rcases List.mem_append.mp hrow with hrow | hrow
      · exact h.buffered row (hs ▸ hrow)
      · rw [List.mem_singleton.mp hrow]
        exact hday hs.symm
    · exact h.buffered row hrow
  · split <;> trivial

/-- The rows that are popped from the buffer are with the thread. -/
theorem balanced_pop (h : Balanced settings path before w) {symbol : PyStr} {rest : List PyStr}
    (hplace : w.place t = .flushing (symbol :: rest)) :
    Balanced settings path before (w.advance settings t) := by
  have hbuffer := buffer_pop w symbol path.symbol
  simp only [TickWriter.advance, hplace]
  cases hrows : w.buffer symbol with
  | nil =>
    have hsame : ({ w with buffers := w.buffers.pop symbol } : TickWriter ι).buffer path.symbol =
        w.buffer path.symbol := by
      rw [hbuffer]
      split
      · next hs => rw [hs, hrows]
      · rfl
    refine h.update (t := t) rfl ?_ (h.guarded.update rfl rfl ?_) ?_ trivial
    · show (w.content path : Multiset Row) +
        ({ w with buffers := w.buffers.pop symbol } : TickWriter ι).buffer path.symbol + _ + _ = _
      rw [hsame, hplace]
      rfl
    · rintro ⟨_, _, _, ⟨⟩⟩
    · intro row hrow
      exact h.buffered row (hsame ▸ hrow)
  | cons row rows =>
    refine h.update (t := t) rfl ?_ (h.guarded.update rfl rfl ?_) ?_ ?_
    · show (w.content path : Multiset Row) +
        ({ w with buffers := w.buffers.pop symbol } : TickWriter ι).buffer path.symbol + _ + _ = _
      rw [hbuffer, hplace]
      by_cases hs : path.symbol = symbol
      · subst hs
        rw [hrows]
        simp only [if_true, inFlight, Multiset.coe_nil, add_zero]
        rfl
      · simp only [hs, Ne.symm hs, if_false, inFlight]
        rfl
    · rintro ⟨_, _, _, ⟨⟩⟩
    · intro row' hrow
      have hmem : row' ∈ (if path.symbol = symbol then [] else w.buffer path.symbol) := hbuffer ▸ hrow
      split at hmem
      · cases hmem
      · exact h.buffered row' hmem
    · intro hs
      have hday : ∀ r ∈ row :: rows, settings.day r.timestamp = path.day := by
        intro r hr
        rw [← hrows, show symbol = path.symbol from hs] at hr
        exact h.buffered r hr
      refine ⟨?_, hday⟩
      rw [hday row List.mem_cons_self, show symbol = path.symbol from hs]

/-- What a thread reads is what the file holds, and no other one is about to write it. -/
theorem balanced_read (h : Balanced settings path before w) {p : Path} {rows : List Row}
    {rest : List PyStr} (hplace : w.place t = .reading p rows rest)
    (hexcl : Exclusive path w (.advance t)) :
    Balanced settings path before (w.advance settings t) := by
  have hd := h.dated t
  rw [hplace] at hd
  simp only [TickWriter.advance, hplace]
  have hmove : inFlight path.symbol (.writing p rows (w.content p) rest) =
      inFlight path.symbol (w.place t) := by
    rw [hplace]
    rfl
  refine h.update (t := t) rfl (by rw [hmove]; rfl) ?_ h.buffered hd
  by_cases hp : p = path
  · subst hp
    have hnone := hexcl (by rw [hplace]; simp [Place.reads])
    have hother : ∀ x, x ≠ t → ¬ Writing p ((w.goTo t (.writing p rows (w.content p) rest)).place x) := by
      intro x hx hw
      simp only [TickWriter.goTo, Function.update_of_ne hx] at hw
      exact hnone x (writes_iff.mpr hw)
    constructor
    · intro x rows' existing rest' hx
      by_cases he : x = t
      · subst he
        simp only [TickWriter.goTo, Function.update_self] at hx
        cases hx
        rfl
      · exact absurd ⟨rows', existing, rest', hx⟩ (hother x he)
    · intro x y hx hy
      by_contra hne
      by_cases hxt : x = t
      · exact hother y (fun hyt => hne (hxt.trans hyt.symm)) hy
      · exact hother x hxt hx
  · refine h.guarded.update rfl rfl ?_
    rintro ⟨rows', existing, rest', he⟩
    cases he
    exact hp rfl

omit [Fintype ι] [DecidableEq ι] in
theorem content_write (w : TickWriter ι) (p path : Path) (rows : List Row) (place : ι → Place) :
    ({ w with place := place, files := Function.update w.files p (some rows) } : TickWriter ι).content path =
      if path = p then rows else w.content path := by
  simp only [TickWriter.content, Function.update_apply]
  split <;> rfl

/-- The rows of the thread are behind what the file held. -/
theorem balanced_writeBack (h : Balanced settings path before w) {p : Path} {rows existing : List Row}
    {rest : List PyStr} (hplace : w.place t = .writing p rows existing rest) :
    Balanced settings path before (w.advance settings t) := by
  have hd := h.dated t
  rw [hplace] at hd
  simp only [TickWriter.advance, hplace]
  have hcontent := content_write w p path (existing ++ rows) (Function.update w.place t (.flushing rest))
  by_cases hp : p = path
  · subst hp
    have hexisting := h.guarded.current t rows existing rest hplace
    rw [if_pos rfl] at hcontent
    refine h.update (t := t) rfl ?_ ?_ h.buffered trivial
    · show (TickWriter.content _ p : Multiset Row) + w.buffer p.symbol + _ + _ = _
      rw [TickWriter.goTo, hcontent, hexisting, hplace]
      simp only [inFlight, if_true, ← Multiset.coe_add]
      simp only [TickWriter.content]
      ac_rfl
    · have hnone : ∀ x, ¬ Writing p (Function.update w.place t (.flushing rest) x) := by
        intro x hx
        by_cases he : x = t
        · subst he
          rw [Function.update_self] at hx
          obtain ⟨_, _, _, ⟨⟩⟩ := hx
        · rw [Function.update_of_ne he] at hx
          exact he (h.guarded.single x t hx ⟨rows, existing, rest, hplace⟩)
      exact ⟨fun x rows' existing' rest' hx => absurd ⟨rows', existing', rest', hx⟩ (hnone x),
        fun x y hx _ => absurd hx (hnone x)⟩
  · have hsymbol : p.symbol ≠ path.symbol := fun hs => hp (hd hs).1
    rw [if_neg (Ne.symm hp)] at hcontent
    refine h.update (t := t) rfl ?_ (h.guarded.update rfl hcontent ?_) h.buffered trivial
    · show (TickWriter.content _ path : Multiset Row) + w.buffer path.symbol + _ + _ = _
      rw [TickWriter.goTo, hcontent, hplace]
      simp only [inFlight, hsymbol, if_false]
    · rintro ⟨_, _, _, ⟨⟩⟩

/-- The rows go back to the buffer that they came from. -/
theorem balanced_restore (h : Balanced settings path before w) {p : Path} {rows : List Row}
    {rest : List PyStr} (hheld : inFlight path.symbol (w.place t) =
      if p.symbol = path.symbol then (rows : Multiset Row) else 0)
    (hd : p.symbol = path.symbol → ∀ row ∈ rows, settings.day row.timestamp = path.day) :
    Balanced settings path before (w.restore t p.symbol rows rest) := by
  have hbuffer := buffer_set w p.symbol (rows ++ w.buffer p.symbol) path.symbol
    (Function.update w.place t (.flushing rest)) w.written
  refine h.update (t := t) rfl ?_ (h.guarded.update rfl rfl ?_) ?_ trivial
  · show (w.content path : Multiset Row) + TickWriter.buffer _ path.symbol + _ + _ = _
    rw [TickWriter.restore, TickWriter.goTo, hbuffer, hheld]
    by_cases hs : path.symbol = p.symbol
    · simp only [hs, if_true, inFlight, ← Multiset.coe_add]
      ac_rfl
    · simp only [hs, Ne.symm hs, if_false, inFlight]
  · rintro ⟨_, _, _, ⟨⟩⟩
  · intro row hrow
    simp only [TickWriter.restore, TickWriter.goTo, hbuffer] at hrow
    split at hrow
    · next hs =>
      rcases List.mem_append.mp hrow with hrow | hrow
      · exact hd hs.symm row hrow
      · exact h.buffered row (hs ▸ hrow)
    · exact h.buffered row hrow

theorem balanced_step (h : Balanced settings path before w) {e : Event ι}
    (hday : OneDay settings path e) (hexcl : Exclusive path w e) :
    Balanced settings path before (w.step settings e) := by
  cases e with
  | write t tick =>
    simp only [TickWriter.step]
    split
    · next hidle => exact balanced_write h hidle hday
    · exact h
  | flushAll t =>
    simp only [TickWriter.step]
    split
    · next hidle =>
      refine balanced_goTo h (by rw [hidle]; rfl) ?_ trivial
      rintro ⟨_, _, _, ⟨⟩⟩
    · exact h
  | advance t =>
    simp only [TickWriter.step]
    cases hplace : w.place t with
    | idle =>
      simp only [TickWriter.advance, hplace]
      exact h
    | flushing symbols =>
      cases symbols with
      | nil =>
        simp only [TickWriter.advance, hplace]
        refine balanced_goTo h (by rw [hplace]; rfl) ?_ trivial
        rintro ⟨_, _, _, ⟨⟩⟩
      | cons symbol rest => exact balanced_pop h hplace
    | reading p rows rest => exact balanced_read h hplace hexcl
    | writing p rows existing rest => exact balanced_writeBack h hplace
  | fail t =>
    have hd := h.dated t
    simp only [TickWriter.step, TickWriter.fail]
    cases hplace : w.place t with
    | idle => exact h
    | flushing symbols => exact h
    | reading p rows rest =>
      rw [hplace] at hd
      exact balanced_restore h (by rw [hplace, inFlight]) fun hs => (hd hs).2
    | writing p rows existing rest =>
      rw [hplace] at hd
      exact balanced_restore h (by rw [hplace, inFlight]) fun hs => (hd hs).2

end

/-- A writer that has no ticks yet, over the files that are there. -/
def start (files : Path → Option (List Row)) : TickWriter ι where
  buffers := Dict.empty
  files := files
  place _ := .idle
  written := []

/-- No flush is in progress. -/
def Quiet (w : TickWriter ι) : Prop := ∀ t, w.place t = .idle

/-- Every tick of the symbol that was written is once in the file or in the buffer,
behind what the file held before. -/
def Recorded (path : Path) (before : List Row) (w : TickWriter ι) : Prop :=
  (w.content path : Multiset Row) + w.buffer path.symbol = before + writtenTo path.symbol w.written

section

variable [Fintype ι]

omit [DecidableEq ι] in
theorem balanced_start (settings : Settings) (path : Path) (files : Path → Option (List Row)) :
    Balanced settings path ((files path).getD []) (start files : TickWriter ι) where
  total := by simp [start, TickWriter.content, TickWriter.buffer, inFlight, writtenTo]
  guarded := by constructor <;> simp [start, Writing]
  buffered := by simp [start, TickWriter.buffer]
  dated _ := trivial

omit [DecidableEq ι] in
theorem recorded_of_quiet {settings : Settings} {path : Path} {before : List Row} {w : TickWriter ι}
    (h : Balanced settings path before w) (hq : Quiet w) : Recorded path before w := by
  have htotal := h.total
  have hnone : ∑ t, inFlight path.symbol (w.place t) = 0 :=
    Finset.sum_eq_zero fun t _ => by rw [hq t]; rfl
  rwa [hnone, add_zero] at htotal

/-- When no thread reads the file while another one is about to write it, no tick is
lost or doubled. -/
theorem recorded_of_exclusive (settings : Settings) (path : Path) (files : Path → Option (List Row))
    {events : List (Event ι)} (hday : ∀ e ∈ events, OneDay settings path e)
    (h : Meets (TickWriter.step settings) (Exclusive path) (start files) events) :
    Throughout (TickWriter.step settings)
      (fun w => Quiet w → Recorded path ((files path).getD []) w) (start files) events := by
  have hmeets : Meets (TickWriter.step settings) (fun w e => OneDay settings path e ∧ Exclusive path w e)
      (start files : TickWriter ι) events := by
    intro pre e hp
    exact ⟨hday e (hp.subset (by simp)), h pre e hp⟩
  have hbalanced := throughout_of_meets (P := Balanced settings path ((files path).getD []))
    (fun w e hb hc => balanced_step hb hc.1 hc.2) (balanced_start settings path files) hmeets
  intro pre hp hq
  exact recorded_of_quiet (hbalanced pre hp) hq

end

/-- The writing thread and the flush thread. -/
inductive Thread where
  | writer | background
  deriving DecidableEq

instance : Fintype Thread := ⟨{.writer, .background}, fun t => by cases t <;> simp⟩

def sample : Settings where
  exchange := u "BINANCE"
  assetType := u "SPOT"
  flushCount := 2
  day _ := u "20240101"

def btc : Path := ⟨u "20240101", u "BTCUSDT"⟩

def tickAt (price : Rat) : Tick := { symbol := some (u "BTCUSDT"), price := some (.finite price) }

/-- The flush thread pops and reads before the writer has a second flush, and writes
after it. -/
def overlapping : List (Event Thread) :=
  [.write .writer (tickAt 1), .flushAll .background, .advance .background, .advance .background,
    .write .writer (tickAt 2), .write .writer (tickAt 3), .advance .writer, .advance .writer,
    .advance .writer, .advance .writer, .advance .background, .advance .background]

/-- The same calls, with the flush thread through before the writer flushes. -/
def serial : List (Event Thread) :=
  [.write .writer (tickAt 1), .flushAll .background, .advance .background, .advance .background,
    .write .writer (tickAt 2), .write .writer (tickAt 3), .advance .background, .advance .background,
    .advance .writer, .advance .writer, .advance .writer, .advance .writer]

theorem recorded_serial :
    Throughout (TickWriter.step sample) (fun w => Quiet w → Recorded btc [] w)
      (start fun _ => none : TickWriter Thread) serial := by
  refine recorded_of_exclusive sample btc (fun _ => none) ?_ ?_
  · intro e _
    cases e with
    | write t tick => exact fun _ => rfl
    | flushAll t => trivial
    | advance t => trivial
    | fail t => trivial
  · decide +kernel

theorem ticks_lost :
    Quiet (run (TickWriter.step sample) (start fun _ => none) overlapping) ∧
      ¬ Recorded btc [] (run (TickWriter.step sample) (start fun _ => none) overlapping) := by
  unfold Quiet Recorded
  decide +kernel

end TickFlushes
