import BtApiBase.InstrumentVenues

/-!
# Who holds a venue symbol

`held` records the registered instruments in the order of their last
registrations, for the statements only. The slot of a venue symbol should lead to
the latest of those that have it. A registration under a name that is taken empties
the slot of the previous instrument, whoever is in it, so that another instrument
with that venue symbol is not found any more.
-/

namespace InstrumentHolders

open PyText PyDict PyValue Runs Instruments InstrumentIndexes InstrumentVenues

variable {β : Type}

inductive Registration (β : Type) where
  | register (instrument : Instrument β)
  | clear

/-- The registrations that an operation makes, one after the other. -/
def registrations : Op β → List (Registration β)
  | .register i => [.register i]
  | .registerMany is => is.map .register
  | .clear => [.clear]

structure Log (β : Type) where
  manager : InstrumentManager β
  held : List (Instrument β)

def start : Log β := ⟨.new, []⟩

def Log.step (l : Log β) : Registration β → Log β
  | .register i => ⟨l.manager.register i, l.held.filter (fun j => j.internal ≠ i.internal) ++ [i]⟩
  | .clear => ⟨l.manager.clear, []⟩

/-- The instrument registered last among those with the venue symbol. -/
def latest (held : List (Instrument β)) (venue venueSymbol : PyStr) : Option (Instrument β) :=
  (held.filter fun j => j.venue = venue ∧ j.venueSymbol = venueSymbol).getLast?

/-- Each registered instrument is found under its venue symbol, or else the latest one
that has the same. -/
def Found (l : Log β) : Prop := ∀ i, l.manager.get i.internal = some i →
  l.manager.getByVenue i.venue i.venueSymbol = latest l.held i.venue i.venueSymbol

/-- An instrument that comes with a new venue symbol leaves the old one to nobody: no
other registered instrument has it. -/
def LeavesToNobody (l : Log β) : Registration β → Prop
  | .register i => ∀ previous, l.manager.get i.internal = some previous → ¬ SamePair previous i →
    ∀ j, l.manager.get j.internal = some j → j.internal ≠ i.internal → ¬ SamePair previous j
  | .clear => True

structure Tracks (l : Log β) : Prop where
  consistent : Consistent l.manager
  held : ∀ i, i ∈ l.held ↔ l.manager.get i.internal = some i

/-! ## The operations as registrations -/

theorem run_registrations (ops : List (Op β)) :
    (run Log.step start (ops.flatMap registrations)).manager = run InstrumentManager.step .new ops := by
  have hmany : ∀ (is : List (Instrument β)) (l : Log β),
      (run Log.step l (is.map .register)).manager = l.manager.registerMany is := by
    intro is
    induction is with
    | nil => exact fun _ => rfl
    | cons i is ih => exact fun l => ih (l.step (.register i))
  have hstep : ∀ (op : Op β) (l : Log β),
      (run Log.step l (registrations op)).manager = l.manager.step op := by
    intro op l
    cases op with
    | register i => rfl
    | registerMany is => exact hmany is l
    | clear => rfl
  have hrun : ∀ l : Log β, (run Log.step l (ops.flatMap registrations)).manager =
      run InstrumentManager.step l.manager ops := by
    induction ops with
    | nil => exact fun _ => rfl
    | cons op ops ih =>
      intro l
      rw [List.flatMap_cons, run_append, ih, hstep, run_cons]
  exact hrun start

/-! ## One registration -/

theorem latest_concat (held : List (Instrument β)) (i : Instrument β) (venue venueSymbol : PyStr) :
    latest (held ++ [i]) venue venueSymbol =
      if venue = i.venue ∧ venueSymbol = i.venueSymbol then some i else latest held venue venueSymbol := by
  unfold latest
  rw [List.filter_append, List.getLast?_append]
  by_cases h : venue = i.venue ∧ venueSymbol = i.venueSymbol
  · simp [h]
  · have hi : ¬ (i.venue = venue ∧ i.venueSymbol = venueSymbol) := fun he => h ⟨he.1.symm, he.2.symm⟩
    simp [h, hi]

theorem latest_filter {held : List (Instrument β)} {p : Instrument β → Bool} {venue venueSymbol : PyStr}
    (h : ∀ j ∈ held, j.venue = venue → j.venueSymbol = venueSymbol → p j = true) :
    latest (held.filter p) venue venueSymbol = latest held venue venueSymbol := by
  unfold latest
  rw [List.filter_filter]
  congr 1
  refine List.filter_congr ?_
  intro j hj
  by_cases hpair : j.venue = venue ∧ j.venueSymbol = venueSymbol
  · simp [hpair, h j hj hpair.1 hpair.2]
  · simp [hpair]

theorem latest_ne_none {held : List (Instrument β)} {i : Instrument β} (h : i ∈ held) :
    latest held i.venue i.venueSymbol ≠ none := by
  unfold latest
  rw [ne_eq, List.getLast?_eq_none_iff]
  exact List.ne_nil_of_mem (List.mem_filter.mpr ⟨h, by simp⟩)

theorem tracks_start : Tracks (start : Log β) := by
  refine ⟨consistent_new, ?_⟩
  intro i
  constructor
  · intro hi
    cases hi
  · intro hi
    cases hi

variable {l : Log β}

theorem tracks_step (h : Tracks l) (r : Registration β) : Tracks (l.step r) := by
  cases r with
  | clear => exact tracks_start
  | register i =>
    refine ⟨consistent_register h.consistent i, ?_⟩
    intro j
    simp only [Log.step, InstrumentManager.get_register, List.mem_append, List.mem_filter,
      List.mem_singleton, h.held j, ne_eq, decide_eq_true_eq]
    by_cases hj : j.internal = i.internal
    · simp [hj, eq_comm]
    · have hne : j ≠ i := fun he => hj (he ▸ rfl)
      simp [hj, hne]

theorem found_register (hq : Tracks l) (hp : Found l) (i : Instrument β) :
    Found (l.step (.register i)) ↔ LeavesToNobody l (.register i) := by
  constructor
  · intro h previous hprevious hmoves j hj hname hsame
    have hpair : ¬ (j.venue = i.venue ∧ j.venueSymbol = i.venueSymbol) := fun he =>
      hmoves ⟨he.1.symm.trans hsame.1, he.2.symm.trans hsame.2⟩
    have hget : (l.step (.register i)).manager.get j.internal = some j := by
      rw [Log.step, InstrumentManager.get_register, if_neg hname, hj]
    have hfound := h j hget
    rw [Log.step, InstrumentManager.getByVenue_register, if_neg hpair,
      if_pos ⟨previous, hprevious, hsame.1, hsame.2⟩, latest_concat, if_neg hpair] at hfound
    refine latest_ne_none (List.mem_filter.mpr ⟨(hq.held j).mpr hj, ?_⟩) hfound.symm
    exact decide_eq_true hname
  · intro h j hj
    rw [Log.step, InstrumentManager.getByVenue_register]
    by_cases hpair : j.venue = i.venue ∧ j.venueSymbol = i.venueSymbol
    · rw [if_pos hpair, latest_concat, if_pos hpair]
    · have hne : j ≠ i := by
        rintro rfl
        exact hpair ⟨rfl, rfl⟩
      rw [Log.step, InstrumentManager.get_register] at hj
      by_cases hname : j.internal = i.internal
      · rw [if_pos hname] at hj
        exact absurd (Option.some.inj hj).symm hne
      · rw [if_neg hname] at hj
        have hnobody : ¬ ∃ previous, l.manager.get i.internal = some previous ∧
            j.venue = previous.venue ∧ j.venueSymbol = previous.venueSymbol := by
          rintro ⟨previous, hprevious, hsame⟩
          refine h previous hprevious ?_ j hj hname hsame
          intro hi
          exact hpair ⟨hsame.1.trans hi.1.symm, hsame.2.trans hi.2.symm⟩
        rw [if_neg hpair, if_neg hnobody, latest_concat, if_neg hpair, hp j hj, latest_filter]
        intro x hx hvenue hsymbol
        refine decide_eq_true ?_
        intro hxname
        exact hnobody ⟨x, hxname ▸ (hq.held x).mp hx, hvenue.symm, hsymbol.symm⟩

/-- Each registered instrument is found, or the latest with its venue symbol, in every state
of a run exactly when no instrument moves away from a venue symbol that another one has. -/
theorem found_iff_leavesToNobody (ops : List (Op β)) :
    (run Log.step start (ops.flatMap registrations)).manager = run InstrumentManager.step .new ops ∧
      (Throughout Log.step Found start (ops.flatMap registrations) ↔
        Meets Log.step LeavesToNobody start (ops.flatMap registrations)) := by
  refine ⟨run_registrations ops, ?_⟩
  refine throughout_iff_meets (Q := Tracks) ?_ ?_ ?_ ?_ _
  · intro l r h
    exact tracks_step h r
  · intro l r hq hp
    cases r with
    | register i => exact found_register hq hp i
    | clear =>
      refine iff_of_true ?_ trivial
      intro i hi
      cases hi
  · exact tracks_start
  · intro i hi
    cases hi

def listed (internal venueSymbol : PyStr) : Instrument Unit :=
  ⟨internal, u "BINANCE___SPOT", venueSymbol, .spot, none, ()⟩

/-- The symbol `LUNAUSDT` goes from one name to another, and the first name gets a new symbol. -/
def moved : List (Op Unit) :=
  [.register (listed (u "LUNA-USDT") (u "LUNAUSDT")), .register (listed (u "LUNA2-USDT") (u "LUNAUSDT")),
    .register (listed (u "LUNA-USDT") (u "LUNCUSDT"))]

theorem holder_lost : ¬ Found (run Log.step start (moved.flatMap registrations)) := by
  intro h
  have hfound := h (listed (u "LUNA2-USDT") (u "LUNAUSDT"))
  revert hfound
  decide +kernel

end InstrumentHolders
