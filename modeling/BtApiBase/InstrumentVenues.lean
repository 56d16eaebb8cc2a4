import BtApiBase.InstrumentIndexes

/-!
# Which venue symbols resolve

An internal name that is derived from a venue symbol stands for all venues that
have such a symbol, and the manager keeps one instrument for it. A venue symbol
resolves as long as the last instrument with its internal name is its own.
-/

namespace InstrumentVenues

open PyText PyDict PyValue Runs Instruments InstrumentIndexes

variable {β : Type}

def BuiltFromVenue (py : Interp) (i : Instrument β) : Prop :=
  ∃ venue venueSymbol assetType underlying others,
    i = fromVenue py venue venueSymbol assetType underlying others

/-- The instruments registered since the last `clear`, in order. -/
def recorded (earlier : List (Instrument β)) : Op β → List (Instrument β)
  | .register i => earlier ++ [i]
  | .registerMany is => earlier ++ is
  | .clear => []

def history (ops : List (Op β)) : List (Instrument β) := ops.foldl recorded []

def SamePair (i j : Instrument β) : Prop := j.venue = i.venue ∧ j.venueSymbol = i.venueSymbol

/-- Each pair that was registered leads to the instrument registered last for it. -/
def AllResolve (ops : List (Op β)) : Prop :=
  ∀ pre i post, history ops = pre ++ i :: post → (∀ j ∈ post, ¬ SamePair i j) →
    (run InstrumentManager.step .new ops).getByVenue i.venue i.venueSymbol = some i ∧
      (run InstrumentManager.step .new ops).toInternal i.venue i.venueSymbol = some i.internal

/-! ## The state after a history -/

variable {m : InstrumentManager β}

theorem registerMany_append (is js : List (Instrument β)) :
    m.registerMany (is ++ js) = (m.registerMany is).registerMany js := List.foldl_append

/-- A manager is known by its history. -/
theorem run_eq_registerMany (ops : List (Op β)) :
    run InstrumentManager.step .new ops = InstrumentManager.registerMany .new (history ops) := by
  have hstep : ∀ (h : List (Instrument β)) (op : Op β),
      (InstrumentManager.registerMany .new h).step op = InstrumentManager.registerMany .new (recorded h op) := by
    intro h op
    cases op with
    | register i => exact (registerMany_append h [i]).symm
    | registerMany is => exact (registerMany_append h is).symm
    | clear => rfl
  have hrun : ∀ h : List (Instrument β), run InstrumentManager.step (InstrumentManager.registerMany .new h) ops =
      InstrumentManager.registerMany .new (ops.foldl recorded h) := by
    induction ops with
    | nil => exact fun _ => rfl
    | cons op ops ih =>
      intro h
      rw [run_cons, hstep, ih, List.foldl_cons]
  exact hrun []

theorem get_registerMany_of_not_mem {x : PyStr} {is : List (Instrument β)} (h : ∀ i ∈ is, i.internal ≠ x) :
    (m.registerMany is).get x = m.get x := by
  induction is generalizing m with
  | nil => rfl
  | cons i is ih =>
    have hrest := ih (m := m.register i) fun j hj => h j (List.mem_cons_of_mem _ hj)
    rw [InstrumentManager.get_register, if_neg fun he => h i List.mem_cons_self he.symm] at hrest
    exact hrest

theorem get_registerMany_of_mem {x : PyStr} {is : List (Instrument β)} (h : ∃ i ∈ is, i.internal = x) :
    ∃ i ∈ is, i.internal = x ∧ (m.registerMany is).get x = some i := by
  induction is generalizing m with
  | nil => simp at h
  | cons i is ih =>
    by_cases hlater : ∃ j ∈ is, j.internal = x
    · obtain ⟨j, hj, hx, hget⟩ := ih (m := m.register i) hlater
      exact ⟨j, List.mem_cons_of_mem _ hj, hx, hget⟩
    · have hi : i.internal = x := by
        obtain ⟨j, hj, hx⟩ := h
        rcases List.mem_cons.mp hj with rfl | hj
        · exact hx
        · exact absurd ⟨j, hj, hx⟩ hlater
      have hget := get_registerMany_of_not_mem (m := m.register i) fun j hj hx => hlater ⟨j, hj, hx⟩
      rw [InstrumentManager.get_register, if_pos hi.symm] at hget
      exact ⟨i, List.mem_cons_self, hi, hget⟩

/-! ## Names derived from venue symbols -/

def symbolName (py : Interp) (venueSymbol : PyStr) : PyStr := makeInternal py [] venueSymbol .spot

theorem internal_eq_symbolName {py : Interp} {i : Instrument β} (h : BuiltFromVenue py i) :
    i.internal = symbolName py i.venueSymbol := by
  obtain ⟨venue, venueSymbol, assetType, underlying, others, rfl⟩ := h
  rfl

/-- A pair leads to the instrument that has the name of its venue symbol, if this is the
pair's own. -/
structure Resolves (py : Interp) (m : InstrumentManager β) : Prop where
  consistent : Consistent m
  named : ∀ x i, m.get x = some i → i.internal = symbolName py i.venueSymbol
  lookups : ∀ v s, m.getByVenue v s =
    (m.get (symbolName py s)).filter fun i => i.venue = v ∧ i.venueSymbol = s

theorem resolves_new (py : Interp) : Resolves py (.new : InstrumentManager β) where
  consistent := consistent_new
  named _ _ h := by cases h
  lookups _ _ := rfl

theorem resolves_register {py : Interp} (h : Resolves py m) {i : Instrument β}
    (hi : BuiltFromVenue py i) : Resolves py (m.register i) where
  consistent := consistent_register h.consistent i
  named x j hj := by
    rw [InstrumentManager.get_register] at hj
    split at hj
    · rw [← Option.some.inj hj]
      exact internal_eq_symbolName hi
    · exact h.named x j hj
  lookups v s := by
    have hname := internal_eq_symbolName hi
    rw [InstrumentManager.getByVenue_register, InstrumentManager.get_register]
    by_cases hpair : v = i.venue ∧ s = i.venueSymbol
    · rw [if_pos hpair, hpair.2, if_pos hname.symm]
      simp [hpair.1, Option.filter_some]
    · have hother : ¬ (i.venue = v ∧ i.venueSymbol = s) := fun he => hpair ⟨he.1.symm, he.2.symm⟩
      rw [if_neg hpair]
      by_cases hprev : ∃ p, m.get i.internal = some p ∧ v = p.venue ∧ s = p.venueSymbol
      · obtain ⟨p, hp, rfl, rfl⟩ := hprev
        have hsame : symbolName py p.venueSymbol = i.internal :=
          (h.named _ p hp).symm.trans (h.consistent.names _ p hp)
        rw [if_pos ⟨p, hp, rfl, rfl⟩, if_pos hsame]
        simp [hother, Option.filter_some]
      · rw [if_neg hprev, h.lookups]
        by_cases hs : symbolName py s = i.internal
        · rw [if_pos hs, hs]
          cases hget : m.get i.internal with
          | none => simp [hother, Option.filter_some]
          | some p =>
            have hp : ¬ (p.venue = v ∧ p.venueSymbol = s) := fun he => hprev ⟨p, hget, he.1.symm, he.2.symm⟩
            simp [hother, hp, Option.filter_some]
        · rw [if_neg hs]

theorem resolves_registerMany {py : Interp} (h : Resolves py m) {is : List (Instrument β)}
    (his : ∀ i ∈ is, BuiltFromVenue py i) : Resolves py (m.registerMany is) := by
  induction is generalizing m with
  | nil => exact h
  | cons i is ih =>
    exact ih (resolves_register h (his i List.mem_cons_self)) fun j hj => his j (List.mem_cons_of_mem _ hj)

/-- The instrument registered last for a pair is found under it as long as no other one
has come with the same internal name; then the manager keeps that one, and the pair leads
nowhere. -/
theorem resolves_until_named_again (py : Interp) (ops : List (Op β))
    (hbuilt : ∀ i ∈ history ops, BuiltFromVenue py i) (pre post : List (Instrument β))
    (i : Instrument β) (hsplit : history ops = pre ++ i :: post) (hlast : ∀ j ∈ post, ¬ SamePair i j) :
    let m := run InstrumentManager.step .new ops
    ((∀ j ∈ post, j.internal ≠ i.internal) →
      m.getByVenue i.venue i.venueSymbol = some i ∧
        m.toInternal i.venue i.venueSymbol = some i.internal) ∧
    ((∃ j ∈ post, j.internal = i.internal) →
      (∃ j ∈ post, j.internal = i.internal ∧ m.get i.internal = some j) ∧
        m.getByVenue i.venue i.venueSymbol = none ∧ m.toInternal i.venue i.venueSymbol = none) := by
  intro m
  have hm : m = InstrumentManager.registerMany .new (history ops) := run_eq_registerMany ops
  have hresolves : Resolves py m := hm ▸ resolves_registerMany (resolves_new py) hbuilt
  have hname : symbolName py i.venueSymbol = i.internal := by
    refine (internal_eq_symbolName (hbuilt i ?_)).symm
    rw [hsplit]
    exact List.mem_append_right _ List.mem_cons_self
  have hstate : m = ((InstrumentManager.registerMany .new pre).register i).registerMany post := by
    rw [hm, hsplit, registerMany_append]
    rfl
  have hlookup := hresolves.lookups i.venue i.venueSymbol
  rw [hname] at hlookup
  simp only [InstrumentManager.toInternal, hlookup]
  constructor
  · intro hnone
    have hget : m.get i.internal = some i := by
      rw [hstate, get_registerMany_of_not_mem hnone, InstrumentManager.get_register, if_pos rfl]
    simp [hget, Option.filter_some]
  · intro hagain
    obtain ⟨j, hj, hnamed, hget⟩ :=
      get_registerMany_of_mem (m := (InstrumentManager.registerMany .new pre).register i) hagain
    rw [← hstate] at hget
    have hother : ¬ (j.venue = i.venue ∧ j.venueSymbol = i.venueSymbol) := hlast j hj
    refine ⟨⟨j, hj, hnamed, hget⟩, ?_⟩
    simp [hget, hother, Option.filter_some]

def binance : Instrument Unit := fromVenue .ascii (u "BINANCE___SPOT") (u "BTCUSDT") .spot none ()

def okx : Instrument Unit := fromVenue .ascii (u "OKX___SPOT") (u "BTC-USDT") .spot none ()

/-- The second instrument is `BTC-USDT` as well. -/
theorem resolves_until_named_again_binance :
    (∃ j ∈ [okx], j.internal = binance.internal ∧
        (run InstrumentManager.step .new [.register binance, .registerMany [okx]]).get binance.internal = some j) ∧
      (run InstrumentManager.step .new [.register binance, .registerMany [okx]]).getByVenue
        (u "BINANCE___SPOT") (u "BTCUSDT") = none := by
  have h := resolves_until_named_again Interp.ascii [.register binance, .registerMany [okx]]
    (by
      intro i hi
      rcases List.mem_cons.mp hi with rfl | hi
      · exact ⟨_, _, _, _, _, rfl⟩
      · rw [List.mem_singleton.mp hi]
        exact ⟨_, _, _, _, _, rfl⟩)
    [] [okx] binance rfl (by unfold SamePair; decide)
  obtain ⟨hkept, hvenue, -⟩ := h.2 ⟨okx, List.mem_singleton_self _, by decide⟩
  exact ⟨hkept, hvenue⟩

theorem venue_symbol_lost : ¬ AllResolve [.register binance, .registerMany [okx]] := by
  intro h
  have hbinance := (h [] binance [okx] rfl (by unfold SamePair; decide)).1
  revert hbinance
  decide +kernel

end InstrumentVenues
