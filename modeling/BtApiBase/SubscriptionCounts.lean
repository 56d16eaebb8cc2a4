import BtApiBase.Subscriptions
import BtApiBase.PyIndexes
import BtApiBase.Runs

/-!
# Reference counts of symbols

Each operation of the subscription manager is a loop over symbols that moves one
count at a time. The count of a symbol is the number of strategies that hold it:
those that the operation is not about, and the one that it is about.
-/

namespace SubscriptionCounts

open PyText PyDict PyValue PyIndexes Runs Subscriptions

inductive Op where
  | add (strategyId : PyStr) (symbols : List PyStr)
  | remove (strategyId : PyStr) (symbols : List PyStr)
  | removeStrategy (strategyId : PyStr)

def call (m : SubscriptionManager) : Op → Except PyExc (List PyVal) × SubscriptionManager
  | .add strategyId symbols => Subscriptions.add m strategyId (symbols.map .str)
  | .remove strategyId symbols => Subscriptions.remove m strategyId (symbols.map .str)
  | .removeStrategy strategyId =>
    let r := Subscriptions.removeStrategy m strategyId
    (.ok r.1, r.2)

def step (m : SubscriptionManager) (op : Op) : SubscriptionManager := (call m op).2

def keyOf (symbol : PyStr) : PyKey := [.str symbol]

theorem keyOf_inj {s t : PyStr} : keyOf s = keyOf t ↔ s = t := by simp [keyOf]

/-- The strategies whose set contains the symbol. -/
def holders (m : SubscriptionManager) (symbol : PyStr) : List PyStr :=
  (getStrategies m).filter fun strategyId => holds m strategyId (keyOf symbol)

/-- What the operation reports: the symbols that it has made active, or has stopped
being so. -/
def Changed (m m' : SubscriptionManager) : Op → PyKey → Prop
  | .add _ _, k => ¬ Active m k ∧ Active m' k
  | _, k => Active m k ∧ ¬ Active m' k

/-! ## Counts -/

/-- An entry of the counts, which is left out at zero. -/
def countOf (n : Nat) : Option Int := if n = 0 then none else some n

theorem getD_countOf (n : Nat) : (countOf n).getD 0 = (n : Int) := by
  unfold countOf
  split
  · next h => rw [h]; rfl
  · rfl

theorem isSome_countOf (n : Nat) : (countOf n).isSome = true ↔ 0 < n := by
  unfold countOf
  split
  · next h => simp [h]
  · next h => simpa using Nat.pos_of_ne_zero h

/-- Whether a set contains a symbol, as a number. -/
def contained (held : Dict PyKey PyVal) (k : PyKey) : Nat := (held.get k).toList.length

/-- The counts are those of the other strategies and of this one. -/
def Counts (others : PyKey → Nat) (held : Dict PyKey PyVal) (counts : Dict PyKey Int) : Prop :=
  ∀ k, counts.get k = countOf (others k + contained held k)

/-- Every symbol in a set is a string under its own key. -/
def Texts (held : Dict PyKey PyVal) : Prop :=
  ∀ k x, held.get k = some x → ∃ s, k = keyOf s ∧ x = .str s

theorem contained_eq_one {held : Dict PyKey PyVal} {k : PyKey} (h : (held.get k).isSome = true) :
    contained held k = 1 := by
  obtain ⟨x, hx⟩ := Option.isSome_iff_exists.mp h
  simp [contained, hx]

theorem contained_eq_zero {held : Dict PyKey PyVal} {k : PyKey} (h : ¬ (held.get k).isSome = true) :
    contained held k = 0 := by
  rw [Option.not_isSome_iff_eq_none] at h
  simp [contained, h]

theorem contained_pop (held : Dict PyKey PyVal) (j k : PyKey) :
    contained (held.pop j) k = if k = j then 0 else contained held k := by
  unfold contained
  rw [Dict.get_pop]
  split <;> rfl

theorem texts_pop {held : Dict PyKey PyVal} (h : Texts held) (j : PyKey) : Texts (held.pop j) := by
  intro k x hk
  rw [Dict.get_pop] at hk
  split at hk
  · cases hk
  · exact h k x hk

/-- One count goes down. -/
theorem counts_down {others : PyKey → Nat} {held : Dict PyKey PyVal} {counts : Dict PyKey Int}
    (h : Counts others held counts) {j : PyKey} (hj : (held.get j).isSome = true) :
    Counts others (held.pop j)
      (if (counts.get j).getD 0 - 1 ≤ 0 then counts.pop j
        else counts.set j ((counts.get j).getD 0 - 1)) := by
  intro k
  have hcount : (counts.get j).getD 0 - 1 = (others j : Int) := by
    rw [h j, getD_countOf, contained_eq_one hj]
    omega
  rw [hcount, contained_pop]
  by_cases hk : k = j
  · subst hk
    split
    · next hle =>
      have hzero : others k = 0 := by omega
      rw [Dict.get_pop, if_pos rfl, if_pos rfl, hzero]
      rfl
    · next hlt =>
      have hpos : others k ≠ 0 := by omega
      rw [Dict.get_set_same, if_pos rfl, countOf, if_neg (by omega)]
      rfl
  · rw [if_neg hk]
    split
    · rw [Dict.get_pop, if_neg hk, h k]
    · rw [Dict.get_set, if_neg hk, h k]

/-- One count goes up. -/
theorem counts_up {others : PyKey → Nat} {held : Dict PyKey PyVal} {counts : Dict PyKey Int}
    (h : Counts others held counts) {j : PyKey} (hj : ¬ (held.get j).isSome = true) (symbol : PyVal) :
    Counts others (held.set j symbol) (counts.set j ((counts.get j).getD 0 + 1)) := by
  intro k
  have hcount : (counts.get j).getD 0 + 1 = ((others j + 1 : Nat) : Int) := by
    rw [h j, getD_countOf, contained_eq_zero hj]
    omega
  rw [hcount, Dict.get_set]
  unfold contained
  rw [Dict.get_set]
  by_cases hk : k = j
  · subst hk
    rw [if_pos rfl, if_pos rfl, countOf, if_neg (by simp)]
    rfl
  · rw [if_neg hk, if_neg hk, h k]
    rfl

theorem texts_set {held : Dict PyKey PyVal} (h : Texts held) (symbol : PyStr) :
    Texts (held.set (keyOf symbol) (.str symbol)) := by
  intro k x hk
  rw [Dict.get_set] at hk
  split at hk
  · next he => exact ⟨symbol, he, (Option.some.inj hk).symm⟩
  · exact h k x hk

/-! ## The loops -/

/-- What a loop that takes symbols away has left, and what it reports. -/
structure Dropped (others : PyKey → Nat) (counts : Dict PyKey Int) (gone : List PyVal)
    (held' : Dict PyKey PyVal) (counts' : Dict PyKey Int) : Prop where
  counted : Counts others held' counts'
  texts : Texts held'
  less : ∀ k, (counts'.get k).isSome = true → (counts.get k).isSome = true
  reported : ∀ x, x ∈ gone ↔
    ∃ s, x = .str s ∧ (counts.get (keyOf s)).isSome = true ∧ ¬ (counts'.get (keyOf s)).isSome = true

theorem Dropped.refl {others : PyKey → Nat} {held : Dict PyKey PyVal} {counts : Dict PyKey Int}
    (h : Counts others held counts) (ht : Texts held) : Dropped others counts [] held counts where
  counted := h
  texts := ht
  less _ hk := hk
  reported x := by
    constructor
    · intro hx
      cases hx
    · rintro ⟨s, -, hs, hn⟩
      exact absurd hs hn

/-- A loop that begins with a symbol of the set. -/
theorem Dropped.cons {others : PyKey → Nat} {held held' : Dict PyKey PyVal}
    {counts counts' : Dict PyKey Int} {gone : List PyVal} {symbol : PyStr}
    (h : Counts others held counts) (hs : (held.get (keyOf symbol)).isSome = true)
    (hd : Dropped others (if (counts.get (keyOf symbol)).getD 0 - 1 ≤ 0 then counts.pop (keyOf symbol)
      else counts.set (keyOf symbol) ((counts.get (keyOf symbol)).getD 0 - 1)) gone held' counts') :
    Dropped others counts
      (if (counts.get (keyOf symbol)).getD 0 - 1 ≤ 0 then .str symbol :: gone else gone) held' counts' := by
  have hcounted : (counts.get (keyOf symbol)).isSome = true := by
    rw [h, isSome_countOf, contained_eq_one hs]
    omega
  by_cases hlast : (counts.get (keyOf symbol)).getD 0 - 1 ≤ 0
  · rw [if_pos hlast] at hd ⊢
    have hgone : ¬ (counts'.get (keyOf symbol)).isSome = true := by
      intro hk
      have hless := hd.less _ hk
      rw [Dict.get_pop, if_pos rfl] at hless
      cases hless
    refine ⟨hd.counted, hd.texts, fun k hk => ?_, fun x => ?_⟩
    · have hless := hd.less k hk
      rw [Dict.get_pop] at hless
      split at hless
      · cases hless
      · exact hless
    · rw [List.mem_cons, hd.reported]
      constructor
      · rintro (rfl | ⟨s, rfl, hc, hn⟩)
        · exact ⟨symbol, rfl, hcounted, hgone⟩
        · rw [Dict.get_pop] at hc
          split at hc
          · cases hc
          · exact ⟨s, rfl, hc, hn⟩
      · rintro ⟨s, rfl, hc, hn⟩
        by_cases he : s = symbol
        · exact .inl (by rw [he])
        · refine .inr ⟨s, rfl, ?_, hn⟩
          have hne : keyOf s ≠ keyOf symbol := fun hk => he (keyOf_inj.mp hk)
          rw [Dict.get_pop, if_neg hne]
          exact hc
  · rw [if_neg hlast] at hd ⊢
    have hsame : ∀ k, ((counts.set (keyOf symbol) ((counts.get (keyOf symbol)).getD 0 - 1)).get k).isSome = true ↔
        (counts.get k).isSome = true := by
      intro k
      rw [Dict.get_set]
      split
      · next hk => simp [hk, hcounted]
      · rfl
    refine ⟨hd.counted, hd.texts, fun k hk => (hsame k).mp (hd.less k hk), fun x => ?_⟩
    rw [hd.reported]
    simp only [hsame]

theorem dropped_drop {others : PyKey → Nat} {held : Dict PyKey PyVal} {counts : Dict PyKey Int}
    (h : Counts others held counts) (ht : Texts held) (symbols : List PyStr) :
    ∃ gone, (Subscriptions.drop held counts (symbols.map .str)).1 = .ok gone ∧
      Dropped others counts gone (Subscriptions.drop held counts (symbols.map .str)).2.1
        (Subscriptions.drop held counts (symbols.map .str)).2.2 := by
  induction symbols generalizing held counts with
  | nil => exact ⟨[], rfl, .refl h ht⟩
  | cons symbol symbols ih =>
    have hkey : key? (.str symbol) = some (keyOf symbol) := rfl
    rw [List.map_cons, Subscriptions.drop, hkey]
    dsimp only
    by_cases hs : (held.get (keyOf symbol)).isSome = true
    · rw [if_pos hs]
      obtain ⟨gone, hok, hd⟩ := ih (counts_down h hs) (texts_pop ht (keyOf symbol))
      have hcons := Dropped.cons h hs hd
      by_cases hlast : (counts.get (keyOf symbol)).getD 0 - 1 ≤ 0
      · simp only [if_pos hlast] at hok hcons ⊢
        exact ⟨.str symbol :: gone, by rw [hok]; rfl, hcons⟩
      · simp only [if_neg hlast] at hok hcons ⊢
        exact ⟨gone, hok, hcons⟩
    · rw [if_neg hs]
      exact ih h ht

theorem dropped_release {others : PyKey → Nat} {held : Dict PyKey PyVal} {counts : Dict PyKey Int}
    (h : Counts others held counts) (ht : Texts held) :
    Dropped others counts (release counts held.items).1 .empty (release counts held.items).2 := by
  obtain ⟨items, hn⟩ := held
  dsimp only
  induction items generalizing counts with
  | nil => exact .refl h ht
  | cons entry items ih =>
    obtain ⟨k, x⟩ := entry
    have hget : Dict.get ⟨(k, x) :: items, hn⟩ k = some x := Dict.get_of_mem _ List.mem_cons_self
    obtain ⟨symbol, rfl, rfl⟩ := ht k x hget
    have hs : (Dict.get ⟨(keyOf symbol, .str symbol) :: items, hn⟩ (keyOf symbol)).isSome = true := by
      rw [hget]
      rfl
    have hrest : Dict.pop ⟨(keyOf symbol, .str symbol) :: items, hn⟩ (keyOf symbol) =
        ⟨items, (List.nodup_cons.mp hn).2⟩ := by
      have hother : ∀ e ∈ items, e.1 ≠ keyOf symbol := fun e he hk =>
        (List.nodup_cons.mp hn).1 (List.mem_map.mpr ⟨e, he, hk⟩)
      simp only [Dict.pop, PyDict.drop, Dict.mk.injEq, List.filter_cons, beq_self_eq_true,
        Bool.not_true, Bool.false_eq_true, if_false]
      exact List.filter_eq_self.mpr fun e he => by simpa using hother e he
    have hcons := Dropped.cons h hs
      (ih (List.nodup_cons.mp hn).2 (hrest ▸ counts_down h hs) (hrest ▸ texts_pop ht (keyOf symbol)))
    rw [release]
    by_cases hlast : (counts.get (keyOf symbol)).getD 0 - 1 ≤ 0
    · simp only [if_pos hlast] at hcons ⊢
      exact hcons
    · simp only [if_neg hlast] at hcons ⊢
      exact hcons

/-! ## The invariant -/

/-- How many strategies hold the symbol. -/
def total (m : SubscriptionManager) (k : PyKey) : Nat :=
  m._strategySymbols.values.countP fun held => (held.get k).isSome

/-- How many strategies other than this one do. -/
def othersOf (m : SubscriptionManager) (strategyId : PyStr) (k : PyKey) : Nat :=
  (m._strategySymbols.pop strategyId).values.countP fun held => (held.get k).isSome

structure Counted (m : SubscriptionManager) : Prop where
  counts : ∀ k, m._refCounts.get k = countOf (total m k)
  texts : ∀ strategyId, Texts (symbolsOf m strategyId)
  nonempty : ∀ strategyId held, m._strategySymbols.get strategyId = some held → held.items ≠ []

theorem total_eq (m : SubscriptionManager) (strategyId : PyStr) (k : PyKey) :
    total m k = othersOf m strategyId k + contained (symbolsOf m strategyId) k := by
  unfold total othersOf
  rw [← countP_values_pop m._strategySymbols strategyId]
  congr 1
  unfold symbolsOf contained
  cases m._strategySymbols.get strategyId with
  | none => rfl
  | some held => cases hk : held.get k <;> simp [hk]

theorem total_set (m : SubscriptionManager) (strategyId : PyStr) (held : Dict PyKey PyVal)
    (counts : Dict PyKey Int) (k : PyKey) :
    total ⟨m._strategySymbols.set strategyId held, counts⟩ k =
      othersOf m strategyId k + contained held k := by
  have hset := countP_values_set m._strategySymbols strategyId held fun d => (d.get k).isSome
  have hpop := countP_values_pop m._strategySymbols strategyId fun d => (d.get k).isSome
  have hone : [held].countP (fun d => (d.get k).isSome) = contained held k := by
    unfold contained
    cases hk : held.get k <;> simp [hk]
  unfold total othersOf
  dsimp only
  omega

theorem total_pop (m : SubscriptionManager) (strategyId : PyStr) (counts : Dict PyKey Int) (k : PyKey) :
    total ⟨m._strategySymbols.pop strategyId, counts⟩ k = othersOf m strategyId k := rfl

theorem Counted.countsOf {m : SubscriptionManager} (h : Counted m) (strategyId : PyStr) :
    Counts (othersOf m strategyId) (symbolsOf m strategyId) m._refCounts := by
  intro k
  rw [h.counts, total_eq m strategyId]

/-- The set of one strategy is replaced, and the counts follow. -/
theorem Counted.put {m : SubscriptionManager} (h : Counted m) {strategyId : PyStr}
    {held : Dict PyKey PyVal} {counts : Dict PyKey Int}
    (hc : Counts (othersOf m strategyId) held counts) (ht : Texts held) (hne : held.items ≠ []) :
    Counted ⟨m._strategySymbols.set strategyId held, counts⟩ where
  counts k := by rw [total_set]; exact hc k
  texts sid := by
    unfold symbolsOf
    rw [Dict.get_set]
    split
    · exact ht
    · exact h.texts sid
  nonempty sid held' hget := by
    rw [Dict.get_set] at hget
    split at hget
    · exact Option.some.inj hget ▸ hne
    · exact h.nonempty sid held' hget

/-- One strategy is left out, and the counts are those of the others. -/
theorem Counted.leave {m : SubscriptionManager} (h : Counted m) {strategyId : PyStr}
    {held : Dict PyKey PyVal} {counts : Dict PyKey Int}
    (hc : Counts (othersOf m strategyId) held counts) (he : held.items = []) :
    Counted ⟨m._strategySymbols.pop strategyId, counts⟩ where
  counts k := by
    have hnone : contained held k = 0 := by simp [contained, Dict.get, he]
    rw [total_pop, hc k, hnone, Nat.add_zero]
  texts sid := by
    unfold symbolsOf
    rw [Dict.get_pop]
    split
    · intro k x hk
      cases hk
    · exact h.texts sid
  nonempty sid held' hget := by
    rw [Dict.get_pop] at hget
    split at hget
    · cases hget
    · exact h.nonempty sid held' hget

theorem counted_empty : Counted Subscriptions.empty where
  counts _ := rfl
  texts _ k x hk := by cases hk
  nonempty _ _ hget := by cases hget

theorem Counted.active {m : SubscriptionManager} (h : Counted m) (k : PyKey) :
    Active m k ↔ 0 < total m k := by
  rw [active_iff, h.counts, isSome_countOf]

theorem Counted.hold {m : SubscriptionManager} (h : Counted m) {strategyId symbol : PyStr}
    (hn : holds m strategyId (keyOf symbol) = false) :
    Counted (hold m strategyId (keyOf symbol) (.str symbol)) := by
  have hnot : ¬ ((symbolsOf m strategyId).get (keyOf symbol)).isSome = true := by
    rw [← holds, hn]
    exact Bool.false_ne_true
  refine h.put (counts_up (h.countsOf strategyId) hnot _) (texts_set (h.texts strategyId) symbol) ?_
  intro hempty
  have hget := Dict.get_set_same (symbolsOf m strategyId) (keyOf symbol) (.str symbol)
  rw [get_of_isEmpty (List.isEmpty_iff.mpr hempty)] at hget
  cases hget

/-! ## The operations -/

/-- The first to hold a symbol brings its count to one. -/
theorem Counted.first_iff {m : SubscriptionManager} (h : Counted m) (k : PyKey) :
    ((m._refCounts.get k).getD 0 + 1 == 1) = true ↔ ¬ Active m k := by
  rw [h.active, h.counts, getD_countOf]
  simp

theorem counted_add {m : SubscriptionManager} (h : Counted m) (strategyId : PyStr)
    (symbols : List PyStr) :
    ∃ newly, (Subscriptions.add m strategyId (symbols.map .str)).1 = .ok newly ∧
      Counted (Subscriptions.add m strategyId (symbols.map .str)).2 ∧
      ∀ x, x ∈ newly ↔ ∃ s, x = .str s ∧ ¬ Active m (keyOf s) ∧
        Active (Subscriptions.add m strategyId (symbols.map .str)).2 (keyOf s) := by
  induction symbols generalizing m with
  | nil =>
    refine ⟨[], rfl, h, fun x => ?_⟩
    constructor
    · intro hx
      cases hx
    · rintro ⟨s, -, hn, ha⟩
      exact absurd ha hn
  | cons symbol symbols ih =>
    have hkey : key? (.str symbol) = some (keyOf symbol) := rfl
    rw [List.map_cons, Subscriptions.add, hkey]
    dsimp only
    by_cases hs : holds m strategyId (keyOf symbol) = true
    · rw [if_pos hs]
      exact ih h
    · rw [if_neg hs]
      obtain ⟨newly, hok, hcounted, hmem⟩ := ih (h.hold (Bool.not_eq_true _ ▸ hs))
      have hactive : Active (Subscriptions.add (Subscriptions.hold m strategyId (keyOf symbol) (.str symbol))
          strategyId (symbols.map .str)).2 (keyOf symbol) := by
        rw [active_add, active_hold]
        exact .inl (.inl rfl)
      simp only [active_hold, not_or, keyOf_inj] at hmem
      rw [hok]
      refine ⟨_, rfl, hcounted, fun x => ?_⟩
      dsimp only
      by_cases hfirst : ¬ Active m (keyOf symbol)
      · rw [if_pos ((h.first_iff _).mpr hfirst), List.mem_cons, hmem]
        constructor
        · rintro (rfl | ⟨s, rfl, ⟨-, hn⟩, ha⟩)
          · exact ⟨symbol, rfl, hfirst, hactive⟩
          · exact ⟨s, rfl, hn, ha⟩
        · rintro ⟨s, rfl, hn, ha⟩
          by_cases he : s = symbol
          · exact .inl (by rw [he])
          · exact .inr ⟨s, rfl, ⟨he, hn⟩, ha⟩
      · rw [if_neg (mt (h.first_iff _).mp hfirst), hmem]
        constructor
        · rintro ⟨s, rfl, ⟨-, hn⟩, ha⟩
          exact ⟨s, rfl, hn, ha⟩
        · rintro ⟨s, rfl, hn, ha⟩
          exact ⟨s, rfl, ⟨fun he => hfirst (he ▸ hn), hn⟩, ha⟩

theorem counted_remove {m : SubscriptionManager} (h : Counted m) (strategyId : PyStr)
    (symbols : List PyStr) :
    ∃ gone, (Subscriptions.remove m strategyId (symbols.map .str)).1 = .ok gone ∧
      Counted (Subscriptions.remove m strategyId (symbols.map .str)).2 ∧
      ∀ x, x ∈ gone ↔ ∃ s, x = .str s ∧ Active m (keyOf s) ∧
        ¬ Active (Subscriptions.remove m strategyId (symbols.map .str)).2 (keyOf s) := by
  unfold Subscriptions.remove
  cases hget : m._strategySymbols.get strategyId with
  | none =>
    refine ⟨[], rfl, h, fun x => ?_⟩
    constructor
    · intro hx
      cases hx
    · rintro ⟨s, -, ha, hn⟩
      exact absurd ha hn
  | some held =>
    have hheld : symbolsOf m strategyId = held := by rw [symbolsOf, hget]; rfl
    obtain ⟨gone, hok, hd⟩ := dropped_drop (hheld ▸ h.countsOf strategyId) (hheld ▸ h.texts strategyId) symbols
    refine ⟨gone, hok, ?_, ?_⟩
    · simp only [hok, Except.toOption, Option.isSome_some, Bool.true_and]
      split
      · next he => exact h.leave hd.counted (List.isEmpty_iff.mp he)
      · next he => exact h.put hd.counted hd.texts fun hn => he (List.isEmpty_iff.mpr hn)
    · intro x
      rw [hd.reported]
      simp only [active_iff]

theorem counted_removeStrategy {m : SubscriptionManager} (h : Counted m) (strategyId : PyStr) :
    Counted (Subscriptions.removeStrategy m strategyId).2 ∧
      ∀ x, x ∈ (Subscriptions.removeStrategy m strategyId).1 ↔ ∃ s, x = .str s ∧ Active m (keyOf s) ∧
        ¬ Active (Subscriptions.removeStrategy m strategyId).2 (keyOf s) := by
  have hd := dropped_release (h.countsOf strategyId) (h.texts strategyId)
  unfold Subscriptions.removeStrategy
  constructor
  · exact h.leave hd.counted rfl
  · intro x
    rw [hd.reported]
    simp only [active_iff]

/-- Every operation keeps the counts and reports what it changes. -/
theorem counted_step {m : SubscriptionManager} (h : Counted m) (op : Op) :
    ∃ returned, (call m op).1 = .ok returned ∧ Counted (step m op) ∧
      ∀ x, x ∈ returned ↔ ∃ s, x = .str s ∧ Changed m (step m op) op (keyOf s) := by
  cases op with
  | add strategyId symbols => exact counted_add h strategyId symbols
  | remove strategyId symbols => exact counted_remove h strategyId symbols
  | removeStrategy strategyId => exact ⟨_, rfl, counted_removeStrategy h strategyId⟩

theorem counted_run (ops : List Op) : Counted (run step Subscriptions.empty ops) := by
  refine run_induction (P := Counted) (fun m op h => ?_) counted_empty ops
  obtain ⟨-, -, hkept, -⟩ := counted_step h op
  exact hkept

/-! ## What the queries say -/

theorem length_holders (m : SubscriptionManager) (symbol : PyStr) :
    (holders m symbol).length = total m (keyOf symbol) := by
  unfold holders total getStrategies Dict.keys Dict.values
  rw [← List.countP_eq_length_filter, List.countP_map, List.countP_map]
  refine List.countP_congr fun entry hentry => ?_
  have hget : m._strategySymbols.get entry.1 = some entry.2 := Dict.get_of_mem _ hentry
  simp [holds, symbolsOf, hget]

theorem Counted.refCount {m : SubscriptionManager} (h : Counted m) (symbol : PyStr) :
    refCount m (.str symbol) = (holders m symbol).length := by
  have hkey : key? (.str symbol) = some (keyOf symbol) := rfl
  rw [length_holders, Subscriptions.refCount, hkey, Option.bind_some, h.counts, getD_countOf]

/-- Only strings are active. -/
theorem Counted.text_of_active {m : SubscriptionManager} (h : Counted m) {k : PyKey} (hk : Active m k) :
    ∃ s, k = keyOf s := by
  rw [h.active, total, List.countP_pos_iff] at hk
  obtain ⟨held, hheld, hsome⟩ := hk
  obtain ⟨⟨sid, held⟩, hentry, rfl⟩ := List.mem_map.mp hheld
  obtain ⟨x, hx⟩ := Option.isSome_iff_exists.mp hsome
  have hget : symbolsOf m sid = held := by rw [symbolsOf, Dict.get_of_mem _ hentry]; rfl
  obtain ⟨s, hs, -⟩ := h.texts sid k x (hget ▸ hx)
  exact ⟨s, hs⟩

theorem Counted.active_iff_pos {m : SubscriptionManager} (h : Counted m) (k : PyKey) :
    Active m k ↔ ∃ s, k = keyOf s ∧ 0 < Subscriptions.refCount m (.str s) := by
  constructor
  · intro hk
    obtain ⟨s, rfl⟩ := h.text_of_active hk
    rw [h.active] at hk
    refine ⟨s, rfl, ?_⟩
    rw [h.refCount, length_holders]
    omega
  · rintro ⟨s, rfl, hs⟩
    rw [h.refCount, length_holders] at hs
    rw [h.active]
    omega

theorem Counted.holds_some {m : SubscriptionManager} (h : Counted m) {strategyId : PyStr}
    (hs : strategyId ∈ getStrategies m) : ∃ s, holds m strategyId (keyOf s) = true := by
  obtain ⟨held, hget⟩ := Option.isSome_iff_exists.mp ((Dict.mem_keys _ _).mp hs)
  obtain ⟨⟨k, x⟩, hmem⟩ := List.exists_mem_of_ne_nil _ (h.nonempty strategyId held hget)
  have hheld : symbolsOf m strategyId = held := by rw [symbolsOf, hget]; rfl
  have hk : (symbolsOf m strategyId).get k = some x := by rw [hheld, Dict.get_of_mem _ hmem]
  obtain ⟨s, rfl, -⟩ := h.texts strategyId k x hk
  exact ⟨s, by rw [holds, hk]; rfl⟩

/-- After every sequence of operations the counts are the numbers of holders, and the
next operation reports exactly what it makes active or stops being so. -/
theorem symbols_are_counted (ops : List Op) (op : Op) :
    let m := run step Subscriptions.empty ops
    (∀ s, refCount m (.str s) = (holders m s).length) ∧
    (∀ k, Active m k ↔ ∃ s, k = keyOf s ∧ 0 < refCount m (.str s)) ∧
    (∀ strategyId ∈ getStrategies m, ∃ s, holds m strategyId (keyOf s) = true) ∧
    ∃ returned, (call m op).1 = .ok returned ∧
      ∀ x, x ∈ returned ↔ ∃ s, x = .str s ∧ Changed m (step m op) op (keyOf s) := by
  intro m
  have h := counted_run ops
  obtain ⟨returned, hok, -, hreturned⟩ := counted_step h op
  exact ⟨h.refCount, h.active_iff_pos, fun _ hs => h.holds_some hs, returned, hok, hreturned⟩

end SubscriptionCounts
