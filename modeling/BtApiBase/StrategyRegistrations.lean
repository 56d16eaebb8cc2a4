import BtApiBase.RuntimeSubscriptions

/-!
# The two ways to register a strategy

With a connected adapter the symbols of a registration are made strings, empty
ones are left out and the rest is added. Without one the list is added as it
came and sorted afterwards. The two agree on lists of nonempty strings, and on
others only where the strategy holds already what makes them differ.
-/

namespace StrategyRegistrations

open PyText PyDict PyValue Effects Subscriptions
open RuntimeRemote hiding symbolsOf
open RuntimeSubscriptions (Accepts exec_requestSymbols exec_addSymbols add_texts)

/-! ## Handling a registration -/

def registration (sid : PyStr) (symbols : List PyVal) : PyMap :=
  [(.str "strategy_id", .str sid), (.str "symbols", .list symbols)]

/-- `register_strategy`, handled with the adapter connected or not. -/
def handled (env : Env) (connected : Bool) (sid : PyStr) (symbols : List PyVal) (s : GatewayRuntime) :
    Except PyExc PyVal × GatewayRuntime :=
  exec (_dispatch env "register_strategy" (registration sid symbols)) { s with _adapterConnected := connected }

/-- Equality of the managers as Python compares them: the same strategies, sets
with the same elements and the same counts. -/
structure Same (m m' : SubscriptionManager) : Prop where
  strategies : ∀ sid, (m._strategySymbols.get sid).isSome = (m'._strategySymbols.get sid).isSome
  symbols : ∀ sid k, (symbolsOf m sid).get k = (symbolsOf m' sid).get k
  counts : ∀ k, m._refCounts.get k = m'._refCounts.get k

def counted (s : GatewayRuntime) : Nat × Nat := (s.health._strategyCount, s.health._symbolCount)

/-- Both ways lead to the same subscriptions and to an answer or an error alike,
and an error changes neither the subscriptions nor the counts. -/
structure Agree (env : Env) (sid : PyStr) (symbols : List PyVal) (s : GatewayRuntime) : Prop where
  same : Same (handled env false sid symbols s).2.subscriptions (handled env true sid symbols s).2.subscriptions
  outcome : (handled env false sid symbols s).1.isOk = (handled env true sid symbols s).1.isOk
  unchanged : ∀ connected, (handled env connected sid symbols s).1.isOk = false →
    (handled env connected sid symbols s).2.subscriptions = s.subscriptions ∧
      counted (handled env connected sid symbols s).2 = counted s

/-- Every element is a nonempty string or held already, so is every element as
a text, and the list can be sorted. -/
structure Alike (env : Env) (sid : PyStr) (symbols : List PyVal) (m : SubscriptionManager) : Prop where
  elements : ∀ x ∈ symbols, ∃ k, key? x = some k ∧ (holds m sid k = true ∨ ∃ t, x = .str t ∧ t ≠ [])
  texts : ∀ t ∈ symbolTexts env symbols, holds m sid [.str t] = true ∨ PyVal.str t ∈ symbols
  sortable : (sorted symbols).isOk = true

/-! ## What `add` makes of a list -/

section

variable {m : SubscriptionManager} {sid : PyStr} {symbols : List PyVal}

/-- A symbol of the list that the strategy did not hold. -/
def Gained (m : SubscriptionManager) (sid : PyStr) (symbols : List PyVal) (k : PyKey) : Prop :=
  holds m sid k = false ∧ ∃ x ∈ symbols, key? x = some k

structure Added (m m' : SubscriptionManager) (sid : PyStr) (symbols : List PyVal) : Prop where
  held : ∀ k, (symbolsOf m' sid).get k =
    ((symbolsOf m sid).get k).or (symbols.find? fun x => key? x == some k)
  gained : ∀ k, Gained m sid symbols k → m'._refCounts.get k = some ((m._refCounts.get k).getD 0 + 1)
  kept : ∀ k, ¬ Gained m sid symbols k → m'._refCounts.get k = m._refCounts.get k
  others : ∀ other, other ≠ sid → m'._strategySymbols.get other = m._strategySymbols.get other
  known : (m'._strategySymbols.get sid).isSome = true ↔
    (m._strategySymbols.get sid).isSome = true ∨ ∃ k, Gained m sid symbols k

theorem holds_iff (m : SubscriptionManager) (sid : PyStr) (k : PyKey) :
    holds m sid k = true ↔ ((symbolsOf m sid).get k).isSome = true := Iff.rfl

theorem gained_cons_of_holds {x : PyVal} {j : PyKey} (hx : key? x = some j) (h : holds m sid j = true) (k : PyKey) :
    Gained m sid (x :: symbols) k ↔ Gained m sid symbols k := by
  simp only [Gained, List.mem_cons, exists_eq_or_imp, hx, Option.some.injEq]
  constructor
  · rintro ⟨hk, rfl | hs⟩
    · rw [h] at hk
      cases hk
    · exact ⟨hk, hs⟩
  · exact fun ⟨hk, hs⟩ => ⟨hk, .inr hs⟩

theorem gained_cons_of_new {x : PyVal} {j : PyKey} (hx : key? x = some j) (h : holds m sid j = false) (k : PyKey) :
    Gained m sid (x :: symbols) k ↔ k = j ∨ Gained (hold m sid j x) sid symbols k := by
  have hh : holds (hold m sid j x) sid k = false ↔ k ≠ j ∧ holds m sid k = false := by
    rw [← Bool.not_eq_true, holds_hold, not_or, Bool.not_eq_true]
  simp only [Gained, List.mem_cons, exists_eq_or_imp, hx, Option.some.injEq, hh]
  by_cases hk : k = j
  · subst hk
    simp [h]
  · simp [hk, Ne.symm hk]

theorem not_gained_hold (m : SubscriptionManager) (sid : PyStr) (k : PyKey) (x : PyVal) (symbols : List PyVal) :
    ¬ Gained (hold m sid k x) sid symbols k := by
  intro hg
  have hheld := (holds_hold m sid k x k).mpr (.inl rfl)
  rw [hg.1] at hheld
  cases hheld

/-- A symbol that the strategy has changes nothing. -/
theorem Added.cons_held {m m' : SubscriptionManager} (ha : Added m m' sid symbols) {x : PyVal} {j : PyKey}
    (hx : key? x = some j) (hj : holds m sid j = true) : Added m m' sid (x :: symbols) := by
  refine ⟨fun k => ?_, ?_, ?_, ha.others, ?_⟩
  · rw [ha.held, List.find?_cons]
    by_cases hk : j = k
    · subst hk
      obtain ⟨y, hy⟩ := Option.isSome_iff_exists.mp hj
      simp [hy]
    · have hkey : (j == k) = false := beq_eq_false_iff_ne.mpr hk
      simp [hx, hkey]
  · intro k hg
    exact ha.gained k ((gained_cons_of_holds hx hj k).mp hg)
  · intro k hg
    exact ha.kept k fun hg' => hg ((gained_cons_of_holds hx hj k).mpr hg')
  · rw [ha.known]
    simp only [gained_cons_of_holds hx hj]

/-- A symbol that it has not is held before the others are added. -/
theorem Added.cons_new {m m' : SubscriptionManager} {x : PyVal} {j : PyKey}
    (ha : Added (hold m sid j x) m' sid symbols) (hx : key? x = some j) (hj : holds m sid j = false) :
    Added m m' sid (x :: symbols) := by
  have hcount : ∀ k, (hold m sid j x)._refCounts.get k =
      if k = j then some ((m._refCounts.get j).getD 0 + 1) else m._refCounts.get k := fun k => Dict.get_set ..
  have hset : ∀ k, (symbolsOf (hold m sid j x) sid).get k = if k = j then some x else (symbolsOf m sid).get k := by
    intro k
    simp only [symbolsOf, hold, Dict.get_set_same, Option.getD_some, Dict.get_set]
  refine ⟨fun k => ?_, ?_, ?_, ?_, ?_⟩
  · rw [ha.held, hset, List.find?_cons]
    by_cases hk : k = j
    · subst hk
      have hnone : (symbolsOf m sid).get k = none := by simpa [holds] using hj
      simp [hx, hnone]
    · have hkey : (j == k) = false := beq_eq_false_iff_ne.mpr (Ne.symm hk)
      simp [hx, hk, hkey]
  · intro k hg
    rcases (gained_cons_of_new hx hj k).mp hg with rfl | hg'
    · rw [ha.kept k (not_gained_hold m sid k x symbols), hcount, if_pos rfl]
    · have hne : k ≠ j := by
        rintro rfl
        exact not_gained_hold m sid k x symbols hg'
      rw [ha.gained k hg', hcount, if_neg hne]
  · intro k hg
    rw [gained_cons_of_new hx hj, not_or] at hg
    rw [ha.kept k hg.2, hcount, if_neg hg.1]
  · intro other hne
    rw [ha.others other hne]
    exact Dict.get_set_other _ _ hne
  · rw [ha.known]
    have hknown : ((hold m sid j x)._strategySymbols.get sid).isSome = true := by simp [hold]
    exact iff_of_true (.inl hknown) (.inr ⟨j, (gained_cons_of_new hx hj j).mpr (.inl rfl)⟩)

theorem added_add (m : SubscriptionManager) (sid : PyStr) (h : ∀ x ∈ symbols, (key? x).isSome = true) :
    Added m (add m sid symbols).2 sid symbols := by
  induction symbols generalizing m with
  | nil =>
    have hnone : ∀ k, ¬ Gained m sid [] k := fun k hg => by simp [Gained] at hg
    exact ⟨fun k => by simp [add], fun k hg => absurd hg (hnone k), fun _ _ => rfl, fun _ _ => rfl,
      by simp [add, hnone]⟩
  | cons x symbols ih =>
    obtain ⟨j, hx⟩ := Option.isSome_iff_exists.mp (h x (List.mem_cons_self ..))
    have htail : ∀ y ∈ symbols, (key? y).isSome = true := fun y hy => h y (List.mem_cons_of_mem x hy)
    cases hj : holds m sid j with
    | true =>
      have hadd : add m sid (x :: symbols) = add m sid symbols := by simp [add, hx, hj]
      rw [hadd]
      exact (ih m htail).cons_held hx hj
    | false =>
      have hadd : (add m sid (x :: symbols)).2 = (add (hold m sid j x) sid symbols).2 := by simp [add, hx, hj]
      rw [hadd]
      exact (ih (hold m sid j x) htail).cons_new hx hj

/-- What `add` reports are elements of the list that the strategy did not hold. -/
theorem add_outcome (m : SubscriptionManager) (sid : PyStr) (symbols : List PyVal) :
    (∀ x ∈ symbols, (key? x).isSome = true) ∧ (∃ newly, (add m sid symbols).1 = .ok newly ∧
        ∀ x ∈ newly, x ∈ symbols ∧ ∃ k, key? x = some k ∧ holds m sid k = false) ∨
      (∃ x ∈ symbols, key? x = none) ∧ ∃ e, (add m sid symbols).1 = .error e := by
  induction symbols generalizing m with
  | nil => exact .inl ⟨by simp, [], rfl, by simp⟩
  | cons x symbols ih =>
    cases hx : key? x with
    | none => exact .inr ⟨⟨x, List.mem_cons_self .., hx⟩, _, by simp [add, hx]; rfl⟩
    | some j =>
      have hall : (∀ y ∈ symbols, (key? y).isSome = true) → ∀ y ∈ x :: symbols, (key? y).isSome = true := by
        intro h y hy
        rcases List.mem_cons.mp hy with rfl | hy
        · simp [hx]
        · exact h y hy
      by_cases hj : holds m sid j = true
      · have hadd : add m sid (x :: symbols) = add m sid symbols := by simp [add, hx, hj]
        rw [hadd]
        rcases ih m with ⟨h, newly, hok, hnew⟩ | ⟨⟨y, hy, hnone⟩, herr⟩
        · exact .inl ⟨hall h, newly, hok, fun y hy => ⟨List.mem_cons_of_mem x (hnew y hy).1, (hnew y hy).2⟩⟩
        · exact .inr ⟨⟨y, List.mem_cons_of_mem x hy, hnone⟩, herr⟩
      · have hj' : holds m sid j = false := by simpa using hj
        have hadd : (add m sid (x :: symbols)).1 = (add (hold m sid j x) sid symbols).1.map fun newly =>
            if (m._refCounts.get j).getD 0 + 1 == 1 then x :: newly else newly := by simp [add, hx, hj']
        rw [hadd]
        rcases ih (hold m sid j x) with ⟨h, newly, hok, hnew⟩ | ⟨⟨y, hy, hnone⟩, e, herr⟩
        · refine .inl ⟨hall h, _, by rw [hok]; rfl, fun y hy => ?_⟩
          have hmem : y = x ∨ y ∈ newly := by
            split at hy
            · exact List.mem_cons.mp hy
            · exact .inr hy
          rcases hmem with rfl | hy
          · exact ⟨List.mem_cons_self .., j, hx, hj'⟩
          · obtain ⟨hin, k, hk, hnot⟩ := hnew y hy
            refine ⟨List.mem_cons_of_mem x hin, k, hk, ?_⟩
            rw [← Bool.not_eq_true, holds_hold, not_or, Bool.not_eq_true] at hnot
            exact hnot.2
        · exact .inr ⟨⟨y, List.mem_cons_of_mem x hy, hnone⟩, e, by rw [herr]; rfl⟩

theorem add_append (m : SubscriptionManager) (sid : PyStr) {xs : List PyVal} (ys : List PyVal)
    (h : ∀ x ∈ xs, (key? x).isSome = true) : (add m sid (xs ++ ys)).2 = (add (add m sid xs).2 sid ys).2 := by
  induction xs generalizing m with
  | nil => rfl
  | cons x xs ih =>
    obtain ⟨j, hx⟩ := Option.isSome_iff_exists.mp (h x (List.mem_cons_self ..))
    have htail := fun m => ih m fun y hy => h y (List.mem_cons_of_mem x hy)
    by_cases hj : holds m sid j = true <;> simp [add, hx, hj, htail]

theorem hashable_texts (ts : List PyStr) : ∀ x ∈ texts ts, (key? x).isSome = true := by
  intro x hx
  obtain ⟨t, -, rfl⟩ := List.mem_map.mp hx
  rfl

theorem find_texts (ts : List PyStr) (k : PyKey) (x : PyVal) :
    (texts ts).find? (fun y => key? y == some k) = some x ↔ ∃ t ∈ ts, k = [.str t] ∧ x = .str t := by
  have hkey : ∀ t : PyStr, key? (.str t) = some [.str t] := fun _ => rfl
  induction ts with
  | nil => simp [texts]
  | cons t ts ih =>
    have hcons : texts (t :: ts) = .str t :: texts ts := rfl
    rw [hcons, List.find?_cons]
    by_cases hk : k = [.str t]
    · subst hk
      simp [hkey, eq_comm]
    · have hne : (key? (.str t) == some k) = false := by simpa [hkey] using Ne.symm hk
      simp only [hne, ih, List.mem_cons, exists_eq_or_imp, hk, false_and, false_or]

/-- Only a string has the key of a string. -/
theorem eq_str_of_key {x : PyVal} {t : PyStr} (h : key? x = some [.str t]) : x = .str t := by
  cases x with
  | tuple xs =>
    obtain ⟨ks, -, hks⟩ := Option.map_eq_some_iff.mp h
    simp at hks
  | float f => cases f <;> simp [key?] at h
  | _ => simp_all [key?]

end

/-! ## What the two ways do -/

section

variable {env : Env}

theorem exec_registration (sid : PyStr) (symbols : List PyVal) (s : GatewayRuntime) :
    exec (_dispatch env "register_strategy" (registration sid symbols)) s =
      if s._adapterConnected then exec (registerConnected env sid symbols) s
      else exec (registerUnconnected sid symbols) s := by
  have hd : _dispatch env "register_strategy" (registration sid symbols) =
      registerStrategy env (registration sid symbols) := by simp [_dispatch]
  have hsid : textOr env (registration sid symbols) "strategy_id" "" = sid := by
    have hget : PyMap.get (registration sid symbols) "strategy_id" = .str sid := rfl
    cases sid <;> simp [textOr, hget, orElse, truthy, Interp.str]
  have hsymbols : RuntimeRemote.symbolsOf (registration sid symbols) = .ok symbols := by
    have hget : PyMap.get (registration sid symbols) "symbols" = .list symbols := by
      simp [registration, PyMap.get, find, isStr]
    cases symbols <;> simp [RuntimeRemote.symbolsOf, hget, orElse, truthy, iter]
  rw [hd, registerStrategy]
  simp only [hsid]
  rw [exec_bind_ok (by rw [exec_ofExcept, hsymbols]), exec_get_bind]
  split <;> rfl

theorem sorted_ok {xs : List PyVal} (h : ∀ x ∈ xs, ∃ t, x = .str t) : ∃ ys, sorted xs = .ok ys := by
  have hall : xs.all (fun x => (text? x).isSome) = true := by
    rw [List.all_eq_true]
    intro x hx
    obtain ⟨t, rfl⟩ := h x hx
    rfl
  unfold sorted
  split
  · exact ⟨xs, rfl⟩
  · exact ⟨_, rfl⟩

theorem sorted_texts (ts : List PyStr) : ∃ ys, sorted (texts ts) = .ok ys :=
  sorted_ok fun x hx => by
    obtain ⟨t, -, rfl⟩ := List.mem_map.mp hx
    exact ⟨t, rfl⟩

theorem exec_addTexts (sid : PyStr) (ts : List PyStr) (s : GatewayRuntime) :
    ∃ newly, exec (addSymbols sid (texts ts)) s =
        (.ok newly, { s with subscriptions := (add s.subscriptions sid (texts ts)).2 }) ∧
      ∀ x ∈ newly, ∃ t, x = .str t := by
  rcases add_outcome s.subscriptions sid (texts ts) with ⟨-, newly, hok, hnew⟩ | ⟨⟨x, hx, hnone⟩, -⟩
  · refine ⟨newly, by rw [addSymbols, exec_transition]; exact Prod.ext hok rfl, fun x hx => ?_⟩
    obtain ⟨t, -, rfl⟩ := List.mem_map.mp (hnew x hx).1
    exact ⟨t, rfl⟩
  · have hsome := hashable_texts ts x hx
    rw [hnone] at hsome
    cases hsome

/-- The connected way adds the texts of the elements, in some order. -/
theorem handled_connected (hacc : Accepts env) (sid : PyStr) (symbols : List PyVal) (s : GatewayRuntime) :
    (handled env true sid symbols s).1.isOk = true ∧ ∃ ts, (∀ t, t ∈ ts ↔ t ∈ symbolTexts env symbols) ∧
      (handled env true sid symbols s).2.subscriptions = (add s.subscriptions sid (texts ts)).2 := by
  simp only [handled, exec_registration, ↓reduceIte]
  unfold registerConnected _subscribeForStrategy
  dsimp only
  split
  · next hnil => exact ⟨rfl, [], by simp [hnil], rfl⟩
  · rw [exec_bind, exec_get_bind]
    generalize hs : { s with _adapterConnected := true } = s₀
    have hsub : s₀.subscriptions = s.subscriptions := by rw [← hs]
    generalize hactive : (symbolTexts env symbols).filter
      (fun symbol => isActive s₀.subscriptions (.str symbol)) = active
    generalize hnewly : (symbolTexts env symbols).filter
      (fun symbol => !isActive s₀.subscriptions (.str symbol)) = newly
    obtain ⟨accepted, skipped, s₁, he, hs₁, -, hmem⟩ := exec_requestSymbols hacc newly s₀
    obtain ⟨_, he₂, -⟩ := exec_addTexts sid active s₁
    obtain ⟨new, he₃, hnew⟩ := exec_addTexts sid accepted
      { s₁ with subscriptions := (add s₁.subscriptions sid (texts active)).2 }
    obtain ⟨total, htotal⟩ := sorted_texts (active ++ accepted).dedup
    obtain ⟨left, hleft⟩ := sorted_texts (skipped.filter fun symbol => symbol ∉ (active ++ accepted).dedup).dedup
    obtain ⟨subscribed, hsubscribed⟩ := sorted_ok hnew
    rw [exec_bind_ok he]
    dsimp only
    rw [exec_bind_ok he₂, exec_bind_ok he₃]
    simp only [_syncHealthCounts, exec_modify_bind, htotal, hleft, hsubscribed]
    refine ⟨rfl, active ++ accepted, fun t => ?_, ?_⟩
    · rw [List.mem_append, hmem, ← hactive, ← hnewly, List.mem_filter, List.mem_filter]
      cases isActive s₀.subscriptions (.str t) <;> simp
    · have happ : texts (active ++ accepted) = texts active ++ texts accepted := List.map_append
      rw [happ, add_append _ _ _ (hashable_texts active), ← hsub, ← hs₁]
      rfl

/-- The other adds the list as it came and sorts afterwards. -/
theorem handled_unconnected (env : Env) (sid : PyStr) (symbols : List PyVal) (s : GatewayRuntime) :
    ((handled env false sid symbols s).1.isOk = true ↔ ∃ newly, (add s.subscriptions sid symbols).1 = .ok newly ∧
        (sorted newly).isOk = true ∧ (sorted symbols).isOk = true) ∧
      (handled env false sid symbols s).2.subscriptions = (add s.subscriptions sid symbols).2 := by
  simp only [handled, exec_registration, Bool.false_eq_true, ↓reduceIte]
  refine ⟨?_, RuntimeSubscriptions.subscriptions_registerUnconnected sid symbols _⟩
  unfold registerUnconnected
  rw [exec_bind, addSymbols, exec_transition]
  cases hadd : (add s.subscriptions sid symbols).1 with
  | error e => simp [hadd, Except.isOk, Except.toBool]
  | ok newly =>
    simp only [hadd, _syncHealthCounts, exec_bind, exec_ofExcept]
    cases hnewly : sorted newly with
    | error e => simp [hnewly, Except.isOk, Except.toBool]
    | ok newly' =>
      cases hsymbols : sorted symbols with
      | error e => simp [Except.isOk, Except.toBool]
      | ok symbols' => simp [hnewly, Except.isOk, Except.toBool]

/-! ## When they agree -/

/-- What is added to a set depends on what is found under the keys that it lacks. -/
theorem same_of_added {m a b : SubscriptionManager} {sid : PyStr} {xs ys : List PyVal}
    (ha : Added m a sid xs) (hb : Added m b sid ys)
    (h : ∀ k, holds m sid k = false → xs.find? (fun x => key? x == some k) = ys.find? (fun x => key? x == some k)) :
    Same a b := by
  have hgained : ∀ {zs : List PyVal} {k : PyKey}, Gained m sid zs k ↔
      holds m sid k = false ∧ (zs.find? (fun x => key? x == some k)).isSome = true := by
    intro zs k
    simp [Gained, List.find?_isSome]
  have hsame : ∀ k, Gained m sid xs k ↔ Gained m sid ys k := by
    intro k
    rw [hgained, hgained]
    exact and_congr_right fun hk => by rw [h k hk]
  have hset : ∀ k, (symbolsOf a sid).get k = (symbolsOf b sid).get k := by
    intro k
    rw [ha.held, hb.held]
    cases hk : holds m sid k with
    | true =>
      obtain ⟨x, hx⟩ := Option.isSome_iff_exists.mp ((holds_iff m sid k).mp hk)
      simp [hx]
    | false => rw [h k hk]
  refine ⟨fun other => ?_, fun other k => ?_, fun k => ?_⟩
  · by_cases ho : other = sid
    · subst ho
      rw [Bool.eq_iff_iff, ha.known, hb.known]
      simp only [hsame]
    · rw [ha.others other ho, hb.others other ho]
  · by_cases ho : other = sid
    · subst ho
      exact hset k
    · rw [symbolsOf, ha.others other ho, symbolsOf, hb.others other ho]
  · by_cases hg : Gained m sid xs k
    · rw [ha.gained k hg, hb.gained k ((hsame k).mp hg)]
    · rw [ha.kept k hg, hb.kept k fun hg' => hg ((hsame k).mpr hg')]

/-- The list and the texts of its elements show the same under every key that is not held. -/
def FoundAlike (m : SubscriptionManager) (sid : PyStr) (symbols : List PyVal) (ts : List PyStr) : Prop :=
  ∀ k, holds m sid k = false →
    symbols.find? (fun x => key? x == some k) = (texts ts).find? (fun x => key? x == some k)

theorem alike_of_foundAlike {m : SubscriptionManager} {sid : PyStr} {symbols : List PyVal} {ts : List PyStr}
    (hts : ∀ t, t ∈ ts ↔ t ∈ symbolTexts env symbols) (hall : ∀ x ∈ symbols, (key? x).isSome = true)
    (hsorted : (sorted symbols).isOk = true) (hfind : FoundAlike m sid symbols ts) : Alike env sid symbols m where
  elements := by
    intro x hx
    obtain ⟨k, hk⟩ := Option.isSome_iff_exists.mp (hall x hx)
    refine ⟨k, hk, ?_⟩
    by_cases hheld : holds m sid k = true
    · exact .inl hheld
    · have hsome : (symbols.find? (fun y => key? y == some k)).isSome = true := by
        rw [List.find?_isSome]
        exact ⟨x, hx, by simp [hk]⟩
      obtain ⟨y, hy⟩ := Option.isSome_iff_exists.mp hsome
      rw [hfind k (by simpa using hheld)] at hy
      obtain ⟨t, ht, rfl, -⟩ := (find_texts ts k y).mp hy
      have hne : t ≠ [] := by
        have hmem := (hts t).mp ht
        simpa using (List.mem_filter.mp hmem).2
      exact .inr ⟨t, eq_str_of_key hk, hne⟩
  texts := by
    intro t ht
    by_cases hheld : holds m sid [.str t] = true
    · exact .inl hheld
    · have hy := (find_texts ts [.str t] (.str t)).mpr ⟨t, (hts t).mpr ht, rfl, rfl⟩
      rw [← hfind _ (by simpa using hheld)] at hy
      exact .inr (List.mem_of_find?_eq_some hy)
  sortable := hsorted

section

variable {m : SubscriptionManager} {sid : PyStr} {symbols : List PyVal} (hal : Alike env sid symbols m)
include hal

theorem hashable_of_alike : ∀ x ∈ symbols, (key? x).isSome = true := by
  intro x hx
  obtain ⟨k, hk, -⟩ := hal.elements x hx
  simp [hk]

theorem foundAlike_of_alike {ts : List PyStr} (hts : ∀ t, t ∈ ts ↔ t ∈ symbolTexts env symbols) :
    FoundAlike m sid symbols ts := by
  intro k hk
  refine Option.ext fun x => ?_
  rw [find_texts]
  constructor
  · intro hx
    obtain ⟨j, hj, hheld⟩ := hal.elements x (List.mem_of_find?_eq_some hx)
    obtain rfl : j = k := by
      have hkey := List.find?_some hx
      rw [hj] at hkey
      simpa using hkey
    rw [hk] at hheld
    obtain ⟨t, rfl, hne⟩ := hheld.resolve_left Bool.false_ne_true
    refine ⟨t, (hts t).mpr ?_, (Option.some.inj hj).symm, rfl⟩
    exact List.mem_filter.mpr ⟨List.mem_map.mpr ⟨_, List.mem_of_find?_eq_some hx, rfl⟩, by simpa using hne⟩
  · rintro ⟨t, ht, rfl, rfl⟩
    have hmem : PyVal.str t ∈ symbols := by
      rcases hal.texts t ((hts t).mp ht) with hheld | hmem
      · rw [hk] at hheld
        cases hheld
      · exact hmem
    have hsome : (symbols.find? (fun y => key? y == some [.str t])).isSome = true := by
      rw [List.find?_isSome]
      exact ⟨_, hmem, by simp [key?]⟩
    obtain ⟨y, hy⟩ := Option.isSome_iff_exists.mp hsome
    have hkey : key? y = some [.str t] := by simpa using List.find?_some hy
    rw [hy, eq_str_of_key hkey]

/-- What `add` reports of such a list are texts, and these can be sorted. -/
theorem sorted_newly_of_alike :
    ∃ newly, (add m sid symbols).1 = .ok newly ∧ (sorted newly).isOk = true := by
  rcases add_outcome m sid symbols with ⟨-, newly, hnewly, hnew⟩ | ⟨⟨x, hx, hnone⟩, -⟩
  · refine ⟨newly, hnewly, ?_⟩
    have htexts : ∀ x ∈ newly, ∃ t, x = .str t := by
      intro x hx
      obtain ⟨hin, k, hk, hnot⟩ := hnew x hx
      obtain ⟨j, hj, hheld⟩ := hal.elements x hin
      obtain rfl := Option.some.inj (hj.symm.trans hk)
      rw [hnot] at hheld
      obtain ⟨t, rfl, -⟩ := hheld.resolve_left Bool.false_ne_true
      exact ⟨t, rfl⟩
    obtain ⟨ys, hys⟩ := sorted_ok htexts
    rw [hys]
    rfl
  · have hsome := hashable_of_alike hal x hx
    rw [hnone] at hsome
    cases hsome

end

/-- For every manager, strategy and list: without a connected adapter a
registration does what it does with one that accepts everything if and only if
the list is alike. -/
theorem paths_agree_iff (hacc : Accepts env) (sid : PyStr) (symbols : List PyVal) (s : GatewayRuntime) :
    Agree env sid symbols s ↔ Alike env sid symbols s.subscriptions := by
  obtain ⟨hok, ts, hts, hcon⟩ := handled_connected hacc sid symbols s
  obtain ⟨hout, hun⟩ := handled_unconnected env sid symbols s
  have hadded := added_add s.subscriptions sid (hashable_texts ts)
  constructor
  · rintro ⟨hsame, houtcome, -⟩
    rw [hok] at houtcome
    obtain ⟨newly, hnewly, -, hsorted⟩ := hout.mp houtcome
    have hall : ∀ x ∈ symbols, (key? x).isSome = true := by
      rcases add_outcome s.subscriptions sid symbols with ⟨h, -⟩ | ⟨-, e, he⟩
      · exact h
      · rw [he] at hnewly
        cases hnewly
    have hraw := added_add s.subscriptions sid hall
    rw [hun, hcon] at hsame
    refine alike_of_foundAlike hts hall hsorted ?_
    intro k hk
    have hother : (Subscriptions.symbolsOf s.subscriptions sid).get k = none := by simpa [holds] using hk
    have hget := hsame.symbols sid k
    rwa [hraw.held, hadded.held, hother, Option.none_or, Option.none_or] at hget
  · intro hal
    have hraw := added_add s.subscriptions sid (hashable_of_alike hal)
    have hun_ok : (handled env false sid symbols s).1.isOk = true := by
      obtain ⟨newly, hnewly, hsorted⟩ := sorted_newly_of_alike hal
      exact hout.mpr ⟨newly, hnewly, hsorted, hal.sortable⟩
    refine ⟨?_, hun_ok.trans hok.symm, fun connected herr => ?_⟩
    · rw [hun, hcon]
      exact same_of_added hraw hadded (foundAlike_of_alike hal hts)
    · cases connected with
      | true =>
        rw [hok] at herr
        cases herr
      | false =>
        rw [hun_ok] at herr
        cases herr

end

/-- The silent adapter accepts what it is asked for. -/
theorem accepts_silent : Accepts (.ascii .silent) := by
  intro requested
  exact ⟨.none, requested, [], rfl, rfl, fun _ => Iff.rfl⟩

theorem paths_agree_iff_sample :
    Agree (.ascii .silent) "s" [.str "rb", .str "rb", .str "cu"] (up none) := by
  refine (paths_agree_iff accepts_silent "s" _ (up none)).mpr ⟨?_, ?_, by decide +kernel⟩
  · intro x hx
    have htext : ∃ t, x = .str t ∧ t ≠ [] := by
      simp only [List.mem_cons, List.not_mem_nil, or_false] at hx
      rcases hx with rfl | rfl | rfl
      · exact ⟨"rb", rfl, by decide⟩
      · exact ⟨"rb", rfl, by decide⟩
      · exact ⟨"cu", rfl, by decide⟩
    obtain ⟨t, rfl, hne⟩ := htext
    exact ⟨[.str t], rfl, .inr ⟨t, rfl, hne⟩⟩
  · intro t ht
    have htext : t = "rb" ∨ t = "rb" ∨ t = "cu" := by simpa [symbolTexts] using ht
    rcases htext with rfl | rfl | rfl <;> simp

/-- A number among the symbols: an error without a connected adapter, after
both symbols were added. -/
theorem number_fails_half_way :
    ∃ symbols, ¬ Agree (.ascii .silent) "s" symbols (up none) ∧
      (handled (.ascii .silent) false "s" symbols (up none)).1.isOk = false ∧
      getActiveSymbols (handled (.ascii .silent) false "s" symbols (up none)).2.subscriptions =
        [[.str "rb"], [.num 7]] ∧
      (handled (.ascii .silent) true "s" symbols (up none)).1.isOk = true := by
  have hun : (handled (.ascii .silent) false "s" [.str "rb", .int 7] (up none)).1.isOk = false := by decide +kernel
  have hcon : (handled (.ascii .silent) true "s" [.str "rb", .int 7] (up none)).1.isOk = true := by decide +kernel
  refine ⟨[.str "rb", .int 7], fun h => ?_, hun, by decide +kernel, hcon⟩
  have hout := h.outcome
  rw [hun, hcon] at hout
  cases hout

end StrategyRegistrations
