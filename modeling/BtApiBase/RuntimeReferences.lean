import Mathlib.Tactic.IntervalCases
import BtApiBase.RuntimeOrders

/-!
# References of placed orders

With an allocator every order is placed under a reference of its own, which the
exchange reports back. The references share one index with the ids that
strategies choose: an order that brings the reference of an earlier one takes
its slot, and the slot stays taken when the order is given its own reference.
-/

namespace RuntimeReferences

open PyText PyDict PyValue Effects OrderMap OrderMatching OrderRef RuntimeRemote RuntimeFrame Runs
open RuntimeOrders (sentPayload registered answered placedMap Amended exec_placeOrder
  exec_dispatch_place amended_placedMap)

/-! ## References as text -/

theorem isSpace_of_isDigit {c : Char} (h : c.isDigit) : isSpace (.scalar c) = false := by
  have hc : 48 ≤ c.toNat ∧ c.toNat ≤ 57 := by
    simpa [Char.isDigit, UInt32.le_iff_toNat_le] using h
  rw [← Char.ofNat_toNat c]
  obtain ⟨hl, hu⟩ := hc
  generalize c.toNat = n at *
  interval_cases n <;> decide

theorem strip_of_no_space {s : PyStr} (h : ∀ c ∈ s, isSpace c = false) : strip s = s := by
  have hd : ∀ t : PyStr, (∀ c ∈ t, isSpace c = false) → t.dropWhile isSpace = t := by
    intro t ht
    cases t with
    | nil => rfl
    | cons c t => rw [List.dropWhile_cons_of_neg]; simp [ht c]
  rw [strip, hd s h, hd _ (by simpa using h), List.reverse_reverse]

theorem strip_intText (n : Int) : strip (intText n) = intText n := by
  refine strip_of_no_space fun c hc => ?_
  obtain ⟨d, hd, rfl⟩ := List.mem_map.mp hc
  have hdigits : ∀ k : Nat, ∀ d ∈ k.repr.toList, isSpace (.scalar d) = false := by
    intro k d hd
    rw [Nat.toList_repr] at hd
    exact isSpace_of_isDigit (Nat.isDigit_of_mem_toDigits (by decide) (by decide) hd)
  cases n with
  | ofNat k => exact hdigits k d hd
  | negSucc k =>
    have hd' : d ∈ "-".toList ++ (k + 1).repr.toList := by simpa [Int.repr] using hd
    rcases List.mem_append.mp hd' with hm | hm
    · have : d = '-' := by simpa using hm
      subst this
      decide
    · exact hdigits _ d hm

/-! ## What placing an order does to the client index -/

/-- Asked to place an order under a reference, the adapter tells that reference
or none. -/
def Echoes (py : Interp) (adapter : Adapter) : Prop :=
  ∀ payload reference result,
    adapter.placeOrder (PyMap.set payload "client_order_id" (.str reference)) = .ok result →
    ∀ row ∈ resultRows result, ∀ c, given (_nestedOrderText py row RESULT_KEYS) = some c →
      c = reference

section

variable {m : OrderIdentityMap} {v : PyStr}

theorem nestedOrderText_set (py : Interp) (payload : PyMap) (hv : v ≠ []) (hs : strip v = v) :
    given (_nestedOrderText py (PyMap.set payload "client_order_id" (.str v)) RESULT_KEYS) =
      some v := by
  have hb : isBlank (.str v) = false := by cases v <;> simp_all [isBlank]
  have ht : _orderText py (PyMap.set payload "client_order_id" (.str v)) RESULT_KEYS = some v := by
    simp [_orderText, RESULT_KEYS, hb, hs]
  have hg : given (some v) = some v := by simp [hv]
  simp [_nestedOrderText, ht, hg]

/-- The first reference among the rows of an echoing result and the payload. -/
theorem firstText_echoed {py : Interp} {rows : List PyMap} {sent : PyMap}
    (hrows : ∀ row ∈ rows, ∀ c, given (_nestedOrderText py row RESULT_KEYS) = some c → c = v)
    (hsent : given (_nestedOrderText py sent RESULT_KEYS) = some v) :
    firstText py (rows ++ [sent]) RESULT_KEYS = some v := by
  cases h : firstText py (rows ++ [sent]) RESULT_KEYS with
  | none =>
    have hn := List.findSome?_eq_none_iff.mp h sent (by simp)
    rw [hsent] at hn
    cases hn
  | some c =>
    obtain ⟨row, hrow, hc⟩ := List.exists_of_findSome?_eq_some h
    rcases List.mem_append.mp hrow with hrow | hrow
    · rw [hrows row hrow c hc]
    · rw [List.mem_singleton.mp hrow, hsent] at hc
      exact hc.symm

theorem byClient_recordOrderResultIds {py : Interp} {r : PyStr} {ref : Ref} {sent : PyMap}
    {result : PyVal} (hf : firstText py (resultRows result ++ [sent]) RESULT_KEYS = some v)
    (hr : byRequest m r = some ref) (hv : byClient m v = some ref) (d : PyStr) :
    byClient (_recordOrderResultIds py m r sent result) d = byClient m d := by
  have hset : byClient (setClientOrderId m r v).2 d = byClient m d := by
    rw [(setClientOrderId_spec m r v).2.1]
    split
    · next h => rw [h.1, hv, hr]
    · rfl
  unfold _recordOrderResultIds
  simp only [hf]
  cases firstText py (resultRows result ++ [sent]) VENUE_KEYS with
  | none => exact hset
  | some w => exact ((setVenueOrderId_spec _ r w).2.1 d).trans hset

theorem byClient_registered (env : Env) (m : OrderIdentityMap) (payload : PyMap) (d : PyStr) :
    byClient (registered env m payload) d =
      if given (_orderText env.py payload PLACE_KEYS) = some d then some m.entries.length
      else byClient m d := by
  unfold registered
  rw [(register_spec _ _ _ _ _ _).2.1]

theorem byRequest_registered (env : Env) (m : OrderIdentityMap) (payload : PyMap) :
    byRequest (registered env m payload) (textOr env payload "request_id" "") =
      some m.entries.length := by
  unfold registered
  rw [(register_spec _ _ _ _ _ _).1, if_pos rfl]

/-- The index after an order was placed under a reference: that reference and
the id that the strategy chose lead to the order. -/
theorem byClient_placedMap (env : Env) (he : Echoes env.py env.adapter) (m : OrderIdentityMap)
    (payload : PyMap) (hv : v ≠ []) (hs : strip v = v) (d : PyStr) :
    byClient (placedMap env m payload (some (.ok v))) d =
      if d = v ∨ given (_orderText env.py payload PLACE_KEYS) = some d then some m.entries.length
      else byClient m d := by
  have hset := setClientOrderId_spec (registered env m payload) (textOr env payload "request_id" "") v
  have hr := byRequest_registered env m payload
  have hcl : ∀ d, byClient
      (setClientOrderId (registered env m payload) (textOr env payload "request_id" "") v).2 d =
      if d = v ∨ given (_orderText env.py payload PLACE_KEYS) = some d then some m.entries.length
      else byClient m d := by
    intro d
    rw [hset.2.1, hr, byClient_registered]
    by_cases hd : d = v <;> simp [hd]
  rw [← hcl]
  simp only [placedMap, answered]
  split
  · next result hres =>
    refine byClient_recordOrderResultIds (firstText_echoed (he _ v result hres)
      (nestedOrderText_set _ _ hv hs)) ((hset.1 _).trans hr) ?_ d
    rw [hcl, if_pos (.inl rfl)]
  · rfl

end

/-! ## Runs -/

/-- One `place_order`, with an adapter that echoes references. -/
structure Placing (py : Interp) where
  adapter : Adapter
  echoes : Echoes py adapter
  payload : PyMap

/-- An order that the allocator gave a reference to. -/
structure Placed where
  reference : PyStr
  ref : Ref
  strategyId : PyStr

structure World where
  runtime : GatewayRuntime
  placed : List Placed

section

variable (py : Interp)

def Placing.env {py : Interp} (l : Placing py) : Env := RuntimeOrders.Label.env py l.adapter

/-- The order that a connected runtime is about to place, if it gets a reference. -/
def placing (s : GatewayRuntime) (env : Env) (payload : PyMap) : List Placed :=
  match s.orderRefAllocator.map fun a => (next a).1 with
  | some (.ok v) => [⟨v, s.orderMap.entries.length, textOr env payload "strategy_id" "default"⟩]
  | _ => []

def step (w : World) (l : Placing py) : World where
  runtime := (exec (_dispatch l.env "place_order" l.payload) w.runtime).2
  placed := w.placed ++
    if w.runtime._adapterConnected then placing w.runtime l.env l.payload else []

/-- A gateway with an allocator, before its first order. -/
def init (a : OrderRefAllocator) : World := ⟨up (some a), []⟩

/-- The event tells one id, under the name that the exchange uses. -/
def OnlyOrderRef (event : PyMap) (v : PyStr) : Prop :=
  given (_nestedOrderText py event ["OrderRef"]) = some v ∧
  (∀ key ∈ ([u "request_id", u "command_request_id"] : List PyStr),
    given (_nestedOrderText py event [key]) = none) ∧
  ∀ key ∈ EVENT_KEYS, key ≠ u "OrderRef" → given (_nestedOrderText py event [key]) = none

/-- Every reference leads to the order that it was given to. -/
def Own (w : World) : Prop :=
  ∀ o ∈ w.placed, byClient w.runtime.orderMap o.reference = some o.ref ∧
    ∀ event, OnlyOrderRef py event o.reference →
      ∃ e, _orderEntryForEvent py w.runtime.orderMap event = some o.ref ∧
        entry w.runtime.orderMap o.ref = some e ∧ e.strategyId = o.strategyId

/-- The id that the strategy chose is the reference of no earlier order. -/
def Unused (w : World) (l : Placing py) : Prop :=
  ∀ o ∈ w.placed, given (_orderText py l.payload PLACE_KEYS) ≠ some o.reference

/-- References were given out in order, to orders that are still there. -/
structure Inv (w : World) : Prop where
  connected : w.runtime._adapterConnected = true
  references : ∃ a, w.runtime.orderRefAllocator = some a ∧
    ∀ o ∈ w.placed, ∃ k ≤ a.value, o.reference = intText k
  entries : ∀ o ∈ w.placed, ∃ e, entry w.runtime.orderMap o.ref = some e ∧
    e.strategyId = o.strategyId

variable {py}

theorem findSome?_of_only {keys : List PyStr} {f : PyStr → Option Ref} {k : PyStr}
    (hk : k ∈ keys) (h : ∀ key ∈ keys, key ≠ k → f key = none) : keys.findSome? f = f k := by
  induction keys with
  | nil => cases hk
  | cons key keys ih =>
    rw [List.findSome?_cons]
    by_cases hkey : key = k
    · subst hkey
      cases hf : f key with
      | some ref => rfl
      | none =>
        refine List.findSome?_eq_none_iff.mpr fun j hj => ?_
        by_cases hj' : j = key
        · rw [hj', hf]
        · exact h j (List.mem_cons_of_mem _ hj) hj'
    · rw [h key (List.mem_cons_self) hkey]
      exact ih ((List.mem_cons.mp hk).resolve_left (Ne.symm hkey)) fun j hj =>
        h j (List.mem_cons_of_mem _ hj)

/-- Such an event is matched through the client index, if at all through an id. -/
theorem orderEntryForEvent_of_only {m : OrderIdentityMap} {event : PyMap} {v : PyStr} {ref : Ref}
    (h : OnlyOrderRef py event v) (hv : byClient m v = some ref) :
    _orderEntryForEvent py m event = some ref := by
  obtain ⟨hv', hreq, honly⟩ := h
  have h₁ : ([u "request_id", u "command_request_id"] : List PyStr).findSome? (fun key =>
      (given (_nestedOrderText py event [key])).bind (byRequest m)) = none :=
    List.findSome?_eq_none_iff.mpr fun key hk => by rw [hreq key hk]; rfl
  have h₂ : EVENT_KEYS.findSome? (fun key =>
      (given (_nestedOrderText py event [key])).bind (byClient m)) = some ref := by
    rw [findSome?_of_only (k := u "OrderRef") (by simp [EVENT_KEYS]), hv', Option.bind_some, hv]
    intro key hk hne
    rw [honly key hk hne]
    rfl
  simp only [_orderEntryForEvent, h₁, h₂]
  rfl

/-- The index alone decides whose a reference is. -/
theorem own_iff {w : World} (hw : Inv w) :
    Own py w ↔ ∀ o ∈ w.placed, byClient w.runtime.orderMap o.reference = some o.ref := by
  refine forall₂_congr fun o ho => and_iff_left_of_imp fun hv event hevent => ?_
  obtain ⟨e, he, hs⟩ := hw.entries o ho
  exact ⟨e, orderEntryForEvent_of_only hevent hv, he, hs⟩

theorem inv_init (a : OrderRefAllocator) : Inv (init a) where
  connected := rfl
  references := ⟨a, rfl, by simp [init]⟩
  entries := by simp [init]

theorem own_init (a : OrderRefAllocator) : Own py (init a) := by simp [Own, init]

/-- What one order does to a runtime that is connected and has an allocator. -/
theorem step_spec {w : World} {a : OrderRefAllocator} (hc : w.runtime._adapterConnected = true)
    (ha : w.runtime.orderRefAllocator = some a) (l : Placing py) :
    (step py w l).runtime.orderMap =
        placedMap l.env w.runtime.orderMap l.payload (some (next a).1) ∧
      (step py w l).runtime.orderRefAllocator = some (next a).2 ∧
      (step py w l).runtime._adapterConnected = true ∧
      (step py w l).placed = w.placed ++ placing w.runtime l.env l.payload := by
  have hk := keeps_dispatch untouched_controls l.env "place_order" l.payload w.runtime
  have hp := exec_placeOrder l.env l.payload w.runtime
  rw [ha, Option.map_some, Option.map_some] at hp
  have hd : (step py w l).runtime = (exec (placeOrder l.env l.payload) w.runtime).2 := by
    rw [step, exec_dispatch_place, if_pos hc]
  refine ⟨by rw [hd, hp.1], by rw [hd, hp.2], (congrArg Control.connected hk).trans hc, ?_⟩
  rw [step, if_pos hc]

/-- The order under way is the newest entry and has the newest reference. -/
theorem mem_placing {s : GatewayRuntime} {a : OrderRefAllocator} (ha : s.orderRefAllocator = some a)
    {env : Env} {payload : PyMap} {o : Placed} (ho : o ∈ placing s env payload) :
    (next a).1 = .ok o.reference ∧ o.reference = intText (a.value + 1) ∧
      o.ref = s.orderMap.entries.length ∧
      o.strategyId = textOr env payload "strategy_id" "default" := by
  unfold placing at ho
  rw [ha, Option.map_some] at ho
  cases hn : (next a).1 with
  | error e => simp [hn] at ho
  | ok v =>
    rw [hn] at ho
    obtain rfl := List.mem_singleton.mp ho
    exact ⟨rfl, eq_of_next hn, rfl, rfl⟩

/-- Whoever an entry belonged to, it still does, and the new entry belongs to
the strategy that placed the order. -/
theorem entry_placedMap (env : Env) (m : OrderIdentityMap) (payload : PyMap)
    (allocated : Option (Except PyExc PyStr)) (j : Ref) :
    (entry (placedMap env m payload allocated) j).map (·.strategyId) =
      if j = m.entries.length then some (textOr env payload "strategy_id" "default")
      else (entry m j).map (·.strategyId) := by
  obtain ⟨f, hf, hk⟩ := (amended_placedMap env m payload allocated).entry j
  have hreg := register_spec m (textOr env payload "request_id" "")
    (textOr env payload "strategy_id" "default") (_orderText env.py payload PLACE_KEYS) none
    (PyMap.get (sentPayload env payload none) "symbol")
  rw [hf, Option.map_map, registered, hreg.2.2.2]
  split
  · simp [(hk _).2]
  · cases entry m j <;> simp [(hk _).2]

theorem inv_step (w : World) (l : Placing py) (hw : Inv w) : Inv (step py w l) := by
  obtain ⟨hc, ⟨a, ha, href⟩, hent⟩ := hw
  obtain ⟨hm, hal, hcon, hpl⟩ := step_spec hc ha l
  refine ⟨hcon, ⟨(next a).2, hal, fun o ho => ?_⟩, fun o ho => ?_⟩
  · rw [hpl] at ho
    rw [next_value]
    rcases List.mem_append.mp ho with ho | ho
    · obtain ⟨k, hk, hv⟩ := href o ho
      exact ⟨k, by omega, hv⟩
    · exact ⟨a.value + 1, le_rfl, (mem_placing ha ho).2.1⟩
  · have hs : (entry (step py w l).runtime.orderMap o.ref).map (·.strategyId) =
        some o.strategyId := by
      rw [hm, entry_placedMap]
      rw [hpl] at ho
      rcases List.mem_append.mp ho with ho | ho
      · obtain ⟨e, he, hs⟩ := hent o ho
        rw [if_neg (lt_of_entry he).ne, he, Option.map_some, hs]
      · obtain ⟨-, -, hr, hs⟩ := mem_placing ha ho
        rw [if_pos hr, hs]
    exact Option.map_eq_some_iff.mp hs

/-- One order keeps every reference where it belongs exactly if it brings none
of an earlier order. -/
theorem own_step (w : World) (l : Placing py) (hw : Inv w) (ho : Own py w) :
    Own py (step py w l) ↔ Unused py w l := by
  have hw' := inv_step w l hw
  rw [own_iff hw] at ho
  rw [own_iff hw']
  obtain ⟨hc, ⟨a, ha, href⟩, hent⟩ := hw
  obtain ⟨hm, -, -, hpl⟩ := step_spec hc ha l
  have hlt : ∀ o ∈ w.placed, o.ref < w.runtime.orderMap.entries.length := fun o h => by
    obtain ⟨e, he, -⟩ := hent o h
    exact lt_of_entry he
  -- an earlier reference is another text than the newest
  have hold : ∀ o ∈ w.placed, o.reference ≠ intText (a.value + 1) := by
    intro o h he
    obtain ⟨k, hk, hv⟩ := href o h
    have := intText_injective (hv.symm.trans he)
    omega
  have hcl : ∀ o ∈ w.placed, byClient (step py w l).runtime.orderMap o.reference =
      if given (_orderText py l.payload PLACE_KEYS) = some o.reference
      then some w.runtime.orderMap.entries.length
      else byClient w.runtime.orderMap o.reference := by
    intro o h
    rw [hm]
    cases hn : (next a).1 with
    | error e => exact byClient_registered l.env _ _ _
    | ok v =>
      obtain rfl := eq_of_next hn
      rw [byClient_placedMap l.env l.echoes _ _ (intText_ne_nil _) (strip_intText _)]
      simp only [hold o h, false_or]
      rfl
  constructor
  · intro h o hmem hg
    have hv := h o (hpl ▸ List.mem_append_left _ hmem)
    rw [hcl o hmem, if_pos hg, Option.some.injEq] at hv
    exact (hlt o hmem).ne hv.symm
  · intro h o hmem
    rw [hpl] at hmem
    rcases List.mem_append.mp hmem with hmem | hmem
    · rw [hcl o hmem, if_neg (h o hmem)]
      exact ho o hmem
    · obtain ⟨hn, hv, hr, -⟩ := mem_placing ha hmem
      have hne : o.reference ≠ [] := hv ▸ intText_ne_nil _
      have hst : strip o.reference = o.reference := hv ▸ strip_intText _
      rw [hm, hn, byClient_placedMap l.env l.echoes _ _ hne hst, if_pos (.inl rfl), hr]

variable (py) in
/-- In every run of orders every reference leads to its own order, and an event
that carries only a reference to the strategy that placed it, if and only if no
order brings the reference of an earlier one. -/
theorem references_own_iff (a : OrderRefAllocator) (labels : List (Placing py)) :
    Throughout (step py) (Own py) (init a) labels ↔ Meets (step py) (Unused py) (init a) labels :=
  throughout_iff_meets (fun w l => inv_step w l) (fun w l => own_step w l) (inv_init a)
    (own_init a) labels

end

/-! ## A reference that is taken -/

/-- An allocator that has not given out a reference. -/
def fresh : OrderRefAllocator := ⟨0, ⟨true, none, .absent⟩⟩

/-- An order with an adapter that tells nothing back. -/
def quiet (payload : PyMap) : Placing .ascii where
  adapter := .silent
  echoes := by
    intro _ _ result h row hrow
    cases h
    cases hrow
  payload := payload

/-- The second strategy chooses the reference that the first order was given:
an event with that reference goes to the second strategy. -/
theorem reference_taken :
    ∃ first second event,
      PyMap.get first "request_id" = .str "r1" ∧ PyMap.get second "request_id" = .str "r2" ∧
      ((run (step .ascii) (init fresh) [quiet first, quiet second]).placed.map fun o =>
        (o.reference, o.ref, o.strategyId)) =
          [(u "1", 0, u "alice"), (u "2", 1, u "bob")] ∧
      byClient (run (step .ascii) (init fresh) [quiet first, quiet second]).runtime.orderMap (u "1") =
        some 1 ∧
      _orderEntryForEvent .ascii
        (run (step .ascii) (init fresh) [quiet first, quiet second]).runtime.orderMap event = some 1 ∧
      OnlyOrderRef .ascii event (u "1") ∧
      ¬ Throughout (step .ascii) (Own .ascii) (init fresh) [quiet first, quiet second] := by
  let first : PyMap := [(.str "request_id", .str "r1"), (.str "strategy_id", .str "alice")]
  let second : PyMap := [(.str "request_id", .str "r2"), (.str "strategy_id", .str "bob"),
    (.str "client_order_id", .str "1")]
  have hp : ((run (step .ascii) (init fresh) [quiet first, quiet second]).placed.map fun o =>
      (o.reference, o.ref, o.strategyId)) =
        [(u "1", 0, u "alice"), (u "2", 1, u "bob")] := by decide +kernel
  have hc : byClient (run (step .ascii) (init fresh) [quiet first, quiet second]).runtime.orderMap
      (u "1") = some 1 := by decide +kernel
  have ho : OnlyOrderRef .ascii [(.str "OrderRef", .str "1")] (u "1") := by
    unfold OnlyOrderRef
    decide +kernel
  refine ⟨first, second, [(.str "OrderRef", .str "1")], rfl, rfl, hp, hc, by decide +kernel, ho,
    fun h => ?_⟩
  have hm := List.mem_map.mp (hp ▸ List.mem_cons_self :
    (u "1", 0, u "alice") ∈ (run (step .ascii) (init fresh) [quiet first, quiet second]).placed.map
      fun o => (o.reference, o.ref, o.strategyId))
  obtain ⟨o, hmem, heq⟩ := hm
  obtain ⟨hv, hr, -⟩ : o.reference = u "1" ∧ o.ref = 0 ∧ o.strategyId = u "alice" := by
    simpa using heq
  have h₁ := (throughout_last h o hmem).1
  rw [hv, hr, hc] at h₁
  cases h₁

end RuntimeReferences
