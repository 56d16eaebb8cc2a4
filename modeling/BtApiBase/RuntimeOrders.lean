import BtApiBase.RuntimeFrame
import BtApiBase.Runs

/-!
# Runs of orders and events

A run places orders and receives events, each with an adapter that answers as
it likes. An event is matched through any of three indexes and written back
through the request id, so it reaches the entry it matched exactly if no later
order took the same request id, or if there is nothing to write.
-/

namespace RuntimeOrders

open PyText PyDict PyValue Effects OrderMap OrderMatching OrderRef RuntimeRemote RuntimeFrame Runs

/-! ## What placing an order does to the map -/

section

variable (env : Env)

/-- What is given to the adapter when the allocator gave this reference. -/
def sentPayload (payload : PyMap) (reference : Option PyStr) : PyMap :=
  withReference (namedPayload payload (_orderText env.py payload PLACE_KEYS)) reference

/-- The map after the registration. -/
def registered (m : OrderIdentityMap) (payload : PyMap) : OrderIdentityMap :=
  (register m (textOr env payload "request_id" "") (textOr env payload "strategy_id" "default")
    (_orderText env.py payload PLACE_KEYS) none
    (PyMap.get (sentPayload env payload none) "symbol")).2

/-- The map after the adapter has answered. -/
def answered (m : OrderIdentityMap) (payload sent : PyMap) : OrderIdentityMap :=
  match env.adapter.placeOrder sent with
  | .ok result => _recordOrderResultIds env.py m (textOr env payload "request_id" "") sent result
  | .error _ => m

/-- The map after `place_order`, given what the allocator did. -/
def placedMap (m : OrderIdentityMap) (payload : PyMap) :
    Option (Except PyExc PyStr) → OrderIdentityMap
  | none => answered env (registered env m payload) payload (sentPayload env payload none)
  | some (.error _) => registered env m payload
  | some (.ok v) =>
    answered env (setClientOrderId (registered env m payload) (textOr env payload "request_id" "") v).2
      payload (sentPayload env payload (some v))

theorem exec_placeOrder (payload : PyMap) (s : GatewayRuntime) :
    (exec (placeOrder env payload) s).2.orderMap =
        placedMap env s.orderMap payload (s.orderRefAllocator.map fun a => (next a).1) ∧
      (exec (placeOrder env payload) s).2.orderRefAllocator =
        s.orderRefAllocator.map fun a => (next a).2 := by
  unfold placeOrder allocate onOrderMap onHealth emit
  cases ha : s.orderRefAllocator with
  | none =>
    simp only [exec_bind, exec_modify, exec_get, ha, exec_pure, exec_ofExcept, Option.map_none,
      placedMap, answered, sentPayload]
    cases env.adapter.placeOrder (withReference _ none) <;> exact ⟨rfl, rfl⟩
  | some a =>
    cases hn : (next a).1 with
    | error e =>
      simp only [exec_bind, exec_modify, exec_get, ha, hn, exec_ofExcept, Option.map_some,
        placedMap]
      exact ⟨rfl, trivial⟩
    | ok v =>
      simp only [exec_bind, exec_modify, exec_get, ha, hn, exec_pure, exec_ofExcept, Option.map_some,
        placedMap, answered, sentPayload]
      cases env.adapter.placeOrder (withReference _ (some v)) <;> exact ⟨rfl, rfl⟩

end

/-! ## What updates leave alone -/

/-- No order is stored or forgotten, and no entry changes whose it is. -/
structure Amended (m m' : OrderIdentityMap) : Prop where
  byRequest : ∀ r, byRequest m' r = byRequest m r
  entry : ∀ j, ∃ f : OrderEntry → OrderEntry, entry m' j = (entry m j).map f ∧
    ∀ e, (f e).requestId = e.requestId ∧ (f e).strategyId = e.strategyId

theorem amended_refl (m : OrderIdentityMap) : Amended m m :=
  ⟨fun _ => rfl, fun _ => ⟨id, by simp, fun _ => ⟨rfl, rfl⟩⟩⟩

theorem Amended.trans {m m' m'' : OrderIdentityMap} (h : Amended m m') (h' : Amended m' m'') :
    Amended m m'' where
  byRequest r := (h'.byRequest r).trans (h.byRequest r)
  entry j := by
    obtain ⟨f, hf, hk⟩ := h.entry j
    obtain ⟨g, hg, hk'⟩ := h'.entry j
    refine ⟨g ∘ f, by rw [hg, hf, Option.map_map], fun e => ?_⟩
    exact ⟨(hk' _).1.trans (hk e).1, (hk' _).2.trans (hk e).2⟩

/-- An update of the entry stored under a request id, if there is one. -/
theorem amended_of_spec {m m' : OrderIdentityMap} {r : PyStr} {f : OrderEntry → OrderEntry}
    (hr : ∀ q, byRequest m' q = byRequest m q)
    (he : ∀ j, entry m' j = if byRequest m r = some j then (entry m j).map f else entry m j)
    (hf : ∀ e, (f e).requestId = e.requestId ∧ (f e).strategyId = e.strategyId) :
    Amended m m' where
  byRequest := hr
  entry j := by
    rw [he]
    split
    · exact ⟨f, rfl, hf⟩
    · exact ⟨id, by simp, fun _ => ⟨rfl, rfl⟩⟩

theorem amended_setClientOrderId (m : OrderIdentityMap) (r c : PyStr) :
    Amended m (setClientOrderId m r c).2 :=
  have h := setClientOrderId_spec m r c
  amended_of_spec h.1 h.2.2.2 fun _ => ⟨rfl, rfl⟩

theorem amended_setVenueOrderId (m : OrderIdentityMap) (r v : PyStr) :
    Amended m (setVenueOrderId m r v).2 :=
  have h := setVenueOrderId_spec m r v
  amended_of_spec h.1 h.2.2.2 fun _ => ⟨rfl, rfl⟩

theorem amended_recordOrderResultIds (py : Interp) (m : OrderIdentityMap) (r : PyStr)
    (payload : PyMap) (result : PyVal) :
    Amended m (_recordOrderResultIds py m r payload result) := by
  unfold _recordOrderResultIds
  dsimp only
  cases firstText py (resultRows result ++ [payload]) RESULT_KEYS with
  | none =>
    cases firstText py (resultRows result ++ [payload]) VENUE_KEYS with
    | none => exact amended_refl m
    | some v => exact amended_setVenueOrderId m r v
  | some c =>
    have h := amended_setClientOrderId m r c
    cases firstText py (resultRows result ++ [payload]) VENUE_KEYS with
    | none => exact h
    | some v => exact h.trans (amended_setVenueOrderId _ r v)

theorem amended_enrich (py : Interp) (m : OrderIdentityMap) (payload : PyVal) :
    Amended m (_enrichEventPayload py m payload).2 := by
  by_cases h : ∃ event ref, payload = .dict event ∧ _orderEntryForEvent py m event = some ref
  · obtain ⟨event, ref, rfl, h⟩ := h
    obtain ⟨e, he⟩ := entry_of_orderEntryForEvent h
    have hm := enrich_matched h he
    exact amended_of_spec hm.1 hm.2 fun _ => ⟨rfl, rfl⟩
  · rw [enrich_unmatched]
    · exact amended_refl m
    · intro event hp
      cases hf : _orderEntryForEvent py m event with
      | none => rfl
      | some ref => exact absurd ⟨event, ref, hp, hf⟩ h

theorem amended_answered (env : Env) (m : OrderIdentityMap) (payload sent : PyMap) :
    Amended m (answered env m payload sent) := by
  unfold answered
  split
  · exact amended_recordOrderResultIds _ _ _ _ _
  · exact amended_refl m

/-- Placing an order registers it, and amends. -/
theorem amended_placedMap (env : Env) (m : OrderIdentityMap) (payload : PyMap)
    (allocated : Option (Except PyExc PyStr)) :
    Amended (registered env m payload) (placedMap env m payload allocated) := by
  unfold placedMap
  split
  · exact amended_answered _ _ _ _
  · exact amended_refl _
  · exact (amended_setClientOrderId _ _ _).trans (amended_answered _ _ _ _)

/-! ## Runs -/

/-- One thing that happens to the order map, with the adapter of the moment. -/
inductive Label where
  | place (adapter : Adapter) (payload : PyMap)
  | event (payload : PyVal)

section

variable (py : Interp)

def Label.env (adapter : Adapter) : Env := ⟨py, .ample, adapter, none, 0, 0⟩

def step (s : GatewayRuntime) : Label → GatewayRuntime
  | .place adapter payload => (exec (_dispatch (Label.env py adapter) "place_order" payload) s).2
  | .event payload => (exec (enrich (Label.env py .silent) payload) s).2

theorem exec_dispatch_place (env : Env) (payload : PyMap) (s : GatewayRuntime) :
    exec (_dispatch env "place_order" payload) s =
      if s._adapterConnected then exec (placeOrder env payload) s
      else (.error ⟨.runtimeError, u "adapter not yet connected, cannot execute: " ++ u "place_order"⟩, s) := by
  unfold _dispatch dispatchConnected
  simp only [u_inj, String.reduceEq, ↓reduceIte, exec_get_bind]
  split <;> rfl

/-- The last order that was placed under a request id is the one stored there. -/
def Latest (m : OrderIdentityMap) : Prop :=
  ∀ j e, entry m j = some e → ∃ t, byRequest m e.requestId = some t ∧ j ≤ t

theorem latest_of_amended {m m' : OrderIdentityMap} (h : Amended m m') (hl : Latest m) :
    Latest m' := by
  intro j e he
  obtain ⟨f, hf, hk⟩ := h.entry j
  rw [hf] at he
  obtain ⟨e₀, he₀, rfl⟩ := Option.map_eq_some_iff.mp he
  rw [(hk e₀).1, h.byRequest]
  exact hl j e₀ he₀

theorem latest_registered (env : Env) {m : OrderIdentityMap} (hl : Latest m) (payload : PyMap) :
    Latest (registered env m payload) := by
  intro j e he
  have hs := register_spec m (textOr env payload "request_id" "")
    (textOr env payload "strategy_id" "default") (_orderText env.py payload PLACE_KEYS) none
    (PyMap.get (sentPayload env payload none) "symbol")
  rw [registered, hs.2.2.2] at he
  rw [registered, hs.1]
  split at he
  · next hj =>
    cases he
    exact ⟨m.entries.length, by simp, hj.le⟩
  · obtain ⟨t, ht, hjt⟩ := hl j e he
    split
    · exact ⟨m.entries.length, rfl, (hjt.trans_lt (lt_of_byRequest ht)).le⟩
    · exact ⟨t, ht, hjt⟩

theorem latest_step (s : GatewayRuntime) (l : Label) (h : Latest s.orderMap) :
    Latest (step py s l).orderMap := by
  cases l with
  | place adapter payload =>
    rw [step, exec_dispatch_place]
    split
    · rw [(exec_placeOrder _ payload s).1]
      exact latest_of_amended (amended_placedMap _ _ _ _) (latest_registered _ h payload)
    · exact h
  | event payload => exact latest_of_amended (amended_enrich py s.orderMap payload) h

theorem latest_run (allocator : Option OrderRefAllocator) (labels : List Label) :
    Latest (run (step py) (up allocator) labels).orderMap :=
  run_induction (latest_step py) (by intro j e he; cases he) labels

/-! ## Where an event is written -/

/-- The update is stored on the matched entry and on no other. -/
def StoredOnMatch (s : GatewayRuntime) (event : PyMap) (ref : Ref) (e : OrderEntry) : Prop :=
  ∀ j, entry (step py s (.event (.dict event))).orderMap j =
    if j = ref then some ((update py e event).apply e) else entry s.orderMap j

/-- No later order was placed under the request id of the matched one. -/
def NoLater (m : OrderIdentityMap) (ref : Ref) (e : OrderEntry) : Prop :=
  ∀ j e', entry m j = some e' → e'.requestId = e.requestId → j ≤ ref

/-- The event tells neither the matched entry nor the one stored under its
request id anything that it does not have. -/
def NothingNew (m : OrderIdentityMap) (event : PyMap) (e : OrderEntry) : Prop :=
  (update py e event).Idle e ∧ ∀ t e', byRequest m e.requestId = some t → entry m t = some e' →
    (update py e event).Idle e'

theorem apply_eq_self_iff (e : OrderEntry) (event : PyMap) :
    (update py e event).apply e = e ↔ (update py e event).Idle e := by
  refine apply_eq_self (fun c hc => ?_) fun v hv => ?_
  · simpa using (Option.filter_eq_some_iff.mp hc).2
  · simpa using (Option.filter_eq_some_iff.mp hv).2

/-- Once the matched entry learns nothing, only a status can change another. -/
theorem apply_eq_self_of_idle {w : Update} {e : OrderEntry} (h : w.Idle e) (e' : OrderEntry) :
    w.apply e' = e' ↔ w.Idle e' :=
  apply_eq_self (fun c hc => by rw [h.1] at hc; cases hc) fun v hv => by rw [h.2.1] at hv; cases hv

theorem storedOnMatch_iff {s : GatewayRuntime} (hl : Latest s.orderMap) {event : PyMap} {ref : Ref}
    {e : OrderEntry} (h : _orderEntryForEvent py s.orderMap event = some ref)
    (he : entry s.orderMap ref = some e) :
    StoredOnMatch py s event ref e ↔
      NoLater s.orderMap ref e ∨ NothingNew py s.orderMap event e := by
  obtain ⟨t, ht, hle⟩ := hl ref e he
  obtain ⟨e', he', hr⟩ := entry_of_byRequest ht
  have hm : ∀ j, entry (step py s (.event (.dict event))).orderMap j = if t = j then
      (entry s.orderMap j).map (update py e event).apply else entry s.orderMap j := by
    intro j
    have hj := (enrich_matched h he).2 j
    simp only [ht, Option.some.injEq] at hj
    exact hj
  by_cases hrt : t = ref
  · subst hrt
    refine iff_of_true (fun j => ?_) (.inl fun j e'' he'' hr' => ?_)
    · rw [hm]
      by_cases hj : t = j
      · subst hj
        simp [he]
      · rw [if_neg hj, if_neg (Ne.symm hj)]
    · obtain ⟨t', ht', hle'⟩ := hl j e'' he''
      rw [hr', ht] at ht'
      cases ht'
      exact hle'
  · have hlater : ¬ NoLater s.orderMap ref e := fun hn =>
      hrt ((hn t e' he' hr).antisymm hle)
    have hnew : NothingNew py s.orderMap event e ↔
        (update py e event).Idle e ∧ (update py e event).Idle e' := by
      refine and_congr_right fun _ => ⟨fun hn => hn t e' ht he', fun hn t' e'' ht' he'' => ?_⟩
      rw [ht] at ht'
      cases ht'
      rw [he'] at he''
      cases he''
      exact hn
    rw [or_iff_right hlater, hnew]
    constructor
    · intro hst
      have hidle : (update py e event).Idle e := by
        have := hst ref
        rw [hm, if_neg hrt, if_pos rfl, he, Option.some.injEq] at this
        exact (apply_eq_self_iff py e event).mp this.symm
      have hidle' := hst t
      rw [hm, if_pos rfl, if_neg hrt, he', Option.map_some, Option.some.injEq] at hidle'
      exact ⟨hidle, (apply_eq_self_of_idle hidle e').mp hidle'⟩
    · rintro ⟨hidle, hidle'⟩ j
      rw [hm, (apply_eq_self_iff py e event).mpr hidle]
      by_cases hj : t = j
      · subst hj
        rw [if_pos rfl, if_neg hrt, he', Option.map_some,
          (apply_eq_self_of_idle hidle e').mpr hidle']
      · rw [if_neg hj]
        split
        · next hjr => rw [hjr, he]
        · rfl

/-- In every run of orders and events, an event that matches an entry is stored
on it and on no other if and only if no later order took its request id or the
event has nothing new to tell. -/
theorem event_stored_iff (allocator : Option OrderRefAllocator) (labels : List Label)
    (event : PyMap) (ref : Ref) (e : OrderEntry)
    (h : _orderEntryForEvent py (run (step py) (up allocator) labels).orderMap event = some ref)
    (he : entry (run (step py) (up allocator) labels).orderMap ref = some e) :
    StoredOnMatch py (run (step py) (up allocator) labels) event ref e ↔
      NoLater (run (step py) (up allocator) labels).orderMap ref e ∨
        NothingNew py (run (step py) (up allocator) labels).orderMap event e :=
  storedOnMatch_iff py (latest_run py allocator labels) h he

end

/-- An order, and an event under its request id that has nothing to tell: it is
stored on the order, which it matches. -/
theorem event_stored_iff_sample :
    ∃ py labels event ref e,
      _orderEntryForEvent py (run (step py) (up none) labels).orderMap event = some ref ∧
      entry (run (step py) (up none) labels).orderMap ref = some e ∧
      StoredOnMatch py (run (step py) (up none) labels) event ref e := by
  let labels : List Label := [.place .silent [(.str "request_id", .str "r"), (.str "order_ref", .str "a")]]
  let event : PyMap := [(.str "clOrdId", .str "a"), (.str "status", .str "filled")]
  have h : _orderEntryForEvent .ascii (run (step .ascii) (up none) labels).orderMap event = some 0 := by
    decide +kernel
  obtain ⟨e, he⟩ := entry_of_orderEntryForEvent h
  refine ⟨.ascii, labels, event, 0, e, h, he, (event_stored_iff .ascii none labels event 0 e h he).mpr
    (.inl ?_)⟩
  intro j e' he' _
  have hlen : (run (step .ascii) (up none) labels).orderMap.entries.length = 1 := by decide +kernel
  have hj := lt_of_entry he'
  rw [hlen] at hj
  exact Nat.le_of_lt_succ hj

/-- Two orders without a request id: the event of the first is stored on the second. -/
theorem status_on_other_order :
    ∃ labels event e,
      _orderEntryForEvent .ascii (run (step .ascii) (up none) labels).orderMap event = some 0 ∧
      entry (run (step .ascii) (up none) labels).orderMap 0 = some e ∧
      (entry (run (step .ascii) (up none) labels).orderMap 1).map (·.status) = some (u "pending") ∧
      (entry (step .ascii (run (step .ascii) (up none) labels) (.event (.dict event))).orderMap 1).map
        (·.status) = some (u "filled") ∧
      ¬ StoredOnMatch .ascii (run (step .ascii) (up none) labels) event 0 e := by
  let labels : List Label := [.place .silent [(.str "client_order_id", .str "a")],
    .place .silent [(.str "client_order_id", .str "b")]]
  let event : PyMap := [(.str "clOrdId", .str "a"), (.str "status", .str "filled")]
  have h : _orderEntryForEvent .ascii (run (step .ascii) (up none) labels).orderMap event = some 0 := by
    decide +kernel
  have h₁ : (entry (run (step .ascii) (up none) labels).orderMap 1).map (·.status) =
      some (u "pending") := by decide +kernel
  have h₂ : (entry (step .ascii (run (step .ascii) (up none) labels)
      (.event (.dict event))).orderMap 1).map (·.status) = some (u "filled") := by decide +kernel
  obtain ⟨e, he⟩ := entry_of_orderEntryForEvent h
  refine ⟨labels, event, e, h, he, h₁, h₂, fun hs => ?_⟩
  rw [hs 1, if_neg (by decide), h₁, Option.some.injEq, u_inj] at h₂
  simp at h₂

end RuntimeOrders
