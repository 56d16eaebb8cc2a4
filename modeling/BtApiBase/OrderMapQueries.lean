import BtApiBase.OrderMapRuns
import BtApiBase.PyDictValues

/-!
# Who an order belongs to

What the queries by request and by strategy answer is the content of one dictionary from
request ids to strategies, and so are the first two columns of a snapshot. A registration
sets a key of it, a removal takes one away, and nothing else that happens to the map, to
its entries or to its indexes changes it.
-/

namespace OrderMapQueries

open PyText PyDict PyValue OrderMap OrderMapRuns Runs

/-! ## The dictionary of strategies -/

def strategyOf (m : OrderIdentityMap) (ref : Ref) : PyStr := ((entry m ref).map (·.strategyId)).getD []

/-- The strategies of the orders that the map stores, by request id. -/
def attribution (m : OrderIdentityMap) : Dict PyStr PyStr := m._byRequest.mapValues (strategyOf m)

/-- What an operation does to the strategies. -/
def owners (d : Dict PyStr PyStr) : Op → Dict PyStr PyStr
  | .register r s _ _ _ => d.set r s
  | .remove r => d.pop r
  | _ => d

/-- `snapshot` -/
def snapshot (m : OrderIdentityMap) : List PyMap :=
  (m._byRequest.values.filterMap (entry m)).map fun e =>
    [(.str "request_id", .str e.requestId), (.str "strategy_id", .str e.strategyId),
      (.str "client_order_id", (e.clientOrderId.map PyVal.str).getD .none),
      (.str "venue_order_id", (e.venueOrderId.map PyVal.str).getD .none),
      (.str "symbol", e.symbol), (.str "status", .str e.status)]

section

variable {m m' : OrderIdentityMap}

/-- The requests and the strategies of their entries decide. -/
theorem attribution_congr (hr : m'._byRequest = m._byRequest)
    (hs : ∀ ref, strategyOf m' ref = strategyOf m ref) : attribution m' = attribution m := by
  rw [attribution, hr]
  exact Dict.mapValues_congr fun kv _ => hs kv.2

theorem strategyOf_amend (m : OrderIdentityMap) (f : OrderEntry → OrderEntry)
    (hf : ∀ e, (f e).strategyId = e.strategyId) (ref j : Ref) : strategyOf (amend m ref f) j = strategyOf m j := by
  simp only [strategyOf, entry_amend]
  split
  · cases entry m j with
    | none => rfl
    | some e => simp [hf]
  · rfl

theorem byRequest_dict_indexClient (c : PyStr) (ref : Ref) :
    (indexClient m c ref)._byRequest = m._byRequest := by
  unfold indexClient
  split <;> rfl

theorem byRequest_dict_indexVenue (v : PyStr) (ref : Ref) :
    (indexVenue m v ref)._byRequest = m._byRequest := by
  unfold indexVenue
  split <;> rfl

theorem attribution_insert (e : OrderEntry) :
    attribution (insert m e) = (attribution m).set e.requestId e.strategyId := by
  have hnew : strategyOf (insert m e) m.entries.length = e.strategyId := by
    simp [strategyOf, entry_insert]
  have hold : m._byRequest.mapValues (strategyOf (insert m e)) = attribution m := by
    refine Dict.mapValues_congr fun kv hkv => ?_
    have hlt : kv.2 < m.entries.length := lt_of_byRequest (Dict.get_of_mem _ hkv)
    simp [strategyOf, entry_insert, Nat.ne_of_lt hlt]
  rw [← hold, ← hnew]
  exact Dict.mapValues_set _ _ _ _

theorem attribution_register (r s : PyStr) (c v : Option PyStr) (symbol : PyVal) :
    attribution (register m r s c v symbol).2 = (attribution m).set r s := by
  have hinsert := attribution_insert (m := m) ⟨r, s, c, v, symbol, "pending"⟩
  have hclient : ∀ (m' : OrderIdentityMap) d ref, attribution (indexClient m' d ref) = attribution m' :=
    fun m' d ref => attribution_congr (byRequest_dict_indexClient d ref) (by simp [strategyOf])
  have hvenue : ∀ (m' : OrderIdentityMap) d ref, attribution (indexVenue m' d ref) = attribution m' :=
    fun m' d ref => attribution_congr (byRequest_dict_indexVenue d ref) (by simp [strategyOf])
  unfold register
  cases given c <;> cases given v <;> simp [hclient, hvenue, hinsert]

theorem attribution_remove {r : PyStr} {ref : Ref} {e : OrderEntry} (h : byRequest m r = some ref)
    (he : entry m ref = some e) : attribution (OrderMap.remove m r).2 = (attribution m).pop r := by
  have hreq : (OrderMap.remove m r).2._byRequest = m._byRequest.pop r := by
    simp only [OrderMap.remove, h]
    cases (entry m ref).bind (given ·.clientOrderId) <;>
      cases (entry m ref).bind (given ·.venueOrderId) <;> rfl
  have hsame : ∀ j, strategyOf (OrderMap.remove m r).2 j = strategyOf m j := by
    intro j
    simp [strategyOf, (remove_spec h he).2.2.2.2]
  rw [attribution, hreq, Dict.mapValues_congr fun kv _ => hsame kv.2]
  exact Dict.mapValues_pop _ _ _

/-- An operation does to the map what it does to its strategies. -/
theorem attribution_apply (m : OrderIdentityMap) (op : Op) :
    attribution (apply m op) = owners (attribution m) op := by
  have heffect := effect m op
  generalize apply m op = m' at heffect
  cases heffect with
  | unknown op hr hm =>
    cases op with
    | register => cases hr
    | remove r =>
      have habsent : (attribution m).get r = none := by simp [attribution, show m._byRequest.get r = none from hm r rfl]
      exact (Dict.pop_of_absent habsent).symm
    | setClientOrderId | setVenueOrderId | setVenueOrderIdByClient | updateStatus => rfl
  | register r s c v symbol => exact attribution_register r s c v symbol
  | @client r ref e c h he hr =>
    refine attribution_congr (byRequest_dict_indexClient c ref) fun j => ?_
    have hj := strategyOf_amend m (.withClient c) (fun _ => rfl) ref j
    simpa [strategyOf] using hj
  | @venue op ref e v he hop hg =>
    have hsame : attribution (indexVenue (amend m ref (.withVenue v)) v ref) = attribution m := by
      refine attribution_congr (byRequest_dict_indexVenue v ref) fun j => ?_
      have hj := strategyOf_amend m (.withVenue v) (fun _ => rfl) ref j
      simpa [strategyOf] using hj
    rw [hsame]
    rcases hop with ⟨r, rfl, -⟩ | ⟨c, rfl, -⟩
    · rfl
    · rfl
  | status r status ref =>
    exact attribution_congr rfl fun j => strategyOf_amend m (.withStatus status) (fun _ => rfl) ref j
  | remove h he hr => exact attribution_remove h he

theorem attribution_run (ops : List Op) :
    attribution (run apply empty ops) = run owners .empty ops := by
  have hrun : ∀ (ops : List Op) (m : OrderIdentityMap),
      attribution (run apply m ops) = run owners (attribution m) ops := by
    intro ops
    induction ops with
    | nil => exact fun _ => rfl
    | cons op ops ih =>
      intro m
      rw [run_cons, run_cons, ih, attribution_apply]
  exact hrun ops empty

/-! ## What the queries answer -/

def requestOf (m : OrderIdentityMap) (ref : Ref) : PyStr := ((entry m ref).map (·.requestId)).getD []

theorem entry_of_mem {kv : PyStr × Ref} (h : kv ∈ m._byRequest.items) :
    ∃ e, entry m kv.2 = some e ∧ e.requestId = kv.1 ∧ e.strategyId = strategyOf m kv.2 := by
  obtain ⟨e, he, hr⟩ := entry_of_byRequest (Dict.get_of_mem m._byRequest h : byRequest m kv.1 = some kv.2)
  exact ⟨e, he, hr, by simp [strategyOf, he]⟩

theorem strategyForRequest_eq (m : OrderIdentityMap) (r : PyStr) :
    strategyForRequest m r = (attribution m).get r := by
  have hget : (attribution m).get r = (byRequest m r).map (strategyOf m) := Dict.get_mapValues _ _ _
  rw [hget, strategyForRequest]
  cases h : byRequest m r with
  | none => rfl
  | some ref =>
    obtain ⟨e, he, -⟩ := entry_of_byRequest h
    simp [strategyOf, he]

theorem ordersForStrategy_eq (m : OrderIdentityMap) (s : PyStr) :
    (ordersForStrategy m s).map (requestOf m) =
      ((attribution m).items.filter fun kv => kv.2 = s).map Prod.fst := by
  have hrows : ∀ items : List (PyStr × Ref), (∀ kv ∈ items, kv ∈ m._byRequest.items) →
      ((items.map Prod.snd).filter fun ref => (entry m ref).any (·.strategyId = s)).map (requestOf m) =
        ((items.map fun kv => (kv.1, strategyOf m kv.2)).filter fun kv => kv.2 = s).map Prod.fst := by
    intro items
    induction items with
    | nil => exact fun _ => rfl
    | cons kv rest ih =>
      intro h
      obtain ⟨e, he, hr, hs⟩ := entry_of_mem (h kv List.mem_cons_self)
      have hrest := ih fun kv' hkv' => h kv' (List.mem_cons_of_mem _ hkv')
      by_cases hes : e.strategyId = s
      · simp [he, hes, ← hs, requestOf, hr] at hrest ⊢
        exact hrest
      · simp [he, hes, ← hs] at hrest ⊢
        exact hrest
  exact hrows _ fun _ h => h

theorem count_eq (m : OrderIdentityMap) : count m = (attribution m).length := by
  simp [count, attribution]

/-- The first two columns of a row. -/
def columns (row : PyMap) : Option (PyVal × PyVal) :=
  match row with
  | (_, r) :: (_, s) :: _ => some (r, s)
  | _ => none

theorem snapshot_eq (m : OrderIdentityMap) :
    (snapshot m).map columns = (attribution m).items.map fun kv => some (.str kv.1, .str kv.2) := by
  have hrows : ∀ items : List (PyStr × Ref), (∀ kv ∈ items, kv ∈ m._byRequest.items) →
      ((items.map Prod.snd).filterMap (entry m)).map (fun e => (e.requestId, e.strategyId)) =
        items.map fun kv => (kv.1, strategyOf m kv.2) := by
    intro items
    induction items with
    | nil => exact fun _ => rfl
    | cons kv rest ih =>
      intro h
      obtain ⟨e, he, hr, hs⟩ := entry_of_mem (h kv List.mem_cons_self)
      have hrest := ih fun kv' hkv' => h kv' (List.mem_cons_of_mem _ hkv')
      rw [List.map_cons, List.filterMap_cons, he, List.map_cons, List.map_cons, hrest, hr, hs]
  have hcols := congrArg (List.map fun kv : PyStr × PyStr => some (PyVal.str kv.1, PyVal.str kv.2))
    (hrows _ fun _ h => h)
  rw [List.map_map] at hcols
  rw [snapshot, List.map_map]
  exact hcols

/-- What the four queries answer of a map, in terms of a dictionary of strategies. -/
structure Answers (m : OrderIdentityMap) (d : Dict PyStr PyStr) : Prop where
  strategy : ∀ r, strategyForRequest m r = d.get r
  orders : ∀ s, (ordersForStrategy m s).map (requestOf m) =
    (d.items.filter fun kv => kv.2 = s).map Prod.fst
  count : count m = d.length
  snapshot : (OrderMapQueries.snapshot m).map columns =
    d.items.map fun kv => some (.str kv.1, .str kv.2)

/-- In every run, also one that repeats ids or leaves stale keys behind, the queries answer
from the dictionary that the registrations and removals alone have made. -/
theorem answers_run (ops : List Op) :
    Answers (run apply empty ops) (run owners .empty ops) := by
  rw [← attribution_run]
  exact ⟨strategyForRequest_eq _, ordersForStrategy_eq _, count_eq _, snapshot_eq _⟩

end

end OrderMapQueries
