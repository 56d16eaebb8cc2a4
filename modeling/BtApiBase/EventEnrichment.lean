import BtApiBase.OrderMatching

/-!
# What enriching an event changes

A matched event is given fields of its entry and keeps its own; the map learns
ids and a status from it. What is given is a list of fields, filled in one after
the other, so that facts about it are facts about any such list.
-/

namespace EventEnrichment

open PyText PyDict PyValue OrderMap OrderMatching

/-! ## Filling in -/

/-- `setdefault` for each of the fields. -/
def fill (d : PyMap) (fields : List (PyStr × PyVal)) : PyMap :=
  fields.foldl (fun d f => PyMap.setdefault d f.1 f.2) d

@[simp] theorem fill_nil (d : PyMap) : fill d [] = d := rfl
@[simp] theorem fill_cons (d : PyMap) (f : PyStr × PyVal) (fields : List (PyStr × PyVal)) :
    fill d (f :: fields) = fill (PyMap.setdefault d f.1 f.2) fields := rfl

theorem setdefault_of_contains {d : PyMap} {k : PyStr} (h : PyMap.contains d k = true) (v : PyVal) :
    PyMap.setdefault d k v = d := by simp [PyMap.setdefault, h]

theorem setdefault_of_new {d : PyMap} {k : PyStr} (h : PyMap.contains d k = false) (v : PyVal) :
    PyMap.setdefault d k v = d ++ [(.str k, v)] := by
  have hfind : find (isStr k) d = none := by simpa [PyMap.contains] using h
  simp [PyMap.setdefault, h, PyMap.set, PyMap.put_of_find_eq_none hfind]

theorem contains_setdefault (d : PyMap) (k j : PyStr) (v : PyVal) :
    PyMap.contains (PyMap.setdefault d k v) j = (j == k || PyMap.contains d j) := by
  unfold PyMap.setdefault
  split
  · next h =>
    by_cases hj : j = k
    · simp [hj, h]
    · simp [hj]
  · exact PyMap.contains_set d k j v

theorem get_setdefault (d : PyMap) (k j : PyStr) (v : PyVal) :
    PyMap.get (PyMap.setdefault d k v) j =
      if j = k ∧ PyMap.contains d k = false then v else PyMap.get d j := by
  unfold PyMap.setdefault
  split
  · next h => simp [h]
  · next h => simp [h, PyMap.get_set]

/-- The fields that are new to the dictionary are appended, and nothing else happens. -/
theorem fill_eq_append (d : PyMap) (fields : List (PyStr × PyVal)) :
    ∃ added, fill d fields = d ++ added ∧
      ∀ kv ∈ added, ∃ f ∈ fields, kv = (.str f.1, f.2) ∧ PyMap.contains d f.1 = false := by
  induction fields generalizing d with
  | nil => exact ⟨[], by simp, by simp⟩
  | cons f fields ih =>
    obtain ⟨added, hfill, hadded⟩ := ih (PyMap.setdefault d f.1 f.2)
    have hrest : ∀ kv ∈ added, ∃ f' ∈ f :: fields, kv = (.str f'.1, f'.2) ∧ PyMap.contains d f'.1 = false := by
      intro kv hkv
      obtain ⟨f', hf', hkv', hnew⟩ := hadded kv hkv
      rw [contains_setdefault, Bool.or_eq_false_iff] at hnew
      exact ⟨f', List.mem_cons_of_mem f hf', hkv', hnew.2⟩
    rw [fill_cons, hfill]
    cases hc : PyMap.contains d f.1 with
    | true =>
      rw [setdefault_of_contains hc]
      exact ⟨added, rfl, hrest⟩
    | false =>
      rw [setdefault_of_new hc, List.append_assoc]
      refine ⟨_, rfl, fun kv hkv => ?_⟩
      rcases List.mem_append.mp hkv with hkv | hkv
      · rw [List.mem_singleton.mp hkv]
        exact ⟨f, List.mem_cons_self .., rfl, hc⟩
      · exact hrest kv hkv

theorem contains_fill (d : PyMap) (fields : List (PyStr × PyVal)) (k : PyStr) :
    PyMap.contains (fill d fields) k = true ↔ PyMap.contains d k = true ∨ k ∈ fields.map Prod.fst := by
  induction fields generalizing d with
  | nil => simp
  | cons f fields ih =>
    rw [fill_cons, ih, contains_setdefault, List.map_cons, List.mem_cons]
    simp only [Bool.or_eq_true, beq_iff_eq]
    tauto

/-- A key that is there keeps its value, and so does one that is not given. -/
theorem get_fill_other {d : PyMap} {fields : List (PyStr × PyVal)} {k : PyStr}
    (h : PyMap.contains d k = true ∨ k ∉ fields.map Prod.fst) : PyMap.get (fill d fields) k = PyMap.get d k := by
  induction fields generalizing d with
  | nil => rfl
  | cons f fields ih =>
    have hkeep : PyMap.get (PyMap.setdefault d f.1 f.2) k = PyMap.get d k := by
      rw [get_setdefault]
      split
      · next hf =>
        obtain ⟨rfl, hnew⟩ := hf
        simp [hnew] at h
      · rfl
    rw [fill_cons, ih, hkeep]
    rw [contains_setdefault]
    rcases h with h | h
    · exact .inl (by simp [h])
    · exact .inr fun hmem => h (List.mem_cons_of_mem _ hmem)

theorem fill_eq_self {d : PyMap} {fields : List (PyStr × PyVal)} :
    fill d fields = d ↔ ∀ f ∈ fields, PyMap.contains d f.1 = true := by
  constructor
  · intro h f hf
    rw [← h, contains_fill]
    exact .inr (List.mem_map_of_mem hf)
  · intro h
    induction fields with
    | nil => rfl
    | cons f fields ih =>
      rw [fill_cons, setdefault_of_contains (h f (List.mem_cons_self ..))]
      exact ih fun f' hf' => h f' (List.mem_cons_of_mem _ hf')

/-! ## The fields of an entry -/

/-- A field that is given only where there is a text. -/
def idField (key : PyStr) (id : Option PyStr) : List (PyStr × PyVal) :=
  (given id).toList.map fun text => (key, .str text)

def symbolFields (symbol : PyVal) : List (PyStr × PyVal) :=
  if truthy symbol then [("symbol", symbol), ("data_name", symbol)] else []

def fields (e : OrderEntry) : List (PyStr × PyVal) :=
  ("strategy_id", .str e.strategyId) :: ("request_id", .str e.requestId) ::
    (idField "client_order_id" e.clientOrderId ++ idField "venue_order_id" e.venueOrderId ++
      symbolFields e.symbol)

theorem withEntry_eq (e : OrderEntry) (event : PyMap) : withEntry e event = fill event (fields e) := by
  unfold withEntry fields idField symbolFields
  cases given e.clientOrderId <;> cases given e.venueOrderId <;> cases truthy e.symbol <;> rfl

/-! ## What changes -/

section

variable {py : Interp} {m : OrderIdentityMap}

/-- The two indexes after the ids are recorded: only the slots of ids that are
new to the entry are written, and only if an entry is stored under its request id. -/
theorem byClient_withVenue (m : OrderIdentityMap) (r : PyStr) (id : Option PyStr) (c : PyStr) :
    byClient (match id with
      | some v => (setVenueOrderId m r v).2
      | none => m) c = byClient m c := by
  cases id with
  | none => rfl
  | some v => exact (setVenueOrderId_spec m r v).2.1 c

theorem byVenue_withVenue (m : OrderIdentityMap) (r : PyStr) (id : Option PyStr) (v : PyStr) :
    byVenue (match id with
      | some v => (setVenueOrderId m r v).2
      | none => m) v =
    if id = some v ∧ (byRequest m r).isSome then byRequest m r else byVenue m v := by
  cases id with
  | none => simp
  | some w => simpa only [Option.some.injEq, eq_comm] using (setVenueOrderId_spec m r w).2.2.1 v

theorem byClient_recordEventOrderIds (e : OrderEntry) (event : PyMap) (c : PyStr) :
    byClient (_recordEventOrderIds py m e event) c =
      if newClient py e event = some c ∧ (byRequest m e.requestId).isSome then byRequest m e.requestId
      else byClient m c := by
  refine (byClient_withVenue _ e.requestId (newVenue py e event) c).trans ?_
  cases newClient py e event with
  | none => simp
  | some d => simpa only [Option.some.injEq, eq_comm] using (setClientOrderId_spec m e.requestId d).2.1 c

theorem byVenue_recordEventOrderIds (e : OrderEntry) (event : PyMap) (v : PyStr) :
    byVenue (_recordEventOrderIds py m e event) v =
      if newVenue py e event = some v ∧ (byRequest m e.requestId).isSome then byRequest m e.requestId
      else byVenue m v := by
  refine (byVenue_withVenue _ e.requestId (newVenue py e event) v).trans ?_
  cases newClient py e event with
  | none => rfl
  | some c =>
    have hs := setClientOrderId_spec m e.requestId c
    rw [hs.1, hs.2.2.1]

/-- The event that is published for a dictionary that matches `e`, and the map after it. -/
theorem enrich_eq {event : PyMap} {ref : Ref} {e : OrderEntry}
    (h : _orderEntryForEvent py m event = some ref) (he : entry m ref = some e) :
    _enrichEventPayload py m (.dict event) =
      (.dict (withEntry e event), match newStatus py (withEntry e event) with
        | some status => (updateStatus (_recordEventOrderIds py m e (withEntry e event)) e.requestId status).2
        | none => _recordEventOrderIds py m e (withEntry e event)) := by
  cases hstatus : newStatus py (withEntry e event) with
  | none => simp only [_enrichEventPayload, h, he, hstatus]
  | some status => simp only [_enrichEventPayload, h, he, hstatus]

theorem enrich_none {event : PyMap} (h : _orderEntryForEvent py m event = none) :
    _enrichEventPayload py m (.dict event) = (.dict event, m) := by
  simp only [_enrichEventPayload, h]

theorem indexes_enrich {event : PyMap} {ref : Ref} {e : OrderEntry}
    (h : _orderEntryForEvent py m event = some ref) (he : entry m ref = some e) (id : PyStr) :
    byClient (_enrichEventPayload py m (.dict event)).2 id =
        (if newClient py e (withEntry e event) = some id ∧ (byRequest m e.requestId).isSome then
          byRequest m e.requestId else byClient m id) ∧
      byVenue (_enrichEventPayload py m (.dict event)).2 id =
        if newVenue py e (withEntry e event) = some id ∧ (byRequest m e.requestId).isSome then
          byRequest m e.requestId else byVenue m id := by
  rw [enrich_eq h he, ← byClient_recordEventOrderIds, ← byVenue_recordEventOrderIds]
  cases newStatus py (withEntry e event) with
  | none => exact ⟨rfl, rfl⟩
  | some status =>
    have hs := updateStatus_spec (_recordEventOrderIds py m e (withEntry e event)) e.requestId status
    exact ⟨hs.2.1 id, hs.2.2.1 id⟩

/-- The names and values that an event can be given from entry `e`. -/
inductive Given (e : OrderEntry) : PyStr → PyVal → Prop where
  | strategyId : Given e "strategy_id" (.str e.strategyId)
  | requestId : Given e "request_id" (.str e.requestId)
  | clientOrderId {c : PyStr} (h : e.clientOrderId = some c) : Given e "client_order_id" (.str c)
  | venueOrderId {v : PyStr} (h : e.venueOrderId = some v) : Given e "venue_order_id" (.str v)
  | symbol : Given e "symbol" e.symbol
  | dataName : Given e "data_name" e.symbol

theorem given_of_mem_fields {e : OrderEntry} {f : PyStr × PyVal} (h : f ∈ fields e) : Given e f.1 f.2 := by
  simp only [fields, List.mem_append, List.mem_cons] at h
  rcases h with rfl | rfl | (h | h) | h
  · exact .strategyId
  · exact .requestId
  · obtain ⟨c, hc, rfl⟩ := List.mem_map.mp h
    have hc' : given e.clientOrderId = some c := by simpa using hc
    exact .clientOrderId (((given_eq_some _ c).mp hc').1)
  · obtain ⟨v, hv, rfl⟩ := List.mem_map.mp h
    have hv' : given e.venueOrderId = some v := by simpa using hv
    exact .venueOrderId (((given_eq_some _ v).mp hv').1)
  · unfold symbolFields at h
    split at h
    · simp only [List.mem_cons, List.not_mem_nil, or_false] at h
      rcases h with rfl | rfl
      · exact .symbol
      · exact .dataName
    · simp at h

/-- What enriching `event` with the fields of entry `e` may change. -/
structure Framed (py : Interp) (m : OrderIdentityMap) (event : PyMap) (e : OrderEntry) (published : PyMap)
    (m' : OrderIdentityMap) : Prop where
  /-- Everything that the event holds stays where it is, and new keys follow. -/
  event : ∃ added, published = event ++ added ∧
    ∀ kv ∈ added, ∃ name v, kv = (.str name, v) ∧ PyMap.contains event name = false ∧ Given e name v
  requests : ∀ r, byRequest m' r = byRequest m r
  stored : ∀ j, entry m' j ≠ entry m j → byRequest m e.requestId = some j
  amended : ∀ j, ∃ (client venue : OrderEntry → Option PyStr) (status : OrderEntry → PyStr), entry m' j = (entry m j).map fun old =>
    { old with clientOrderId := client old, venueOrderId := venue old, status := status old }
  clients : ∀ c, byClient m' c ≠ byClient m c → newClient py e published = some c
  venues : ∀ v, byVenue m' v ≠ byVenue m v → newVenue py e published = some v

theorem framed_enrich {event : PyMap} {ref : Ref} {e : OrderEntry}
    (h : _orderEntryForEvent py m event = some ref) (he : entry m ref = some e) :
    Framed py m event e (withEntry e event) (_enrichEventPayload py m (.dict event)).2 := by
  have hm := enrich_matched h he
  refine ⟨?_, hm.1, fun j hj => ?_, fun j => ?_, fun c hc => ?_, fun v hv => ?_⟩
  · obtain ⟨added, hfill, hadded⟩ := fill_eq_append event (fields e)
    refine ⟨added, by rw [withEntry_eq, hfill], fun kv hkv => ?_⟩
    obtain ⟨f, hf, rfl, hnew⟩ := hadded kv hkv
    exact ⟨f.1, f.2, rfl, hnew, given_of_mem_fields hf⟩
  · by_contra hno
    exact hj (by rw [hm.2, if_neg hno])
  · rw [hm.2]
    split
    · exact ⟨_, _, _, rfl⟩
    · exact ⟨OrderEntry.clientOrderId, OrderEntry.venueOrderId, OrderEntry.status, by simp⟩
  · by_contra hno
    exact hc (by rw [(indexes_enrich h he c).1, if_neg (by simp [hno])])
  · by_contra hno
    exact hv (by rw [(indexes_enrich h he v).2, if_neg (by simp [hno])])

/-- A payload that is no dictionary is returned as it is, and so is a dictionary
that matches no entry; neither changes the map. A dictionary that matches an
entry is framed by it. -/
theorem enrich_frame (py : Interp) (m : OrderIdentityMap) :
    (∀ payload, (∀ event, payload ≠ .dict event) → _enrichEventPayload py m payload = (payload, m)) ∧
    ∀ event, match _orderEntryForEvent py m event with
      | none => _enrichEventPayload py m (.dict event) = (.dict event, m)
      | some ref => ∃ e published m', entry m ref = some e ∧
          _enrichEventPayload py m (.dict event) = (.dict published, m') ∧ Framed py m event e published m' := by
  refine ⟨fun payload hp => ?_, fun event => ?_⟩
  · cases payload with
    | dict event => exact absurd rfl (hp event)
    | _ => rfl
  · cases h : _orderEntryForEvent py m event with
    | none => exact enrich_none h
    | some ref =>
      obtain ⟨e, he⟩ := entry_of_orderEntryForEvent h
      refine ⟨e, _, _, he, ?_, framed_enrich h he⟩
      rw [enrich_eq h he]

end

end EventEnrichment
