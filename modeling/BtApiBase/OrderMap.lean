import BtApiBase.PyValue

/-!
# The order identity map

Entries are mutable objects that three dictionaries share, so an entry is known
by its reference, the position at which it was made, and a dictionary maps an id
to a reference. Entries are never forgotten: removing an order only takes its
keys away, which is what makes a forgotten key observable.
-/

namespace OrderMap

open PyText PyDict PyValue

abbrev Ref := Nat

structure OrderEntry where
  requestId : PyStr
  strategyId : PyStr
  clientOrderId : Option PyStr
  venueOrderId : Option PyStr
  symbol : PyVal
  status : PyStr

namespace OrderEntry

def withClient (c : PyStr) (e : OrderEntry) : OrderEntry := { e with clientOrderId := some c }
def withVenue (v : PyStr) (e : OrderEntry) : OrderEntry := { e with venueOrderId := some v }
def withStatus (status : PyStr) (e : OrderEntry) : OrderEntry := { e with status := status }

end OrderEntry

/-- Every reference in a dictionary points at an entry, and the request
dictionary stores an entry under its own request id. -/
structure OrderIdentityMap where
  entries : List OrderEntry
  _byRequest : Dict PyStr Ref
  _byClientOid : Dict PyStr Ref
  _byVenueOid : Dict PyStr Ref
  stored : ∀ r ref, _byRequest.get r = some ref → ∃ e, entries[ref]? = some e ∧ e.requestId = r
  client_lt : ∀ c ref, _byClientOid.get c = some ref → ref < entries.length
  venue_lt : ∀ v ref, _byVenueOid.get v = some ref → ref < entries.length

def empty : OrderIdentityMap where
  entries := []
  _byRequest := .empty
  _byClientOid := .empty
  _byVenueOid := .empty
  stored := by simp
  client_lt := by simp
  venue_lt := by simp

instance : Inhabited OrderIdentityMap := ⟨empty⟩

/-- The id, if it is given and not empty. -/
def given (id : Option PyStr) : Option PyStr := id.filter (· != [])

@[simp] theorem given_none : given none = none := rfl

@[simp] theorem given_eq_some (id : Option PyStr) (c : PyStr) :
    given id = some c ↔ id = some c ∧ c ≠ [] := by
  cases id <;> simp [given, Option.filter_eq_some_iff]

section

variable (m : OrderIdentityMap)

def entry (ref : Ref) : Option OrderEntry := m.entries[ref]?

def byRequest (requestId : PyStr) : Option Ref := m._byRequest.get requestId
def byClient (clientOrderId : PyStr) : Option Ref := m._byClientOid.get clientOrderId
def byVenue (venueOrderId : PyStr) : Option Ref := m._byVenueOid.get venueOrderId

def strategyForRequest (requestId : PyStr) : Option PyStr :=
  (byRequest m requestId).bind fun ref => (entry m ref).map (·.strategyId)

def strategyForVenue (venueOrderId : PyStr) : Option PyStr :=
  (byVenue m venueOrderId).bind fun ref => (entry m ref).map (·.strategyId)

/-- Make a new object and store it under its request id. -/
def insert (e : OrderEntry) : OrderIdentityMap where
  entries := m.entries ++ [e]
  _byRequest := m._byRequest.set e.requestId m.entries.length
  _byClientOid := m._byClientOid
  _byVenueOid := m._byVenueOid
  stored := by
    intro r ref h
    rw [Dict.get_set] at h
    split at h
    · next hr => cases h; exact ⟨e, by simp, hr.symm⟩
    · obtain ⟨e', he, hr⟩ := m.stored r ref h
      exact ⟨e', by rw [List.getElem?_append_left (by grind), he], hr⟩
  client_lt c ref h := by simpa using Nat.lt_succ_of_lt (m.client_lt c ref h)
  venue_lt v ref h := by simpa using Nat.lt_succ_of_lt (m.venue_lt v ref h)

/-- Assign to attributes of an object; nothing assigns to `request_id`. -/
def amend (ref : Ref) (f : OrderEntry → OrderEntry) : OrderIdentityMap where
  entries := m.entries.modify ref fun e => { f e with requestId := e.requestId }
  _byRequest := m._byRequest
  _byClientOid := m._byClientOid
  _byVenueOid := m._byVenueOid
  stored := by
    intro r j h
    obtain ⟨e, he, hr⟩ := m.stored r j h
    rw [List.getElem?_modify, he]
    by_cases hj : ref = j
    · exact ⟨{ f e with requestId := e.requestId }, by simp [hj], hr⟩
    · exact ⟨e, by simp [hj], hr⟩
  client_lt c j h := by simpa using m.client_lt c j h
  venue_lt v j h := by simpa using m.venue_lt v j h

/-- `_by_client_oid[c] = entry`. A reference at hand always points at an entry,
so the test only lets the fields above be stated. -/
def indexClient (c : PyStr) (ref : Ref) : OrderIdentityMap :=
  if h : ref < m.entries.length then
    { m with
      _byClientOid := m._byClientOid.set c ref
      client_lt := fun d j hd => by
        rw [Dict.get_set] at hd
        split at hd
        · cases hd; exact h
        · exact m.client_lt d j hd }
  else m

def indexVenue (v : PyStr) (ref : Ref) : OrderIdentityMap :=
  if h : ref < m.entries.length then
    { m with
      _byVenueOid := m._byVenueOid.set v ref
      venue_lt := fun d j hd => by
        rw [Dict.get_set] at hd
        split at hd
        · cases hd; exact h
        · exact m.venue_lt d j hd }
  else m

def popRequest (r : PyStr) : OrderIdentityMap :=
  { m with
    _byRequest := m._byRequest.pop r
    stored := fun s ref h => by
      rw [Dict.get_pop] at h
      split at h
      · cases h
      · exact m.stored s ref h }

/-- Forget the slot of an id, if there is one. -/
def popClient : Option PyStr → OrderIdentityMap
  | none => m
  | some c =>
    { m with
      _byClientOid := m._byClientOid.pop c
      client_lt := fun d ref h => by
        rw [Dict.get_pop] at h
        split at h
        · cases h
        · exact m.client_lt d ref h }

def popVenue : Option PyStr → OrderIdentityMap
  | none => m
  | some v =>
    { m with
      _byVenueOid := m._byVenueOid.pop v
      venue_lt := fun d ref h => by
        rw [Dict.get_pop] at h
        split at h
        · cases h
        · exact m.venue_lt d ref h }

/-! ## The methods -/

def register (requestId strategyId : PyStr) (clientOrderId venueOrderId : Option PyStr)
    (symbol : PyVal) : Ref × OrderIdentityMap :=
  let ref := m.entries.length
  let m := insert m ⟨requestId, strategyId, clientOrderId, venueOrderId, symbol, "pending"⟩
  let m := match given clientOrderId with
    | some c => indexClient m c ref
    | none => m
  let m := match given venueOrderId with
    | some v => indexVenue m v ref
    | none => m
  (ref, m)

def setClientOrderId (requestId clientOrderId : PyStr) : Option Ref × OrderIdentityMap :=
  match byRequest m requestId with
  | none => (none, m)
  | some ref =>
    let m := amend m ref (.withClient clientOrderId)
    (some ref, indexClient m clientOrderId ref)

def setVenueOrderId (requestId venueOrderId : PyStr) : Option Ref × OrderIdentityMap :=
  match byRequest m requestId with
  | none => (none, m)
  | some ref =>
    let m := amend m ref (.withVenue venueOrderId)
    (some ref, indexVenue m venueOrderId ref)

def setVenueOrderIdByClient (clientOrderId venueOrderId : PyStr) :
    Option Ref × OrderIdentityMap :=
  match byClient m clientOrderId with
  | none => (none, m)
  | some ref =>
    let m := amend m ref (.withVenue venueOrderId)
    (some ref, indexVenue m venueOrderId ref)

def updateStatus (requestId status : PyStr) : Option Ref × OrderIdentityMap :=
  match byRequest m requestId with
  | none => (none, m)
  | some ref => (some ref, amend m ref (.withStatus status))

def remove (requestId : PyStr) : Option Ref × OrderIdentityMap :=
  match byRequest m requestId with
  | none => (none, m)
  | some ref =>
    let client := (entry m ref).bind (given ·.clientOrderId)
    let venue := (entry m ref).bind (given ·.venueOrderId)
    (some ref, popVenue (popClient (popRequest m requestId) client) venue)

def count : Nat := m._byRequest.length

def ordersForStrategy (strategyId : PyStr) : List Ref :=
  m._byRequest.values.filter fun ref => (entry m ref).any (·.strategyId = strategyId)

end

/-! ## What the parts do -/

section

variable {m : OrderIdentityMap}

theorem entry_of_byRequest {r : PyStr} {ref : Ref} (h : byRequest m r = some ref) :
    ∃ e, entry m ref = some e ∧ e.requestId = r := m.stored r ref h

theorem entry_of_lt {ref : Ref} (h : ref < m.entries.length) : ∃ e, entry m ref = some e :=
  ⟨m.entries[ref], List.getElem?_eq_getElem h⟩

theorem lt_of_entry {ref : Ref} {e : OrderEntry} (h : entry m ref = some e) :
    ref < m.entries.length := (List.getElem?_eq_some_iff.mp h).1

theorem lt_of_byRequest {r : PyStr} {ref : Ref} (h : byRequest m r = some ref) :
    ref < m.entries.length := by
  obtain ⟨e, he, -⟩ := entry_of_byRequest h
  exact lt_of_entry he

variable (m)

theorem byRequest_insert (e : OrderEntry) (r : PyStr) :
    byRequest (insert m e) r = if r = e.requestId then some m.entries.length else byRequest m r :=
  Dict.get_set _ _ _ _

theorem entry_insert (e : OrderEntry) (ref : Ref) :
    entry (insert m e) ref = if ref = m.entries.length then some e else entry m ref := by
  simp only [entry, insert]
  split
  · next h => simp [h]
  · next h =>
    rcases Nat.lt_or_gt_of_ne h with hlt | hgt
    · rw [List.getElem?_append_left hlt]
    · rw [List.getElem?_eq_none (by simp; omega), List.getElem?_eq_none (by omega)]

@[simp] theorem byClient_insert (e : OrderEntry) (c : PyStr) :
    byClient (insert m e) c = byClient m c := rfl
@[simp] theorem byVenue_insert (e : OrderEntry) (v : PyStr) :
    byVenue (insert m e) v = byVenue m v := rfl
@[simp] theorem length_insert (e : OrderEntry) :
    (insert m e).entries.length = m.entries.length + 1 := by simp [insert]

theorem entry_amend (ref j : Ref) (f : OrderEntry → OrderEntry) :
    entry (amend m ref f) j =
      if ref = j then (entry m j).map fun e => { f e with requestId := e.requestId }
      else entry m j := by
  simp only [entry, amend, List.getElem?_modify]
  split <;> simp

theorem entry_amend_of {ref : Ref} {e : OrderEntry} (h : entry m ref = some e)
    (f : OrderEntry → OrderEntry) (j : Ref) :
    entry (amend m ref f) j =
      if ref = j then some { f e with requestId := e.requestId } else entry m j := by
  rw [entry_amend]
  split
  · next hj => rw [← hj, h]; rfl
  · rfl

@[simp] theorem byRequest_amend (ref : Ref) (f : OrderEntry → OrderEntry) (r : PyStr) :
    byRequest (amend m ref f) r = byRequest m r := rfl
@[simp] theorem byClient_amend (ref : Ref) (f : OrderEntry → OrderEntry) (c : PyStr) :
    byClient (amend m ref f) c = byClient m c := rfl
@[simp] theorem byVenue_amend (ref : Ref) (f : OrderEntry → OrderEntry) (v : PyStr) :
    byVenue (amend m ref f) v = byVenue m v := rfl
@[simp] theorem length_amend (ref : Ref) (f : OrderEntry → OrderEntry) :
    (amend m ref f).entries.length = m.entries.length := by simp [amend]

@[simp] theorem entry_indexClient (c : PyStr) (ref j : Ref) :
    entry (indexClient m c ref) j = entry m j := by
  unfold indexClient; split <;> rfl
@[simp] theorem length_indexClient (c : PyStr) (ref : Ref) :
    (indexClient m c ref).entries.length = m.entries.length := by
  unfold indexClient; split <;> rfl
@[simp] theorem byRequest_indexClient (c : PyStr) (ref : Ref) (r : PyStr) :
    byRequest (indexClient m c ref) r = byRequest m r := by
  unfold indexClient; split <;> rfl
@[simp] theorem byVenue_indexClient (c : PyStr) (ref : Ref) (v : PyStr) :
    byVenue (indexClient m c ref) v = byVenue m v := by
  unfold indexClient; split <;> rfl

theorem byClient_indexClient {ref : Ref} (h : ref < m.entries.length) (c d : PyStr) :
    byClient (indexClient m c ref) d = if d = c then some ref else byClient m d := by
  simp only [indexClient, h, ↓reduceDIte]
  exact Dict.get_set _ _ _ _

@[simp] theorem entry_indexVenue (v : PyStr) (ref j : Ref) :
    entry (indexVenue m v ref) j = entry m j := by
  unfold indexVenue; split <;> rfl
@[simp] theorem length_indexVenue (v : PyStr) (ref : Ref) :
    (indexVenue m v ref).entries.length = m.entries.length := by
  unfold indexVenue; split <;> rfl
@[simp] theorem byRequest_indexVenue (v : PyStr) (ref : Ref) (r : PyStr) :
    byRequest (indexVenue m v ref) r = byRequest m r := by
  unfold indexVenue; split <;> rfl
@[simp] theorem byClient_indexVenue (v : PyStr) (ref : Ref) (c : PyStr) :
    byClient (indexVenue m v ref) c = byClient m c := by
  unfold indexVenue; split <;> rfl

theorem byVenue_indexVenue {ref : Ref} (h : ref < m.entries.length) (v w : PyStr) :
    byVenue (indexVenue m v ref) w = if w = v then some ref else byVenue m w := by
  simp only [indexVenue, h, ↓reduceDIte]
  exact Dict.get_set _ _ _ _

theorem byRequest_popRequest (r q : PyStr) :
    byRequest (popRequest m r) q = if q = r then none else byRequest m q := Dict.get_pop _ _ _
@[simp] theorem entry_popRequest (r : PyStr) (j : Ref) :
    entry (popRequest m r) j = entry m j := rfl
@[simp] theorem byClient_popRequest (r c : PyStr) :
    byClient (popRequest m r) c = byClient m c := rfl
@[simp] theorem byVenue_popRequest (r v : PyStr) :
    byVenue (popRequest m r) v = byVenue m v := rfl

theorem byClient_popClient (c : Option PyStr) (d : PyStr) :
    byClient (popClient m c) d = if c = some d then none else byClient m d := by
  cases c with
  | none => simp [popClient]
  | some c =>
    have h : byClient (popClient m (some c)) d = if d = c then none else byClient m d :=
      Dict.get_pop _ _ _
    simp [h, eq_comm]
@[simp] theorem entry_popClient (c : Option PyStr) (j : Ref) :
    entry (popClient m c) j = entry m j := by cases c <;> rfl
@[simp] theorem byRequest_popClient (c : Option PyStr) (r : PyStr) :
    byRequest (popClient m c) r = byRequest m r := by cases c <;> rfl
@[simp] theorem byVenue_popClient (c : Option PyStr) (v : PyStr) :
    byVenue (popClient m c) v = byVenue m v := by cases c <;> rfl

theorem byVenue_popVenue (v : Option PyStr) (w : PyStr) :
    byVenue (popVenue m v) w = if v = some w then none else byVenue m w := by
  cases v with
  | none => simp [popVenue]
  | some v =>
    have h : byVenue (popVenue m (some v)) w = if w = v then none else byVenue m w :=
      Dict.get_pop _ _ _
    simp [h, eq_comm]
@[simp] theorem entry_popVenue (v : Option PyStr) (j : Ref) :
    entry (popVenue m v) j = entry m j := by cases v <;> rfl
@[simp] theorem byRequest_popVenue (v : Option PyStr) (r : PyStr) :
    byRequest (popVenue m v) r = byRequest m r := by cases v <;> rfl
@[simp] theorem byClient_popVenue (v : Option PyStr) (c : PyStr) :
    byClient (popVenue m v) c = byClient m c := by cases v <;> rfl

/-! ## What the methods do -/

/-- A registration makes one entry and touches the index slots of its ids only. -/
theorem register_spec (r s : PyStr) (c v : Option PyStr) (symbol : PyVal) :
    (∀ q, byRequest (register m r s c v symbol).2 q =
      if q = r then some m.entries.length else byRequest m q) ∧
    (∀ d, byClient (register m r s c v symbol).2 d =
      if given c = some d then some m.entries.length else byClient m d) ∧
    (∀ w, byVenue (register m r s c v symbol).2 w =
      if given v = some w then some m.entries.length else byVenue m w) ∧
    (∀ j, entry (register m r s c v symbol).2 j =
      if j = m.entries.length then some ⟨r, s, c, v, symbol, "pending"⟩ else entry m j) := by
  unfold register
  cases hc : given c <;> cases hv : given v <;>
    simp [byRequest_insert, entry_insert, byClient_indexClient, byVenue_indexVenue, eq_comm]

@[simp] theorem length_register (r s : PyStr) (c v : Option PyStr) (symbol : PyVal) :
    (register m r s c v symbol).2.entries.length = m.entries.length + 1 := by
  unfold register
  cases given c <;> cases given v <;> simp

variable {m}

theorem setClientOrderId_eq {r : PyStr} {ref : Ref} (h : byRequest m r = some ref) (c : PyStr) :
    setClientOrderId m r c =
      (some ref, indexClient (amend m ref (.withClient c)) c ref) := by
  simp [setClientOrderId, h]

theorem setVenueOrderId_eq {r : PyStr} {ref : Ref} (h : byRequest m r = some ref) (v : PyStr) :
    setVenueOrderId m r v =
      (some ref, indexVenue (amend m ref (.withVenue v)) v ref) := by
  simp [setVenueOrderId, h]

/-- The two indexes of an order that is found, and the entries, after each of
the three methods that update an order through its request id. -/
theorem setClientOrderId_spec (m : OrderIdentityMap) (r c : PyStr) :
    (∀ q, byRequest (setClientOrderId m r c).2 q = byRequest m q) ∧
    (∀ d, byClient (setClientOrderId m r c).2 d =
      if d = c ∧ (byRequest m r).isSome then byRequest m r else byClient m d) ∧
    (∀ v, byVenue (setClientOrderId m r c).2 v = byVenue m v) ∧
    (∀ j, entry (setClientOrderId m r c).2 j =
      if byRequest m r = some j then (entry m j).map (.withClient c) else entry m j) := by
  cases h : byRequest m r with
  | none => simp [setClientOrderId, h]
  | some ref =>
    have hlt := lt_of_byRequest h
    rw [setClientOrderId_eq h]
    refine ⟨by simp, fun d => ?_, by simp, fun j => ?_⟩
    · simp [byClient_indexClient, hlt]
    · simp only [entry_indexClient, entry_amend, Option.some.injEq]
      rfl

theorem setVenueOrderId_spec (m : OrderIdentityMap) (r v : PyStr) :
    (∀ q, byRequest (setVenueOrderId m r v).2 q = byRequest m q) ∧
    (∀ c, byClient (setVenueOrderId m r v).2 c = byClient m c) ∧
    (∀ w, byVenue (setVenueOrderId m r v).2 w =
      if w = v ∧ (byRequest m r).isSome then byRequest m r else byVenue m w) ∧
    (∀ j, entry (setVenueOrderId m r v).2 j =
      if byRequest m r = some j then (entry m j).map (.withVenue v) else entry m j) := by
  cases h : byRequest m r with
  | none => simp [setVenueOrderId, h]
  | some ref =>
    have hlt := lt_of_byRequest h
    rw [setVenueOrderId_eq h]
    refine ⟨by simp, by simp, fun w => ?_, fun j => ?_⟩
    · simp [byVenue_indexVenue, hlt]
    · simp only [entry_indexVenue, entry_amend, Option.some.injEq]
      rfl

theorem updateStatus_spec (m : OrderIdentityMap) (r status : PyStr) :
    (∀ q, byRequest (updateStatus m r status).2 q = byRequest m q) ∧
    (∀ c, byClient (updateStatus m r status).2 c = byClient m c) ∧
    (∀ v, byVenue (updateStatus m r status).2 v = byVenue m v) ∧
    (∀ j, entry (updateStatus m r status).2 j =
      if byRequest m r = some j then (entry m j).map (.withStatus status) else entry m j) := by
  cases h : byRequest m r with
  | none => simp [updateStatus, h]
  | some ref =>
    refine ⟨by simp [updateStatus, h], by simp [updateStatus, h], by simp [updateStatus, h],
      fun j => ?_⟩
    simp only [updateStatus, h, entry_amend, Option.some.injEq]
    rfl

/-- A removal takes away the request key and the two slots of the current ids. -/
theorem remove_spec {r : PyStr} {ref : Ref} {e : OrderEntry} (h : byRequest m r = some ref)
    (he : entry m ref = some e) :
    (remove m r).1 = some ref ∧
    (∀ q, byRequest (remove m r).2 q = if q = r then none else byRequest m q) ∧
    (∀ d, byClient (remove m r).2 d = if given e.clientOrderId = some d then none else byClient m d) ∧
    (∀ w, byVenue (remove m r).2 w = if given e.venueOrderId = some w then none else byVenue m w) ∧
    (∀ j, entry (remove m r).2 j = entry m j) := by
  simp [remove, h, he, byRequest_popRequest, byClient_popClient, byVenue_popVenue]

end

end OrderMap
