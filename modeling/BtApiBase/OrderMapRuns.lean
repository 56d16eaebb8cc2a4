import BtApiBase.Runs
import BtApiBase.OrderMap

/-!
# Operations on the order identity map

The six operations as labels of a run, and everything that one of them can do:
the laws about whole histories argue from `Effect` and never open a method.
-/

namespace OrderMapRuns

open PyText PyDict PyValue OrderMap Runs

inductive Op where
  | register (requestId strategyId : PyStr) (clientOrderId venueOrderId : Option PyStr)
      (symbol : PyVal)
  | setClientOrderId (requestId clientOrderId : PyStr)
  | setVenueOrderId (requestId venueOrderId : PyStr)
  | setVenueOrderIdByClient (clientOrderId venueOrderId : PyStr)
  | updateStatus (requestId status : PyStr)
  | remove (requestId : PyStr)

def apply (m : OrderIdentityMap) : Op → OrderIdentityMap
  | .register r s c v symbol => (register m r s c v symbol).2
  | .setClientOrderId r c => (setClientOrderId m r c).2
  | .setVenueOrderId r v => (setVenueOrderId m r v).2
  | .setVenueOrderIdByClient c v => (setVenueOrderIdByClient m c v).2
  | .updateStatus r status => (updateStatus m r status).2
  | .remove r => (remove m r).2

/-- The request id that an operation registers. -/
def Op.registers : Op → Option PyStr
  | .register r _ _ _ _ => some r
  | _ => none

/-- The client id that an operation gives to an order, with its request id. -/
def clientGift (m : OrderIdentityMap) : Op → List (PyStr × PyStr)
  | .register r _ c _ _ => ((given c).map (·, r)).toList
  | .setClientOrderId r c => if (byRequest m r).isSome ∧ c ≠ [] then [(c, r)] else []
  | _ => []

def venueGift (m : OrderIdentityMap) : Op → List (PyStr × PyStr)
  | .register r _ _ v _ => ((given v).map (·, r)).toList
  | .setVenueOrderId r v => if (byRequest m r).isSome ∧ v ≠ [] then [(v, r)] else []
  | .setVenueOrderIdByClient c v =>
    match (byClient m c).bind (entry m) with
    | some e => if v ≠ [] then [(v, e.requestId)] else []
    | none => []
  | _ => []

/-- The order is stored in the map. -/
def Live (m : OrderIdentityMap) (ref : Ref) : Prop := ∃ r, byRequest m r = some ref

/-- What one operation can do. The two ways to set a venue id differ only in
how they find the entry. -/
inductive Effect (m : OrderIdentityMap) : Op → OrderIdentityMap → Prop
  | unknown (op : Op) (hr : op.registers = none)
      (hm : ∀ r, op = .remove r → byRequest m r = none) : Effect m op m
  | register (r s : PyStr) (c v : Option PyStr) (symbol : PyVal) :
      Effect m (.register r s c v symbol) (register m r s c v symbol).2
  | client {r : PyStr} {ref : Ref} {e : OrderEntry} (c : PyStr) (h : byRequest m r = some ref)
      (he : entry m ref = some e) (hr : e.requestId = r) :
      Effect m (.setClientOrderId r c)
        (indexClient (amend m ref (.withClient c)) c ref)
  | venue (op : Op) {ref : Ref} {e : OrderEntry} (v : PyStr) (he : entry m ref = some e)
      (hop : (∃ r, op = .setVenueOrderId r v ∧ byRequest m r = some ref) ∨
        ∃ c, op = .setVenueOrderIdByClient c v ∧ byClient m c = some ref)
      (hg : v ≠ [] → (v, e.requestId) ∈ venueGift m op) :
      Effect m op (indexVenue (amend m ref (.withVenue v)) v ref)
  | status (r status : PyStr) (ref : Ref) :
      Effect m (.updateStatus r status) (amend m ref (.withStatus status))
  | remove {r : PyStr} {ref : Ref} {e : OrderEntry} (h : byRequest m r = some ref)
      (he : entry m ref = some e) (hr : e.requestId = r) :
      Effect m (.remove r) (remove m r).2

theorem effect (m : OrderIdentityMap) (op : Op) : Effect m op (apply m op) := by
  cases op with
  | register r s c v symbol => exact .register r s c v symbol
  | setClientOrderId r c =>
    cases h : byRequest m r with
    | none =>
      rw [show apply m (.setClientOrderId r c) = m by simp only [apply, setClientOrderId, h]]
      exact .unknown _ rfl (by rintro q ⟨⟩)
    | some ref =>
      obtain ⟨e, he, hr⟩ := entry_of_byRequest h
      rw [apply, setClientOrderId_eq h]
      exact .client c h he hr
  | setVenueOrderId r v =>
    cases h : byRequest m r with
    | none =>
      rw [show apply m (.setVenueOrderId r v) = m by simp only [apply, setVenueOrderId, h]]
      exact .unknown _ rfl (by rintro q ⟨⟩)
    | some ref =>
      obtain ⟨e, he, hr⟩ := entry_of_byRequest h
      rw [apply, setVenueOrderId_eq h]
      refine .venue _ v he (.inl ⟨r, rfl, h⟩) fun hv => ?_
      simp [venueGift, h, hv, hr]
  | setVenueOrderIdByClient c v =>
    cases h : byClient m c with
    | none =>
      rw [show apply m (.setVenueOrderIdByClient c v) = m by
        simp only [apply, setVenueOrderIdByClient, h]]
      exact .unknown _ rfl (by rintro q ⟨⟩)
    | some ref =>
      obtain ⟨e, he⟩ := entry_of_lt (m.client_lt c ref h)
      simp only [apply, setVenueOrderIdByClient, h]
      refine .venue _ v he (.inr ⟨c, rfl, h⟩) fun hv => ?_
      simp [venueGift, h, he, hv]
  | updateStatus r status =>
    cases h : byRequest m r with
    | none =>
      rw [show apply m (.updateStatus r status) = m by simp only [apply, updateStatus, h]]
      exact .unknown _ rfl (by rintro q ⟨⟩)
    | some ref =>
      simp only [apply, updateStatus, h]
      exact .status r status ref
  | remove r =>
    cases h : byRequest m r with
    | none =>
      rw [show apply m (.remove r) = m by simp only [apply, OrderMap.remove, h]]
      refine .unknown _ rfl ?_
      rintro q ⟨⟩
      exact h
    | some ref =>
      obtain ⟨e, he, hr⟩ := entry_of_byRequest h
      exact .remove h he hr

/-- No operation changes a request id, and only a registration makes an entry. -/
theorem entry_apply {m : OrderIdentityMap} {op : Op} {j : Ref} {e : OrderEntry}
    (h : entry (apply m op) j = some e) :
    (∃ e', entry m j = some e' ∧ e'.requestId = e.requestId) ∨
      (j = m.entries.length ∧ op.registers = some e.requestId) := by
  have hamend : ∀ ref f, entry (amend m ref f) j = some e →
      ∃ e', entry m j = some e' ∧ e'.requestId = e.requestId := by
    intro ref f ha
    rw [entry_amend] at ha
    split at ha
    · obtain ⟨e', he, rfl⟩ := Option.map_eq_some_iff.mp ha
      exact ⟨e', he, rfl⟩
    · exact ⟨e, ha, rfl⟩
  generalize hm : apply m op = m' at h
  cases hm ▸ effect m op with
  | unknown => exact .inl ⟨e, h, rfl⟩
  | register r s c v symbol =>
    rw [(register_spec m r s c v symbol).2.2.2] at h
    split at h
    · next hj => cases h; exact .inr ⟨hj, rfl⟩
    · exact .inl ⟨e, h, rfl⟩
  | client => exact .inl (hamend _ _ (by simpa using h))
  | venue => exact .inl (hamend _ _ (by simpa using h))
  | status => exact .inl (hamend _ _ h)
  | remove hr he => exact .inl ⟨e, by rwa [(remove_spec hr he).2.2.2.2] at h, rfl⟩

/-- A stored order was stored before, or is the one just made. -/
theorem byRequest_apply {m : OrderIdentityMap} {op : Op} {r : PyStr} {ref : Ref}
    (h : byRequest (apply m op) r = some ref) :
    byRequest m r = some ref ∨ ref = m.entries.length := by
  generalize hm : apply m op = m' at h
  cases hm ▸ effect m op with
  | unknown => exact .inl h
  | register q s c v symbol =>
    rw [(register_spec m q s c v symbol).1] at h
    split at h
    · cases h; exact .inr rfl
    · exact .inl h
  | client => exact .inl (by simpa using h)
  | venue => exact .inl (by simpa using h)
  | status => exact .inl h
  | remove hr he =>
    rw [(remove_spec hr he).2.1] at h
    split at h
    · cases h
    · exact .inl h

end OrderMapRuns
