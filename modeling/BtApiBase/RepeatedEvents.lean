import BtApiBase.EventEnrichment
import BtApiBase.PyStrips
import BtApiBase.RuntimeOrders

/-!
# Enriching an event twice

An id that an event tells under one of its aliases is recorded after the fields
of the entry were filled in, so that the event that taught it is published
without it, and enriching that event again adds it. Apart from that an event is
enriched once and for all where the fields that it was given lead back to the
entry they came from.
-/

namespace RepeatedEvents

open PyText PyDict PyValue OrderMap OrderMatching EventEnrichment
open RuntimeOrders (apply_eq_self_iff)

variable (py : Interp)

/-- `enrich(enrich(e)) = enrich(e)`, and the second call leaves the map as it is. -/
def Idempotent (m : OrderIdentityMap) (event : PyMap) : Prop :=
  ∀ published m', _enrichEventPayload py m (.dict event) = (published, m') →
    _enrichEventPayload py m' published = (published, m')

/-- An id that an entry has learned stands in the published event, unless the
event came with that key. -/
def Learned (event published : PyMap) (key : PyStr) (before after : Option PyStr) : Prop :=
  ∀ id, after = some id → before ≠ some id →
    PyMap.contains event key = true ∨ PyMap.get published key = .str id

def LearnedPublished (m : OrderIdentityMap) (event : PyMap) : Prop :=
  ∀ published m', _enrichEventPayload py m (.dict event) = (.dict published, m') →
    ∀ j e e', entry m j = some e → entry m' j = some e' →
      Learned event published "client_order_id" e.clientOrderId e'.clientOrderId ∧
        Learned event published "venue_order_id" e.venueOrderId e'.venueOrderId

/-! ## The condition -/

/-- The event has the key, or its entry an id to fill in, or it tells no id. -/
def Told (event : PyMap) (key : PyStr) (keys : List PyStr) (id : Option PyStr) : Prop :=
  PyMap.contains event key = true ∨ (given id).isSome ∨ given (_nestedOrderText py event keys) = none

/-- The id that an event tells under some keys; where it lacks the first of them,
`key`, the id of the entry stands in for it. -/
def heard (event : PyMap) (key : PyStr) (id : Option PyStr) (keys : List PyStr) : Option PyStr :=
  let told := given (_nestedOrderText py event keys)
  if PyMap.contains event key = false ∧ key ∈ keys then (given (id.map strip)).or told else told

/-- What the entry does not have of it. -/
def learned (event : PyMap) (key : PyStr) (id : Option PyStr) (keys : List PyStr) : Option PyStr :=
  (heard py event key id keys).filter fun text => some text ≠ id

/-- The index with one more id. -/
def withId (id : Option PyStr) (ref : Ref) (index : PyStr → Option Ref) : PyStr → Option Ref :=
  fun x => if id = some x then some ref else index x

/-- The entry that the event leads to with the ids of `e` standing in, and what
`e` learns from it in the indexes. -/
def leadsTo (m : OrderIdentityMap) (event : PyMap) (ref : Ref) (e : OrderEntry) : Option Ref :=
  let lookup (keys : List PyStr) (key : PyStr) (id : Option PyStr) (index : PyStr → Option Ref) :=
    keys.findSome? fun k => (heard py event key id [k]).bind index
  (lookup ["request_id", "command_request_id"] "request_id" (some e.requestId) (byRequest m)).or
    ((lookup EVENT_KEYS "client_order_id" e.clientOrderId
        (withId (learned py event "client_order_id" e.clientOrderId EVENT_KEYS) ref (byClient m))).or
      (lookup VENUE_KEYS "venue_order_id" e.venueOrderId
        (withId (learned py event "venue_order_id" e.venueOrderId VENUE_KEYS) ref (byVenue m))))

/-- Beside `e`, entry `e'` has nothing to give to the event and nothing to learn from it. -/
structure Quiet (event : PyMap) (e e' : OrderEntry) : Prop where
  gives : ∀ f ∈ fields e', PyMap.contains event f.1 = true ∨ f.1 ∈ (fields e).map Prod.fst
  client : ∀ id, heard py event "client_order_id" e.clientOrderId EVENT_KEYS = some id → e'.clientOrderId = some id
  venue : ∀ id, heard py event "venue_order_id" e.venueOrderId VENUE_KEYS = some id → e'.venueOrderId = some id
  status : ∀ status, newStatus py event = some status → e'.status = status

/-- The event leads to `e` again, or to no entry, or to one that is quiet. -/
def LeadsBack (m : OrderIdentityMap) (event : PyMap) (ref : Ref) (e : OrderEntry) : Prop :=
  ∀ other e', leadsTo py m event ref e = some other → other ≠ ref → entry m other = some e' →
    Quiet py event e e'

def Stable (m : OrderIdentityMap) (event : PyMap) : Prop :=
  ∀ ref e, _orderEntryForEvent py m event = some ref → entry m ref = some e →
    Told py event "client_order_id" EVENT_KEYS e.clientOrderId ∧
      Told py event "venue_order_id" VENUE_KEYS e.venueOrderId ∧ LeadsBack py m event ref e

/-! ## Texts -/

variable {py}

theorem orderText_congr {row row' : PyMap} {keys : List PyStr}
    (h : ∀ k ∈ keys, PyMap.get row k = PyMap.get row' k) : _orderText py row keys = _orderText py row' keys := by
  induction keys with
  | nil => rfl
  | cons k keys ih =>
    simp only [_orderText, h k (List.mem_cons_self ..), ih fun j hj => h j (List.mem_cons_of_mem k hj)]

theorem nestedOrderText_congr {row row' : PyMap} {keys : List PyStr}
    (h : ∀ k ∈ keys, PyMap.get row k = PyMap.get row' k)
    (hd : PyMap.get row "details" = PyMap.get row' "details") :
    _nestedOrderText py row keys = _nestedOrderText py row' keys := by
  simp only [_nestedOrderText, orderText_congr h, hd]

/-- A text that was stripped before, if there is one. -/
def Trimmed (id : Option PyStr) : Prop := ∀ text, id = some text → strip text = text

theorem trimmed_orderText (py : Interp) (row : PyMap) (keys : List PyStr) :
    Trimmed (_orderText py row keys) := by
  induction keys with
  | nil => intro text h; cases h
  | cons k keys ih =>
    intro text h
    simp only [_orderText] at h
    split at h
    · exact ih text h
    · cases h
      exact PyStrips.strip_strip _

theorem trimmed_nestedOrderText (py : Interp) (row : PyMap) (keys : List PyStr) :
    Trimmed (_nestedOrderText py row keys) := by
  intro text h
  unfold _nestedOrderText at h
  split at h
  · next direct hd =>
    cases h
    exact trimmed_orderText py row keys text ((given_eq_some _ _).mp hd).1
  · split at h
    · exact trimmed_orderText py _ keys text h
    · cases h

/-! ## Ids that are told and ids that are filled in -/

theorem get_of_not_contains {d : PyMap} {k : PyStr} (h : PyMap.contains d k = false) : PyMap.get d k = .none := by
  have hfind : find (isStr k) d = none := by simpa [PyMap.contains] using h
  simp [PyMap.get, hfind]

section

variable {event filled : PyMap} {key : PyStr} {keys : List PyStr} {id : Option PyStr}

/-- The id that an event tells an entry with another id, or with none. -/
def newId (py : Interp) (event : PyMap) (keys : List PyStr) (id : Option PyStr) : Option PyStr :=
  (given (_nestedOrderText py event keys)).filter fun text => some text ≠ id

theorem newId_eq_some {text : PyStr} :
    newId py event keys id = some text ↔ given (_nestedOrderText py event keys) = some text ∧ some text ≠ id := by
  simp [newId, Option.filter_eq_some_iff]

/-- The event after `setdefault` of the id of the entry, seen through the keys of the id. -/
structure FilledIn (event filled : PyMap) (key : PyStr) (keys : List PyStr) (id : Option PyStr) : Prop where
  others : ∀ k ∈ keys, k ≠ key → PyMap.get filled k = PyMap.get event k
  details : PyMap.get filled "details" = PyMap.get event "details"
  here : PyMap.get filled key =
    if PyMap.contains event key = true then PyMap.get event key else
      match given id with
      | some text => .str text
      | none => .none
  there : PyMap.contains event key = true ∨ (given id).isSome → PyMap.contains filled key = true

/-- Where nothing is filled in, the event tells what it told before. -/
theorem nestedOrderText_filled {ks : List PyStr} (hf : FilledIn event filled key keys id)
    (hks : ∀ k ∈ ks, k ∈ keys) (h : PyMap.contains event key = true ∨ given id = none ∨ key ∉ ks) :
    _nestedOrderText py filled ks = _nestedOrderText py event ks := by
  refine nestedOrderText_congr (fun k hk => ?_) hf.details
  by_cases hkey : k = key
  · subst hkey
    rw [hf.here]
    split
    · rfl
    · next hc =>
      have hnone : PyMap.get event k = .none := get_of_not_contains (by simpa using hc)
      rcases h with h | h | h
      · exact absurd h hc
      · rw [h, hnone]
      · exact absurd hk h
  · exact hf.others k (hks k hk) hkey

/-- An id that was filled in is the first that the event tells. -/
theorem given_of_filled (ht : Trimmed id) (hf : FilledIn event filled key keys id) {text : PyStr}
    (hid : given id = some text) (hc : PyMap.contains event key = false) (rest : List PyStr) :
    given (_nestedOrderText py filled (key :: rest)) = some text := by
  obtain ⟨hid', hne⟩ := (given_eq_some id text).mp hid
  have hhere : PyMap.get filled key = .str text := by rw [hf.here]; simp [hc, hid]
  have hblank : isBlank (.str text) = false := by cases text <;> simp_all [isBlank]
  have hdirect : _orderText py filled (key :: rest) = some text := by
    simp [_orderText, hhere, hblank, ht text hid']
  have hg : given (some text) = some text := by simp [hne]
  simp [_nestedOrderText, hdirect, hg]

/-- The filled event tells what the event is heard to tell. -/
theorem given_filled (ht : Trimmed id) (hf : FilledIn event filled key keys id) {rest : List PyStr}
    (hks : ∀ k ∈ key :: rest, k ∈ keys) :
    given (_nestedOrderText py filled (key :: rest)) = heard py event key id (key :: rest) := by
  have hstrip : given (id.map strip) = given id := by
    cases id with
    | none => rfl
    | some text => simp [ht text rfl]
  cases hc : PyMap.contains event key with
  | true =>
    rw [nestedOrderText_filled hf hks (.inl hc)]
    simp [heard, hc]
  | false =>
    cases hid : given id with
    | none =>
      rw [nestedOrderText_filled hf hks (.inr (.inl hid))]
      simp [heard, hstrip, hid]
    | some text =>
      rw [given_of_filled ht hf hid hc]
      simp [heard, hc, hstrip, hid]

/-- Key by key as well. -/
theorem given_filled_single (ht : Trimmed id) (hf : FilledIn event filled key keys id) {k : PyStr}
    (hk : k ∈ keys) : given (_nestedOrderText py filled [k]) = heard py event key id [k] := by
  by_cases hkey : k = key
  · subst hkey
    exact given_filled ht hf (by simpa using hk)
  · have hnot : key ∉ [k] := by simpa using Ne.symm hkey
    rw [nestedOrderText_filled hf (by simpa using hk) (.inr (.inr hnot))]
    simp [heard, Ne.symm hkey]

/-- An id is filled in before it is told: the entry learns nothing it was not going to tell. -/
theorem newId_filled (ht : Trimmed id) (hf : FilledIn event filled key (key :: keys) id) {text : PyStr}
    (hid : given id = some text) (hc : PyMap.contains event key = false) : newId py filled (key :: keys) id = none := by
  simp [newId, given_of_filled ht hf hid hc, ((given_eq_some id text).mp hid).1]

/-- Every id that is learned stands in the filled event exactly if it is told. -/
theorem told_iff (ht : Trimmed id) (hf : FilledIn event filled key (key :: keys) id) :
    (∀ text, newId py filled (key :: keys) id = some text →
      PyMap.contains event key = true ∨ PyMap.get filled key = .str text) ↔
      Told py event key (key :: keys) id := by
  by_cases hc : PyMap.contains event key = true
  · exact iff_of_true (fun _ _ => .inl hc) (.inl hc)
  · have hc' : PyMap.contains event key = false := by simpa using hc
    cases hid : given id with
    | some text =>
      refine iff_of_true (fun text' h => ?_) (.inr (.inl (by simp [hid])))
      rw [newId_filled ht hf hid hc'] at h
      cases h
    | none =>
      have htext : _nestedOrderText py filled (key :: keys) = _nestedOrderText py event (key :: keys) :=
        nestedOrderText_filled hf (fun _ h => h) (.inr (.inl hid))
      have hhere : PyMap.get filled key = .none := by rw [hf.here]; simp [hc', hid]
      have hnew : newId py filled (key :: keys) id = given (_nestedOrderText py event (key :: keys)) := by
        rw [newId, htext]
        cases hg : given (_nestedOrderText py event (key :: keys)) with
        | none => rfl
        | some text =>
          have hne : some text ≠ id := by
            rintro rfl
            have hsome := (given_eq_some (some text) text).mpr ⟨rfl, ((given_eq_some _ text).mp hg).2⟩
            rw [hid] at hsome
            cases hsome
          simp [Option.filter, hne]
      rw [hnew, Told, hc', hid]
      cases given (_nestedOrderText py event (key :: keys)) <;> simp [hhere]

/-- Once the entry has the id that the event tells, neither has anything for the other. -/
theorem settled_id (ht : Trimmed id) (hf : FilledIn event filled key (key :: keys) id)
    (htold : Told py event key (key :: keys) id) :
    ((given ((newId py filled (key :: keys) id).or id)).isSome → PyMap.contains filled key = true) ∧
      newId py filled (key :: keys) ((newId py filled (key :: keys) id).or id) = none := by
  cases hnew : newId py filled (key :: keys) id with
  | none => exact ⟨fun h => hf.there (.inr h), hnew⟩
  | some text =>
    constructor
    · intro _
      rcases (told_iff ht hf).mpr htold text hnew with h | h
      · exact hf.there (.inl h)
      · by_contra hno
        rw [get_of_not_contains (by simpa using hno)] at h
        cases h
    · cases hagain : newId py filled (key :: keys) (Option.or (some text) id) with
      | none => rfl
      | some text' =>
        obtain ⟨htext, hne⟩ := newId_eq_some.mp hagain
        have hsame := htext.symm.trans (newId_eq_some.mp hnew).1
        exact absurd hsame hne

end

/-! ## The event as it is published -/

theorem get_withEntry_other {e : OrderEntry} {event : PyMap} {k : PyStr}
    (h : PyMap.contains event k = true ∨ k ∉ (fields e).map Prod.fst) :
    PyMap.get (withEntry e event) k = PyMap.get event k := by
  rw [withEntry_eq, get_fill_other h]

/-- The names of the fields that an event can be given. -/
def GIVEN_KEYS : List PyStr :=
  ["strategy_id", "request_id", "client_order_id", "venue_order_id", "symbol", "data_name"]

theorem mem_givenKeys {e : OrderEntry} {k : PyStr} (h : k ∈ (fields e).map Prod.fst) : k ∈ GIVEN_KEYS := by
  obtain ⟨⟨name, v⟩, hf, rfl⟩ := List.mem_map.mp h
  have hg : Given e name v := given_of_mem_fields hf
  cases hg <;> simp [GIVEN_KEYS]

/-- Where an event is given one of these keys only, the others say what they said. -/
theorem get_withEntry_of_only {e : OrderEntry} {event : PyMap} {key : PyStr} {keys : List PyStr}
    (honly : ∀ k ∈ keys, k ∈ GIVEN_KEYS → k = key) (k : PyStr) (hk : k ∈ keys) (hne : k ≠ key) :
    PyMap.get (withEntry e event) k = PyMap.get event k :=
  get_withEntry_other (.inr fun hmem => hne (honly k hk (mem_givenKeys hmem)))

theorem get_withEntry_details (e : OrderEntry) (event : PyMap) :
    PyMap.get (withEntry e event) "details" = PyMap.get event "details" :=
  get_withEntry_other (.inr fun hmem => by simpa [GIVEN_KEYS] using mem_givenKeys hmem)

/-- One of the two ids, which is given under its own key and under no other one of its names. -/
theorem filledIn_withEntry {e : OrderEntry} {event : PyMap} {key : PyStr} {keys : List PyStr}
    {id : Option PyStr} (honly : ∀ k ∈ keys, k ∈ GIVEN_KEYS → k = key)
    (hfield : (given id).isSome → key ∈ (fields e).map Prod.fst)
    (hnew : PyMap.contains event key = false → PyMap.get (withEntry e event) key =
      match given id with
      | some text => .str text
      | none => .none) : FilledIn event (withEntry e event) key keys id where
  others := get_withEntry_of_only honly
  details := get_withEntry_details e event
  here := by
    split
    · next hc => exact get_withEntry_other (.inl hc)
    · next hc => exact hnew (by simpa using hc)
  there h := by
    rw [withEntry_eq, contains_fill]
    exact h.imp_right hfield

theorem filledIn_client (e : OrderEntry) (event : PyMap) :
    FilledIn event (withEntry e event) "client_order_id" EVENT_KEYS e.clientOrderId := by
  apply filledIn_withEntry (by decide)
  · intro hsome
    obtain ⟨c, hc⟩ := Option.isSome_iff_exists.mp hsome
    simp [fields, idField, hc]
  · intro hc
    have hget := get_of_not_contains (d := event) (k := "client_order_id") hc
    unfold withEntry
    cases given e.clientOrderId <;> cases given e.venueOrderId <;> cases truthy e.symbol <;>
      simp [get_setdefault, contains_setdefault, hc, hget]

theorem filledIn_venue (e : OrderEntry) (event : PyMap) :
    FilledIn event (withEntry e event) "venue_order_id" VENUE_KEYS e.venueOrderId := by
  apply filledIn_withEntry (by decide)
  · intro hsome
    obtain ⟨v, hv⟩ := Option.isSome_iff_exists.mp hsome
    simp [fields, idField, hv]
  · intro hc
    have hget := get_of_not_contains (d := event) (k := "venue_order_id") hc
    unfold withEntry
    cases given e.clientOrderId <;> cases given e.venueOrderId <;> cases truthy e.symbol <;>
      simp [get_setdefault, contains_setdefault, hc, hget]

/-! ## An event that changes nothing -/

/-- The entry that an event leads to under these indexes. -/
def lookupEvent (py : Interp) (event : PyMap) (request client venue : PyStr → Option Ref) : Option Ref :=
  let lookup (keys : List PyStr) (index : PyStr → Option Ref) : Option Ref :=
    keys.findSome? fun key => (given (_nestedOrderText py event [key])).bind index
  (lookup ["request_id", "command_request_id"] request).or
    ((lookup EVENT_KEYS client).or (lookup VENUE_KEYS venue))

/-- Entry `e` has nothing to give to the event and nothing to learn from it. -/
def Settled (py : Interp) (e : OrderEntry) (event : PyMap) : Prop :=
  withEntry e event = event ∧ (update py e event).Idle e

theorem amend_eq_self {m : OrderIdentityMap} {ref : Ref} {f : OrderEntry → OrderEntry}
    (h : ∀ e, entry m ref = some e → { f e with requestId := e.requestId } = e) : amend m ref f = m := by
  have hentries : m.entries.modify ref (fun e => { f e with requestId := e.requestId }) = m.entries := by
    refine List.ext_getElem? fun j => ?_
    rw [List.getElem?_modify]
    cases hj : m.entries[j]? with
    | none => simp
    | some e =>
      by_cases hr : ref = j
      · subst hr
        simp [h e hj]
      · simp [hr]
  obtain ⟨entries, byRequest, byClient, byVenue, h₁, h₂, h₃⟩ := m
  simp only [amend] at hentries ⊢
  simp only [hentries]

/-- An event that is settled with the entry it matches is published as it is,
and the map stays as it is; nothing else has this effect. -/
theorem enrich_fixed_iff {m : OrderIdentityMap} {event : PyMap} {ref : Ref} {e : OrderEntry}
    (h : _orderEntryForEvent py m event = some ref) (he : entry m ref = some e)
    (hr : byRequest m e.requestId = some ref) :
    _enrichEventPayload py m (.dict event) = (.dict event, m) ↔ Settled py e event := by
  constructor
  · intro hfix
    have hevent : withEntry e event = event := by
      rw [enrich_eq h he, Prod.mk.injEq, PyVal.dict.injEq] at hfix
      exact hfix.1
    have hentry := (enrich_matched h he).2 ref
    rw [hfix, if_pos hr, he, Option.map_some, Option.some.injEq] at hentry
    exact ⟨hevent, (apply_eq_self_iff py e event).mp hentry.symm⟩
  · rintro ⟨hevent, hclient, hvenue, hstatus⟩
    simp only [update, hevent] at hclient hvenue hstatus
    have hrecord : _recordEventOrderIds py m e event = m := by simp [_recordEventOrderIds, hclient, hvenue]
    rw [enrich_eq h he, hevent, hrecord]
    cases hs : newStatus py event with
    | none => rfl
    | some status =>
      have hsame : amend m ref (.withStatus status) = m := by
        refine amend_eq_self fun e' he' => ?_
        obtain rfl := Option.some.inj (he.symm.trans he')
        simp [OrderEntry.withStatus, ← hstatus status hs]
      simp [updateStatus, hr, hsame]

/-! ## One event -/

section

variable {m : OrderIdentityMap} {event : PyMap} {ref : Ref} {e : OrderEntry}

/-- The second lookup of an event that matched entry `e`. -/
theorem lookup_again (h : _orderEntryForEvent py m event = some ref) (he : entry m ref = some e)
    (hr : byRequest m e.requestId = some ref) :
    _orderEntryForEvent py (_enrichEventPayload py m (.dict event)).2 (withEntry e event) =
      lookupEvent py (withEntry e event) (byRequest m)
        (withId (newClient py e (withEntry e event)) ref (byClient m))
        (withId (newVenue py e (withEntry e event)) ref (byVenue m)) := by
  have hm := enrich_matched h he
  have hrequest : byRequest (_enrichEventPayload py m (.dict event)).2 = byRequest m := funext hm.1
  have hclient : byClient (_enrichEventPayload py m (.dict event)).2 =
      withId (newClient py e (withEntry e event)) ref (byClient m) := by
    funext id
    rw [(indexes_enrich h he id).1, hr]
    simp [withId]
  have hvenue : byVenue (_enrichEventPayload py m (.dict event)).2 =
      withId (newVenue py e (withEntry e event)) ref (byVenue m) := by
    funext id
    rw [(indexes_enrich h he id).2, hr]
    simp [withId]
  rw [← hrequest, ← hclient, ← hvenue]
  rfl

/-- An entry that has learned from the event what it was told is settled with it. -/
theorem settled_again (hclient : Told py event "client_order_id" EVENT_KEYS e.clientOrderId)
    (hvenue : Told py event "venue_order_id" VENUE_KEYS e.venueOrderId)
    (htc : Trimmed e.clientOrderId) (htv : Trimmed e.venueOrderId) :
    Settled py ((update py e event).apply e) (withEntry e event) := by
  obtain ⟨hc, hcn⟩ := settled_id htc (filledIn_client e event) hclient
  obtain ⟨hv, hvn⟩ := settled_id htv (filledIn_venue e event) hvenue
  have hkeep : ∀ f ∈ fields e, PyMap.contains (withEntry e event) f.1 = true := by
    intro f hf
    rw [withEntry_eq, contains_fill]
    exact .inr (List.mem_map_of_mem hf)
  have hevent : withEntry ((update py e event).apply e) (withEntry e event) = withEntry e event := by
    rw [withEntry_eq _ (withEntry e event), fill_eq_self]
    intro f hf
    simp only [fields, List.mem_cons, List.mem_append] at hf
    rcases hf with rfl | rfl | (hf | hf) | hf
    · exact hkeep ("strategy_id", _) (by simp [fields, Update.apply])
    · exact hkeep ("request_id", _) (by simp [fields, Update.apply])
    · obtain ⟨c, hmem, rfl⟩ := List.mem_map.mp hf
      exact hc (Option.isSome_of_mem (Option.mem_toList.mp hmem))
    · obtain ⟨v, hmem, rfl⟩ := List.mem_map.mp hf
      exact hv (Option.isSome_of_mem (Option.mem_toList.mp hmem))
    · exact hkeep f (by simp [fields, show f ∈ symbolFields e.symbol from hf])
  refine ⟨hevent, ?_⟩
  rw [update, hevent]
  refine ⟨hcn, hvn, fun status hs => ?_⟩
  have hs' : newStatus py (withEntry e event) = some status := hs
  simp [update, Update.apply, hs']

theorem findSome?_congr {f g : PyStr → Option Ref} {keys : List PyStr} (h : ∀ k ∈ keys, f k = g k) :
    keys.findSome? f = keys.findSome? g := by
  rw [← List.head?_filterMap, ← List.head?_filterMap, List.filterMap_congr h]

/-- The request id is filled in even where it is empty. -/
theorem given_filled_request (e : OrderEntry) (event : PyMap) {k : PyStr}
    (hk : k ∈ (["request_id", "command_request_id"] : List PyStr)) :
    given (_nestedOrderText py (withEntry e event) [k]) = heard py event "request_id" (some e.requestId) [k] := by
  have hdetails : PyMap.get (withEntry e event) "details" = PyMap.get event "details" :=
    (filledIn_client e event).details
  by_cases hkeep : PyMap.contains event "request_id" = true ∨ k ≠ "request_id"
  · have hget : PyMap.get (withEntry e event) k = PyMap.get event k := by
      refine get_withEntry_other ?_
      simp only [List.mem_cons, List.not_mem_nil, or_false] at hk
      rcases hk with rfl | rfl
      · exact .inl (hkeep.resolve_right fun h => h rfl)
      · exact .inr fun hmem => by simpa [GIVEN_KEYS] using mem_givenKeys hmem
    rw [nestedOrderText_congr (by simpa using hget) hdetails]
    rcases hkeep with hc | hne
    · simp [heard, hc]
    · simp [heard, Ne.symm hne]
  · obtain ⟨hc, rfl⟩ : PyMap.contains event "request_id" = false ∧ k = "request_id" := by simpa using hkeep
    have hhere : PyMap.get (withEntry e event) "request_id" = .str e.requestId := by
      unfold withEntry
      cases given e.clientOrderId <;> cases given e.venueOrderId <;> cases truthy e.symbol <;>
        simp [get_setdefault, contains_setdefault, hc]
    have hdirect : _orderText py (withEntry e event) ["request_id"] =
        if e.requestId = [] then none else some (strip e.requestId) := by
      cases hr : e.requestId <;> simp [_orderText, hhere, hr, isBlank]
    have hnone : _orderText py event ["request_id"] = none := by
      simp [_orderText, get_of_not_contains hc, isBlank]
    have hstrip : given (some (strip e.requestId)) =
        given (if e.requestId = [] then none else some (strip e.requestId)) := by
      by_cases hr : e.requestId = []
      · simp [hr, strip, given]
      · simp [hr]
    simp only [heard, hc, List.mem_singleton, and_self, ↓reduceIte, Option.map_some, hstrip]
    simp only [_nestedOrderText, hdirect, hnone, hdetails, given_none]
    cases hg : given (if e.requestId = [] then none else some (strip e.requestId)) with
    | none => rfl
    | some text =>
      have hne := ((given_eq_some _ text).mp hg).2
      exact (given_eq_some _ text).mpr ⟨rfl, hne⟩

theorem heard_client (e : OrderEntry) (event : PyMap) (ht : Trimmed e.clientOrderId) :
    given (_nestedOrderText py (withEntry e event) EVENT_KEYS) =
      heard py event "client_order_id" e.clientOrderId EVENT_KEYS :=
  given_filled ht (filledIn_client e event) fun _ h => h

theorem heard_venue (e : OrderEntry) (event : PyMap) (ht : Trimmed e.venueOrderId) :
    given (_nestedOrderText py (withEntry e event) VENUE_KEYS) =
      heard py event "venue_order_id" e.venueOrderId VENUE_KEYS :=
  given_filled ht (filledIn_venue e event) fun _ h => h

/-- The second lookup, said of the event as it came. -/
theorem lookupEvent_eq (m : OrderIdentityMap) (event : PyMap) (ref : Ref)
    (htc : Trimmed e.clientOrderId) (htv : Trimmed e.venueOrderId) :
    lookupEvent py (withEntry e event) (byRequest m)
        (withId (newClient py e (withEntry e event)) ref (byClient m))
        (withId (newVenue py e (withEntry e event)) ref (byVenue m)) = leadsTo py m event ref e := by
  have hclient : newClient py e (withEntry e event) = learned py event "client_order_id" e.clientOrderId EVENT_KEYS := by
    rw [learned, ← heard_client e event htc, newClient]
  have hvenue : newVenue py e (withEntry e event) = learned py event "venue_order_id" e.venueOrderId VENUE_KEYS := by
    rw [learned, ← heard_venue e event htv, newVenue]
  rw [hclient, hvenue]
  unfold lookupEvent leadsTo
  dsimp only
  congr 1
  · exact findSome?_congr fun k hk => by rw [given_filled_request e event hk]
  · congr 1
    · exact findSome?_congr fun k hk => by rw [given_filled_single htc (filledIn_client e event) hk]
    · exact findSome?_congr fun k hk => by rw [given_filled_single htv (filledIn_venue e event) hk]

theorem settled_iff_quiet (event : PyMap) (e' : OrderEntry)
    (htc : Trimmed e.clientOrderId) (htv : Trimmed e.venueOrderId) :
    Settled py e' (withEntry e event) ↔ Quiet py event e e' := by
  have hgives : withEntry e' (withEntry e event) = withEntry e event ↔
      ∀ f ∈ fields e', PyMap.contains event f.1 = true ∨ f.1 ∈ (fields e).map Prod.fst := by
    rw [withEntry_eq e', fill_eq_self]
    simp only [withEntry_eq e, contains_fill]
  have hnew : ∀ {heard id : Option PyStr}, heard.filter (fun text => some text ≠ id) = none ↔
      ∀ text, heard = some text → id = some text := by
    intro heard id
    simp only [Option.filter_eq_none_iff, decide_eq_true_eq, not_not]
    exact forall₂_congr fun _ _ => eq_comm
  have hstatus : newStatus py (withEntry e event) = newStatus py event := by
    rw [newStatus, get_withEntry_other (.inr fun hmem => by simpa [GIVEN_KEYS] using mem_givenKeys hmem), newStatus]
  have hclient : newClient py e' (withEntry e event) = none ↔ ∀ id,
      heard py event "client_order_id" e.clientOrderId EVENT_KEYS = some id → e'.clientOrderId = some id := by
    rw [← hnew, ← heard_client e event htc, newClient]
  have hvenue : newVenue py e' (withEntry e event) = none ↔ ∀ id,
      heard py event "venue_order_id" e.venueOrderId VENUE_KEYS = some id → e'.venueOrderId = some id := by
    rw [← hnew, ← heard_venue e event htv, newVenue]
  constructor
  · rintro ⟨hevent, hidle⟩
    rw [update, hevent] at hidle
    obtain ⟨hc, hv, hs⟩ := hidle
    exact ⟨hgives.mp hevent, hclient.mp hc, hvenue.mp hv, hstatus ▸ hs⟩
  · intro hq
    have hevent := hgives.mpr hq.gives
    refine ⟨hevent, ?_⟩
    rw [update, hevent]
    exact ⟨hclient.mpr hq.client, hvenue.mpr hq.venue, hstatus ▸ hq.status⟩

theorem idempotent_iff (h : _orderEntryForEvent py m event = some ref) (he : entry m ref = some e)
    (hstored : ∀ j e, entry m j = some e → byRequest m e.requestId = some j) :
    Idempotent py m event ↔ ∀ other e', lookupEvent py (withEntry e event) (byRequest m)
        (withId (newClient py e (withEntry e event)) ref (byClient m))
        (withId (newVenue py e (withEntry e event)) ref (byVenue m)) = some other →
      entry (_enrichEventPayload py m (.dict event)).2 other = some e' → Settled py e' (withEntry e event) := by
  have hr := hstored ref e he
  have hm := enrich_matched h he
  have hagain := lookup_again h he hr
  have hfirst : _enrichEventPayload py m (.dict event) =
      (.dict (withEntry e event), (_enrichEventPayload py m (.dict event)).2) := by
    rw [enrich_eq h he]
  have hidem : Idempotent py m event ↔
      _enrichEventPayload py (_enrichEventPayload py m (.dict event)).2 (.dict (withEntry e event)) =
        (.dict (withEntry e event), (_enrichEventPayload py m (.dict event)).2) := by
    constructor
    · exact fun hi => hi _ _ hfirst
    · intro hi published m' heq
      obtain ⟨rfl, rfl⟩ := Prod.mk.inj (hfirst.symm.trans heq)
      exact hi
  rw [hidem, ← hagain]
  cases hback : _orderEntryForEvent py (_enrichEventPayload py m (.dict event)).2 (withEntry e event) with
  | none =>
    rw [enrich_none hback]
    simp
  | some other =>
    obtain ⟨e', he'⟩ := entry_of_orderEntryForEvent hback
    have hr' : byRequest (_enrichEventPayload py m (.dict event)).2 e'.requestId = some other := by
      rw [hm.1]
      have hentry := hm.2 other
      rw [he'] at hentry
      split at hentry
      · obtain ⟨old, hold, rfl⟩ := Option.map_eq_some_iff.mp hentry.symm
        exact hstored other old hold
      · exact hstored other e' hentry.symm
    rw [enrich_fixed_iff hback he' hr']
    constructor
    · rintro hs o e'' ⟨⟩ he''
      obtain rfl := Option.some.inj (he'.symm.trans he'')
      exact hs
    · exact fun hs => hs other e' rfl he'

theorem learnedPublished_iff (h : _orderEntryForEvent py m event = some ref) (he : entry m ref = some e)
    (hr : byRequest m e.requestId = some ref) (htc : Trimmed e.clientOrderId) (htv : Trimmed e.venueOrderId) :
    LearnedPublished py m event ↔ Told py event "client_order_id" EVENT_KEYS e.clientOrderId ∧
      Told py event "venue_order_id" VENUE_KEYS e.venueOrderId := by
  have hm := enrich_matched h he
  have hfirst : _enrichEventPayload py m (.dict event) =
      (.dict (withEntry e event), (_enrichEventPayload py m (.dict event)).2) := by
    rw [enrich_eq h he]
  have hentry : entry (_enrichEventPayload py m (.dict event)).2 ref = some ((update py e event).apply e) := by
    rw [hm.2, if_pos hr, he]
    rfl
  have hlearned : ∀ {key : PyStr} {keys : List PyStr} {id : Option PyStr},
      Learned event (withEntry e event) key id ((newId py (withEntry e event) keys id).or id) ↔
        ∀ text, newId py (withEntry e event) keys id = some text →
          PyMap.contains event key = true ∨ PyMap.get (withEntry e event) key = .str text := by
    intro key keys id
    constructor
    · intro hl text hnew
      exact hl text (by rw [hnew]; rfl) fun hid => (newId_eq_some.mp hnew).2 hid.symm
    · intro hl text hafter hbefore
      cases hnew : newId py (withEntry e event) keys id with
      | none =>
        rw [hnew] at hafter
        exact absurd hafter hbefore
      | some text' =>
        rw [hnew] at hafter
        obtain rfl := Option.some.inj hafter
        exact hl text' hnew
  have hclient : _ ↔ Told py event "client_order_id" EVENT_KEYS e.clientOrderId :=
    told_iff htc (filledIn_client e event)
  have hvenue : _ ↔ Told py event "venue_order_id" VENUE_KEYS e.venueOrderId :=
    told_iff htv (filledIn_venue e event)
  rw [← hclient, ← hvenue, ← hlearned, ← hlearned]
  constructor
  · intro hl
    exact hl _ _ hfirst ref e _ he hentry
  · rintro ⟨hc, hv⟩ published m' heq j e₀ e₁ he₀ he₁
    obtain ⟨hpub, rfl⟩ := Prod.mk.inj (hfirst.symm.trans heq)
    obtain rfl := PyVal.dict.inj hpub
    rw [hm.2, hr] at he₁
    by_cases hj : ref = j
    · subst hj
      obtain rfl := Option.some.inj (he.symm.trans he₀)
      rw [if_pos rfl, he, Option.map_some, Option.some.injEq] at he₁
      subst he₁
      exact ⟨hc, hv⟩
    · rw [if_neg (by simpa using hj), he₀] at he₁
      obtain rfl := Option.some.inj he₁
      exact ⟨fun _ h h' => absurd h h', fun _ h h' => absurd h h'⟩

/-- The event as a whole. -/
theorem stable_iff (hstored : ∀ j e, entry m j = some e → byRequest m e.requestId = some j)
    (htrimmed : ∀ j e, entry m j = some e → Trimmed e.clientOrderId ∧ Trimmed e.venueOrderId) (event : PyMap) :
    Idempotent py m event ∧ LearnedPublished py m event ↔ Stable py m event := by
  cases h : _orderEntryForEvent py m event with
  | none =>
    have hsame := enrich_none h
    refine iff_of_true ⟨?_, ?_⟩ fun ref e h' => by rw [h] at h'; cases h'
    · rintro published m' heq
      obtain ⟨rfl, rfl⟩ := Prod.mk.inj (hsame.symm.trans heq)
      exact hsame
    · rintro published m' heq j e e' he he'
      obtain ⟨-, rfl⟩ := Prod.mk.inj (hsame.symm.trans heq)
      obtain rfl := Option.some.inj (he.symm.trans he')
      exact ⟨fun _ h h' => absurd h h', fun _ h h' => absurd h h'⟩
  | some ref =>
    obtain ⟨e, he⟩ := entry_of_orderEntryForEvent h
    have hr := hstored ref e he
    obtain ⟨htc, htv⟩ := htrimmed ref e he
    have hentry : ∀ j, entry (_enrichEventPayload py m (.dict event)).2 j =
        if ref = j then some ((update py e event).apply e) else entry m j := by
      intro j
      rw [(enrich_matched h he).2, hr]
      by_cases hj : ref = j
      · subst hj
        simp [he]
      · simp [hj]
    have hstable : Stable py m event ↔ Told py event "client_order_id" EVENT_KEYS e.clientOrderId ∧
        Told py event "venue_order_id" VENUE_KEYS e.venueOrderId ∧ LeadsBack py m event ref e := by
      constructor
      · exact fun hs => hs ref e h he
      · intro hs ref' e' h' he'
        obtain rfl := Option.some.inj (h.symm.trans h')
        obtain rfl := Option.some.inj (he.symm.trans he')
        exact hs
    rw [idempotent_iff h he hstored, learnedPublished_iff h he hr htc htv, hstable]
    simp only [lookupEvent_eq m event ref htc htv, settled_iff_quiet event _ htc htv]
    constructor
    · rintro ⟨hi, hc, hv⟩
      refine ⟨hc, hv, fun other e' hback hne he' => hi other e' hback ?_⟩
      rw [hentry, if_neg (Ne.symm hne), he']
    · rintro ⟨hc, hv, hback⟩
      refine ⟨fun other e' hl he' => ?_, hc, hv⟩
      rw [hentry] at he'
      split at he'
      · obtain rfl := Option.some.inj he'
        exact (settled_iff_quiet event _ htc htv).mp (settled_again hc hv htc htv)
      · next hne => exact hback other e' hl (Ne.symm hne) he'

end

end RepeatedEvents
