import BtApiBase.RepeatedEvents
import BtApiBase.RuntimeReferences

/-!
# Events after a run

After any run of orders with unique request ids and of events, each order is
stored under its own request id and every id is stored stripped. There an event
is enriched once and for all exactly where it is stable.
-/

namespace EnrichmentRuns

open PyText PyDict PyValue OrderMap OrderMatching RuntimeRemote Runs RepeatedEvents
open OrderRef (OrderRefAllocator next eq_of_next)
open RuntimeOrders (Label Label.env step registered answered placedMap sentPayload Amended
  exec_placeOrder exec_dispatch_place amended_enrich amended_placedMap)

variable {py : Interp}

/-! ## Runs with unique request ids -/

/-- The request id that a `place_order` command is registered under. -/
def requestId (py : Interp) : Label → Option PyStr
  | .place adapter payload => some (textOr (Label.env py adapter) payload "request_id" "")
  | .event _ => none

/-- Every entry is found under its request id, one of these. -/
structure Stored (ids : List PyStr) (m : OrderIdentityMap) : Prop where
  stored : ∀ j e, entry m j = some e → byRequest m e.requestId = some j
  known : ∀ j e, entry m j = some e → e.requestId ∈ ids

theorem stored_of_amended {ids : List PyStr} {m m' : OrderIdentityMap} (h : Amended m m') (hs : Stored ids m) :
    Stored ids m' := by
  have hold : ∀ j e, entry m' j = some e → ∃ e₀, entry m j = some e₀ ∧ e.requestId = e₀.requestId := by
    intro j e he
    obtain ⟨f, hf, hk⟩ := h.entry j
    rw [hf] at he
    obtain ⟨e₀, he₀, rfl⟩ := Option.map_eq_some_iff.mp he
    exact ⟨e₀, he₀, (hk e₀).1⟩
  constructor
  · intro j e he
    obtain ⟨e₀, he₀, hr⟩ := hold j e he
    rw [hr, h.byRequest]
    exact hs.stored j e₀ he₀
  · intro j e he
    obtain ⟨e₀, he₀, hr⟩ := hold j e he
    exact hr ▸ hs.known j e₀ he₀

theorem stored_registered (env : Env) {ids : List PyStr} {m : OrderIdentityMap} (hs : Stored ids m)
    (payload : PyMap) (hnew : textOr env payload "request_id" "" ∉ ids) :
    Stored (ids ++ [textOr env payload "request_id" ""]) (registered env m payload) := by
  have hspec := register_spec m (textOr env payload "request_id" "")
    (textOr env payload "strategy_id" "default") (_orderText env.py payload PLACE_KEYS) none
    (PyMap.get (sentPayload env payload none) "symbol")
  constructor
  · intro j e he
    rw [registered, hspec.2.2.2] at he
    rw [registered, hspec.1]
    split at he
    · next hj =>
      cases he
      simp [hj]
    · have hne : e.requestId ≠ textOr env payload "request_id" "" := fun h => hnew (h ▸ hs.known j e he)
      rw [if_neg hne]
      exact hs.stored j e he
  · intro j e he
    rw [registered, hspec.2.2.2] at he
    split at he
    · cases he
      simp
    · exact List.mem_append_left _ (hs.known j e he)

theorem stored_mono {ids more : List PyStr} {m : OrderIdentityMap} (hs : Stored ids m) : Stored (ids ++ more) m :=
  ⟨hs.stored, fun j e he => List.mem_append_left _ (hs.known j e he)⟩

theorem stored_run (py : Interp) (allocator : Option OrderRefAllocator) (labels : List Label)
    (hu : (labels.filterMap (requestId py)).Nodup) :
    Stored (labels.filterMap (requestId py)) (run (step py) (up allocator) labels).orderMap := by
  induction labels using List.reverseRecOn with
  | nil =>
    constructor
    · intro j e he
      cases he
    · intro j e he
      cases he
  | append_singleton labels l ih =>
    rw [List.filterMap_append] at hu ⊢
    rw [run_concat]
    have hs := ih hu.of_append_left
    cases l with
    | event payload =>
      have hids : [Label.event payload].filterMap (requestId py) = [] := rfl
      rw [hids, List.append_nil]
      exact stored_of_amended (amended_enrich py _ payload) hs
    | place adapter payload =>
      have hids : [Label.place adapter payload].filterMap (requestId py) =
          [textOr (Label.env py adapter) payload "request_id" ""] := rfl
      rw [hids] at hu ⊢
      rw [step, exec_dispatch_place]
      split
      · rw [(exec_placeOrder _ payload _).1]
        have hnew := List.disjoint_of_nodup_append hu
        exact stored_of_amended (amended_placedMap _ _ _ _)
          (stored_registered _ hs payload fun hmem => hnew hmem (List.mem_singleton_self _))
      · exact stored_mono hs

/-! ## Ids are stored stripped -/

def AllTrimmed (m : OrderIdentityMap) : Prop :=
  ∀ j e, entry m j = some e → Trimmed e.clientOrderId ∧ Trimmed e.venueOrderId

/-- An update of one entry that keeps its ids stripped keeps all of them so. -/
theorem allTrimmed_of_spec {m m' : OrderIdentityMap} {r : PyStr} {f : OrderEntry → OrderEntry}
    (he : ∀ j, entry m' j = if byRequest m r = some j then (entry m j).map f else entry m j)
    (hf : ∀ e, Trimmed e.clientOrderId ∧ Trimmed e.venueOrderId →
      Trimmed (f e).clientOrderId ∧ Trimmed (f e).venueOrderId) (h : AllTrimmed m) : AllTrimmed m' := by
  intro j e hj
  rw [he] at hj
  split at hj
  · obtain ⟨e₀, he₀, rfl⟩ := Option.map_eq_some_iff.mp hj
    exact hf e₀ (h j e₀ he₀)
  · exact h j e hj

theorem trimmed_some {text : PyStr} (h : strip text = text) : Trimmed (some text) := by
  rintro _ ⟨⟩
  exact h

theorem allTrimmed_setClientOrderId {m : OrderIdentityMap} (h : AllTrimmed m) (r : PyStr) {c : PyStr}
    (hc : strip c = c) : AllTrimmed (setClientOrderId m r c).2 :=
  allTrimmed_of_spec (setClientOrderId_spec m r c).2.2.2 (fun _ ht => ⟨trimmed_some hc, ht.2⟩) h

theorem allTrimmed_setVenueOrderId {m : OrderIdentityMap} (h : AllTrimmed m) (r : PyStr) {v : PyStr}
    (hv : strip v = v) : AllTrimmed (setVenueOrderId m r v).2 :=
  allTrimmed_of_spec (setVenueOrderId_spec m r v).2.2.2 (fun _ ht => ⟨ht.1, trimmed_some hv⟩) h

theorem strip_of_firstText {rows : List PyMap} {keys : List PyStr} {text : PyStr}
    (h : firstText py rows keys = some text) : strip text = text := by
  obtain ⟨row, -, hrow⟩ := List.exists_of_findSome?_eq_some h
  exact trimmed_nestedOrderText py row keys text ((given_eq_some _ text).mp hrow).1

theorem allTrimmed_withClient {m : OrderIdentityMap} (h : AllTrimmed m) (r : PyStr) (id : Option PyStr) :
    (∀ c, id = some c → strip c = c) → AllTrimmed (match id with
      | some c => (setClientOrderId m r c).2
      | none => m) := by
  intro hid
  cases id with
  | none => exact h
  | some c => exact allTrimmed_setClientOrderId h r (hid c rfl)

theorem allTrimmed_answered (env : Env) {m : OrderIdentityMap} (h : AllTrimmed m) (payload sent : PyMap) :
    AllTrimmed (answered env m payload sent) := by
  unfold answered
  split
  · next result _ =>
    unfold _recordOrderResultIds
    have hclient := allTrimmed_withClient h (textOr env payload "request_id" "")
      (firstText env.py (resultRows result ++ [sent]) RESULT_KEYS) fun c hc => strip_of_firstText hc
    dsimp only
    split
    · next v hv => exact allTrimmed_setVenueOrderId hclient _ (strip_of_firstText hv)
    · exact hclient
  · exact h

theorem allTrimmed_registered (env : Env) {m : OrderIdentityMap} (h : AllTrimmed m) (payload : PyMap) :
    AllTrimmed (registered env m payload) := by
  intro j e he
  rw [registered, (register_spec ..).2.2.2] at he
  split at he
  · cases he
    exact ⟨trimmed_orderText env.py payload PLACE_KEYS, fun _ h => by cases h⟩
  · exact h j e he

/-- References are numbers. -/
theorem allTrimmed_placedMap (env : Env) {m : OrderIdentityMap} (h : AllTrimmed m) (payload : PyMap)
    (allocator : Option OrderRefAllocator) :
    AllTrimmed (placedMap env m payload (allocator.map fun a => (next a).1)) := by
  have hreg := allTrimmed_registered env h payload
  cases allocator with
  | none => exact allTrimmed_answered env hreg payload _
  | some a =>
    rw [Option.map_some]
    cases hn : (next a).1 with
    | error e => exact hreg
    | ok reference =>
      have htext : strip reference = reference := by
        rw [eq_of_next hn]
        exact RuntimeReferences.strip_intText _
      exact allTrimmed_answered env (allTrimmed_setClientOrderId hreg _ htext) payload _

theorem allTrimmed_enrich {m : OrderIdentityMap} (h : AllTrimmed m) (payload : PyVal) :
    AllTrimmed (_enrichEventPayload py m payload).2 := by
  by_cases hm : ∃ event ref, payload = .dict event ∧ _orderEntryForEvent py m event = some ref
  · obtain ⟨event, ref, rfl, hm⟩ := hm
    obtain ⟨e, he⟩ := entry_of_orderEntryForEvent hm
    have hnew : ∀ keys id before, Trimmed before →
        Trimmed (Option.or (newId py (withEntry e event) keys id) before) := by
      intro keys id before hb
      cases hn : newId py (withEntry e event) keys id with
      | none => exact hb
      | some text =>
        have htext := (given_eq_some _ text).mp (newId_eq_some.mp hn).1
        exact trimmed_some (trimmed_nestedOrderText py _ keys text htext.1)
    exact allTrimmed_of_spec (enrich_matched hm he).2
      (fun e' ht => ⟨hnew EVENT_KEYS _ _ ht.1, hnew VENUE_KEYS _ _ ht.2⟩) h
  · rw [enrich_unmatched]
    · exact h
    · intro event hp
      cases hf : _orderEntryForEvent py m event with
      | none => rfl
      | some ref => exact absurd ⟨event, ref, hp, hf⟩ hm

theorem allTrimmed_step (s : GatewayRuntime) (l : Label) (h : AllTrimmed s.orderMap) :
    AllTrimmed (step py s l).orderMap := by
  cases l with
  | event payload => exact allTrimmed_enrich h payload
  | place adapter payload =>
    rw [step, exec_dispatch_place]
    split
    · rw [(exec_placeOrder _ payload s).1]
      exact allTrimmed_placedMap _ h payload _
    · exact h

/-- After every run of orders with unique request ids and of events, enriching
an event is idempotent and publishes what it learned if and only if the event
is stable: it has the keys of the ids it tells, or its entry has these ids, and
it leads back to that entry. -/
theorem enriched_once_iff (py : Interp) (allocator : Option OrderRefAllocator) (labels : List Label)
    (hu : (labels.filterMap (requestId py)).Nodup) (event : PyMap) :
    Idempotent py (run (step py) (up allocator) labels).orderMap event ∧
        LearnedPublished py (run (step py) (up allocator) labels).orderMap event ↔
      Stable py (run (step py) (up allocator) labels).orderMap event := by
  have htrimmed : AllTrimmed (run (step py) (up allocator) labels).orderMap := by
    refine run_induction (P := fun s : GatewayRuntime => AllTrimmed s.orderMap) allTrimmed_step ?_ labels
    intro j e he
    cases he
  exact stable_iff (stored_run py allocator labels hu).stored htrimmed event

/-- One order under the request id `r`, without a client id. -/
def placed : List Label := [.place .silent [(.str "request_id", .str "r")]]

/-- An event that tells the client id under its own name. -/
theorem enriched_once_iff_sample :
    ∃ event, Idempotent .ascii (run (step .ascii) (up none) placed).orderMap event ∧
      LearnedPublished .ascii (run (step .ascii) (up none) placed).orderMap event ∧
      _orderEntryForEvent .ascii (run (step .ascii) (up none) placed).orderMap event = some 0 := by
  let event : PyMap := [(.str "request_id", .str "r"), (.str "client_order_id", .str "c")]
  have hmatch : _orderEntryForEvent .ascii (run (step .ascii) (up none) placed).orderMap event = some 0 := by
    decide +kernel
  have hu : (placed.filterMap (requestId .ascii)).Nodup := by decide +kernel
  have hstable : Stable .ascii (run (step .ascii) (up none) placed).orderMap event := by
    intro ref e h he
    obtain rfl := Option.some.inj (hmatch.symm.trans h)
    have hclient : PyMap.contains event "client_order_id" = true := by decide +kernel
    have hvenue : given (_nestedOrderText .ascii event VENUE_KEYS) = none := by decide +kernel
    have hback : (heard .ascii event "request_id" (some e.requestId) ["request_id"]).bind
        (byRequest (run (step .ascii) (up none) placed).orderMap) = some 0 := by
      have hhas : PyMap.contains event "request_id" = true := by decide +kernel
      simp only [heard, hhas, Bool.true_eq_false, false_and, ↓reduceIte]
      decide +kernel
    refine ⟨.inl hclient, .inr (.inr hvenue), fun other e' hl hne => ?_⟩
    simp only [leadsTo, List.findSome?_cons, hback, Option.some_or, Option.some.injEq] at hl
    exact absurd hl.symm hne
  exact ⟨event, ((enriched_once_iff .ascii none placed hu event).mpr hstable).1,
    ((enriched_once_iff .ascii none placed hu event).mpr hstable).2, hmatch⟩

def hasClient : PyVal → Bool
  | .dict event => PyMap.contains event "client_order_id"
  | _ => false

def isText : PyVal → Bool
  | .str _ => true
  | _ => false

/-- An event that tells it under another: it is published without the id that
its order learns from it, and given the id when it is enriched again. -/
theorem id_missing_from_event :
    ∃ labels event, (labels.filterMap (requestId .ascii)).Nodup ∧
      ¬ Idempotent .ascii (run (step .ascii) (up none) labels).orderMap event ∧
      ¬ LearnedPublished .ascii (run (step .ascii) (up none) labels).orderMap event := by
  let event : PyMap := [(.str "request_id", .str "r"), (.str "clOrdId", .str "c")]
  let m : OrderIdentityMap := (run (step .ascii) (up none) placed).orderMap
  refine ⟨placed, event, by decide +kernel, fun h => ?_, fun h => ?_⟩
  · have hagain := congrArg (fun r => hasClient r.1) (h _ _ (Prod.eta _).symm)
    revert hagain
    decide +kernel
  · have hmatch : _orderEntryForEvent .ascii m event = some 0 := by decide +kernel
    obtain ⟨e, he⟩ := entry_of_orderEntryForEvent hmatch
    have hbefore : (entry m 0).map (·.clientOrderId) = some none := by decide +kernel
    have hafter : (entry (_enrichEventPayload .ascii m (.dict event)).2 0).map (·.clientOrderId) =
        some (some (u "c")) := by decide +kernel
    rw [he, Option.map_some, Option.some.injEq] at hbefore
    obtain ⟨e', he', hid⟩ := Option.map_eq_some_iff.mp hafter
    have hl := (h _ _ (Prod.eta _).symm 0 e e' he he').1 (u "c") hid (by rw [hbefore]; simp)
    rcases hl with hl | hl
    · revert hl
      decide +kernel
    · have htext := congrArg isText hl
      revert htext
      decide +kernel

end EnrichmentRuns
