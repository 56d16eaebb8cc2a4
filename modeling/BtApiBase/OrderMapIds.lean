import BtApiBase.OrderMapRuns

/-!
# Ids that go to one order each

As long as no client id and no venue id is given to two orders, each index is an
inverse of the ids that the stored entries hold. Ids may change any number of
times and may be set through the alias of an order that is gone; an index then
keeps the old keys, but each of them leads to the order that owned it.
-/

namespace OrderMapIds

open PyText PyDict PyValue OrderMap OrderMapRuns Runs

def Distinct (ent : Ref → Option OrderEntry) : Prop :=
  ∀ i j e f, ent i = some e → ent j = some f → e.requestId = f.requestId → i = j

/-- One index beside the ids that the entries hold: `gifts` pairs every id with
the request it was given to. An entry that is no longer stored may still be
found, under ids that were its own. -/
structure IdIndex (idOf : OrderEntry → Option PyStr) (ent : Ref → Option OrderEntry)
    (req idx : PyStr → Option Ref) (gifts : List (PyStr × PyStr)) : Prop where
  indexed : ∀ c ref e, idx c = some ref → c ≠ [] → ent ref = some e → (c, e.requestId) ∈ gifts
  held : ∀ ref e c, ent ref = some e → given (idOf e) = some c → (c, e.requestId) ∈ gifts
  found : ∀ r ref e c, req r = some ref → ent ref = some e → given (idOf e) = some c →
    idx c = some ref

section

variable {idOf : OrderEntry → Option PyStr} {ent ent' : Ref → Option OrderEntry}
  {req req' idx idx' : PyStr → Option Ref} {gifts : List (PyStr × PyStr)}

/-- An update that keeps the request id and the id at hand is not noticed. -/
theorem IdIndex.frame (h : IdIndex idOf ent req idx gifts)
    (hent : ∀ j e', ent' j = some e' →
      ∃ e, ent j = some e ∧ e.requestId = e'.requestId ∧ idOf e = idOf e')
    (hreq : ∀ q, req' q = req q) (hidx : ∀ d, idx' d = idx d) :
    IdIndex idOf ent' req' idx' gifts where
  indexed c ref e' hi hc he := by
    obtain ⟨e, he, hr, -⟩ := hent ref e' he
    exact hr ▸ h.indexed c ref e (hidx c ▸ hi) hc he
  held ref e' c he hc := by
    obtain ⟨e, he, hr, hid⟩ := hent ref e' he
    exact hr ▸ h.held ref e c he (hid ▸ hc)
  found r ref e' c hq he hc := by
    obtain ⟨e, he, -, hid⟩ := hent ref e' he
    rw [hidx]
    exact h.found r ref e c (hreq r ▸ hq) he (hid ▸ hc)

theorem IdIndex.amend {m : OrderIdentityMap} (h : IdIndex idOf (entry m) req idx gifts) {ref : Ref}
    {f : OrderEntry → OrderEntry} (hid : ∀ e, idOf { f e with requestId := e.requestId } = idOf e)
    (hent : ∀ j, ent' j = entry (amend m ref f) j) (hreq : ∀ q, req' q = req q)
    (hidx : ∀ d, idx' d = idx d) : IdIndex idOf ent' req' idx' gifts := by
  refine h.frame (fun j e' he => ?_) hreq hidx
  rw [hent, entry_amend] at he
  split at he
  · obtain ⟨e, h₀, rfl⟩ := Option.map_eq_some_iff.mp he
    exact ⟨e, h₀, rfl, (hid e).symm⟩
  · exact ⟨e', he, rfl, rfl⟩

/-- Giving an id to an order moves that id's slot and no other. -/
theorem IdIndex.give (h : IdIndex idOf ent req idx gifts) (hf : Functional gifts)
    (hd : Distinct ent) {ref : Ref} {e₀ x : OrderEntry} {c : PyStr} (h₀ : ent ref = some e₀)
    (hr : x.requestId = e₀.requestId) (hid : idOf x = some c)
    (hg : c ≠ [] → (c, e₀.requestId) ∈ gifts)
    (hent : ∀ j, ent' j = if ref = j then some x else ent j) (hreq : ∀ q, req' q = req q)
    (hidx : ∀ d, idx' d = if d = c then some ref else idx d) :
    IdIndex idOf ent' req' idx' gifts where
  indexed d j e hi hne he := by
    rw [hidx] at hi
    rw [hent] at he
    split at hi
    · next hdc =>
      cases hi
      rw [if_pos rfl] at he
      cases he
      rw [hr, hdc]
      exact hg (hdc ▸ hne)
    · split at he
      · next hj =>
        cases he
        rw [hr]
        exact h.indexed d j e₀ hi hne (hj ▸ h₀)
      · exact h.indexed d j e hi hne he
  held j e d he hgv := by
    rw [hent] at he
    split at he
    · cases he
      obtain ⟨hd', hne⟩ := (given_eq_some _ _).mp hgv
      rw [hid] at hd'
      cases hd'
      rw [hr]
      exact hg hne
    · exact h.held j e d he hgv
  found r j e d hq he hgv := by
    rw [hreq] at hq
    rw [hent] at he
    rw [hidx]
    split at he
    · next hj =>
      cases he
      obtain ⟨hd', -⟩ := (given_eq_some _ _).mp hgv
      rw [hid] at hd'
      cases hd'
      rw [if_pos rfl, hj]
    · split
      · next hdc =>
        -- the id would belong to both orders, which are then the same one
        subst hdc
        obtain ⟨-, hne⟩ := (given_eq_some _ _).mp hgv
        have he' := h.held j e d he hgv
        have hsame : e₀.requestId = e.requestId := hf _ (hg hne) _ he' rfl
        rw [hd ref j e₀ e h₀ he hsame]
      · exact h.found r j e d hq he hgv

/-- A new order with a fresh request id takes the slot of its id. -/
theorem IdIndex.add (h : IdIndex idOf ent req idx gifts) (hf : Functional gifts)
    {n : Ref} {e₁ : OrderEntry} (hfresh : ∀ j e, ent j = some e → e.requestId ≠ e₁.requestId)
    (hn : ∀ c, idx c ≠ some n)
    (hg : ∀ c, given (idOf e₁) = some c → (c, e₁.requestId) ∈ gifts)
    (hent : ∀ j, ent' j = if j = n then some e₁ else ent j)
    (hreq : ∀ q, req' q = if q = e₁.requestId then some n else req q)
    (hidx : ∀ d, idx' d = if given (idOf e₁) = some d then some n else idx d) :
    IdIndex idOf ent' req' idx' gifts where
  indexed d j e hi hne he := by
    rw [hidx] at hi
    rw [hent] at he
    split at hi
    · next hgv =>
      cases hi
      rw [if_pos rfl] at he
      cases he
      exact hg d hgv
    · rw [if_neg (show j ≠ n from fun hj => hn d (hj ▸ hi))] at he
      exact h.indexed d j e hi hne he
  held j e d he hgv := by
    rw [hent] at he
    split at he
    · cases he; exact hg d hgv
    · exact h.held j e d he hgv
  found r j e d hq he hgv := by
    rw [hreq] at hq
    rw [hent] at he
    rw [hidx]
    split at he
    · next hj => cases he; rw [if_pos hgv, hj]
    · next hj =>
      rw [if_neg]
      · split at hq
        · cases hq; exact absurd rfl hj
        · exact h.found r j e d hq he hgv
      · intro hgv'
        exact hfresh j e he (hf _ (h.held j e d he hgv) _ (hg d hgv') rfl)

/-- A removal takes the slot of the order's own id, which no other order holds. -/
theorem IdIndex.drop (h : IdIndex idOf ent req idx gifts) (hf : Functional gifts)
    (hd : Distinct ent) (hstored : ∀ q j e, req q = some j → ent j = some e → e.requestId = q)
    {ref : Ref} {e₀ : OrderEntry} (h₀ : ent ref = some e₀) (hent : ∀ j, ent' j = ent j)
    (hreq : ∀ q, req' q = if q = e₀.requestId then none else req q)
    (hidx : ∀ d, idx' d = if given (idOf e₀) = some d then none else idx d) :
    IdIndex idOf ent' req' idx' gifts where
  indexed d j e hi hne he := by
    rw [hidx] at hi
    rw [hent] at he
    split at hi
    · cases hi
    · exact h.indexed d j e hi hne he
  held j e d he := h.held j e d (hent j ▸ he)
  found r j e d hq he hgv := by
    rw [hreq] at hq
    rw [hent] at he
    rw [hidx]
    split at hq
    · cases hq
    · next hr =>
      rw [if_neg]
      · exact h.found r j e d hq he hgv
      · intro hgv₀
        have hsame : e.requestId = e₀.requestId :=
          hf _ (h.held j e d he hgv) _ (h.held ref e₀ d h₀ hgv₀) rfl
        have hj := hd j ref e e₀ he h₀ hsame
        exact hr ((hstored r j e hq he).symm.trans hsame)

end

/-- Both indexes agree with the entries. -/
structure Consistent (G H : List (PyStr × PyStr)) (m : OrderIdentityMap) : Prop where
  distinct : Distinct (entry m)
  client : IdIndex (·.clientOrderId) (entry m) (byRequest m) (byClient m) G
  venue : IdIndex (·.venueOrderId) (entry m) (byRequest m) (byVenue m) H

theorem consistent_empty (G H : List (PyStr × PyStr)) : Consistent G H empty := by
  have he : ∀ ref, entry empty ref = none := fun ref => rfl
  have hr : ∀ r, byRequest empty r = none := fun r => rfl
  have hc : ∀ c, byClient empty c = none := fun c => rfl
  have hv : ∀ v, byVenue empty v = none := fun v => rfl
  refine ⟨fun i j e f hi => by simp [he] at hi, ⟨?_, ?_, ?_⟩, ⟨?_, ?_, ?_⟩⟩ <;> simp [he, hr, hc, hv]

theorem distinct_apply {m : OrderIdentityMap} {op : Op} (h : Distinct (entry m))
    (hfresh : ∀ r, op.registers = some r → ∀ j e, entry m j = some e → e.requestId ≠ r) :
    Distinct (entry (apply m op)) := by
  intro i j e f hi hj hr
  rcases entry_apply hi with ⟨e', he, hre⟩ | ⟨hi', hre⟩
  · rcases entry_apply hj with ⟨f', hf, hrf⟩ | ⟨hj', hrf⟩
    · exact h i j e' f' he hf (by rw [hre, hrf, hr])
    · exact absurd (hre.trans hr) (hfresh _ hrf i e' he)
  · rcases entry_apply hj with ⟨f', hf, hrf⟩ | ⟨hj', hrf⟩
    · exact absurd (hrf.trans hr.symm) (hfresh _ hre j f' hf)
    · rw [hi', hj']

/-- One operation keeps both indexes right if what it gives is among the gifts
and a registered request id is fresh. -/
theorem consistent_apply {G H : List (PyStr × PyStr)} (hG : Functional G) (hH : Functional H)
    {m : OrderIdentityMap} {op : Op} (h : Consistent G H m)
    (hg : ∀ p ∈ clientGift m op, p ∈ G) (hh : ∀ p ∈ venueGift m op, p ∈ H)
    (hfresh : ∀ r, op.registers = some r → ∀ j e, entry m j = some e → e.requestId ≠ r) :
    Consistent G H (apply m op) := by
  have hdist := distinct_apply h.distinct hfresh
  have hstored : ∀ q j e, byRequest m q = some j → entry m j = some e → e.requestId = q := by
    intro q j e hq he
    obtain ⟨e', he', hr⟩ := entry_of_byRequest hq
    rw [he] at he'
    cases he'
    exact hr
  generalize hm : apply m op = m' at hdist
  cases hm ▸ effect m op with
  | unknown => exact h
  | register r s c v symbol =>
    obtain ⟨hreq, hcli, hven, hent⟩ := register_spec m r s c v symbol
    refine ⟨hdist, h.client.add hG (hfresh r rfl) (fun d hd => ?_) (fun d hd => ?_) hent hreq hcli,
      h.venue.add hH (hfresh r rfl) (fun d hd => ?_) (fun d hd => ?_) hent hreq hven⟩
    · exact absurd (m.client_lt d _ hd) (Nat.lt_irrefl _)
    · exact hg _ (by simp [clientGift, hd])
    · exact absurd (m.venue_lt d _ hd) (Nat.lt_irrefl _)
    · exact hh _ (by simp [venueGift, hd])
  | @client r ref e c hr he her =>
    have hlt : ref < (amend m ref (.withClient c)).entries.length := by
      simpa using lt_of_entry he
    refine ⟨hdist, h.client.give hG h.distinct (x := e.withClient c) he rfl rfl (fun hne => ?_)
      (fun j => (entry_indexClient _ _ _ _).trans (entry_amend_of m he _ j)) (by simp)
      (fun d => byClient_indexClient _ hlt c d), h.venue.amend (f := .withClient c) (fun _ => rfl)
      (fun j => entry_indexClient _ _ _ _) (by simp) (by simp)⟩
    exact her ▸ hg _ (by simp [clientGift, hr, hne])
  | @venue _ ref e v he hop hgv =>
    have hlt : ref < (amend m ref (.withVenue v)).entries.length := by
      simpa using lt_of_entry he
    exact ⟨hdist, h.client.amend (f := .withVenue v) (fun _ => rfl)
      (fun j => entry_indexVenue _ _ _ _) (by simp) (by simp),
      h.venue.give hH h.distinct (x := e.withVenue v) he rfl rfl (fun hne => hh _ (hgv hne))
      (fun j => (entry_indexVenue _ _ _ _).trans (entry_amend_of m he _ j)) (by simp)
      (fun d => byVenue_indexVenue _ hlt v d)⟩
  | status r status ref =>
    exact ⟨hdist, h.client.amend (f := .withStatus status) (fun _ => rfl) (fun _ => rfl)
      (fun _ => rfl) (fun _ => rfl),
      h.venue.amend (f := .withStatus status) (fun _ => rfl) (fun _ => rfl) (fun _ => rfl)
      (fun _ => rfl)⟩
  | @remove r ref e hr he her =>
    subst her
    obtain ⟨-, hreq, hcli, hven, hent⟩ := remove_spec hr he
    exact ⟨hdist, h.client.drop hG h.distinct hstored he hent hreq hcli,
      h.venue.drop hH h.distinct hstored he hent hreq hven⟩

theorem registers_cons (op : Op) (ops : List Op) :
    (op :: ops).filterMap Op.registers = op.registers.toList ++ ops.filterMap Op.registers := by
  cases h : op.registers <;> simp [h]

theorem consistent_run {G H : List (PyStr × PyStr)} (hG : Functional G) (hH : Functional H)
    (ops : List Op) {m : OrderIdentityMap} (h : Consistent G H m)
    (hg : ∀ p ∈ log apply clientGift m ops, p ∈ G) (hh : ∀ p ∈ log apply venueGift m ops, p ∈ H)
    (hnd : (ops.filterMap Op.registers).Nodup)
    (hfresh : ∀ j e, entry m j = some e → e.requestId ∉ ops.filterMap Op.registers) :
    Consistent G H (run apply m ops) := by
  induction ops generalizing m with
  | nil => exact h
  | cons op ops ih =>
    simp only [log, List.mem_append, or_imp, forall_and] at hg hh
    rw [registers_cons, List.nodup_append] at hnd
    simp only [registers_cons, List.mem_append, not_or, Option.mem_toList] at hfresh
    have hop : ∀ r, op.registers = some r → ∀ j e, entry m j = some e → e.requestId ≠ r := by
      intro r hr j e he hre
      exact (hfresh j e he).1 (hre ▸ hr)
    refine ih (consistent_apply hG hH h hg.1 hh.1 hop) hg.2 hh.2 hnd.2.1 ?_
    intro j e he hmem
    rcases entry_apply he with ⟨e', he', hre⟩ | ⟨-, hr⟩
    · exact (hfresh j e' he').2 (hre ▸ hmem)
    · exact hnd.2.2 _ (Option.mem_toList.mpr hr) _ hmem rfl

/-- The lookups by an entry's own ids find that very entry. -/
structure FoundByIds (m : OrderIdentityMap) (ref : Ref) (e : OrderEntry) : Prop where
  request : byRequest m e.requestId = some ref
  client : ∀ c, e.clientOrderId = some c → c ≠ [] → byClient m c = some ref
  venue : ∀ v, e.venueOrderId = some v → v ≠ [] → byVenue m v = some ref

theorem Consistent.foundByIds {G H : List (PyStr × PyStr)} {m : OrderIdentityMap}
    (h : Consistent G H m) {ref : Ref} {e : OrderEntry} (hl : Live m ref)
    (he : entry m ref = some e) : FoundByIds m ref e := by
  obtain ⟨r, hr⟩ := hl
  obtain ⟨e', he', hre⟩ := entry_of_byRequest hr
  rw [he] at he'
  cases he'
  refine ⟨hre ▸ hr, fun c hc hne => ?_, fun v hv hne => ?_⟩
  · exact h.client.found r ref e c hr he (by simp [hc, hne])
  · exact h.venue.found r ref e v hr he (by simp [hv, hne])

/-- In every run that registers each request id once and gives no id to two
orders, a stored order is found by each of its ids, and removing another order
leaves the order and these lookups as they are. -/
theorem live_order_found (ops : List Op) (hnd : (ops.filterMap Op.registers).Nodup)
    (hc : Functional (log apply clientGift empty ops))
    (hv : Functional (log apply venueGift empty ops)) (ref : Ref) (e : OrderEntry)
    (hl : Live (run apply empty ops) ref) (he : entry (run apply empty ops) ref = some e) :
    FoundByIds (run apply empty ops) ref e ∧
      ∀ r, byRequest (run apply empty ops) r ≠ some ref →
        entry (remove (run apply empty ops) r).2 ref = some e ∧
          FoundByIds (remove (run apply empty ops) r).2 ref e := by
  have h : Consistent (log apply clientGift empty ops) (log apply venueGift empty ops)
      (run apply empty ops) :=
    consistent_run hc hv ops (consistent_empty _ _) (fun p hp => hp) (fun p hp => hp) hnd
      (fun j e he => by cases he)
  refine ⟨h.foundByIds hl he, ?_⟩
  intro r hr
  have h' : Consistent _ _ (apply (run apply empty ops) (.remove r)) :=
    consistent_apply hc hv h (by simp [clientGift]) (by simp [venueGift]) (by simp [Op.registers])
  obtain ⟨q, hq⟩ := hl
  cases hm : byRequest (run apply empty ops) r with
  | none =>
    have hsame : (remove (run apply empty ops) r).2 = run apply empty ops := by simp [remove, hm]
    rw [hsame]
    exact ⟨he, h.foundByIds ⟨q, hq⟩ he⟩
  | some j =>
    obtain ⟨f, hf, -⟩ := entry_of_byRequest hm
    obtain ⟨-, hreq, -, -, hent⟩ := remove_spec hm hf
    have he' := (hent ref).trans he
    have hlive : Live (remove (run apply empty ops) r).2 ref :=
      ⟨q, by rw [hreq, if_neg (show q ≠ r from fun hqr => hr (hqr ▸ hq)), hq]⟩
    exact ⟨he', h'.foundByIds hlive he'⟩

/-- Two orders, one of them renamed, with venue ids set through both indexes. -/
def sampleOps : List Op :=
  [.register "r1" "s1" (some (u "c1")) none .none, .register "r2" "s2" (some (u "c2")) none .none,
    .setVenueOrderId "r1" "v1", .setClientOrderId "r2" "c3", .setVenueOrderIdByClient "c2" "v2"]

theorem live_order_found_sample :
    FoundByIds (run apply empty sampleOps) 1
      ⟨"r2", "s2", some (u "c3"), some (u "v2"), .none, "pending"⟩ ∧
      ∀ r, byRequest (run apply empty sampleOps) r ≠ some 1 →
        entry (remove (run apply empty sampleOps) r).2 1 =
          some ⟨"r2", "s2", some (u "c3"), some (u "v2"), .none, "pending"⟩ ∧
        FoundByIds (remove (run apply empty sampleOps) r).2 1
          ⟨"r2", "s2", some (u "c3"), some (u "v2"), .none, "pending"⟩ :=
  live_order_found sampleOps (by decide) (by decide) (by decide) 1 _ ⟨"r2", by decide⟩ rfl

end OrderMapIds
