import BtApiBase.OrderMapRuns

/-!
# Keys that outlive their order

`remove` takes away the slots of an order's current ids and `register` replaces
an order without touching the indexes, so a key that an order held earlier still
leads to it when it is gone. The runs in which every lookup is sound are exactly
those in which an order that goes away holds no other key.
-/

namespace OrderMapStale

open PyText PyDict PyValue OrderMap OrderMapRuns Runs

/-- The entry is the one stored under its own request id. -/
def Current (m : OrderIdentityMap) (ref : Ref) : Prop :=
  ∃ e, entry m ref = some e ∧ byRequest m e.requestId = some ref

/-- Every entry that an index finds is a current one. -/
def Sound (m : OrderIdentityMap) : Prop :=
  (∀ c ref, byClient m c = some ref → Current m ref) ∧
  (∀ v ref, byVenue m v = some ref → Current m ref)

/-- Some lookup returns the entry. -/
def Returned (m : OrderIdentityMap) (ref : Ref) : Prop :=
  (∃ r, byRequest m r = some ref) ∨ (∃ c, byClient m c = some ref) ∨ ∃ v, byVenue m v = some ref

/-- The indexes hold the entry under no ids but these. -/
def HeldOnlyUnder (m : OrderIdentityMap) (ref : Ref) (client venue : Option PyStr) : Prop :=
  (∀ k, byClient m k = some ref → given client = some k) ∧
  (∀ k, byVenue m k = some ref → given venue = some k)

/-- When an order goes away, replaced or removed, no key of it stays behind. -/
def NoStrayKey (m : OrderIdentityMap) : Op → Prop
  | .register r _ c v _ => ∀ ref, byRequest m r = some ref → HeldOnlyUnder m ref c v
  | .remove r => ∀ ref e, byRequest m r = some ref → entry m ref = some e →
      HeldOnlyUnder m ref e.clientOrderId e.venueOrderId
  | _ => True

theorem current_of_byRequest {m : OrderIdentityMap} {r : PyStr} {ref : Ref}
    (h : byRequest m r = some ref) : Current m ref := by
  obtain ⟨e, he, hr⟩ := entry_of_byRequest h
  exact ⟨e, he, hr ▸ h⟩

theorem Current.live {m : OrderIdentityMap} {ref : Ref} (h : Current m ref) : Live m ref := by
  obtain ⟨e, -, hr⟩ := h
  exact ⟨_, hr⟩

/-- Whether an entry is current only depends on request ids. -/
theorem Current.mono {m m' : OrderIdentityMap} {ref : Ref} (h : Current m ref)
    (hent : ∀ e, entry m ref = some e → ∃ e', entry m' ref = some e' ∧ e'.requestId = e.requestId)
    (hreq : ∀ q, byRequest m' q = byRequest m q) : Current m' ref := by
  obtain ⟨e, he, hr⟩ := h
  obtain ⟨e', he', hre⟩ := hent e he
  exact ⟨e', he', by rw [hreq, hre, hr]⟩

theorem Current.amend {m m' : OrderIdentityMap} {j ref : Ref} {f : OrderEntry → OrderEntry}
    (h : Current m j) (hent : ∀ i, entry m' i = entry (amend m ref f) i)
    (hreq : ∀ q, byRequest m' q = byRequest m q) : Current m' j := by
  refine h.mono (fun e he => ?_) hreq
  rw [hent, entry_amend, he]
  split
  · exact ⟨_, rfl, rfl⟩
  · exact ⟨e, rfl, rfl⟩

/-- In a sound state a registration keeps soundness exactly if the order that
it replaces holds no key but those that the new order takes over. -/
theorem sound_register {m : OrderIdentityMap} (h : Sound m) (r s : PyStr) (c v : Option PyStr)
    (symbol : PyVal) :
    Sound (register m r s c v symbol).2 ↔ NoStrayKey m (.register r s c v symbol) := by
  obtain ⟨hreq, hcli, hven, hent⟩ := register_spec m r s c v symbol
  have hnew : Current (register m r s c v symbol).2 m.entries.length :=
    ⟨_, by rw [hent, if_pos rfl], by rw [hreq, if_pos rfl]⟩
  have hold : ∀ j, Current m j →
      (Current (register m r s c v symbol).2 j ↔ byRequest m r ≠ some j) := by
    rintro j ⟨e, he, hj⟩
    have hne : j ≠ m.entries.length := (lt_of_entry he).ne
    constructor
    · rintro ⟨e', he', hj'⟩ hr
      rw [hent, if_neg hne, he] at he'
      cases he'
      obtain ⟨f, hf, hrf⟩ := entry_of_byRequest hr
      rw [he] at hf
      cases hf
      rw [hreq, if_pos hrf] at hj'
      exact hne (Option.some.inj hj').symm
    · intro hr
      exact ⟨e, by rw [hent, if_neg hne, he],
        by rw [hreq, if_neg (show e.requestId ≠ r from fun hre => hr (hre ▸ hj)), hj]⟩
  constructor
  · rintro ⟨hsc, hsv⟩ ref hr
    refine ⟨fun k hk => ?_, fun k hk => ?_⟩
    · by_contra hg
      exact (hold ref (h.1 k ref hk)).mp (hsc k ref (by rw [hcli, if_neg hg, hk])) hr
    · by_contra hg
      exact (hold ref (h.2 k ref hk)).mp (hsv k ref (by rw [hven, if_neg hg, hk])) hr
  · intro hn
    refine ⟨fun k j hk => ?_, fun k j hk => ?_⟩
    · rw [hcli] at hk
      split at hk
      · cases hk; exact hnew
      · next hg => exact (hold j (h.1 k j hk)).mpr fun hr => hg ((hn j hr).1 k hk)
    · rw [hven] at hk
      split at hk
      · cases hk; exact hnew
      · next hg => exact (hold j (h.2 k j hk)).mpr fun hr => hg ((hn j hr).2 k hk)

/-- A removal keeps soundness exactly if the order holds only its current ids. -/
theorem sound_remove {m : OrderIdentityMap} (h : Sound m) {r : PyStr} {ref : Ref} {e : OrderEntry}
    (hr : byRequest m r = some ref) (he : entry m ref = some e) (her : e.requestId = r) :
    Sound (remove m r).2 ↔ HeldOnlyUnder m ref e.clientOrderId e.venueOrderId := by
  obtain ⟨-, hreq, hcli, hven, hent⟩ := remove_spec hr he
  have hold : ∀ j, Current m j → (Current (remove m r).2 j ↔ j ≠ ref) := by
    rintro j ⟨f, hf, hj⟩
    constructor
    · rintro ⟨f', hf', hj'⟩ rfl
      rw [hent, he] at hf'
      cases hf'
      rw [hreq, if_pos her] at hj'
      cases hj'
    · intro hne
      refine ⟨f, by rw [hent, hf], ?_⟩
      rw [hreq, if_neg, hj]
      intro hfr
      rw [hfr, hr] at hj
      exact hne (Option.some.inj hj).symm
  constructor
  · rintro ⟨hsc, hsv⟩
    refine ⟨fun k hk => ?_, fun k hk => ?_⟩
    · by_contra hg
      exact (hold ref (h.1 k ref hk)).mp (hsc k ref (by rw [hcli, if_neg hg, hk])) rfl
    · by_contra hg
      exact (hold ref (h.2 k ref hk)).mp (hsv k ref (by rw [hven, if_neg hg, hk])) rfl
  · intro hn
    refine ⟨fun k j hk => ?_, fun k j hk => ?_⟩
    · rw [hcli] at hk
      split at hk
      · cases hk
      · next hg => exact (hold j (h.1 k j hk)).mpr fun hj => hg (hn.1 k (hj ▸ hk))
    · rw [hven] at hk
      split at hk
      · cases hk
      · next hg => exact (hold j (h.2 k j hk)).mpr fun hj => hg (hn.2 k (hj ▸ hk))

/-- One step: setting an id or a status never makes a lookup unsound. -/
theorem sound_apply {m : OrderIdentityMap} (h : Sound m) (op : Op) :
    Sound (apply m op) ↔ NoStrayKey m op := by
  generalize hm : apply m op = m'
  cases hm ▸ effect m op with
  | unknown op hr hrm =>
    refine ⟨fun _ => ?_, fun _ => h⟩
    cases op with
    | register => cases hr
    | remove r => intro ref e hq; rw [hrm r rfl] at hq; cases hq
    | _ => trivial
  | register r s c v symbol => exact sound_register h r s c v symbol
  | @client r ref e c hr he her =>
    have hlt : ref < (amend m ref (.withClient c)).entries.length := by
      simpa using lt_of_entry he
    have hcur : ∀ j, Current m j → Current (indexClient (amend m ref (.withClient c)) c ref) j :=
      fun j hj => hj.amend (fun i => entry_indexClient _ _ _ _) (by simp)
    refine iff_of_true ⟨fun k j hk => ?_, fun k j hk => ?_⟩ trivial
    · rw [byClient_indexClient _ hlt] at hk
      split at hk
      · cases hk; exact hcur ref (current_of_byRequest hr)
      · exact hcur j (h.1 k j hk)
    · exact hcur j (h.2 k j (by simpa using hk))
  | @venue op ref e v he hop =>
    have hlt : ref < (amend m ref (.withVenue v)).entries.length := by
      simpa using lt_of_entry he
    have hcur : ∀ j, Current m j → Current (indexVenue (amend m ref (.withVenue v)) v ref) j :=
      fun j hj => hj.amend (fun i => entry_indexVenue _ _ _ _) (by simp)
    have href : Current m ref := by
      rcases hop with ⟨r, -, hr⟩ | ⟨c, -, hc⟩
      · exact current_of_byRequest hr
      · exact h.1 c ref hc
    have hn : NoStrayKey m op := by
      rcases hop with ⟨r, rfl, -⟩ | ⟨c, rfl, -⟩ <;> trivial
    refine iff_of_true ⟨fun k j hk => ?_, fun k j hk => ?_⟩ hn
    · exact hcur j (h.1 k j (by simpa using hk))
    · rw [byVenue_indexVenue _ hlt] at hk
      split at hk
      · cases hk; exact hcur ref href
      · exact hcur j (h.2 k j hk)
  | status r status ref =>
    refine iff_of_true ⟨fun k j hk => ?_, fun k j hk => ?_⟩ trivial
    · exact (h.1 k j hk).amend (fun _ => rfl) (fun _ => rfl)
    · exact (h.2 k j hk).amend (fun _ => rfl) (fun _ => rfl)
  | @remove r ref e hr he her =>
    refine (sound_remove h hr he her).trans ⟨fun hh j f hj hf => ?_, fun hn => hn ref e hr he⟩
    rw [hr] at hj
    cases hj
    rw [he] at hf
    cases hf
    exact hh

/-! ## Orders that are gone -/

theorem length_le_apply (m : OrderIdentityMap) (op : Op) :
    m.entries.length ≤ (apply m op).entries.length := by
  generalize hm : apply m op = m'
  cases hm ▸ effect m op with
  | remove hr he =>
    by_contra hlt
    obtain ⟨e, he'⟩ := entry_of_lt (Nat.not_le.mp hlt)
    rw [← (remove_spec hr he).2.2.2.2] at he'
    exact absurd (lt_of_entry he') (Nat.lt_irrefl _)
  | _ => simp

/-- An order that is not stored is never stored again. -/
theorem not_live_run {m : OrderIdentityMap} {ref : Ref} (hlt : ref < m.entries.length)
    (h : ¬ Live m ref) (ops : List Op) : ¬ Live (run apply m ops) ref := by
  have hstep : ∀ m op, ref < m.entries.length ∧ ¬ Live m ref →
      ref < (apply m op).entries.length ∧ ¬ Live (apply m op) ref := by
    rintro m op ⟨hlt, h⟩
    refine ⟨hlt.trans_le (length_le_apply m op), ?_⟩
    rintro ⟨r, hr⟩
    rcases byRequest_apply hr with hr | rfl
    · exact h ⟨r, hr⟩
    · exact absurd hlt (Nat.lt_irrefl _)
  exact (run_induction hstep ⟨hlt, h⟩ ops).2

theorem not_live_remove {m : OrderIdentityMap} {r : PyStr} {ref : Ref}
    (h : (remove m r).1 = some ref) :
    ref < (remove m r).2.entries.length ∧ ¬ Live (remove m r).2 ref := by
  cases hr : byRequest m r with
  | none => simp [remove, hr] at h
  | some j =>
    obtain ⟨e, he, her⟩ := entry_of_byRequest hr
    obtain ⟨hret, hreq, -, -, hent⟩ := remove_spec hr he
    rw [hret] at h
    cases h
    refine ⟨lt_of_entry ((hent ref).trans he), ?_⟩
    rintro ⟨q, hq⟩
    rw [hreq] at hq
    split at hq
    · cases hq
    · next hne =>
      obtain ⟨f, hf, hrf⟩ := entry_of_byRequest hq
      rw [he] at hf
      cases hf
      exact hne (hrf.symm.trans her)

theorem not_returned {m : OrderIdentityMap} (h : Sound m) {ref : Ref} (hl : ¬ Live m ref) :
    ¬ Returned m ref := by
  rintro (⟨r, hr⟩ | ⟨c, hc⟩ | ⟨v, hv⟩)
  · exact hl ⟨r, hr⟩
  · exact hl (h.1 c ref hc).live
  · exact hl (h.2 v ref hv).live

theorem sound_empty : Sound empty := by
  constructor <;> (intro k ref h; cases h)

/-- In every run, all lookups are sound in every state exactly if no order that
goes away leaves a key behind; then no lookup returns a removed order again. -/
theorem lookups_sound_iff (ops : List Op) :
    (Throughout apply Sound empty ops ↔ Meets apply NoStrayKey empty ops) ∧
    (Meets apply NoStrayKey empty ops →
      ∀ pre r post ref, ops = pre ++ .remove r :: post →
        (remove (run apply empty pre) r).1 = some ref → ¬ Returned (run apply empty ops) ref) := by
  have hiff : Throughout apply Sound empty ops ↔ Meets apply NoStrayKey empty ops :=
    throughout_iff_meets (P := Sound) (Q := fun _ => True) (fun _ _ _ => trivial)
      (fun m op _ h => sound_apply h op) trivial sound_empty ops
  refine ⟨hiff, ?_⟩
  rintro hm pre r post ref rfl hret
  obtain ⟨hlt, hgone⟩ := not_live_remove hret
  have hsound := throughout_last (hiff.mpr hm)
  refine not_returned hsound ?_
  rw [run_append, run_cons]
  exact not_live_run hlt hgone post

/-- An order renamed from `c1` to `c2` and removed. -/
def renamedOps : List Op :=
  [.register "r1" "s1" (some (u "c1")) none .none, .setClientOrderId "r1" "c2"]

/-- The removal returns the order, and the client index still finds it. -/
theorem removed_order_found :
    (remove (run apply empty renamedOps) "r1").1 = some 0 ∧
    byClient (run apply empty (renamedOps ++ [.remove "r1"])) "c1" = some 0 ∧
    ¬ Throughout apply Sound empty (renamedOps ++ [.remove "r1"]) := by
  have hfound : byClient (run apply empty (renamedOps ++ [.remove "r1"])) "c1" = some 0 := by decide +kernel
  refine ⟨by decide +kernel, hfound, fun h => ?_⟩
  obtain ⟨e, -, hr⟩ := (throughout_last h).1 "c1" 0 hfound
  have hnone : ∀ q, byRequest (run apply empty (renamedOps ++ [.remove "r1"])) q = none := by
    intro q
    rfl
  rw [hnone] at hr
  cases hr

end OrderMapStale
