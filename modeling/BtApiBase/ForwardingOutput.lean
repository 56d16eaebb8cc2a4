import Mathlib.Data.List.Perm.Basic
import BtApiBase.ForwardingLifecycle

/-!
# What the adapters emit

An item goes from the queue of its adapter to a pump thread and on to a publisher. No
interleaving of starts, stops and pump threads handles an item twice. A thread that outlives
its `join` may find its publisher gone, and then drops the item without an error. Where every
`join` waits for its thread to end none is dropped, and the order of the items is kept.
-/

namespace ForwardingOutput

open ForwardingLifecycle Runs

variable {α : Type} {market : α → Bool}

/-- The item of the adapter that the thread holds. -/
def item (a : Nat) : Pump α → Option α
  | .holding b x => if b = a then some x else none
  | _ => none

def inHand (w : World α) (a : Nat) : List α := w.pumps.filterMap (item a)

def delivered (w : World α) (a : Nat) : List α :=
  (w.handled.filter fun h => h.adapter = a).map Handled.item

/-- The entry at a place, and what comes before and after it. -/
theorem split_at {β : Type} {l : List β} {i : Nat} {b : β} (h : l[i]? = some b) :
    ∃ l₁ l₂, l = l₁ ++ b :: l₂ ∧ ∀ c, l.set i c = l₁ ++ c :: l₂ := by
  induction l generalizing i with
  | nil => simp at h
  | cons x l ih =>
    cases i with
    | zero =>
      obtain rfl : x = b := by simpa using h
      exact ⟨[], l, rfl, fun _ => rfl⟩
    | succ i =>
      obtain ⟨l₁, l₂, rfl, hset⟩ := ih (by simpa using h)
      exact ⟨x :: l₁, l₂, rfl, fun c => by simp [hset]⟩

/-! ## What a step does to the items -/

/-- Every item that was in a queue is accounted for. -/
inductive Moved (w : World α) : World α → Prop
  | idle (w' : World α) (hh : ∀ a, inHand w' a = inHand w a) (hq : w'.queues = w.queues)
    (he : w'.emitted = w.emitted) (hd : w'.handled = w.handled) : Moved w w'
  | emitted (a : Nat) (x : α) : Moved w { w with
      queues := Function.update w.queues a (w.queues a ++ [x])
      emitted := Function.update w.emitted a (w.emitted a ++ [x]) }
  | taken (i a : Nat) (x : α) (rest : List α) (hi : w.pumps[i]? = some (.polling a))
    (hq : w.queues a = x :: rest) : Moved w ((w.take a rest).goTo i (.holding a x))
  | lost (i a : Nat) (x : α) (rest : List α) (hi : w.pumps[i]? = some (.polling a))
    (hq : w.queues a = x :: rest) : Moved w (((w.take a rest).done a x .failed).goTo i .head)
  | done (i a : Nat) (x : α) (fate : Fate) (hi : w.pumps[i]? = some (.holding a x))
    (hf : fate = .dropped → ∃ r, w.held r = none) : Moved w ((w.done a x fate).goTo i .head)

section

variable {w : World α}

/-- A thread that goes on changes what it holds, and nothing else that is held. -/
theorem inHand_split {i : Nat} {p : Pump α} (hi : w.pumps[i]? = some p) (a : Nat) :
    ∃ before after : List α, inHand w a = before ++ (item a p).toList ++ after ∧
      ∀ q, inHand (w.goTo i q) a = before ++ (item a q).toList ++ after := by
  have hmap : ∀ (l₁ l₂ : List (Pump α)) (q : Pump α), (l₁ ++ q :: l₂).filterMap (item a) =
      l₁.filterMap (item a) ++ (item a q).toList ++ l₂.filterMap (item a) := by
    intro l₁ l₂ q
    cases hq : item a q <;> simp [hq]
  obtain ⟨l₁, l₂, hl, hset⟩ := split_at hi
  refine ⟨l₁.filterMap (item a), l₂.filterMap (item a), ?_, fun q => ?_⟩
  · rw [inHand, hl, hmap]
  · rw [inHand, World.goTo, hset, hmap]

theorem inHand_goTo {i : Nat} {p q : Pump α} (hi : w.pumps[i]? = some p)
    (hp : ∀ a, item a p = none) (hq : ∀ a, item a q = none) (a : Nat) :
    inHand (w.goTo i q) a = inHand w a := by
  obtain ⟨before, after, hw, hgo⟩ := inHand_split hi a
  rw [hw, hgo, hp, hq]

/-- An item is dropped only where a publisher is `None`. -/
theorem dropped_publish {x : α} {outcome : Outcome} (h : w.publish market x outcome = .dropped) :
    ∃ r, w.held r = none := by
  unfold World.publish at h
  split at h
  · split at h
    · cases h
    · next hnone => exact ⟨_, Option.not_isSome_iff_eq_none.mp hnone⟩
  · cases h

theorem moved_pump (w : World α) (i : Nat) (outcome : Outcome) : Moved w (w.pump market i outcome) := by
  have hstay : Moved w w := .idle w (fun _ => rfl) rfl rfl rfl
  unfold World.pump
  split
  · next hi =>
    split
    · exact .idle _ (inHand_goTo hi (by simp [item]) (by simp [item])) rfl rfl rfl
    · split
      · exact .idle _ (inHand_goTo hi (by simp [item]) (by simp [item])) rfl rfl rfl
      · exact hstay
  · next a hi =>
    split
    · next hq => exact .taken i a _ _ hi hq
    · next hq => exact .lost i a _ _ hi hq
    · exact .idle _ (inHand_goTo hi (by simp [item]) (by simp [item])) rfl rfl rfl
  · next a x hi => exact .done i a x _ hi dropped_publish
  · exact hstay

theorem moved_step (w : World α) (l : Label α) : Moved w (step market w l) := by
  have hsame : ∀ w' : World α, w'.pumps = w.pumps ∧ w'.queues = w.queues ∧
      w'.emitted = w.emitted ∧ w'.handled = w.handled → Moved w w' := by
    rintro w' ⟨hp, hq, he, hd⟩
    exact .idle w' (fun a => by simp [inHand, hp]) hq he hd
  cases l with
  | startInThread resolved =>
    simp only [step]
    split <;> exact hsame _ ⟨rfl, rfl, rfl, rfl⟩
  | stop =>
    simp only [step]
    split <;> exact hsame _ ⟨rfl, rfl, rfl, rfl⟩
  | proceed ok =>
    simp only [step]
    split
    · exact hsame _ ⟨rfl, rfl, rfl, rfl⟩
    · next stage _ =>
      have hpump : ∀ p : Pump α, (∀ a, item a p = none) → ∀ a,
          inHand (w.makePump p) a = inHand w a := by
        intro p hp a
        simp [inHand, World.makePump, hp]
      cases stage with
      | create | serverStart | adapter =>
        cases ok <;> exact hsame _ ⟨rfl, rfl, rfl, rfl⟩
      | connect =>
        cases ok with
        | false => exact hsame _ ⟨rfl, rfl, rfl, rfl⟩
        | true =>
          simp only [World.proceedStart, World.connect, if_true]
          split <;> exact hsame _ ⟨rfl, rfl, rfl, rfl⟩
      | pump =>
        cases ok with
        | false => exact .idle _ (hpump .unstarted (by simp [item])) rfl rfl rfl
        | true => exact .idle _ (hpump .head (by simp [item])) rfl rfl rfl
    · next c stopping _ =>
      cases c with
      | setStop | disconnect => exact hsame _ ⟨rfl, rfl, rfl, rfl⟩
      | joinPump =>
        simp only [World.proceedCleanup]
        split
        · exact hsame _ ⟨rfl, rfl, rfl, rfl⟩
        · split <;> exact hsame _ ⟨rfl, rfl, rfl, rfl⟩
      | close r =>
        simp only [World.proceedCleanup]
        split
        · exact hsame _ ⟨rfl, rfl, rfl, rfl⟩
        · split <;> exact hsame _ ⟨rfl, rfl, rfl, rfl⟩
  | joinTimeout =>
    simp only [step]
    split
    · split <;> exact hsame _ ⟨rfl, rfl, rfl, rfl⟩
    · exact hsame _ ⟨rfl, rfl, rfl, rfl⟩
  | pump i outcome => exact moved_pump w i outcome
  | emit a x => exact .emitted a x

/-! ## No item is handled twice -/

/-- What was emitted by an adapter is handled, held by a thread or queued. -/
def Accounted (w : World α) : Prop :=
  ∀ a, (delivered w a ++ inHand w a ++ w.queues a).Perm (w.emitted a)

theorem delivered_done (a b : Nat) (x : α) (fate : Fate) :
    delivered (w.done a x fate) b = delivered w b ++ if a = b then [x] else [] := by
  by_cases h : a = b <;> simp [delivered, World.done, h]

theorem accounted_moved (h : Accounted w) {w' : World α} (hm : Moved w w') : Accounted w' := by
  intro b
  have hb := h b
  cases hm with
  | idle w' hh hq he hd => simpa [delivered, hh, hq, he, hd] using hb
  | emitted a x =>
    by_cases hab : b = a
    · subst hab
      simpa [delivered, inHand] using hb.append_right [x]
    · simpa [delivered, inHand, hab] using hb
  | taken i a x rest hi hq =>
    obtain ⟨before, after, hw, hgo⟩ := inHand_split hi b
    have hin : inHand ((w.take a rest).goTo i (.holding a x)) b =
        before ++ (item b (.holding a x)).toList ++ after := hgo (.holding a x)
    have hdel : delivered ((w.take a rest).goTo i (.holding a x)) b = delivered w b := rfl
    rw [hin, hdel]
    rw [hw] at hb
    by_cases hab : a = b
    · subst hab
      rw [hq] at hb
      simp only [item, Option.toList_none, List.append_nil] at hb
      refine List.Perm.trans ?_ hb
      simp only [World.goTo, World.take, Function.update_self, item, if_true, Option.toList_some,
        List.append_assoc]
      refine List.Perm.append_left _ (List.Perm.append_left _ ?_)
      rw [List.singleton_append]
      exact List.perm_middle.symm
    · simpa [World.goTo, World.take, hab, Ne.symm hab, item] using hb
  | lost i a x rest hi hq =>
    obtain ⟨before, after, hw, hgo⟩ := inHand_split hi b
    have hin : inHand (((w.take a rest).done a x .failed).goTo i .head) b =
        before ++ (item b .head).toList ++ after := hgo .head
    have hdel : delivered (((w.take a rest).done a x .failed).goTo i .head) b =
        delivered w b ++ if a = b then [x] else [] := delivered_done (w := w) a b x .failed
    rw [hin, hdel]
    rw [hw] at hb
    by_cases hab : a = b
    · subst hab
      rw [hq] at hb
      refine List.Perm.trans ?_ hb
      simp only [World.goTo, World.take, World.done, Function.update_self, item, if_true,
        Option.toList_none, List.append_assoc, List.nil_append]
      refine List.Perm.append_left _ ?_
      rw [List.singleton_append, ← List.append_assoc, ← List.append_assoc]
      exact List.perm_middle.symm
    · simpa [World.goTo, World.take, World.done, hab, Ne.symm hab, item] using hb
  | done i a x fate hi hf =>
    obtain ⟨before, after, hw, hgo⟩ := inHand_split hi b
    have hin : inHand ((w.done a x fate).goTo i .head) b =
        before ++ (item b .head).toList ++ after := hgo .head
    have hdel : delivered ((w.done a x fate).goTo i .head) b =
        delivered w b ++ if a = b then [x] else [] := delivered_done (w := w) a b x fate
    rw [hin, hdel]
    rw [hw] at hb
    by_cases hab : a = b
    · subst hab
      refine List.Perm.trans ?_ hb
      simp only [World.goTo, World.done, item, if_true, Option.toList_none, Option.toList_some,
        List.append_assoc, List.nil_append, List.singleton_append]
      refine List.Perm.append_left _ ?_
      simp only [List.cons_append, List.append_assoc]
      exact List.perm_middle.symm
    · simpa [World.goTo, World.done, hab, item] using hb

theorem accounted_run (as : List (Label α)) : Accounted (run (step market) init as) :=
  run_induction (P := Accounted) (fun w l h => accounted_moved h (moved_step w l))
    (fun _ => List.Perm.refl _) as

/-! ## The thread that goes on -/

def Quiet (w : World α) : Prop := ∀ (i : Nat) (p : Pump α), w.pumps[i]? = some p → live p = false

/-- A live thread is the one that `_pump_thread` holds, and the controller makes one only
when none is live. -/
structure Solo (w : World α) : Prop where
  owner : ∀ (i : Nat) (p : Pump α), w.pumps[i]? = some p → live p = true → w._pumpThread = some i
  placed : match w.controller with
    | none => w._state = .running ∨ Quiet w
    | some (.starting stage) => Quiet w ∧ (stage = .pump → w._state = .running)
    | some (.cleaning .setStop _) => w._state ≠ .running
    | some (.cleaning .joinPump _) => w._state ≠ .running
    | some (.cleaning _ _) => Quiet w ∧ w._state ≠ .running

theorem solo_init : Solo (init (α := α)) := ⟨by simp [init], Or.inr (by simp [Quiet, init])⟩

/-- The threads and what holds them stay as they are. -/
theorem Solo.move (h : Solo w) {w' : World α} (hp : w'.pumps = w.pumps)
    (ht : w'._pumpThread = w._pumpThread ∨ Quiet w)
    (hplaced : match w'.controller with
      | none => w'._state = .running ∨ Quiet w
      | some (.starting stage) => Quiet w ∧ (stage = .pump → w'._state = .running)
      | some (.cleaning .setStop _) => w'._state ≠ .running
      | some (.cleaning .joinPump _) => w'._state ≠ .running
      | some (.cleaning _ _) => Quiet w ∧ w'._state ≠ .running) : Solo w' := by
  refine ⟨?_, ?_⟩
  · intro i p hi hl
    rw [hp] at hi
    rcases ht with ht | hq
    · rw [ht]
      exact h.owner i p hi hl
    · rw [hq i p hi] at hl
      cases hl
  · have hquiet : Quiet w' ↔ Quiet w := by simp [Quiet, hp]
    simpa [hquiet] using hplaced

theorem quiet_of_joined (h : Solo w) (hj : ∀ i p, w._pumpThread = some i → w.pumps[i]? = some p →
    live p = false) : Quiet w := by
  intro i p hi
  cases hl : live p with
  | false => rfl
  | true =>
    rw [← hl]
    exact hj i p (h.owner i p hi hl) hi

theorem getElem?_append_one {β : Type} {l : List β} {b c : β} {i : Nat}
    (h : (l ++ [b])[i]? = some c) : l[i]? = some c ∨ i = l.length ∧ c = b := by
  rcases Nat.lt_or_ge i l.length with hi | hi
  · left
    rwa [List.getElem?_append_left hi] at h
  · right
    rw [List.getElem?_append_right hi] at h
    have hz : i - l.length = 0 := by
      by_contra hne
      obtain ⟨k, hk⟩ := Nat.exists_eq_succ_of_ne_zero hne
      simp [hk] at h
    refine ⟨by omega, ?_⟩
    simpa [hz] using h.symm

theorem solo_proceedStart (h : Solo w) {stage : Stage} (hc : w.controller = some (.starting stage))
    (ok : Bool) : Solo (w.proceedStart ok stage) := by
  have hplaced := h.placed
  rw [hc] at hplaced
  obtain ⟨hq, hrun⟩ := hplaced
  have hfail : Solo w.fail := h.move rfl (Or.inr hq) (by simp [World.fail])
  cases stage with
  | create r =>
    cases ok with
    | false => exact hfail
    | true => exact h.move rfl (Or.inr hq) ⟨hq, by cases r <;> simp [Stage.afterCreate]⟩
  | serverStart | adapter =>
    cases ok with
    | false => exact hfail
    | true => exact h.move rfl (Or.inr hq) ⟨hq, by simp⟩
  | connect =>
    cases ok with
    | false => exact hfail
    | true =>
      simp only [World.proceedStart, World.connect, if_true]
      split
      · exact h.move rfl (Or.inr hq) ⟨hq, fun _ => rfl⟩
      · exact hfail
  | pump =>
    cases ok with
    | false =>
      refine ⟨?_, by simp [World.proceedStart, World.fail]⟩
      intro i p hi hl
      rcases getElem?_append_one hi with hi | ⟨-, rfl⟩
      · rw [hq i p hi] at hl
        cases hl
      · cases hl
    | true =>
      refine ⟨?_, Or.inl (hrun rfl)⟩
      intro i p hi hl
      rcases getElem?_append_one hi with hi | ⟨rfl, -⟩
      · rw [hq i p hi] at hl
        cases hl
      · rfl

theorem solo_proceedCleanup (h : Solo w) {c : Cleaning} {stopping : Bool}
    (hc : w.controller = some (.cleaning c stopping)) (ok : Bool) :
    Solo (w.proceedCleanup ok stopping c) := by
  have hplaced := h.placed
  rw [hc] at hplaced
  cases c with
  | setStop => exact h.move rfl (Or.inl rfl) hplaced
  | joinPump =>
    simp only [World.proceedCleanup]
    split
    · next hnone =>
      exact h.move rfl (Or.inl rfl) ⟨quiet_of_joined h (by simp [hnone]), hplaced⟩
    · next i hsome =>
      have hquiet : ∀ q, w.pumps[i]? = some q → live q = false → Quiet w := by
        intro q hi hl
        refine quiet_of_joined h fun j p hj hp => ?_
        obtain rfl : i = j := Option.some.inj (hsome.symm.trans hj)
        rw [hi] at hp
        rw [← Option.some.inj hp, hl]
      split
      · next hi => exact h.move rfl (Or.inl rfl) (Or.inr (hquiet _ hi rfl))
      · next hi => exact h.move rfl (Or.inr (hquiet _ hi rfl)) ⟨hquiet _ hi rfl, hplaced⟩
      · exact h
  | close r =>
    simp only [World.proceedCleanup]
    have hnext : ∀ w' : World α, w'.pumps = w.pumps → w'._state = w._state →
        w'.controller = some (.cleaning (.afterClose r) stopping) → Solo w' := by
      intro w' hp hs hctl
      refine h.move hp (Or.inr hplaced.1) ?_
      rw [hctl, hs]
      cases r <;> exact hplaced
    split
    · exact hnext _ rfl rfl rfl
    · split
      · exact hnext _ rfl rfl rfl
      · exact h.move rfl (Or.inl rfl) (Or.inr hplaced.1)
  | disconnect => exact h.move rfl (Or.inl rfl) (Or.inr hplaced.1)

/-- A thread goes on; it may end, and no thread comes to life. -/
theorem Solo.goTo (h : Solo w) {i : Nat} {p q : Pump α} (hi : w.pumps[i]? = some p)
    (hl : live p = true) : Solo (w.goTo i q) := by
  have hnot : ¬ Quiet w := fun hq => Bool.false_ne_true ((hq i p hi).symm.trans hl)
  refine ⟨?_, ?_⟩
  · intro j r hj hr
    by_cases hij : i = j
    · subst hij
      exact h.owner i p hi hl
    · rw [World.goTo, List.getElem?_set_ne hij] at hj
      exact h.owner j r hj hr
  · have hplaced := h.placed
    simp only [World.goTo]
    cases hc : w.controller with
    | none =>
      rw [hc] at hplaced
      exact Or.inl (hplaced.resolve_right hnot)
    | some ctl =>
      rw [hc] at hplaced
      cases ctl with
      | starting stage => exact absurd hplaced.1 hnot
      | cleaning c stopping =>
        cases c with
        | setStop | joinPump => exact hplaced
        | close | disconnect => exact absurd hplaced.1 hnot

theorem solo_pump (h : Solo w) (i : Nat) (outcome : Outcome) : Solo (w.pump market i outcome) := by
  have hsame : ∀ w' : World α, w'.pumps = w.pumps → w'._pumpThread = w._pumpThread →
      w'.controller = w.controller → w'._state = w._state → Solo w' := by
    intro w' hp ht hc hs
    refine h.move hp (Or.inl ht) ?_
    rw [hc, hs]
    exact h.placed
  unfold World.pump
  split
  · next hi =>
    split
    · exact h.goTo hi rfl
    · split
      · exact h.goTo hi rfl
      · exact h
  · next a hi =>
    split
    · next x rest _ => exact (hsame (w.take a rest) rfl rfl rfl rfl).goTo hi rfl
    · next x rest _ =>
      exact (hsame ((w.take a rest).done a x .failed) rfl rfl rfl rfl).goTo hi rfl
    · exact h.goTo hi rfl
  · next a x hi => exact (hsame (w.done a x _) rfl rfl rfl rfl).goTo hi rfl
  · exact h

theorem solo_step (h : Solo w) {l : Label α} (hl : l ≠ .joinTimeout) : Solo (step market w l) := by
  have hplaced := h.placed
  cases l with
  | startInThread resolved =>
    simp only [step]
    split
    · exact h
    · next hne =>
      rw [not_or, not_or, not_not] at hne
      rw [hne.1] at hplaced
      have hq := hplaced.resolve_left hne.2.1
      exact h.move rfl (Or.inl rfl) ⟨hq, by simp⟩
  | stop =>
    simp only [step]
    split
    · exact h
    · exact h.move rfl (Or.inl rfl) (by simp)
  | proceed ok =>
    simp only [step]
    split
    · exact h
    · next hc => exact solo_proceedStart h hc ok
    · next hc => exact solo_proceedCleanup h hc ok
  | joinTimeout => exact absurd rfl hl
  | pump i outcome => exact solo_pump h i outcome
  | emit a x => exact h.move rfl (Or.inl rfl) hplaced

/-! ## No item is dropped -/

/-- A thread that goes on has its publishers. -/
structure Supplied (w : World α) : Prop where
  supply : Quiet w ∨ ∀ r, (w.held r).isSome = true
  made : ∀ stage, w.controller = some (.starting stage) → ∀ r, stage.made r = true → (w.held r).isSome = true

theorem supplied_init : Supplied (init (α := α)) := ⟨Or.inl (by simp [Quiet, init]), by simp [init]⟩

/-- A step outside `start_in_thread` that touches neither threads nor publishers. -/
theorem Supplied.move (h : Supplied w) {w' : World α} (hp : w'.pumps = w.pumps) (hh : w'.held = w.held)
    (hc : ∀ stage, w'.controller ≠ some (.starting stage)) : Supplied w' := by
  refine ⟨?_, fun stage hs => absurd hs (hc stage)⟩
  rw [hh]
  have hquiet : Quiet w' ↔ Quiet w := by simp [Quiet, hp]
  exact h.supply.imp_left hquiet.mpr

theorem supplied_proceedStart (h : Supplied w) (hs : Solo w) {stage : Stage}
    (hc : w.controller = some (.starting stage)) (ok : Bool) : Supplied (w.proceedStart ok stage) := by
  have hmade := h.made stage hc
  have hquiet : Quiet w := by
    have hplaced := hs.placed
    rw [hc] at hplaced
    exact hplaced.1
  have hfail : Supplied w.fail := h.move rfl rfl (by rintro _ ⟨⟩)
  cases stage with
  | create r =>
    cases ok with
    | false => exact hfail
    | true =>
      refine ⟨Or.inl hquiet, ?_⟩
      rintro stage ⟨⟩ s hsmade
      by_cases hsr : s = r
      · subst hsr
        simp [World.proceedStart, World.create]
      · have hbefore : (Stage.create r).made s = true := by
          cases r <;> cases s <;> simp_all [Stage.made, Stage.afterCreate]
        simpa [World.proceedStart, World.create, hsr] using hmade s hbefore
  | serverStart | adapter =>
    cases ok with
    | false => exact hfail
    | true => exact ⟨Or.inl hquiet, by rintro stage ⟨⟩ r -; exact hmade r rfl⟩
  | connect =>
    cases ok with
    | false => exact hfail
    | true =>
      simp only [World.proceedStart, World.connect, if_true]
      split
      · exact ⟨Or.inl hquiet, by rintro stage ⟨⟩ r -; exact hmade r rfl⟩
      · exact hfail
  | pump =>
    have hall : ∀ r, (w.held r).isSome = true := fun r => hmade r rfl
    cases ok <;> exact ⟨Or.inr hall, by rintro _ ⟨⟩⟩

theorem supplied_proceedCleanup (h : Supplied w) (hs : Solo w) {c : Cleaning} {stopping : Bool}
    (hc : w.controller = some (.cleaning c stopping)) (ok : Bool) :
    Supplied (w.proceedCleanup ok stopping c) := by
  cases c with
  | setStop | disconnect => exact h.move rfl rfl (by rintro _ ⟨⟩)
  | joinPump =>
    simp only [World.proceedCleanup]
    split
    · exact h.move rfl rfl (by rintro _ ⟨⟩)
    · split
      · exact h.move rfl rfl (by rintro _ ⟨⟩)
      · exact h.move rfl rfl (by rintro _ ⟨⟩)
      · exact h
  | close r =>
    -- nothing is closed before the thread has ended
    have hquiet : Quiet w := by
      have hplaced := hs.placed
      rw [hc] at hplaced
      exact hplaced.1
    simp only [World.proceedCleanup]
    split
    · exact h.move rfl rfl (by rintro _ ⟨⟩)
    · split
      · exact ⟨Or.inl hquiet, by rintro _ ⟨⟩⟩
      · exact h.move rfl rfl (by rintro _ ⟨⟩)

/-- A thread that does something has its publishers, before and after it. -/
theorem Supplied.held (h : Supplied w) {i : Nat} {p : Pump α} (hi : w.pumps[i]? = some p)
    (hl : live p = true) : ∀ r, (w.held r).isSome = true := by
  refine h.supply.resolve_left fun hq => ?_
  rw [hq i p hi] at hl
  cases hl

theorem supplied_pump (h : Supplied w) (i : Nat) (outcome : Outcome) :
    Supplied (w.pump market i outcome) := by
  unfold World.pump
  split
  · next hi =>
    have hall := h.held hi rfl
    split
    · exact ⟨Or.inr hall, h.made⟩
    · split
      · exact ⟨Or.inr hall, h.made⟩
      · exact h
  · next a hi =>
    have hall := h.held hi rfl
    split <;> exact ⟨Or.inr hall, h.made⟩
  · next a x hi =>
    have hall := h.held hi rfl
    exact ⟨Or.inr hall, h.made⟩
  · exact h

theorem supplied_step (h : Supplied w) (hs : Solo w) {l : Label α} (hl : l ≠ .joinTimeout) :
    Supplied (step market w l) := by
  cases l with
  | startInThread resolved =>
    simp only [step]
    split
    · exact h
    · refine ⟨h.supply, ?_⟩
      rintro stage ⟨⟩ r hr
      cases r <;> cases hr
  | stop =>
    simp only [step]
    split
    · exact h
    · exact h.move rfl rfl (by rintro _ ⟨⟩)
  | proceed ok =>
    simp only [step]
    split
    · exact h
    · next hc => exact supplied_proceedStart h hs hc ok
    · next hc => exact supplied_proceedCleanup h hs hc ok
  | joinTimeout => exact absurd rfl hl
  | pump i outcome => exact supplied_pump h i outcome
  | emit a x => exact ⟨h.supply, h.made⟩

/-- No item was dropped without an error. -/
def NoneDropped (w : World α) : Prop := ∀ h ∈ w.handled, h.fate ≠ .dropped

theorem noneDropped_moved (h : NoneDropped w) (hs : Supplied w) {w' : World α} (hm : Moved w w') :
    NoneDropped w' := by
  cases hm with
  | idle w' hh hq he hd =>
    unfold NoneDropped
    rw [hd]
    exact h
  | emitted a x => exact h
  | taken i a x rest hi hq => exact h
  | lost i a x rest hi hq =>
    intro y hy
    rcases List.mem_append.mp hy with hy | hy
    · exact h y hy
    · obtain rfl := List.mem_singleton.mp hy
      exact nofun
  | done i a x fate hi hf =>
    intro y hy
    rcases List.mem_append.mp hy with hy | hy
    · exact h y hy
    · obtain rfl := List.mem_singleton.mp hy
      intro hdropped
      obtain ⟨r, hr⟩ := hf hdropped
      have hall := hs.held hi rfl r
      rw [hr] at hall
      cases hall

/-! ## The order -/

/-- What was emitted by an adapter is handled, held or queued, in this order. -/
def Ordered (w : World α) : Prop := ∀ a, delivered w a ++ inHand w a ++ w.queues a = w.emitted a

/-- The only live thread holds all that is held. -/
theorem Solo.inHand (h : Solo w) {i : Nat} {p : Pump α} (hi : w.pumps[i]? = some p)
    (hl : live p = true) (a : Nat) : inHand w a = (item a p).toList ∧
      ∀ q, ForwardingOutput.inHand (w.goTo i q) a = (item a q).toList := by
  have hother : ∀ j r, w.pumps[j]? = some r → j ≠ i → item a r = none := by
    intro j r hj hne
    cases hr : live r with
    | false =>
      cases r with
      | unstarted | ended => rfl
      | head | polling | holding => cases hr
    | true =>
      have hown := (h.owner j r hj hr).symm.trans (h.owner i p hi hl)
      exact absurd (Option.some.inj hown) hne
  have hmap : ∀ q, (w.pumps.set i q).filterMap (item a) = (item a q).toList := by
    intro q
    have hlt : i < w.pumps.length := (List.getElem?_eq_some_iff.mp hi).1
    rw [List.set_eq_take_append_cons_drop, if_pos hlt, List.filterMap_append, List.filterMap_cons]
    have htake : (w.pumps.take i).filterMap (item a) = [] := by
      rw [List.filterMap_eq_nil_iff]
      intro r hr
      obtain ⟨j, hj⟩ := List.mem_iff_getElem?.mp hr
      rw [List.getElem?_take] at hj
      split at hj
      · exact hother j r hj (by omega)
      · cases hj
    have hdrop : (w.pumps.drop (i + 1)).filterMap (item a) = [] := by
      rw [List.filterMap_eq_nil_iff]
      intro r hr
      obtain ⟨j, hj⟩ := List.mem_iff_getElem?.mp hr
      rw [List.getElem?_drop] at hj
      exact hother (i + 1 + j) r hj (by omega)
    rw [htake, hdrop]
    cases item a q <;> rfl
  refine ⟨?_, fun q => hmap q⟩
  obtain ⟨l₁, l₂, hsplit, hset⟩ := split_at hi
  have hself := hmap p
  rwa [hset, ← hsplit] at hself

theorem ordered_moved (h : Ordered w) (hs : Solo w) {w' : World α} (hm : Moved w w') : Ordered w' := by
  intro b
  have hb := h b
  cases hm with
  | idle w' hh hq he hd => simpa [delivered, hh, hq, he, hd] using hb
  | emitted a x =>
    by_cases hab : b = a
    · subst hab
      simp only [Function.update_self, ← hb]
      simp [delivered, inHand]
    · simpa [delivered, inHand, hab] using hb
  | taken i a x rest hi hq =>
    obtain ⟨hw, hgo⟩ := hs.inHand hi rfl b
    have hin : inHand ((w.take a rest).goTo i (.holding a x)) b = (item b (.holding a x)).toList :=
      hgo (.holding a x)
    have hdel : delivered ((w.take a rest).goTo i (.holding a x)) b = delivered w b := rfl
    rw [hin, hdel]
    rw [hw] at hb
    by_cases hab : a = b
    · subst hab
      rw [hq] at hb
      simpa [World.goTo, World.take, item] using hb
    · simpa [World.goTo, World.take, hab, Ne.symm hab, item] using hb
  | lost i a x rest hi hq =>
    obtain ⟨hw, hgo⟩ := hs.inHand hi rfl b
    have hin : inHand (((w.take a rest).done a x .failed).goTo i .head) b = (item b .head).toList :=
      hgo .head
    have hdel : delivered (((w.take a rest).done a x .failed).goTo i .head) b =
        delivered w b ++ if a = b then [x] else [] := delivered_done (w := w) a b x .failed
    rw [hin, hdel]
    rw [hw] at hb
    by_cases hab : a = b
    · subst hab
      rw [hq] at hb
      simpa [World.goTo, World.take, World.done, item] using hb
    · simpa [World.goTo, World.take, World.done, hab, Ne.symm hab, item] using hb
  | done i a x fate hi hf =>
    obtain ⟨hw, hgo⟩ := hs.inHand hi rfl b
    have hin : inHand ((w.done a x fate).goTo i .head) b = (item b .head).toList := hgo .head
    have hdel : delivered ((w.done a x fate).goTo i .head) b =
        delivered w b ++ if a = b then [x] else [] := delivered_done (w := w) a b x fate
    rw [hin, hdel]
    rw [hw] at hb
    by_cases hab : a = b
    · subst hab
      simpa [World.goTo, World.done, item] using hb
    · simpa [World.goTo, World.done, hab, item] using hb

/-! ## Runs -/

/-- What is kept as long as every `join` waits for its thread to end. -/
structure Joined (w : World α) : Prop where
  solo : Solo w
  supplied : Supplied w
  noneDropped : NoneDropped w
  ordered : Ordered w

theorem joined_run (as : List (Label α)) (h : Label.joinTimeout ∉ as) :
    Joined (run (step market) init as) := by
  have hmeets : Meets (step market) (fun _ l => l ≠ .joinTimeout) init as := by
    rintro pre l hpre rfl
    exact h (hpre.subset (by simp))
  refine throughout_last (throughout_of_meets (P := Joined) ?_ ?_ hmeets)
  · intro w l hw hl
    have hm : Moved w (step market w l) := moved_step w l
    exact ⟨solo_step hw.solo hl, supplied_step hw.supplied hw.solo hl,
      noneDropped_moved hw.noneDropped hw.supplied hm, ordered_moved hw.ordered hw.solo hm⟩
  · exact ⟨solo_init, supplied_init, nofun, fun _ => rfl⟩

/-- In every run each item that was emitted is published, failed with an error, dropped without
one, held by one thread or queued; and where every `join` waits for its thread to end none is
dropped. -/
theorem items_accounted (market : α → Bool) (as : List (Label α)) :
    Accounted (run (step market) init as) ∧
      (Label.joinTimeout ∉ as → NoneDropped (run (step market) init as)) :=
  ⟨accounted_run as, fun h => (joined_run as h).noneDropped⟩

/-- Where every `join` waits for its thread to end, the items of an adapter are handled in
the order they were emitted in, over any number of restarts. -/
theorem ordered_run (market : α → Bool) (as : List (Label α)) (h : Label.joinTimeout ∉ as) :
    Ordered (run (step market) init as) :=
  (joined_run as h).ordered

end

def started : List (Label Nat) := .startInThread true :: List.replicate 7 (.proceed true)

/-- Even items are for the market. -/
def forMarket (x : Nat) : Bool := x % 2 = 0

/-- An adapter with two items, of which one is published before the runtime stops and starts
again with another adapter. -/
def restarted : List (Label Nat) :=
  started ++ [.emit 0 5, .emit 0 6, .pump 0 .returns, .pump 0 .returns, .pump 0 .returns, .stop, .proceed true,
    .pump 0 .returns] ++ List.replicate 5 (.proceed true) ++ started ++
    [.emit 1 7, .emit 1 8, .pump 1 .returns, .pump 1 .returns, .pump 1 .returns, .pump 1 .returns, .pump 1 .returns,
      .pump 1 .returns]

theorem ordered_run_restarted :
    delivered (run (step forMarket) init restarted) 0 = [5] ∧
    (run (step forMarket) init restarted).queues 0 = [6] ∧
    delivered (run (step forMarket) init restarted) 1 = [7, 8] ∧
    Ordered (run (step forMarket) init restarted) :=
  ⟨by decide, by decide, by decide, ordered_run forMarket _ (by decide)⟩

/-- A thread that outlives its `join` takes items of the next adapter beside the new thread. -/
example : delivered (run (step forMarket) init (started ++ [.pump 0 .returns, .stop, .proceed true, .joinTimeout] ++
    List.replicate 4 (.proceed true) ++ started ++ [.emit 1 5, .emit 1 6, .pump 0 .returns,
    .pump 0 .returns, .pump 0 .returns, .pump 1 .returns, .pump 1 .returns, .pump 1 .returns,
    .pump 0 .returns])) 1 = [6, 5] := by decide

/-- It drops what it holds once the publishers are closed. -/
example : (run (step forMarket) init (started ++ [.emit 0 5, .pump 0 .returns, .pump 0 .returns, .stop, .proceed true,
    .joinTimeout] ++ List.replicate 4 (.proceed true) ++ [.pump 0 .returns])).handled = [⟨0, 5, .dropped⟩] := by decide

end ForwardingOutput
