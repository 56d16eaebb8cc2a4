import BtApiBase.WebSocketVerdicts

/-!
# Generations that have been given up

A generation is given up by a verdict of a watchdog and by a failure of `open_rsp` or
`message_rsp`. The counter of acknowledgements stays until `on_close`, and `_mark_ready`
asks for nothing, so that the last acknowledgement of such a generation, or an `open_rsp`
that returns late, makes it ready.
-/

namespace WebSocketGivenUp

open WebSocketApps WebSocketWatchdogs Runs

/-- The generation that the entry gives up. -/
def givesUp : Entry → Option Nat
  | .timedOut d => some d.generation
  | .app (.subscriptionError _) generation => some generation
  | .app .messageError generation => some generation
  | _ => none

/-- The generation that the entry makes ready: the flag is set, or `ws.connected` emitted. -/
def readies : Entry → Option Nat
  | .app .flagged generation => some generation
  | .app .connected generation => some generation
  | _ => none

/-- `f` makes ready what `e` has given up. -/
def Revives (e f : Entry) : Prop := (givesUp e).isSome ∧ givesUp e = readies f

instance (e f : Entry) : Decidable (Revives e f) := inferInstanceAs (Decidable (_ ∧ _))

/-- No generation that has been given up is made ready again; the next `on_open` begins
another one. -/
def StaysDown (w : World) : Prop := w.log.Pairwise fun e f => ¬Revives e f

instance (w : World) : Decidable (StaysDown w) := inferInstanceAs (Decidable (List.Pairwise _ _))

/-- The current generation has been given up. -/
def GivenUp (w : World) : Prop := ∃ e ∈ w.log, givesUp e = some w.app._connectionGeneration

instance (w : World) : Decidable (GivenUp w) := inferInstanceAs (Decidable (∃ e ∈ _, _))

def todo : Place → List Action
  | .running _ _ todo => todo
  | .closing todo => todo
  | _ => []

def marks : Action → Bool
  | .markReady | .emit .flagged | .emit .connected => true
  | _ => false

/-- A call of `_mark_ready` is under way. -/
def MarkingReady (w : World) : Prop := ∃ x ∈ todo w.place, marks x = true

instance (w : World) : Decidable (MarkingReady w) := inferInstanceAs (Decidable (∃ x ∈ _, _))

/-- `open_rsp` is about to return. -/
def answersOpen : Place → Bool
  | .running _ (some .openRsp) [] => true
  | _ => false

/-- The generation that the watchdog is about to give up. -/
def decided : Watchdog → Option Nat
  | .decided d => some d.generation
  | _ => none

/-- The step does not take the last acknowledgement of a generation that has been given
up, nor let its `open_rsp` return anything but `False`, nor give a generation up while it
is being marked ready. -/
def Orderly (w : World) : Label → Prop
  | .act => (todo w.place).head? = some .acknowledge ∧ w.app.lastAcknowledgement = true → ¬GivenUp w
  | .returns ready => answersOpen w.place = true ∧ ready = true → ¬GivenUp w
  | .watch kind => decided (w.watchdogs kind) = some w.app._connectionGeneration → ¬MarkingReady w
  | _ => True

instance (w : World) : (l : Label) → Decidable (Orderly w l)
  | .act => inferInstanceAs (Decidable (_ → _))
  | .returns _ => inferInstanceAs (Decidable (_ → _))
  | .watch _ => inferInstanceAs (Decidable (_ → _))
  | .tick _ | .install _ | .fail | .onOpen | .onMessage | .onClose | .call _ | .raises _ | .finish =>
    inferInstanceAs (Decidable True)

/-! ## The invariant -/

/-- The emission that gives a generation up. -/
def ends : Action → Bool
  | .emit (.subscriptionError _) | .emit .messageError => true
  | _ => false

/-- What the handlers in `on_open` and `on_message` do. -/
def failing : Action → Bool
  | .clearRunning | .clearReadiness | .setStop | .closeSocket => true
  | .emit (.subscriptionError _) | .emit .messageError => true
  | _ => false

/-- A handler does nothing else. -/
def Apart (actions : List Action) : Prop :=
  (∀ x ∈ actions, ends x = false) ∨ (∀ x ∈ actions, failing x = true)

structure Down (w : World) : Prop where
  stays : StaysDown w
  past : ∀ e ∈ w.log, ∀ g, givesUp e = some g → g ≤ w.app._connectionGeneration
  free : GivenUp w → ¬MarkingReady w
  apart : Apart (todo w.place)

theorem down_init (a : App) : Down (init a) where
  stays := List.Pairwise.nil
  past := by simp [init]
  free := by simp [GivenUp, init]
  apart := .inl (by simp [init, todo])

/-! ## What an action logs and leaves -/

variable {cfg : Config} {now : Rat} {a : App}

theorem log_short (x : Action) : (exec cfg now a x).log = [] ∨ ∃ event, (exec cfg now a x).log = [event] := by
  cases x <;> first | exact .inl rfl | exact .inr ⟨_, rfl⟩

theorem givesUp_log {x : Action} (hx : ends x = false) (g : Nat) :
    ∀ event ∈ (exec cfg now a x).log, givesUp (.app event g) = none := by
  cases x with
  | emit event => cases event <;> simp [ends] at hx <;> simp [exec, givesUp]
  | _ => simp [exec, givesUp]

theorem readies_log {x : Action} (hx : marks x = false) (g : Nat) :
    ∀ event ∈ (exec cfg now a x).log, readies (.app event g) = none := by
  cases x with
  | emit event => cases event <;> simp [marks] at hx <;> simp [exec, readies]
  | markReady => simp [marks] at hx
  | _ => simp [exec, readies]

theorem givesUp_app {event : Event} {g g' : Nat} (h : givesUp (.app event g) = some g') : g' = g := by
  cases event <;> simp [givesUp] at h <;> exact h.symm

theorem readies_app {event : Event} {g g' : Nat} (h : readies (.app event g) = some g') : g' = g := by
  cases event <;> simp [readies] at h <;> exact h.symm

theorem ends_todo (x : Action) : ∀ y ∈ (exec cfg now a x).todo, ends y = false := by
  intro y hy
  cases leadsTo_of_mem hy <;> rfl

theorem failing_todo {x : Action} (hx : failing x = true) : (exec cfg now a x).todo = [] := by
  cases x <;> first | rfl | simp [failing] at hx

theorem not_marks_of_failing {x : Action} (hx : failing x = true) : marks x = false := by
  cases x with
  | emit event => cases event <;> simp [failing] at hx <;> rfl
  | _ => first | rfl | simp [failing] at hx

/-- `_mark_ready` is called by the last acknowledgement. -/
theorem marks_todo {x : Action} (hx : marks x = false)
    (hl : ¬(x = .acknowledge ∧ a.lastAcknowledgement = true)) :
    ∀ y ∈ (exec cfg now a x).todo, marks y = false := by
  intro y hy
  cases leadsTo_of_mem hy with
  | marks h => exact absurd ⟨rfl, h⟩ hl
  | connects => simp [marks] at hx
  | _ => rfl

theorem generation_exec (x : Action) :
    a._connectionGeneration ≤ (exec cfg now a x).app._connectionGeneration ∧
      (x ≠ .countGeneration → (exec cfg now a x).app._connectionGeneration = a._connectionGeneration) := by
  cases x with
  | countGeneration => exact ⟨Nat.le_succ _, fun h => absurd rfl h⟩
  | countSubscription sent => cases ht : a._trackingSubscriptionBatch <;> simp [exec, App.countSubscription, ht]
  | _ => exact ⟨Nat.le_refl _, fun _ => rfl⟩

theorem Apart.rest {x : Action} {rest : List Action} (h : Apart (x :: rest)) :
    Apart ((exec cfg now a x).todo ++ rest) := by
  rcases h with h | h
  · refine .inl fun y hy => ?_
    rcases List.mem_append.mp hy with hy | hy
    · exact ends_todo x y hy
    · exact h y (List.mem_cons_of_mem x hy)
  · refine .inr fun y hy => ?_
    rw [failing_todo (h x List.mem_cons_self), List.nil_append] at hy
    exact h y (List.mem_cons_of_mem x hy)

/-! ## The steps -/

theorem down_perform {w : World} {x : Action} {rest : List Action} {place : List Action → Place} (h : Down w)
    (hw : todo w.place = x :: rest) (hp : ∀ actions, todo (place actions) = actions ++ rest)
    (hl : x = .acknowledge ∧ w.app.lastAcknowledgement = true → ¬GivenUp w) :
    Down (perform cfg w x place) := by
  have hlog : (perform cfg w x place).log = w.log ++
      (exec cfg w.now w.app x).log.map fun event => .app event w.app._connectionGeneration := rfl
  have htodo : todo (perform cfg w x place).place = (exec cfg w.now w.app x).todo ++ rest := hp _
  have hgen : w.app._connectionGeneration ≤ (perform cfg w x place).app._connectionGeneration ∧
      (x ≠ .countGeneration →
        (perform cfg w x place).app._connectionGeneration = w.app._connectionGeneration) := generation_exec x
  have hshort : (exec cfg w.now w.app x).log = [] ∨ ∃ event, (exec cfg w.now w.app x).log = [event] := log_short x
  have hapart : Apart (x :: rest) := hw ▸ h.apart
  refine ⟨?_, ?_, ?_, ?_⟩
  · rw [StaysDown, hlog, List.pairwise_append]
    refine ⟨h.stays, ?_, ?_⟩
    · rcases hshort with hs | ⟨event, hs⟩ <;> simp [hs]
    · rintro e he f hf ⟨hsome, heq⟩
      obtain ⟨event, hevent, rfl⟩ := List.mem_map.mp hf
      obtain ⟨g, hg⟩ := Option.isSome_iff_exists.mp hsome
      have hreadies : readies (.app event w.app._connectionGeneration) = some g := heq ▸ hg
      obtain rfl := readies_app hreadies
      have hgiven : GivenUp w := ⟨e, he, hg⟩
      -- What sets the flag or emits `ws.connected` is a call of `_mark_ready`.
      have hx : marks x = true := by
        by_contra hn
        simp [readies_log (by simpa using hn) _ event hevent] at hreadies
      exact h.free hgiven ⟨x, by simp [hw], hx⟩
  · intro e he g hg
    rw [hlog] at he
    rcases List.mem_append.mp he with he | he
    · exact (h.past e he g hg).trans hgen.1
    · obtain ⟨event, -, rfl⟩ := List.mem_map.mp he
      rw [givesUp_app hg]
      exact hgen.1
  · rintro ⟨e, he, hg⟩ ⟨y, hy, hmarks⟩
    rw [htodo] at hy
    rw [hlog] at he
    by_cases hends : ends x = true
    · -- A handler does not mark anything ready.
      have hfail : ∀ z ∈ x :: rest, failing z = true := by
        refine hapart.resolve_left fun hn => ?_
        simp [hn x List.mem_cons_self] at hends
      rw [failing_todo (hfail x List.mem_cons_self), List.nil_append] at hy
      simp [not_marks_of_failing (hfail y (List.mem_cons_of_mem x hy))] at hmarks
    · rcases List.mem_append.mp he with he | he
      · have hle := h.past e he _ hg
        have hx : x ≠ .countGeneration := by
          rintro rfl
          have hsucc : (perform cfg w .countGeneration place).app._connectionGeneration =
            w.app._connectionGeneration + 1 := rfl
          omega
        have hgiven : GivenUp w := ⟨e, he, hg.trans (congrArg some (hgen.2 hx))⟩
        have hfree : ∀ z ∈ x :: rest, marks z = false := fun z hz => by
          by_contra hn
          exact h.free hgiven ⟨z, hw ▸ hz, by simpa using hn⟩
        rcases List.mem_append.mp hy with hy | hy
        · have := marks_todo (hfree x List.mem_cons_self) (fun hn => hl hn hgiven) y hy
          simp [this] at hmarks
        · simp [hfree y (List.mem_cons_of_mem x hy)] at hmarks
      · obtain ⟨event, hevent, rfl⟩ := List.mem_map.mp he
        simp [givesUp_log (by simpa using hends) _ event hevent] at hg
  · rw [htodo]
    exact hapart.rest

/-- The thread goes elsewhere without an event. -/
theorem Down.moved {w w' : World} (h : Down w) (hl : w'.log = w.log)
    (hg : w'.app._connectionGeneration = w.app._connectionGeneration)
    (hf : GivenUp w → ∀ x ∈ todo w'.place, marks x = false) (ha : Apart (todo w'.place)) : Down w' := by
  refine ⟨?_, ?_, ?_, ha⟩
  · rw [StaysDown, hl]
    exact h.stays
  · rw [hl, hg]
    exact h.past
  · rintro hgiven ⟨x, hx, hmarks⟩
    rw [GivenUp, hl, hg] at hgiven
    simp [hf hgiven x hx] at hmarks

theorem down_act {w : World} (h : Down w) (ho : Orderly w .act) : Down (act cfg w) := by
  cases hw : w.place with
  | between => simpa [act, hw] using h
  | installed ws => simpa [act, hw] using h
  | running ws callback actions =>
    cases actions with
    | nil => simpa [act, hw] using h
    | cons x rest =>
      rw [act, hw]
      refine down_perform h (by rw [hw]; rfl) (fun _ => rfl) fun hx => ho ⟨?_, hx.2⟩
      rw [hw, hx.1]
      rfl
  | closing actions =>
    cases actions with
    | nil =>
      rw [act, hw]
      exact h.moved rfl rfl (fun _ => by simp [todo]) (.inl (by simp [todo]))
    | cons x rest =>
      rw [act, hw]
      refine down_perform h (by rw [hw]; rfl) (fun _ => rfl) fun hx => ho ⟨?_, hx.2⟩
      rw [hw, hx.1]
      rfl

theorem down_install {w : World} (h : Down w) (ws : Nat) : Down (install w ws) := by
  by_cases hs : w.place = .between ∧ w.app._stopEvent = false
  · rw [install, if_pos hs]
    exact h.moved rfl rfl (fun _ => by simp [todo]) (.inl (by simp [todo]))
  · simpa [install, hs] using h

theorem down_finish {w : World} (h : Down w) : Down (finish w) := by
  by_cases hs : w.place = .between
  · rw [finish, if_pos hs]
    exact h.moved rfl rfl (fun _ => by simp [todo, hs]) (.inl (by simp [todo, hs]))
  · simpa [finish, hs] using h

theorem down_callOnOpen {w : World} (h : Down w) : Down (callOnOpen w) := by
  rw [callOnOpen]
  split
  · exact h.moved rfl rfl (fun _ => by simp [todo, onOpen, marks]) (.inl (by simp [todo, onOpen, ends]))
  · exact h

theorem down_callOnMessage {w : World} (h : Down w) : Down (callOnMessage w) := by
  rw [callOnMessage]
  split
  · exact h.moved rfl rfl (fun _ => by simp [todo, onMessage, marks]) (.inl (by simp [todo, onMessage, ends]))
  · exact h

theorem down_callOnClose {w : World} (h : Down w) : Down (callOnClose w) := by
  rw [callOnClose]
  split
  · exact h.moved rfl rfl (fun _ => by simp [todo, onClose, marks]) (.inl (by simp [todo, onClose, ends]))
  · exact h.moved rfl rfl (fun _ => by simp [todo, onClose, marks]) (.inl (by simp [todo, onClose, ends]))
  · exact h

theorem down_fail {w : World} (h : Down w) : Down (fail w) := by
  rw [fail]
  split
  · exact h.moved rfl rfl (fun _ => by simp [todo]) (.inl (by simp [todo]))
  · exact h

theorem down_call {w : World} (h : Down w) (c : Call) : Down (call w c) := by
  have hm : ∀ x ∈ c.actions, marks x = false := by
    cases c <;> simp [Call.actions, WebSocketApps.subscribe, subscriptionAcknowledged, marks]
  have he : ∀ x ∈ c.actions, ends x = false := by
    cases c <;> simp [Call.actions, WebSocketApps.subscribe, subscriptionAcknowledged, ends]
  rw [call]
  split
  · exact h.moved rfl rfl (fun _ => hm) (.inl he)
  · exact h

/-- `on_open` goes on to `_mark_ready` unless `open_rsp` has answered `False`. -/
theorem down_returns {w : World} (h : Down w) {ready : Bool} (ho : Orderly w (.returns ready)) :
    Down (returns w ready) := by
  rw [returns]
  split
  next ws callback hw =>
    refine h.moved rfl rfl (fun hgiven => ?_) (.inl ?_)
    · cases callback with
      | messageRsp => simp [todo, Callback.afterReturn]
      | openRsp =>
        cases ready with
        | true => exact absurd hgiven (ho ⟨by rw [hw]; rfl, rfl⟩)
        | false => simp [todo, Callback.afterReturn, afterOpenRsp, marks]
    · cases callback <;> cases ready <;> simp [todo, Callback.afterReturn, afterOpenRsp, ends]
  next => exact h

theorem down_raises {w : World} (h : Down w) (fatal : Bool) : Down (raises w fatal) := by
  have hf : ∀ c : Callback, ∀ x ∈ c.afterRaise fatal, failing x = true := by
    intro c
    cases c <;> cases fatal <;> simp [Callback.afterRaise, openFailed, messageFailed, failing]
  rw [raises]
  split
  · exact h.moved rfl rfl (fun _ x hx => not_marks_of_failing (hf _ x hx)) (.inr (hf _))
  · exact h

theorem down_setWatchdog {w : World} (h : Down w) (kind : Kind) (x : Watchdog) : Down (setWatchdog w kind x) :=
  h.moved rfl rfl (fun hg y hy => by
    by_contra hn
    exact h.free hg ⟨y, hy, by simpa using hn⟩) h.apart

theorem down_giveUp {w : World} (h : Down w) (kind : Kind) : Down { w with app := giveUp kind w.app } := by
  have hg : (giveUp kind w.app)._connectionGeneration = w.app._connectionGeneration := by cases kind <;> rfl
  refine h.moved rfl hg (fun hgiven y hy => ?_) h.apart
  by_contra hn
  exact h.free hgiven ⟨y, hy, by simpa using hn⟩

theorem down_append {w : World} (h : Down w) {e : Entry} (hr : readies e = none)
    (hle : ∀ g, givesUp e = some g → g ≤ w.app._connectionGeneration)
    (hm : givesUp e = some w.app._connectionGeneration → ¬MarkingReady w) : Down { w with log := w.log ++ [e] } := by
  refine ⟨?_, ?_, ?_, h.apart⟩
  · refine List.pairwise_append.mpr ⟨h.stays, List.pairwise_singleton _ _, ?_⟩
    rintro f - f' hf' ⟨hsome, heq⟩
    obtain rfl := List.mem_singleton.mp hf'
    simp [heq, hr] at hsome
  · intro f hf g hg
    rcases List.mem_append.mp hf with hf | hf
    · exact h.past f hf g hg
    · obtain rfl := List.mem_singleton.mp hf
      exact hle g hg
  · rintro ⟨f, hf, hg⟩
    rcases List.mem_append.mp hf with hf | hf
    · exact h.free ⟨f, hf, hg⟩
    · obtain rfl := List.mem_singleton.mp hf
      exact hm hg

theorem down_watch {w : World} (hi : WebSocketVerdicts.Inv cfg w) (h : Down w) {kind : Kind}
    (ho : Orderly w (.watch kind)) : Down (watch cfg w kind) := by
  cases hx : w.watchdogs kind with
  | asleep =>
    by_cases hs : 0 < timeout cfg kind ∧ w.app._stopEvent = false
    · rw [watch, hx]
      simp only [if_pos hs]
      exact down_setWatchdog h kind .awake
    · simpa [watch, hx, hs] using h
  | awake =>
    cases hs : snapshot kind w.app with
    | none => simpa [watch, hx, hs] using down_setWatchdog h kind .asleep
    | some s => simpa [watch, hx, hs] using down_setWatchdog h kind (.looked s)
  | looked s =>
    rw [watch, hx]
    exact down_setWatchdog h kind _
  | overdue s =>
    rw [watch, hx]
    by_cases hh : holds kind w.app s = true
    · simp only [if_pos hh]
      exact down_giveUp (down_setWatchdog h kind (.decided (decision w kind s))) kind
    · simp only [if_neg hh]
      exact down_setWatchdog h kind .asleep
  | decided d =>
    have hsound := hi.watched kind
    rw [hx] at hsound
    obtain ⟨o, hmem, hgen, -⟩ := hsound
    have hle : d.generation ≤ w.app._connectionGeneration := hgen ▸ hi.past o hmem
    rw [watch, hx]
    refine down_append (down_setWatchdog h kind (.emitted d)) rfl ?_ ?_
    · intro g hg
      obtain rfl : d.generation = g := by simpa [givesUp] using hg
      exact hle
    · intro hg
      exact ho (by rw [hx]; exact hg)
  | emitted d =>
    rw [watch, hx]
    refine down_append (down_setWatchdog h kind .asleep) rfl ?_ ?_
    · intro g hg
      simp [givesUp] at hg
    · intro hg
      simp [givesUp] at hg

theorem down_step {w : World} (hi : WebSocketVerdicts.Inv cfg w) (h : Down w) (l : Label) (ho : Orderly w l) :
    Down (step cfg w l) := by
  cases l with
  | tick reading =>
    refine h.moved rfl rfl (fun hgiven x hx => ?_) h.apart
    by_contra hn
    exact h.free hgiven ⟨x, hx, by simpa using hn⟩
  | install ws => exact down_install h ws
  | fail => exact down_fail h
  | onOpen => exact down_callOnOpen h
  | onMessage => exact down_callOnMessage h
  | onClose => exact down_callOnClose h
  | call c => exact down_call h c
  | returns ready => exact down_returns h ho
  | raises fatal => exact down_raises h fatal
  | act => exact down_act h ho
  | finish => exact down_finish h
  | watch kind => exact down_watch hi h ho

/-! ## Runs -/

/-- In every orderly run no generation that has been given up is made ready again. -/
theorem staysDown_of_orderly (cfg : Config) (a : App) (labels : List Label)
    (h : Meets (step cfg) Orderly (init a) labels) : Throughout (step cfg) StaysDown (init a) labels := by
  have hrun : Throughout (step cfg) (fun w => WebSocketVerdicts.Inv cfg w ∧ Down w) (init a) labels :=
    throughout_of_meets (fun _ l hw ho => ⟨WebSocketVerdicts.inv_step hw.1 l, down_step hw.1 hw.2 l ho⟩)
      ⟨WebSocketVerdicts.inv_init a, down_init a⟩ h
  exact fun pre hpre => (hrun pre hpre).2.stays

/-- A batch with one subscription that is not acknowledged in time. -/
def lateBatch : List Label :=
  [.install 7, .onOpen, .act, .act, .act, .call .begin, .act, .call (.subscribe true), .act, .act,
    .call .endBatch, .act, .returns false, .act, .tick 6, .watch .readiness, .watch .readiness, .watch .readiness,
    .watch .readiness, .watch .readiness]

/-- The socket is closed, and the next one becomes ready. -/
theorem staysDown_reopened : StaysDown (run (step ⟨5, 0, 1, by decide, by decide⟩) (init {})
    (lateBatch ++ [.watch .readiness, .onClose, .act, .act, .act, .act, .act, .install 8, .onOpen, .act, .act, .act,
      .returns true, .act, .act, .act, .act])) :=
  throughout_last (staysDown_of_orderly _ {} _ (by decide +kernel))

/-- The acknowledgement comes after the verdict and before the close. -/
theorem given_up_generation_connected : ∃ cfg labels, ¬Throughout (step cfg) StaysDown (init {}) labels :=
  ⟨⟨5, 0, 1, by decide, by decide⟩,
    lateBatch ++ [.onMessage, .act, .call .acknowledged, .act, .act, .act, .act, .act, .watch .readiness],
    fun h => absurd (throughout_last h) (by decide +kernel)⟩

end WebSocketGivenUp
