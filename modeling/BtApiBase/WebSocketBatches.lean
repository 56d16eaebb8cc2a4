import BtApiBase.WebSocketApps
import BtApiBase.Runs

/-!
# One batch of subscriptions

`on_open` whose `open_rsp` begins a batch, subscribes any number of times, and returns
what `_end_subscription_batch` returns. Acknowledgements come in threads of their own,
at any time after the subscription they are for has been counted. Readiness is a token:
there is none until the batch has ended and nothing is outstanding, and then there is
one, on its way or emitted.
-/

namespace WebSocketBatches

open WebSocketApps Runs

/-- A counted subscription: whether its send succeeds, and what has come of it. -/
structure Subscription where
  sent : Bool
  rolledBack : Bool := false
  acknowledged : Bool := false
  deriving DecidableEq, Repr

def Subscription.outstanding (s : Subscription) : Bool := !s.rolledBack && !s.acknowledged

inductive Stage where
  | opening | subscribing | ended
  deriving DecidableEq, Repr

structure Batch where
  app : App
  now : Rat := 0
  stage : Stage := .opening
  /-- What `on_open` has still to do before `open_rsp` goes on, or after it. -/
  todo : List Action
  subscriptions : List Subscription := []
  /-- What the calls of `_subscription_acknowledged` have still to do. -/
  acks : List (List Action) := []
  log : List Event := []

inductive Label where
  | tick (reading : Rat)
  | main
  | begin
  | subscribe (sent : Bool)
  | endBatch
  | acknowledge (i : Nat)
  | thread (j : Nat)
  deriving DecidableEq, Repr

/-- What an action of `on_open` means for the subscriptions. -/
def recorded (subscriptions : List Subscription) : Action → List Subscription
  | .countSubscription sent => subscriptions ++ [⟨sent, false, false⟩]
  | .rollBack => subscriptions.modify (subscriptions.length - 1) fun s => { s with rolledBack := true }
  | _ => subscriptions

variable (cfg : Config)

def main (w : Batch) : Batch :=
  match w.todo with
  | [] => w
  | action :: rest =>
    let e := exec cfg w.now w.app action
    { w with
      app := e.app
      todo := e.todo ++ rest
      subscriptions := recorded w.subscriptions action
      log := w.log ++ e.log }

def acknowledge (w : Batch) (i : Nat) : Batch :=
  match w.subscriptions[i]? with
  | some s =>
    if s.sent && !s.acknowledged then
      let e := exec cfg w.now w.app .acknowledge
      { w with
        app := e.app
        subscriptions := w.subscriptions.modify i fun s => { s with acknowledged := true }
        acks := w.acks ++ [e.todo] }
    else w
  | none => w

def thread (w : Batch) (j : Nat) : Batch :=
  match w.acks[j]? with
  | some (action :: rest) =>
    let e := exec cfg w.now w.app action
    { w with
      app := e.app
      acks := w.acks.set j (e.todo ++ rest)
      log := w.log ++ e.log }
  | _ => w

def step (w : Batch) : Label → Batch
  | .tick reading => { w with now := max w.now reading }
  | .main => main cfg w
  | .begin => if w.stage = .opening ∧ w.todo = [] then { w with stage := .subscribing, todo := [.beginBatch] } else w
  | .subscribe sent =>
    if w.stage = .subscribing ∧ w.todo = [] then { w with todo := WebSocketApps.subscribe sent } else w
  | .endBatch =>
    if w.stage = .subscribing ∧ w.todo = [] then { w with
      app := w.app.endBatch
      stage := .ended
      todo := afterOpenRsp w.app.batchAcknowledged }
    else w
  | .acknowledge i => acknowledge cfg w i
  | .thread j => thread cfg w j

/-- The library calls `on_open` for a socket; whatever the attributes were, the last
`on_close` has reset the batch. -/
def init (a : App) (ws : Nat) : Batch where
  app := a.closeBatch
  todo := onOpen ws

/-! ## The invariant -/

def outstanding (w : Batch) : Nat := w.subscriptions.countP Subscription.outstanding

/-- The batch has ended and nothing is outstanding. -/
def Settled (w : Batch) : Prop := w.stage = .ended ∧ outstanding w = 0

instance (w : Batch) : Decidable (Settled w) := inferInstanceAs (Decidable (_ ∧ _))

/-- What all threads have still to do. -/
def pendingActions (w : Batch) : List Action := w.todo ++ w.acks.flatten

def early : Action → Bool
  | .countGeneration | .readClock _ | .open _ _ => true
  | _ => false

/-- What may follow the batch. -/
def late : Action → Bool
  | .markReady | .resetAttempt | .resetDelay | .emit .connected | .emitPending => true
  | _ => false

/-- Nobody has been told of readiness unless the socket still waits for it. -/
def Armed (w : Batch) : Prop := w.log.count .flagged = 0 → w.app._awaitingReady = true

/-- The handler has taken back exactly the subscriptions whose send fails. -/
def Handled (subscriptions : List Subscription) : Prop := ∀ s ∈ subscriptions, s.rolledBack = !s.sent

/-- Where `on_open` is. -/
inductive Place (w : Batch) : Prop where
  | opening : w.stage = .opening → (∀ x ∈ w.todo, early x = true) → w.subscriptions = [] → w.acks = [] →
      Place w
  | beginning : w.stage = .subscribing → w.todo = [.beginBatch] → w.subscriptions = [] → w.acks = [] →
      Place w
  | batch : w.stage = .subscribing → w.app._trackingSubscriptionBatch = true → Armed w →
      Handled w.subscriptions →
      (w.todo = [] ∨ (∃ sent, w.todo = [.countSubscription sent]) ∨ w.todo = [.send false]) → Place w
  | failing (older : List Subscription) : w.stage = .subscribing →
      w.app._trackingSubscriptionBatch = true → Armed w → Handled older →
      w.subscriptions = older ++ [⟨false, false, false⟩] →
      (w.todo = [.send true] ∨ w.todo = [.rollBack]) → Place w
  | ended : w.stage = .ended → w.app._trackingSubscriptionBatch = false → Armed w →
      Handled w.subscriptions → (∀ x ∈ w.todo, late x = true) → Place w

structure Inv (w : Batch) : Prop where
  pending : w.app._pendingSubscriptionAcks = outstanding w
  place : Place w
  late : ∀ t ∈ w.acks, ∀ x ∈ t, late x = true
  /-- Every call of `_mark_ready` comes from the settled batch, and there is one. -/
  marks : w.log.count .flagged + (pendingActions w).count .markReady = if Settled w then 1 else 0
  tokens : w.log.count .connected + (pendingActions w).count .markReady +
    (pendingActions w).count (.emit .connected) = if Settled w then 1 else 0

theorem inv_init (a : App) (ws : Nat) : Inv (init a ws) where
  pending := rfl
  place := .opening rfl (by simp [init, onOpen, early]) rfl rfl
  late := by simp [init]
  marks := by simp [init, pendingActions, onOpen, Settled]
  tokens := by simp [init, pendingActions, onOpen, Settled]

/-! ## Counting -/

theorem countP_modify {α : Type*} (p : α → Bool) (f : α → α) {l : List α} {i : Nat} {x : α} (h : l[i]? = some x) :
    (l.modify i f).countP p + (if p x then 1 else 0) = l.countP p + (if p (f x) then 1 else 0) := by
  induction l generalizing i with
  | nil => simp at h
  | cons a l ih =>
    cases i with
    | zero =>
      obtain rfl : a = x := by simpa using h
      rw [List.modify_zero_cons, List.countP_cons, List.countP_cons]
      omega
    | succ i =>
      have := ih (by simpa using h)
      rw [List.modify_succ_cons, List.countP_cons, List.countP_cons]
      omega

theorem count_flatten_set {α : Type*} [DecidableEq α] {l : List (List α)} {j : Nat} {t : List α}
    (h : l[j]? = some t) (u : List α) (y : α) :
    (l.set j u).flatten.count y + t.count y = l.flatten.count y + u.count y := by
  induction l generalizing j with
  | nil => simp at h
  | cons a l ih =>
    cases j with
    | zero =>
      obtain rfl : a = t := by simpa using h
      simp only [List.set_cons_zero, List.flatten_cons, List.count_append]
      omega
    | succ j =>
      have := ih (by simpa using h)
      simp only [List.set_cons_succ, List.flatten_cons, List.count_append]
      omega

theorem modify_concat {α : Type*} (f : α → α) (l : List α) (x : α) :
    (l ++ [x]).modify l.length f = l ++ [f x] := by
  induction l with
  | nil => rfl
  | cons a l ih => simp [ih]

theorem modify_append {α : Type*} (f : α → α) {l : List α} {i : Nat} (h : i < l.length) (r : List α) :
    (l ++ r).modify i f = l.modify i f ++ r := by
  induction l generalizing i with
  | nil => simp at h
  | cons a l ih =>
    cases i with
    | zero => rfl
    | succ i => simp [ih (by simpa using h)]

theorem Handled.acknowledged {l : List Subscription} (h : Handled l) (i : Nat) :
    Handled (l.modify i fun s => { s with acknowledged := true }) := by
  intro s hs
  obtain ⟨j, hj⟩ := List.mem_iff_getElem?.mp hs
  rw [List.getElem?_modify] at hj
  cases hl : l[j]? with
  | none => simp [hl] at hj
  | some t =>
    have ht := h t (List.mem_of_getElem? hl)
    by_cases hi : i = j <;> simp [hl, hi] at hj <;> rw [← hj] <;> exact ht

/-! ## One action -/

variable {cfg}

/-- The action passes on the tokens that it takes. -/
structure Balanced (cfg : Config) (now : Rat) (a : App) (x : Action) : Prop where
  marks : (exec cfg now a x).log.count .flagged + (exec cfg now a x).todo.count .markReady =
    [x].count .markReady
  tokens : (exec cfg now a x).log.count .connected + (exec cfg now a x).todo.count .markReady +
    (exec cfg now a x).todo.count (.emit .connected) = [x].count .markReady + [x].count (.emit .connected)

theorem balanced_of_early {now : Rat} {a : App} {x : Action} (hx : early x = true) : Balanced cfg now a x := by
  cases x <;> simp [early] at hx <;> constructor <;> simp [exec]

theorem balanced_of_late {now : Rat} {a : App} {x : Action} (hx : late x = true)
    (hm : x = .markReady → a._awaitingReady = true) : Balanced cfg now a x := by
  cases x with
  | markReady =>
    have : a.alreadyReady = false := by simp [App.alreadyReady, hm rfl]
    constructor <;> simp [exec, this]
  | emit event =>
    cases event <;> simp [late] at hx
    constructor <;> simp [exec]
  | resetAttempt | resetDelay | emitPending => constructor <;> simp [exec]
  | _ => simp [late] at hx

structure Harmless (cfg : Config) (now : Rat) (a : App) (x : Action) : Prop where
  pending : (exec cfg now a x).app._pendingSubscriptionAcks = a._pendingSubscriptionAcks
  tracking : (exec cfg now a x).app._trackingSubscriptionBatch = a._trackingSubscriptionBatch

theorem harmless_of_early {now : Rat} {a : App} {x : Action} (hx : early x = true) : Harmless cfg now a x := by
  cases x <;> simp [early] at hx <;> exact ⟨rfl, rfl⟩

theorem harmless_of_late {now : Rat} {a : App} {x : Action} (hx : late x = true) : Harmless cfg now a x := by
  cases x with
  | emit event => exact ⟨rfl, rfl⟩
  | markReady | resetAttempt | resetDelay | emitPending => exact ⟨rfl, rfl⟩
  | _ => simp [late] at hx

theorem early_todo {now : Rat} {a : App} {x : Action} (hx : early x = true) :
    ∀ y ∈ (exec cfg now a x).todo, early y = true := by
  intro y hy
  cases leadsTo_of_mem hy <;> first | rfl | simp [early] at hx

theorem late_todo {now : Rat} {a : App} {x : Action} (hx : late x = true) :
    ∀ y ∈ (exec cfg now a x).todo, late y = true := by
  intro y hy
  cases leadsTo_of_mem hy <;> first | rfl | simp [late] at hx

/-- Only `_mark_ready` ends the wait, and it says so. -/
theorem late_armed {now : Rat} {a : App} {x : Action} (hx : late x = true) :
    (exec cfg now a x).log.count .flagged = 0 → (exec cfg now a x).app._awaitingReady = a._awaitingReady := by
  cases x with
  | markReady => simp [exec]
  | emit event => exact fun _ => rfl
  | resetAttempt | resetDelay | emitPending => exact fun _ => rfl
  | _ => simp [late] at hx

theorem recorded_of_early {x : Action} (hx : early x = true) (l : List Subscription) : recorded l x = l := by
  cases x <;> first | rfl | simp [early] at hx

theorem recorded_of_late {x : Action} (hx : late x = true) (l : List Subscription) : recorded l x = l := by
  cases x <;> first | rfl | simp [late] at hx

/-! ## One step -/

/-- A thread has taken `x`. -/
structure Taken (cfg : Config) (w : Batch) (x : Action) (w' : Batch) : Prop where
  app : w'.app = (exec cfg w.now w.app x).app
  stage : w'.stage = w.stage
  log : w'.log = w.log ++ (exec cfg w.now w.app x).log
  pending : ∀ y, (pendingActions w').count y + [x].count y =
    (pendingActions w).count y + (exec cfg w.now w.app x).todo.count y

theorem taken_main {w : Batch} {x : Action} {rest : List Action} (hw : w.todo = x :: rest) :
    Taken cfg w x (main cfg w) := by
  constructor
  · rw [main, hw]
  · rw [main, hw]
  · rw [main, hw]
  · intro y
    simp only [main, hw, pendingActions, List.count_append, List.count_cons, List.count_nil]
    omega

theorem taken_thread {w : Batch} {j : Nat} {x : Action} {rest : List Action}
    (hw : w.acks[j]? = some (x :: rest)) : Taken cfg w x (thread cfg w j) := by
  constructor
  · rw [thread, hw]
  · rw [thread, hw]
  · rw [thread, hw]
  · intro y
    have := count_flatten_set hw ((exec cfg w.now w.app x).todo ++ rest) y
    simp only [List.count_cons, List.count_append] at this
    simp only [thread, hw, pendingActions, List.count_append, List.count_cons, List.count_nil]
    omega

theorem Taken.tokens {w w' : Batch} {x : Action} (t : Taken cfg w x w') (h : Inv w)
    (b : Balanced cfg w.now w.app x) (hs : Settled w' ↔ Settled w) :
    w'.log.count .flagged + (pendingActions w').count .markReady = (if Settled w' then 1 else 0) ∧
      w'.log.count .connected + (pendingActions w').count .markReady +
        (pendingActions w').count (.emit .connected) = if Settled w' then 1 else 0 := by
  have hm := t.pending .markReady
  have hc := t.pending (.emit .connected)
  have h₁ := h.marks
  have h₂ := h.tokens
  have h₃ := b.marks
  have h₄ := b.tokens
  rw [t.log, List.count_append, List.count_append]
  constructor
  · by_cases hw : Settled w
    · rw [if_pos hw] at h₁
      rw [if_pos (hs.mpr hw)]
      omega
    · rw [if_neg hw] at h₁
      rw [if_neg (mt hs.mp hw)]
      omega
  · by_cases hw : Settled w
    · rw [if_pos hw] at h₂
      rw [if_pos (hs.mpr hw)]
      omega
    · rw [if_neg hw] at h₂
      rw [if_neg (mt hs.mp hw)]
      omega

theorem Taken.armed {w w' : Batch} {x : Action} (t : Taken cfg w x w') (hx : late x = true) (h : Armed w) :
    Armed w' := by
  intro hl
  rw [t.log, List.count_append] at hl
  rw [t.app, late_armed hx (by omega)]
  exact h (by omega)

/-- A call of `_mark_ready` that is still to come finds the socket waiting. -/
theorem Inv.awaiting {w : Batch} (h : Inv w) (hm : .markReady ∈ pendingActions w) :
    w.app._awaitingReady = true := by
  have hc := List.count_pos_iff.mpr hm
  have hk := h.marks
  have hs : Settled w := by
    by_contra hn
    rw [if_neg hn] at hk
    omega
  rw [if_pos hs] at hk
  have hl : w.log.count .flagged = 0 := by omega
  have he := hs.1
  cases h.place with
  | opening h₁ => simp [h₁] at he
  | beginning h₁ => simp [h₁] at he
  | batch h₁ => simp [h₁] at he
  | failing _ h₁ => simp [h₁] at he
  | ended _ _ ha => exact ha hl

theorem inv_thread {w : Batch} (h : Inv w) (j : Nat) : Inv (thread cfg w j) := by
  cases hj : w.acks[j]? with
  | none => simpa [thread, hj] using h
  | some t =>
    cases t with
    | nil => simpa [thread, hj] using h
    | cons x rest =>
      have hmem := List.mem_of_getElem? hj
      have hx : late x = true := h.late _ hmem x List.mem_cons_self
      have ht : Taken cfg w x (thread cfg w j) := taken_thread hj
      have hsubs : (thread cfg w j).subscriptions = w.subscriptions := by rw [thread, hj]
      have htodo : (thread cfg w j).todo = w.todo := by rw [thread, hj]
      have hout : outstanding (thread cfg w j) = outstanding w := by rw [outstanding, hsubs, outstanding]
      have hb : Balanced cfg w.now w.app x := balanced_of_late hx fun he => h.awaiting
        (List.mem_append_right _ (List.mem_flatten.mpr ⟨_, hmem, he ▸ List.mem_cons_self⟩))
      have hk := ht.tokens h hb (by rw [Settled, Settled, ht.stage, hout])
      have htrack : (thread cfg w j).app._trackingSubscriptionBatch = w.app._trackingSubscriptionBatch := by
        rw [ht.app, (harmless_of_late hx).tracking]
      refine ⟨?_, ?_, ?_, hk.1, hk.2⟩
      · rw [ht.app, (harmless_of_late hx).pending, h.pending, hout]
      · cases h.place with
        | opening _ _ _ ha => simp [ha] at hj
        | beginning _ _ _ ha => simp [ha] at hj
        | batch h₁ h₂ h₃ h₄ h₅ =>
          exact .batch (ht.stage.trans h₁) (htrack.trans h₂) (ht.armed hx h₃) (hsubs ▸ h₄) (htodo ▸ h₅)
        | failing older h₁ h₂ h₃ h₄ h₅ h₆ =>
          exact .failing older (ht.stage.trans h₁) (htrack.trans h₂) (ht.armed hx h₃) h₄ (hsubs.trans h₅)
            (htodo ▸ h₆)
        | ended h₁ h₂ h₃ h₄ h₅ =>
          exact .ended (ht.stage.trans h₁) (htrack.trans h₂) (ht.armed hx h₃) (hsubs ▸ h₄) (htodo ▸ h₅)
      · intro u hu
        simp only [thread, hj] at hu
        rcases List.mem_or_eq_of_mem_set hu with hu | rfl
        · exact h.late u hu
        · intro y hy
          rcases List.mem_append.mp hy with hy | hy
          · exact late_todo hx y hy
          · exact h.late _ hmem y (List.mem_cons_of_mem _ hy)

theorem main_acks {w : Batch} : (main cfg w).acks = w.acks := by
  rw [main]
  cases w.todo <;> rfl

theorem main_subscriptions {w : Batch} {x : Action} {rest : List Action} (hw : w.todo = x :: rest) :
    (main cfg w).subscriptions = recorded w.subscriptions x := by rw [main, hw]

theorem main_todo {w : Batch} {x : Action} {rest : List Action} (hw : w.todo = x :: rest) :
    (main cfg w).todo = (exec cfg w.now w.app x).todo ++ rest := by rw [main, hw]

theorem settled_iff_of_stage {w w' : Batch} (h : w.stage ≠ .ended) (hs : w'.stage = w.stage) :
    Settled w' ↔ Settled w :=
  ⟨fun h' => absurd (hs ▸ h'.1) h, fun h' => absurd h'.1 h⟩

theorem inv_opening {w : Batch} {x : Action} {rest : List Action} (h : Inv w) (hw : w.todo = x :: rest)
    (h₁ : w.stage = .opening) (h₂ : ∀ y ∈ w.todo, early y = true) (h₃ : w.subscriptions = [])
    (h₄ : w.acks = []) : Inv (main cfg w) := by
  have ht : Taken cfg w x (main cfg w) := taken_main hw
  have hx : early x = true := h₂ x (by simp [hw])
  have hsubs : (main cfg w).subscriptions = w.subscriptions := by
    rw [main_subscriptions hw, recorded_of_early hx]
  have hk := ht.tokens h (balanced_of_early hx) (settled_iff_of_stage (by simp [h₁]) ht.stage)
  refine ⟨?_, ?_, ?_, hk.1, hk.2⟩
  · rw [ht.app, (harmless_of_early hx).pending, h.pending, outstanding, outstanding, hsubs]
  · refine .opening (ht.stage.trans h₁) ?_ (hsubs.trans h₃) (main_acks.trans h₄)
    intro y hy
    rw [main_todo hw] at hy
    rcases List.mem_append.mp hy with hy | hy
    · exact early_todo hx y hy
    · exact h₂ y (by simp [hw, hy])
  · simp [main_acks, h₄]

theorem inv_beginning {w : Batch} (h : Inv w) (h₁ : w.stage = .subscribing) (hw : w.todo = [.beginBatch])
    (h₃ : w.subscriptions = []) (h₄ : w.acks = []) : Inv (main cfg w) := by
  have ht : Taken cfg w .beginBatch (main cfg w) := taken_main hw
  have hsubs : (main cfg w).subscriptions = [] := by rw [main_subscriptions hw, h₃]; rfl
  have hk := ht.tokens h (by constructor <;> simp [exec]) (settled_iff_of_stage (by simp [h₁]) ht.stage)
  have happ : (main cfg w).app = w.app.beginBatch := ht.app
  refine ⟨?_, ?_, ?_, hk.1, hk.2⟩
  · rw [happ, outstanding, hsubs]
    rfl
  · refine .batch (ht.stage.trans h₁) (by rw [happ]; rfl) (fun _ => by rw [happ]; rfl) ?_ (.inl ?_)
    · simp [Handled, hsubs]
    · rw [main_todo hw]
      rfl
  · simp [main_acks, h₄]

theorem handled_concat {older : List Subscription} (h : Handled older) {x : Subscription}
    (hx : x.rolledBack = !x.sent) : Handled (older ++ [x]) := by
  intro s hs
  cases List.mem_append.mp hs with
  | inl hs => exact h s hs
  | inr hs =>
    obtain rfl := List.mem_singleton.mp hs
    exact hx

/-- A subscription is counted and tracked; its send comes next. -/
theorem inv_count {w : Batch} {sent : Bool} (h : Inv w) (h₁ : w.stage = .subscribing)
    (h₂ : w.app._trackingSubscriptionBatch = true) (h₃ : Armed w) (h₄ : Handled w.subscriptions)
    (hw : w.todo = [.countSubscription sent]) : Inv (main cfg w) := by
  have ht : Taken cfg w (.countSubscription sent) (main cfg w) := taken_main hw
  have hsubs : (main cfg w).subscriptions = w.subscriptions ++ [⟨sent, false, false⟩] := main_subscriptions hw
  have hk := ht.tokens h (by constructor <;> simp [exec]) (settled_iff_of_stage (by simp [h₁]) ht.stage)
  have happ : (main cfg w).app = { w.app with
      _pendingSubscriptionAcks := w.app._pendingSubscriptionAcks + 1
      _subscriptionBatchSendCount := w.app._subscriptionBatchSendCount + 1 } := by
    rw [ht.app]
    simp [exec, App.countSubscription, h₂]
  have harmed : Armed (main cfg w) := by
    intro hl
    rw [happ]
    rw [ht.log, List.count_append] at hl
    exact h₃ (by omega)
  have htrack : (main cfg w).app._trackingSubscriptionBatch = true := by
    rw [happ]
    exact h₂
  refine ⟨?_, ?_, ?_, hk.1, hk.2⟩
  · rw [happ, outstanding, hsubs, List.countP_append]
    show w.app._pendingSubscriptionAcks + 1 = outstanding w + 1
    rw [h.pending]
  · cases sent with
    | true =>
      refine .batch (ht.stage.trans h₁) htrack harmed ?_ (.inr (.inr ?_))
      · rw [hsubs]
        exact handled_concat h₄ rfl
      · rw [main_todo hw]
        simp [exec]
    | false =>
      refine .failing _ (ht.stage.trans h₁) htrack harmed h₄ hsubs (.inl ?_)
      rw [main_todo hw]
      simp [exec, h₂]
  · rw [main_acks]
    exact h.late

/-- A send says nothing to the application, so only the place of `on_open` is new. -/
theorem inv_of_send {w : Batch} {fails : Bool} (h : Inv w) (h₁ : w.stage = .subscribing)
    (hw : w.todo = [.send fails])
    (hplace : (main cfg w).app = w.app → (main cfg w).subscriptions = w.subscriptions →
      (main cfg w).log = w.log → (main cfg w).stage = .subscribing → Place (main cfg w)) :
    Inv (main cfg w) := by
  have ht : Taken cfg w (.send fails) (main cfg w) := taken_main hw
  have hsubs : (main cfg w).subscriptions = w.subscriptions := main_subscriptions hw
  have hb : Balanced cfg w.now w.app (.send fails) := by
    cases fails <;> constructor <;> simp [exec]
  have hk := ht.tokens h hb (settled_iff_of_stage (by simp [h₁]) ht.stage)
  have happ : (main cfg w).app = w.app := ht.app
  have hlog : (main cfg w).log = w.log := by simpa [exec] using ht.log
  refine ⟨?_, hplace happ hsubs hlog (ht.stage.trans h₁), ?_, hk.1, hk.2⟩
  · rw [happ, h.pending, outstanding, outstanding, hsubs]
  · rw [main_acks]
    exact h.late

theorem inv_send {w : Batch} (h : Inv w) (h₁ : w.stage = .subscribing)
    (h₂ : w.app._trackingSubscriptionBatch = true) (h₃ : Armed w) (h₄ : Handled w.subscriptions)
    (hw : w.todo = [.send false]) : Inv (main cfg w) := by
  apply inv_of_send h h₁ hw
  intro happ hsubs hlog hstage
  refine .batch hstage (by rw [happ, h₂]) ?_ (hsubs ▸ h₄) (.inl ?_)
  · rw [Armed, happ, hlog]
    exact h₃
  · rw [main_todo hw]
    rfl

theorem inv_fail {w : Batch} {older : List Subscription} (h : Inv w) (h₁ : w.stage = .subscribing)
    (h₂ : w.app._trackingSubscriptionBatch = true) (h₃ : Armed w) (h₄ : Handled older)
    (h₅ : w.subscriptions = older ++ [⟨false, false, false⟩]) (hw : w.todo = [.send true]) :
    Inv (main cfg w) := by
  apply inv_of_send h h₁ hw
  intro happ hsubs hlog hstage
  refine .failing older hstage (by rw [happ, h₂]) ?_ h₄ (hsubs.trans h₅) (.inr ?_)
  · rw [Armed, happ, hlog]
    exact h₃
  · rw [main_todo hw]
    rfl

/-- The handler takes back the subscription that it is for. -/
theorem inv_rollBack {w : Batch} {older : List Subscription} (h : Inv w) (h₁ : w.stage = .subscribing)
    (h₂ : w.app._trackingSubscriptionBatch = true) (h₃ : Armed w) (h₄ : Handled older)
    (h₅ : w.subscriptions = older ++ [⟨false, false, false⟩]) (hw : w.todo = [.rollBack]) :
    Inv (main cfg w) := by
  have ht : Taken cfg w .rollBack (main cfg w) := taken_main hw
  have hsubs : (main cfg w).subscriptions = older ++ [⟨false, true, false⟩] := by
    have hlen : w.subscriptions.length - 1 = older.length := by simp [h₅]
    rw [main_subscriptions hw, recorded, hlen, h₅, modify_concat]
  have hk := ht.tokens h (by constructor <;> simp [exec]) (settled_iff_of_stage (by simp [h₁]) ht.stage)
  have happ : (main cfg w).app = w.app.rollBack := ht.app
  have hlog : (main cfg w).log = w.log := by simpa [exec] using ht.log
  have hpending : w.app._pendingSubscriptionAcks = older.countP Subscription.outstanding + 1 := by
    rw [h.pending, outstanding, h₅, List.countP_append]
    rfl
  refine ⟨?_, ?_, ?_, hk.1, hk.2⟩
  · rw [happ, outstanding, hsubs, List.countP_append]
    show w.app._pendingSubscriptionAcks - 1 = older.countP Subscription.outstanding + 0
    omega
  · refine .batch (ht.stage.trans h₁) (by rw [happ]; exact h₂) ?_ ?_ (.inl ?_)
    · rw [Armed, happ, hlog]
      exact h₃
    · rw [hsubs]
      exact handled_concat h₄ rfl
    · rw [main_todo hw]
      rfl
  · rw [main_acks]
    exact h.late

theorem inv_ended {w : Batch} {x : Action} {rest : List Action} (h : Inv w) (hw : w.todo = x :: rest)
    (h₁ : w.stage = .ended) (h₂ : w.app._trackingSubscriptionBatch = false) (h₃ : Armed w)
    (h₄ : Handled w.subscriptions) (h₅ : ∀ y ∈ w.todo, late y = true) : Inv (main cfg w) := by
  have ht : Taken cfg w x (main cfg w) := taken_main hw
  have hx : late x = true := h₅ x (by simp [hw])
  have hsubs : (main cfg w).subscriptions = w.subscriptions := by
    rw [main_subscriptions hw, recorded_of_late hx]
  have hout : outstanding (main cfg w) = outstanding w := by rw [outstanding, hsubs, outstanding]
  have hb : Balanced cfg w.now w.app x := balanced_of_late hx fun he => h.awaiting
    (List.mem_append_left _ (by simp [hw, he]))
  have hk := ht.tokens h hb (by rw [Settled, Settled, ht.stage, hout])
  refine ⟨?_, ?_, ?_, hk.1, hk.2⟩
  · rw [ht.app, (harmless_of_late hx).pending, h.pending, hout]
  · refine .ended (ht.stage.trans h₁) ?_ (ht.armed hx h₃) (hsubs ▸ h₄) ?_
    · rw [ht.app, (harmless_of_late hx).tracking, h₂]
    · intro y hy
      rw [main_todo hw] at hy
      rcases List.mem_append.mp hy with hy | hy
      · exact late_todo hx y hy
      · exact h₅ y (by simp [hw, hy])
  · rw [main_acks]
    exact h.late

theorem inv_main {w : Batch} (h : Inv w) : Inv (main cfg w) := by
  cases hw : w.todo with
  | nil => simpa [main, hw] using h
  | cons x rest =>
    cases h.place with
    | opening h₁ h₂ h₃ h₄ => exact inv_opening h hw h₁ h₂ h₃ h₄
    | beginning h₁ h₂ h₃ h₄ => exact inv_beginning h h₁ h₂ h₃ h₄
    | batch h₁ h₂ h₃ h₄ h₅ =>
      rcases h₅ with h₅ | ⟨sent, h₅⟩ | h₅
      · simp [h₅] at hw
      · exact inv_count h h₁ h₂ h₃ h₄ h₅
      · exact inv_send h h₁ h₂ h₃ h₄ h₅
    | failing older h₁ h₂ h₃ h₄ h₅ h₆ =>
      rcases h₆ with h₆ | h₆
      · exact inv_fail h h₁ h₂ h₃ h₄ h₅ h₆
      · exact inv_rollBack h h₁ h₂ h₃ h₄ h₅ h₆
    | ended h₁ h₂ h₃ h₄ h₅ => exact inv_ended h hw h₁ h₂ h₃ h₄ h₅

theorem Inv.not_rolledBack {w : Batch} (h : Inv w) {s : Subscription} (hs : s ∈ w.subscriptions)
    (hsent : s.sent = true) : s.rolledBack = false := by
  cases h.place with
  | opening _ _ h₃ => simp [h₃] at hs
  | beginning _ _ h₃ => simp [h₃] at hs
  | batch _ _ _ h₄ => rw [h₄ s hs, hsent]; rfl
  | failing older _ _ _ h₄ h₅ =>
    rw [h₅] at hs
    rcases List.mem_append.mp hs with hs | hs
    · rw [h₄ s hs, hsent]; rfl
    · obtain rfl : s = ⟨false, false, false⟩ := by simpa using hs
      rfl
  | ended _ _ _ h₄ => rw [h₄ s hs, hsent]; rfl

theorem Inv.tracking {w : Batch} (h : Inv w) (hs : w.subscriptions ≠ []) :
    w.app._trackingSubscriptionBatch = false ↔ w.stage = .ended := by
  cases h.place with
  | opening _ _ h₃ => exact absurd h₃ hs
  | beginning _ _ h₃ => exact absurd h₃ hs
  | batch h₁ h₂ => simp [h₁, h₂]
  | failing _ h₁ h₂ => simp [h₁, h₂]
  | ended h₁ h₂ => simp [h₁, h₂]

theorem acknowledge_eq (cfg : Config) {w : Batch} {i : Nat} {s : Subscription} (hi : w.subscriptions[i]? = some s)
    (hs : (s.sent && !s.acknowledged) = true) :
    acknowledge cfg w i = { w with
      app := w.app.acknowledge
      subscriptions := w.subscriptions.modify i fun s => { s with acknowledged := true }
      acks := w.acks ++ [if w.app.lastAcknowledgement then [.markReady] else []] } := by
  simp [acknowledge, hi, hs, exec]

/-- An acknowledgement is of a subscription whose send did not fail. -/
theorem Place.acknowledge {w : Batch} {i : Nat} {s : Subscription} (h : Place w)
    (hi : w.subscriptions[i]? = some s) (hs : (s.sent && !s.acknowledged) = true) :
    Place (acknowledge cfg w i) := by
  have hsent : s.sent = true := by simp at hs; exact hs.1
  rw [acknowledge_eq cfg hi hs]
  cases h with
  | opening _ _ h₃ => simp [h₃] at hi
  | beginning _ _ h₃ => simp [h₃] at hi
  | batch h₁ h₂ h₃ h₄ h₅ => exact .batch h₁ h₂ h₃ (h₄.acknowledged i) h₅
  | failing older h₁ h₂ h₃ h₄ h₅ h₆ =>
    have hlt : i < older.length := by
      by_contra hge
      rw [h₅, List.getElem?_append_right (by omega)] at hi
      have := List.mem_of_getElem? hi
      obtain rfl : s = ⟨false, false, false⟩ := by simpa using this
      simp at hsent
    refine .failing _ h₁ h₂ h₃ (h₄.acknowledged i) ?_ h₆
    dsimp only
    rw [h₅, modify_append _ hlt]
  | ended h₁ h₂ h₃ h₄ h₅ => exact .ended h₁ h₂ h₃ (h₄.acknowledged i) h₅

theorem inv_acknowledge {w : Batch} (h : Inv w) (i : Nat) : Inv (acknowledge cfg w i) := by
  cases hi : w.subscriptions[i]? with
  | none => simpa [acknowledge, hi] using h
  | some s =>
    by_cases hs : (s.sent && !s.acknowledged) = true
    · have hmem := List.mem_of_getElem? hi
      have hsent : s.sent = true := by simp at hs; exact hs.1
      have hacked : s.acknowledged = false := by simp at hs; exact hs.2
      have hrolled := h.not_rolledBack hmem hsent
      have htrack := h.tracking (List.ne_nil_of_mem hmem)
      -- The subscription was outstanding, and is no longer.
      have hcount := countP_modify Subscription.outstanding (fun s => { s with acknowledged := true }) hi
      simp only [Subscription.outstanding, hrolled, hacked] at hcount
      have hsome : 0 < outstanding w := by
        rw [outstanding, List.countP_pos_iff]
        exact ⟨s, hmem, by simp [Subscription.outstanding, hrolled, hacked]⟩
      have hout : outstanding (acknowledge cfg w i) + 1 = outstanding w := by
        simp only [acknowledge, hi, hs, if_true, outstanding]
        exact hcount
      have hunsettled : ¬Settled w := fun hn => by
        have := hn.2
        omega
      have hpending := h.pending
      have heq := acknowledge_eq cfg hi hs
      have happ : (acknowledge cfg w i).app = w.app.acknowledge := by rw [heq]
      have hstage : (acknowledge cfg w i).stage = w.stage := by rw [heq]
      have hlog : (acknowledge cfg w i).log = w.log := by rw [heq]
      have htodo : (acknowledge cfg w i).todo = w.todo := by rw [heq]
      have hacks : (acknowledge cfg w i).acks =
          w.acks ++ [if w.app.lastAcknowledgement then [.markReady] else []] := by rw [heq]
      have hlast : w.app.lastAcknowledgement = true ↔ Settled (acknowledge cfg w i) := by
        rw [Settled, hstage, ← htrack, App.lastAcknowledgement, Bool.and_eq_true, beq_iff_eq,
          Bool.not_eq_true', and_comm]
        exact and_congr_right fun _ => by omega
      have hactions : ∀ y, (pendingActions (acknowledge cfg w i)).count y =
          (pendingActions w).count y + if Settled (acknowledge cfg w i) then [Action.markReady].count y else 0 := by
        intro y
        by_cases hl : w.app.lastAcknowledgement = true
        · simp [pendingActions, htodo, hacks, hl, hlast.mp hl, Nat.add_assoc]
        · simp [pendingActions, htodo, hacks, hl, mt hlast.mpr hl]
      have h₁ := h.marks
      have h₂ := h.tokens
      rw [if_neg hunsettled] at h₁ h₂
      refine ⟨?_, ?_, ?_, ?_, ?_⟩
      · rw [happ]
        show w.app._pendingSubscriptionAcks - 1 = _
        omega
      · exact h.place.acknowledge hi hs
      · intro t ht x hx
        rw [hacks] at ht
        rcases List.mem_append.mp ht with ht | ht
        · exact h.late t ht x hx
        · obtain rfl := List.mem_singleton.mp ht
          by_cases hl : w.app.lastAcknowledgement = true
          · obtain rfl : x = .markReady := by simpa [hl] using hx
            rfl
          · simp [hl] at hx
      · rw [hlog, hactions, List.count_singleton_self]
        omega
      · rw [hlog, hactions, hactions, List.count_singleton_self]
        have : [Action.markReady].count (.emit .connected) = 0 := rfl
        simp only [this, ite_self]
        omega
    · simpa [acknowledge, hi, hs] using h

theorem inv_endBatch {w : Batch} (h : Inv w) : Inv (step cfg w .endBatch) := by
  by_cases hs : w.stage = .subscribing ∧ w.todo = []
  · have h₁ := h.marks
    have h₂ := h.tokens
    have hunsettled : ¬Settled w := fun hn => by
      have := hn.1
      simp [hs.1] at this
    rw [if_neg hunsettled] at h₁ h₂
    simp only [pendingActions, hs.2, List.nil_append] at h₁ h₂
    have hplace : Armed w ∧ Handled w.subscriptions := by
      cases h.place with
      | opening h₁ => simp [h₁] at hs
      | beginning _ h₂ => simp [h₂] at hs
      | batch _ _ h₃ h₄ => exact ⟨h₃, h₄⟩
      | failing _ _ _ _ _ _ h₆ => simp [hs.2] at h₆
      | ended h₁ => simp [h₁] at hs
    have hstage : (step cfg w .endBatch).stage = .ended := by simp [step, hs]
    have happ : (step cfg w .endBatch).app = w.app.endBatch := by simp [step, hs]
    have hsubs : (step cfg w .endBatch).subscriptions = w.subscriptions := by simp [step, hs]
    have hacks : (step cfg w .endBatch).acks = w.acks := by simp [step, hs]
    have hlog : (step cfg w .endBatch).log = w.log := by simp [step, hs]
    have htodo : (step cfg w .endBatch).todo = if outstanding w = 0 then [.markReady] else [.emitPending] := by
      simp [step, hs, afterOpenRsp, App.batchAcknowledged, h.pending]
    have hout : outstanding (step cfg w .endBatch) = outstanding w := by rw [outstanding, hsubs, outstanding]
    have hsettled : Settled (step cfg w .endBatch) ↔ outstanding w = 0 := by simp [Settled, hstage, hout]
    refine ⟨?_, .ended hstage (by rw [happ]; rfl) ?_ (hsubs ▸ hplace.2) ?_, hacks ▸ h.late, ?_, ?_⟩
    · rw [happ, hout]
      exact h.pending
    · rw [Armed, hlog, happ]
      exact hplace.1
    · rw [htodo]
      by_cases ho : outstanding w = 0 <;> simp [ho, late]
    · by_cases ho : outstanding w = 0 <;> simp [pendingActions, hlog, hacks, htodo, hsettled, ho] <;> omega
    · by_cases ho : outstanding w = 0 <;> simp [pendingActions, hlog, hacks, htodo, hsettled, ho] <;> omega
  · simpa [step, hs] using h

theorem inv_begin {w : Batch} (h : Inv w) : Inv (step cfg w .begin) := by
  by_cases hs : w.stage = .opening ∧ w.todo = []
  · have hplace : w.subscriptions = [] ∧ w.acks = [] := by
      cases h.place with
      | opening _ _ h₃ h₄ => exact ⟨h₃, h₄⟩
      | beginning h₁ => simp [h₁] at hs
      | batch h₁ => simp [h₁] at hs
      | failing _ h₁ => simp [h₁] at hs
      | ended h₁ => simp [h₁] at hs
    have h₁ := h.marks
    have h₂ := h.tokens
    simp [pendingActions, Settled, hs.1, hs.2, hplace.2] at h₁ h₂
    simp only [step, if_pos hs]
    refine ⟨h.pending, .beginning rfl rfl hplace.1 hplace.2, h.late, ?_, ?_⟩
    · simp [pendingActions, Settled, hplace.2, h₁]
    · simp [pendingActions, Settled, hplace.2, h₂]
  · simpa [step, hs] using h

theorem inv_subscribe {w : Batch} (h : Inv w) (sent : Bool) : Inv (step cfg w (.subscribe sent)) := by
  by_cases hs : w.stage = .subscribing ∧ w.todo = []
  · have h₁ := h.marks
    have h₂ := h.tokens
    simp only [pendingActions, hs.2, List.nil_append, Settled, hs.1, reduceCtorEq, false_and, if_false] at h₁ h₂
    simp only [step, if_pos hs]
    refine ⟨h.pending, ?_, h.late, ?_, ?_⟩
    · cases h.place with
      | opening h₁ => simp [h₁] at hs
      | beginning _ h₂ => simp [h₂] at hs
      | batch h₁ h₂ h₃ h₄ => exact .batch h₁ h₂ h₃ h₄ (.inr (.inl ⟨sent, rfl⟩))
      | failing _ _ _ _ _ _ h₆ => simp [hs.2] at h₆
      | ended h₁ => simp [h₁] at hs
    · simp [pendingActions, Settled, hs.1, WebSocketApps.subscribe]
      omega
    · simp [pendingActions, Settled, hs.1, WebSocketApps.subscribe]
      omega
  · simpa [step, hs] using h

theorem inv_step {w : Batch} (h : Inv w) (l : Label) : Inv (step cfg w l) := by
  cases l with
  | tick reading => exact ⟨h.pending, by
      cases h.place with
      | opening h₁ h₂ h₃ h₄ => exact .opening h₁ h₂ h₃ h₄
      | beginning h₁ h₂ h₃ h₄ => exact .beginning h₁ h₂ h₃ h₄
      | batch h₁ h₂ h₃ h₄ h₅ => exact .batch h₁ h₂ h₃ h₄ h₅
      | failing older h₁ h₂ h₃ h₄ h₅ h₆ => exact .failing older h₁ h₂ h₃ h₄ h₅ h₆
      | ended h₁ h₂ h₃ h₄ h₅ => exact .ended h₁ h₂ h₃ h₄ h₅, h.late, h.marks, h.tokens⟩
  | main => exact inv_main h
  | «begin» => exact inv_begin h
  | subscribe sent => exact inv_subscribe h sent
  | endBatch => exact inv_endBatch h
  | acknowledge i => exact inv_acknowledge h i
  | thread j => exact inv_thread h j

theorem inv_run (a : App) (ws : Nat) (labels : List Label) : Inv (run (step cfg) (init a ws) labels) :=
  run_induction (P := Inv) (fun _ l h => inv_step h l) (inv_init a ws) labels

/-! ## Readiness -/

/-- Every subscription whose send succeeds has its acknowledgement. -/
def Acknowledged (w : Batch) : Prop := ∀ s ∈ w.subscriptions, s.sent = true → s.acknowledged = true

/-- The batch has ended, the acknowledgements have all come, and no call is under way. -/
structure Done (w : Batch) : Prop where
  ended : w.stage = .ended
  acknowledged : Acknowledged w
  returned : pendingActions w = []

theorem Inv.acknowledged {w : Batch} (h : Inv w) (hs : Settled w) : Acknowledged w := by
  intro s hm hsent
  have ho : s.outstanding = false := by
    have := List.countP_eq_zero.mp hs.2 s hm
    simpa using this
  simpa [Subscription.outstanding, h.not_rolledBack hm hsent] using ho

theorem Inv.settled {w : Batch} (h : Inv w) (he : w.stage = .ended) (ha : Acknowledged w) : Settled w := by
  refine ⟨he, List.countP_eq_zero.mpr ?_⟩
  intro s hm
  have hh : Handled w.subscriptions := by
    cases h.place with
    | opening h₁ => simp [h₁] at he
    | beginning h₁ => simp [h₁] at he
    | batch h₁ => simp [h₁] at he
    | failing _ h₁ => simp [h₁] at he
    | ended _ _ _ h₄ => exact h₄
  cases hsent : s.sent with
  | true => simp [Subscription.outstanding, ha s hm hsent]
  | false => simp [Subscription.outstanding, hh s hm, hsent]

theorem Inv.settled_of_connected {w : Batch} (h : Inv w) (hc : .connected ∈ w.log) : Settled w := by
  by_contra hn
  have hk := h.tokens
  rw [if_neg hn] at hk
  have := List.count_pos_iff.mpr hc
  omega

/-- In every state of every interleaving the counter is the number of the subscriptions
that are neither taken back nor acknowledged; `ws.connected` is not emitted before the
batch has ended and the last acknowledgement has come, nor twice; and once the calls
have returned it has been emitted. -/
theorem connected_once_all_acknowledged (cfg : Config) (a : App) (ws : Nat) (labels : List Label) :
    Throughout (step cfg) (fun w =>
      w.app._pendingSubscriptionAcks = outstanding w ∧
      w.log.count .connected ≤ 1 ∧
      (.connected ∈ w.log → w.stage = .ended ∧ Acknowledged w) ∧
      (Done w → w.log.count .connected = 1)) (init a ws) labels := by
  intro pre _
  have h : Inv (run (step cfg) (init a ws) pre) := inv_run a ws pre
  have hk := h.tokens
  refine ⟨h.pending, ?_, ?_, ?_⟩
  · by_cases hs : Settled (run (step cfg) (init a ws) pre)
    · rw [if_pos hs] at hk
      omega
    · rw [if_neg hs] at hk
      omega
  · intro hc
    have hs := h.settled_of_connected hc
    exact ⟨hs.1, h.acknowledged hs⟩
  · intro hd
    rw [if_pos (h.settled hd.ended hd.acknowledged), hd.returned] at hk
    simpa using hk

/-- The send of this subscription has raised: the handler has taken it back, or is about to. -/
def sendFailed (w : Batch) (i : Nat) (s : Subscription) : Bool :=
  s.rolledBack || decide (w.todo = [.rollBack] ∧ i + 1 = w.subscriptions.length)

/-- The subscriptions whose send has not failed and that are not acknowledged. -/
def awaited (w : Batch) : Nat :=
  w.subscriptions.zipIdx.countP fun (s, i) => !sendFailed w i s && !s.acknowledged

/-- A send has raised and its handler has not come to the lock. -/
def raisedSend : List Label :=
  [.main, .main, .main, .begin, .main, .subscribe false, .main, .main]

/-- Until then the counter counts the failed send. -/
theorem failed_send_counted :
    ¬ Throughout (step ⟨0, 0, 1, by decide, by decide⟩)
      (fun w => w.app._pendingSubscriptionAcks = awaited w) (init {} 7) raisedSend := by
  intro h
  exact absurd (throughout_last h) (by decide +kernel)

-- Two subscriptions, of which one fails; the acknowledgement overtakes its send.
example : (run (step ⟨0, 0, 1, by decide, by decide⟩) (init {} 7)
    [.main, .main, .main, .begin, .main, .subscribe true, .main, .acknowledge 0, .main, .subscribe false, .main,
      .main, .main, .endBatch, .main, .main, .main, .main]).log = [.flagged, .connected] := by
  decide +kernel

end WebSocketBatches
