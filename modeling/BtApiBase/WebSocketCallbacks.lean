import BtApiBase.WebSocketFrames
import BtApiBase.PyDictWalks
import BtApiBase.Runs

/-!
# The callbacks of a data message

The processing task walks over the live table of subscriptions and awaits a callback in
the middle of the walk. The callback, and every other task meanwhile, may subscribe and
unsubscribe. What the iterator then raises is outside the handler around the callback and
is a `RuntimeError`, which the task does not go on after.
-/

namespace WebSocketCallbacks

open PyText PyValue WebSocketMessages WebSocketFrames PyDictWalks Runs

/-- What the processing task waits for: a message, or a callback in the middle of a walk. -/
inductive Loop where
  | waiting
  | calling (it : Iter)
  | ended
  deriving DecidableEq, Repr

/-- The table and the task, and the record of the last message that named a channel: what
was subscribed when it arrived, what the walk has come to, which callbacks were called,
and what was unsubscribed before the walk came to it. -/
structure World where
  _subscriptions : Table Subscription.id
  loop : Loop := .waiting
  channel : PyVal × PyVal := (.none, .none)
  arrived : List Subscription := []
  seen : List PyStr := []
  called : List Subscription := []
  unsubscribed : List Subscription := []

/-- A subscription of a known identifier takes the place of the old one, and a new one may
close the gaps in the table. -/
inductive Label where
  | arrive (message : PyVal)
  | subscribe (s : Subscription) (compacts : Bool)
  | unsubscribe (id : PyStr)
  /-- The callback has returned or raised; what it raises has a text, which is logged. -/
  | callbackEnds (raised : Bool)

/-- `topic and symbol` -/
def named (channel : PyVal × PyVal) : Bool := truthy channel.1 && truthy channel.2

/-- The test of the loop in `_handle_data_message`. -/
def isFor (channel : PyVal × PyVal) (s : Subscription) : Bool :=
  isStr s.topic channel.1 && isStr s.symbol channel.2 && s.callback.isSome

/-- The loop goes on until the next callback. The iterator never yields as often as `n`
says. -/
def World.walk (w : World) : Nat → Iter → World
  | 0, _ => w
  | n + 1, it =>
    match w._subscriptions.next it with
    | .done => { w with loop := .waiting }
    | .raised => { w with loop := .ended }
    | .item s it =>
      let w := { w with seen := w.seen ++ [s.id] }
      if isFor w.channel s then { w with called := w.called ++ [s], loop := .calling it }
      else w.walk n it

def World.goOn (w : World) (it : Iter) : World := w.walk (it.left + 1) it

/-- The channel of a message is named anew. -/
def World.begin (w : World) (channel : PyVal × PyVal) : World := { w with
  channel
  arrived := w._subscriptions.live
  seen := []
  called := []
  unsubscribed := [] }

section

variable (py : Interp) (exchange : PyStr)

/-- `_handle_data_message`; another exception than those the task goes on after ends it. -/
def World._handleDataMessage (w : World) (message : PyVal) : World :=
  match _extractTopicSymbol py exchange message with
  | .ok channel =>
    let w := w.begin channel
    if named channel then w.goOn w._subscriptions.iter else w
  | .error exc => if isCaught exc.type then w else { w with loop := .ended }

/-- `_subscriptions.pop`; what the walk has not come to is recorded. -/
def World.unsubscribe (w : World) (id : PyStr) : World := { w with
  _subscriptions := w._subscriptions.pop id
  unsubscribed := match w.loop with
    | .calling it => (w._subscriptions.ahead it).filter (·.id = id) ++ w.unsubscribed
    | _ => w.unsubscribed }

/-- A message is not taken from the socket before the walk is over. -/
def step (w : World) : Label → World
  | .arrive message =>
    match w.loop with
    | .waiting => w._handleDataMessage py exchange message
    | _ => w
  | .subscribe s compacts => { w with _subscriptions := w._subscriptions.put s compacts }
  | .unsubscribe id => w.unsubscribe id
  | .callbackEnds _ =>
    match w.loop with
    | .calling it => w.goOn it
    | _ => w

/-! ## What is promised, and when -/

/-- The task goes on, nothing is called twice for a message, and there is an end to the
calls; when the task is at the next message, every subscription of the last one's channel
has been called exactly once. -/
structure Served (w : World) : Prop where
  alive : w.loop ≠ .ended
  bounded : w.called.length ≤ w.arrived.length
  nodup : (w.called.map Subscription.id).Nodup
  once : w.loop = .waiting → named w.channel = true → ∀ s ∈ w.arrived, isFor w.channel s = true →
    s ∉ w.unsubscribed → w.called.filter (fun c => c.id = s.id) = [s]

/-- The task goes on after what the message raises, if it raises. -/
def readable (message : PyVal) : Bool :=
  match _extractTopicSymbol py exchange message with
  | .ok _ => true
  | .error exc => isCaught exc.type

/-- No insertion closes a gap in front of the walk, and none replaces what it will call;
when a callback ends, the table is as large as at the start and the walk has as many
subscriptions ahead as it expects. -/
def Steady (w : World) : Label → Prop
  | .arrive message => w.loop = .waiting → readable py exchange message = true
  | .subscribe s compacts => ∀ it, w.loop = .calling it → NoShift w._subscriptions it compacts ∧
      ∀ t ∈ w._subscriptions.ahead it, isFor w.channel t = true → t.id ≠ s.id
  | .unsubscribe _ => True
  | .callbackEnds _ => ∀ it, w.loop = .calling it → w._subscriptions.live.length = it.size ∧
      (w._subscriptions.ahead it).length = it.left

instance decidableCalling (loop : Loop) (P : Iter → Prop) [DecidablePred P] :
    Decidable (∀ it, loop = .calling it → P it) :=
  match loop with
  | .calling it => decidable_of_iff (P it) ⟨fun h _ he => by cases he; exact h, fun h => h it rfl⟩
  | .waiting => isTrue nofun
  | .ended => isTrue nofun

instance (w : World) : (a : Label) → Decidable (Steady py exchange w a)
  | .arrive _ => inferInstanceAs (Decidable (_ → _))
  | .subscribe _ _ => decidableCalling w.loop _
  | .unsubscribe _ => isTrue trivial
  | .callbackEnds _ => decidableCalling w.loop _

/-! ## The walk -/

/-- Between two steps of the iterator, with nothing changed since. -/
structure Standing (w : World) (it : Iter) : Prop where
  fits : Fits w._subscriptions it
  size : it.size = w.arrived.length
  seen : w.seen = (w._subscriptions.passed it).map Subscription.id
  called : (w.called.map Subscription.id).Sublist w.seen
  covered : ∀ s ∈ w.arrived, isFor w.channel s = true → s ∉ w.unsubscribed →
    s ∈ w.called ∨ s ∈ w._subscriptions.ahead it

/-- While a callback is awaited. -/
structure Going (w : World) (it : Iter) : Prop where
  pos : it.pos ≤ w._subscriptions.slots.length
  size : it.size = w.arrived.length
  seen_length : w.seen.length + it.left = it.size
  seen_nodup : w.seen.Nodup
  passed : ((w._subscriptions.passed it).map Subscription.id).Sublist w.seen
  called : (w.called.map Subscription.id).Sublist w.seen
  covered : ∀ s ∈ w.arrived, isFor w.channel s = true → s ∉ w.unsubscribed →
    s ∈ w.called ∨ s ∈ w._subscriptions.ahead it

/-- After the walk. -/
structure Done (w : World) : Prop where
  bounded : w.called.length ≤ w.arrived.length
  nodup : (w.called.map Subscription.id).Nodup
  covered : named w.channel = true → ∀ s ∈ w.arrived, isFor w.channel s = true →
    s ∉ w.unsubscribed → s ∈ w.called

def Kept (w : World) : Prop :=
  match w.loop with
  | .waiting => Done w
  | .calling it => Going w it
  | .ended => False

theorem kept_waiting {w : World} (h : w.loop = .waiting) : Kept w ↔ Done w := by
  unfold Kept
  rw [h]

theorem kept_calling {w : World} {it : Iter} (h : w.loop = .calling it) : Kept w ↔ Going w it := by
  unfold Kept
  rw [h]

theorem not_kept_ended {w : World} (h : w.loop = .ended) : ¬ Kept w := by
  unfold Kept
  rw [h]
  exact id

theorem Standing.length {w : World} {it : Iter} (h : Standing w it) :
    w.seen.length + it.left = it.size := by
  have hlive := congrArg List.length (passed_append_ahead w._subscriptions it)
  rw [List.length_append, h.fits.left, h.fits.size] at hlive
  rw [h.seen, List.length_map, hlive]

theorem Standing.nodup {w : World} {it : Iter} (h : Standing w it) : w.seen.Nodup := by
  rw [h.seen]
  exact (List.nodup_append.mp (disjoint_ahead w._subscriptions it)).1

theorem Standing.going {w : World} {it : Iter} (h : Standing w it) (loop : Loop) :
    Going { w with loop } it where
  pos := h.fits.pos
  size := h.size
  seen_length := h.length
  seen_nodup := h.nodup
  passed := h.seen ▸ List.Sublist.refl _
  called := h.called
  covered := h.covered

/-- The walk is over and has called what it was to call. -/
theorem Standing.done {w : World} {it : Iter} (h : Standing w it)
    (hahead : w._subscriptions.ahead it = []) : Done { w with loop := .waiting } where
  bounded := by
    have hlen := h.length
    have hcalled := h.called.length_le
    have hsize := h.size
    rw [List.length_map] at hcalled
    change w.called.length ≤ w.arrived.length
    omega
  nodup := h.called.nodup h.nodup
  covered _ s hs hfor hun := by
    rcases h.covered s hs hfor hun with hcalled | hmem
    · exact hcalled
    · rw [hahead] at hmem
      cases hmem

/-- The iterator comes to one more subscription, which is called if it is for the channel. -/
theorem Standing.item {w : World} {it it' : Iter} {s : Subscription} (h : Standing w it)
    (hnext : w._subscriptions.next it = .item s it') :
    Standing { w with
      seen := w.seen ++ [s.id]
      called := w.called ++ if isFor w.channel s then [s] else [] } it' := by
  obtain ⟨hfits, hahead, hpassed, -⟩ := next_item hnext h.fits
  have hsize : it'.size = it.size := hfits.size.symm.trans h.fits.size
  constructor
  · exact hfits
  · exact hsize.trans h.size
  · dsimp only
    rw [hpassed, List.map_append, h.seen]
    rfl
  · dsimp only
    rw [List.map_append]
    refine h.called.append ?_
    split
    · exact List.Sublist.refl _
    · exact List.nil_sublist _
  · intro t ht hfor hun
    dsimp only at ht hfor hun ⊢
    rcases h.covered t ht hfor hun with hcalled | hmem
    · exact Or.inl (List.mem_append_left _ hcalled)
    · rw [hahead] at hmem
      cases hmem with
      | head =>
        rw [if_pos hfor]
        exact Or.inl (List.mem_append_right _ (List.mem_singleton_self _))
      | tail _ hmem => exact Or.inr hmem

theorem kept_walk {w : World} {n : Nat} {it : Iter} (h : Standing w it) (hn : it.left < n) :
    Kept (w.walk n it) := by
  induction n generalizing w it with
  | zero => omega
  | succ n ih =>
    unfold World.walk
    cases hnext : w._subscriptions.next it with
    | done => exact h.done (next_done hnext)
    | raised => exact absurd hnext (next_ne_raised h.fits)
    | item s it' =>
      have hitem := h.item hnext
      have hleft := (next_item hnext h.fits).2.2.2
      dsimp only
      cases hfor : isFor w.channel s with
      | true =>
        rw [hfor, if_pos rfl] at hitem
        rw [if_pos rfl]
        exact hitem.going (.calling it')
      | false =>
        rw [hfor, if_neg Bool.false_ne_true, List.append_nil] at hitem
        rw [if_neg Bool.false_ne_true]
        exact ih hitem (by omega)

theorem kept_goOn {w : World} {it : Iter} (h : Standing w it) : Kept (w.goOn it) :=
  kept_walk h (Nat.lt_succ_self _)

/-- A walk that starts has everything ahead. -/
theorem standing_begin (w : World) (channel : PyVal × PyVal) :
    Standing (w.begin channel) w._subscriptions.iter where
  fits := fits_iter _
  size := rfl
  seen := rfl
  called := List.Sublist.refl _
  covered _ hs _ _ := Or.inr hs

/-- When a callback ends and the table still fits, nothing that the walk has come past is
gone. -/
theorem Going.standing {w : World} {it : Iter} (h : Going w it)
    (hsize : w._subscriptions.live.length = it.size)
    (hleft : (w._subscriptions.ahead it).length = it.left) : Standing w it where
  fits := ⟨hsize, hleft, h.pos⟩
  size := h.size
  seen := by
    have hlive := congrArg List.length (passed_append_ahead w._subscriptions it)
    rw [List.length_append, hleft, hsize] at hlive
    have hlen := h.seen_length
    refine (h.passed.eq_of_length ?_).symm
    rw [List.length_map]
    omega
  called := h.called
  covered := h.covered

/-! ## Changes during a callback -/

theorem Going.subscribe {w : World} {it : Iter} (h : Going w it) (s : Subscription)
    {compacts : Bool} (hshift : NoShift w._subscriptions it compacts)
    (hnew : ∀ t ∈ w._subscriptions.ahead it, isFor w.channel t = true → t.id ≠ s.id) :
    Going { w with _subscriptions := w._subscriptions.put s compacts } it where
  pos := pos_le_put hshift h.pos s
  size := h.size
  seen_length := h.seen_length
  seen_nodup := h.seen_nodup
  passed := (passed_put hshift h.pos s).symm ▸ h.passed
  called := h.called
  covered t ht hfor hun := (h.covered t ht hfor hun).imp_right fun hmem =>
    mem_ahead_put hshift h.pos hmem (hnew t hmem hfor)

/-- What is ahead and unsubscribed is recorded. -/
theorem Going.unsubscribe {w : World} {it : Iter} (h : Going w it) (hloop : w.loop = .calling it)
    (id : PyStr) : Going (w.unsubscribe id) it := by
  have hun : (w.unsubscribe id).unsubscribed =
      (w._subscriptions.ahead it).filter (·.id = id) ++ w.unsubscribed := by
    unfold World.unsubscribe
    rw [hloop]
  constructor
  · exact (length_pop w._subscriptions id).symm ▸ h.pos
  · exact h.size
  · exact h.seen_length
  · exact h.seen_nodup
  · have hsub : ((w._subscriptions.pop id).passed it).Sublist (w._subscriptions.passed it) := by
      rw [passed_pop]
      exact List.filter_sublist
    exact (hsub.map Subscription.id).trans h.passed
  · exact h.called
  · intro t ht hfor hnot
    rw [hun, List.mem_append, not_or] at hnot
    refine (h.covered t ht hfor hnot.2).imp_right fun hmem => ?_
    have hid : t.id ≠ id := fun he => hnot.1 (List.mem_filter.mpr ⟨hmem, decide_eq_true he⟩)
    change t ∈ (w._subscriptions.pop id).ahead it
    rw [ahead_pop]
    exact List.mem_filter.mpr ⟨hmem, decide_eq_true hid⟩

/-! ## Runs -/

theorem kept_handleDataMessage {w : World} (h : Done w) (hloop : w.loop = .waiting) (message : PyVal)
    (hread : readable py exchange message = true) :
    Kept (w._handleDataMessage py exchange message) := by
  unfold readable at hread
  unfold World._handleDataMessage
  cases he : _extractTopicSymbol py exchange message with
  | error exc =>
    rw [he] at hread
    dsimp only at hread ⊢
    rw [if_pos hread]
    exact (kept_waiting hloop).mpr h
  | ok channel =>
    dsimp only
    split
    · exact kept_goOn (standing_begin w channel)
    · next hnamed =>
      have hbegin : (w.begin channel).loop = .waiting := hloop
      exact (kept_waiting hbegin).mpr ⟨Nat.zero_le _, List.nodup_nil, fun hn => absurd hn hnamed⟩

/-- A change of the table between two messages is not the concern of the last one. -/
theorem Done.of_eq {w w' : World} (h : Done w) (hchannel : w'.channel = w.channel)
    (harrived : w'.arrived = w.arrived) (hcalled : w'.called = w.called)
    (hun : w'.unsubscribed = w.unsubscribed) : Done w' := by
  constructor
  · rw [hcalled, harrived]
    exact h.bounded
  · rw [hcalled]
    exact h.nodup
  · rw [hchannel, harrived, hcalled, hun]
    exact h.covered

theorem step_arrive {w : World} (hloop : w.loop = .waiting) (message : PyVal) :
    step py exchange w (.arrive message) = w._handleDataMessage py exchange message := by
  unfold step
  rw [hloop]

theorem step_arrive_calling {w : World} {it : Iter} (hloop : w.loop = .calling it)
    (message : PyVal) : step py exchange w (.arrive message) = w := by
  unfold step
  rw [hloop]

theorem step_callbackEnds {w : World} {it : Iter} (hloop : w.loop = .calling it) (raised : Bool) :
    step py exchange w (.callbackEnds raised) = w.goOn it := by
  unfold step
  rw [hloop]

theorem step_callbackEnds_waiting {w : World} (hloop : w.loop = .waiting) (raised : Bool) :
    step py exchange w (.callbackEnds raised) = w := by
  unfold step
  rw [hloop]

theorem kept_step_waiting {w : World} (h : Done w) (hloop : w.loop = .waiting) (a : Label)
    (hs : Steady py exchange w a) : Kept (step py exchange w a) := by
  cases a with
  | arrive message =>
    rw [step_arrive py exchange hloop]
    exact kept_handleDataMessage py exchange h hloop message (hs hloop)
  | subscribe s compacts =>
    have hnext : (step py exchange w (.subscribe s compacts)).loop = .waiting := hloop
    exact (kept_waiting hnext).mpr (h.of_eq rfl rfl rfl rfl)
  | unsubscribe id =>
    have hnext : (step py exchange w (.unsubscribe id)).loop = .waiting := hloop
    have hun : (w.unsubscribe id).unsubscribed = w.unsubscribed := by
      unfold World.unsubscribe
      rw [hloop]
    exact (kept_waiting hnext).mpr (h.of_eq rfl rfl rfl hun)
  | callbackEnds raised =>
    rw [step_callbackEnds_waiting py exchange hloop]
    exact (kept_waiting hloop).mpr h

theorem kept_step_calling {w : World} {it : Iter} (h : Going w it) (hloop : w.loop = .calling it)
    (a : Label) (hs : Steady py exchange w a) : Kept (step py exchange w a) := by
  cases a with
  | arrive message =>
    rw [step_arrive_calling py exchange hloop]
    exact (kept_calling hloop).mpr h
  | subscribe s compacts =>
    obtain ⟨hshift, hnew⟩ := hs it hloop
    have hnext : (step py exchange w (.subscribe s compacts)).loop = .calling it := hloop
    exact (kept_calling hnext).mpr (h.subscribe s hshift hnew)
  | unsubscribe id =>
    have hnext : (step py exchange w (.unsubscribe id)).loop = .calling it := hloop
    exact (kept_calling hnext).mpr (h.unsubscribe hloop id)
  | callbackEnds raised =>
    obtain ⟨hsize, hleft⟩ := hs it hloop
    rw [step_callbackEnds py exchange hloop]
    exact kept_goOn (h.standing hsize hleft)

theorem kept_step {w : World} (h : Kept w) (a : Label) (hs : Steady py exchange w a) :
    Kept (step py exchange w a) := by
  cases hloop : w.loop with
  | waiting => exact kept_step_waiting py exchange ((kept_waiting hloop).mp h) hloop a hs
  | calling it => exact kept_step_calling py exchange ((kept_calling hloop).mp h) hloop a hs
  | ended => exact absurd h (not_kept_ended hloop)

theorem served_of_kept {w : World} (h : Kept w) : Served w := by
  cases hloop : w.loop with
  | ended => exact absurd h (not_kept_ended hloop)
  | calling it =>
    have hgoing := (kept_calling hloop).mp h
    have hcalled := hgoing.called.length_le
    have hlen := hgoing.seen_length
    have hsize := hgoing.size
    rw [List.length_map] at hcalled
    exact ⟨by simp [hloop], by omega, hgoing.called.nodup hgoing.seen_nodup, by simp [hloop]⟩
  | waiting =>
    have hdone := (kept_waiting hloop).mp h
    exact ⟨by simp [hloop], hdone.bounded, hdone.nodup, fun _ hn s hs hfor hun =>
      filter_key hdone.nodup (hdone.covered hn s hs hfor hun)⟩

/-- A connection that has handled no data message. -/
def World.start (_subscriptions : Table Subscription.id) : World := { _subscriptions }

theorem kept_start (table : Table Subscription.id) : Kept (World.start table) :=
  (⟨Nat.zero_le _, List.nodup_nil, nofun⟩ : Done (World.start table))

/-- In a run whose steps are all steady the task goes on and every callback is called. -/
theorem served_of_steady (table : Table Subscription.id) (as : List Label)
    (h : Meets (step py exchange) (Steady py exchange) (.start table) as) :
    Throughout (step py exchange) Served (.start table) as := by
  have hkept : Throughout (step py exchange) Kept (.start table) as :=
    throughout_of_meets (P := Kept) (fun _ a hk hs => kept_step py exchange hk a hs)
      (kept_start table) h
  exact fun pre hp => served_of_kept (hkept pre hp)

def trade (id : PyStr) (topic : PyStr) : Subscription := ⟨id, topic, "BTCUSDT", [], some fun _ => .ok ()⟩

def tradeMessage : PyVal := .dict [(.str "stream", .str "btcusdt@trade"), (.str "data", .none)]

def trades : Table Subscription.id where
  slots := [some (trade "1" "trade"), some (trade "2" "trade"), some (trade "3" "depth")]
  unique := by decide

/-- A subscription that is not for the message is exchanged for one that is. -/
theorem served_exchanged :
    Throughout (step .ascii "BINANCE") Served (.start trades)
      [.arrive tradeMessage, .unsubscribe "3", .subscribe (trade "4" "trade") false,
        .callbackEnds true, .callbackEnds false, .callbackEnds false] :=
  served_of_steady .ascii "BINANCE" trades _ (by decide +kernel)

example : (run (step .ascii "BINANCE") (.start trades)
    [.arrive tradeMessage, .unsubscribe "3", .subscribe (trade "4" "trade") false,
      .callbackEnds true, .callbackEnds false, .callbackEnds false]).called.map Subscription.id =
    ["1", "2", "4"] := by
  decide +kernel

/-- The first callback cancels its own subscription; the second is never called. -/
theorem cancelled_itself :
    ¬ ∀ as, Throughout (step .ascii "BINANCE") Served (.start trades) as := by
  intro h
  have hserved := throughout_last (h [.arrive tradeMessage, .unsubscribe "1", .callbackEnds false])
  exact hserved.alive (by decide +kernel)

/-- Another size of the table at the end of a callback ends the task. -/
theorem ended_of_size {w : World} {it : Iter} (hloop : w.loop = .calling it)
    (hsize : w._subscriptions.live.length ≠ it.size) (raised : Bool) :
    (step py exchange w (.callbackEnds raised)).loop = .ended := by
  rw [step_callbackEnds py exchange hloop]
  unfold World.goOn World.walk
  rw [next_raised_of_size hsize]

/-! ## Messages while nothing changes -/

theorem dispatch_fst (subscriptions : List Subscription) (topic symbol message : PyVal)
    (hnamed : named (topic, symbol) = true) :
    (dispatch subscriptions topic symbol message).map Prod.fst =
      subscriptions.filter (isFor (topic, symbol)) := by
  have htruthy : (truthy topic && truthy symbol) = true := hnamed
  unfold dispatch
  rw [if_pos htruthy]
  induction subscriptions with
  | nil => rfl
  | cons s subscriptions ih =>
    have hfor : isFor (topic, symbol) s =
        (isStr s.topic topic && isStr s.symbol symbol && s.callback.isSome) := rfl
    rw [List.filterMap_cons, List.filter_cons, hfor]
    cases hchannel : (isStr s.topic topic && isStr s.symbol symbol) with
    | false => simpa using ih
    | true =>
      cases hcallback : s.callback with
      | none => simpa using ih
      | some callback => simpa using ih

/-- The walk has called what is for the channel, or waits for a call and will. -/
structure Calls (w : World) (table : Table Subscription.id) (channel : PyVal × PyVal)
    (calls : List Subscription) : Prop where
  same : w._subscriptions = table
  named : w.channel = channel
  finished : w.loop = .waiting → w.called = calls
  going : ∀ it, w.loop = .calling it →
    Fits table it ∧ w.called ++ (table.ahead it).filter (isFor channel) = calls
  alive : w.loop ≠ .ended

theorem calls_walk {w : World} {n : Nat} {it : Iter} (hf : Fits w._subscriptions it)
    (hn : it.left < n) :
    Calls (w.walk n it) w._subscriptions w.channel
        (w.called ++ (w._subscriptions.ahead it).filter (isFor w.channel)) ∧
      ∀ it', (w.walk n it).loop = .calling it' → it'.left < it.left := by
  induction n generalizing w it with
  | zero => omega
  | succ n ih =>
    unfold World.walk
    cases hnext : w._subscriptions.next it with
    | done =>
      rw [next_done hnext, List.filter_nil, List.append_nil]
      exact ⟨⟨rfl, rfl, fun _ => rfl, nofun, nofun⟩, nofun⟩
    | raised => exact absurd hnext (next_ne_raised hf)
    | item s it' =>
      obtain ⟨hfits, hahead, -, hleft⟩ := next_item hnext hf
      rw [hahead]
      dsimp only
      cases hfor : isFor w.channel s with
      | true =>
        rw [if_pos rfl, List.filter_cons_of_pos hfor]
        refine ⟨⟨rfl, rfl, nofun, ?_, nofun⟩, ?_⟩
        · rintro _ ⟨⟩
          exact ⟨hfits, by simp⟩
        · rintro _ ⟨⟩
          exact hleft
      | false =>
        rw [if_neg Bool.false_ne_true, List.filter_cons_of_neg (by simp [hfor])]
        obtain ⟨hcalls, hless⟩ := ih (w := { w with seen := w.seen ++ [s.id] }) hfits (by omega)
        exact ⟨hcalls, fun it'' h => (hless it'' h).trans hleft⟩

/-- As many callbacks end as the walk can still come to, and the task is at the next
message. -/
theorem run_callbackEnds {w : World} {table : Table Subscription.id} {channel : PyVal × PyVal}
    {calls : List Subscription} (h : Calls w table channel calls) (ends : List Bool)
    (hlen : ∀ it, w.loop = .calling it → it.left < ends.length) :
    Calls (run (step py exchange) w (ends.map .callbackEnds)) table channel calls ∧
      (run (step py exchange) w (ends.map .callbackEnds)).loop = .waiting := by
  induction ends generalizing w with
  | nil =>
    refine ⟨h, ?_⟩
    change w.loop = .waiting
    cases hloop : w.loop with
    | waiting => rfl
    | calling it => exact absurd (hlen it hloop) (Nat.not_lt_zero _)
    | ended => exact absurd hloop h.alive
  | cons raised ends ih =>
    rw [List.map_cons, run_cons]
    cases hloop : w.loop with
    | ended => exact absurd hloop h.alive
    | waiting =>
      rw [step_callbackEnds_waiting py exchange hloop]
      exact ih h fun it hit => by simp [hloop] at hit
    | calling it =>
      obtain ⟨hfits, hrest⟩ := h.going it hloop
      obtain ⟨hcalls, hless⟩ :=
        calls_walk (w := w) (h.same ▸ hfits) (Nat.lt_succ_self it.left)
      rw [h.same, h.named, hrest] at hcalls
      have hbound := hlen it hloop
      rw [List.length_cons] at hbound
      rw [step_callbackEnds py exchange hloop]
      exact ih hcalls fun it' hit' => by
        have := hless it' hit'
        omega

/-- While nothing changes the task calls what `dispatch` says and goes on. -/
theorem called_undisturbed {w : World} (hloop : w.loop = .waiting) {message topic symbol : PyVal}
    (he : _extractTopicSymbol py exchange message = .ok (topic, symbol))
    (hnamed : named (topic, symbol) = true) (ends : List Bool)
    (hlen : w._subscriptions.live.length ≤ ends.length) :
    let w' := run (step py exchange) w (.arrive message :: ends.map .callbackEnds)
    w'.loop = .waiting ∧
      w'.called = (dispatch w._subscriptions.live topic symbol message).map Prod.fst := by
  have hstep : step py exchange w (.arrive message) =
      (w.begin (topic, symbol)).goOn w._subscriptions.iter := by
    rw [step_arrive py exchange hloop]
    unfold World._handleDataMessage
    rw [he]
    exact if_pos hnamed
  obtain ⟨hcalls, hless⟩ := calls_walk (w := w.begin (topic, symbol)) (fits_iter w._subscriptions)
    (Nat.lt_succ_self _)
  obtain ⟨hend, hwaiting⟩ := run_callbackEnds py exchange hcalls ends fun it hit =>
    (hless it hit).trans_le hlen
  dsimp only
  rw [run_cons, hstep, dispatch_fst _ _ _ _ hnamed]
  exact ⟨hwaiting, hend.finished hwaiting⟩

end

end WebSocketCallbacks
