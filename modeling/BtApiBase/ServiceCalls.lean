import BtApiBase.ConnectionOrigins
import BtApiBase.PyDictValues
import BtApiBase.PyText

/-!
# Calls of the market data, trading and account services

A call awaits the cache and the limiter, takes a connection, and gives it back in a `finally`
around what it awaits then. Every await may raise, be cancelled, or run into the timeout, and an
attempt that raises is made again after a delay. The calls interleave at their awaits and
share one connection service.
-/

namespace ServiceCalls

open PyText PyDict Runs ConnectionOrigins

variable {C O : Type}

/-- What a call returns. The price and the balances of the source are fixed, and the entries of
an order are its arguments `O`, with an id from the time and the symbol. -/
inductive Data (O : Type) where
  | ticker (symbol : PyStr) (price : Nat) (timestamp : Nat) (exchange : PyStr)
  | order (args : O) (exchange : PyStr) (timestamp : Nat)
  | balance (exchange : PyStr) (timestamp : Nat)
  deriving DecidableEq, Repr

inductive Await where
  | cacheGet (key : PyStr)
  | acquire (resource : PyStr)
  | cacheSet (key : PyStr) (ttl : Nat)
  | publish (event : PyStr)
  deriving DecidableEq, Repr

/-- A service method: what it awaits before `get_connection` and inside the `try`, and its
decorators. -/
structure Body (O : Type) where
  before : List Await
  inside : List Await
  maxAttempts : Nat
  timed : Bool
  data : Nat → Data O

inductive Method (O : Type) where
  | getTicker (symbol : PyStr) (useCache : Bool)
  | placeOrder (args : O)
  | getBalance (useCache : Bool)
  deriving DecidableEq, Repr

def colon : PyChar := .scalar ':'

/-- `f"ticker:{exchange_name}:{symbol}"` -/
def tickerKey (exchange symbol : PyStr) : PyStr := u "ticker:" ++ exchange ++ colon :: symbol

/-- `f"balance:{exchange_name}"` -/
def balanceKey (exchange : PyStr) : PyStr := u "balance:" ++ exchange

def getTicker (exchange symbol : PyStr) (useCache : Bool) : Body O where
  before := (if useCache then [.cacheGet (tickerKey exchange symbol)] else []) ++ [.acquire (u "ticker")]
  inside := (if useCache then [.cacheSet (tickerKey exchange symbol) 5] else []) ++
    [.publish (u "ticker_received")]
  maxAttempts := 3
  timed := true
  data now := .ticker symbol 50000 now exchange

def placeOrder (exchange : PyStr) (args : O) : Body O where
  before := [.acquire (u "order")]
  inside := [.publish (u "order_placed")]
  maxAttempts := 3
  timed := false
  data now := .order args exchange now

/-- It stores the balance also where it does not look for one. -/
def getBalance (exchange : PyStr) (useCache : Bool) : Body O where
  before := if useCache then [.cacheGet (balanceKey exchange)] else []
  inside := [.cacheSet (balanceKey exchange) 30, .publish (u "balance_updated")]
  maxAttempts := 1
  timed := false
  data now := .balance exchange now

def methodBody (exchange : PyStr) : Method O → Body O
  | .getTicker symbol useCache => getTicker exchange symbol useCache
  | .placeOrder args => placeOrder exchange args
  | .getBalance useCache => getBalance exchange useCache

/-- Where a call is; it is at the first of the awaits that are left. -/
inductive Place (C O : Type) where
  | before (left : List Await)
  | connecting
  | inside (semaphore : Nat) (conn : C) (data : Data O) (left : List Await)
  /-- Between two attempts. -/
  | sleeping
  | returned (data : Data O)
  | raised
  deriving DecidableEq, Repr

structure Call (C O : Type) where
  exchange : PyStr
  method : Method O
  attempt : Nat := 0
  place : Place C O := .sleeping
  deriving DecidableEq, Repr

def Call.body (c : Call C O) : Body O := methodBody c.exchange c.method

def Call.goTo (c : Call C O) (p : Place C O) : Call C O := { c with place := p }

structure World (C O : Type) where
  service : ConnectionServices.World PyStr C
  calls : Dict Nat (Call C O)
  /-- All that was stored in the cache. -/
  stored : List (PyStr × Data O)
  events : List (PyStr × Data O)

def init : World C O := ⟨ConnectionServices.init, .empty, [], []⟩

inductive Answer where
  /-- The cache has what was stored there at this index. -/
  | hit (index : Nat)
  | passed
  | raised
  deriving DecidableEq, Repr

inductive Label (C O : Type) where
  | begin (task : Nat) (exchange : PyStr) (method : Method O)
  | answer (task : Nat) (answer : Answer)
  /-- What a call awaits takes effect, whether or not the await returns. -/
  | effect (task : Nat)
  /-- A step inside the connection service, at a time. -/
  | service (l : ConnectionServices.Label PyStr C) (now : Nat)
  | closeAll (task : Nat)
  /-- The delay before the next attempt is over. -/
  | wakeUp (task : Nat)
  | timeout (task : Nat)
  | cancel (task : Nat)
  deriving DecidableEq, Repr

section

variable [DecidableEq C] (w : World C O)

def World.put (task : Nat) (c : Call C O) : World C O := { w with calls := w.calls.set task c }

/-- The awaits before the connection that are left; then `get_connection`. -/
def World.goOn (task : Nat) (c : Call C O) : List Await → World C O
  | [] => { w with
    service := ConnectionServices.step w.service (.call task (.getConnection c.exchange))
    calls := w.calls.set task (c.goTo .connecting) }
  | await :: left => w.put task (c.goTo (.before (await :: left)))

/-- An attempt has raised; `async_retry` sleeps or raises. -/
def Call.failed (c : Call C O) : Call C O :=
  if c.attempt + 1 < c.body.maxAttempts then { c with attempt := c.attempt + 1, place := .sleeping }
  else c.goTo .raised

def World.fail (task : Nat) (c : Call C O) : World C O := w.put task c.failed

/-- The `finally`. -/
def World.giveBack (c : Call C O) (conn : C) : World C O :=
  { w with service := ConnectionServices.step w.service (.release c.exchange (some conn)) }

/-- The awaits in the `try` that are left; then the call returns. -/
def World.goOnInside (task : Nat) (c : Call C O) (semaphore : Nat) (conn : C) (data : Data O) :
    List Await → World C O
  | [] => (w.giveBack c conn).put task (c.goTo (.returned data))
  | await :: left => w.put task (c.goTo (.inside semaphore conn data (await :: left)))

def World.note (data : Data O) : Await → World C O
  | .cacheSet key _ => { w with stored := w.stored ++ [(key, data)] }
  | .publish event => { w with events := w.events ++ [(event, data)] }
  | .cacheGet _ | .acquire _ => w

def World.answer (task : Nat) (answer : Answer) : World C O := match w.calls.get task with
  | none => w
  | some c => match c.place, answer with
    | .before (.cacheGet key :: _), .hit index => match w.stored[index]? with
      | some (key', data) => if key' = key then w.put task (c.goTo (.returned data)) else w
      | none => w
    | .before (_ :: left), .passed => w.goOn task c left
    | .before (_ :: _), .raised => w.fail task c
    | .inside semaphore conn data (await :: left), .passed =>
      (w.note data await).goOnInside task c semaphore conn data left
    | .inside _ conn _ (_ :: _), .raised => (w.giveBack c conn).fail task c
    | _, _ => w

def World.effect (task : Nat) : World C O := match w.calls.get task with
  | none => w
  | some c => match c.place with
    | .inside _ _ data (await :: _) => w.note data await
    | _ => w

/-- The call that waits for its connection has it, or `get_connection` has raised. -/
def World.absorb (now : Nat) : Option (ConnectionServices.Entry PyStr C) → World C O
  | some (.got task _ semaphore conn) => match w.calls.get task with
    | some c => match c.place with
      | .connecting => w.goOnInside task c semaphore conn (c.body.data now) c.body.inside
      | _ => w
    | none => w
  | some (.failed task) => match w.calls.get task with
    | some c => match c.place with
      | .connecting => w.fail task c
      | _ => w
    | none => w
  | _ => w

/-- The steps of the service that are not calls of its methods. -/
def inner : ConnectionServices.Label PyStr C → Bool
  | .configure _ _ _ | .enter _ | .wake _ | .closeNext _ => true
  | .call _ _ | .release _ _ | .cancel _ => false

/-- A call is left where it is: it gives its connection back, or leaves the service. -/
def World.interrupt (task : Nat) (c : Call C O) : World C O := match c.place with
  | .connecting => { w with service := ConnectionServices.step w.service (.cancel task) }
  | .inside _ conn _ _ => w.giveBack c conn
  | _ => w

/-- The call is in an attempt. -/
def Place.live : Place C O → Bool
  | .before _ | .connecting | .inside _ _ _ _ => true
  | .sleeping | .returned _ | .raised => false

def Place.over : Place C O → Bool
  | .returned _ | .raised => true
  | _ => false

def step (w : World C O) : Label C O → World C O
  | .begin task exchange method =>
    if (w.calls.get task).isSome ∨ w.service.busy task then w
    else w.goOn task { exchange, method } (methodBody exchange method).before
  | .answer task answer => w.answer task answer
  | .effect task => w.effect task
  | .service l now =>
    if inner l then
      let v := { w with service := ConnectionServices.step w.service l }
      v.absorb now v.service.log[w.service.log.length]?
    else w
  | .closeAll task =>
    if (w.calls.get task).isSome then w
    else { w with service := ConnectionServices.step w.service (.call task .closeAll) }
  | .wakeUp task => match w.calls.get task with
    | some c => match c.place with
      | .sleeping => w.goOn task c c.body.before
      | _ => w
    | none => w
  | .timeout task => match w.calls.get task with
    | some c => if c.body.timed ∧ c.place.live then (w.interrupt task c).fail task c else w
    | none => w
  | .cancel task => match w.calls.get task with
    | some c =>
      if c.place.over then w else (w.interrupt task c).put task (c.goTo .raised)
    | none => { w with service := ConnectionServices.step w.service (.cancel task) }

end

/-! ## Connections in hand -/

/-- The call has a connection that was taken under the semaphore. -/
def Call.uses (s : Nat) (c : Call C O) : Bool := match c.place with
  | .inside s' _ _ _ => s' = s
  | _ => false

/-- How many calls have a connection of the semaphore. -/
def inHand (w : World C O) (s : Nat) : Nat := w.calls.values.countP (Call.uses s)

/-- The calls in the connection service are those that wait for a connection of their exchange,
and the connections handed out are given back or in hand. -/
structure Kept (w : World C O) : Prop where
  accounted : ConnectionServices.Accounted w.service
  sourced : Sourced w.service
  locked : Locked w.service
  getting : ∀ task name, Pending w.service task (.getConnection name) →
    ∃ c, w.calls.get task = some c ∧ c.place = .connecting ∧ c.exchange = name
  closing : ∀ task, Pending w.service task .closeAll → w.calls.get task = none
  inside : ∀ task c s conn data left, w.calls.get task = some c → c.place = .inside s conn data left →
    ∃ t, .got t c.exchange s conn ∈ w.service.log
  level : ∀ name s, w.service._semaphores.get name = some s →
    ConnectionServices.handedOut w.service s = ConnectionServices.givenBack w.service s + inHand w s

section

variable {w : World C O}

theorem kept_init : Kept (init (C := C) (O := O)) := by
  refine ⟨ConnectionServices.accounted_init, sourced_init, locked_init, ?_, ?_, ?_, ?_⟩
  · simp [init, ConnectionServices.init, Pending]
  · simp [init, ConnectionServices.init, Pending]
  · simp [init]
  · simp [init, ConnectionServices.init]

/-- A semaphore that is there or not yet made is level. -/
theorem Kept.level_old (h : Kept w) {s : Nat}
    (hs : (∃ name, w.service._semaphores.get name = some s) ∨ w.service.nextSemaphore ≤ s) :
    ConnectionServices.handedOut w.service s = ConnectionServices.givenBack w.service s + inHand w s := by
  rcases hs with ⟨name, hs⟩ | hs
  · exact h.level name s hs
  · have hnone : inHand w s = 0 := by
      rw [inHand, List.countP_eq_zero]
      intro c hc huses
      obtain ⟨⟨task, c'⟩, hmem, rfl⟩ := List.mem_map.mp hc
      unfold Call.uses at huses
      split at huses
      · next u conn data left hplace =>
        obtain rfl : u = s := by simpa using huses
        obtain ⟨t, hgot⟩ := h.inside task c' u conn data left (w.calls.get_of_mem hmem) hplace
        have := h.sourced.made t _ u conn hgot
        omega
      · cases huses
    obtain ⟨-, hout, hback⟩ := h.accounted.fresh s hs
    omega

theorem inHand_put (w : World C O) (task : Nat) (c : Call C O) (s : Nat) :
    inHand (w.put task c) s + (if (w.calls.get task).any (Call.uses s) then 1 else 0) =
      inHand w s + (if c.uses s then 1 else 0) := Dict.countP_set w.calls task c (Call.uses s)

/-- The service has moved on, and one call with it. -/
theorem Kept.change (h : Kept w) {v : World C O} {task : Nat} {c' : Call C O}
    (hcalls : v.calls = w.calls.set task c') (ha : ConnectionServices.Accounted v.service)
    (hs : Sourced v.service) (hl : Locked v.service)
    (hpend : ∀ t r, Pending v.service t r → (Pending w.service t r ∧ t ≠ task) ∨
      (t = task ∧ r = .getConnection c'.exchange ∧ c'.place = .connecting))
    (hlog : ∀ t n s conn, .got t n s conn ∈ w.service.log → .got t n s conn ∈ v.service.log)
    (hinside : ∀ s conn data left, c'.place = .inside s conn data left →
      ∃ t, .got t c'.exchange s conn ∈ v.service.log)
    (hlevel : ∀ name s, v.service._semaphores.get name = some s →
      ConnectionServices.handedOut v.service s + (if (w.calls.get task).any (Call.uses s) then 1 else 0) =
        ConnectionServices.givenBack v.service s + inHand w s + (if c'.uses s then 1 else 0)) :
    Kept v := by
  refine ⟨ha, hs, hl, ?_, ?_, ?_, ?_⟩
  · intro t name hp
    rw [hcalls]
    rcases hpend t _ hp with ⟨hp, hne⟩ | ⟨rfl, hr, hplace⟩
    · obtain ⟨c, hc, hrest⟩ := h.getting t name hp
      exact ⟨c, by rw [Dict.get_set_other _ _ hne]; exact hc, hrest⟩
    · obtain rfl : name = c'.exchange := ConnectionServices.Request.getConnection.inj hr
      exact ⟨c', by simp, hplace, rfl⟩
  · intro t hp
    rw [hcalls]
    rcases hpend t _ hp with ⟨hp, hne⟩ | ⟨-, hr, -⟩
    · rw [Dict.get_set_other _ _ hne]
      exact h.closing t hp
    · cases hr
  · intro t c s conn data left hc hplace
    rw [hcalls] at hc
    by_cases hne : t = task
    · subst hne
      obtain rfl : c' = c := by simpa using hc
      exact hinside s conn data left hplace
    · rw [Dict.get_set_other _ _ hne] at hc
      obtain ⟨u, hgot⟩ := h.inside t c s conn data left hc hplace
      exact ⟨u, hlog _ _ _ _ hgot⟩
  · intro name s hsem
    have hcount := inHand_put w task c' s
    have hsame : inHand v s = inHand (w.put task c') s := by simp [inHand, World.put, hcalls]
    have := hlevel name s hsem
    rw [hsame]
    omega

/-- A call that has no connection and waits for none moves to a place of this kind. -/
theorem Kept.put (h : Kept w) {task : Nat} {c' : Call C O}
    (hout : ∀ r, ¬ Pending w.service task r)
    (hold : ∀ c, w.calls.get task = some c → ∀ s, c.uses s = false)
    (hnew : ∀ s conn data left, c'.place ≠ .inside s conn data left) : Kept (w.put task c') := by
  have huses : ∀ s, c'.uses s = false := by
    intro s
    unfold Call.uses
    split
    · next hplace => exact absurd hplace (hnew _ _ _ _)
    · rfl
  refine h.change rfl h.accounted h.sourced h.locked ?_ (fun _ _ _ _ hg => hg)
    (fun s conn data left hplace => absurd hplace (hnew s conn data left)) ?_
  · intro t r hp
    refine Or.inl ⟨hp, ?_⟩
    rintro rfl
    exact hout r hp
  · intro name s hs
    have hnone : (w.calls.get task).any (Call.uses s) = false := by
      cases hc : w.calls.get task with
      | none => rfl
      | some c => exact hold c hc s
    have hlevel := h.level name s hs
    have hservice : (w.put task c').service = w.service := rfl
    rw [hservice, hnone, huses s]
    simpa using hlevel

/-- No call moves; the service may be left, and a `close_all` may come. -/
theorem Kept.frame (h : Kept w) {v : World C O} (hcalls : v.calls = w.calls)
    (ha : ConnectionServices.Accounted v.service) (hs : Sourced v.service) (hl : Locked v.service)
    (hpend : ∀ t r, Pending v.service t r → Pending w.service t r ∨
      (r = .closeAll ∧ w.calls.get t = none))
    (hlog : ∀ t n s conn, .got t n s conn ∈ w.service.log → .got t n s conn ∈ v.service.log)
    (hlevel : ∀ name s, v.service._semaphores.get name = some s →
      ConnectionServices.handedOut v.service s = ConnectionServices.givenBack v.service s + inHand w s) :
    Kept v := by
  refine ⟨ha, hs, hl, ?_, ?_, ?_, ?_⟩
  · intro t name hp
    rw [hcalls]
    rcases hpend t _ hp with hp | ⟨hr, -⟩
    · exact h.getting t name hp
    · cases hr
  · intro t hp
    rw [hcalls]
    rcases hpend t _ hp with hp | ⟨-, hnone⟩
    · exact h.closing t hp
    · exact hnone
  · intro t c s conn data left hc hplace
    rw [hcalls] at hc
    obtain ⟨u, hgot⟩ := h.inside t c s conn data left hc hplace
    exact ⟨u, hlog _ _ _ _ hgot⟩
  · intro name s hsem
    have hsame : inHand v s = inHand w s := by rw [inHand, hcalls, inHand]
    rw [hsame]
    exact hlevel name s hsem

/-- A call that does not wait for a connection is in no call of the service. -/
theorem Kept.not_pending (h : Kept w) {task : Nat} {c : Call C O} (hc : w.calls.get task = some c)
    (hp : c.place ≠ .connecting) : ∀ r, ¬ Pending w.service task r := by
  rintro (name | _) hpend
  · obtain ⟨c', hc', hplace, -⟩ := h.getting task name hpend
    obtain rfl : c = c' := Option.some.inj (hc.symm.trans hc')
    exact hp hplace
  · have := h.closing task hpend
    rw [hc] at this
    cases this

theorem not_pending_of_busy {v : ConnectionServices.World PyStr C} {task : Nat}
    (h : ¬ v.busy task = true) : ∀ r, ¬ Pending v task r := by
  intro r hp
  refine h ?_
  rw [ConnectionServices.World.busy, Bool.or_eq_true]
  rcases hp with hin | ⟨holder, hlock, htask, -⟩
  · exact Or.inl (List.any_eq_true.mpr ⟨_, hin, by simp⟩)
  · exact Or.inr (by simp [hlock, htask])

theorem uses_of_place {c : Call C O} {s : Nat} {conn : C} {data : Data O} {left : List Await}
    (h : c.place = .inside s conn data left) (s' : Nat) : c.uses s' = decide (s = s') := by
  simp [Call.uses, h]

theorem not_uses {c : Call C O} (h : ∀ s conn data left, c.place ≠ .inside s conn data left) (s : Nat) :
    c.uses s = false := by
  unfold Call.uses
  split
  · next hplace => exact absurd hplace (h _ _ _ _)
  · rfl

theorem failed_place (c : Call C O) : c.failed.place = .sleeping ∨ c.failed.place = .raised := by
  unfold Call.failed
  split
  · exact Or.inl rfl
  · exact Or.inr rfl

theorem failed_ne_inside (c : Call C O) (s : Nat) (conn : C) (data : Data O) (left : List Await) :
    c.failed.place ≠ .inside s conn data left := by
  rcases failed_place c with h | h <;> simp [h]

variable [DecidableEq C]

/-- Awaits before the connection that are left, or a call of `get_connection`. -/
theorem Kept.goOn (h : Kept w) {task : Nat} (c : Call C O) (left : List Await)
    (hout : ∀ r, ¬ Pending w.service task r)
    (hold : ∀ c', w.calls.get task = some c' → ∀ s, c'.uses s = false) : Kept (w.goOn task c left) := by
  cases left with
  | cons await left => exact h.put hout hold (by simp [Call.goTo])
  | nil =>
    obtain ⟨hs, hl, ⟨hlog, hsem⟩, hpend⟩ := call_spec h.sourced h.locked task (.getConnection c.exchange)
    have ha := ConnectionServices.accounted_step h.accounted (.call task (.getConnection c.exchange))
    refine h.change rfl ha hs hl ?_ ?_ ?_ ?_
    · intro t r hp
      rcases hpend t r hp with hp' | ⟨rfl, rfl⟩
      · refine Or.inl ⟨hp', ?_⟩
        rintro rfl
        exact hout r hp'
      · exact Or.inr ⟨rfl, rfl, rfl⟩
    · intro t n s conn hgot
      exact hlog ▸ hgot
    · simp [Call.goTo]
    · intro name s hs'
      have hnone : (w.calls.get task).any (Call.uses s) = false := by
        cases hc : w.calls.get task with
        | none => rfl
        | some c' => exact hold c' hc s
      obtain ⟨hout', hback⟩ := counts_same hlog s
      have hlevel := h.level name s (hsem ▸ hs')
      have huses : (c.goTo .connecting).uses s = false := not_uses (by simp [Call.goTo]) s
      rw [hnone, huses]
      simp only [World.goOn, hout', hback]
      simpa using hlevel

/-- The call leaves the `try`. -/
theorem Kept.giveBack (h : Kept w) {task : Nat} {c c' : Call C O} {s : Nat} {conn : C} {data : Data O}
    {left : List Await} (hc : w.calls.get task = some c) (hplace : c.place = .inside s conn data left)
    (hnew : ∀ s conn data left, c'.place ≠ .inside s conn data left) :
    Kept ((w.giveBack c conn).put task c') := by
  obtain ⟨t, hgot⟩ := h.inside task c s conn data left hc hplace
  obtain ⟨hs, hl, hsem, hlog, hpend⟩ := release_spec h.sourced h.locked c.exchange (some conn)
  have hout := h.not_pending hc (by simp [hplace])
  have ha := ConnectionServices.accounted_step h.accounted (.release c.exchange (some conn))
  refine h.change rfl ha hs hl ?_ ?_ ?_ ?_
  · intro t r hp
    refine Or.inl ⟨hpend t r hp, ?_⟩
    rintro rfl
    exact hout r (hpend t r hp)
  · intro t n u conn' hin
    exact hlog _ hin
  · intro u conn' data' left' hp
    exact absurd hp (hnew u conn' data' left')
  · intro name s' hs'
    have hs'' : w.service._semaphores.get name = some s' := by
      rw [← hsem]
      exact hs'
    obtain ⟨hout', hback⟩ := release_counts h.sourced hgot hs''
    have hlevel := h.level name s' hs''
    have hservice : ((w.giveBack c conn).put task c').service =
        w.service.releaseConnection c.exchange (some conn) := rfl
    rw [hservice, hout', hback, hc, not_uses hnew s']
    simp only [Option.any_some, uses_of_place hplace s', decide_eq_true_eq, Bool.false_eq_true, if_false]
    by_cases he : s' = s
    · subst he
      simp only [↓reduceIte]
      omega
    · simp only [he, Ne.symm he, ↓reduceIte]
      omega

theorem Kept.goOnInside (h : Kept w) {task : Nat} {c : Call C O} {s : Nat} {conn : C}
    {data : Data O} {left : List Await} (hc : w.calls.get task = some c)
    (hplace : c.place = .inside s conn data left) (left' : List Await) :
    Kept (w.goOnInside task c s conn data left') := by
  cases left' with
  | nil => exact h.giveBack hc hplace (by simp [Call.goTo])
  | cons await left' =>
    refine h.change rfl h.accounted h.sourced h.locked ?_ (fun _ _ _ _ hg => hg) ?_ ?_
    · intro t r hp
      refine Or.inl ⟨hp, ?_⟩
      rintro rfl
      exact h.not_pending hc (by simp [hplace]) r hp
    · rintro u conn' data' left'' hp
      obtain ⟨rfl, rfl, -, -⟩ := Place.inside.inj hp
      exact h.inside task c s conn data left hc hplace
    · intro name s' hs'
      have hlevel := h.level name s' hs'
      have huses : (c.goTo (.inside s conn data (await :: left'))).uses s' = c.uses s' := by
        rw [uses_of_place rfl s', uses_of_place hplace s']
      have hservice : (w.goOnInside task c s conn data (await :: left')).service = w.service := rfl
      rw [hservice, hc, huses, Option.any_some]
      omega

omit [DecidableEq C] in
theorem note_same (w : World C O) (data : Data O) (await : Await) :
    (w.note data await).service = w.service ∧ (w.note data await).calls = w.calls := by
  cases await <;> exact ⟨rfl, rfl⟩

omit [DecidableEq C] in
theorem Kept.note (h : Kept w) (data : Data O) (await : Await) : Kept (w.note data await) := by
  obtain ⟨hs, hc⟩ := note_same w data await
  refine h.frame hc ?_ ?_ ?_ ?_ ?_ ?_
  · exact hs ▸ h.accounted
  · exact hs ▸ h.sourced
  · exact hs ▸ h.locked
  · exact fun t r hp => Or.inl (hs ▸ hp)
  · exact fun t n s conn hg => hs ▸ hg
  · rw [hs]
    exact h.level

/-- A call that is interrupted gives its connection back, or leaves the service. -/
theorem Kept.interrupt (h : Kept w) {task : Nat} {c c' : Call C O} (hc : w.calls.get task = some c)
    (hnew : ∀ s conn data left, c'.place ≠ .inside s conn data left) :
    Kept ((w.interrupt task c).put task c') := by
  have hquiet : (∀ s, c.uses s = false) → c.place ≠ .connecting → Kept (w.put task c') := by
    intro huses hplace
    refine h.put (h.not_pending hc hplace) ?_ hnew
    intro c'' hc'' s
    obtain rfl : c = c'' := Option.some.inj (hc.symm.trans hc'')
    exact huses s
  cases hplace : c.place with
  | inside s conn data left =>
    simp only [World.interrupt, hplace]
    exact h.giveBack hc hplace hnew
  | connecting =>
    simp only [World.interrupt, hplace]
    obtain ⟨hs, hl, hpend⟩ := cancel_spec h.sourced h.locked task
    obtain ⟨hsem, hlog⟩ := cancel_frame w.service task
    have ha := ConnectionServices.accounted_step h.accounted (.cancel task)
    have hcounts : ∀ s, ConnectionServices.handedOut (w.service.cancel task) s =
        ConnectionServices.handedOut w.service s ∧ ConnectionServices.givenBack (w.service.cancel task) s =
        ConnectionServices.givenBack w.service s := by
      intro s
      rcases hlog with hlog | hlog
      · exact counts_same hlog s
      · exact counts_entry hlog s
    refine h.change rfl ha hs hl (fun t r hp => Or.inl (hpend t r hp)) ?_ ?_ ?_
    · intro t n s conn hgot
      have hin : .got t n s conn ∈ (w.service.cancel task).log := by
        rcases hlog with hlog | hlog
        · rw [hlog]
          exact hgot
        · rw [hlog]
          exact List.mem_append_left _ hgot
      exact hin
    · intro s conn data left hp
      exact absurd hp (hnew s conn data left)
    · intro name s hs'
      have hlevel := h.level name s (hsem ▸ hs')
      have huses : c.uses s = false := by simp [Call.uses, hplace]
      simp only [World.put, ConnectionServices.step, (hcounts s).1, (hcounts s).2, hc, Option.any_some,
        huses, not_uses hnew s]
      simpa using hlevel
  | before | sleeping | returned | raised =>
    simp only [World.interrupt, hplace]
    exact hquiet (fun s => by simp [Call.uses, hplace]) (by simp [hplace])

omit [DecidableEq C] in
theorem inside_ne_nil (c : Call C O) : c.body.inside ≠ [] := by
  unfold Call.body methodBody
  split <;> simp [getTicker, placeOrder, getBalance]

/-- The service takes a step of its own, and a call that waits may have its connection. -/
theorem Kept.absorb (h : Kept w) {l : ConnectionServices.Label PyStr C} (now : Nat)
    (hs : Sourced (ConnectionServices.step w.service l)) (hl : Locked (ConnectionServices.step w.service l))
    (hadv : Advances w.service (ConnectionServices.step w.service l)) :
    Kept (World.absorb { w with service := ConnectionServices.step w.service l } now
      (ConnectionServices.step w.service l).log[w.service.log.length]?) := by
  have ha := ConnectionServices.accounted_step h.accounted l
  generalize ConnectionServices.step w.service l = v at hs hl hadv ha
  have hold : ∀ name s, v._semaphores.get name = some s → ConnectionServices.handedOut w.service s =
      ConnectionServices.givenBack w.service s + inHand w s := by
    intro name s hsem
    refine h.level_old ?_
    rcases hadv.semaphores name s hsem with hsem | hsem
    · exact Or.inl ⟨name, hsem⟩
    · exact Or.inr hsem
  -- an entry that hands nothing out leaves the semaphores level
  have hquiet : (∀ t n s conn, .got t n s conn ∈ w.service.log → .got t n s conn ∈ v.log) →
      (∀ s, ConnectionServices.handedOut v s = ConnectionServices.handedOut w.service s ∧
        ConnectionServices.givenBack v s = ConnectionServices.givenBack w.service s) →
      Kept { w with service := v } := by
    intro hgot hcounts
    refine h.frame rfl ha hs hl (fun t r hp => Or.inl (hadv.pending t r hp)) hgot ?_
    intro name s hsem
    rw [(hcounts s).1, (hcounts s).2]
    exact hold name s hsem
  rcases hadv.log with hlog | ⟨e, hlog, hends⟩
  · have hnone : v.log[w.service.log.length]? = none := by simp [hlog]
    rw [hnone]
    exact hquiet (fun _ _ _ _ hg => hlog ▸ hg) (counts_same hlog)
  · have hsome : v.log[w.service.log.length]? = some e := by simp [hlog]
    have hgot : ∀ t n s conn, .got t n s conn ∈ w.service.log → .got t n s conn ∈ v.log := by
      intro t n s conn hg
      rw [hlog]
      exact List.mem_append_left _ hg
    rw [hsome]
    cases e with
    | gaveBack s => exact absurd hends id
    | closed task => exact hquiet hgot (counts_entry hlog)
    | failed task =>
      obtain ⟨⟨r, hp⟩, hgone⟩ := hends
      cases r with
      | closeAll =>
        simp only [World.absorb, h.closing task hp]
        exact hquiet hgot (counts_entry hlog)
      | getConnection name =>
        obtain ⟨c, hc, hplace, -⟩ := h.getting task name hp
        simp only [World.absorb, hc, hplace]
        refine (hquiet hgot (counts_entry hlog)).put hgone ?_ (failed_ne_inside c)
        intro c'' hc'' s
        obtain rfl : c = c'' := Option.some.inj (hc.symm.trans hc'')
        simp [Call.uses, hplace]
    | got task name s conn =>
      obtain ⟨hp, hgone, hsem, -⟩ := hends
      obtain ⟨c, hc, hplace, rfl⟩ := h.getting task name hp
      simp only [World.absorb, hc, hplace]
      cases hbody : c.body.inside with
      | nil => exact absurd hbody (inside_ne_nil c)
      | cons await left =>
        refine h.change rfl ha hs hl ?_ hgot ?_ ?_
        · intro t r hp'
          refine Or.inl ⟨hadv.pending t r hp', ?_⟩
          rintro rfl
          exact hgone r hp'
        · rintro s' conn' data' left' hp'
          obtain ⟨rfl, rfl, -, -⟩ := Place.inside.inj hp'
          refine ⟨task, ?_⟩
          have hin : .got task c.exchange s conn ∈ v.log := by simp [hlog]
          exact hin
        · intro other s' hsem'
          have hlevel := hold other s' hsem'
          obtain ⟨hout, hback⟩ := counts_entry hlog s'
          simp only [ConnectionServices.Entry.hands, decide_eq_true_eq] at hout
          simp only [ConnectionServices.Entry.returns, Bool.false_eq_true, if_false] at hback
          have huses : (c.goTo (.inside s conn (c.body.data now) (await :: left))).uses s' =
              decide (s = s') := uses_of_place rfl s'
          have hno : c.uses s' = false := by simp [Call.uses, hplace]
          simp only [World.goOnInside, World.put, hout, hback, hc, Option.any_some, hno, huses,
            Bool.false_eq_true, if_false, decide_eq_true_eq]
          omega

/-- The pools that are set from outside are new ones. -/
def Configured (w : World C O) (l : Label C O) : Prop :=
  ∀ sl now, l = .service sl now → Fresh w.service sl

theorem inner_spec (h : Kept w) {l : ConnectionServices.Label PyStr C} (hl : inner l = true)
    (hf : Fresh w.service l) : Sourced (ConnectionServices.step w.service l) ∧
      Locked (ConnectionServices.step w.service l) ∧
      Advances w.service (ConnectionServices.step w.service l) := by
  have hsame : Sourced w.service ∧ Locked w.service ∧ Advances w.service w.service :=
    ⟨h.sourced, h.locked, ⟨fun _ _ hp => hp, fun _ _ hs => Or.inl hs, Or.inl rfl⟩⟩
  cases l with
  | configure name pool limit => exact configure_spec h.sourced h.locked hf
  | enter task => exact enter_spec h.sourced h.locked task
  | wake task =>
    simp only [ConnectionServices.step]
    split
    · next t name pool s hlock =>
      split
      · next hcond =>
        obtain ⟨rfl, -⟩ := hcond
        exact wake_spec h.sourced h.locked hlock
      · exact hsame
    · exact hsame
  | closeNext task =>
    simp only [ConnectionServices.step]
    split
    · next t index size hlock =>
      split
      · next ht =>
        subst ht
        exact closeNext_spec h.sourced h.locked hlock
      · exact hsame
    · exact hsame
  | call | release | cancel => cases hl

theorem kept_answer (h : Kept w) (task : Nat) (answer : Answer) : Kept (w.answer task answer) := by
  unfold World.answer
  split
  · exact h
  · next c hc =>
    have hquiet : ∀ await left, c.place = .before (await :: left) →
        (∀ r, ¬ Pending w.service task r) ∧
          ∀ c', w.calls.get task = some c' → ∀ s, c'.uses s = false := by
      intro await left hplace
      refine ⟨h.not_pending hc (by simp [hplace]), ?_⟩
      intro c' hc' s
      obtain rfl : c = c' := Option.some.inj (hc.symm.trans hc')
      simp [Call.uses, hplace]
    split
    · next key left index hplace =>
      obtain ⟨hout, hold⟩ := hquiet _ _ hplace
      split
      · split
        · exact h.put hout hold (by simp [Call.goTo])
        · exact h
      · exact h
    · next await left hplace =>
      obtain ⟨hout, hold⟩ := hquiet _ _ hplace
      exact h.goOn c left hout hold
    · next await left hplace =>
      obtain ⟨hout, hold⟩ := hquiet _ _ hplace
      exact h.put hout hold (failed_ne_inside c)
    · next s conn data await left hplace =>
      have hc' : (w.note data await).calls.get task = some c := by
        rw [(note_same w data await).2]
        exact hc
      exact (h.note data await).goOnInside hc' hplace left
    · next s conn data await left hplace => exact h.giveBack hc hplace (failed_ne_inside c)
    · exact h

theorem kept_step (h : Kept w) (l : Label C O) (hl : Configured w l) : Kept (step w l) := by
  cases l with
  | begin task exchange method =>
    simp only [step]
    split
    · exact h
    · next hfree =>
      obtain ⟨hnone, hbusy⟩ := not_or.mp hfree
      refine h.goOn _ _ (not_pending_of_busy hbusy) ?_
      intro c hc
      simp [hc] at hnone
  | answer task answer => exact kept_answer h task answer
  | effect task =>
    simp only [step, World.effect]
    split
    · exact h
    · split
      · exact h.note _ _
      · exact h
  | service l now =>
    simp only [step]
    split
    · next hinner =>
      obtain ⟨hs, hlock, hadv⟩ := inner_spec h hinner (hl l now rfl)
      exact h.absorb now hs hlock hadv
    · exact h
  | closeAll task =>
    simp only [step]
    split
    · exact h
    · next hnone =>
      obtain ⟨hs, hlock, ⟨hlog, hsem⟩, hpend⟩ := call_spec h.sourced h.locked task .closeAll
      have ha := ConnectionServices.accounted_step h.accounted (.call task .closeAll)
      refine h.frame rfl ha hs hlock ?_ (fun _ _ _ _ hg => hlog ▸ hg) ?_
      · intro t r hp
        rcases hpend t r hp with hp' | ⟨rfl, rfl⟩
        · exact Or.inl hp'
        · exact Or.inr ⟨rfl, by simpa using hnone⟩
      · intro name s hs'
        obtain ⟨hout, hback⟩ := counts_same hlog s
        rw [hout, hback]
        exact h.level name s (hsem ▸ hs')
  | wakeUp task =>
    simp only [step]
    split
    · next c hc =>
      split
      · next hplace =>
        refine h.goOn c _ (h.not_pending hc (by simp [hplace])) ?_
        intro c' hc' s
        obtain rfl : c = c' := Option.some.inj (hc.symm.trans hc')
        simp [Call.uses, hplace]
      · exact h
    · exact h
  | timeout task =>
    simp only [step]
    split
    · next c hc =>
      split
      · exact h.interrupt hc (failed_ne_inside c)
      · exact h
    · exact h
  | cancel task =>
    simp only [step]
    split
    · next c hc =>
      split
      · exact h
      · exact h.interrupt hc (by simp [Call.goTo])
    · obtain ⟨hs, hlock, hpend⟩ := cancel_spec h.sourced h.locked task
      obtain ⟨hsem, hlog⟩ := cancel_frame w.service task
      have ha := ConnectionServices.accounted_step h.accounted (.cancel task)
      have hgot : ∀ t n s conn, .got t n s conn ∈ w.service.log →
          .got t n s conn ∈ (w.service.cancel task).log := by
        intro t n s conn hg
        rcases hlog with hlog | hlog
        · exact hlog ▸ hg
        · rw [hlog]
          exact List.mem_append_left _ hg
      refine h.frame rfl ha hs hlock (fun t r hp => Or.inl (hpend t r hp).1) hgot ?_
      intro name s hs'
      have hcounts : ConnectionServices.handedOut (w.service.cancel task) s =
          ConnectionServices.handedOut w.service s ∧
          ConnectionServices.givenBack (w.service.cancel task) s =
          ConnectionServices.givenBack w.service s := by
        rcases hlog with hlog | hlog
        · exact counts_same hlog s
        · exact counts_entry hlog s
      simp only [ConnectionServices.step, hcounts.1, hcounts.2]
      exact h.level name s (hsem ▸ hs')

/-- Whatever raises, times out or is cancelled, the permits that an exchange misses are those of
the calls that have one of its connections. -/
theorem connections_balanced {as : List (Label C O)} (h : Meets step Configured init as) {name : PyStr}
    {s : Nat} (hs : (run step init as).service._semaphores.get name = some s) :
    (run step init as).service.permits s + inHand (run step init as) s =
      (run step init as).service.limit s := by
  have hkept : Kept (run step init as) :=
    throughout_last (throughout_of_meets (P := Kept) (fun _ l hk hl => kept_step hk l hl) kept_init h)
  have hsum := hkept.accounted.sum s
  have hlevel := hkept.level name s hs
  omega

end

/-- Two permits: the call of a ticker times out with its connection, and an order has another. -/
def timedOut : List (Label Nat Unit) :=
  [.service (.configure (u "OKX") { session := some (some 7) } 2) 0,
    .begin 0 (u "OKX") (.getTicker (u "BTC") true), .answer 0 .passed, .answer 0 .passed,
    .service (.enter 0) 5, .begin 1 (u "OKX") (.placeOrder ()), .answer 1 .passed,
    .service (.enter 1) 6, .timeout 0]

theorem connections_balanced_timedOut :
    (run step init timedOut).service.permits 0 + inHand (run step init timedOut) 0 =
      (run step init timedOut).service.limit 0 := by
  have h : Meets step Configured init timedOut := by
    simp [timedOut, meets_cons, meets_nil, Configured, Fresh, ConnectionServices.Pool.managed,
      ConnectionServices.Pool.handOut, init, ConnectionServices.init]
  have hs : (run step init timedOut).service._semaphores.get (u "OKX") = some 0 := by decide
  exact connections_balanced h hs

end ServiceCalls
