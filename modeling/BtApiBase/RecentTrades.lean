import BtApiBase.RuntimeFrame
import BtApiBase.Runs
import Mathlib.Data.List.DropRight

/-!
# Recent trades

The runtime keeps the last trade events that it has flushed, and answers `get_trades` from them
if the adapter has no rows of its own. Over any run what it keeps is the end of the history of
the trades, and so is the answer, row by row.
-/

namespace RecentTrades

open PyText PyDict PyValue Effects Health Protocol OrderMap OrderMatching OrderRef RuntimeRemote RuntimeFrame Runs

/-- `GatewayRuntime.__init__`, with the limit that it is given for the recent trades. -/
def configured (py : Interp) (allocator : Option OrderRefAllocator) (kwargs : PyMap) :
    Except PyExc GatewayRuntime := do
  let limit ← py.int (orElse (kwargs.get "recent_trades_limit") (.int 1000))
  .ok { create allocator with recentTradesLimit := (max limit 1).toNat }

/-- What happens to a runtime; `start`, `stop` and the connect thread do nothing to it but
set its flags and its health. -/
inductive Act where
  | turn (env : Env) (received : Option Message)
  | flush (env : Env)
  | dispatch (env : Env) (command : PyStr) (payload : PyMap)
  | flags (running connected sockets : Bool) (health : GatewayHealth)

def step (s : GatewayRuntime) : Act → GatewayRuntime
  | .turn env received => (exec (loopOnce env received) s).2
  | .flush env => (exec (_flushAdapterOutput env env.adapter.output) s).2
  | .dispatch env command payload => (exec (_dispatch env command payload) s).2
  | .flags running connected sockets health =>
    { s with running := running, _adapterConnected := connected, sockets := sockets, health := health }

/-! ## The history -/

/-- The event that is handed to `_publish` for an item, if it is one. -/
def eventOf (py : Interp) (m : OrderIdentityMap) (channel payload : PyVal) : List PyVal :=
  if isStr CHANNEL_MARKET channel then []
  else if isStr CHANNEL_EVENT channel then [(_enrichEventPayload py m payload).1]
  else []

/-- The events of a flush; the first failure ends it. -/
def flushed (env : Env) : GatewayRuntime → List (Except PyExc PyVal) → List PyVal
  | _, [] | _, .error _ :: _ | _, .ok .none :: _ => []
  | s, .ok item :: output =>
    match unpack item with
    | .error _ => []
    | .ok (channel, payload) => eventOf env.py s.orderMap channel payload ++
      match exec (flushItem env channel payload) s with
      | (.ok _, s') => flushed env s' output
      | (.error _, _) => []

/-- The events that are trades. -/
def tradesAmong (env : Env) (events : List PyVal) : List PyMap :=
  events.filterMap fun
    | .dict event => if env.py.lower (strip (textOr env event "kind" "")) = u "trade" then some event else none
    | _ => none

@[simp] theorem tradesAmong_nil (env : Env) : tradesAmong env [] = [] := rfl

@[simp] theorem tradesAmong_append (env : Env) (events events' : List PyVal) :
    tradesAmong env (events ++ events') = tradesAmong env events ++ tradesAmong env events' :=
  List.filterMap_append

def tradesOf (s : GatewayRuntime) : Act → List PyMap
  | .turn env received =>
    match exec (_handleCommands env received) s with
    | (.ok _, s') =>
      if s'._adapterConnected then tradesAmong env (flushed env s' env.adapter.output) else []
    | (.error _, _) => []
  | .flush env => tradesAmong env (flushed env s env.adapter.output)
  | .dispatch _ _ _ | .flags _ _ _ _ => []

/-- The trade events of a run, the oldest first. -/
def history : GatewayRuntime → List Act → List PyMap
  | _, [] => []
  | s, a :: acts => tradesOf s a ++ history (step s a) acts

/-! ## What is kept -/

theorem rtake_append_rtake {α : Type} (n : Nat) (l l' : List α) : (l.rtake n ++ l').rtake n = (l ++ l').rtake n := by
  have hle : n - l'.length ≤ n := Nat.sub_le _ _
  simp only [List.rtake_eq_reverse_take_reverse, List.reverse_append, List.reverse_reverse, List.take_append,
    List.length_reverse, List.take_take, Nat.min_eq_left hle]

/-- What the runtime has kept of these trades. -/
structure Holds (limit : Nat) (trades : List PyMap) (s : GatewayRuntime) : Prop where
  rows : s._recentTrades = trades.rtake limit
  limit : s.recentTradesLimit = limit

def recents (s : GatewayRuntime) : List PyMap × Nat := (s._recentTrades, s.recentTradesLimit)

theorem untouched_recents : Untouched recents where
  health _ _ _ := rfl
  orderMap _ _ := rfl
  subscriptions _ _ := rfl
  allocator _ _ := rfl
  heartbeat _ _ := rfl
  trace _ _ _ := rfl

section

variable {limit : Nat} {trades : List PyMap} {s s' : GatewayRuntime}

theorem Holds.of_recents (h : Holds limit trades s) (hr : recents s' = recents s) : Holds limit trades s' := by
  obtain ⟨hrows, hlimit⟩ := Prod.mk.inj hr
  exact ⟨hrows.trans h.rows, hlimit.trans h.limit⟩

theorem Holds.kept {α : Type} {m : Runtime α} (h : Holds limit trades s) (hm : Keeps recents m) :
    Holds limit trades (exec m s).2 :=
  h.of_recents (hm s)

variable (env : Env)

theorem Holds.record (h : Holds limit trades s) (payload : PyVal) :
    Holds limit (trades ++ tradesAmong env [payload]) (exec (_recordTradeEvent env payload) s).2 := by
  cases payload with
  | dict event =>
    by_cases hk : env.py.lower (strip (textOr env event "kind" "")) = u "trade"
    · have hone : tradesAmong env [.dict event] = [event] := by simp [tradesAmong, hk]
      rw [hone, _recordTradeEvent, if_pos hk, exec_modify]
      refine ⟨?_, h.limit⟩
      rw [← rtake_append_rtake, ← h.rows, h.limit, List.rtake, List.length_append, List.length_singleton]
    · have hnone : tradesAmong env [.dict event] = [] := by simp [tradesAmong, hk]
      rw [hnone, List.append_nil, _recordTradeEvent, if_neg hk]
      exact h
  | _ => simpa [tradesAmong, _recordTradeEvent] using h

theorem Holds.item (h : Holds limit trades s) (channel payload : PyVal) :
    Holds limit (trades ++ tradesAmong env (eventOf env.py s.orderMap channel payload))
      (exec (flushItem env channel payload) s).2 := by
  by_cases hm : isStr CHANNEL_MARKET channel = true
  · have hkeeps : Keeps recents (flushItem env channel payload) := by
      unfold flushItem
      rw [if_pos hm]
      exact keeps_bind (keeps_onHealth untouched_recents fun _ => ⟨rfl, rfl⟩) fun _ =>
        keeps_bind (keeps_ofExcept _) fun _ => keeps_publish untouched_recents env _ _
    rw [eventOf, if_pos hm]
    simpa [tradesAmong] using h.kept hkeeps
  by_cases he : isStr CHANNEL_EVENT channel = true
  · have henriched : Holds limit trades (exec (enrich env payload) s).2 := h.of_recents rfl
    rw [eventOf, if_neg hm, if_pos he, flushItem, if_neg hm, if_pos he]
    show Holds _ _ (exec (_recordTradeEvent env (_enrichEventPayload env.py s.orderMap payload).1 >>= fun _ =>
      _publish env channel (_enrichEventPayload env.py s.orderMap payload).1) (exec (enrich env payload) s).2).2
    apply (henriched.record env _).of_recents
    exact after_bind (fun _ => keeps_publish untouched_recents env _ _) _
  · rw [eventOf, if_neg hm, if_neg he, flushItem, if_neg hm, if_neg he]
    simpa [tradesAmong] using h.kept (keeps_publish untouched_recents env channel payload)

theorem Holds.flush (h : Holds limit trades s) (output : List (Except PyExc PyVal)) :
    Holds limit (trades ++ tradesAmong env (flushed env s output)) (exec (_flushAdapterOutput env output) s).2 := by
  have hsame : Holds limit (trades ++ tradesAmong env []) s := by simpa [tradesAmong] using h
  induction output generalizing trades s with
  | nil => exact hsame
  | cons polled output ih =>
    unfold _flushAdapterOutput
    cases polled with
    | error e =>
      rw [exec_bind_error (exec_ofExcept _ _)]
      exact hsame
    | ok item =>
      rw [exec_bind_ok (exec_ofExcept _ _)]
      split
      · exact hsame
      · next hn =>
        rw [flushed]
        · cases hu : unpack item with
          | error e =>
            rw [exec_bind_error (exec_ofExcept _ _)]
            exact hsame
          | ok p =>
            obtain ⟨channel, payload⟩ := p
            have hitem := h.item env channel payload
            rw [exec_bind_ok (exec_ofExcept _ _), exec_bind]
            rcases hx : exec (flushItem env channel payload) s with ⟨e | ⟨⟩, s'⟩ <;> rw [hx] at hitem
            · simpa [hx] using hitem
            · have hrest := ih hitem (by simpa using hitem)
              simpa [hx] using hrest
        · exact hn

theorem keeps_loopFailed (env : Env) (exc : PyExc) : Keeps recents (loopFailed env exc) := by
  refine keeps_bind keeps_get fun s => keeps_ite (keeps_bind ?_ fun _ => keeps_pure _) (keeps_pure _)
  refine keeps_bind (keeps_modify fun _ => rfl) fun _ => keeps_bind (keeps_modify fun _ => rfl) fun _ => ?_
  split
  · exact keeps_pure _
  · exact keeps_onHealth untouched_recents fun _ => ⟨rfl, rfl⟩

theorem Holds.turn (h : Holds limit trades s) (env : Env) (received : Option Message) :
    Holds limit (trades ++ tradesOf s (.turn env received)) (exec (loopOnce env received) s).2 := by
  have hbody : Holds limit (trades ++ tradesOf s (.turn env received)) (exec (loopBody env received) s).2 := by
    have hcommand := h.kept (keeps_handleCommands untouched_recents env (fun _ _ _ => rfl) received)
    unfold loopBody
    rw [exec_bind, tradesOf]
    revert hcommand
    rcases exec (_handleCommands env received) s with ⟨e | ⟨⟩, s'⟩ <;> intro hcommand
    · simpa using hcommand
    · have hflush : Holds limit (trades ++ if s'._adapterConnected then
          tradesAmong env (flushed env s' env.adapter.output) else []) (exec (flushConnected env) s').2 := by
        rw [flushConnected, exec_get_bind]
        by_cases hc : s'._adapterConnected = true
        · rw [if_pos hc, if_pos hc]
          exact hcommand.flush env env.adapter.output
        · rw [if_neg hc, if_neg hc]
          simpa using hcommand
      exact hflush.of_recents (after_bind (fun _ => keeps_refreshRuntimeHeartbeat untouched_recents env false) s')
  apply hbody.of_recents
  unfold loopOnce
  rw [exec_tryCatch, exec_bind]
  rcases exec (loopBody env received) s with ⟨e | ⟨⟩, s'⟩
  · exact keeps_loopFailed env e s'
  · rfl

theorem Holds.act (h : Holds limit trades s) (a : Act) : Holds limit (trades ++ tradesOf s a) (step s a) := by
  cases a with
  | turn env received => exact h.turn env received
  | flush env => exact h.flush env env.adapter.output
  | dispatch env command payload =>
    rw [tradesOf, List.append_nil]
    exact h.kept (keeps_dispatch untouched_recents env command payload)
  | flags running connected sockets health =>
    rw [tradesOf, List.append_nil]
    exact h.of_recents rfl

theorem Holds.run (h : Holds limit trades s) (acts : List Act) :
    Holds limit (trades ++ history s acts) (run step s acts) := by
  induction acts generalizing trades s with
  | nil => simpa [history] using h
  | cons a acts ih =>
    rw [history, ← List.append_assoc, run_cons]
    exact ih (h.act a)

end

/-! ## The answer -/

/-- Two texts are the same in capitals, but for what is neither letter nor digit there. -/
def SameSymbol (py : Interp) (text other : PyStr) : Prop :=
  (py.upper text).filter py.isalnum = (py.upper other).filter py.isalnum

instance (py : Interp) (text other : PyStr) : Decidable (SameSymbol py text other) :=
  inferInstanceAs (Decidable (_ = _))

/-- A row is of the symbol that is asked for: without a symbol, or with one that has neither
letter nor digit in capitals, every row is; otherwise one of the keys has the same text. -/
def Agrees (env : Env) (symbol : Option PyStr) (row : PyMap) : Prop :=
  match given symbol with
  | none => True
  | some symbol => (∀ c ∈ env.py.upper symbol, env.py.isalnum c = false) ∨
      ∃ key ∈ TRADE_SYMBOL_KEYS, SameSymbol env.py (textOr env row key "") symbol

instance decidableAgrees (env : Env) (symbol : Option PyStr) (row : PyMap) : Decidable (Agrees env symbol row) :=
  match h : given symbol with
  | none => isTrue (by unfold Agrees; rw [h]; trivial)
  | some symbol => decidable_of_iff ((∀ c ∈ env.py.upper symbol, env.py.isalnum c = false) ∨
      ∃ key ∈ TRADE_SYMBOL_KEYS, SameSymbol env.py (textOr env row key "") symbol) (by unfold Agrees; rw [h])

/-- The adapter has no rows: it has no `get_trades`, or that one raises or gives nothing. -/
def Silent (env : Env) (symbol : Option PyStr) (limit : Int) : Prop :=
  ∀ getter, env.adapter.getTrades = some getter → ∀ rows, getter symbol limit = .ok rows → truthy rows = false

theorem compactSymbol_nil_iff (env : Env) (symbol : PyStr) :
    _compactSymbol env symbol = [] ↔ ∀ c ∈ env.py.upper symbol, env.py.isalnum c = false := by
  simp [_compactSymbol]

theorem tradeSymbolMatches_iff (env : Env) (row : PyMap) (symbol : PyStr) : _tradeSymbolMatches env row symbol = true ↔
    (∀ c ∈ env.py.upper symbol, env.py.isalnum c = false) ∨
      ∃ key ∈ TRADE_SYMBOL_KEYS, SameSymbol env.py (textOr env row key "") symbol := by
  rw [← compactSymbol_nil_iff]
  change _ ↔ _ ∨ ∃ key ∈ TRADE_SYMBOL_KEYS, _compactSymbol env (textOr env row key "") = _compactSymbol env symbol
  unfold _tradeSymbolMatches
  by_cases he : _compactSymbol env symbol = []
  · simp [he]
  · simp only [he, decide_false, Bool.false_or, List.any_eq_true, Bool.and_eq_true, decide_eq_true_eq, false_or]
    constructor
    · rintro ⟨key, hkey, -, h⟩
      exact ⟨key, hkey, h⟩
    · rintro ⟨key, hkey, h⟩
      exact ⟨key, hkey, by rwa [h], h⟩

theorem filterMap_dicts {p : PyMap → Prop} [DecidablePred p] {f : PyVal → Option PyMap}
    (hf : ∀ row, f (.dict row) = if p row then some row else none) (rows : List PyMap) :
    (rows.map PyVal.dict).filterMap f = rows.filter fun row => p row := by
  induction rows with
  | nil => rfl
  | cons row rows ih =>
    by_cases hr : p row <;> simp [hf, hr, ← ih]

theorem filterTradeRows_eq (env : Env) (rows : List PyMap) (symbol : Option PyStr) (limit : Nat) :
    _filterTradeRows env (.list (rows.map .dict)) symbol limit =
      (rows.filter fun row => Agrees env symbol row).rtake limit := by
  apply congrArg (fun out : List PyMap => out.drop (out.length - limit))
  apply filterMap_dicts
  intro row
  cases hg : given symbol with
  | none =>
    have hall : Agrees env symbol row := by
      unfold Agrees
      rw [hg]
      trivial
    rw [if_pos hall]
  | some name =>
    have hiff : Agrees env symbol row ↔ _tradeSymbolMatches env row name = true := by
      rw [tradeSymbolMatches_iff]
      unfold Agrees
      rw [hg]
    simp only [hiff]

theorem exec_getTrades {env : Env} {symbol : Option PyStr} {limit : Int} (hl : 1 ≤ limit) (hs : Silent env symbol limit)
    (s : GatewayRuntime) : (exec (getTrades env symbol limit) s).1 =
      .ok (.list (((s._recentTrades.filter fun row => Agrees env symbol row).rtake limit.toNat).map .dict)) := by
  have hlimit : max (if limit = 0 then 100 else limit) 1 = limit := by
    rw [if_neg (by omega)]
    omega
  have hrows : ∃ rows, (exec (adapterTrades env symbol limit) s).1 = .ok rows ∧ truthy rows = false := by
    unfold adapterTrades
    cases hg : env.adapter.getTrades with
    | none => exact ⟨.none, rfl, rfl⟩
    | some getter =>
      dsimp only
      rw [exec_tryCatch, exec_ofExcept]
      cases hr : getter symbol limit with
      | ok rows => exact ⟨rows, rfl, hs getter hg rows hr⟩
      | error e => exact ⟨.list [], rfl, rfl⟩
  have hkept := keeps_adapterTrades untouched_recents env symbol limit s
  unfold getTrades
  simp only [hlimit]
  rw [exec_bind]
  obtain ⟨rows, hok, hfalse⟩ := hrows
  revert hok hkept
  rcases exec (adapterTrades env symbol limit) s with ⟨e | rows', s'⟩ <;> intro hkept hok
  · cases hok
  · obtain rfl := Except.ok.inj hok
    have hsame : s'._recentTrades = s._recentTrades := congrArg Prod.fst hkept
    simp only [exec_get_bind, hfalse, Bool.false_eq_true, if_false, filterTradeRows_eq, hsame, exec_pure]

/-- Asked at any time for trades that the adapter does not have, the runtime answers with the
last matching ones among the last `recentTradesLimit` of its history, the oldest first. -/
theorem trades_from_history (py : Interp) (allocator : Option OrderRefAllocator) (kwargs : PyMap) (start : GatewayRuntime)
    (hstart : configured py allocator kwargs = .ok start) (acts : List Act) (env : Env) (symbol : Option PyStr)
    (limit : Int) (hl : 1 ≤ limit) (hs : Silent env symbol limit) :
    (exec (getTrades env symbol limit) (run step start acts)).1 =
      .ok (.list ((((((history start acts).rtake start.recentTradesLimit).filter fun row =>
        Agrees env symbol row).rtake limit.toNat)).map .dict)) := by
  have hempty : Holds start.recentTradesLimit [] start := by
    obtain ⟨n, -, h⟩ := bind_eq_ok hstart
    obtain rfl := Except.ok.inj h
    exact ⟨(List.rtake_nil _).symm, rfl⟩
  have h := hempty.run acts
  rw [List.nil_append] at h
  rw [exec_getTrades hl hs, h.rows]

/-- A fill of this symbol. -/
def fillOf (symbol tradeId : String) : PyMap :=
  [(.str "kind", .str "trade"), (.str "symbol", .str symbol), (.str "trade_id", .str tradeId)]

def item (event : PyMap) : Except PyExc PyVal := .ok (.tuple [.str "event", .dict event])

/-- An adapter that has four fills ready and no `get_trades`. -/
def fourFills : Env := .ascii { Adapter.silent with
  output := [item (fillOf "BTCUSDT" "1"), item (fillOf "BTC-USDT" "2"), item (fillOf "ETHUSDT" "3"),
    item (fillOf "btc/usdt" "4")] }

/-- The limit of three drops the first fill, the third is of another symbol, and the limit of the
request leaves the last. -/
theorem trades_from_history_fills :
    configured .ascii none [(.str "recent_trades_limit", .int 3)] =
        .ok { create none with recentTradesLimit := 3 } ∧
      (1 : Int) ≤ 1 ∧ Silent fourFills (some (u "BTC_USDT")) 1 ∧
      (exec (getTrades fourFills (some (u "BTC_USDT")) 1)
        (run step { create none with recentTradesLimit := 3 } [.flush fourFills])).1 =
        .ok (.list [.dict (fillOf "btc/usdt" "4")]) := by
  have hstart : configured .ascii none [(.str "recent_trades_limit", .int 3)] =
      .ok { create none with recentTradesLimit := 3 } := rfl
  have hs : Silent fourFills (some (u "BTC_USDT")) 1 := by
    intro getter hg
    cases hg
  refine ⟨hstart, by decide, hs, ?_⟩
  rw [trades_from_history .ascii none [(.str "recent_trades_limit", .int 3)] _ hstart [.flush fourFills] fourFills _
    1 (by decide) hs]
  rfl

/-- An adapter that has one fill ready. -/
def filled : Env := .ascii { Adapter.silent with output := [item (fillOf "BTCUSDT" "1")] }

/-- The combining iota is neither letter nor digit, the capital that `upper` makes of it is a
letter. -/
def greek : Interp := { Interp.ascii with
  upper := List.map fun c =>
    if c = .scalar (Char.ofNat 0x345) then .scalar (Char.ofNat 0x399)
    else match c with
      | .scalar c => .scalar c.toUpper
      | c => c
  isalnum c := c == .scalar (Char.ofNat 0x399) || Interp.ascii.isalnum c }

def mark : PyStr := [.scalar (Char.ofNat 0x345)]

theorem mark_hides_trades :
    (∀ c ∈ mark, greek.isalnum c = false) ∧
    history (create none) [.flush { filled with py := greek }] = [fillOf "BTCUSDT" "1"] ∧
    (exec (getTrades { filled with py := greek } (some mark) 10)
      (run step (create none) [.flush { filled with py := greek }])).1 = .ok (.list []) := by
  refine ⟨by decide, rfl, ?_⟩
  have hs : Silent { filled with py := greek } (some mark) 10 := by
    intro getter hg
    cases hg
  rw [exec_getTrades (by decide) hs]
  rfl

end RecentTrades
