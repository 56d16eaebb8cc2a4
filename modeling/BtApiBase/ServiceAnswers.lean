import BtApiBase.ServiceCalls

/-!
# What the calls of the services return

Calls of all exchanges and symbols share a cache, and its keys are made of their names. A name of
an exchange that has no colon can be read off the key, so nobody gets the data of another one.
-/

namespace ServiceCalls

open PyText PyDict Runs

variable {C O : Type}

/-- The key under which a call looks in the cache and stores there. -/
def cacheKey (exchange : PyStr) : Method O → Option PyStr
  | .getTicker symbol _ => some (tickerKey exchange symbol)
  | .placeOrder _ => none
  | .getBalance _ => some (balanceKey exchange)

/-- The data is what the call makes at some time. -/
def Call.Made (c : Call C O) (data : Data O) : Prop := ∃ now, data = c.body.data now

/-- What a call has so far is its own. -/
def Call.Proper (c : Call C O) : Prop := colon ∉ c.exchange ∧ match c.place with
  | .before left => left <:+ c.body.before
  | .inside _ _ data left => c.Made data ∧ left <:+ c.body.inside
  | .returned data => c.Made data
  | .connecting | .sleeping | .raised => True

structure Answered (w : World C O) : Prop where
  calls : ∀ task c, w.calls.get task = some c → c.Proper
  stored : ∀ key data, (key, data) ∈ w.stored → ∃ c : Call C O, colon ∉ c.exchange ∧
    cacheKey c.exchange c.method = some key ∧ c.Made data

/-- The names of exchanges have no colon. -/
def Plain (_ : World C O) (l : Label C O) : Prop :=
  ∀ task exchange method, l = .begin task exchange method → colon ∉ exchange

theorem tickerKey_inj {e e' s s' : PyStr} (he : colon ∉ e) (he' : colon ∉ e')
    (h : tickerKey e s = tickerKey e' s') : e = e' ∧ s = s' := by
  have h' : e ++ colon :: s = e' ++ colon :: s' := by
    rw [tickerKey, tickerKey, List.append_assoc, List.append_assoc] at h
    exact List.append_cancel_left h
  clear h
  induction e generalizing e' with
  | nil =>
    cases e' with
    | nil => simpa using h'
    | cons a e' =>
      obtain ⟨ha, -⟩ := List.cons.inj h'
      exact absurd (ha ▸ List.mem_cons_self) he'
  | cons a e ih =>
    cases e' with
    | nil =>
      obtain ⟨ha, -⟩ := List.cons.inj h'
      exact absurd (ha ▸ List.mem_cons_self) he
    | cons b e' =>
      obtain ⟨rfl, ht⟩ := List.cons.inj h'
      obtain ⟨rfl, rfl⟩ := ih (fun hin => he (List.mem_cons_of_mem _ hin))
        (fun hin => he' (List.mem_cons_of_mem _ hin)) ht
      exact ⟨rfl, rfl⟩

theorem tickerKey_ne_balanceKey (e s e' : PyStr) : tickerKey e s ≠ balanceKey e' := by
  intro h
  have hhead : (tickerKey e s).head? = (balanceKey e').head? := by rw [h]
  simp [tickerKey, balanceKey, u] at hhead

/-- Calls with one key make the same data at the same time. -/
theorem made_of_key {c c' : Call C O} (he : colon ∉ c.exchange) (he' : colon ∉ c'.exchange)
    {key : PyStr} (hk : cacheKey c.exchange c.method = some key)
    (hk' : cacheKey c'.exchange c'.method = some key) {data : Data O} (h : c.Made data) :
    c'.Made data := by
  obtain ⟨now, rfl⟩ := h
  refine ⟨now, ?_⟩
  have hkey : cacheKey c.exchange c.method = cacheKey c'.exchange c'.method := hk.trans hk'.symm
  cases hm : c.method with
  | placeOrder args => simp [hm, cacheKey] at hk
  | getTicker symbol useCache =>
    cases hm' : c'.method with
    | placeOrder args => simp [hm', cacheKey] at hk'
    | getTicker symbol' useCache' =>
      simp only [hm, hm', cacheKey, Option.some.injEq] at hkey
      obtain ⟨hex, rfl⟩ := tickerKey_inj he he' hkey
      simp [Call.body, methodBody, hm, hm', getTicker, hex]
    | getBalance useCache' =>
      simp only [hm, hm', cacheKey, Option.some.injEq] at hkey
      exact absurd hkey (tickerKey_ne_balanceKey _ _ _)
  | getBalance useCache =>
    cases hm' : c'.method with
    | placeOrder args => simp [hm', cacheKey] at hk'
    | getTicker symbol' useCache' =>
      simp only [hm, hm', cacheKey, Option.some.injEq] at hkey
      exact absurd hkey.symm (tickerKey_ne_balanceKey _ _ _)
    | getBalance useCache' =>
      simp only [hm, hm', cacheKey, Option.some.injEq] at hkey
      have hex : c.exchange = c'.exchange := List.append_cancel_left hkey
      simp [Call.body, methodBody, hm, hm', getBalance, hex]

theorem cacheGet_key {c : Call C O} {key : PyStr} (h : .cacheGet key ∈ c.body.before) :
    cacheKey c.exchange c.method = some key := by
  unfold Call.body methodBody at h
  split at h
  · next symbol useCache hm => cases useCache <;> simp_all [getTicker, cacheKey]
  · next args hm => simp [placeOrder] at h
  · next useCache hm => cases useCache <;> simp_all [getBalance, cacheKey]

theorem cacheSet_key {c : Call C O} {key : PyStr} {ttl : Nat} (h : .cacheSet key ttl ∈ c.body.inside) :
    cacheKey c.exchange c.method = some key := by
  unfold Call.body methodBody at h
  split at h
  · next symbol useCache hm => cases useCache <;> simp_all [getTicker, cacheKey]
  · next args hm => simp [placeOrder] at h
  · next useCache hm => simp_all [getBalance, cacheKey]

theorem failed_proper {c : Call C O} (h : colon ∉ c.exchange) : c.failed.Proper := by
  unfold Call.failed
  split
  · exact ⟨h, trivial⟩
  · exact ⟨h, trivial⟩

section

variable {w : World C O}

theorem answered_init : Answered (init (C := C) (O := O)) := ⟨by simp [init], by simp [init]⟩

theorem Answered.put (h : Answered w) {v : World C O} {task : Nat} {c : Call C O}
    (hcalls : v.calls = w.calls.set task c) (hstored : v.stored = w.stored) (hc : c.Proper) :
    Answered v := by
  refine ⟨?_, hstored ▸ h.stored⟩
  intro t c' hc'
  rw [hcalls, Dict.get_set] at hc'
  split at hc'
  · obtain rfl : c = c' := Option.some.inj hc'
    exact hc
  · exact h.calls t c' hc'

theorem Answered.frame (h : Answered w) {v : World C O} (hcalls : v.calls = w.calls)
    (hstored : v.stored = w.stored) : Answered v := ⟨hcalls ▸ h.calls, hstored ▸ h.stored⟩

theorem Answered.note (h : Answered w) {c : Call C O} {data : Data O} {await : Await}
    (hc : colon ∉ c.exchange) (hd : c.Made data) (ha : await ∈ c.body.inside) :
    Answered (w.note data await) := by
  cases await with
  | cacheGet | acquire => exact h
  | publish => exact h.frame rfl rfl
  | cacheSet key ttl =>
    refine ⟨h.calls, ?_⟩
    intro key' data' hin
    rcases List.mem_append.mp hin with hin | hin
    · exact h.stored key' data' hin
    · obtain ⟨rfl, rfl⟩ := Prod.mk.inj (List.mem_singleton.mp hin)
      exact ⟨c, hc, cacheSet_key ha, hd⟩

variable [DecidableEq C]

theorem Answered.goOn (h : Answered w) (task : Nat) {c : Call C O} (hc : colon ∉ c.exchange)
    {left : List Await} (hleft : left <:+ c.body.before) : Answered (w.goOn task c left) := by
  cases left with
  | nil => exact h.put (c := c.goTo .connecting) rfl rfl ⟨hc, trivial⟩
  | cons await left => exact h.put rfl rfl ⟨hc, hleft⟩

theorem Answered.goOnInside (h : Answered w) (task s : Nat) {c : Call C O} (conn : C) {data : Data O}
    (hc : colon ∉ c.exchange) (hd : c.Made data) {left : List Await} (hleft : left <:+ c.body.inside) :
    Answered (w.goOnInside task c s conn data left) := by
  cases left with
  | nil => exact h.put (c := c.goTo (.returned data)) rfl rfl ⟨hc, hd⟩
  | cons await left => exact h.put rfl rfl ⟨hc, hd, hleft⟩

theorem interrupt_same (w : World C O) (task : Nat) (c : Call C O) :
    (w.interrupt task c).calls = w.calls ∧ (w.interrupt task c).stored = w.stored := by
  unfold World.interrupt
  split
  · exact ⟨rfl, rfl⟩
  · exact ⟨rfl, rfl⟩
  · exact ⟨rfl, rfl⟩

theorem Answered.interrupt (h : Answered w) (task : Nat) (c : Call C O) {c' : Call C O}
    (hc' : c'.Proper) : Answered ((w.interrupt task c).put task c') := by
  obtain ⟨hcalls, hstored⟩ := interrupt_same w task c
  exact h.put (by rw [World.put, hcalls]) hstored hc'

theorem Answered.absorb (h : Answered w) (now : Nat)
    (e : Option (ConnectionServices.Entry PyStr C)) : Answered (w.absorb now e) := by
  unfold World.absorb
  split
  · split
    · next c hc =>
      split
      · exact h.goOnInside _ _ _ (h.calls _ c hc).1 ⟨now, rfl⟩ List.suffix_rfl
      · exact h
    · exact h
  · split
    · next c hc =>
      split
      · exact h.put rfl rfl (failed_proper (h.calls _ c hc).1)
      · exact h
    · exact h
  · exact h

theorem answered_answer (h : Answered w) (task : Nat) (answer : Answer) :
    Answered (w.answer task answer) := by
  unfold World.answer
  split
  · exact h
  · next c hc =>
    obtain ⟨hcolon, hplace⟩ := h.calls task c hc
    split
    · next key left index heq =>
      rw [heq] at hplace
      split
      · next key' data hstored =>
        split
        · next hkey =>
          subst hkey
          obtain ⟨c', hcolon', hk', hmade⟩ := h.stored key' data (List.mem_of_getElem? hstored)
          have hk := cacheGet_key (hplace.subset List.mem_cons_self)
          have hown : c.Made data := made_of_key hcolon' hcolon hk' hk hmade
          exact h.put rfl rfl ⟨hcolon, hown⟩
        · exact h
      · exact h
    · next await left heq =>
      rw [heq] at hplace
      exact h.goOn task hcolon ((List.suffix_cons _ _).trans hplace)
    · exact h.put rfl rfl (failed_proper hcolon)
    · next s conn data await left heq =>
      rw [heq] at hplace
      obtain ⟨hmade, hleft⟩ := hplace
      exact (h.note hcolon hmade (hleft.subset List.mem_cons_self)).goOnInside task s conn hcolon hmade
        ((List.suffix_cons _ _).trans hleft)
    · next s conn data await left heq =>
      exact h.put (v := (w.giveBack c conn).fail task c) rfl rfl (failed_proper hcolon)
    · exact h

theorem answered_step (h : Answered w) (l : Label C O) (hl : Plain w l) : Answered (step w l) := by
  cases l with
  | begin task exchange method =>
    simp only [step]
    split
    · exact h
    · exact h.goOn task (hl task exchange method rfl) List.suffix_rfl
  | answer task answer => exact answered_answer h task answer
  | effect task =>
    simp only [step, World.effect]
    split
    · exact h
    · next c hc =>
      obtain ⟨hcolon, hplace⟩ := h.calls task c hc
      split
      · next s conn data await left heq =>
        rw [heq] at hplace
        exact h.note hcolon hplace.1 (hplace.2.subset List.mem_cons_self)
      · exact h
  | service l now =>
    simp only [step]
    split
    · have hv : Answered { w with service := ConnectionServices.step w.service l } := h.frame rfl rfl
      exact hv.absorb now _
    · exact h
  | closeAll task =>
    simp only [step]
    split
    · exact h
    · exact h.frame rfl rfl
  | wakeUp task =>
    simp only [step]
    split
    · next c hc =>
      split
      · exact h.goOn task (h.calls task c hc).1 List.suffix_rfl
      · exact h
    · exact h
  | timeout task =>
    simp only [step]
    split
    · next c hc =>
      split
      · exact h.interrupt task c (failed_proper (h.calls task c hc).1)
      · exact h
    · exact h
  | cancel task =>
    simp only [step]
    split
    · next c hc =>
      split
      · exact h
      · exact h.interrupt task c ⟨(h.calls task c hc).1, trivial⟩
    · exact h.frame rfl rfl

/-- A call returns what it makes itself, of its own exchange and symbol, also where it comes from
the cache that all calls share. -/
theorem answers_own {as : List (Label C O)} (h : Meets step Plain init as) {task : Nat}
    {c : Call C O} {data : Data O} (hc : (run step init as).calls.get task = some c)
    (hplace : c.place = .returned data) : c.Made data := by
  have hrun : Answered (run step init as) :=
    throughout_last (throughout_of_meets (P := Answered) (fun _ l hk hl => answered_step hk l hl)
      answered_init h)
  obtain ⟨-, hmade⟩ := hrun.calls task c hc
  rwa [hplace] at hmade

end

/-- The second of two tickers comes from the cache. -/
def cached : List (Label Nat Unit) :=
  [.service (.configure (u "OKX") { session := some (some 7) } 2) 0,
    .begin 0 (u "OKX") (.getTicker (u "BTC") true), .answer 0 .passed, .answer 0 .passed,
    .service (.enter 0) 5, .answer 0 .passed, .begin 1 (u "OKX") (.getTicker (u "BTC") true),
    .answer 1 (.hit 0)]

def cachedCall : Call Nat Unit where
  exchange := u "OKX"
  method := .getTicker (u "BTC") true
  place := .returned (.ticker (u "BTC") 50000 5 (u "OKX"))

theorem plain_cached : Meets step Plain init cached := by
  simp [cached, meets_cons, meets_nil, Plain, colon, u]

theorem answers_own_cached : cachedCall.Made (.ticker (u "BTC") 50000 5 (u "OKX")) := by
  have hc : (run step init cached).calls.get 1 = some cachedCall := by decide
  exact answers_own plain_cached hc rfl

/-! ## Batches -/

/-- `f"{req['exchange']}:{req['symbol']}"` -/
def outputKey (exchange symbol : PyStr) : PyStr := exchange ++ colon :: symbol

/-- What `gather` has of one `get_ticker`, with its request; there is nothing while it runs. -/
def World.result (w : World C O) (task : Nat) : Option ((PyStr × PyStr) × Option (Data O)) :=
  match w.calls.get task with
  | some c => match c.method, c.place with
    | .getTicker symbol true, .returned data => some ((c.exchange, symbol), some data)
    | .getTicker symbol true, .raised => some ((c.exchange, symbol), none)
    | _, _ => none
  | none => none

def outputOf (rows : List ((PyStr × PyStr) × Option (Data O))) : Dict PyStr (Data O) :=
  rows.foldl (fun output row => match row.2 with
    | some data => output.set (outputKey row.1.1 row.1.2) data
    | none => output) .empty

/-- `get_multiple_tickers`, when the calls that it has made are over. -/
def World.getMultipleTickers (w : World C O) (tasks : List Nat) : Option (Dict PyStr (Data O)) :=
  (tasks.mapM w.result).map outputOf

/-- An entry of the output is the result of a request with its key, and no result is left out. -/
theorem outputOf_spec (rows : List ((PyStr × PyStr) × Option (Data O))) :
    (∀ key data, (outputOf rows).get key = some data →
      ∃ row ∈ rows, outputKey row.1.1 row.1.2 = key ∧ row.2 = some data) ∧
    ∀ row ∈ rows, (outputOf rows).get (outputKey row.1.1 row.1.2) = none → row.2 = none := by
  induction rows using List.reverseRecOn with
  | nil => exact ⟨fun _ _ h => by simp [outputOf] at h, fun _ h => by simp at h⟩
  | append_singleton rows row ih =>
    obtain ⟨ihl, ihr⟩ := ih
    have hstep : outputOf (rows ++ [row]) = match row.2 with
        | some data => (outputOf rows).set (outputKey row.1.1 row.1.2) data
        | none => outputOf rows := by
      rw [outputOf, List.foldl_append]
      rfl
    rw [hstep]
    cases hrow : row.2 with
    | none =>
      refine ⟨?_, ?_⟩
      · intro key data hget
        obtain ⟨r, hr, hrest⟩ := ihl key data hget
        exact ⟨r, List.mem_append_left _ hr, hrest⟩
      · intro r hr hget
        rcases List.mem_append.mp hr with hr | hr
        · exact ihr r hr hget
        · rw [List.mem_singleton.mp hr]
          exact hrow
    | some data =>
      refine ⟨?_, ?_⟩
      · intro key data' hget
        simp only [Dict.get_set] at hget
        split at hget
        · next hkey => exact ⟨row, by simp, hkey.symm, hrow.trans hget⟩
        · obtain ⟨r, hr, hrest⟩ := ihl key data' hget
          exact ⟨r, List.mem_append_left _ hr, hrest⟩
      · intro r hr hget
        simp only [Dict.get_set] at hget
        split at hget
        · cases hget
        · next hkey =>
          rcases List.mem_append.mp hr with hr | hr
          · exact ihr r hr hget
          · rw [List.mem_singleton.mp hr] at hkey
            exact absurd rfl hkey

theorem mem_results {w : World C O} {tasks : List Nat}
    {rows : List ((PyStr × PyStr) × Option (Data O))} (h : tasks.mapM w.result = some rows) :
    (∀ row ∈ rows, ∃ task ∈ tasks, w.result task = some row) ∧
      ∀ task ∈ tasks, ∃ row ∈ rows, w.result task = some row := by
  induction tasks generalizing rows with
  | nil =>
    obtain rfl : [] = rows := by simpa using h
    simp
  | cons task tasks ih =>
    obtain ⟨row, hrow, rest, hrest, rfl⟩ : ∃ row, w.result task = some row ∧
        ∃ rest, tasks.mapM w.result = some rest ∧ row :: rest = rows := by
      simpa [List.mapM_cons, Option.bind_eq_some_iff] using h
    obtain ⟨ihl, ihr⟩ := ih hrest
    refine ⟨?_, ?_⟩
    · rintro r hr
      rcases List.mem_cons.mp hr with rfl | hr
      · exact ⟨task, List.mem_cons_self, hrow⟩
      · obtain ⟨t, ht, hrest⟩ := ihl r hr
        exact ⟨t, List.mem_cons_of_mem _ ht, hrest⟩
    · rintro t ht
      rcases List.mem_cons.mp ht with rfl | ht
      · exact ⟨row, List.mem_cons_self, hrow⟩
      · obtain ⟨r, hr, hrest⟩ := ihr t ht
        exact ⟨r, List.mem_cons_of_mem _ hr, hrest⟩

theorem result_spec {w : World C O} {task : Nat} {row : (PyStr × PyStr) × Option (Data O)}
    (h : w.result task = some row) : ∃ c, w.calls.get task = some c ∧ c.exchange = row.1.1 ∧
      c.method = .getTicker row.1.2 true ∧
      c.place = match row.2 with
        | some data => .returned data
        | none => .raised := by
  unfold World.result at h
  split at h
  · next c hc =>
    split at h
    · next symbol data hm hp =>
      obtain rfl := Option.some.inj h
      exact ⟨c, hc, rfl, hm, hp⟩
    · next symbol hm hp =>
      obtain rfl := Option.some.inj h
      exact ⟨c, hc, rfl, hm, hp⟩
    · cases h
  · cases h

/-- Each entry of the output of a batch is a ticker of the exchange and the symbol in its key,
and a key of a request is missing only where the call has raised. -/
theorem tickers_own [DecidableEq C] {as : List (Label C O)} (h : Meets step Plain init as)
    {tasks : List Nat} {output : Dict PyStr (Data O)}
    (hout : (run step init as).getMultipleTickers tasks = some output) :
    (∀ key data, output.get key = some data → ∃ exchange symbol now,
      key = outputKey exchange symbol ∧ data = .ticker symbol 50000 now exchange) ∧
    ∀ task ∈ tasks, ∃ c symbol, (run step init as).calls.get task = some c ∧
      c.method = .getTicker symbol true ∧
      (output.get (outputKey c.exchange symbol) = none → c.place = .raised) := by
  obtain ⟨rows, hrows, rfl⟩ := Option.map_eq_some_iff.mp hout
  obtain ⟨hfrom, hall⟩ := mem_results hrows
  obtain ⟨hkeys, hmissing⟩ := outputOf_spec rows
  refine ⟨?_, ?_⟩
  · intro key data hget
    obtain ⟨row, hrow, rfl, hdata⟩ := hkeys key data hget
    obtain ⟨task, -, hresult⟩ := hfrom row hrow
    obtain ⟨c, hc, hex, hm, hp⟩ := result_spec hresult
    rw [hdata] at hp
    obtain ⟨now, rfl⟩ := answers_own h hc hp
    exact ⟨row.1.1, row.1.2, now, rfl, by simp [Call.body, methodBody, hm, hex, getTicker]⟩
  · intro task htask
    obtain ⟨row, hrow, hresult⟩ := hall task htask
    obtain ⟨c, hc, hex, hm, hp⟩ := result_spec hresult
    refine ⟨c, row.1.2, hc, hm, fun hget => ?_⟩
    rw [hex] at hget
    rw [hmissing row hrow hget] at hp
    exact hp

/-- Two tickers of one symbol at two exchanges, one after the other at each await. -/
def twoVenues : List (Label Nat Unit) :=
  [.service (.configure (u "OKX") { session := some (some 7) } 1) 0,
    .service (.configure (u "BINANCE") { session := some (some 8) } 1) 0,
    .begin 0 (u "OKX") (.getTicker (u "BTC") true), .begin 1 (u "BINANCE") (.getTicker (u "BTC") true),
    .answer 0 .passed, .answer 1 .passed, .answer 0 .passed, .answer 1 .passed,
    .service (.enter 0) 5, .service (.enter 1) 6, .answer 0 .passed, .answer 1 .passed,
    .answer 1 .passed, .answer 0 .passed]

def twoTickers : Dict PyStr (Data Unit) :=
  (Dict.empty.set (outputKey (u "OKX") (u "BTC")) (.ticker (u "BTC") 50000 5 (u "OKX"))).set
    (outputKey (u "BINANCE") (u "BTC")) (.ticker (u "BTC") 50000 6 (u "BINANCE"))

theorem plain_twoVenues : Meets step Plain init twoVenues := by
  simp [twoVenues, meets_cons, meets_nil, Plain, colon, u]

theorem tickers_own_twoVenues :
    (run step init twoVenues).getMultipleTickers [0, 1] = some twoTickers ∧
    (∀ key data, twoTickers.get key = some data → ∃ exchange symbol now,
      key = outputKey exchange symbol ∧ data = .ticker symbol 50000 now exchange) ∧
    ∀ task ∈ [0, 1], ∃ c symbol, (run step init twoVenues).calls.get task = some c ∧
      c.method = .getTicker symbol true ∧
      (twoTickers.get (outputKey c.exchange symbol) = none → c.place = .raised) := by
  have hout : (run step init twoVenues).getMultipleTickers [0, 1] = some twoTickers := by rfl
  exact ⟨hout, tickers_own plain_twoVenues hout⟩

end ServiceCalls
