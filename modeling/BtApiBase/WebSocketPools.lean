import BtApiBase.WebSocketClosing

/-!
# The size of a pool of connections

`get_connection` tests the size of a pool and appends to it under the lock of the
pool, with a `connect` in between; `close_all` clears pools without the lock. A
pool that is tested has room until its one dialing call is done, since whatever
happens meanwhile takes connections away only.
-/

namespace WebSocketPools

open PyText PyDict PyValue WebSocketManagers WebSocketClosing Runs

/-- The call has the lock of pool `p`. -/
def Holds (p : Nat) : Call → Prop
  | .dialing _ _ lock _ _ | .unsending _ lock => lock = p
  | _ => False

/-- Nobody who waits at an await has the lock of pool `p`. -/
def Free (p : Nat) (w : World) : Prop := ∀ c call, w.calls c = some call → ¬ Holds p call

/-- The pools are those of different names, a lock has one holder at most, and a call
that dials has room in its pool. -/
structure Kept (w : World) : Prop where
  named : ∀ k entry, w._pools.get k = some entry → entry.pool < w.nextPool
  distinct : ∀ k k' entry entry', w._pools.get k = some entry → w._pools.get k' = some entry' →
    entry.pool = entry'.pool → k = k'
  waiting : ∀ c exchange request lock, w.calls c = some (.locking exchange request lock) →
    ∃ entry, w._pools.get exchange = some entry ∧ entry.pool = lock
  holder : ∀ c call p, w.calls c = some call → Holds p call → (w.pools p).locked = true ∧ p < w.nextPool
  one : ∀ c c' call call' p, w.calls c = some call → w.calls c' = some call' → Holds p call → Holds p call' → c = c'
  dialing : ∀ c exchange purpose lock p i, w.calls c = some (.dialing exchange purpose lock p i) → lock = p ∧
    ∃ entry, w._pools.get exchange = some entry ∧ entry.pool = p ∧
      (w.pools p).members.length < entry.config.maxConnections
  bounded : ∀ k entry, w._pools.get k = some entry →
    (w.pools entry.pool).members.length ≤ entry.config.maxConnections

/-- Every exchange is added once. -/
def AddedOnce (m : Manager) : Manager.Act → Prop
  | .own (.addExchange config) => m.world._pools.get config.exchangeName = none
  | _ => True

theorem kept_init : Kept init := ⟨nofun, nofun, nofun, nofun, nofun, nofun, nofun⟩

section

variable {w w' : World}

/-- The pools change; one that grows, or whose lock changes, is held by nobody. -/
theorem Kept.change (h : Kept w) (hcalls : w'.calls = w.calls) (hentries : w'._pools = w._pools)
    (hnext : w'.nextPool = w.nextPool)
    (hlocked : ∀ p, (w'.pools p).locked = (w.pools p).locked ∨ Free p w)
    (hmembers : ∀ p, (w'.pools p).members.length ≤ (w.pools p).members.length ∨ Free p w ∧
      ∀ k entry, w._pools.get k = some entry → entry.pool = p →
        (w'.pools p).members.length ≤ entry.config.maxConnections) : Kept w' := by
  refine ⟨?_, ?_, ?_, ?_, ?_, ?_, ?_⟩
  · rw [hentries, hnext]
    exact h.named
  · rw [hentries]
    exact h.distinct
  · rw [hentries, hcalls]
    exact h.waiting
  · rw [hcalls, hnext]
    intro c call p hc hp
    rcases hlocked p with heq | hfree
    · rw [heq]
      exact h.holder c call p hc hp
    · exact absurd hp (hfree c call hc)
  · rw [hcalls]
    exact h.one
  · rw [hcalls, hentries]
    intro c exchange purpose lock p i hc
    obtain ⟨hlock, entry, hget, hpool, hroom⟩ := h.dialing c exchange purpose lock p i hc
    refine ⟨hlock, entry, hget, hpool, ?_⟩
    rcases hmembers p with hle | ⟨hfree, -⟩
    · omega
    · exact absurd hlock (hfree c _ hc)
  · rw [hentries]
    intro k entry hget
    have hbound := h.bounded k entry hget
    rcases hmembers entry.pool with hle | ⟨-, hle⟩
    · omega
    · exact hle k entry hget rfl

theorem pools_setPool (w : World) (p q : Nat) (pool : Pool) :
    (w.setPool p pool).pools q = if q = p then pool else w.pools q := Function.update_apply _ _ _ _

/-- The lock of a pool is taken or given back, or its waiters change. -/
theorem Kept.lock (h : Kept w) {p : Nat} (hfree : Free p w) {pool : Pool}
    (hm : pool.members = (w.pools p).members) : Kept (w.setPool p pool) := by
  refine h.change rfl rfl rfl (fun q => ?_) fun q => .inl ?_
  · rw [pools_setPool]
    by_cases hq : q = p
    · exact .inr (hq ▸ hfree)
    · exact .inl (by rw [if_neg hq])
  · rw [pools_setPool]
    split
    · next hq => rw [hm, hq]
    · exact le_rfl

theorem Kept.waiters (h : Kept w) (p : Nat) (waiters : List Nat) :
    Kept (w.setPool p { w.pools p with waiters := waiters }) := by
  refine h.change rfl rfl rfl (fun q => .inl ?_) fun q => .inl ?_
  · rw [pools_setPool]
    split
    · next hq => rw [hq]
    · rfl
  · rw [pools_setPool]
    split
    · next hq => rw [hq]
    · exact le_rfl

/-- Nobody holds a lock that is not taken. -/
theorem Kept.free (h : Kept w) {p : Nat} (hp : (w.pools p).locked = false) : Free p w := by
  intro c call hc hholds
  rw [(h.holder c call p hc hholds).1] at hp
  cases hp

/-- Call `c` goes to an await, or ends. -/
def put (w : World) (c : Nat) (x : Option Call) : World := { w with calls := Function.update w.calls c x }

theorem calls_put (w : World) (c : Nat) (x : Option Call) (c' : Nat) :
    (put w c x).calls c' = if c' = c then x else w.calls c' := Function.update_apply _ _ _ _

theorem Kept.put_none (h : Kept w) (c : Nat) : Kept (put w c none) := by
  have hget : ∀ {c' call}, (put w c none).calls c' = some call → w.calls c' = some call := by
    intro c' call hc
    rw [calls_put] at hc
    split at hc
    · cases hc
    · exact hc
  exact ⟨h.named, h.distinct, fun c' exchange request lock hc => h.waiting c' exchange request lock (hget hc),
    fun c' call p hc => h.holder c' call p (hget hc),
    fun c' c'' call call' p hc hc' => h.one c' c'' call call' p (hget hc) (hget hc'),
    fun c' exchange purpose lock p i hc => h.dialing c' exchange purpose lock p i (hget hc), h.bounded⟩

/-- Call `c` goes to an await where it holds at most a lock that nobody else has. -/
theorem Kept.put_some {c : Nat} (h : Kept (put w c none)) {call : Call}
    (hwaiting : ∀ exchange request lock, call = .locking exchange request lock →
      ∃ entry, w._pools.get exchange = some entry ∧ entry.pool = lock)
    (hholder : ∀ p, Holds p call → Free p (put w c none) ∧ (w.pools p).locked = true ∧ p < w.nextPool)
    (hdialing : ∀ exchange purpose lock p i, call = .dialing exchange purpose lock p i → lock = p ∧
      ∃ entry, w._pools.get exchange = some entry ∧ entry.pool = p ∧
        (w.pools p).members.length < entry.config.maxConnections) : Kept (put w c (some call)) := by
  have hget : ∀ {c' call'}, (put w c (some call)).calls c' = some call' →
      c' = c ∧ call' = call ∨ (put w c none).calls c' = some call' := by
    intro c' call' hc
    rw [calls_put] at hc
    rw [calls_put]
    split at hc
    · next he => exact .inl ⟨he, (Option.some.inj hc).symm⟩
    · next hne => exact .inr (by rw [if_neg hne]; exact hc)
  refine ⟨h.named, h.distinct, ?_, ?_, ?_, ?_, h.bounded⟩
  · intro c' exchange request lock hc
    rcases hget hc with ⟨-, he⟩ | hc
    · exact hwaiting exchange request lock he.symm
    · exact h.waiting c' exchange request lock hc
  · intro c' call' p hc hp
    rcases hget hc with ⟨-, rfl⟩ | hc
    · exact (hholder p hp).2
    · exact h.holder c' call' p hc hp
  · intro c' c'' call' call'' p hc hc' hp hp'
    rcases hget hc with ⟨rfl, rfl⟩ | hold <;> rcases hget hc' with ⟨rfl, rfl⟩ | hold'
    · rfl
    · exact absurd hp' ((hholder p hp).1 c'' call'' hold')
    · exact absurd hp ((hholder p hp').1 c' call' hold)
    · exact h.one c' c'' call' call'' p hold hold' hp hp'
  · intro c' exchange purpose lock p i hc
    rcases hget hc with ⟨-, he⟩ | hc
    · exact hdialing exchange purpose lock p i he.symm
    · exact h.dialing c' exchange purpose lock p i hc

/-- An await at which a call has no lock and waits for none. -/
def Plain : Call → Prop
  | .sending _ _ | .publishing _ | .unpublishing => True
  | _ => False

theorem Kept.put_plain {c : Nat} (h : Kept (put w c none)) {call : Call} (hp : Plain call) :
    Kept (put w c (some call)) := by
  refine h.put_some ?_ ?_ ?_
  · rintro _ _ _ rfl
    cases hp
  · intro p hh
    cases call <;> first | exact False.elim hp | exact False.elim hh
  · rintro _ _ _ _ _ rfl
    cases hp

/-- What is not about pools and calls. -/
theorem Kept.other (h : Kept w) (hcalls : w'.calls = w.calls) (hentries : w'._pools = w._pools)
    (hnext : w'.nextPool = w.nextPool) (hpools : w'.pools = w.pools) : Kept w' :=
  h.change hcalls hentries hnext (fun p => .inl (by rw [hpools])) fun p => .inl (by rw [hpools])

theorem Kept.endCall {c : Nat} (h : Kept (put w c none)) (outcome : Outcome) : Kept (w.endCall c outcome) :=
  h.other rfl rfl rfl rfl

theorem Kept.release (h : Kept w) {p : Nat} (hfree : Free p w) : Kept (w.release p) := h.lock hfree rfl

theorem free_put_none {p : Nat} (h : Free p w) (c : Nat) : Free p (put w c none) := by
  intro c' call hc
  rw [calls_put] at hc
  split at hc
  · cases hc
  · exact h c' call hc

/-! ## The calls -/

/-- What is left when a call comes to an await, ends, or returns a connection. -/
structure Leaves (c : Nat) (out : World × Option Got) : Prop where
  waits : out.2 = none → Kept out.1
  returns : ∀ g, out.2 = some g → g.call = c ∧ Kept (put out.1 c none) ∧
    (Kept out.1 ∨ (out.1.connections g.connection).isSome)

theorem leaves_none {c : Nat} (h : Kept w) : Leaves c (w, none) := ⟨fun _ => h, nofun⟩

theorem kept_dial (h : Kept w) {lock : Nat} (hfree : Free lock w) (hlocked : (w.pools lock).locked = true)
    {exchange : PyStr} {entry : Exchange} (hget : w._pools.get exchange = some entry) (hpool : entry.pool = lock)
    (hroom : (w.pools entry.pool).members.length < entry.config.maxConnections) (c : Nat) (purpose : Purpose) :
    Kept (w.dial c exchange purpose lock entry) := by
  have hkept : Kept (put w c (some (.dialing exchange purpose lock entry.pool w.nextConnection))) := by
    refine (h.put_none c).put_some ?_ ?_ ?_
    · rintro _ _ _ ⟨⟩
    · rintro p rfl
      exact ⟨free_put_none hfree c, hlocked, hpool ▸ h.named exchange entry hget⟩
    · rintro _ _ _ _ _ ⟨⟩
      exact ⟨hpool.symm, entry, hget, rfl, hroom⟩
  exact hkept.other rfl rfl rfl rfl

/-- `get_connection` with the lock. -/
theorem leaves_getLocked (h : Kept w) {lock : Nat} (hfree : Free lock w) (hlocked : (w.pools lock).locked = true)
    {exchange : PyStr} {entry : Exchange} (hget : w._pools.get exchange = some entry) (hpool : entry.pool = lock)
    (c : Nat) (purpose : Purpose) (now : Rat) : Leaves c (w.getLocked c exchange purpose lock now) := by
  have hrelease := h.release hfree
  unfold World.getLocked
  rw [hget]
  dsimp only
  split
  · refine ⟨nofun, ?_⟩
    rintro _ ⟨⟩
    exact ⟨rfl, hrelease.put_none c, .inl hrelease⟩
  · split
    · next hroom => exact leaves_none (kept_dial h hfree hlocked hget hpool hroom c purpose)
    · split
      · exact leaves_none ((hrelease.put_none c).endCall _)
      · have hturned : ∀ turn, Kept ({ w with _roundRobin := turn }.release lock) :=
          fun turn => hrelease.other rfl rfl rfl rfl
        refine ⟨nofun, ?_⟩
        rintro _ ⟨⟩
        exact ⟨rfl, (hturned _).put_none c, .inl (hturned _)⟩

theorem kept_setConnection (h : Kept w) (i : Nat) (conn : WebSocketConnection) : Kept (w.setConnection i conn) :=
  h.other rfl rfl rfl rfl

theorem kept_unsubscribeLocked (h : Kept w) {lock : Nat} (hfree : Free lock w)
    (hlocked : (w.pools lock).locked = true) (hlt : lock < w.nextPool) (c : Nat) (exchange id : PyStr) :
    Kept (w.unsubscribeLocked c exchange id lock) := by
  unfold World.unsubscribeLocked
  split
  · exact ((h.release hfree).put_none c).endCall _
  · split
    · exact ((h.release hfree).put_none c).put_plain trivial
    · split
      · exact h
      · next conn _ =>
        split
        · exact h
        · next s _ =>
          have hpopped : ∀ i live, Kept { w.setConnection i (conn.unsubscribe s id) with live := live } :=
            fun i live => h.other rfl rfl rfl rfl
          dsimp only
          split
          · refine ((hpopped _ _).put_none c).put_some ?_ ?_ ?_
            · rintro _ _ _ ⟨⟩
            · rintro p rfl
              exact ⟨free_put_none hfree c, hlocked, hlt⟩
            · rintro _ _ _ _ _ ⟨⟩
          · exact (((hpopped _ _).release hfree).put_none c).endCall _

theorem leaves_enter (h : Kept w) {lock : Nat} (hfree : Free lock w) (hlocked : (w.pools lock).locked = true)
    {exchange : PyStr} {entry : Exchange} (hget : w._pools.get exchange = some entry) (hpool : entry.pool = lock)
    (c : Nat) (request : Request) (now : Rat) : Leaves c (w.enter c exchange request lock now) := by
  cases request with
  | get purpose => exact leaves_getLocked h hfree hlocked hget hpool c purpose now
  | unsubscribe id =>
    exact leaves_none (kept_unsubscribeLocked h hfree hlocked (hpool ▸ h.named exchange entry hget) c exchange id)

/-- The call that holds a lock is the only one. -/
theorem Kept.free_others (h : Kept w) {c : Nat} {call : Call} (hc : w.calls c = some call) {p : Nat}
    (hp : Holds p call) : Free p (put w c none) := by
  intro c' call' hc' hp'
  rw [calls_put] at hc'
  split at hc'
  · cases hc'
  · next hne => exact hne (h.one c' c call' call p hc' hc hp' hp)

/-- `connect` of the new connection comes back. -/
theorem leaves_dialed (h : Kept w) {c : Nat} {exchange : PyStr} {purpose : Purpose} {lock p i : Nat}
    (hc : w.calls c = some (.dialing exchange purpose lock p i)) (reply : Reply) (now : Rat) :
    Leaves c (w.dialed c exchange purpose lock p i reply now) := by
  obtain ⟨rfl, entry, hget, rfl, hroom⟩ := h.dialing c exchange purpose lock p i hc
  have hfree := h.free_others hc rfl
  unfold World.dialed
  split
  · exact leaves_none h
  · next conn _ =>
    have htried : Kept (put (w.setConnection i (conn.act (.resumeCall 0 reply.result))) c none) :=
      (h.put_none c).other rfl rfl rfl rfl
    dsimp only
    split
    · have hreleased : Kept (put ((w.setConnection i (conn.act (.resumeCall 0 reply.result))).release entry.pool)
          c none) := htried.release hfree
      exact leaves_none (hreleased.endCall _)
    · refine ⟨nofun, ?_⟩
      rintro _ ⟨⟩
      have happended : Kept (put ((w.setConnection i (conn.act (.resumeCall 0 reply.result))).setPool entry.pool
          { w.pools entry.pool with members := (w.pools entry.pool).members ++ [i] }) c none) := by
        refine htried.change rfl rfl rfl (fun q => .inl ?_) fun q => ?_
        · show (World.pools (w.setPool ..) q).locked = (w.pools q).locked
          rw [pools_setPool]
          split
          · next hq => rw [hq]
          · rfl
        · show (World.pools (w.setPool ..) q).members.length ≤ (w.pools q).members.length ∨ _
          rw [pools_setPool]
          split
          · next hq =>
            subst hq
            refine .inr ⟨hfree, fun k entry' (hget' : w._pools.get k = some entry') hpool => ?_⟩
            obtain rfl := h.distinct k exchange entry' entry hget' hget hpool
            rw [hget] at hget'
            cases hget'
            show (World.pools (w.setPool ..) entry.pool).members.length ≤ _
            rw [pools_setPool, if_pos rfl]
            simpa using hroom
          · exact .inl le_rfl
      exact ⟨rfl, happended.release hfree, .inr (by simp [World.release, World.setPool, World.setConnection])⟩

/-- What follows the return of `get_connection`. -/
theorem kept_proceed {g : Got} (h : Kept (put w g.call none))
    (hknown : Kept w ∨ (w.connections g.connection).isSome) : Kept (w.proceed g) := by
  unfold World.proceed
  split
  · exact h.endCall _
  · split
    · next hnone =>
      rcases hknown with hk | hsome
      · exact hk
      · rw [hnone] at hsome
        cases hsome
    · next conn _ =>
      have hregistered : ∀ i conn live, Kept (put { w.setConnection i conn with live := live } g.call none) :=
        fun i conn live => h.other rfl rfl rfl rfl
      split
      · exact h.endCall _
      · dsimp only
        split
        · exact (hregistered _ _ _).put_plain (show Plain (.sending _ _) from trivial)
        · exact (hregistered _ _ _).endCall _

theorem leaves_begin (h : Kept w) (exchange : PyStr) (request : Request) (now : Rat) :
    Leaves w.nextCall (w.begin exchange request now) := by
  have hbegun : Kept { w with nextCall := w.nextCall + 1 } := h.other rfl rfl rfl rfl
  unfold World.begin
  dsimp only
  split
  · exact leaves_none ((hbegun.put_none _).endCall _)
  · next entry hget =>
    split
    · refine leaves_none (((hbegun.waiters entry.pool _).put_none _).put_some ?_ ?_ ?_)
      · rintro _ _ _ ⟨⟩
        exact ⟨entry, hget, rfl⟩
      · exact fun p hp => False.elim hp
      · rintro _ _ _ _ _ ⟨⟩
    · next hopen =>
      have hlocked : (w.pools entry.pool).locked = false := by
        cases hl : (w.pools entry.pool).locked with
        | false => rfl
        | true => simp [hl] at hopen
      have hfree : Free entry.pool w := h.free hlocked
      have htaken : Kept ({ w with nextCall := w.nextCall + 1 }.setPool entry.pool
          { w.pools entry.pool with locked := true }) := hbegun.lock hfree rfl
      refine leaves_enter htaken hfree ?_ hget rfl _ request now
      rw [pools_setPool, if_pos rfl]

theorem leaves_resume (h : Kept w) {c : Nat} {call : Call} (hc : w.calls c = some call) (reply : Reply) (now : Rat) :
    Leaves c (w.resume c call reply now) := by
  cases call with
  | locking exchange request lock =>
    obtain ⟨entry, hget, rfl⟩ := h.waiting c exchange request lock hc
    unfold World.resume
    dsimp only
    split
    · next hgo =>
      have hlocked : (w.pools entry.pool).locked = false := by
        cases hl : (w.pools entry.pool).locked with
        | false => rfl
        | true => simp [hl] at hgo
      have hfree : Free entry.pool w := h.free hlocked
      have htaken : Kept (w.setPool entry.pool { w.pools entry.pool with
          locked := true, waiters := (w.pools entry.pool).waiters.tail }) := h.lock hfree rfl
      refine leaves_enter htaken hfree ?_ hget rfl c request now
      rw [pools_setPool, if_pos rfl]
    · exact leaves_none h
  | dialing exchange purpose lock p i => exact leaves_dialed h hc reply now
  | sending exchange id =>
    unfold World.resume
    dsimp only
    split
    · exact leaves_none ((h.put_none c).endCall _)
    · exact leaves_none ((h.put_none c).put_plain trivial)
  | publishing id => cases reply <;> exact leaves_none ((h.put_none c).endCall _)
  | unsending exchange lock =>
    have hreleased : Kept (put (w.release lock) c none) := (h.put_none c).release (h.free_others hc rfl)
    unfold World.resume
    dsimp only
    split
    · exact leaves_none (hreleased.endCall _)
    · exact leaves_none (hreleased.put_plain trivial)
  | unpublishing => cases reply <;> exact leaves_none ((h.put_none c).endCall _)

end

/-! ## `add_exchange` and `close_all` -/

theorem pools_addExchange (w : World) (config : WebSocketConfig) {p : Nat} (hp : p < w.nextPool) :
    (w.addExchange config).pools p = w.pools p := by
  have hne : p ≠ w.nextPool := by omega
  exact Function.update_of_ne hne _ _

/-- A new name gets a pool of its own. -/
theorem kept_addExchange {w : World} (h : Kept w) {config : WebSocketConfig}
    (hnew : w._pools.get config.exchangeName = none) : Kept (w.addExchange config) := by
  have hget : ∀ {k entry}, (w.addExchange config)._pools.get k = some entry →
      k = config.exchangeName ∧ entry = ⟨config, w.nextPool⟩ ∨ w._pools.get k = some entry := by
    intro k entry hk
    rw [World.addExchange, Dict.get_set] at hk
    split at hk
    · next he => exact .inl ⟨he, (Option.some.inj hk).symm⟩
    · exact .inr hk
  have hold : ∀ {k entry}, w._pools.get k = some entry → (w.addExchange config)._pools.get k = some entry := by
    intro k entry hk
    rw [World.addExchange, Dict.get_set_other]
    · exact hk
    · rintro rfl
      rw [hnew] at hk
      cases hk
  refine ⟨?_, ?_, ?_, ?_, h.one, ?_, ?_⟩
  · intro k entry hk
    show entry.pool < w.nextPool + 1
    rcases hget hk with ⟨-, rfl⟩ | hk
    · exact Nat.lt_succ_self _
    · have hlt := h.named k entry hk
      omega
  · intro k k' entry entry' hk hk' hpool
    rcases hget hk with ⟨rfl, rfl⟩ | hk <;> rcases hget hk' with ⟨rfl, rfl⟩ | hk'
    · rfl
    · have hlt := h.named k' entry' hk'
      exact absurd hpool (by show w.nextPool ≠ entry'.pool; omega)
    · have hlt := h.named k entry hk
      exact absurd hpool (by show entry.pool ≠ w.nextPool; omega)
    · exact h.distinct k k' entry entry' hk hk' hpool
  · intro c exchange request lock hc
    obtain ⟨entry, hk, hpool⟩ := h.waiting c exchange request lock hc
    exact ⟨entry, hold hk, hpool⟩
  · intro c call p hc hp
    obtain ⟨hlocked, hlt⟩ := h.holder c call p hc hp
    rw [pools_addExchange w config hlt]
    exact ⟨hlocked, Nat.lt_succ_of_lt hlt⟩
  · intro c exchange purpose lock p i hc
    obtain ⟨hlock, entry, hk, rfl, hroom⟩ := h.dialing c exchange purpose lock p i hc
    rw [pools_addExchange w config (h.named exchange entry hk)]
    exact ⟨hlock, entry, hold hk, rfl, hroom⟩
  · intro k entry hk
    rcases hget hk with ⟨-, rfl⟩ | hk
    · have hempty : (w.addExchange config).pools w.nextPool = ⟨[], false, []⟩ := Function.update_self ..
      rw [hempty]
      exact Nat.zero_le _
    · rw [pools_addExchange w config (h.named k entry hk)]
      exact h.bounded k entry hk

/-- `close_all` takes connections out of pools and leaves their locks alone. -/
structure Shrinks (w w' : World) : Prop where
  calls : w'.calls = w.calls
  entries : w'._pools = w._pools
  next : w'.nextPool = w.nextPool
  locked : ∀ p, (w'.pools p).locked = (w.pools p).locked
  members : ∀ p, (w'.pools p).members.length ≤ (w.pools p).members.length

theorem Shrinks.refl (w : World) : Shrinks w w := ⟨rfl, rfl, rfl, fun _ => rfl, fun _ => le_rfl⟩

theorem shrinks_disconnect (w : World) (i d : Nat) (l : WebSocketTasks.Label) : Shrinks w (w.disconnect i d l).1 := by
  unfold World.disconnect
  split <;> exact ⟨rfl, rfl, rfl, fun _ => rfl, fun _ => le_rfl⟩

theorem shrinks_closingSteps (d : Nat) : ClosingSteps d Shrinks where
  refl := Shrinks.refl
  trans := fun _ _ _ h h' => ⟨h'.calls.trans h.calls, h'.entries.trans h.entries, h'.next.trans h.next,
    fun p => (h'.locked p).trans (h.locked p), fun p => (h'.members p).trans (h.members p)⟩
  before := fun _ => ⟨rfl, rfl, rfl, fun _ => rfl, fun _ => le_rfl⟩
  called := fun w i => shrinks_disconnect w i _ _
  resumed := fun w i _ => shrinks_disconnect w i _ _
  closing := fun _ _ => ⟨rfl, rfl, rfl, fun _ => rfl, fun _ => le_rfl⟩
  clear := fun w exchange p => by
    refine ⟨rfl, rfl, rfl, fun q => ?_, fun q => ?_⟩
    · show (World.pools (w.setPool ..) q).locked = (w.pools q).locked
      rw [pools_setPool]
      split
      · next hq => rw [hq]
      · rfl
    · show (World.pools (w.setPool ..) q).members.length ≤ (w.pools q).members.length
      rw [pools_setPool]
      split
      · exact Nat.zero_le _
      · exact le_rfl

theorem Kept.shrink {w w' : World} (h : Kept w) (hs : Shrinks w w') : Kept w' :=
  h.change hs.calls hs.entries hs.next (fun p => .inl (hs.locked p)) fun p => .inl (hs.members p)

/-! ## The runs -/

theorem Leaves.step {w : World} {l : Label} {c : Nat} (h : Leaves c (advance w l)) : Kept (step w l) := by
  unfold WebSocketManagers.step
  split
  · next next heq =>
    rw [heq] at h
    exact h.waits rfl
  · next next g heq =>
    rw [heq] at h
    obtain ⟨rfl, hk, hknown⟩ := h.returns g rfl
    exact kept_proceed hk hknown

theorem kept_step {w : World} {l : Label} (h : Kept w)
    (ho : ∀ config, l = .addExchange config → w._pools.get config.exchangeName = none) : Kept (step w l) := by
  suffices hleaves : ∃ c, Leaves c (advance w l) by
    obtain ⟨c, hleaves⟩ := hleaves
    exact hleaves.step
  cases l with
  | addExchange config => exact ⟨0, leaves_none (kept_addExchange h (ho config rfl))⟩
  | call exchange request now => exact ⟨w.nextCall, leaves_begin h exchange request now⟩
  | resume c reply now =>
    refine ⟨c, ?_⟩
    simp only [advance]
    split
    · exact leaves_none h
    · next call hc => exact leaves_resume h hc reply now
  | closeAll =>
    refine ⟨0, ?_⟩
    simp only [advance]
    split
    · exact leaves_none (h.shrink ((shrinks_closingSteps 1).closeAll w))
    · exact leaves_none h
  | resumeCloseAll reply => exact ⟨0, leaves_none (h.shrink ((shrinks_closingSteps 1).resumeCloseAll w reply))⟩
  | connection i task result =>
    refine ⟨0, ?_⟩
    simp only [advance]
    split
    · exact leaves_none h
    · exact leaves_none (kept_setConnection h i _)

/-- A further call of `close_all` does a part of it. -/
theorem kept_closes {m : Manager} (h : Kept m.world) (n : Nat) {part : World → World}
    (hs : ∀ w, Shrinks w (part w)) : Kept (m.closes n part).world := by
  have hplace : Kept { m.world with closing := m.closings n } := h.other rfl rfl rfl rfl
  exact (hplace.shrink (hs _)).other rfl rfl rfl rfl

theorem kept_act {m : Manager} {a : Manager.Act} (h : Kept m.world) (ho : AddedOnce m a) : Kept (m.step a).world := by
  cases a with
  | own l =>
    refine kept_step h ?_
    rintro config rfl
    exact ho
  | closeAgain => exact kept_closes h _ (shrinks_closingSteps _).closeAll
  | resumeAgain n reply => exact kept_closes h n fun w => (shrinks_closingSteps _).resumeCloseAll w reply

/-! ## A connect that fails -/

section

variable {w : World}

theorem members_of_net {w' : World} (h : net w' = net w) (q : Nat) : (w'.pools q).members = (w.pools q).members :=
  congrFun (congrArg Net.members h) q

theorem members_getLocked (c : Nat) (exchange : PyStr) (purpose : Purpose) (lock : Nat) (now : Rat) (q : Nat) :
    ((w.getLocked c exchange purpose lock now).1.pools q).members = (w.pools q).members := by
  unfold World.getLocked
  split
  · exact members_of_net (net_raised w lock c _) q
  · dsimp only
    split
    · exact members_of_net (net_release w lock) q
    · split
      · rfl
      · split
        · exact members_of_net (net_raised w lock c _) q
        · exact members_of_net (net_release _ lock) q

theorem members_enter (c : Nat) (exchange : PyStr) (request : Request) (lock : Nat) (now : Rat) (q : Nat) :
    ((w.enter c exchange request lock now).1.pools q).members = (w.pools q).members := by
  cases request with
  | get purpose => exact members_getLocked c exchange purpose lock now q
  | unsubscribe id => exact members_of_net (net_unsubscribeLocked w c exchange id lock) q

theorem members_begin (exchange : PyStr) (request : Request) (now : Rat) (q : Nat) :
    ((w.begin exchange request now).1.pools q).members = (w.pools q).members := by
  unfold World.begin
  dsimp only
  split
  · rfl
  · next entry _ =>
    split
    · exact members_of_net (net_setPool (by rfl)) q
    · rw [members_enter]
      exact members_of_net (net_setPool (by rfl)) q

/-- The step in which a call appends to a pool: its `connect` has succeeded. -/
def Connects (w : World) : Label → Prop
  | .resume c .done _ => ∃ exchange purpose lock p i, w.calls c = some (.dialing exchange purpose lock p i)
  | _ => False

/-- A step of a call. -/
def IsCall : Label → Prop
  | .call _ _ _ | .resume _ _ _ => True
  | _ => False

theorem members_resume {c : Nat} {call : Call} (reply : Reply) (now : Rat)
    (hno : ∀ exchange purpose lock p i, call = .dialing exchange purpose lock p i → reply ≠ .done) (q : Nat) :
    ((w.resume c call reply now).1.pools q).members = (w.pools q).members := by
  cases call with
  | locking exchange request lock =>
    unfold World.resume
    dsimp only
    split
    · rw [members_enter]
      exact members_of_net (net_setPool (by rfl)) q
    · rfl
  | dialing exchange purpose lock p i =>
    unfold World.resume World.dialed
    dsimp only
    split
    · rfl
    · cases reply with
      | done => exact absurd rfl (hno exchange purpose lock p i rfl)
      | lost detail => exact members_of_net (net_raised _ lock c _) q
      | raised exc => exact members_of_net (net_raised _ lock c _) q
  | sending exchange id =>
    unfold World.resume
    dsimp only
    split <;> rfl
  | publishing id => cases reply <;> rfl
  | unsending exchange lock =>
    unfold World.resume
    dsimp only
    split
    · exact members_of_net (net_raised w lock c _) q
    · exact members_of_net (net_release w lock) q
  | unpublishing => cases reply <;> rfl

theorem members_advance {l : Label} (hl : IsCall l) (hno : ¬ Connects w l) (q : Nat) :
    ((advance w l).1.pools q).members = (w.pools q).members := by
  cases l with
  | call exchange request now => exact members_begin exchange request now q
  | resume c reply now =>
    simp only [advance]
    split
    · rfl
    · next call hc =>
      refine members_resume reply now ?_ q
      rintro exchange purpose lock p i rfl rfl
      exact hno ⟨exchange, purpose, lock, p, i, hc⟩
  | addExchange config => exact False.elim hl
  | closeAll => exact False.elim hl
  | resumeCloseAll reply => exact False.elim hl
  | connection i task result => exact False.elim hl

/-- Only a `connect` that succeeds changes a pool. -/
theorem members_step {l : Label} (hl : IsCall l) (hno : ¬ Connects w l) (q : Nat) :
    ((step w l).pools q).members = (w.pools q).members := by
  have hadvance := members_advance hl hno q
  unfold step
  split
  · next next heq =>
    rw [heq] at hadvance
    exact hadvance
  · next next g heq =>
    rw [heq] at hadvance
    exact (members_of_net (net_proceed next g) q).trans hadvance

/-- The pool is not empty where the round robin takes its index. -/
theorem log_getLocked (w : World) (c : Nat) (exchange : PyStr) (purpose : Purpose) (lock : Nat) (now : Rat) :
    (w.getLocked c exchange purpose lock now).1.log ≠ w.log ++ [(c, .raised zeroDivisionError)] := by
  have hsame : w.log ≠ w.log ++ [(c, .raised zeroDivisionError)] := by simp
  unfold World.getLocked
  split
  · intro he
    have hexc := List.append_cancel_left he
    simp [keyError, zeroDivisionError] at hexc
  · next entry _ =>
    dsimp only
    split
    · exact hsame
    · split
      · exact hsame
      · next hfull =>
        have hpos := entry.config.positive
        split
        · next hnone =>
          rw [List.getElem?_eq_none_iff] at hnone
          have hlt := Nat.mod_lt (w._roundRobin exchange) (show 0 < (w.pools entry.pool).members.length by omega)
          omega
        · exact hsame

end

/-- A pool is within its size, a call changes the pools only by a `connect` that
succeeds, and the round robin does not divide by zero. -/
structure Sound (w : World) : Prop where
  bounded : ∀ exchange entry, w._pools.get exchange = some entry →
    (w.pools entry.pool).members.length ≤ entry.config.maxConnections
  failed : ∀ l, IsCall l → ¬ Connects w l → ∀ p, ((step w l).pools p).members = (w.pools p).members
  divides : ∀ c exchange purpose lock now,
    (w.getLocked c exchange purpose lock now).1.log ≠ w.log ++ [(c, .raised zeroDivisionError)]

/-- In every run in which each exchange is added once, whatever the calls, any number
of `close_all` and the connections do in whatever order. -/
theorem sound_of_addedOnce (acts : List Manager.Act) (hm : Meets Manager.step AddedOnce Manager.init acts) :
    Throughout Manager.step (fun m => Sound m.world) Manager.init acts := by
  have ht := throughout_of_meets (P := fun m : Manager => Kept m.world) (fun _ _ h ho => kept_act h ho) kept_init hm
  intro pre hp
  exact ⟨(ht pre hp).bounded, fun l hl hno => members_step hl hno, log_getLocked _⟩

/-- `close_all` comes between the test of the size and the append, while another call
waits for the lock; then it is called twice more, and the two disconnect the same
connection. -/
theorem sound_cleared : Throughout Manager.step (fun m => Sound m.world) Manager.init
    [.own (.addExchange (.plain "OKX")), .own (.call "OKX" (.get .connection) 0),
      .own (.call "OKX" (.get .connection) 0), .own .closeAll, .own (.resume 0 .done 0), .own (.resume 1 .done 0),
      .closeAgain, .closeAgain, .resumeAgain 1 .done, .own (.connection 0 0 .done), .resumeAgain 0 .done,
      .own (.call "OKX" (.get .connection) 1), .resumeAgain 0 .done, .own (.resume 2 .done 1)] := by
  refine sound_of_addedOnce _ ?_
  simp only [meets_cons]
  exact ⟨rfl, trivial, trivial, trivial, trivial, trivial, trivial, trivial, trivial, trivial, trivial, trivial,
    trivial, trivial, meets_nil _ _ _⟩

end WebSocketPools
