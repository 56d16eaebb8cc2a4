import BtApiBase.WebSocketManagers
import BtApiBase.WebSocketStops

/-!
# Closing all connections

What matters to `close_all` is the order of the pools, their members and the
states of the connections. While it walks, every connection is down for good, or
is the one whose `disconnect` it awaits, or stands at a place that the walk still
comes to. A connection that is appended behind the walk, or whose pool is
replaced before it, is at no such place.
-/

namespace WebSocketClosing

open PyText PyDict WebSocketManagers WebSocketReconnects WebSocketStops Runs

/-- The pools, their members and the states of the connections. -/
structure Net where
  entries : List (PyStr × Exchange)
  members : Nat → List Nat
  states : Nat → Option WebSocketTasks.World
  nextPool : Nat
  nextConnection : Nat
  closing : Closing

def net (w : World) : Net where
  entries := w._pools.items
  members p := (w.pools p).members
  states i := (w.connections i).map (·.state)
  nextPool := w.nextPool
  nextConnection := w.nextConnection
  closing := w.closing

namespace Net

variable (n : Net)

/-- The pool of an entry of the dictionary. -/
def poolAt (j : Nat) : Option Nat := n.entries[j]?.map (·.2.pool)

/-- Pool `p` is that of an entry from `k` on. -/
def Later (k p : Nat) : Prop := ∃ j, k ≤ j ∧ n.poolAt j = some p

/-- `close_all` has yet to walk pool `p`, or is in it. -/
def ToWalk (p : Nat) : Prop :=
  match n.closing with
  | .idle => n.Later 0 p
  | .walking _ k _ q _ _ => p = q ∨ n.Later (k + 1) p
  | .cancelling | .returned => False
  | .raised => True

/-- A pool may be replaced when its connections are down for good, or while
`close_all` is in it. -/
def Replaceable (p : Nat) : Prop :=
  (∃ size k exchange m i, n.closing = .walking size k exchange p m i) ∨
    ∀ i ∈ n.members p, ∀ s, n.states i = some s → Down s

end Net

/-- A connection is appended to a pool that is still to be walked, `add_exchange`
replaces no pool with a connection that is up or may come up, and no connection is
seen to be lost while it restores its subscriptions. -/
def Tending (w : World) : Label → Prop
  | .addExchange config => ∀ entry, w._pools.get config.exchangeName = some entry →
    (net w).Replaceable entry.pool
  | .resume c .done _ => ∀ exchange purpose lock pool i,
    w.calls c = some (.dialing exchange purpose lock pool i) → (net w).ToWalk pool
  | .connection i task result => ∀ conn, w.connections i = some conn →
    Orderly conn.state (.resume task result conn.subscriptionCount)
  | _ => True

/-- Once `close_all` has returned and the calls that began before it have ended, no
connection is connected or running. -/
def AllClosed (w : World) : Prop :=
  w.closing = .returned → (∀ c < w.before, w.calls c = none) →
    ∀ i conn, w.connections i = some conn → conn.connected = false ∧ conn.running = false

/-! ## The invariant -/

structure Base (n : Net) : Prop where
  settled : ∀ i s, n.states i = some s → Settled s
  closes : ∀ i s call, n.states i = some s → s.calls 1 = some call → call.isDisconnect
  distinct : ∀ j j' p, n.poolAt j = some p → n.poolAt j' = some p → j = j'
  bound : ∀ j p, n.poolAt j = some p → p < n.nextPool
  fresh : ∀ i, n.nextConnection ≤ i → n.states i = none

/-- Every connection is down for good, or `here`, or at a place of a pool that is
`ahead`. -/
def Covered (n : Net) (here : Nat → Prop) (ahead : Nat → Nat → Prop) : Prop :=
  ∀ i s, n.states i = some s → Down s ∨ here i ∨ ∃ p m, (n.members p)[m]? = some i ∧ ahead p m

/-- The places after `m` in pool `p` and those of the entries from `k` on. -/
def After (n : Net) (k p m : Nat) : Nat → Nat → Prop := fun q l => q = p ∧ m ≤ l ∨ n.Later k q

/-- `close_all` awaits the `disconnect` of connection `i`. -/
structure Walking (n : Net) (k p m i : Nat) : Prop where
  lt : p < n.nextPool
  passed : ¬ n.Later (k + 1) p
  member : m < (n.members p).length
  awaited : ∃ s call, n.states i = some s ∧ s.calls 1 = some call
  covered : Covered n (· = i) (After n (k + 1) p (m + 1))

def Guarded (n : Net) : Prop :=
  match n.closing with
  | .idle => Covered n (fun _ => False) fun p _ => n.Later 0 p
  | .walking _ k _ p m i => Walking n k p m i
  | .cancelling | .returned => Covered n (fun _ => False) fun _ _ => False
  | .raised => True

structure Tidy (n : Net) : Prop extends Base n where
  guarded : Guarded n

theorem tidy_init : Tidy (net init) where
  settled := nofun
  closes := nofun
  distinct := nofun
  bound := nofun
  fresh _ _ := rfl
  guarded := nofun

theorem Tidy.allClosed {w : World} (h : Tidy (net w)) : AllClosed w := by
  intro hret _ i conn hi
  have hg := h.guarded
  have hclosing : (net w).closing = .returned := hret
  unfold Guarded at hg
  rw [hclosing] at hg
  rcases hg i conn.state (by simp [net, hi]) with hdown | hno | ⟨p, m, -, hno⟩
  · exact ⟨hdown.connected, hdown.running⟩
  · exact absurd hno id
  · exact absurd hno id

/-! ## One connection changes -/

namespace Net

def act (n : Net) (i : Nat) (s : WebSocketTasks.World) : Net :=
  { n with states := Function.update n.states i (some s) }

theorem states_act (n : Net) (i j : Nat) (s : WebSocketTasks.World) :
    (n.act i s).states j = if j = i then some s else n.states j :=
  Function.update_apply _ _ _ _

end Net

section

variable {n : Net} {i : Nat} {s s' : WebSocketTasks.World}

theorem base_act (h : Base n) (hi : i < n.nextConnection) (hs : Settled s')
    (hc : ∀ call, s'.calls 1 = some call → call.isDisconnect) : Base (n.act i s') := by
  refine ⟨fun j t hj => ?_, fun j t call hj hcall => ?_, h.distinct, h.bound, fun j hj => ?_⟩
  · rw [Net.states_act] at hj
    by_cases hji : j = i
    · rw [if_pos hji] at hj
      cases hj
      exact hs
    · rw [if_neg hji] at hj
      exact h.settled j t hj
  · rw [Net.states_act] at hj
    by_cases hji : j = i
    · rw [if_pos hji] at hj
      cases hj
      exact hc call hcall
    · rw [if_neg hji] at hj
      exact h.closes j t call hj hcall
  · have hge : n.nextConnection ≤ j := hj
    rw [Net.states_act, if_neg (by omega)]
    exact h.fresh j hge

theorem Base.lt (h : Base n) (hi : n.states i = some s) : i < n.nextConnection := by
  by_contra hge
  rw [h.fresh i (by omega)] at hi
  cases hi

/-- A connection that is down stays so, or the one that changes is covered anew. -/
theorem covered_act {here here' : Nat → Prop} {ahead ahead' : Nat → Nat → Prop}
    (h : Covered n here ahead) (hhere : ∀ j, j ≠ i → here j → here' j)
    (hahead : ∀ j p m, j ≠ i → (n.members p)[m]? = some j → ahead p m → ahead' p m)
    (hself : Down s' ∨ here' i ∨ ∃ p m, (n.members p)[m]? = some i ∧ ahead' p m) :
    Covered (n.act i s') here' ahead' := by
  intro j t hj
  rw [Net.states_act] at hj
  by_cases hji : j = i
  · rw [if_pos hji] at hj
    cases hj
    subst hji
    exact hself
  · rw [if_neg hji] at hj
    rcases h j t hj with hd | hh | ⟨p, m, hm, ha⟩
    · exact .inl hd
    · exact .inr (.inl (hhere j hji hh))
    · exact .inr (.inr ⟨p, m, hm, hahead j p m hji hm ha⟩)

theorem covered_step {here : Nat → Prop} {ahead : Nat → Nat → Prop} (h : Covered n here ahead)
    (hi : n.states i = some s) (hdown : Down s → Down s') : Covered (n.act i s') here ahead := by
  refine covered_act h (fun _ _ hh => hh) (fun _ _ _ _ _ ha => ha) ?_
  rcases h i s hi with hd | hrest
  · exact .inl (hdown hd)
  · exact .inr hrest

/-- The call of `disconnect` that is awaited goes on where only another connection, or
another call, moves. -/
theorem awaited_act {k : Nat} (h : ∃ s call, n.states k = some s ∧ s.calls 1 = some call)
    (hi : n.states i = some s) (hcalls : s'.calls 1 = s.calls 1) :
    ∃ t call, (n.act i s').states k = some t ∧ t.calls 1 = some call := by
  obtain ⟨t, call, ht, hcall⟩ := h
  by_cases hki : k = i
  · subst hki
    rw [hi] at ht
    cases ht
    refine ⟨s', call, ?_, hcalls.trans hcall⟩
    rw [Net.states_act, if_pos rfl]
  · refine ⟨t, call, ?_, hcall⟩
    rw [Net.states_act, if_neg hki]
    exact ht

/-- A step inside one connection that leaves `disconnect` alone. -/
theorem tidy_act (h : Tidy n) (hi : n.states i = some s) (hs : Settled s')
    (hcalls : s'.calls 1 = s.calls 1) (hdown : Down s → Down s') : Tidy (n.act i s') := by
  have hbase : Base (n.act i s') := by
    refine base_act h.toBase (h.lt hi) hs fun call hcall => ?_
    rw [hcalls] at hcall
    exact h.closes i s call hi hcall
  refine ⟨hbase, ?_⟩
  have hg := h.guarded
  unfold Guarded at hg ⊢
  have hclosing : (n.act i s').closing = n.closing := rfl
  rw [hclosing]
  cases hc : n.closing with
  | idle =>
    rw [hc] at hg
    exact covered_step hg hi hdown
  | walking size k exchange p m j =>
    rw [hc] at hg
    exact ⟨hg.lt, hg.passed, hg.member, awaited_act hg.awaited hi hcalls, covered_step hg.covered hi hdown⟩
  | cancelling =>
    rw [hc] at hg
    exact covered_step hg hi hdown
  | returned =>
    rw [hc] at hg
    exact covered_step hg hi hdown
  | raised => trivial

end

/-! ## New connections -/

section

variable {n : Net}

/-- A connection that is down joins. -/
theorem tidy_dial (h : Tidy n) {s : WebSocketTasks.World} (hs : Settled s) (hd : Down s)
    (hc : s.calls 1 = none) :
    Tidy { n.act n.nextConnection s with nextConnection := n.nextConnection + 1 } := by
  have hnone := h.fresh n.nextConnection (Nat.le_refl _)
  have hlarger : Base { n with nextConnection := n.nextConnection + 1 } :=
    ⟨h.settled, h.closes, h.distinct, h.bound, fun i hi => h.fresh i (Nat.le_of_succ_le hi)⟩
  have hbase := base_act hlarger (Nat.lt_succ_self n.nextConnection) hs (by simp [hc])
  have hcover : ∀ {here : Nat → Prop} {ahead : Nat → Nat → Prop}, Covered n here ahead →
      Covered (n.act n.nextConnection s) here ahead := fun hcov =>
    covered_act hcov (fun _ _ hh => hh) (fun _ _ _ _ _ ha => ha) (.inl hd)
  refine ⟨hbase, ?_⟩
  have hg := h.guarded
  unfold Guarded at hg ⊢
  dsimp only [Net.act]
  cases hclosing : n.closing with
  | idle =>
    rw [hclosing] at hg
    exact hcover hg
  | walking size k exchange p m i =>
    rw [hclosing] at hg
    refine ⟨hg.lt, hg.passed, hg.member, ?_, hcover hg.covered⟩
    obtain ⟨t, call, ht, hcall⟩ := hg.awaited
    refine ⟨t, call, ?_, hcall⟩
    have hne : i ≠ n.nextConnection := by
      rintro rfl
      rw [hnone] at ht
      cases ht
    exact (n.states_act n.nextConnection i s).trans ((if_neg hne).trans ht)
  | cancelling =>
    rw [hclosing] at hg
    exact hcover hg
  | returned =>
    rw [hclosing] at hg
    exact hcover hg
  | raised => trivial

def Net.append (n : Net) (p i : Nat) : Net :=
  { n with members := Function.update n.members p (n.members p ++ [i]) }

theorem Net.members_append (n : Net) (p i q : Nat) :
    (n.append p i).members q = if q = p then n.members p ++ [i] else n.members q :=
  Function.update_apply _ _ _ _

theorem Net.place_append (n : Net) (p i : Nat) {q m j : Nat} (h : (n.members q)[m]? = some j) :
    ((n.append p i).members q)[m]? = some j := by
  rw [Net.members_append]
  by_cases hq : q = p
  · subst hq
    rw [if_pos rfl, List.getElem?_append_left (List.getElem?_eq_some_iff.mp h).1]
    exact h
  · rw [if_neg hq]
    exact h

/-- A connection comes up and joins a pool that is ahead. -/
theorem covered_dialed {here : Nat → Prop} {ahead : Nat → Nat → Prop} (h : Covered n here ahead)
    {p i : Nat} {s : WebSocketTasks.World} (hahead : ahead p (n.members p).length) :
    Covered ((n.act i s).append p i) here ahead := by
  have hold : Covered (n.act i s) (fun j => here j ∨ j = i) ahead :=
    covered_act h (fun _ _ hh => .inl hh) (fun _ _ _ _ _ ha => ha) (.inr (.inl (.inr rfl)))
  intro j t hj
  rcases hold j t hj with hd | (hh | rfl) | ⟨q, m, hm, ha⟩
  · exact .inl hd
  · exact .inr (.inl hh)
  · refine .inr (.inr ⟨p, (n.members p).length, ?_, hahead⟩)
    rw [Net.members_append, if_pos rfl]
    exact List.getElem?_concat_length
  · exact .inr (.inr ⟨q, m, (n.act i s).place_append p i hm, ha⟩)

theorem tidy_dialed (h : Tidy n) {i p : Nat} {s s' : WebSocketTasks.World} (hi : n.states i = some s)
    (hs : Settled s') (hcalls : s'.calls 1 = s.calls 1) (hto : n.ToWalk p) :
    Tidy ((n.act i s').append p i) := by
  have hbase : Base (n.act i s') := by
    refine base_act h.toBase (h.lt hi) hs fun call hcall => ?_
    rw [hcalls] at hcall
    exact h.closes i s call hi hcall
  refine ⟨⟨hbase.settled, hbase.closes, hbase.distinct, hbase.bound, hbase.fresh⟩, ?_⟩
  have hg := h.guarded
  unfold Net.ToWalk at hto
  unfold Guarded at hg ⊢
  dsimp only [Net.act, Net.append]
  cases hc : n.closing with
  | idle =>
    rw [hc] at hg hto
    exact covered_dialed hg hto
  | walking size k exchange q m j =>
    rw [hc] at hg hto
    refine ⟨hg.lt, hg.passed, ?_, awaited_act hg.awaited hi hcalls, covered_dialed hg.covered ?_⟩
    · show m < ((n.append p i).members q).length
      rw [Net.members_append]
      by_cases hq : q = p
      · subst hq
        have hm := hg.member
        rw [if_pos rfl, List.length_append]
        omega
      · rw [if_neg hq]
        exact hg.member
    · rcases hto with rfl | hlater
      · exact .inl ⟨rfl, hg.member⟩
      · exact .inr hlater
  | cancelling =>
    rw [hc] at hto
    exact absurd hto id
  | returned =>
    rw [hc] at hto
    exact absurd hto id
  | raised => trivial

end

/-! ## `add_exchange` -/

section

variable {w : World} (config : WebSocketConfig)

/-- The entries after `add_exchange`: the new one, and the others where they were. -/
theorem entries_add {j : Nat} {name : PyStr} {entry : Exchange}
    (h : (net (w.addExchange config)).entries[j]? = some (name, entry)) :
    name = config.exchangeName ∧ entry.pool = w.nextPool ∨
      name ≠ config.exchangeName ∧ (net w).entries[j]? = some (name, entry) := by
  by_cases hname : name = config.exchangeName
  · subst hname
    have hget := Dict.get_of_mem (w._pools.set config.exchangeName ⟨config, w.nextPool⟩)
      (List.mem_of_getElem? h)
    rw [Dict.get_set_same] at hget
    cases hget
    exact .inl ⟨rfl, rfl⟩
  · exact .inr ⟨hname, (getElem?_put_other hname _ _ _ _).mp h⟩

theorem poolAt_add {j p : Nat} (h : (net (w.addExchange config)).poolAt j = some p) :
    p = w.nextPool ∧ (∃ entry, (net (w.addExchange config)).entries[j]? = some (config.exchangeName, entry)) ∨
      (net w).poolAt j = some p := by
  obtain ⟨⟨name, entry⟩, hj, rfl⟩ := Option.map_eq_some_iff.mp h
  rcases entries_add config hj with ⟨rfl, hpool⟩ | ⟨-, hold⟩
  · exact .inl ⟨hpool, entry, hj⟩
  · refine .inr ?_
    unfold Net.poolAt
    rw [hold]
    rfl

/-- A pool stays where it was, or it is the one that is replaced. -/
theorem later_add {k p : Nat} (h : (net w).Later k p) : (net (w.addExchange config)).Later k p ∨
    ∃ entry, w._pools.get config.exchangeName = some entry ∧ entry.pool = p := by
  obtain ⟨j, hkj, hat⟩ := h
  obtain ⟨⟨name, entry⟩, hj, rfl⟩ := Option.map_eq_some_iff.mp hat
  by_cases hname : name = config.exchangeName
  · subst hname
    exact .inr ⟨entry, Dict.get_of_mem w._pools (List.mem_of_getElem? hj), rfl⟩
  · refine .inl ⟨j, hkj, ?_⟩
    have hnew : (net (w.addExchange config)).entries[j]? = some (name, entry) :=
      (getElem?_put_other hname _ _ _ _).mpr hj
    unfold Net.poolAt
    rw [hnew]
    rfl

theorem base_add (h : Base (net w)) : Base (net (w.addExchange config)) := by
  refine ⟨h.settled, h.closes, fun j j' p hj hj' => ?_, fun j p hj => ?_, h.fresh⟩
  · rcases poolAt_add config hj with ⟨rfl, entry, he⟩ | hj
    · rcases poolAt_add config hj' with ⟨-, entry', he'⟩ | hj'
      · -- both are the new entry, and no name stands twice
        have hn := (w._pools.set config.exchangeName ⟨config, w.nextPool⟩).nodup
        have hkey : ∀ {l : Nat} {e : Exchange}, (net (w.addExchange config)).entries[l]? = some (config.exchangeName, e) →
            ((net (w.addExchange config)).entries.map Prod.fst)[l]? = some config.exchangeName := by
          intro l e hl
          rw [List.getElem?_map, hl]
          rfl
        have hlt := (List.getElem?_eq_some_iff.mp (hkey he)).1
        exact (List.getElem?_inj hlt hn).mp ((hkey he).trans (hkey he').symm)
      · exact absurd (h.bound j' _ hj') (Nat.lt_irrefl _)
    · rcases poolAt_add config hj' with ⟨rfl, -⟩ | hj'
      · exact absurd (h.bound j _ hj) (Nat.lt_irrefl _)
      · exact h.distinct j j' p hj hj'
  · rcases poolAt_add config hj with ⟨rfl, -⟩ | hj
    · exact Nat.lt_succ_self _
    · exact Nat.lt_succ_of_lt (h.bound j p hj)

theorem Base.later_lt {n : Net} (h : Base n) {k p : Nat} (hl : n.Later k p) : p < n.nextPool := by
  obtain ⟨j, -, hj⟩ := hl
  exact h.bound j p hj

theorem members_add {p : Nat} (hp : p < w.nextPool) :
    (net (w.addExchange config)).members p = (net w).members p := by
  show (Function.update w.pools w.nextPool ⟨[], false, []⟩ p).members = _
  rw [Function.update_of_ne (by omega)]
  rfl

/-- The connections of the pool that is replaced are down, and the others stay covered. -/
theorem covered_add {here : Nat → Prop} {ahead ahead' : Nat → Nat → Prop} (h : Covered (net w) here ahead)
    (hlt : ∀ p m, ahead p m → p < w.nextPool)
    (hkeep : ∀ p m, ahead p m → ahead' p m ∨
      ∀ i ∈ (net w).members p, ∀ s, (net w).states i = some s → Down s) :
    Covered (net (w.addExchange config)) here ahead' := by
  intro i s hi
  rcases h i s hi with hd | hh | ⟨p, m, hm, ha⟩
  · exact .inl hd
  · exact .inr (.inl hh)
  · rcases hkeep p m ha with ha' | hdown
    · refine .inr (.inr ⟨p, m, ?_, ha'⟩)
      rw [members_add config (hlt p m ha)]
      exact hm
    · exact .inl (hdown i (List.mem_of_getElem? hm) s hi)

theorem tidy_addExchange (h : Tidy (net w)) (ho : Tending w (.addExchange config)) :
    Tidy (net (w.addExchange config)) := by
  refine ⟨base_add config h.toBase, ?_⟩
  have hg := h.guarded
  unfold Guarded at hg ⊢
  have hclosing : (net (w.addExchange config)).closing = (net w).closing := rfl
  rw [hclosing]
  cases hc : (net w).closing with
  | idle =>
    rw [hc] at hg
    refine covered_add config hg (fun p _ hl => h.later_lt hl) fun p _ hl => ?_
    rcases later_add config hl with hl | ⟨entry, hget, rfl⟩
    · exact .inl hl
    · rcases ho entry hget with ⟨_, _, _, _, _, hwalk⟩ | hdown
      · rw [hc] at hwalk
        cases hwalk
      · exact .inr hdown
  | walking size k exchange p m i =>
    rw [hc] at hg
    have hpassed : ¬ (net (w.addExchange config)).Later (k + 1) p := by
      rintro ⟨j, hkj, hj⟩
      rcases poolAt_add config hj with ⟨rfl, -⟩ | hj
      · exact absurd hg.lt (Nat.lt_irrefl _)
      · exact hg.passed ⟨j, hkj, hj⟩
    refine ⟨Nat.lt_succ_of_lt hg.lt, hpassed, ?_, hg.awaited, covered_add config hg.covered ?_ ?_⟩
    · rw [members_add config hg.lt]
      exact hg.member
    · rintro q l (⟨rfl, -⟩ | hl)
      · exact hg.lt
      · exact h.later_lt hl
    · rintro q l (hq | hl)
      · exact .inl (.inl hq)
      · rcases later_add config hl with hl' | ⟨entry, hget, rfl⟩
        · exact .inl (.inr hl')
        · rcases ho entry hget with ⟨_, _, _, _, _, hwalk⟩ | hdown
          · rw [hc] at hwalk
            cases hwalk
            exact absurd hl hg.passed
          · exact .inr hdown
  | cancelling =>
    rw [hc] at hg
    exact covered_add config hg (fun _ _ ha => absurd ha id) fun _ _ ha => absurd ha id
  | returned =>
    rw [hc] at hg
    exact covered_add config hg (fun _ _ ha => absurd ha id) fun _ _ ha => absurd ha id
  | raised => trivial

end

/-! ## `close_all` -/

theorem net_setConnection (w : World) (i : Nat) (conn : WebSocketConnection) :
    net (w.setConnection i conn) = (net w).act i conn.state := by
  unfold net Net.act World.setConnection
  congr 1
  funext j
  simp only [Function.update_apply]
  by_cases hj : j = i
  · rw [if_pos hj, if_pos hj]
    rfl
  · rw [if_neg hj, if_neg hj]

/-- `disconnect` was called for connection `i`, or went on. -/
structure Disconnects (w w' : World) (i : Nat) (progress : World.Progress) : Prop where
  base : Base (net w')
  pools : w'._pools = w._pools
  members : (net w').members = (net w).members
  nextPool : w'.nextPool = w.nextPool
  closing : w'.closing = w.closing
  covered : ∀ here ahead, Covered (net w) here ahead → Covered (net w') here ahead
  ended : progress = .ended → ∀ s, (net w').states i = some s → Down s
  waits : progress = .waits → ∃ s call, (net w').states i = some s ∧ s.calls 1 = some call

theorem disconnect_some {w : World} {i : Nat} {conn : WebSocketConnection} (hi : w.connections i = some conn)
    (l : WebSocketTasks.Label) : w.disconnect i 1 l = (w.setConnection i (conn.act l),
      if conn.state.raises 1 then .raised
      else if (conn.act l).state.calls 1 = none then .ended else .waits) := by
  unfold World.disconnect
  rw [hi]

/-- A step of `disconnect`: after it the connection is down, or the call is in progress,
or it has raised. -/
theorem disconnects_of {w : World} (h : Base (net w)) (i : Nat) (l : WebSocketTasks.Label)
    (hstep : ∀ s, (net w).states i = some s →
      let next := WebSocketTasks.step s l
      Settled next ∧ (∀ call, next.calls 1 = some call → call.isDisconnect) ∧ (Down s → Down next) ∧
        (s.raises 1 = false → next.calls 1 = none → Stopped next)) :
    Disconnects w (w.disconnect i 1 l).1 i (w.disconnect i 1 l).2 := by
  cases hi : w.connections i with
  | none =>
    unfold World.disconnect
    rw [hi]
    refine ⟨h, rfl, rfl, rfl, rfl, fun _ _ hcov => hcov, fun _ s hs => ?_, nofun⟩
    have hnone : (net w).states i = none := by simp [net, hi]
    rw [hnone] at hs
    cases hs
  | some conn =>
    have hs : (net w).states i = some conn.state := by simp [net, hi]
    obtain ⟨hsettled, hcalls, hdown, hstopped⟩ := hstep conn.state hs
    have hnet := net_setConnection w i (conn.act l)
    have hself : (net (w.setConnection i (conn.act l))).states i = some (conn.act l).state := by
      rw [hnet, Net.states_act, if_pos rfl]
    rw [disconnect_some hi]
    refine ⟨?_, rfl, rfl, rfl, rfl, fun here ahead hcov => ?_, fun hended s hs' => ?_, fun hwaits => ?_⟩
    · rw [hnet]
      exact base_act h (h.lt hs) hsettled hcalls
    · rw [hnet]
      exact covered_step hcov hs hdown
    · dsimp only at hended hs'
      rw [hself] at hs'
      cases hs'
      have hraise : conn.state.raises 1 = false := by
        by_contra hne
        rw [if_pos (by simpa using hne)] at hended
        cases hended
      rw [if_neg (by simp [hraise])] at hended
      have hnone : (conn.act l).state.calls 1 = none := by
        by_contra hne
        rw [if_neg hne] at hended
        cases hended
      have hstop := hstopped hraise hnone
      exact down_of_stopped hsettled hstop.running hstop.processingTask hstop.connected
    · dsimp only at hwaits
      refine ⟨(conn.act l).state, ?_⟩
      cases hcall : (conn.act l).state.calls 1 with
      | some call => exact ⟨call, hself, rfl⟩
      | none =>
        rw [hcall, if_pos rfl] at hwaits
        split at hwaits <;> cases hwaits

/-- `close_all` calls `disconnect`. -/
theorem disconnects_call {w : World} (h : Base (net w)) (i : Nat) :
    Disconnects w (w.disconnect i 1 (.disconnect 1)).1 i (w.disconnect i 1 (.disconnect 1)).2 := by
  refine disconnects_of h i _ fun s hs => ⟨settled_step (h.settled i s hs) trivial, ?_, ?_, ?_⟩
  · exact isDisconnect_disconnect fun call => h.closes i s call hs
  · exact fun hd => down_disconnect hd 1
  · exact stopped_disconnect

/-- The `disconnect` that `close_all` awaits goes on. -/
theorem disconnects_resume {w : World} (h : Base (net w)) {i : Nat}
    (hawaited : ∃ s call, (net w).states i = some s ∧ s.calls 1 = some call)
    (result : WebSocketTasks.Result) :
    Disconnects w (w.disconnect i 1 (.resumeCall 1 result)).1 i (w.disconnect i 1 (.resumeCall 1 result)).2 := by
  refine disconnects_of h i _ fun s hs => ⟨settled_step (h.settled i s hs) trivial, ?_, ?_, ?_⟩
  · exact isDisconnect_resumeCall (fun call => h.closes i s call hs) result
  · refine fun hd => down_resumeCall hd 1 result fun hdialing => ?_
    cases h.closes i s _ hs hdialing
  · obtain ⟨t, call, ht, hcall⟩ := hawaited
    rw [hs] at ht
    cases ht
    exact fun hraise hend => stopped_resumeCall (h.settled i s hs) hcall (h.closes i s call hs hcall) hraise hend

/-- A connection that is down no longer counts as awaited, nor does its place. -/
theorem covered_ended {n : Net} {i : Nat} {ahead : Nat → Nat → Prop} (h : Covered n (· = i) ahead)
    (hd : ∀ s, n.states i = some s → Down s) : Covered n (fun _ => False) ahead := by
  intro j s hj
  rcases h j s hj with hdown | rfl | hplace
  · exact .inl hdown
  · exact .inl (hd s hj)
  · exact .inr (.inr hplace)

theorem covered_place {n : Net} {k p m i : Nat} (h : Covered n (fun _ => False) (After n k p m))
    (hm : (n.members p)[m]? = some i) : Covered n (· = i) (After n k p (m + 1)) := by
  intro j s hj
  rcases h j s hj with hdown | hno | ⟨q, l, hl, hahead⟩
  · exact .inl hdown
  · exact absurd hno id
  · rcases hahead with ⟨rfl, hle⟩ | hlater
    · by_cases hlm : l = m
      · subst hlm
        rw [hm] at hl
        exact .inr (.inl (Option.some.inj hl).symm)
      · exact .inr (.inr ⟨q, l, hl, .inl ⟨rfl, by omega⟩⟩)
    · exact .inr (.inr ⟨q, l, hl, .inr hlater⟩)

theorem later_congr {w w' : World} (h : w'._pools = w._pools) : (net w').Later = (net w).Later := by
  unfold Net.Later Net.poolAt net
  rw [h]

/-- What the walk of the rest of pool `p` comes to: its end with the pools of later
entries to go, an exception, or an await in it. -/
structure Closes (w : World) (size k : Nat) (exchange : PyStr) (p : Nat) (r : World × Bool) : Prop where
  base : Base (net r.1)
  pools : r.1._pools = w._pools
  nextPool : r.1.nextPool = w.nextPool
  done : r.2 = true → Covered (net r.1) (fun _ => False) fun q _ => (net w).Later (k + 1) q
  stopped : r.2 = false → r.1.closing = .raised ∨ ∃ m i, r.1.closing = .walking size k exchange p m i ∧
    m < ((net r.1).members p).length ∧
    (∃ s call, (net r.1).states i = some s ∧ s.calls 1 = some call) ∧
    Covered (net r.1) (· = i) (After (net w) (k + 1) p (m + 1))

theorem closes_closeMembers (size k : Nat) (exchange : PyStr) (p : Nat) (rest : List Nat) :
    ∀ m w, rest = ((net w).members p).drop m → Base (net w) →
      Covered (net w) (fun _ => False) (After (net w) (k + 1) p m) →
        Closes w size k exchange p (World.closeMembers 1 size k exchange p m rest w) := by
  induction rest with
  | nil =>
    intro m w hrest h hcov
    refine ⟨h, rfl, rfl, fun _ => ?_, nofun⟩
    intro i s hi
    rcases hcov i s hi with hdown | hno | ⟨q, l, hl, hahead⟩
    · exact .inl hdown
    · exact absurd hno id
    · rcases hahead with ⟨rfl, hle⟩ | hlater
      · have hend := List.drop_eq_nil_iff.mp hrest.symm
        have hlt := (List.getElem?_eq_some_iff.mp hl).1
        omega
      · exact .inr (.inr ⟨q, l, hl, hlater⟩)
  | cons i rest ih =>
    intro m w hrest h hcov
    have hplace : ((net w).members p)[m]? = some i := by
      rw [← List.head?_drop, ← hrest]
      rfl
    have htail : rest = ((net w).members p).drop (m + 1) := by
      rw [← List.tail_drop, ← hrest]
      rfl
    have hlt := (List.getElem?_eq_some_iff.mp hplace).1
    have hd := disconnects_call h i
    unfold World.closeMembers
    split
    · next next heq =>
      rw [heq] at hd
      have hcov' := covered_ended (hd.covered _ _ (covered_place hcov hplace)) (hd.ended rfl)
      have hlater := later_congr hd.pools
      have hr := ih (m + 1) next (by rw [hd.members]; exact htail) hd.base
        (by unfold After at hcov' ⊢; rw [hlater]; exact hcov')
      refine ⟨hr.base, hr.pools.trans hd.pools, hr.nextPool.trans hd.nextPool, ?_, ?_⟩
      · rw [← hlater]
        exact hr.done
      · have hstopped := hr.stopped
        unfold After at hstopped ⊢
        rw [← hlater]
        exact hstopped
    · next next heq =>
      rw [heq] at hd
      refine ⟨?_, hd.pools, hd.nextPool, nofun, fun _ => .inr ⟨m, i, rfl, ?_, hd.waits rfl, ?_⟩⟩
      · exact ⟨hd.base.settled, hd.base.closes, hd.base.distinct, hd.base.bound, hd.base.fresh⟩
      · show m < ((net next).members p).length
        rw [hd.members]
        exact hlt
      · exact hd.covered _ _ (covered_place hcov hplace)
    · next next heq =>
      rw [heq] at hd
      refine ⟨?_, hd.pools, hd.nextPool, nofun, fun _ => .inl rfl⟩
      exact ⟨hd.base.settled, hd.base.closes, hd.base.distinct, hd.base.bound, hd.base.fresh⟩

/-- The walk stopped in pool `p`. -/
theorem Closes.tidy {w : World} {size k : Nat} {exchange : PyStr} {p : Nat} {next : World}
    (h : Closes w size k exchange p (next, false)) (hlt : p < w.nextPool)
    (hpassed : ¬ (net w).Later (k + 1) p) : Tidy (net next) := by
  refine ⟨h.base, ?_⟩
  have hlater := later_congr h.pools
  have hnext : (net next).closing = next.closing := rfl
  unfold Guarded
  rw [hnext]
  rcases h.stopped rfl with hraised | ⟨m, i, hwalking, hm, hawaited, hcov⟩
  · rw [hraised]
    trivial
  · rw [hwalking]
    refine ⟨?_, ?_, hm, hawaited, ?_⟩
    · show p < next.nextPool
      rw [h.nextPool]
      exact hlt
    · rw [hlater]
      exact hpassed
    · unfold After at hcov ⊢
      rw [hlater]
      exact hcov

/-- The walk of pool `p` has come to its end. -/
theorem Closes.clear {w : World} {size k : Nat} {exchange : PyStr} {p : Nat} {next : World}
    (h : Closes w size k exchange p (next, true)) (hpassed : ¬ (net w).Later (k + 1) p) (name : PyStr) :
    Base (net (next.clear name p)) ∧
      Covered (net (next.clear name p)) (fun _ => False) fun q _ => (net (next.clear name p)).Later (k + 1) q := by
  have hlater : (net (next.clear name p)).Later = (net w).Later := later_congr h.pools
  refine ⟨⟨h.base.settled, h.base.closes, h.base.distinct, h.base.bound, h.base.fresh⟩, ?_⟩
  intro i s hi
  rcases h.done rfl i s hi with hdown | hno | ⟨q, l, hl, hq⟩
  · exact .inl hdown
  · exact absurd hno id
  · refine .inr (.inr ⟨q, l, ?_, by rw [hlater]; exact hq⟩)
    have hne : q ≠ p := by
      rintro rfl
      exact hpassed hq
    show (Function.update next.pools p _ q).members[l]? = some i
    rw [Function.update_of_ne hne]
    exact hl

theorem tidy_closePools (size : Nat) (rest : List (PyStr × Exchange)) :
    ∀ k w, rest = (net w).entries.drop k → Base (net w) →
      Covered (net w) (fun _ => False) (fun q _ => (net w).Later k q) →
        Tidy (net (World.closePools 1 size k rest w)) := by
  induction rest with
  | nil =>
    intro k w hrest h hcov
    refine ⟨⟨h.settled, h.closes, h.distinct, h.bound, h.fresh⟩, ?_⟩
    intro i s hi
    rcases hcov i s hi with hdown | hno | ⟨q, l, -, j, hkj, hj⟩
    · exact .inl hdown
    · exact absurd hno id
    · obtain ⟨e, he, -⟩ := Option.map_eq_some_iff.mp hj
      have hend := List.drop_eq_nil_iff.mp hrest.symm
      have hlt := (List.getElem?_eq_some_iff.mp he).1
      omega
  | cons e rest ih =>
    intro k w hrest h hcov
    obtain ⟨exchange, entry⟩ := e
    have hat : (net w).poolAt k = some entry.pool := by
      unfold Net.poolAt
      rw [← List.head?_drop, ← hrest]
      rfl
    have htail : rest = (net w).entries.drop (k + 1) := by
      rw [← List.tail_drop, ← hrest]
      rfl
    have hpassed : ¬ (net w).Later (k + 1) entry.pool := by
      rintro ⟨j, hkj, hj⟩
      have heq := h.distinct k j _ hat hj
      omega
    have hcov' : Covered (net w) (fun _ => False) (After (net w) (k + 1) entry.pool 0) := by
      intro i s hi
      rcases hcov i s hi with hdown | hno | ⟨q, l, hl, j, hkj, hj⟩
      · exact .inl hdown
      · exact absurd hno id
      · refine .inr (.inr ⟨q, l, hl, ?_⟩)
        by_cases hjk : j = k
        · subst hjk
          rw [hat] at hj
          cases hj
          exact .inl ⟨rfl, Nat.zero_le l⟩
        · exact .inr ⟨j, by omega, hj⟩
    have hm := closes_closeMembers size k exchange entry.pool (w.pools entry.pool).members 0 w rfl h hcov'
    unfold World.closePools
    split
    · next next heq =>
      rw [heq] at hm
      obtain ⟨hbase, hclear⟩ := hm.clear hpassed exchange
      refine ih (k + 1) _ ?_ hbase hclear
      show rest = next._pools.items.drop (k + 1)
      rw [hm.pools]
      exact htail
    · next next heq =>
      rw [heq] at hm
      exact hm.tidy (h.bound k _ hat) hpassed

theorem tidy_closeAll {w : World} (h : Tidy (net w)) (hc : w.closing = .idle) : Tidy (net (w.closeAll 1)) := by
  have hclosing : (net w).closing = .idle := hc
  have hg := h.guarded
  unfold Guarded at hg
  rw [hclosing] at hg
  exact tidy_closePools w._pools.length w._pools.items 0 { w with before := w.nextCall } rfl
    ⟨h.settled, h.closes, h.distinct, h.bound, h.fresh⟩ hg

theorem tidy_resumeCloseAll {w : World} (h : Tidy (net w)) (reply : Reply) :
    Tidy (net (w.resumeCloseAll 1 reply)) := by
  have hnet : (net w).closing = w.closing := rfl
  have hg := h.guarded
  unfold Guarded at hg
  rw [hnet] at hg
  unfold World.resumeCloseAll
  cases hc : w.closing with
  | idle => exact h
  | returned => exact h
  | raised => exact h
  | cancelling =>
    rw [hc] at hg
    exact ⟨⟨h.settled, h.closes, h.distinct, h.bound, h.fresh⟩, hg⟩
  | walking size k exchange p m i =>
    rw [hc] at hg
    have hd := disconnects_resume h.toBase hg.awaited reply.result
    have hlater := later_congr hd.pools
    dsimp only
    split
    · next next heq =>
      rw [heq] at hd
      refine ⟨hd.base, ?_⟩
      have hclosing : (net next).closing = .walking size k exchange p m i := hd.closing.trans hc
      unfold Guarded
      rw [hclosing]
      refine ⟨?_, ?_, ?_, hd.waits rfl, ?_⟩
      · show p < next.nextPool
        rw [hd.nextPool]
        exact hg.lt
      · rw [later_congr hd.pools]
        exact hg.passed
      · rw [hd.members]
        exact hg.member
      · unfold After
        rw [later_congr hd.pools]
        exact hd.covered _ _ hg.covered
    · next next heq =>
      rw [heq] at hd
      exact ⟨⟨hd.base.settled, hd.base.closes, hd.base.distinct, hd.base.bound, hd.base.fresh⟩, trivial⟩
    · next next heq =>
      rw [heq] at hd hlater
      have hpassed : ¬ (net next).Later (k + 1) p := by
        rw [hlater]
        exact hg.passed
      have hcov : Covered (net next) (fun _ => False) (After (net next) (k + 1) p (m + 1)) := by
        unfold After
        rw [hlater]
        exact covered_ended (hd.covered _ _ hg.covered) (hd.ended rfl)
      have hm := closes_closeMembers size k exchange p ((next.pools p).members.drop (m + 1)) (m + 1) next
        rfl hd.base hcov
      split
      · next last hlast =>
        rw [hlast] at hm
        refine hm.tidy ?_ hpassed
        rw [hd.nextPool]
        exact hg.lt
      · next last hlast =>
        rw [hlast] at hm
        obtain ⟨hbase, hclear⟩ := hm.clear hpassed exchange
        split
        · exact tidy_closePools size _ (k + 1) _ rfl hbase hclear
        · exact ⟨⟨hbase.settled, hbase.closes, hbase.distinct, hbase.bound, hbase.fresh⟩, trivial⟩

/-! ## The calls -/

theorem net_setPool {w : World} {p : Nat} {pool : Pool} (h : pool.members = (w.pools p).members) :
    net (w.setPool p pool) = net w := by
  unfold net World.setPool
  congr 1
  funext q
  simp only [Function.update_apply]
  by_cases hq : q = p
  · rw [if_pos hq, h, hq]
  · rw [if_neg hq]

theorem net_append (w : World) (p i : Nat) :
    net (w.setPool p { w.pools p with members := (w.pools p).members ++ [i] }) = (net w).append p i := by
  unfold net World.setPool Net.append
  congr 1
  funext q
  simp only [Function.update_apply]
  by_cases hq : q = p
  · rw [if_pos hq, if_pos hq]
  · rw [if_neg hq, if_neg hq]

theorem net_release (w : World) (p : Nat) : net (w.release p) = net w := net_setPool rfl

theorem net_raised (w : World) (lock c : Nat) (exc : PyValue.PyExc) :
    net ((w.release lock).raise c exc) = net w := net_release w lock

/-- A connection whose tables alone are written. -/
theorem net_tables {w : World} {i : Nat} {conn conn' : WebSocketConnection}
    (hi : w.connections i = some conn) (hs : conn'.state = conn.state) :
    net (w.setConnection i conn') = net w := by
  have hstate : (net w).states i = some conn'.state := by simp [net, hi, hs]
  rw [net_setConnection]
  unfold Net.act
  rw [← hstate, Function.update_eq_self]

section

variable {w : World}

theorem tidy_dialing (h : Tidy (net w)) (c : Nat) (exchange : PyStr) (purpose : Purpose) (lock : Nat)
    (entry : Exchange) : Tidy (net (w.dial c exchange purpose lock entry)) := by
  have hsettled : Settled (WebSocketTasks.step (WebSocketTasks.init entry.config.maxReconnectAttempts)
      (.connect 0)) :=
    settled_step (settled_init _) (.inr ⟨fun _ => rfl, fun _ => rfl⟩)
  have hdown : Down (WebSocketTasks.step (WebSocketTasks.init entry.config.maxReconnectAttempts)
      (.connect 0)) := ⟨rfl, rfl, nofun⟩
  have hdial := tidy_dial h hsettled hdown rfl
  have hnet := net_setConnection w w.nextConnection
    ((WebSocketConnection.create entry.config).act (.connect 0))
  have he : net (w.dial c exchange purpose lock entry) =
      { net (w.setConnection w.nextConnection ((WebSocketConnection.create entry.config).act (.connect 0))) with
        nextConnection := w.nextConnection + 1 } := rfl
  rw [he, hnet]
  exact hdial

theorem tidy_getLocked (h : Tidy (net w)) (c : Nat) (exchange : PyStr) (purpose : Purpose) (lock : Nat)
    (now : Rat) : Tidy (net (w.getLocked c exchange purpose lock now).1) := by
  unfold World.getLocked
  split
  · rw [net_raised]
    exact h
  · dsimp only
    split
    · rw [net_release]
      exact h
    · split
      · exact tidy_dialing h c exchange purpose lock _
      · split
        · rw [net_raised]
          exact h
        · rw [net_release]
          exact h

/-- `connect` of a new connection comes back; where it succeeds the pool is ahead. -/
theorem tidy_dialedCall (h : Tidy (net w)) (c : Nat) (exchange : PyStr) (purpose : Purpose) (lock p i : Nat)
    (reply : Reply) (now : Rat) (hto : reply = .done → (net w).ToWalk p) :
    Tidy (net (w.dialed c exchange purpose lock p i reply now).1) := by
  unfold World.dialed
  split
  · exact h
  · next conn hi =>
    have hs : (net w).states i = some conn.state := by simp [net, hi]
    have hsettled := settled_step (h.settled i conn.state hs)
      (show Orderly conn.state (.resumeCall 0 reply.result) from trivial)
    have hcalls := WebSocketStops.calls_resumeCall_other (w := conn.state) Nat.one_ne_zero reply.result
    have hnet := net_setConnection w i (conn.act (.resumeCall 0 reply.result))
    have hfailed : reply.result ≠ .done →
        Tidy ((net w).act i (conn.act (.resumeCall 0 reply.result)).state) := fun hne =>
      tidy_act h hs hsettled hcalls fun hdown => down_resumeCall hdown 0 _ fun _ => hne
    dsimp only
    cases reply with
    | done =>
      have hdialed := tidy_dialed h hs hsettled hcalls (hto rfl)
      show Tidy (net (World.release _ lock))
      rw [net_release]
      have happend := net_append (w.setConnection i (conn.act (.resumeCall 0 .done))) p i
      rw [show net (w.setConnection i (conn.act (.resumeCall 0 .done))) = _ from hnet] at happend
      exact happend ▸ hdialed
    | lost detail =>
      show Tidy (net ((World.release _ lock).raise c _))
      rw [net_raised, hnet]
      exact hfailed nofun
    | raised exc =>
      show Tidy (net ((World.release _ lock).raise c _))
      rw [net_raised, hnet]
      exact hfailed nofun

theorem net_unsubscribeLocked (w : World) (c : Nat) (exchange id : PyStr) (lock : Nat) :
    net (w.unsubscribeLocked c exchange id lock) = net w := by
  unfold World.unsubscribeLocked
  split
  · exact net_raised w lock c _
  · split
    · exact net_release w lock
    · split
      · rfl
      · next i _ conn hi =>
        split
        · rfl
        · next s _ =>
          have htables := net_tables hi (show (conn.unsubscribe s id).state = conn.state from rfl)
          dsimp only
          split
          · exact htables
          · exact (net_raised _ lock c _).trans htables

theorem tidy_setPool (h : Tidy (net w)) (p : Nat) (pool : Pool)
    (hm : pool.members = (w.pools p).members) : Tidy (net (w.setPool p pool)) := by
  rw [net_setPool hm]
  exact h

theorem tidy_enter (h : Tidy (net w)) (c : Nat) (exchange : PyStr) (request : Request) (lock : Nat)
    (now : Rat) : Tidy (net (w.enter c exchange request lock now).1) := by
  cases request with
  | get purpose => exact tidy_getLocked h c exchange purpose lock now
  | unsubscribe id =>
    show Tidy (net (w.unsubscribeLocked c exchange id lock))
    rw [net_unsubscribeLocked]
    exact h

theorem tidy_begin (h : Tidy (net w)) (exchange : PyStr) (request : Request) (now : Rat) :
    Tidy (net (w.begin exchange request now).1) := by
  have hbegun : Tidy (net { w with nextCall := w.nextCall + 1 }) := h
  unfold World.begin
  dsimp only
  split
  · exact h
  · next entry _ =>
    split
    · exact tidy_setPool hbegun entry.pool
        { w.pools entry.pool with waiters := (w.pools entry.pool).waiters ++ [w.nextCall] } rfl
    · refine tidy_enter ?_ _ _ _ _ _
      exact tidy_setPool hbegun entry.pool { w.pools entry.pool with locked := true } rfl

theorem tidy_resume (h : Tidy (net w)) (c : Nat) (call : Call) (reply : Reply) (now : Rat)
    (hto : reply = .done → ∀ exchange purpose lock pool i, call = .dialing exchange purpose lock pool i →
      (net w).ToWalk pool) : Tidy (net (w.resume c call reply now).1) := by
  unfold World.resume
  cases call with
  | locking exchange request lock =>
    dsimp only
    split
    · refine tidy_enter ?_ _ _ _ _ _
      exact tidy_setPool h lock
        { w.pools lock with locked := true, waiters := (w.pools lock).waiters.tail } rfl
    · exact h
  | dialing exchange purpose lock pool i =>
    exact tidy_dialedCall h c exchange purpose lock pool i reply now fun hdone => hto hdone _ _ _ _ _ rfl
  | sending exchange id =>
    dsimp only
    split <;> exact h
  | publishing id => cases reply <;> exact h
  | unsending exchange lock =>
    dsimp only
    split
    · rw [net_raised]
      exact h
    · show Tidy (net (w.release lock))
      rw [net_release]
      exact h
  | unpublishing => cases reply <;> exact h

theorem net_proceed (w : World) (g : Got) : net (w.proceed g) = net w := by
  unfold World.proceed
  split
  · rfl
  · split
    · rfl
    · next conn hi =>
      split
      · rfl
      · have htables := fun s => net_tables hi (show (conn.subscribe s).state = conn.state from rfl)
        dsimp only
        split <;> exact htables _

end

/-! ## The runs -/

theorem tidy_advance {w : World} (h : Tidy (net w)) (l : Label) (ho : Tending w l) :
    Tidy (net (advance w l).1) := by
  cases l with
  | addExchange config => exact tidy_addExchange config h ho
  | call exchange request now => exact tidy_begin h exchange request now
  | resume c reply now =>
    simp only [advance]
    split
    · exact h
    · next call hc =>
      refine tidy_resume h c call reply now ?_
      rintro rfl exchange purpose lock pool i rfl
      exact ho exchange purpose lock pool i hc
  | closeAll =>
    simp only [advance]
    split
    · next hc => exact tidy_closeAll h hc
    · exact h
  | resumeCloseAll reply => exact tidy_resumeCloseAll h reply
  | connection i task result =>
    simp only [advance]
    split
    · exact h
    · next conn hi =>
      have hs : (net w).states i = some conn.state := by simp [net, hi]
      show Tidy (net (w.setConnection i (conn.act (.resume task result conn.subscriptionCount))))
      rw [net_setConnection]
      refine tidy_act h hs (settled_step (h.settled i conn.state hs) (ho conn hi)) ?_ ?_
      · exact congrFun (calls_resume conn.state task result conn.subscriptionCount) 1
      · exact fun hdown => down_resume hdown task result conn.subscriptionCount

theorem tidy_step (w : World) (l : Label) (h : Tidy (net w)) (ho : Tending w l) : Tidy (net (step w l)) := by
  have hadvance := tidy_advance h l ho
  unfold step
  split
  · next next heq =>
    rw [heq] at hadvance
    exact hadvance
  · next next got heq =>
    rw [heq] at hadvance
    rw [net_proceed]
    exact hadvance

/-- In a run that tends to its pools, everything is closed once `close_all` has
returned. -/
theorem allClosed_of_tending (labels : List Label) (hm : Meets step Tending init labels) :
    Throughout step AllClosed init labels := by
  have ht := throughout_of_meets (P := fun w => Tidy (net w)) tidy_step tidy_init hm
  intro pre hp
  exact (ht pre hp).allClosed

/-- A connection is made. -/
def connected : List Label :=
  [.addExchange (.plain "OKX"), .call "OKX" (.get .connection) 10, .resume 0 .done 11]

/-- It is closed while its processing task waits for a frame. -/
def closed : List Label :=
  [.connection 0 0 .done, .closeAll, .connection 0 0 .done, .resumeCloseAll .done, .resumeCloseAll .done,
    .resumeCloseAll .done]

theorem allClosed_closed :
    Throughout step AllClosed init (connected ++ closed) ∧
      (run step init (connected ++ closed)).before = 1 := by
  refine ⟨allClosed_of_tending _ ?_, by decide +kernel⟩
  have hahead : (net (run step init (connected.take 2))).poolAt 0 = some 0 := by decide +kernel
  have hcall : Tending (run step init (connected.take 2)) (.resume 0 .done 11) := by
    rintro exchange purpose lock pool i ⟨⟩
    exact ⟨0, Nat.le_refl 0, hahead⟩
  simp only [connected, closed, List.cons_append, List.nil_append, meets_cons]
  exact ⟨nofun, trivial, hcall, fun _ _ => trivial, trivial, fun _ _ => trivial, trivial, trivial, trivial,
    meets_nil _ _ _⟩

/-- `close_all` runs while `get_connection` is in `connect`. -/
def late : List Label :=
  [.addExchange (.plain "OKX"), .call "OKX" (.get .connection) 10, .closeAll, .resumeCloseAll .done,
    .resume 0 .done 11]

/-- The pool of a connection is replaced. -/
def replaced : List Label := connected ++ [.addExchange (.plain "OKX"), .closeAll, .resumeCloseAll .done]

/-- A connection is lost while it restores its subscription, and `close_all` cancels
one of the two tasks that reconnect. -/
def restoring : List Label :=
  [.addExchange (.plain "OKX"), .call "OKX" (.get (.subscription "ticker" "BTC-USDT" [] fun _ => .ok ())) 10,
    .resume 0 .done 10, .resume 0 .done 10, .resume 0 .done 10, .connection 0 0 .done, .connection 0 0 .lost,
    .connection 0 0 .done, .connection 0 0 .done, .connection 0 0 .done, .connection 0 1 .done,
    .connection 0 0 .lost, .connection 0 0 .done, .connection 0 1 .lost, .closeAll, .connection 0 1 .done,
    .resumeCloseAll .done, .resumeCloseAll .done, .connection 0 0 .done, .connection 0 0 .done]

theorem connections_left :
    ¬ AllClosed (run step init late) ∧ ¬ AllClosed (run step init replaced) ∧
      ¬ AllClosed (run step init restoring) := by
  have hleft : ∀ w : World, w.closing = .returned → (∀ c < w.before, w.calls c = none) →
      (w.connections 0).map (·.connected) = some true → ¬ AllClosed w := by
    intro w hret hcalls hup h
    obtain ⟨conn, hconn, htrue⟩ := Option.map_eq_some_iff.mp hup
    rw [(h hret hcalls 0 conn hconn).1] at htrue
    cases htrue
  refine ⟨hleft _ ?_ ?_ ?_, hleft _ ?_ ?_ ?_, hleft _ ?_ ?_ ?_⟩ <;> decide +kernel

end WebSocketClosing
