import BtApiBase.WebSocketPools

/-!
# The connection that is returned

`get_connection` returns a member that is up, or a new connection, or takes turns
among the members of a full pool. Members are never taken out, also where they
have given up, so the one whose turn it is may be down.
-/

namespace PoolAnswers

open PyText PyDict PyValue WebSocketManagers WebSocketPools WebSocketClosing Runs

/-- The connection is up. -/
def Up (w : World) (i : Nat) : Prop := ∃ conn, w.connections i = some conn ∧ conn.connected = true

/-- What a step of `get_connection` returns is up at that moment. -/
def Answered (w : World) (l : Label) : Prop :=
  ∀ g, (advance w l).2 = some g → Up (advance w l).1 g.connection

/-- The member whose turn it is in a full pool without an available connection. -/
def turn (w : World) (exchange : PyStr) : Option Nat :=
  match w._pools.get exchange with
  | none => none
  | some entry =>
    let members := (w.pools entry.pool).members
    match w.available members with
    | some _ => none
    | none =>
      if members.length < entry.config.maxConnections then none
      else members[w._roundRobin exchange % members.length]?

/-- A call of `get_connection` takes the lock of its pool. -/
def Enters (w : World) (exchange : PyStr) : Label → Prop
  | .call name (.get _) _ => name = exchange ∧ ∃ entry, w._pools.get exchange = some entry ∧
    ((w.pools entry.pool).locked || !(w.pools entry.pool).waiters.isEmpty) = false
  | .resume c _ _ => ∃ purpose lock, w.calls c = some (.locking exchange (.get purpose) lock) ∧
    (!(w.pools lock).locked && (w.pools lock).waiters.head? == some c) = true
  | _ => False

/-- Where the round robin picks a member, that is up. -/
def Served (w : World) (l : Label) : Prop := ∀ exchange, Enters w exchange l → ∀ i, turn w exchange = some i → Up w i

/-! ## With the lock -/

theorem answered_getLocked (w : World) (c : Nat) (exchange : PyStr) (purpose : Purpose) (lock : Nat) (now : Rat) :
    (∀ g, (w.getLocked c exchange purpose lock now).2 = some g →
      Up (w.getLocked c exchange purpose lock now).1 g.connection) ↔ ∀ i, turn w exchange = some i → Up w i := by
  unfold World.getLocked turn
  cases w._pools.get exchange with
  | none => exact iff_of_true nofun nofun
  | some entry =>
    dsimp only
    cases ha : w.available (w.pools entry.pool).members with
    | some i =>
      refine iff_of_true ?_ nofun
      rintro _ ⟨⟩
      have hany := List.find?_some ha
      obtain ⟨conn, hi, hup⟩ := (Option.any_eq_true _ _).mp hany
      exact ⟨conn, hi, ((Bool.and_eq_true _ _).mp hup).1⟩
    | none =>
      dsimp only
      split
      · exact iff_of_true nofun nofun
      · cases hm : (w.pools entry.pool).members[w._roundRobin exchange % (w.pools entry.pool).members.length]? with
        | none => exact iff_of_true nofun nofun
        | some i =>
          constructor
          · rintro h _ ⟨⟩
            exact h _ rfl
          · rintro h _ ⟨⟩
            exact h i rfl

/-! ## The connections that are dialed -/

/-- A call that dials has a connection of its own, whose `connect` waits for the socket. -/
structure Dialed (w : World) : Prop where
  ready : ∀ c exchange purpose lock p i, w.calls c = some (.dialing exchange purpose lock p i) →
    i < w.nextConnection ∧ ∃ conn, w.connections i = some conn ∧ conn.state.calls 0 = some (.connecting .dialing)
  one : ∀ c c' exchange exchange' purpose purpose' lock lock' p p' i,
    w.calls c = some (.dialing exchange purpose lock p i) →
    w.calls c' = some (.dialing exchange' purpose' lock' p' i) → c = c'

/-- Connections stay, and their `connect` where it is; nobody begins to dial. -/
structure Carries (w w' : World) : Prop where
  next : w.nextConnection ≤ w'.nextConnection
  calls : ∀ c exchange purpose lock p i, w'.calls c = some (.dialing exchange purpose lock p i) →
    w.calls c = some (.dialing exchange purpose lock p i)
  connections : ∀ i conn, w.connections i = some conn → ∃ conn', w'.connections i = some conn' ∧
    conn'.state.calls 0 = conn.state.calls 0

theorem Carries.refl (w : World) : Carries w w :=
  ⟨le_rfl, fun _ _ _ _ _ _ => id, fun _ conn h => ⟨conn, h, rfl⟩⟩

theorem Carries.trans {w w' w'' : World} (h : Carries w w') (h' : Carries w' w'') : Carries w w'' := by
  refine ⟨h.next.trans h'.next, fun c exchange purpose lock p i hc => ?_, fun i conn hi => ?_⟩
  · exact h.calls c exchange purpose lock p i (h'.calls c exchange purpose lock p i hc)
  · obtain ⟨conn', hi', hcalls⟩ := h.connections i conn hi
    obtain ⟨conn'', hi'', hcalls'⟩ := h'.connections i conn' hi'
    exact ⟨conn'', hi'', hcalls'.trans hcalls⟩

theorem Dialed.carry {w w' : World} (h : Dialed w) (hw : Carries w w') : Dialed w' := by
  refine ⟨fun c exchange purpose lock p i hc => ?_, ?_⟩
  · obtain ⟨hlt, conn, hi, hready⟩ := h.ready c exchange purpose lock p i (hw.calls c exchange purpose lock p i hc)
    obtain ⟨conn', hi', hcalls⟩ := hw.connections i conn hi
    exact ⟨hlt.trans_le hw.next, conn', hi', hcalls.trans hready⟩
  · intro c c' exchange exchange' purpose purpose' lock lock' p p' i hc hc'
    exact h.one c c' exchange exchange' purpose purpose' lock lock' p p' i
      (hw.calls c exchange purpose lock p i hc) (hw.calls c' exchange' purpose' lock' p' i hc')

section

variable {w : World}

/-- What touches neither calls nor connections. -/
theorem carries_other {w' : World} (hcalls : w'.calls = w.calls) (hconn : w'.connections = w.connections)
    (hnext : w'.nextConnection = w.nextConnection) : Carries w w' := by
  refine ⟨hnext.ge, fun c exchange purpose lock p i hc => ?_, fun i conn hi => ⟨conn, ?_, rfl⟩⟩
  · rwa [hcalls] at hc
  · rwa [hconn]

/-- Call `c` ends, or goes to an await at which it does not dial. -/
theorem carries_put (w : World) (c : Nat) {x : Option Call}
    (hx : ∀ exchange purpose lock p i, x ≠ some (.dialing exchange purpose lock p i)) : Carries w (put w c x) := by
  refine ⟨le_rfl, fun c' exchange purpose lock p i hc => ?_, fun i conn hi => ⟨conn, hi, rfl⟩⟩
  rw [calls_put] at hc
  split at hc
  · exact absurd hc (hx exchange purpose lock p i)
  · exact hc

theorem carries_stand (w : World) (c : Nat) {call : Call}
    (hcall : ∀ exchange purpose lock p i, call ≠ .dialing exchange purpose lock p i) : Carries w (w.stand c call) :=
  carries_put w c fun exchange purpose lock p i he => hcall exchange purpose lock p i (Option.some.inj he)

theorem carries_endCall (w : World) (c : Nat) (outcome : Outcome) : Carries w (w.endCall c outcome) :=
  (carries_put w c (x := none) nofun).trans (carries_other rfl rfl rfl)

theorem carries_setPool (w : World) (p : Nat) (pool : Pool) : Carries w (w.setPool p pool) := carries_other rfl rfl rfl

theorem carries_release (w : World) (p : Nat) : Carries w (w.release p) := carries_setPool w p _

theorem carries_setConnection {i : Nat} {conn conn' : WebSocketConnection} (hi : w.connections i = some conn)
    (hcalls : conn'.state.calls 0 = conn.state.calls 0) : Carries w (w.setConnection i conn') := by
  refine ⟨le_rfl, fun _ _ _ _ _ _ => id, fun j conn₁ hj => ?_⟩
  have hget : (w.setConnection i conn').connections j = if j = i then some conn' else w.connections j :=
    Function.update_apply _ _ _ _
  by_cases hji : j = i
  · subst hji
    rw [hi] at hj
    cases hj
    exact ⟨conn', by rw [hget, if_pos rfl], hcalls⟩
  · exact ⟨conn₁, by rw [hget, if_neg hji, hj], rfl⟩

/-- A connection whose tables alone are written. -/
theorem carries_tables {i : Nat} {conn : WebSocketConnection} (hi : w.connections i = some conn)
    (conn' : WebSocketConnection) (hs : conn'.state = conn.state) (live : List Live) :
    Carries w { w.setConnection i conn' with live := live } :=
  (carries_setConnection hi (by rw [hs])).trans (carries_other rfl rfl rfl)

theorem carries_unsubscribeLocked (w : World) (c : Nat) (exchange id : PyStr) (lock : Nat) :
    Carries w (w.unsubscribeLocked c exchange id lock) := by
  unfold World.unsubscribeLocked
  split
  · exact (carries_release w lock).trans (carries_endCall _ c _)
  · split
    · exact (carries_release w lock).trans (carries_stand _ c nofun)
    · split
      · exact Carries.refl w
      · next conn hi =>
        split
        · exact Carries.refl w
        · next s _ =>
          have hpopped := carries_tables hi (conn.unsubscribe s id) rfl
          dsimp only
          split
          · exact (hpopped _).trans (carries_stand _ c nofun)
          · exact ((hpopped _).trans (carries_release _ lock)).trans (carries_endCall _ c _)

/-- What follows the return of `get_connection`. -/
theorem carries_proceed (w : World) (g : Got) : Carries w (w.proceed g) := by
  unfold World.proceed
  split
  · exact carries_endCall w _ _
  · split
    · exact Carries.refl w
    · next conn hi =>
      have hregistered := fun s => carries_tables hi (conn.subscribe s) rfl
      split
      · exact carries_endCall w _ _
      · dsimp only
        split
        · exact (hregistered _ _).trans (carries_stand _ _ nofun)
        · exact (hregistered _ _).trans (carries_endCall _ _ _)

theorem carries_disconnect (w : World) (i : Nat) (l : WebSocketTasks.Label)
    (hl : ∀ s : WebSocketTasks.World, (WebSocketTasks.step s l).calls 0 = s.calls 0) :
    Carries w (w.disconnect i 1 l).1 := by
  unfold World.disconnect
  split
  · exact Carries.refl w
  · next conn hi => exact carries_setConnection hi (hl conn.state)

/-- `close_all` leaves the call 0 of a connection alone, which is its `connect`. -/
theorem carries_closingSteps : ClosingSteps 1 Carries where
  refl := Carries.refl
  trans := fun _ _ _ => Carries.trans
  before := fun _ => carries_other rfl rfl rfl
  called := fun w i => carries_disconnect w i _ fun _ => WebSocketStops.calls_disconnect_other Nat.zero_ne_one
  resumed := fun w i result =>
    carries_disconnect w i _ fun _ => WebSocketStops.calls_resumeCall_other Nat.zero_ne_one result
  closing := fun _ _ => carries_other rfl rfl rfl
  clear := fun _ _ _ => carries_other rfl rfl rfl

/-- A call begins to dial a connection that is new. -/
theorem dialed_dial (h : Dialed w) (c : Nat) (exchange : PyStr) (purpose : Purpose) (lock : Nat) (entry : Exchange) :
    Dialed (w.dial c exchange purpose lock entry) := by
  have hcalls : ∀ c', (w.dial c exchange purpose lock entry).calls c' =
      if c' = c then some (.dialing exchange purpose lock entry.pool w.nextConnection) else w.calls c' :=
    fun c' => Function.update_apply _ _ _ _
  have hconn : ∀ i, (w.dial c exchange purpose lock entry).connections i = if i = w.nextConnection then
      some ((WebSocketConnection.create entry.config).act (.connect 0)) else w.connections i :=
    fun i => Function.update_apply _ _ _ _
  refine ⟨fun c' exchange' purpose' lock' p i hc => ?_, fun c' c'' _ _ _ _ _ _ _ _ i hc hc' => ?_⟩
  · show i < w.nextConnection + 1 ∧ _
    rw [hcalls] at hc
    split at hc
    · cases hc
      exact ⟨Nat.lt_succ_self _, _, by rw [hconn, if_pos rfl], rfl⟩
    · obtain ⟨hlt, conn, hi, hready⟩ := h.ready c' exchange' purpose' lock' p i hc
      exact ⟨Nat.lt_succ_of_lt hlt, conn, by rw [hconn, if_neg (by omega), hi], hready⟩
  · rw [hcalls] at hc hc'
    split at hc <;> split at hc'
    · next he he' => rw [he, he']
    · cases hc
      exact absurd (h.ready _ _ _ _ _ _ hc').1 (Nat.lt_irrefl _)
    · cases hc'
      exact absurd (h.ready _ _ _ _ _ _ hc).1 (Nat.lt_irrefl _)
    · exact h.one _ _ _ _ _ _ _ _ _ _ i hc hc'

theorem dialed_getLocked (h : Dialed w) (c : Nat) (exchange : PyStr) (purpose : Purpose) (lock : Nat) (now : Rat) :
    Dialed (w.getLocked c exchange purpose lock now).1 := by
  have hraised : ∀ exc, Dialed ((w.release lock).raise c exc) :=
    fun exc => h.carry ((carries_release w lock).trans (carries_endCall _ c _))
  unfold World.getLocked
  split
  · exact hraised _
  · dsimp only
    split
    · exact h.carry (carries_release w lock)
    · split
      · exact dialed_dial h c exchange purpose lock _
      · split
        · exact hraised _
        · exact h.carry (carries_other rfl rfl rfl)

theorem dialed_enter (h : Dialed w) (c : Nat) (exchange : PyStr) (request : Request) (lock : Nat) (now : Rat) :
    Dialed (w.enter c exchange request lock now).1 := by
  cases request with
  | get purpose => exact dialed_getLocked h c exchange purpose lock now
  | unsubscribe id => exact h.carry (carries_unsubscribeLocked w c exchange id lock)

theorem dialed_begin (h : Dialed w) (exchange : PyStr) (request : Request) (now : Rat) :
    Dialed (w.begin exchange request now).1 := by
  have hbegun : Dialed { w with nextCall := w.nextCall + 1 } := h.carry (carries_other rfl rfl rfl)
  unfold World.begin
  dsimp only
  split
  · exact hbegun.carry (carries_endCall _ _ _)
  · next entry _ =>
    have htaken := fun pool => hbegun.carry (carries_setPool _ entry.pool pool)
    split
    · exact (htaken _).carry (carries_stand _ _ nofun)
    · exact dialed_enter (htaken _) _ exchange request _ now

/-- `connect` of the new connection comes back: where it fails nobody dials that
connection any more. -/
theorem Dialed.finish (h : Dialed w) {c i : Nat} {exchange : PyStr} {purpose : Purpose} {lock p : Nat}
    (hc : w.calls c = some (.dialing exchange purpose lock p i)) {w' : World}
    (hnext : w'.nextConnection = w.nextConnection) (hcalls : ∀ c', c' ≠ c → w'.calls c' = w.calls c')
    (hconn : ∀ j, j ≠ i → w'.connections j = w.connections j)
    (hdone : ∀ exchange purpose lock p i, w'.calls c ≠ some (.dialing exchange purpose lock p i)) : Dialed w' := by
  have hother : ∀ {c' exchange' purpose' lock' p' j}, w'.calls c' = some (.dialing exchange' purpose' lock' p' j) →
      w.calls c' = some (.dialing exchange' purpose' lock' p' j) ∧ c' ≠ c := by
    intro c' exchange' purpose' lock' p' j hc'
    have hne : c' ≠ c := by
      rintro rfl
      exact hdone _ _ _ _ _ hc'
    exact ⟨hcalls c' hne ▸ hc', hne⟩
  refine ⟨fun c' exchange' purpose' lock' p' j hc' => ?_, fun c' c'' _ _ _ _ _ _ _ _ j hc' hc'' =>
    h.one _ _ _ _ _ _ _ _ _ _ j (hother hc').1 (hother hc'').1⟩
  obtain ⟨hold, hne⟩ := hother hc'
  have hji : j ≠ i := by
    rintro rfl
    exact hne (h.one _ _ _ _ _ _ _ _ _ _ j hold hc)
  rw [hnext, hconn j hji]
  exact h.ready c' exchange' purpose' lock' p' j hold

/-- What `connect` of the new connection leaves, up to the return. -/
theorem up_dialed (h : Dialed w) {c i : Nat} {exchange : PyStr} {purpose : Purpose} {lock p : Nat}
    (hc : w.calls c = some (.dialing exchange purpose lock p i)) (reply : Reply) (now : Rat) {g : Got}
    (hg : (w.dialed c exchange purpose lock p i reply now).2 = some g) :
    g.call = c ∧ g.connection = i ∧ Up (w.dialed c exchange purpose lock p i reply now).1 i := by
  obtain ⟨-, conn, hi, hready⟩ := h.ready c exchange purpose lock p i hc
  cases reply with
  | lost detail => simp [World.dialed, hi, Reply.error] at hg
  | raised exc => simp [World.dialed, hi, Reply.error] at hg
  | done =>
    simp only [World.dialed, hi, Reply.error] at hg ⊢
    cases hg
    refine ⟨rfl, rfl, conn.act (.resumeCall 0 .done), Function.update_self .., ?_⟩
    simp [WebSocketConnection.connected, WebSocketConnection.act, WebSocketTasks.step, hready,
      WebSocketTasks.World.resumeCall, WebSocketTasks.World.established, WebSocketTasks.World.endCall]

theorem calls_stand_self (w : World) (c : Nat) (call : Call) : (w.stand c call).calls c = some call :=
  Function.update_self ..

theorem calls_endCall_self (w : World) (c : Nat) (outcome : Outcome) : (w.endCall c outcome).calls c = none :=
  Function.update_self ..

/-- The rest of a call touches that call and its connection alone, and ends the dialing. -/
structure Rests (w w' : World) (g : Got) : Prop where
  next : w'.nextConnection = w.nextConnection
  calls : ∀ c, c ≠ g.call → w'.calls c = w.calls c
  connections : ∀ j, j ≠ g.connection → w'.connections j = w.connections j
  done : ∀ exchange purpose lock p i, w'.calls g.call ≠ some (.dialing exchange purpose lock p i)

theorem rests_proceed {g : Got} (hup : Up w g.connection) : Rests w (w.proceed g) g := by
  obtain ⟨conn, hi, -⟩ := hup
  have hraise : ∀ outcome, Rests w (w.endCall g.call outcome) g := by
    refine fun outcome => ⟨rfl, fun c hc => Function.update_of_ne hc _ _, fun _ _ => rfl, fun _ _ _ _ _ => ?_⟩
    rw [calls_endCall_self]
    exact nofun
  unfold World.proceed
  split
  · exact hraise _
  · rw [hi]
    dsimp only
    split
    · exact hraise _
    · split
      · refine ⟨rfl, fun c hc => Function.update_of_ne hc _ _, fun j hj => Function.update_of_ne hj _ _,
          fun _ _ _ _ _ he => ?_⟩
        rw [calls_stand_self] at he
        cases he
      · refine ⟨rfl, fun c hc => Function.update_of_ne hc _ _, fun j hj => Function.update_of_ne hj _ _,
          fun _ _ _ _ _ he => ?_⟩
        rw [World.raise, calls_endCall_self] at he
        cases he

theorem dialed_dialing (h : Dialed w) {c i : Nat} {exchange : PyStr} {purpose : Purpose} {lock p : Nat}
    (hc : w.calls c = some (.dialing exchange purpose lock p i)) (reply : Reply) (now : Rat) :
    Dialed (step w (.resume c reply now)) := by
  have hadvance : advance w (.resume c reply now) = w.dialed c exchange purpose lock p i reply now := by
    simp only [advance, hc, World.resume]
  obtain ⟨-, conn, hi, -⟩ := h.ready c exchange purpose lock p i hc
  have hraised : ∀ exc, Dialed (((w.setConnection i (conn.act (.resumeCall 0 reply.result))).release lock).raise c exc) := by
    intro exc
    refine h.finish hc rfl (fun c' hne => Function.update_of_ne hne _ _)
      (fun j hne => Function.update_of_ne hne _ _) fun _ _ _ _ _ he => ?_
    rw [World.raise, calls_endCall_self] at he
    cases he
  unfold step
  rw [hadvance]
  cases reply with
  | lost detail =>
    simp only [World.dialed, hi, Reply.error]
    exact hraised _
  | raised exc =>
    simp only [World.dialed, hi, Reply.error]
    exact hraised _
  | done =>
    have hup := up_dialed (g := ⟨c, exchange, purpose, i, now⟩) h hc .done now
    simp only [World.dialed, hi, Reply.error] at hup ⊢
    obtain ⟨-, -, hup⟩ := hup trivial
    have hr := rests_proceed (g := ⟨c, exchange, purpose, i, now⟩) hup
    exact h.finish hc hr.next hr.calls (fun j hne => (hr.connections j hne).trans (Function.update_of_ne hne _ _)) hr.done

theorem dialed_step (h : Dialed w) (l : Label) : Dialed (step w l) := by
  suffices hadvance : Dialed (advance w l).1 ∨ Dialed (step w l) by
    rcases hadvance with hadvance | hstep
    · unfold step
      split
      · next next heq =>
        rw [heq] at hadvance
        exact hadvance
      · next next g heq =>
        rw [heq] at hadvance
        exact hadvance.carry (carries_proceed next g)
    · exact hstep
  cases l with
  | addExchange config => exact .inl (h.carry (carries_other rfl rfl rfl))
  | call exchange request now => exact .inl (dialed_begin h exchange request now)
  | closeAll =>
    simp only [advance]
    split
    · exact .inl (h.carry (carries_closingSteps.closeAll w))
    · exact .inl h
  | resumeCloseAll reply => exact .inl (h.carry (carries_closingSteps.resumeCloseAll w reply))
  | connection i task result =>
    simp only [advance]
    split
    · exact .inl h
    · next conn hi =>
      refine .inl (h.carry (carries_setConnection hi ?_))
      show (WebSocketTasks.step conn.state _).calls 0 = _
      rw [WebSocketStops.calls_resume]
  | resume c reply now =>
    cases hc : w.calls c with
    | none =>
      simp only [advance, hc]
      exact .inl h
    | some call =>
      cases call with
      | dialing exchange purpose lock p i => exact .inr (dialed_dialing h hc reply now)
      | locking exchange request lock =>
        simp only [advance, hc, World.resume]
        split
        · exact .inl (dialed_enter (h.carry (carries_setPool w lock _)) c exchange request lock now)
        · exact .inl h
      | sending exchange id =>
        simp only [advance, hc, World.resume]
        split
        · exact .inl (h.carry (carries_endCall w c _))
        · exact .inl (h.carry (carries_stand w c (by rintro _ _ _ _ _ ⟨⟩)))
      | publishing id =>
        refine .inl ?_
        cases reply <;> simp only [advance, hc, World.resume] <;> exact h.carry (carries_endCall w c _)
      | unsending exchange lock =>
        simp only [advance, hc, World.resume]
        split
        · exact .inl (h.carry ((carries_release w lock).trans (carries_endCall _ c _)))
        · exact .inl (h.carry ((carries_release w lock).trans (carries_stand _ c (by rintro _ _ _ _ _ ⟨⟩))))
      | unpublishing =>
        refine .inl ?_
        cases reply <;> simp only [advance, hc, World.resume] <;> exact h.carry (carries_endCall w c _)

/-! ## The runs -/

theorem turn_congr {w' : World} (hentries : w'._pools = w._pools)
    (hmembers : ∀ q, (w'.pools q).members = (w.pools q).members) (hconn : w'.connections = w.connections)
    (hturn : w'._roundRobin = w._roundRobin) (exchange : PyStr) : turn w' exchange = turn w exchange := by
  unfold turn World.available
  simp only [hentries, hmembers, hconn, hturn]

/-- A `get_connection` that takes the lock of its pool. -/
theorem answered_taken (w' : World) (hentries : w'._pools = w._pools)
    (hmembers : ∀ q, (w'.pools q).members = (w.pools q).members) (hconn : w'.connections = w.connections)
    (hturn : w'._roundRobin = w._roundRobin) (c : Nat) (exchange : PyStr) (purpose : Purpose) (lock : Nat) (now : Rat) :
    (∀ g, (w'.getLocked c exchange purpose lock now).2 = some g →
      Up (w'.getLocked c exchange purpose lock now).1 g.connection) ↔ ∀ i, turn w exchange = some i → Up w i := by
  rw [answered_getLocked, turn_congr hentries hmembers hconn hturn]
  unfold Up
  rw [hconn]

theorem answered_iff_call (w : World) (exchange : PyStr) (request : Request) (now : Rat) :
    Answered w (.call exchange request now) ↔ Served w (.call exchange request now) := by
  unfold Answered
  simp only [advance, World.begin]
  cases hget : w._pools.get exchange with
  | none =>
    refine iff_of_true (by rintro _ ⟨⟩) fun name he => ?_
    cases request with
    | unsubscribe id => exact False.elim he
    | get purpose =>
      obtain ⟨rfl, entry, hentry, -⟩ := he
      rw [hget] at hentry
      cases hentry
  | some entry =>
    dsimp only
    cases hbusy : ((w.pools entry.pool).locked || !(w.pools entry.pool).waiters.isEmpty) with
    | true =>
      refine iff_of_true (by rintro g ⟨⟩) fun name he => ?_
      cases request with
      | unsubscribe id => exact False.elim he
      | get purpose =>
        obtain ⟨rfl, entry', hentry, hfree⟩ := he
        rw [hget] at hentry
        cases hentry
        rw [hbusy] at hfree
        cases hfree
    | false =>
      rw [if_neg Bool.false_ne_true]
      cases request with
      | unsubscribe id => exact iff_of_true (by rintro _ ⟨⟩) fun _ he => False.elim he
      | get purpose =>
        refine (answered_taken (w := w) ({ w with nextCall := w.nextCall + 1 }.setPool entry.pool
          { w.pools entry.pool with locked := true }) rfl (members_of_net (net_setPool (by rfl))) rfl rfl w.nextCall
          exchange purpose entry.pool now).trans ?_
        constructor
        · rintro hs name ⟨rfl, -⟩
          exact hs
        · exact fun hs => hs exchange ⟨rfl, entry, hget, hbusy⟩

theorem answered_iff_resume (h : Dialed w) (c : Nat) (reply : Reply) (now : Rat) :
    Answered w (.resume c reply now) ↔ Served w (.resume c reply now) := by
  unfold Answered
  simp only [advance]
  cases hc : w.calls c with
  | none =>
    refine iff_of_true (by rintro _ ⟨⟩) ?_
    rintro name ⟨purpose, lock, hcall, -⟩
    rw [hc] at hcall
    cases hcall
  | some call =>
    have hidle : (∀ exchange purpose lock, call ≠ .locking exchange (.get purpose) lock) →
        Served w (.resume c reply now) := by
      rintro hne name ⟨purpose, lock, hcall, -⟩
      rw [hc] at hcall
      exact absurd (Option.some.inj hcall) (hne name purpose lock)
    cases call with
    | dialing exchange purpose lock p i =>
      refine iff_of_true (fun g hg => ?_) (hidle (by rintro _ _ _ ⟨⟩))
      obtain ⟨-, rfl, hup⟩ := up_dialed h hc reply now hg
      exact hup
    | locking exchange request lock =>
      simp only [World.resume]
      cases hgo : (!(w.pools lock).locked && (w.pools lock).waiters.head? == some c) with
      | false =>
        refine iff_of_true (by rintro _ ⟨⟩) ?_
        rintro name ⟨purpose, lock', hcall, hfree⟩
        rw [hc] at hcall
        cases hcall
        rw [hgo] at hfree
        cases hfree
      | true =>
        rw [if_pos rfl]
        cases request with
        | unsubscribe id => exact iff_of_true (by rintro _ ⟨⟩) (hidle (by rintro _ _ _ ⟨⟩))
        | get purpose =>
          refine (answered_taken (w := w) (w.setPool lock { w.pools lock with
            locked := true, waiters := (w.pools lock).waiters.tail }) rfl (members_of_net (net_setPool (by rfl)))
            rfl rfl c exchange purpose lock now).trans ?_
          constructor
          · rintro hs name ⟨purpose', lock', hcall, -⟩
            rw [hc] at hcall
            cases hcall
            exact hs
          · exact fun hs => hs exchange ⟨purpose, lock, hc, hgo⟩
    | sending exchange id =>
      refine iff_of_true (fun g hg => ?_) (hidle (by rintro _ _ _ ⟨⟩))
      simp only [World.resume] at hg
      split at hg <;> cases hg
    | publishing id => cases reply <;> exact iff_of_true (by rintro _ ⟨⟩) (hidle (by rintro _ _ _ ⟨⟩))
    | unsending exchange lock =>
      refine iff_of_true (fun g hg => ?_) (hidle (by rintro _ _ _ ⟨⟩))
      simp only [World.resume] at hg
      split at hg <;> cases hg
    | unpublishing => cases reply <;> exact iff_of_true (by rintro _ ⟨⟩) (hidle (by rintro _ _ _ ⟨⟩))

theorem answered_iff_dialed (h : Dialed w) (l : Label) : Answered w l ↔ Served w l := by
  cases l with
  | addExchange config => exact iff_of_true (by rintro _ ⟨⟩) fun _ he => False.elim he
  | closeAll =>
    refine iff_of_true (fun g hg => ?_) fun _ he => False.elim he
    simp only [advance] at hg
    split at hg <;> cases hg
  | resumeCloseAll reply => exact iff_of_true (by rintro _ ⟨⟩) fun _ he => False.elim he
  | connection i task result =>
    refine iff_of_true (fun g hg => ?_) fun _ he => False.elim he
    simp only [advance] at hg
    split at hg <;> cases hg
  | call exchange request now => exact answered_iff_call w exchange request now
  | resume c reply now => exact answered_iff_resume h c reply now

end

theorem dialed_init : Dialed init := ⟨nofun, nofun⟩

/-- In every run `get_connection` returns connections that are up exactly if those are
up that the round robin picks. -/
theorem answered_iff_served (labels : List Label) : Meets step Answered init labels ↔ Meets step Served init labels := by
  refine forall₃_congr fun pre l _ => answered_iff_dialed ?_ l
  exact run_induction (P := Dialed) (fun _ l h => dialed_step h l) dialed_init pre

/-- A pool for one connection, which is lost and gives up at once; the exchange can be
reached again when the next call comes. -/
def givenUp : List Label :=
  [.addExchange { WebSocketConfig.plain "OKX" with
      maxConnections := 1, positive := Nat.one_pos, maxReconnectAttempts := 0 },
    .call "OKX" (.get .connection) 0, .resume 0 .done 0, .connection 0 0 .done, .connection 0 0 .lost,
    .connection 0 0 .done]

/-- The pool goes on to return the connection that has given up. -/
theorem given_up_returned :
    (advance (run step init givenUp) (.call "OKX" (.get .connection) 0)).2.map Got.connection = some 0 ∧
    ((run step init givenUp).connections 0).map (fun conn => (conn.connected, conn.running)) = some (false, false) ∧
    ¬ Meets step Answered init (givenUp ++ [.call "OKX" (.get .connection) 0]) := by
  have hreturned : (advance (run step init givenUp) (.call "OKX" (.get .connection) 0)).2.map Got.connection = some 0 := by
    decide +kernel
  have hdown : ((advance (run step init givenUp) (.call "OKX" (.get .connection) 0)).1.connections 0).map
      (·.connected) = some false := by decide +kernel
  refine ⟨hreturned, by decide +kernel, fun h => ?_⟩
  obtain ⟨g, hg, hzero⟩ := Option.map_eq_some_iff.mp hreturned
  obtain ⟨conn, hconn, hup⟩ := h givenUp _ List.prefix_rfl g hg
  rw [hzero] at hconn
  rw [hconn, Option.map_some, hup] at hdown
  cases hdown

end PoolAnswers
