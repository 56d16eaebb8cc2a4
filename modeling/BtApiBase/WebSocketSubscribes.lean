import BtApiBase.JsonLimits
import BtApiBase.WebSocketManagers

/-!
# A subscription that could not be sent

`WebSocketConnection.subscribe` enters a subscription in its table, in the count
of its topic and in the statistics, and sends it after that. Only the check of
the limit stands before the entries, so they stay where the send fails.
-/

namespace WebSocketSubscribes

open PyText PyDict PyValue PyJson WebSocketMessages WebSocketManagers

/-- A connection and what its statistics say about messages and subscriptions. -/
structure Counted where
  conn : WebSocketConnection
  messagesSent : Nat
  subscriptionsAdded : Nat

/-- A connection that nobody has used yet. -/
def Counted.new (config : WebSocketConfig) : Counted := ⟨.create config, 0, 0⟩

section

variable (py : Interp) (limits : Limits)

/-- `_send_message`, where the `send` of the socket comes to `reply`; what
`json.dumps` raises is not caught. -/
def Counted._sendMessage (c : Counted) (message : PyMap) (reply : Reply) : Option PyExc × Counted :=
  if c.conn.sendable then
    match writeWithin limits py (.dict message) with
    | .error exc => (some exc, c)
    | .ok _ => match reply.error c.conn.config.exchangeName with
      | some exc => (some exc, c)
      | none => (none, { c with messagesSent := c.messagesSent + 1 })
  else (some (webSocketError c.conn.config.exchangeName "Not connected"), c)

/-- The entries that `subscribe` makes. -/
def Counted.register (c : Counted) (s : Subscription) : Counted :=
  { c with conn := c.conn.subscribe s, subscriptionsAdded := c.subscriptionsAdded + 1 }

/-- `WebSocketConnection.subscribe`, with what it raises. -/
def Counted.subscribe (c : Counted) (s : Subscription) (reply : Reply) : Option PyExc × Counted :=
  if c.conn.exceeded s.topic then (some (rateLimitError c.conn.config.exchangeName s.topic), c)
  else (c.register s)._sendMessage py limits (_sendSubscription py c.conn.config.exchangeName s) reply

/-- The messages of `_restore_subscriptions`, in order. -/
def Counted.restored (c : Counted) : List PyMap :=
  c.conn._subscriptions.values.map (_sendSubscription py c.conn.config.exchangeName)

/-- The table, the counts and the statistic are as before. -/
structure Unchanged (c c' : Counted) : Prop where
  subscriptions : c'.conn._subscriptions = c.conn._subscriptions
  counts : ∀ topic, c'.conn._subscriptionCount topic = c.conn._subscriptionCount topic
  added : c'.subscriptionsAdded = c.subscriptionsAdded

/-- A `subscribe` that raises has changed nothing. -/
def Atomic (c : Counted) (s : Subscription) (reply : Reply) : Prop :=
  ∀ exc, (c.subscribe py limits s reply).1 = some exc → Unchanged c (c.subscribe py limits s reply).2

/-- The connection is up, the message can be written within the limits, and the socket
takes it. -/
structure Sends (c : Counted) (s : Subscription) (reply : Reply) : Prop where
  sendable : c.conn.sendable = true
  written : ∃ text, writeWithin limits py (.dict (_sendSubscription py c.conn.config.exchangeName s)) = .ok text
  taken : reply.error c.conn.config.exchangeName = none

end

variable {py : Interp} {limits : Limits} {c : Counted} {s : Subscription} {reply : Reply}

/-- A send counts its message and nothing else. -/
theorem sendMessage_frame (py : Interp) (limits : Limits) (c : Counted) (message : PyMap) (reply : Reply) :
    (c._sendMessage py limits message reply).2.conn = c.conn ∧
      (c._sendMessage py limits message reply).2.subscriptionsAdded = c.subscriptionsAdded := by
  unfold Counted._sendMessage
  split
  · split
    · exact ⟨rfl, rfl⟩
    · split <;> exact ⟨rfl, rfl⟩
  · exact ⟨rfl, rfl⟩

theorem sendMessage_none_iff : ((c.register s)._sendMessage py limits
    (_sendSubscription py c.conn.config.exchangeName s) reply).1 = none ↔ Sends py limits c s reply := by
  have hup : (c.register s).conn.sendable = c.conn.sendable := rfl
  have hname : (c.register s).conn.config = c.conn.config := rfl
  rw [Counted._sendMessage, hup, hname]
  cases hs : c.conn.sendable with
  | false => exact ⟨nofun, fun h => absurd (hs.symm.trans h.sendable) nofun⟩
  | true =>
    rw [if_pos rfl]
    cases hw : writeWithin limits py (.dict (_sendSubscription py c.conn.config.exchangeName s)) with
    | error exc =>
      refine ⟨nofun, fun h => ?_⟩
      obtain ⟨text, ht⟩ := h.written
      rw [hw] at ht
      cases ht
    | ok text =>
      cases hr : reply.error c.conn.config.exchangeName with
      | some exc => exact ⟨nofun, fun h => absurd (hr.symm.trans h.taken) nofun⟩
      | none => exact ⟨fun _ => ⟨hs, ⟨text, hw⟩, hr⟩, fun _ => rfl⟩

/-- Past the limit the entries are made, whatever becomes of the send. -/
theorem registered_of_room (hroom : c.conn.exceeded s.topic = false) :
    (c.subscribe py limits s reply).2.conn = c.conn.subscribe s ∧
      (c.subscribe py limits s reply).2.subscriptionsAdded = c.subscriptionsAdded + 1 := by
  rw [Counted.subscribe, hroom, if_neg Bool.false_ne_true]
  exact sendMessage_frame py limits (c.register s) _ reply

/-- The next reconnect sends what is in the table, also what was reported as failed. -/
theorem restored_of_room (hroom : c.conn.exceeded s.topic = false) :
    _sendSubscription py c.conn.config.exchangeName s ∈ (c.subscribe py limits s reply).2.restored py := by
  have hconn : (c.subscribe py limits s reply).2.conn = c.conn.subscribe s := (registered_of_room hroom).1
  rw [Counted.restored, hconn]
  refine List.mem_map.mpr ⟨s, ?_, rfl⟩
  have hget : (c.conn.subscribe s)._subscriptions.get s.id = some s := by
    rw [WebSocketConnection.subscribe, Dict.get_set, if_pos rfl]
  exact List.mem_map.mpr ⟨_, Dict.mem_of_get hget, rfl⟩

/-- `subscribe` is atomic where the limit is reached or the message is sent, and only
there. -/
theorem subscribe_atomic_iff (py : Interp) (limits : Limits) (c : Counted) (s : Subscription) (reply : Reply) :
    Atomic py limits c s reply ↔ c.conn.exceeded s.topic = true ∨ Sends py limits c s reply := by
  cases hroom : c.conn.exceeded s.topic with
  | true =>
    refine iff_of_true (fun exc _ => ?_) (.inl rfl)
    rw [Counted.subscribe, hroom, if_pos rfl]
    exact ⟨rfl, fun _ => rfl, rfl⟩
  | false =>
    have hout : (c.subscribe py limits s reply).1 = ((c.register s)._sendMessage py limits
        (_sendSubscription py c.conn.config.exchangeName s) reply).1 := by
      rw [Counted.subscribe, hroom, if_neg Bool.false_ne_true]
    constructor
    · intro h
      refine .inr (sendMessage_none_iff.mp ?_)
      rw [← hout]
      cases hraised : (c.subscribe py limits s reply).1 with
      | none => rfl
      | some exc =>
        have hadded := (h exc hraised).added
        rw [(registered_of_room hroom).2] at hadded
        omega
    · rintro (hno | hs) exc hraised
      · cases hno
      · rw [hout, sendMessage_none_iff.mpr hs] at hraised
        cases hraised

/-- A connection that is down, with room for one ticker. -/
def oneTicker : Counted :=
  .new { WebSocketConfig.plain "OKX" with subscriptionLimits := Dict.empty.set "ticker" 1 }

def btcTicker : Subscription := ⟨"first", "ticker", "BTC-USDT", [], none⟩

/-- The subscription is refused, uses up the limit of its topic, and is sent by the
next reconnect. -/
theorem refused_but_kept :
    ¬ Atomic .ascii .ample oneTicker btcTicker .done ∧ oneTicker.conn._subscriptions.get btcTicker.id = none ∧
      (oneTicker.subscribe .ascii .ample btcTicker .done).1 = some (webSocketError "OKX" "Not connected") ∧
      (oneTicker.subscribe .ascii .ample btcTicker .done).2.conn.exceeded "ticker" = true ∧
      _sendSubscription .ascii "OKX" btcTicker ∈ (oneTicker.subscribe .ascii .ample btcTicker .done).2.restored .ascii := by
  have hroom : oneTicker.conn.exceeded btcTicker.topic = false := by decide +kernel
  refine ⟨fun h => ?_, by decide +kernel, by decide +kernel, by decide +kernel, restored_of_room hroom⟩
  rcases (subscribe_atomic_iff ..).mp h with hfull | hsends
  · rw [hroom] at hfull
    cases hfull
  · cases hsends.sendable

end WebSocketSubscribes
