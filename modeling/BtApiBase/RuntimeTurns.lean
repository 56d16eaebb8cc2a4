import BtApiBase.RuntimeSurvival

/-!
# The loop over many turns

Turn after turn the loop takes one command at most, and between two turns the thread that
connects the adapter may report. A turn that raises is the last one.
-/

namespace RuntimeTurns

open PyText PyValue Effects Health Protocol RuntimeRemote RuntimeFrame RuntimeCommands
  RuntimeSurvival

structure Turn where
  env : Env
  /-- The thread that connects the adapter has succeeded or given up before the turn. -/
  connected : Option Bool
  received : Option Message

/-- The poll of this turn has a message. -/
def Turn.asks (turn : Turn) : Bool := turn.received.isSome

def Turn.before (turn : Turn) (s : GatewayRuntime) : GatewayRuntime := match turn.connected with
  | none => s
  | some true => connectSucceeded s
  | some false => connectGivenUp s

/-- The `while` of `start`; the loop goes on, or one turn has ended it. -/
def loop : List Turn → GatewayRuntime → Bool × GatewayRuntime
  | [], s => (true, s)
  | turn :: turns, s => match exec (loopOnce turn.env turn.received) (turn.before s) with
    | (.ok true, s') => loop turns s'
    | (_, s') => (false, s')

/-- The reply is one to the command of the turn: to the identity that asked, with its id. -/
def Replied (turn : Turn) (reply : Bytes × Bytes) : Prop :=
  ∃ message c fields, turn.received = some message ∧ decodeCommand turn.env message.last = .ok c ∧
    reply.1 = message.identity ∧ dumpsMessage turn.env.py (object fields) = .ok reply.2 ∧
    (u "request_id", .str c.requestId) ∈ fields

/-- The replies that a state has more than another one answer these turns, one each. -/
def Adds (s s' : GatewayRuntime) (answered : List Turn) : Prop :=
  ∃ new, replies s' = replies s ++ new ∧ List.Forall₂ Replied answered new

theorem adds_same {s s' : GatewayRuntime} (h : replies s' = replies s) : Adds s s' [] :=
  ⟨[], by simp [h], .nil⟩

theorem Adds.trans {s s' s'' : GatewayRuntime} {answered answered' : List Turn}
    (h : Adds s s' answered) (h' : Adds s' s'' answered') : Adds s s'' (answered ++ answered') := by
  obtain ⟨new, hr, hf⟩ := h
  obtain ⟨new', hr', hf'⟩ := h'
  exact ⟨new ++ new', by rw [hr', hr, List.append_assoc], List.rel_append hf hf'⟩

/-- No reply is sent after them. -/
theorem Adds.same {s s' s'' : GatewayRuntime} {answered : List Turn} (h : Adds s s' answered)
    (hr : replies s'' = replies s') : Adds s s'' answered := by
  simpa using h.trans (adds_same hr)

def ping : Message := ⟨[7], [frameOf "\x7b\"request_id\": \"r1\", \"command\": \"ping\"\x7d"]⟩

end RuntimeTurns
