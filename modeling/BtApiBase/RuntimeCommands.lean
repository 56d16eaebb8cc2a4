import BtApiBase.RuntimeFrame

/-!
# Commands and their replies

The dispatch of a command is guarded, its decoding and its reply are not. So a
command is answered, and the runtime survives it, exactly if the frame decodes
and the response can be encoded; the flush that follows has the same weak spot.
-/

namespace RuntimeCommands

open PyText PyDict PyValue PyJson Effects Health Protocol Subscriptions OrderMap OrderMatching
  OrderRef RuntimeRemote RuntimeFrame

variable (env : Env)

/-! ## Decoding -/

/-- The frame is a UTF-8 JSON object within the limits of the interpreter, and its
`payload`, if it is not falsy, can be made a dictionary. -/
def WellFormed (frame : Bytes) : Prop :=
  ∃ d, loadsMessageWithin env.limits env.py frame = .ok (.dict d) ∧
    ∃ data, env.py.dict (orElse (PyMap.get d "payload") (.dict [])) = .ok data

theorem decodeCommand_isOk (frame : Bytes) :
    (∃ c, decodeCommand env frame = .ok c) ↔ WellFormed env frame := by
  unfold decodeCommand WellFormed
  cases loadsMessageWithin env.limits env.py frame with
  | error e => simp [bind, Except.bind]
  | ok v =>
    cases v with
    | dict d =>
      cases hd : env.py.dict (orElse (PyMap.get d "payload") (.dict [])) <;>
        simp [bind, Except.bind, mapping, hd]
    | _ => simp [bind, Except.bind, mapping]

/-! ## The response -/

/-- What the dispatch of a command returns or raises. -/
def outcome (c : Command) (s : GatewayRuntime) : Except PyExc PyVal :=
  (exec (_dispatch env c.command c.data) s).1

def response (c : Command) : Except PyExc PyVal → List (PyStr × PyVal)
  | .ok result => okResponse c.requestId result
  | .error exc => errorResponse c.requestId exc

/-- A returned value can be encoded, and so can the text of an exception. -/
def OutcomeEncodable : Except PyExc PyVal → Prop
  | .ok result => Encodable env.py result
  | .error exc => Scalar exc.text

/-- The two messages that hold the outcome are within the limits of the interpreter. -/
def OutcomeWithin (c : Command) (o : Except PyExc PyVal) : Prop :=
  env.limits.writing (object (response c o)) = none ∧
    env.limits.writing (object (commandResult c.command (response c o))) = none

/-- The texts that the client chose and the outcome of the dispatch can be encoded. -/
def Answerable (c : Command) (o : Except PyExc PyVal) : Prop :=
  Scalar c.requestId ∧ Scalar c.command ∧ OutcomeEncodable env o ∧ OutcomeWithin env c o

instance (o : Except PyExc PyVal) : Decidable (OutcomeEncodable env o) := match o with
  | .ok result => inferInstanceAs (Decidable (Encodable env.py result))
  | .error exc => inferInstanceAs (Decidable (Scalar exc.text))

instance (c : Command) (o : Except PyExc PyVal) : Decidable (OutcomeWithin env c o) :=
  inferInstanceAs (Decidable (_ ∧ _))

instance (c : Command) (o : Except PyExc PyVal) : Decidable (Answerable env c o) :=
  inferInstanceAs (Decidable (_ ∧ _))

theorem exec_respond (c : Command) (s : GatewayRuntime) :
    (exec (respond env c) s).1 = .ok (response c (outcome env c s)) ∧
      (exec (respond env c) s).2.orderMap =
        (exec (_dispatch env c.command c.data) s).2.orderMap := by
  unfold respond outcome
  rw [exec_tryCatch, exec_bind]
  rcases exec (_dispatch env c.command c.data) s with ⟨result | exc, s'⟩ <;> exact ⟨rfl, rfl⟩

theorem encodable_response (c : Command) (o : Except PyExc PyVal) :
    Encodable env.py (object (response c o)) ↔ Scalar c.requestId ∧ OutcomeEncodable env o := by
  cases o with
  | ok result =>
    rw [object, response, encodable_fields _ _ (by simp [okResponse]) (by simp [okResponse])]
    simp [okResponse, OutcomeEncodable]
  | error exc =>
    rw [object, response, encodable_fields _ _ (by simp [errorResponse]) (by simp [errorResponse])]
    simp [errorResponse, OutcomeEncodable]

theorem encodable_commandResult (c : Command) (o : Except PyExc PyVal) :
    Encodable env.py (object (commandResult c.command (response c o))) ↔
      Scalar c.requestId ∧ Scalar c.command ∧ OutcomeEncodable env o := by
  cases o with
  | ok result =>
    rw [object, encodable_fields _ _ (by simp [commandResult, response, okResponse])
      (by simp [commandResult, response, okResponse])]
    simp [commandResult, response, okResponse, OutcomeEncodable]
    tauto
  | error exc =>
    rw [object, encodable_fields _ _ (by simp [commandResult, response, errorResponse])
      (by simp [commandResult, response, errorResponse])]
    simp [commandResult, response, errorResponse, OutcomeEncodable]
    tauto

/-- The reply can be written, and so can the event about the result. -/
theorem answerable_iff (c : Command) (o : Except PyExc PyVal) :
    Answerable env c o ↔ EncodableWithin env.limits env.py (object (response c o)) ∧
      EncodableWithin env.limits env.py (object (commandResult c.command (response c o))) := by
  rw [encodableWithin_iff, encodableWithin_iff, encodable_response, encodable_commandResult]
  unfold Answerable OutcomeWithin
  tauto

def Effect.reply? : Effect → Option (Bytes × Bytes)
  | .reply identity frame => some (identity, frame)
  | _ => none

/-- The replies sent so far, each with the identity it went to. -/
def replies (s : GatewayRuntime) : List (Bytes × Bytes) := s.trace.filterMap Effect.reply?

theorem exec_send {s : GatewayRuntime} (h : s.sockets = true) (frame : Except PyExc Bytes)
    (effect : Bytes → Effect) :
    exec (send frame effect) s = match frame with
      | .ok frame => (.ok (), { s with trace := s.trace ++ [effect frame] })
      | .error e => (.error e, s) := by
  unfold send
  cases frame <;> simp [h, exec_bind, emit]

theorem exec_publish_event {s : GatewayRuntime} (h : s.sockets = true) (payload : PyVal) :
    (exec (_publish env (.str CHANNEL_EVENT) payload) s).1 = .ok () ↔
      EncodableWithin env.limits env.py payload := by
  have hc : (CHANNEL_EVENT == CHANNEL_MARKET) = false := by simp [CHANNEL_EVENT, CHANNEL_MARKET]
  rw [← dumpsMessageWithin_isOk]
  simp only [_publish, isStr_str, hc, Bool.false_eq_true, ↓reduceIte, beq_self_eq_true,
    exec_send h]
  cases dumpsMessageWithin env.limits env.py payload <;> simp

/-- A command that decodes is dispatched, answered and published, in this order. -/
theorem exec_handleCommands {s : GatewayRuntime} (hs : s.sockets = true) {message : Message}
    {c : Command} (hc : decodeCommand env message.last = .ok c) :
    exec (_handleCommands env (some message)) s =
      match dumpsMessageWithin env.limits env.py (object (response c (outcome env c s))) with
      | .error e => (.error e, (exec (respond env c) s).2)
      | .ok frame =>
        exec (_publish env (.str CHANNEL_EVENT)
            (object (commandResult c.command (response c (outcome env c s)))))
          { (exec (respond env c) s).2 with
            trace := (exec (respond env c) s).2.trace ++ [.reply message.identity frame] } := by
  have hr := (exec_respond env c s).1
  have hk := keeps_respond untouched_controls env c s
  rcases h : exec (respond env c) s with ⟨r, s'⟩
  rw [h] at hr hk
  obtain rfl : r = .ok (response c (outcome env c s)) := hr
  have hs' : s'.sockets = true := (congrArg Control.sockets hk).trans hs
  have hd : exec (ofExcept (decodeCommand env message.last) : Runtime Command) s = (.ok c, s) := by
    rw [exec_ofExcept, hc]
  rw [_handleCommands, exec_get_bind]
  simp only [hs, Bool.not_true, Bool.false_eq_true, ↓reduceIte]
  rw [exec_bind_ok hd, exec_bind_ok h, exec_bind, exec_send hs']
  cases dumpsMessageWithin env.limits env.py (object (response c (outcome env c s))) <;> rfl

/-- The handler raises if the reply or the published result cannot be encoded. -/
theorem returns_handleCommands {s : GatewayRuntime} (hs : s.sockets = true) {message : Message}
    {c : Command} (hc : decodeCommand env message.last = .ok c) :
    (exec (_handleCommands env (some message)) s).1 = .ok () ↔
      Answerable env c (outcome env c s) := by
  have hk := keeps_respond untouched_controls env c s
  rw [exec_handleCommands env hs hc]
  rw [answerable_iff]
  cases hd : dumpsMessageWithin env.limits env.py (object (response c (outcome env c s))) with
  | error e =>
    have hn : ¬ EncodableWithin env.limits env.py (object (response c (outcome env c s))) := by
      rw [← dumpsMessageWithin_isOk, hd]
      rintro ⟨_, ⟨⟩⟩
    exact ⟨by rintro ⟨⟩, fun ha => absurd ha.1 hn⟩
  | ok frame =>
    have hr : EncodableWithin env.limits env.py (object (response c (outcome env c s))) :=
      (dumpsMessageWithin_isOk ..).mp ⟨frame, hd⟩
    rw [and_iff_right hr]
    refine exec_publish_event env ?_ _
    exact (congrArg Control.sockets hk).trans hs

/-! ## Exactly one reply -/

/-- The handler returns, the runtime still runs, and one reply was sent: to the
identity that asked, with its request id. -/
def Answered (message : Message) (c : Command) (s : GatewayRuntime) : Prop :=
  ∃ s' frame fields, exec (_handleCommands env (some message)) s = (.ok (), s') ∧
    s'.running = s.running ∧ replies s' = replies s ++ [(message.identity, frame)] ∧
    dumpsMessage env.py (object fields) = .ok frame ∧
    (u "request_id", .str c.requestId) ∈ fields

/-- The command of a frame passes a test. -/
def frameHas (frame : Bytes) (test : Command → Bool) : Bool :=
  (decodeCommand env frame).toOption.any test

theorem exists_of_frameHas {frame : Bytes} {test : Command → Bool}
    (h : frameHas env frame test = true) :
    ∃ c, decodeCommand env frame = .ok c ∧ test c = true := by
  unfold frameHas at h
  cases hc : decodeCommand env frame with
  | error e => rw [hc] at h; cases h
  | ok c => rw [hc] at h; exact ⟨c, rfl, h⟩

def frameOf (text : String) : Bytes := text.toUTF8.data.toList

end RuntimeCommands
