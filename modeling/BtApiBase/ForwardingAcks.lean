import BtApiBase.ForwardingRuntime

/-!
# How a write is acknowledged

An acknowledgement puts a write into one of three classes. What the adapter's
result claims is read off the result alone, so that the classes the handler
makes can be compared with it; the handler overlooks one of the claims.
-/

namespace ForwardingAcks

open PyText PyDict PyValue Effects RuntimeRemote ForwardingRuntime

/-- The two commands that write. -/
inductive Write where
  | place | cancel
  deriving DecidableEq

def Write.name : Write → PyStr
  | .place => "place_order"
  | .cancel => "cancel_order"

def Write.call : Write → Adapter → PyMap → Except PyExc PyVal
  | .place => Adapter.placeOrder
  | .cancel => Adapter.cancelOrder

def Write.defaultStatus : Write → PyStr
  | .place => "accepted"
  | .cancel => "canceled"

def Write.counted : Write → Bool
  | .place => true
  | .cancel => false

section

variable (py : Interp) (now : Rat)

/-- The command type of a command, as the handler reads it. -/
def commandType (command : Attributes) : PyStr :=
  py.lower (attrText py command "command_type" (.str "") "")

theorem dispatchCommand_write {w : Write} {command : Attributes}
    (h : commandType py command = w.name) :
    dispatchCommand py now command =
      writeCommand py now command w.call w.defaultStatus w.counted := by
  unfold dispatchCommand
  rw [show py.lower (attrText py command (u "command_type") (.str (u "")) (u "")) = w.name from h]
  cases w <;> simp [Write.name, Write.call, Write.defaultStatus, Write.counted]

/-- What the adapter does with the write; `none` if it is not called. -/
def answer (w : Write) (command : Attributes) (s : Forwarding) : Option (Except PyExc PyVal) :=
  match _payloadFromOrderCommand py s.config command, s.adapter with
  | .ok payload, some adapter => some (w.call adapter payload)
  | _, _ => none

/-- The adapter returned something that `dict` turns into `r`. -/
def Result (w : Write) (command : Attributes) (s : Forwarding) (r : PyMap) : Prop :=
  ∃ v, answer py w command s = some (.ok v) ∧ py.dict v = .ok r

/-- An exception was raised after the adapter call had started. -/
def Raised (w : Write) (command : Attributes) (s : Forwarding) : Prop :=
  (∃ e, answer py w command s = some (.error e)) ∨
    ∃ v e, answer py w command s = some (.ok v) ∧ py.dict v = .error e

/-! ## The acknowledgements -/

theorem exec_ack (command : Attributes) (accepted status : PyVal) (orderId : PyStr)
    {payload : PyVal} {d : PyMap} (h : py.dict (orElse payload (.dict [])) = .ok d)
    (reason : PyStr) (s : Forwarding) :
    ∃ a, exec (acknowledge py command accepted status orderId payload reason) s = (.ok a, s) ∧
      a.accepted = accepted ∧ a.status = status ∧ a.payload = d := by
  unfold acknowledge _ack
  rw [exec_get_bind, exec_ofExcept, h]
  exact ⟨_, rfl, rfl, rfl, rfl⟩

theorem dict_orElse (d : PyMap) : py.dict (orElse (.dict d) (.dict [])) = .ok d := by
  cases d <;> rfl

/-- The flags of an acknowledgement's payload that speak about acceptance. -/
def flag (a : CommandAck) (name : PyStr) : PyVal := PyMap.get a.payload name

/-- The `except` clause always acknowledges, and the flag decides how. -/
theorem exec_commandFailed (command : Attributes) (exc : PyExc) (s : Forwarding) :
    ∃ a s', exec (commandFailed py now command exc) s = (.ok a, s') ∧ s'.writes = s.writes ∧
      a.accepted = .bool false ∧ flag a "accepted" = .none ∧
      if s.writeDispatched then
        a.status = .str "unknown" ∧ flag a "execution_unknown" = .bool true ∧
          flag a "definite_reject" = .bool false
      else a.status = .str "rejected" := by
  obtain ⟨s₁, h₁, hw, hd⟩ : ∃ s₁, exec (_recordError now "command" exc) s = (.ok (), s₁) ∧
      s₁.writes = s.writes ∧ s₁.writeDispatched = s.writeDispatched := ⟨_, rfl, rfl, rfl⟩
  unfold commandFailed
  rw [exec_bind_ok h₁, exec_get_bind, ← hd]
  cases s₁.writeDispatched with
  | true =>
    obtain ⟨a, he, ha, hs, hp⟩ := exec_ack py command (.bool false) (.str "unknown") ""
      (dict_orElse py [(.str "execution_unknown", .bool true), (.str "definite_reject", .bool false),
        (.str "terminal_confirmed", .bool false), (.str "error_code", .str (u exc.type.name))])
      (u exc.type.name) s₁
    refine ⟨a, s₁, he, hw, ha, ?_, hs, ?_, ?_⟩ <;> simp [flag, hp, PyMap.get, find]
  | false =>
    obtain ⟨a, he, ha, hs, hp⟩ := exec_ack py command (.bool false) (.str "rejected") ""
      (show py.dict (orElse .none (.dict [])) = .ok [] from rfl) exc.text s₁
    exact ⟨a, s₁, he, hw, ha, by simp [flag, hp], hs⟩

/-- A write ends where it first fails, or in the acknowledgement of its result. -/
theorem exec_writeCommand (w : Write) (command : Attributes) (s : Forwarding) :
    match answer py w command s with
    | none => ∃ e s', exec (writeCommand py now command w.call w.defaultStatus w.counted) s =
        (.error e, s') ∧ s'.writes = s.writes
    | some (.error e) => ∃ s', exec (writeCommand py now command w.call w.defaultStatus w.counted) s =
        (.error e, s') ∧ s'.writes ≠ s.writes ∧ s'.writeDispatched = true
    | some (.ok v) => match _writeResult py v w.defaultStatus with
      | .error e => ∃ s', exec (writeCommand py now command w.call w.defaultStatus w.counted) s =
          (.error e, s') ∧ s'.writes ≠ s.writes ∧ s'.writeDispatched = true
      | .ok r => ∃ a s', exec (writeCommand py now command w.call w.defaultStatus w.counted) s =
          (.ok a, s') ∧ s'.writes ≠ s.writes ∧ a.accepted = PyMap.get r "accepted" ∧
            a.status = PyMap.get r "status" ∧ a.payload = r := by
  unfold answer writeCommand theAdapter
  rw [exec_get_bind]
  cases hp : _payloadFromOrderCommand py s.config command with
  | error e =>
    rw [exec_bind_error (exec_ofExcept _ _)]
    exact ⟨e, s, rfl, rfl⟩
  | ok payload =>
    rw [exec_bind_ok (exec_ofExcept _ _), exec_modify_bind]
    cases ha : s.adapter with
    | none =>
      simp only [exec_bind, exec_get, exec_throw]
      exact ⟨_, _, rfl, rfl⟩
    | some adapter =>
      simp only [exec_bind, exec_get, exec_pure, exec_modify, exec_ofExcept]
      cases hw : w.call adapter payload with
      | error e => exact ⟨_, rfl, by simp, rfl⟩
      | ok v =>
        dsimp only
        cases hr : _writeResult py v w.defaultStatus with
        | error e => exact ⟨_, rfl, by simp, rfl⟩
        | ok r =>
          dsimp only
          obtain ⟨a, he, h₁, h₂, h₃⟩ := exec_ack py command (PyMap.get r "accepted")
            (PyMap.get r "status") (py.str (orElse (orElse (PyMap.get r "id")
              (PyMap.get r "order_id")) (.str ""))) (dict_orElse py r) ""
            (if w.counted = true then _ else _)
          refine ⟨a, _, he, ?_, h₁, h₂, h₃⟩
          split <;> simp

/-! ## The classification -/

/-- The result claims that the order may have been executed. -/
def Uncertain (w : Write) (r : PyMap) : Prop :=
  truthy (PyMap.get r "execution_unknown") = true ∨
    resultStatus py r w.defaultStatus = u "unknown"

/-- The ways to claim a rejection that `_write_result` looks at. -/
def RejectedBySight (w : Write) (r : PyMap) : Prop :=
  (resultStatus py r w.defaultStatus = u "rejected" ∨
    resultStatus py r w.defaultStatus = u "error") ∨
    isFalse (PyMap.get r "accepted") = true ∨ truthy (PyMap.get r "error") = true

def DefiniteReject (r : PyMap) : Prop := truthy (PyMap.get r "definite_reject") = true

/-- The result claims that the order was rejected. -/
def Rejected (w : Write) (r : PyMap) : Prop := RejectedBySight py w r ∨ DefiniteReject r

/-- Nothing in the payload speaks against `accepted`. -/
structure Consistent (a : CommandAck) : Prop where
  accepted : a.accepted = .bool true → flag a "accepted" = .bool true ∧
    truthy (flag a "execution_unknown") = false ∧ truthy (flag a "definite_reject") = false
  refused : a.accepted = .bool false → truthy (flag a "accepted") = false

/-- The acknowledgement says what the adapter's result allows it to say. -/
structure Faithful (w : Write) (command : Attributes) (s s' : Forwarding) (a : CommandAck) :
    Prop where
  accepted : a.accepted = .bool true →
    ∃ r, Result py w command s r ∧ ¬ Uncertain py w r ∧ ¬ Rejected py w r
  rejected : a.status = .str "rejected" →
    s'.writes = s.writes ∨ ∃ r, Result py w command s r ∧ Rejected py w r
  raised : Raised py w command s → a.status = .str "unknown" ∧
    flag a "execution_unknown" = .bool true ∧ flag a "definite_reject" = .bool false
  consistent : Consistent a

/-- A rejection that only the flag `definite_reject` claims. -/
def Overlooked (w : Write) (r : PyMap) : Prop :=
  DefiniteReject r ∧ ¬ Uncertain py w r ∧ ¬ RejectedBySight py w r

/-- The three branches of `_write_result`. -/
theorem writeResult_cases {v : PyVal} {r : PyMap} (h : py.dict v = .ok r) (w : Write) :
    ∃ r', _writeResult py v w.defaultStatus = .ok r' ∧
      ((Uncertain py w r ∧ PyMap.get r' "accepted" = .bool false ∧
          PyMap.get r' "status" = .str "unknown") ∨
        (¬ Uncertain py w r ∧ RejectedBySight py w r ∧ PyMap.get r' "accepted" = .bool false ∧
          PyMap.get r' "status" = .str "rejected") ∨
        (¬ Uncertain py w r ∧ ¬ RejectedBySight py w r ∧ PyMap.get r' "accepted" = .bool true ∧
          PyMap.get r' "status" = .str (resultStatus py r w.defaultStatus) ∧
          PyMap.get r' "execution_unknown" = PyMap.get r "execution_unknown" ∧
          PyMap.get r' "definite_reject" = PyMap.get r "definite_reject")) := by
  unfold _writeResult
  rw [h]
  simp only [bind, Except.bind]
  split
  · next hu => exact ⟨_, rfl, .inl ⟨hu, by simp [PyMap.update, PyMap.get_set]⟩⟩
  · next hu =>
    split
    · next hr =>
      exact ⟨_, rfl, .inr (.inl ⟨hu, hr, by simp [PyMap.update, PyMap.get_set]⟩)⟩
    · next hr =>
      exact ⟨_, rfl, .inr (.inr ⟨hu, hr, by simp [PyMap.update, PyMap.get_set]⟩)⟩

theorem consistent_of_refused {a : CommandAck} (h : a.accepted = .bool false)
    (hf : truthy (flag a "accepted") = false) : Consistent a where
  accepted h' := by rw [h] at h'; cases h'
  refused _ := hf

/-- An exception is acknowledged faithfully if it is uncertain, or if the
adapter was not called. -/
theorem faithful_of_failed {w : Write} {command : Attributes} {s s₁ : Forwarding} (exc : PyExc)
    (h : s₁.writeDispatched = true ∨ (s₁.writes = s.writes ∧ ¬ Raised py w command s)) :
    ∃ a s', exec (commandFailed py now command exc) s₁ = (.ok a, s') ∧
      Faithful py w command s s' a := by
  obtain ⟨a, s', he, hw, ha, hf, hs⟩ := exec_commandFailed py now command exc s₁
  refine ⟨a, s', he, ?_, ?_, ?_, consistent_of_refused ha (by rw [hf]; rfl)⟩
  · intro h'
    rw [ha] at h'
    cases h'
  · intro h'
    rcases h with hd | ⟨hw', -⟩
    · rw [if_pos hd, h'] at hs
      simp at hs
    · exact .inl (hw.trans hw')
  · intro hr
    rcases h with hd | ⟨-, hn⟩
    · rwa [if_pos hd] at hs
    · exact absurd hr hn

/-- The acknowledgement of a result is faithful unless a definite rejection was
overlooked. -/
theorem faithful_iff_of_result {w : Write} {command : Attributes} {s : Forwarding} {v : PyVal}
    {r r' : PyMap} {a : CommandAck} (s' : Forwarding) (hans : answer py w command s = some (.ok v))
    (hr : py.dict v = .ok r) (hw : _writeResult py v w.defaultStatus = .ok r')
    (ha : a.accepted = PyMap.get r' "accepted") (hs : a.status = PyMap.get r' "status")
    (hp : a.payload = r') :
    Faithful py w command s s' a ↔ ¬ Overlooked py w r := by
  have hres : ∀ q, Result py w command s q ↔ q = r := by
    intro q
    simp [Result, hans, hr, eq_comm]
  have hraised : ¬ Raised py w command s := by
    simp [Raised, hans, hr]
  have hacc : flag a "accepted" = a.accepted := by rw [ha, flag, hp]
  obtain ⟨q, hq, hcases⟩ := writeResult_cases py hr w
  obtain rfl : q = r' := by
    rw [hw] at hq
    exact (Except.ok.inj hq).symm
  have hrefused : a.accepted = .bool false → Consistent a := fun h =>
    consistent_of_refused h (by rw [hacc, h]; rfl)
  rcases hcases with ⟨hu, h₁, h₂⟩ | ⟨hu, hn, h₁, h₂⟩ | ⟨hu, hn, h₁, h₂, h₃, h₄⟩
  · rw [h₁] at ha
    rw [h₂] at hs
    refine iff_of_true ⟨?_, ?_, fun h => absurd h hraised, hrefused ha⟩ fun h => h.2.1 hu
    · rw [ha]
      rintro ⟨⟩
    · rw [hs]
      simp
  · rw [h₁] at ha
    refine iff_of_true ⟨?_, ?_, fun h => absurd h hraised, hrefused ha⟩ fun h => h.2.2 hn
    · rw [ha]
      rintro ⟨⟩
    · exact fun _ => .inr ⟨r, (hres r).mpr rfl, .inl hn⟩
  · rw [h₁] at ha
    rw [h₂] at hs
    have hd : ¬ Overlooked py w r ↔ ¬ DefiniteReject r := by simp [Overlooked, hu, hn]
    rw [hd]
    constructor
    · intro h hdef
      have := (h.consistent.accepted ha).2.2
      rw [flag, hp, h₄] at this
      exact Bool.false_ne_true (this.symm.trans hdef)
    · intro hdef
      refine ⟨fun _ => ⟨r, (hres r).mpr rfl, hu, fun h => h.elim hn hdef⟩, ?_,
        fun h => absurd h hraised, ⟨fun _ => ⟨hacc.trans ha, ?_, ?_⟩, ?_⟩⟩
      · intro h
        rw [hs, PyVal.str.injEq] at h
        exact absurd (.inl (.inl h)) hn
      · rw [flag, hp, h₃]
        exact Bool.eq_false_iff.mpr fun h => hu (.inl h)
      · rw [flag, hp, h₄]
        exact Bool.eq_false_iff.mpr hdef
      · rw [ha]
        rintro ⟨⟩

/-- Every write is acknowledged, and faithfully so if and only if the adapter's
result does not claim a definite rejection by the flag `definite_reject` alone. -/
theorem faithful_iff (w : Write) (command : Attributes) (s : Forwarding)
    (h : commandType py command = w.name) :
    (∃ a s', exec (_handleCommand py now command) s = (.ok a, s') ∧
      Faithful py w command s s' a) ↔ ∀ r, Result py w command s r → ¬ Overlooked py w r := by
  set s₀ : Forwarding := { s with writeDispatched := false } with hs₀
  have hx : exec (_handleCommand py now command) s =
      match exec (writeCommand py now command w.call w.defaultStatus w.counted) s₀ with
      | (.ok a, s') => (.ok a, s')
      | (.error e, s') => exec (commandFailed py now command e) s' := by
    unfold _handleCommand
    rw [exec_modify_bind, exec_tryCatch, dispatchCommand_write py now h, ← hs₀]
    rcases exec (writeCommand py now command w.call w.defaultStatus w.counted) s₀ with ⟨e | a, s'⟩ <;>
      rfl
  have hc := exec_writeCommand py now w command s₀
  rw [show answer py w command s₀ = answer py w command s from rfl] at hc
  rw [hx]
  cases hans : answer py w command s with
  | none =>
    rw [hans] at hc
    obtain ⟨e, s', he, hw⟩ := hc
    rw [he]
    refine iff_of_true (faithful_of_failed py now e (.inr ⟨hw, by simp [Raised, hans]⟩)) ?_
    rintro r ⟨v, hv, -⟩
    rw [hans] at hv
    cases hv
  | some outcome =>
    rw [hans] at hc
    cases outcome with
    | error e =>
      obtain ⟨s', he, -, hd⟩ := hc
      rw [he]
      refine iff_of_true (faithful_of_failed py now e (.inl hd)) ?_
      rintro r ⟨v, hv, -⟩
      rw [hans] at hv
      cases hv
    | ok v =>
      cases hr : py.dict v with
      | error e =>
        have hw : _writeResult py v w.defaultStatus = .error e := by
          simp [_writeResult, hr, bind, Except.bind]
        simp only [hw] at hc
        obtain ⟨s', he, -, hd⟩ := hc
        rw [he]
        refine iff_of_true (faithful_of_failed py now e (.inl hd)) ?_
        rintro r ⟨v', hv, hr'⟩
        rw [hans] at hv
        cases hv
        rw [hr] at hr'
        cases hr'
      | ok r =>
        obtain ⟨r', hr', -⟩ := writeResult_cases py hr w
        simp only [hr'] at hc
        obtain ⟨a, s', he, -, h₁, h₂, h₃⟩ := hc
        rw [he]
        have hf := faithful_iff_of_result py s' hans hr hr' h₁ h₂ h₃
        constructor
        · rintro ⟨a', s'', heq, hfaith⟩ q ⟨v', hv, hq⟩
          cases heq
          rw [hans] at hv
          cases hv
          rw [hr] at hq
          cases hq
          exact hf.mp hfaith
        · intro hall
          exact ⟨a, s', rfl, hf.mpr (hall r ⟨v, hans, hr⟩)⟩

/-- A runtime with an adapter, for runs on fixed inputs. -/
def forwarding (adapter : Adapter) : Forwarding where
  config := ⟨"a1", "X", "SPOT"⟩
  adapter := some adapter
  _orderCount := 0
  _lastOrderTime := 0
  _subscriptions := []
  _recentErrors := []
  writeDispatched := false
  writes := []

end

/-- An adapter that always does the same does that. -/
theorem eq_of_answer {py : Interp} {w : Write} {command : Attributes} {adapter : Adapter}
    {x y : Except PyExc PyVal} (hx : ∀ payload, w.call adapter payload = x)
    (hy : answer py w command (forwarding adapter) = some y) : y = x := by
  simp only [answer, forwarding] at hy
  split at hy
  · next payload adapter' _ ha =>
    cases ha
    rw [← hx payload]
    exact (Option.some.inj hy).symm
  · cases hy

theorem faithful_iff_sample :
    ∃ command s, commandType .ascii command = Write.place.name ∧
      ∃ a s', exec (_handleCommand .ascii 0 command) s = (.ok a, s') ∧
        Faithful .ascii .place command s s' a := by
  let adapter := { Adapter.silent with placeOrder := fun _ => .ok (.dict []) }
  have hc : commandType .ascii [("command_type", .str "place_order")] = Write.place.name := by
    decide +kernel
  refine ⟨_, forwarding adapter, hc, (faithful_iff .ascii 0 .place _ (forwarding adapter) hc).mpr ?_⟩
  rintro r ⟨v, hv, hr⟩ ⟨hd, -⟩
  cases eq_of_answer (fun _ => rfl) hv
  cases hr
  simp [DefiniteReject, truthy] at hd

/-- An ack that says both that the order is accepted and that it is definitely rejected. -/
def acceptsRejected (a : CommandAck) : Bool :=
  match a.accepted with
  | .bool b => b && truthy (flag a "definite_reject")
  | _ => false

/-- An order that the adapter definitely rejects is acknowledged as accepted. -/
theorem definite_reject_accepted :
    ∃ command s, commandType .ascii command = Write.place.name ∧
      (∃ r, Result .ascii .place command s r ∧ Rejected .ascii .place r) ∧
      ¬ ∃ a s', exec (_handleCommand .ascii 0 command) s = (.ok a, s') ∧
        Faithful .ascii .place command s s' a := by
  let adapter := { Adapter.silent with
    placeOrder := fun _ => .ok (.dict [(.str "definite_reject", .bool true)]) }
  let command : Attributes := [("command_type", .str "place_order")]
  refine ⟨command, forwarding adapter, by decide +kernel,
    ⟨[(.str "definite_reject", .bool true)],
      ⟨.dict [(.str "definite_reject", .bool true)], ?_, rfl⟩,
      .inr (by simp [DefiniteReject, PyMap.get, find, truthy])⟩, ?_⟩
  · simp [answer, forwarding, _payloadFromOrderCommand, command, attr, find, orElse, truthy,
      Interp.dict, bind, Except.bind, Write.call, adapter]
  · rintro ⟨a, s', he, hf⟩
    have h : (exec (_handleCommand .ascii 0 command) (forwarding adapter)).1.toOption.any
        acceptsRejected = true := by decide +kernel
    rw [he] at h
    simp only [Except.toOption, Option.any_some, acceptsRejected] at h
    split at h
    · next b hb =>
      obtain ⟨rfl, hd⟩ := Bool.and_eq_true_iff.mp h
      rw [(hf.consistent.accepted hb).2.2] at hd
      cases hd
    · cases h

end ForwardingAcks
