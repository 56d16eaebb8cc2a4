import BtApiBase.JsonLimits
import BtApiBase.WebSocketMessages

/-!
# Frames of a websocket connection

The processing task decompresses, decodes and parses a frame and handles the
message, and goes on after the exceptions it names. It ends with any other:
`zlib.error` is none of them, nor is the `RecursionError` of a text that is nested
too deep, and neither is the `AttributeError` of a message, or of a part of it,
that is no dictionary or no text where one is expected.
-/

namespace WebSocketFrames

open PyText PyValue PyJson WebSocketMessages

/-- What `recv` returns. -/
inductive Frame where
  | bytes (b : Bytes)
  | text (s : PyStr)

/-- What became of a frame: the next one is read, or a network error is handled,
or the task ends. -/
inductive Outcome where
  | handled (calls : List (Subscription × Except PyExc Unit))
  | skipped (exc : PyExc)
  | disconnects (exc : PyExc)
  | ended (exc : PyExc)

def Outcome.goesOn : Outcome → Bool
  | .handled _ | .skipped _ => true
  | .disconnects _ | .ended _ => false

/-- `except (json.JSONDecodeError, KeyError, ValueError, TypeError)` -/
def isCaught (t : ExcType) : Bool :=
  t.isA .jsonDecodeError || t.isA (.other "KeyError") || t.isA .valueError || t.isA .typeError

section

variable (py : Interp) (limits : Limits) (decompress : Bytes → Option Bytes) (compression : Bool)
  (exchange : PyStr)

/-- The frame starts as zlib data does. -/
def isCompressed : Frame → Bool
  | .bytes b => compression && [0x78, 0x9c].isPrefixOf b
  | .text _ => false

def readText (b : Bytes) : Except PyExc PyVal :=
  match decode b with
  | some s => loadsWithin limits py s
  | none => .error ⟨.unicodeDecodeError, "'utf-8' codec can't decode"⟩

/-- The message in a frame. -/
def readFrame (frame : Frame) : Except PyExc PyVal :=
  match frame with
  | .text s => loadsWithin limits py s
  | .bytes b =>
    if isCompressed compression frame then
      match decompress b with
      | some b => readText py limits b
      | none => .error ⟨.other "zlib.error", "Error while decompressing data"⟩
    else readText py limits b

/-- The message of a known event is logged as a whole. -/
def logsWhole : PyVal → Bool
  | .dict d => !(PyMap.contains d "result" || PyMap.contains d "data") && PyMap.contains d "event" &&
      (_handleEventMessage (.dict d)).toOption != some .nothing
  | _ => false

/-- `_handle_message`, where the text of a log line may be beyond a limit. -/
def handleWithin (subscriptions : List Subscription) (message : PyVal) :
    Except PyExc (List (Subscription × Except PyExc Unit)) :=
  within (if logsWhole message then limits.writing message else none)
    (_handleMessage py exchange subscriptions message)

/-- One frame, with the subscriptions of the moment. -/
def processFrame (subscriptions : List Subscription) (frame : Frame) : Outcome :=
  match readFrame py limits decompress compression frame >>= handleWithin py limits exchange subscriptions with
  | .ok calls => .handled calls
  | .error exc =>
    if isCaught exc.type then .skipped exc
    else if exc.type.isA .osError then .disconnects exc
    else .ended exc

/-- The frames are processed as long as the task goes on. -/
def _processMessages : List (List Subscription × Frame) → List Outcome
  | [] => []
  | (subscriptions, frame) :: rest =>
    let outcome := processFrame py limits decompress compression exchange subscriptions frame
    if outcome.goesOn then outcome :: _processMessages rest else [outcome]

/-! ## What a frame must be like -/

/-- A value that can be split at a text or refuses it with a `TypeError`. -/
def hasSplit : PyVal → Bool
  | .str _ | .bytes _ => true
  | _ => false

/-- The parts of a data message that are read have the methods that are called. -/
def ReadableData (message : PyMap) : Prop :=
  if isBinance exchange then
    message.contains "stream" = true → hasSplit (message.get "stream") = true
  else if isOkx exchange then
    message.contains "arg" = true → message.contains "data" = true →
      ∃ arg, message.get "arg" = .dict arg
  else True

/-- A list or a text must hold one of the words that make it a data message. -/
def ReadableMessage : PyVal → Prop
  | .dict d => PyMap.contains d "result" = true ∨ PyMap.contains d "data" = true →
    ReadableData exchange d
  | .list xs | .tuple xs | .set xs => xs.any (isStr "result") = true ∨ xs.any (isStr "data") = true
  | .str s => u "result" <:+: s ∨ u "data" <:+: s
  | _ => True

/-- The text that is given to `json.loads`, if it comes to that. -/
def frameText : Frame → Option PyStr
  | .text s => some s
  | .bytes b => (if isCompressed compression (.bytes b) then decompress b else some b).bind decode

/-- A limit is not reached, or what is raised there is caught. -/
def Bearable (limit : Option PyExc) : Prop := ∀ exc, limit = some exc → isCaught exc.type = true

/-- What looks compressed can be decompressed, the text is within the limits or its
`ValueError` is caught, and the message can be read, and logged where it is. -/
structure ReadableFrame (frame : Frame) : Prop where
  decompressed : ∀ b, frame = .bytes b → isCompressed compression frame = true → ∃ b', decompress b = some b'
  reading : ∀ text, frameText decompress compression frame = some text → Bearable (limits.reading text)
  message : ∀ message, readFrame py limits decompress compression frame = .ok message →
    ReadableMessage exchange message ∧ (logsWhole message = true → Bearable (limits.writing message))

/-! ## Which messages end the task -/

/-- A computation that raises nothing but what the task goes on after. -/
def Fine {α : Type} (r : Except PyExc α) : Prop := ∀ exc, r = .error exc → isCaught exc.type = true

theorem fine_ok {α : Type} (a : α) : Fine (.ok a : Except PyExc α) := nofun

theorem fine_error {α : Type} (exc : PyExc) :
    Fine (.error exc : Except PyExc α) ↔ isCaught exc.type = true := by
  constructor
  · intro h
    exact h exc rfl
  · rintro h _ ⟨⟩
    exact h

theorem fine_map {α β : Type} (f : α → β) (r : Except PyExc α) : Fine (r.map f) ↔ Fine r := by
  cases r with
  | ok a => exact iff_of_true (fine_ok _) (fine_ok _)
  | error exc => exact (fine_error exc).trans (fine_error exc).symm

theorem fine_extract_dict (d : PyMap) :
    Fine (_extractTopicSymbol py exchange (.dict d)) ↔ ReadableData exchange d := by
  unfold _extractTopicSymbol ReadableData
  cases hb : isBinance exchange with
  | true =>
    cases hs : d.contains "stream" with
    | false => simp [hs, Fine, bind, Except.bind, pure, Except.pure]
    | true =>
      have hi := item_of_contains hs
      cases hv : d.get "stream" <;>
        simp [hs, hi, hv, splitAtSign, hasSplit, Fine, isCaught, ExcType.isA, typeError, bind,
          Except.bind, pure, Except.pure]
  | false =>
    cases ho : isOkx exchange with
    | false => simp [Fine, pure, Except.pure]
    | true =>
      cases ha : d.contains "arg" with
      | false => simp [ha, Fine, bind, Except.bind, pure, Except.pure]
      | true =>
        cases hd : d.contains "data" with
        | false => simp [ha, hd, Fine, bind, Except.bind, pure, Except.pure]
        | true =>
          have hi := item_of_contains ha
          cases hv : d.get "arg" <;>
            simp [ha, hd, hi, hv, asDict, Fine, isCaught, ExcType.isA, bind, Except.bind, pure,
              Except.pure]

theorem handleEventMessage_dict (d : PyMap) :
    ∃ logged, _handleEventMessage (.dict d) = .ok logged := by
  simp only [_handleEventMessage, asDict, bind, Except.bind, pure, Except.pure]
  split
  · exact ⟨_, rfl⟩
  · split
    · exact ⟨_, rfl⟩
    · split <;> exact ⟨_, rfl⟩

theorem fine_handleMessage_dict (subscriptions : List Subscription) (d : PyMap) :
    Fine (_handleMessage py exchange subscriptions (.dict d)) ↔
      ReadableMessage exchange (.dict d) := by
  unfold ReadableMessage
  cases hdata : (d.contains "result" || d.contains "data") with
  | true =>
    have hor : d.contains "result" = true ∨ d.contains "data" = true := by simpa using hdata
    have hm : _handleMessage py exchange subscriptions (.dict d) =
        (_extractTopicSymbol py exchange (.dict d)).map fun channel =>
          dispatch subscriptions channel.1 channel.2 (.dict d) := by
      unfold _handleMessage _handleDataMessage
      rw [isData_dict, hdata]
      cases _extractTopicSymbol py exchange (.dict d) <;> rfl
    rw [hm, fine_map, fine_extract_dict]
    exact ⟨fun h _ => h, fun h => h hor⟩
  | false =>
    have hor : ¬ (d.contains "result" = true ∨ d.contains "data" = true) := by simpa using hdata
    refine iff_of_true ?_ fun h => absurd h hor
    unfold _handleMessage
    rw [isData_dict, hdata]
    cases he : d.contains "event" with
    | true =>
      obtain ⟨logged, hl⟩ := handleEventMessage_dict d
      simp [he, hl, Fine, bind, Except.bind, pure, Except.pure]
    | false => simp [he, asDict, Fine, bind, Except.bind, pure, Except.pure]

/-- What is tested for words like a list, but has neither `get` nor `keys`. -/
structure Wordy (v : PyVal) (holds : PyStr → Bool) : Prop where
  has : ∀ k, has v k = .ok (holds k)
  item : ∀ k, ∃ exc, item v k = .error exc ∧ isCaught exc.type = true
  asDict : ∀ method, ∃ exc, asDict v method = .error exc ∧ isCaught exc.type = false

theorem fine_handleMessage_wordy {v : PyVal} {holds : PyStr → Bool} (h : Wordy v holds)
    (subscriptions : List Subscription) :
    Fine (_handleMessage py exchange subscriptions v) ↔
      holds "result" = true ∨ holds "data" = true := by
  have hdata : isData v = .ok (holds "result" || holds "data") := by
    unfold isData
    rw [h.has, h.has]
    cases holds "result" <;> rfl
  unfold _handleMessage
  rw [hdata]
  cases hw : (holds "result" || holds "data") with
  | true =>
    refine iff_of_true ?_ (by simpa using hw)
    obtain ⟨stream, hstream, hsc⟩ := h.item "stream"
    obtain ⟨arg, harg, hac⟩ := h.item "arg"
    cases hb : isBinance exchange <;> cases ho : isOkx exchange <;>
      cases hs : holds "stream" <;> cases ha : holds "arg" <;> cases hd : holds "data" <;>
        simp [_handleDataMessage, _extractTopicSymbol, h.has, hb, ho, hs, ha, hd, hstream, harg, hsc,
          hac, Fine, bind, Except.bind, pure, Except.pure]
  | false =>
    have hno : ¬ (holds "result" = true ∨ holds "data" = true) := by simpa using hw
    refine iff_of_false ?_ hno
    obtain ⟨get, hget, hgc⟩ := h.asDict "get"
    obtain ⟨keys, hkeys, hkc⟩ := h.asDict "keys"
    cases he : holds "event" <;>
      simp [_handleEventMessage, h.has, he, hget, hgc, hkeys, hkc, Fine, bind, Except.bind]

theorem fine_handleMessage (subscriptions : List Subscription) (v : PyVal) :
    Fine (_handleMessage py exchange subscriptions v) ↔ ReadableMessage exchange v := by
  have htype : isCaught .typeError = true := by decide
  have hattr : isCaught .attributeError = false := by decide
  cases v with
  | dict d => exact fine_handleMessage_dict py exchange subscriptions d
  | list xs =>
    have hw : Wordy (.list xs) fun k => xs.any (isStr k) :=
      ⟨fun _ => rfl, fun _ => ⟨_, rfl, htype⟩, fun _ => ⟨_, rfl, hattr⟩⟩
    exact fine_handleMessage_wordy py exchange hw subscriptions
  | tuple xs =>
    have hw : Wordy (.tuple xs) fun k => xs.any (isStr k) :=
      ⟨fun _ => rfl, fun _ => ⟨_, rfl, htype⟩, fun _ => ⟨_, rfl, hattr⟩⟩
    exact fine_handleMessage_wordy py exchange hw subscriptions
  | set xs =>
    have hw : Wordy (.set xs) fun k => xs.any (isStr k) :=
      ⟨fun _ => rfl, fun _ => ⟨_, rfl, htype⟩, fun _ => ⟨_, rfl, hattr⟩⟩
    exact fine_handleMessage_wordy py exchange hw subscriptions
  | str s =>
    have hw : Wordy (.str s) fun k => decide (k <:+: s) :=
      ⟨fun _ => rfl, fun _ => ⟨_, rfl, htype⟩, fun _ => ⟨_, rfl, hattr⟩⟩
    simpa [ReadableMessage] using fine_handleMessage_wordy py exchange hw subscriptions
  | _ =>
    refine iff_of_true ?_ trivial
    exact (fine_error _).mpr htype

/-! ## Which frames end the task -/

theorem fine_within {α : Type} (limit : Option PyExc) {r : Except PyExc α} (h : Fine r) :
    Fine (within limit r) ↔ Bearable limit := by
  cases limit with
  | none => exact iff_of_true h nofun
  | some exc =>
    refine (fine_error exc).trans ⟨?_, fun hb => hb exc rfl⟩
    rintro hc _ ⟨⟩
    exact hc

theorem fine_loads (s : PyStr) : Fine (loads py s) := by
  unfold loads
  split
  · split
    · exact fine_ok _
    · exact (fine_error _).mpr (by decide)
  · exact (fine_error _).mpr (by decide)

theorem fine_readText (b : Bytes) :
    Fine (readText py limits b) ↔ ∀ text, decode b = some text → Bearable (limits.reading text) := by
  unfold readText
  cases decode b with
  | some text =>
    have hf := fine_within (limits.reading text) (fine_loads py text)
    exact hf.trans ⟨fun h _ ht => Option.some.inj ht ▸ h, fun h => h text rfl⟩
  | none => exact iff_of_true ((fine_error _).mpr (by decide)) nofun

theorem fine_readFrame (frame : Frame) :
    Fine (readFrame py limits decompress compression frame) ↔
      (∀ b, frame = .bytes b → isCompressed compression frame = true → ∃ b', decompress b = some b') ∧
      ∀ text, frameText decompress compression frame = some text → Bearable (limits.reading text) := by
  cases frame with
  | text s =>
    refine (fine_within (limits.reading s) (fine_loads py s)).trans ⟨fun h => ⟨nofun, ?_⟩, fun h => h.2 s rfl⟩
    rintro _ ⟨⟩
    exact h
  | bytes b =>
    unfold readFrame frameText
    dsimp only
    cases hc : isCompressed compression (.bytes b) with
    | false =>
      rw [if_neg Bool.false_ne_true, fine_readText]
      exact ⟨fun h => ⟨fun _ _ hz => absurd hz Bool.false_ne_true, h⟩, fun h => h.2⟩
    | true =>
      cases hd : decompress b with
      | some b' =>
        rw [if_pos rfl, fine_readText]
        refine ⟨fun h => ⟨?_, h⟩, fun h => h.2⟩
        rintro _ ⟨⟩ -
        exact ⟨b', hd⟩
      | none =>
        refine iff_of_false (fun h => ?_) (fun h => ?_)
        · have hz : isCaught (.other "zlib.error") = true := h _ rfl
          exact absurd hz (by decide)
        · obtain ⟨b', hb⟩ := h.1 b rfl rfl
          rw [hd] at hb
          cases hb

/-- A message that is logged as a whole is an event message, whose handling raises nothing. -/
theorem fine_of_logsWhole (subscriptions : List Subscription) {message : PyVal}
    (h : logsWhole message = true) : Fine (_handleMessage py exchange subscriptions message) := by
  cases message with
  | dict d =>
    rw [fine_handleMessage_dict]
    intro hor
    simp only [logsWhole, Bool.and_eq_true, Bool.not_eq_true', Bool.or_eq_false_iff] at h
    rw [h.1.1.1, h.1.1.2] at hor
    simp at hor
  | _ => cases h

theorem fine_handleWithin (subscriptions : List Subscription) (message : PyVal) :
    Fine (handleWithin py limits exchange subscriptions message) ↔
      ReadableMessage exchange message ∧ (logsWhole message = true → Bearable (limits.writing message)) := by
  rw [handleWithin, ← fine_handleMessage py exchange subscriptions]
  cases hl : logsWhole message with
  | true =>
    have hf := fine_of_logsWhole py exchange subscriptions hl
    rw [if_pos rfl, fine_within _ hf]
    exact ⟨fun h => ⟨hf, fun _ => h⟩, fun h => h.2 rfl⟩
  | false =>
    rw [if_neg Bool.false_ne_true]
    exact ⟨fun h => ⟨h, nofun⟩, fun h => h.1⟩

theorem fine_bind {α β : Type} (r : Except PyExc α) (f : α → Except PyExc β) :
    Fine (r >>= f) ↔ Fine r ∧ ∀ a, r = .ok a → Fine (f a) := by
  cases r with
  | ok a =>
    constructor
    · intro h
      exact ⟨fine_ok a, fun b hb => by cases hb; exact h⟩
    · intro h
      exact h.2 a rfl
  | error exc =>
    constructor
    · intro h
      exact ⟨(fine_error exc).mpr ((fine_error exc).mp h), nofun⟩
    · intro h
      exact (fine_error exc).mpr ((fine_error exc).mp h.1)

/-- The task goes on after a frame exactly if it can be read. -/
theorem goesOn_iff (subscriptions : List Subscription) (frame : Frame) :
    (processFrame py limits decompress compression exchange subscriptions frame).goesOn = true ↔
      ReadableFrame py limits decompress compression exchange frame := by
  have hgo : (processFrame py limits decompress compression exchange subscriptions frame).goesOn = true ↔
      Fine (readFrame py limits decompress compression frame >>=
        handleWithin py limits exchange subscriptions) := by
    unfold processFrame
    split
    · next calls he =>
      rw [he]
      exact iff_of_true rfl (fine_ok calls)
    · next exc he =>
      rw [he, fine_error]
      cases hcaught : isCaught exc.type with
      | true => simp [Outcome.goesOn]
      | false => by_cases hos : exc.type.isA .osError = true <;> simp [hos, Outcome.goesOn]
  rw [hgo, fine_bind, fine_readFrame]
  constructor
  · rintro ⟨⟨hd, hr⟩, hm⟩
    exact ⟨hd, hr, fun message h => (fine_handleWithin ..).mp (hm message h)⟩
  · intro h
    exact ⟨⟨h.decompressed, h.reading⟩, fun message hm => (fine_handleWithin ..).mpr (h.message message hm)⟩

/-- Every frame of a sequence is handled or skipped exactly if all can be read. -/
theorem goesOn_processMessages_iff (turns : List (List Subscription × Frame)) :
    (∀ outcome ∈ _processMessages py limits decompress compression exchange turns, outcome.goesOn = true) ↔
      ∀ turn ∈ turns, ReadableFrame py limits decompress compression exchange turn.2 := by
  induction turns with
  | nil => simp [_processMessages]
  | cons turn turns ih =>
    obtain ⟨subscriptions, frame⟩ := turn
    have hgo := goesOn_iff py limits decompress compression exchange subscriptions frame
    unfold _processMessages
    by_cases h : (processFrame py limits decompress compression exchange subscriptions frame).goesOn = true
    · rw [if_pos h, List.forall_mem_cons, List.forall_mem_cons, ih, hgo]
    · rw [if_neg h, List.forall_mem_cons, List.forall_mem_cons]
      exact iff_of_false (fun hall => h hall.1) (fun hall => h (hgo.mpr hall.1))

end

/-! ## Frames that end the task -/

/-- A frame that only starts like zlib data, and a JSON list. -/
theorem frames_end_task :
    (_processMessages .ascii .ample (fun _ => none) true "BINANCE" [([], .bytes [0x78, 0x9c, 0x00])]).map
      Outcome.goesOn = [false] ∧
    (_processMessages .ascii .ample (fun _ => none) true "BINANCE" [([], .text "[]")]).map
      Outcome.goesOn = [false] := by
  decide +kernel

end WebSocketFrames
