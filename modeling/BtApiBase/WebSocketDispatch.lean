import BtApiBase.WebSocketMessages

/-!
# Data messages and the subscriptions they belong to

A data message that carries the channel of a subscription reaches its callback
exactly if the exchange is one whose messages are read and the channel can be
read back: on Binance the stream name must split into the topic and the symbol
as it was subscribed to.
-/

namespace WebSocketDispatch

open PyText PyValue WebSocketMessages

variable (py : Interp)

/-- A data message with the channel that `_send_subscription` asked for. -/
def Carries (exchange : PyStr) (s : Subscription) (message : PyMap) : Prop :=
  message.contains "data" = true ∧
  let request := _sendSubscription py exchange s
  if isBinance exchange then request.get "params" = .list [message.get "stream"]
  else if isOkx exchange then
    ∃ arg wanted, message.get "arg" = .dict arg ∧ request.get "args" = .list [.dict wanted] ∧
      PyMap.get arg "channel" = PyMap.get wanted "channel" ∧
      PyMap.get arg "instId" = PyMap.get wanted "instId"
  else message.get "topic" = request.get "topic" ∧ message.get "symbol" = request.get "symbol"

/-- The message is passed to the callback of the subscription. -/
def Dispatched (exchange : PyStr) (subscriptions : List Subscription) (s : Subscription)
    (callback : PyVal → Except PyExc Unit) (message : PyMap) : Prop :=
  ∃ calls, _handleMessage py exchange subscriptions (.dict message) = .ok calls ∧
    (s, callback (.dict message)) ∈ calls

/-- The channel of the subscription can be read back. -/
def ReadBack (exchange : PyStr) (s : Subscription) : Prop :=
  s.topic ≠ [] ∧ s.symbol ≠ [] ∧
  if isBinance exchange then
    atSign ∉ py.lower s.symbol ∧ atSign ∉ s.topic ∧ py.upper (py.lower s.symbol) = s.symbol
  else isOkx exchange = true

/-- A data message goes to the callbacks of the topic and symbol read off it. -/
theorem handleMessage_data {exchange : PyStr} {subscriptions : List Subscription} {message : PyMap}
    (hd : message.contains "data" = true) :
    _handleMessage py exchange subscriptions (.dict message) =
      (_extractTopicSymbol py exchange (.dict message)).map fun channel =>
        dispatch subscriptions channel.1 channel.2 (.dict message) := by
  unfold _handleMessage _handleDataMessage
  rw [isData_dict, hd, Bool.or_true]
  cases _extractTopicSymbol py exchange (.dict message) <;> rfl

/-! ## The channel in a message -/

theorem carries_binance {exchange : PyStr} {s : Subscription} {message : PyMap}
    (hb : isBinance exchange = true) (h : Carries py exchange s message) :
    message.get "stream" = .str (streamName py s) := by
  have hrequest : (_sendSubscription py exchange s).get "params" = .list [.str (streamName py s)] := by
    unfold _sendSubscription
    rw [if_pos hb]
    simp [PyMap.get, PyDict.find]
  have hc := h.2
  simp only [hb, ↓reduceIte, hrequest, PyVal.list.injEq, List.cons.injEq, and_true] at hc
  exact hc.symm

theorem carries_okx {exchange : PyStr} {s : Subscription} {message : PyMap}
    (hb : isBinance exchange = false) (ho : isOkx exchange = true) (h : Carries py exchange s message) :
    ∃ arg, message.get "arg" = .dict arg ∧ PyMap.get arg "channel" = .str s.topic ∧
      PyMap.get arg "instId" = .str s.symbol := by
  have hrequest : (_sendSubscription py exchange s).get "args" =
      .list [.dict [(.str "channel", .str s.topic), (.str "instId", .str s.symbol)]] := by
    unfold _sendSubscription
    simp only [hb, ho]
    simp [PyMap.get, PyDict.find]
  have hc := h.2
  simp only [hb, ho, ↓reduceIte, Bool.false_eq_true, hrequest] at hc
  obtain ⟨arg, wanted, harg, hwanted, hchannel, hinst⟩ := hc
  cases hwanted
  refine ⟨arg, harg, ?_, ?_⟩
  · rw [hchannel]
    simp [PyMap.get, PyDict.find]
  · rw [hinst]
    simp [PyMap.get, PyDict.find]

/-- The topic and the symbol that are read off such a message. -/
def channelRead (exchange : PyStr) (s : Subscription) : PyVal × PyVal :=
  if isBinance exchange then streamChannel py ((streamName py s).splitOn atSign)
  else if isOkx exchange then (.str s.topic, .str s.symbol)
  else (.none, .none)

theorem extract_of_carries {exchange : PyStr} {s : Subscription} {message : PyMap}
    (h : Carries py exchange s message) :
    _extractTopicSymbol py exchange (.dict message) = .ok (channelRead py exchange s) := by
  have hd := h.1
  unfold _extractTopicSymbol channelRead
  cases hb : isBinance exchange with
  | true =>
    obtain ⟨hin, hitem⟩ := contains_of_get (carries_binance py hb h) (by simp)
    simp only [↓reduceIte, has_dict, hin, hitem]
    rfl
  | false =>
    cases ho : isOkx exchange with
    | true =>
      obtain ⟨arg, harg, hchannel, hinst⟩ := carries_okx py hb ho h
      obtain ⟨hin, hitem⟩ := contains_of_get harg (by simp)
      simp only [↓reduceIte, Bool.false_eq_true, has_dict, hin, hd, hitem, ← hchannel, ← hinst]
      rfl
    | false => rfl

theorem isStr_iff (k : PyStr) (v : PyVal) : isStr k v = true ↔ v = .str k := by
  cases v <;> simp [isStr]

/-- The callback of a subscription is called for its own topic and symbol. -/
theorem mem_dispatch {subscriptions : List Subscription} {s : Subscription}
    {callback : PyVal → Except PyExc Unit} (hs : s ∈ subscriptions) (hc : s.callback = some callback)
    (topic symbol message : PyVal) :
    (s, callback message) ∈ dispatch subscriptions topic symbol message ↔
      s.topic ≠ [] ∧ s.symbol ≠ [] ∧ topic = .str s.topic ∧ symbol = .str s.symbol := by
  unfold dispatch
  constructor
  · intro h
    split at h
    · next ht =>
      rw [Bool.and_eq_true] at ht
      obtain ⟨s', -, hs'⟩ := List.mem_filterMap.mp h
      split at hs'
      · next hm =>
        rw [Bool.and_eq_true, isStr_iff, isStr_iff] at hm
        obtain ⟨callback', -, he⟩ := Option.map_eq_some_iff.mp hs'
        obtain rfl : s' = s := (Prod.mk.inj he).1
        rw [hm.1, hm.2, truthy_str, truthy_str] at ht
        exact ⟨ht.1, ht.2, hm.1, hm.2⟩
      · cases hs'
    · cases h
  · rintro ⟨ht, hy, rfl, rfl⟩
    rw [if_pos (by simp [ht, hy])]
    refine List.mem_filterMap.mpr ⟨s, hs, ?_⟩
    simp [hc]

/-- The parts of a stream name are the topic and the symbol of the subscription. -/
theorem streamChannel_iff (s : Subscription) :
    streamChannel py ((streamName py s).splitOn atSign) = (.str s.topic, .str s.symbol) ↔
      atSign ∉ py.lower s.symbol ∧ atSign ∉ s.topic ∧ py.upper (py.lower s.symbol) = s.symbol := by
  have hpair := splitOn_join_pair atSign (py.lower s.symbol) s.topic
  constructor
  · intro h
    have hparts : ∃ a b, (streamName py s).splitOn atSign = [a, b] := by
      revert h
      unfold streamChannel
      split
      · next a b he => exact fun _ => ⟨a, b, he⟩
      · exact fun h => by cases h
    obtain ⟨hsymbol, htopic⟩ := hpair.mp hparts
    rw [streamName, splitOn_join hsymbol htopic] at h
    have hu : PyVal.str (py.upper (py.lower s.symbol)) = .str s.symbol := (Prod.mk.inj h).2
    exact ⟨hsymbol, htopic, PyVal.str.inj hu⟩
  · rintro ⟨hsymbol, htopic, hu⟩
    rw [streamName, splitOn_join hsymbol htopic, streamChannel, hu]

/-- The channel is that of the subscription if it can be read back. -/
theorem channelRead_iff (exchange : PyStr) (s : Subscription) :
    (s.topic ≠ [] ∧ s.symbol ≠ [] ∧ (channelRead py exchange s).1 = .str s.topic ∧
      (channelRead py exchange s).2 = .str s.symbol) ↔ ReadBack py exchange s := by
  unfold ReadBack channelRead
  refine and_congr_right fun _ => and_congr_right fun _ => ?_
  cases hb : isBinance exchange with
  | true => exact Prod.ext_iff.symm.trans (streamChannel_iff py s)
  | false => cases ho : isOkx exchange <;> simp

/-- A message that carries the channel of a subscription is passed to its
callback exactly if the channel can be read back. -/
theorem dispatched_iff_readBack {exchange : PyStr} {subscriptions : List Subscription}
    {s : Subscription} {callback : PyVal → Except PyExc Unit} {message : PyMap}
    (hs : s ∈ subscriptions) (hc : s.callback = some callback) (hm : Carries py exchange s message) :
    Dispatched py exchange subscriptions s callback message ↔ ReadBack py exchange s := by
  have hcalls : Dispatched py exchange subscriptions s callback message ↔
      (s, callback (.dict message)) ∈ dispatch subscriptions (channelRead py exchange s).1
        (channelRead py exchange s).2 (.dict message) := by
    unfold Dispatched
    rw [handleMessage_data py hm.1, extract_of_carries py hm]
    constructor
    · rintro ⟨calls, hcalls, hmem⟩
      cases hcalls
      exact hmem
    · intro hmem
      exact ⟨_, rfl, hmem⟩
  rw [hcalls, mem_dispatch hs hc]
  exact channelRead_iff py exchange s

/-! ## A stream whose topic holds the separator -/

def depth (topic : String) : Subscription :=
  ⟨"1", topic, "BTCUSDT", [], some fun _ => .ok ()⟩

/-- A data message of a stream. -/
def onStream (name : String) : PyMap := [(.str "stream", .str name), (.str "data", .dict [])]

theorem carries_onStream {name topic : String}
    (h : u name = streamName .ascii (depth topic)) : Carries .ascii "BINANCE" (depth topic) (onStream name) := by
  have hb : isBinance "BINANCE" = true := by decide +kernel
  refine ⟨by simp [onStream, PyMap.contains, PyDict.find], ?_⟩
  simp [hb, _sendSubscription, onStream, PyMap.get, PyDict.find, h]

theorem dispatched_ticker :
    Dispatched .ascii "BINANCE" [depth "ticker"] (depth "ticker") (fun _ => .ok ())
      (onStream "btcusdt@ticker") ↔ ReadBack .ascii "BINANCE" (depth "ticker") :=
  dispatched_iff_readBack .ascii (List.mem_singleton.mpr rfl) rfl
    (carries_onStream (by decide +kernel))

/-- The name of the stream is split into three parts. -/
theorem depth_not_dispatched :
    Carries .ascii "BINANCE" (depth "depth@100ms") (onStream "btcusdt@depth@100ms") ∧
    ¬ Dispatched .ascii "BINANCE" [depth "depth@100ms"] (depth "depth@100ms") (fun _ => .ok ())
      (onStream "btcusdt@depth@100ms") := by
  refine ⟨carries_onStream (by decide +kernel), ?_⟩
  have hnone : (_handleMessage .ascii "BINANCE" [depth "depth@100ms"]
      (.dict (onStream "btcusdt@depth@100ms"))).toOption.map List.length = some 0 := by
    decide +kernel
  rintro ⟨calls, hcalls, hmem⟩
  rw [hcalls] at hnone
  have hlen : calls.length = 0 := Option.some.inj hnone
  rw [List.length_eq_zero_iff.mp hlen] at hmem
  cases hmem

end WebSocketDispatch
