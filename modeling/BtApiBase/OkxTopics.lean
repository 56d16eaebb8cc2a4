import BtApiBase.WebSocketMessages

/-!
# Topics of the OKX adapter

A subscription goes out under the channel that OKX has for a topic, a message comes in under a
channel, and an unsubscription is written by a third function that knows no channels.
-/

namespace OkxTopics

open PyText PyDict PyValue WebSocketMessages

/-- The table of `_get_okx_channel`, where the interval is that of the candles. -/
def channels (interval : PyStr) : List (PyStr × PyStr) :=
  [(u "ticker", u "tickers"), (u "depth", u "books"), (u "trades", u "trades"),
    (u "kline", u "candle" ++ interval), (u "orders", u "orders"), (u "positions", u "positions"),
    (u "account", u "account")]

/-- `mapping.get(topic, topic)` -/
def channelFor (interval topic : PyStr) : PyStr := ((channels interval).lookup topic).getD topic

def _getOkxChannel (topic : PyStr) (params : PyMap) : Except PyExc PyStr :=
  match params.getOr "interval" (.str "1m") with
  | .str interval => .ok (channelFor interval topic)
  -- The table is built, with the channel of the candles in it, for every topic.
  | _ => .error (typeError "can only concatenate str to str")

def okxArg (channel symbol : PyStr) : PyMap := [(.str "channel", .str channel), (.str "instId", .str symbol)]

def okxMessage (op channel symbol : PyStr) : PyMap :=
  [(.str "op", .str op), (.str "args", .list [.dict (okxArg channel symbol)])]

def formatSubscriptionMessage (_subscriptionId topic symbol : PyStr) (params : PyMap) : Except PyExc PyMap := do
  .ok (okxMessage "subscribe" (← _getOkxChannel topic params) symbol)

def formatUnsubscriptionMessage (_subscriptionId topic symbol : PyStr) : PyMap :=
  okxMessage "unsubscribe" topic symbol

/-- The topic of a channel that is a text. -/
def topicOf (channel : PyStr) : PyStr :=
  if channel = u "tickers" then "ticker"
  else if channel = u "books" then "depth"
  else if channel = u "trades" then "trades"
  else if (u "candle").isPrefixOf channel then "kline"
  else if channel = u "orders" then "orders"
  else if channel = u "positions" then "positions"
  else if channel = u "account" then "account"
  else channel

def _convertOkxChannelToGeneric : PyVal → Except PyExc PyVal
  | .str channel => .ok (.str (topicOf channel))
  | .bytes _ => .error (typeError "startswith first arg must be bytes or a tuple of bytes, not str")
  | _ => .error ⟨.attributeError, "object has no attribute 'startswith'"⟩

def extractTopicSymbol (message : PyMap) : Except PyExc (PyVal × PyVal) :=
  if message.contains "arg" then do
    let arg ← asDict (message.get "arg") "get"
    let topic ← _convertOkxChannelToGeneric (arg.get "channel")
    .ok (topic, arg.get "instId")
  else .ok (.none, .none)

/-- An interval that is given is a text. -/
def TextInterval (params : PyMap) : Prop := ∀ v, find (isStr "interval") params = some v → ∃ s, v = .str s

/-- The dictionaries under `args`. -/
def argsOf (message : PyMap) : List PyMap :=
  match message.get "args" with
  | .list args => args.filterMap fun | .dict arg => some arg | _ => none
  | _ => []

/-- One argument goes out with the subscription and with the unsubscription, and what comes in
with it is of this topic and symbol. -/
def Agree (topic symbol : PyStr) (params : PyMap) : Prop :=
  ∃ arg : PyMap,
    (∀ id, ∃ message, formatSubscriptionMessage id topic symbol params = .ok message ∧ argsOf message = [arg]) ∧
    (∀ id, argsOf (formatUnsubscriptionMessage id topic symbol) = [arg]) ∧
    ∀ message : PyMap, message.contains "arg" = true → message.get "arg" = .dict arg →
      extractTopicSymbol message = .ok (.str topic, .str symbol)

/-- The topics that are their own channels, and the other way round. -/
def Plain (topic : PyStr) : Prop :=
  topic ≠ u "ticker" ∧ topic ≠ u "depth" ∧ topic ≠ u "kline" ∧ topic ≠ u "tickers" ∧ topic ≠ u "books" ∧
    (u "candle").isPrefixOf topic = false

/-! ## The channel of a topic and the topic of a channel -/

theorem lookup_cons_if (topic key channel : PyStr) (rest : List (PyStr × PyStr)) :
    List.lookup topic ((key, channel) :: rest) = if topic = key then some channel else rest.lookup topic := by
  by_cases h : topic = key
  · subst h
    simp
  · have hne : (topic == key) = false := by simpa using h
    rw [List.lookup_cons, hne, if_neg h]

theorem candle_ne_kline (interval : PyStr) : u "candle" ++ interval ≠ u "kline" := by
  intro h
  have hhead := congrArg List.head? h
  simp [u] at hhead

theorem channelFor_eq_self (interval topic : PyStr) :
    channelFor interval topic = topic ↔ topic ≠ u "ticker" ∧ topic ≠ u "depth" ∧ topic ≠ u "kline" := by
  simp only [channelFor, channels, lookup_cons_if, List.lookup_nil]
  split
  · next h => subst h; simp
  split
  · next h => subst h; simp
  split
  · next h => subst h; simp
  split
  · next h => subst h; simpa using candle_ne_kline interval
  split
  · next h => subst h; simp
  split
  · next h => subst h; simp
  split
  · next h => subst h; simp
  · next ht hd _ hk _ _ _ => simp [ht, hd, hk]

theorem topicOf_eq_self (channel : PyStr) : topicOf channel = channel ↔
    channel ≠ u "tickers" ∧ channel ≠ u "books" ∧ (u "candle").isPrefixOf channel = false := by
  unfold topicOf
  split
  · next h => subst h; simp
  split
  · next h => subst h; simp
  split
  · next h => subst h; simp [u, List.isPrefixOf]
  split
  · next h =>
    have hne : u "kline" ≠ channel := by
      rintro rfl
      simp [u, List.isPrefixOf] at h
    simp [h, hne]
  split
  · next h => subst h; simp [u, List.isPrefixOf]
  split
  · next h => subst h; simp [u, List.isPrefixOf]
  split
  · next h => subst h; simp [u, List.isPrefixOf]
  · next ht hb _ hc _ _ _ => simp [ht, hb, hc]

theorem plain_iff (interval topic : PyStr) :
    Plain topic ↔ channelFor interval topic = topic ∧ topicOf topic = topic := by
  rw [channelFor_eq_self, topicOf_eq_self, Plain, and_assoc, and_assoc]

/-! ## The messages -/

theorem argsOf_okxMessage (op channel symbol : PyStr) : argsOf (okxMessage op channel symbol) = [okxArg channel symbol] := by
  simp [argsOf, okxMessage, PyMap.get, find]

theorem okxArg_inj {channel channel' symbol symbol' : PyStr} (h : okxArg channel symbol = okxArg channel' symbol') :
    channel = channel' := by
  simp only [okxArg, List.cons.injEq, Prod.mk.injEq, PyVal.str.injEq] at h
  exact h.1.2

theorem channel_of_text {params : PyMap} (h : TextInterval params) :
    ∃ interval, ∀ topic, _getOkxChannel topic params = .ok (channelFor interval topic) := by
  unfold _getOkxChannel PyMap.getOr
  cases hv : find (isStr "interval") params with
  | none => exact ⟨u "1m", fun _ => rfl⟩
  | some v =>
    obtain ⟨interval, rfl⟩ := h v hv
    exact ⟨interval, fun _ => rfl⟩

theorem extract_okxArg {message : PyMap} {channel symbol : PyStr} (hc : message.contains "arg" = true)
    (harg : message.get "arg" = .dict (okxArg channel symbol)) :
    extractTopicSymbol message = .ok (.str (topicOf channel), .str symbol) := by
  have hchannel : (okxArg channel symbol).get "channel" = .str channel := by simp [okxArg, PyMap.get, find]
  have hinst : (okxArg channel symbol).get "instId" = .str symbol := by simp [okxArg, PyMap.get, find]
  unfold extractTopicSymbol
  rw [if_pos hc, harg]
  simp only [asDict, bind, Except.bind, hchannel, hinst, _convertOkxChannelToGeneric]

/-- The three translations agree on a topic exactly if it is its own channel and the adapter
has no other topic for that channel. -/
theorem translations_agree_iff (topic symbol : PyStr) (params : PyMap) (h : TextInterval params) :
    Agree topic symbol params ↔ Plain topic := by
  obtain ⟨interval, hchannel⟩ := channel_of_text h
  have hsub : ∀ id, formatSubscriptionMessage id topic symbol params =
      .ok (okxMessage "subscribe" (channelFor interval topic) symbol) := by
    intro id
    rw [formatSubscriptionMessage, hchannel]
    rfl
  rw [plain_iff interval]
  constructor
  · rintro ⟨arg, hout, hunsub, hin⟩
    obtain ⟨message, hmessage, hargs⟩ := hout []
    obtain rfl := Except.ok.inj ((hsub []).symm.trans hmessage)
    have hunsub := hunsub []
    rw [formatUnsubscriptionMessage, argsOf_okxMessage] at hunsub
    rw [argsOf_okxMessage, ← hunsub] at hargs
    have hsame : channelFor interval topic = topic := okxArg_inj (List.cons.inj hargs).1
    obtain rfl : okxArg topic symbol = arg := (List.cons.inj hunsub).1
    have hown : PyMap.get [(.str "arg", .dict (okxArg topic symbol))] "arg" = .dict (okxArg topic symbol) := by
      simp [PyMap.get, find]
    have hback := hin [(.str "arg", .dict (okxArg topic symbol))] (by simp [PyMap.contains, find]) hown
    rw [extract_okxArg (by simp [PyMap.contains, find]) hown] at hback
    simp only [Except.ok.injEq, Prod.mk.injEq, PyVal.str.injEq, and_true] at hback
    exact ⟨hsame, hback⟩
  · rintro ⟨hsame, hback⟩
    refine ⟨okxArg topic symbol, ?_, fun id => argsOf_okxMessage _ _ _, ?_⟩
    · intro id
      exact ⟨_, hsub id, by rw [argsOf_okxMessage, hsame]⟩
    · intro message hc harg
      rw [extract_okxArg hc harg, hback]

def fiveMinutes : PyMap := [(.str "interval", .str "5m")]

theorem translations_agree_iff_funding :
    TextInterval fiveMinutes ∧ Agree (u "funding-rate") (u "BTC-USDT") fiveMinutes ∧
      ¬ Agree (u "kline") (u "BTC-USDT") fiveMinutes := by
  have h : TextInterval fiveMinutes := by
    rintro v ⟨⟩
    exact ⟨u "5m", rfl⟩
  have hfunding : Plain (u "funding-rate") := by simp [Plain, u, List.isPrefixOf]
  have hkline : ¬ Plain (u "kline") := fun hplain => hplain.2.2.1 rfl
  exact ⟨h, (translations_agree_iff (u "funding-rate") (u "BTC-USDT") fiveMinutes h).mpr hfunding,
    mt (translations_agree_iff (u "kline") (u "BTC-USDT") fiveMinutes h).mp hkline⟩

theorem ticker_not_unsubscribed : TextInterval [] ∧ ¬ Agree (u "ticker") (u "BTC-USDT") [] := by
  have h : TextInterval [] := by
    intro v hv
    cases hv
  refine ⟨h, ?_⟩
  rintro ⟨arg, hout, hunsub, -⟩
  obtain ⟨message, hmessage, hargs⟩ := hout []
  have hchannel : formatSubscriptionMessage [] (u "ticker") (u "BTC-USDT") [] =
      .ok (okxMessage "subscribe" "tickers" "BTC-USDT") := by
    simp [formatSubscriptionMessage, _getOkxChannel, PyMap.getOr, channelFor, channels, bind, Except.bind]
  obtain rfl := Except.ok.inj (hchannel.symm.trans hmessage)
  have hunsub := hunsub []
  rw [formatUnsubscriptionMessage, argsOf_okxMessage] at hunsub
  rw [argsOf_okxMessage, ← hunsub] at hargs
  have hsame := okxArg_inj (List.cons.inj hargs).1
  simp at hsame

end OkxTopics
