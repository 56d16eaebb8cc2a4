import BtApiBase.Effects
import BtApiBase.PyDictFills
import BtApiBase.PyStrips
import BtApiBase.PyValue

/-!
# The gateway configuration

`from_kwargs` reads a configuration from keywords under several names, `__post_init__` fills in
what is missing, and `to_kwargs` writes the keywords for an adapter or a child process. The
ports of the endpoints come from tables of the process and from the operating system.
-/

namespace GatewayConfigs

open PyText PyDict PyDictFills PyStrips PyValue Effects

/-- What the module takes from the interpreter and the operating system. -/
structure Platform where
  py : Interp
  /-- `float(value)` -/
  float : PyVal → Except PyExc PyFloat
  windows : Bool
  tempdir : PyStr
  /-- `Path(value)` -/
  path : PyVal → Except PyExc PyStr
  /-- `str(directory / name)` -/
  join : PyStr → PyStr → PyStr
  mkdir : PyStr → Except PyExc Unit
  /-- The port that the socket of each number gets when it is bound to port 0. -/
  offer : Nat → Except PyExc Nat

/-- The tables of the process, and how many sockets it has bound. -/
structure Process where
  _tcpPortAssignments : Dict PyStr Nat := Dict.empty
  _tcpReservedBasePorts : List Nat := []
  sockets : Nat := 0

abbrev Kwargs := Dict PyStr PyVal

def Kwargs.value (k : Kwargs) (name : String) : PyVal := (k.get name).getD .none

structure Endpoints where
  commandEndpoint : PyStr
  eventEndpoint : PyStr
  marketEndpoint : PyStr
  deriving DecidableEq

structure GatewayConfig where
  runtimeName : PyStr := ""
  exchangeType : PyStr := "CTP"
  assetType : PyStr := "FUTURE"
  accountId : PyStr := "default"
  commandEndpoint : PyStr := ""
  eventEndpoint : PyStr := ""
  marketEndpoint : PyStr := ""
  transport : PyStr := "tcp"
  startupTimeoutSec : PyFloat := .finite 30
  commandTimeoutSec : PyFloat := .finite 10
  brokerId : PyStr := ""
  tdAddress : PyStr := ""
  mdAddress : PyStr := ""
  selectedCtpEnv : PyStr := ""
  selectionReason : PyStr := ""
  baseDir : PyStr := ""
  pollTimeoutMs : Int := 100
  extra : Kwargs := Dict.empty

/-- `text or default` -/
def textOr (text default : PyStr) : PyStr := if text = [] then default else text

variable (pl : Platform)

def Process.cached (p : Process) (runtimeName : PyStr) : Option Nat :=
  match p._tcpPortAssignments.get runtimeName with
  | some port => if port ∉ p._tcpReservedBasePorts then some port else none
  | none => none

def Process.reserve (port : Nat) (p : Process) : Process :=
  { p with _tcpReservedBasePorts := port :: p._tcpReservedBasePorts }

def Process.assign (runtimeName : PyStr) (port : Nat) (p : Process) : Process :=
  { p with _tcpPortAssignments := p._tcpPortAssignments.set runtimeName port }

/-- `sock.bind(("127.0.0.1", 0))` and the port it has got. -/
def bindPort : Eff PyExc Process Nat :=
  transition fun p => (pl.offer p.sockets, { p with sockets := p.sockets + 1 })

/-- Three ports, for the only calls there are. -/
def _reserveTcpPorts (runtimeName : PyStr) : Eff PyExc Process (Nat × Nat × Nat) := do
  let p ← get
  match p.cached runtimeName with
  | some cached =>
    modify (Process.reserve cached)
    pure (cached, cached + 1, cached + 2)
  | none =>
    let command ← bindPort pl
    let event ← bindPort pl
    let market ← bindPort pl
    modify fun p => (p.assign runtimeName command).reserve command
    pure (command, event, market)

def _safeName (value : PyStr) : PyStr :=
  value.map fun c => if pl.py.isalnum c || c == .scalar '-' || c == .scalar '_' then c else .scalar '-'

def tcpEndpoint (port : Nat) : PyStr := u "tcp://127.0.0.1:" ++ intText port

def ipcEndpoint (baseDir stem suffix : PyStr) : PyStr := u "ipc://" ++ pl.join baseDir (stem ++ suffix)

/-- `kwargs.get(name) or kwargs.get("gateway_" + name) or ""` -/
def givenEndpoint (kwargs : Kwargs) (name other : String) : PyVal :=
  orElse (kwargs.value name) (orElse (kwargs.value other) (.str ""))

def _resolveEndpoints (runtimeName transport : PyStr) (kwargs : Kwargs) : Eff PyExc Process Endpoints :=
  let command := givenEndpoint kwargs "command_endpoint" "gateway_command_endpoint"
  let event := givenEndpoint kwargs "event_endpoint" "gateway_event_endpoint"
  let market := givenEndpoint kwargs "market_endpoint" "gateway_market_endpoint"
  if truthy command && truthy event && truthy market then
    pure ⟨pl.py.str command, pl.py.str event, pl.py.str market⟩
  else if transport = u "ipc" then do
    let baseDir ← ofExcept (pl.path (orElse (kwargs.value "base_dir") (.str pl.tempdir)))
    ofExcept (pl.mkdir baseDir)
    let stem := _safeName pl runtimeName
    pure ⟨pl.py.str (orElse command (.str (ipcEndpoint pl baseDir stem "-command.ipc"))),
      pl.py.str (orElse event (.str (ipcEndpoint pl baseDir stem "-event.ipc"))),
      pl.py.str (orElse market (.str (ipcEndpoint pl baseDir stem "-market.ipc")))⟩
  else do
    let (a, b, c) ← _reserveTcpPorts pl runtimeName
    pure ⟨pl.py.str (orElse command (.str (tcpEndpoint a))), pl.py.str (orElse event (.str (tcpEndpoint b))),
      pl.py.str (orElse market (.str (tcpEndpoint c)))⟩

/-- `text.replace("_", "-")` -/
def dashed (text : PyStr) : PyStr := text.map fun c => if c = .scalar '_' then .scalar '-' else c

def _runtimeName (value : PyVal) (exchangeType assetType accountId : PyStr) : PyStr :=
  let raw := strip (pl.py.str (orElse value (.str "")))
  if raw ≠ [] then raw
  else dashed (pl.py.lower exchangeType) ++ u "-" ++ dashed (pl.py.lower assetType) ++ u "-" ++
    textOr accountId "default"

/-- `value in (None, "")` -/
def missing : PyVal → Bool
  | .none => true
  | .str s => s == []
  | _ => false

/-- A conversion that falls back on `TypeError` and `ValueError`. -/
def coerce {α : Type} (convert : PyVal → Except PyExc α) (value : PyVal) (default : α) : Except PyExc α :=
  if missing value then .ok default
  else match convert value with
    | .ok x => .ok x
    | .error e => if e.type.isA .typeError || e.type.isA .valueError then .ok default else .error e

def _coerceFloat (value : PyVal) (default : PyFloat) : Except PyExc PyFloat := coerce pl.float value default

def _coerceInt (value : PyVal) (default : Int) : Except PyExc Int := coerce pl.py.int value default

def GatewayConfig.endpointKwargs (c : GatewayConfig) (baseDir : PyStr) : Kwargs :=
  fill Prod.fst Prod.snd Dict.empty [(u "command_endpoint", PyVal.str c.commandEndpoint),
    (u "event_endpoint", .str c.eventEndpoint), (u "market_endpoint", .str c.marketEndpoint),
    (u "base_dir", .str baseDir)]

def postInit (c : GatewayConfig) : Eff PyExc Process GatewayConfig := do
  let exchangeType := pl.py.upper (strip (textOr c.exchangeType "CTP"))
  let assetType := pl.py.upper (strip (textOr c.assetType "FUTURE"))
  let accountId := strip (textOr c.accountId "default")
  let transport := textOr (pl.py.lower (strip (textOr c.transport "tcp"))) "tcp"
  let transport := if transport = u "ipc" && pl.windows then u "tcp" else transport
  let baseDir := textOr c.baseDir (pl.join pl.tempdir "btgw")
  let runtimeName := textOr c.runtimeName (_runtimeName pl (.str "") exchangeType assetType accountId)
  let endpoints ← _resolveEndpoints pl runtimeName transport (c.endpointKwargs baseDir)
  pure { c with
    exchangeType := exchangeType
    assetType := assetType
    accountId := accountId
    transport := transport
    baseDir := baseDir
    runtimeName := runtimeName
    commandEndpoint := endpoints.commandEndpoint
    eventEndpoint := endpoints.eventEndpoint
    marketEndpoint := endpoints.marketEndpoint }

def knownNames : List String :=
  ["runtime_name", "gateway_runtime_name", "exchange_type", "asset_type", "account_id", "investor_id",
    "user_id", "command_endpoint", "event_endpoint", "market_endpoint", "gateway_command_endpoint",
    "gateway_event_endpoint", "gateway_market_endpoint", "transport", "gateway_startup_timeout_sec",
    "startup_timeout_sec", "gateway_command_timeout_sec", "command_timeout_sec", "broker_id", "td_address",
    "td_front", "md_address", "md_front", "selected_ctp_env", "selection_reason", "gateway_base_dir",
    "base_dir", "gateway_poll_timeout_ms", "poll_timeout_ms"]

def known : List PyStr := knownNames.map u

/-- `{key: value for key, value in kwargs.items() if key not in known}` -/
def unknown (kwargs : Kwargs) : Kwargs where
  items := kwargs.items.filter fun item => item.1 ∉ known
  nodup := kwargs.nodup.sublist (List.filter_sublist.map _)

/-- The value under the first name, unless it is missing, else that under the second. -/
def firstGiven (kwargs : Kwargs) (first second : String) : PyVal :=
  if missing (kwargs.value first) then kwargs.value second else kwargs.value first

def pollTimeout (kwargs : Kwargs) : Except PyExc Int :=
  _coerceInt pl (orElse (kwargs.value "gateway_poll_timeout_ms") (kwargs.value "poll_timeout_ms")) 100

/-- `str(value or "")` -/
def textOf (value : PyVal) : PyStr := pl.py.str (orElse value (.str ""))

def fromKwargs (kwargs : Kwargs) : Eff PyExc Process GatewayConfig := do
  if (kwargs.get "cls").isSome then
    throw (typeError "GatewayConfig.from_kwargs() got multiple values for argument 'cls'")
  let exchangeType := pl.py.upper (strip (pl.py.str (orElse (kwargs.value "exchange_type") (.str "CTP"))))
  let assetType := pl.py.upper (strip (pl.py.str (orElse (kwargs.value "asset_type") (.str "FUTURE"))))
  let accountId := strip (pl.py.str (orElse (kwargs.value "account_id") (orElse (kwargs.value "investor_id")
    (orElse (kwargs.value "user_id") (.str "default")))))
  let runtimeName := _runtimeName pl
    (orElse (kwargs.value "gateway_runtime_name") (kwargs.value "runtime_name")) exchangeType assetType accountId
  let transport := textOr (pl.py.lower (strip (pl.py.str (orElse (kwargs.value "transport") (.str "tcp"))))) "tcp"
  let baseDir := textOf pl (orElse (kwargs.value "gateway_base_dir") (kwargs.value "base_dir"))
  let endpoints ← _resolveEndpoints pl runtimeName transport kwargs
  let startupTimeoutSec ← ofExcept
    (_coerceFloat pl (firstGiven kwargs "gateway_startup_timeout_sec" "startup_timeout_sec") (.finite 30))
  let commandTimeoutSec ← ofExcept
    (_coerceFloat pl (firstGiven kwargs "gateway_command_timeout_sec" "command_timeout_sec") (.finite 10))
  let pollTimeoutMs ← ofExcept (pollTimeout pl kwargs)
  postInit pl {
    runtimeName := runtimeName
    exchangeType := exchangeType
    assetType := assetType
    accountId := accountId
    commandEndpoint := endpoints.commandEndpoint
    eventEndpoint := endpoints.eventEndpoint
    marketEndpoint := endpoints.marketEndpoint
    transport := transport
    startupTimeoutSec := startupTimeoutSec
    commandTimeoutSec := commandTimeoutSec
    brokerId := textOf pl (kwargs.value "broker_id")
    tdAddress := textOf pl (orElse (kwargs.value "td_address") (kwargs.value "td_front"))
    mdAddress := textOf pl (orElse (kwargs.value "md_address") (kwargs.value "md_front"))
    selectedCtpEnv := textOf pl (kwargs.value "selected_ctp_env")
    selectionReason := textOf pl (kwargs.value "selection_reason")
    baseDir := baseDir
    pollTimeoutMs := pollTimeoutMs
    extra := unknown kwargs }

namespace GatewayConfig

variable (c : GatewayConfig)

def payload : List (PyStr × PyVal) :=
  [("runtime_name", .str c.runtimeName), ("exchange_type", .str c.exchangeType),
    ("asset_type", .str c.assetType), ("account_id", .str c.accountId),
    ("command_endpoint", .str c.commandEndpoint), ("event_endpoint", .str c.eventEndpoint),
    ("market_endpoint", .str c.marketEndpoint), ("transport", .str c.transport),
    ("gateway_startup_timeout_sec", .float c.startupTimeoutSec),
    ("gateway_command_timeout_sec", .float c.commandTimeoutSec), ("broker_id", .str c.brokerId),
    ("td_address", .str c.tdAddress), ("td_front", .str c.tdAddress), ("md_address", .str c.mdAddress),
    ("md_front", .str c.mdAddress), ("selected_ctp_env", .str c.selectedCtpEnv),
    ("selection_reason", .str c.selectionReason), ("base_dir", .str c.baseDir)]

/-- `payload = dict(self.extra)` and `payload.update({..})` -/
def toKwargs : Kwargs := fill Prod.fst Prod.snd c.extra c.payload

end GatewayConfig

/-! ## What the interpreter and the paths are known for -/

/-- The documented behaviour of `upper`, `lower`, `float` and `Path`. -/
structure Documented : Prop where
  upper_upper : ∀ s, pl.py.upper (pl.py.upper s) = pl.py.upper s
  lower_lower : ∀ s, pl.py.lower (pl.py.lower s) = pl.py.lower s
  strip_upper : ∀ s, strip (pl.py.upper s) = pl.py.upper (strip s)
  strip_lower : ∀ s, strip (pl.py.lower s) = pl.py.lower (strip s)
  upper_eq_nil : ∀ s, pl.py.upper s = [] ↔ s = []
  lower_eq_nil : ∀ s, pl.py.lower s = [] ↔ s = []
  lower_tcp : pl.py.lower "tcp" = u "tcp"
  float_float : ∀ x, pl.float (.float x) = .ok x
  join_ne_nil : ∀ directory name, pl.join directory name ≠ []

theorem textOr_ne_nil {text default : PyStr} (h : default ≠ []) : textOr text default ≠ [] := by
  unfold textOr
  split
  · exact h
  · assumption

theorem textOr_of_ne_nil {text default : PyStr} (h : text ≠ []) : textOr text default = text := if_neg h

@[simp] theorem orElse_none (v : PyVal) : orElse .none v = v := rfl

theorem orElse_str {s : PyStr} (h : s ≠ []) (v : PyVal) : orElse (.str s) v = .str s :=
  if_pos ((truthy_str s).mpr h)

@[simp] theorem textOf_str (s : PyStr) : textOf pl (.str s) = s := by
  by_cases h : s = []
  · subst h
    rfl
  · rw [textOf, orElse_str h, Interp.str_str]

/-- A sequence that returns has got through its first part. -/
theorem exec_bind_returns {α β : Type} {m : Eff PyExc Process α} {k : α → Eff PyExc Process β} {p q : Process} {b : β}
    (h : exec (m >>= k) p = (.ok b, q)) : ∃ a r, exec m p = (.ok a, r) ∧ exec (k a) r = (.ok b, q) := by
  rw [exec_bind] at h
  split at h
  · next a r hm => exact ⟨a, r, hm, h⟩
  · cases h

/-! ## Settled configurations -/

/-- What reading a configuration again leaves as it is. -/
structure Settled (c : GatewayConfig) : Prop where
  exchange : strip c.exchangeType = c.exchangeType ∧ pl.py.upper c.exchangeType = c.exchangeType ∧ c.exchangeType ≠ []
  asset : strip c.assetType = c.assetType ∧ pl.py.upper c.assetType = c.assetType ∧ c.assetType ≠ []
  account : strip c.accountId = c.accountId ∧ c.accountId ≠ []
  transport : strip c.transport = c.transport ∧ pl.py.lower c.transport = c.transport ∧ c.transport ≠ []
  windows : ¬ (c.transport = u "ipc" ∧ pl.windows = true)
  base : c.baseDir ≠ []
  runtime : strip c.runtimeName = c.runtimeName ∧ c.runtimeName ≠ []
  command : c.commandEndpoint ≠ []
  event : c.eventEndpoint ≠ []
  market : c.marketEndpoint ≠ []
  extra : ∀ k ∈ known, c.extra.get k = none
  cls : c.extra.get "cls" = none

variable {pl}

theorem str_orElse_ne_nil {s t : PyStr} (h : t ≠ []) : pl.py.str (orElse (.str s) (.str t)) ≠ [] := by
  by_cases hs : s = []
  · subst hs
    exact h
  · rw [orElse_str hs, Interp.str_str]
    exact hs

theorem tcpEndpoint_ne_nil (port : Nat) : tcpEndpoint port ≠ [] := by
  intro h
  cases (List.append_eq_nil_iff.mp h).1

theorem ipcEndpoint_ne_nil (baseDir stem suffix : PyStr) : ipcEndpoint pl baseDir stem suffix ≠ [] := by
  intro h
  cases (List.append_eq_nil_iff.mp h).1

/-- Endpoints that come from texts are not empty. -/
theorem resolved_ne_nil {runtimeName transport : PyStr} {kwargs : Kwargs} {command event market : PyStr}
    (hcommand : givenEndpoint kwargs "command_endpoint" "gateway_command_endpoint" = .str command)
    (hevent : givenEndpoint kwargs "event_endpoint" "gateway_event_endpoint" = .str event)
    (hmarket : givenEndpoint kwargs "market_endpoint" "gateway_market_endpoint" = .str market)
    {p q : Process} {e : Endpoints} (h : exec (_resolveEndpoints pl runtimeName transport kwargs) p = (.ok e, q)) :
    e.commandEndpoint ≠ [] ∧ e.eventEndpoint ≠ [] ∧ e.marketEndpoint ≠ [] := by
  unfold _resolveEndpoints at h
  rw [hcommand, hevent, hmarket] at h
  dsimp only at h
  split at h
  · next hall =>
    cases h
    simpa [and_assoc] using hall
  · split at h
    · obtain ⟨baseDir, _, -, h⟩ := exec_bind_returns h
      obtain ⟨_, _, -, h⟩ := exec_bind_returns h
      cases h
      exact ⟨str_orElse_ne_nil (ipcEndpoint_ne_nil _ _ _), str_orElse_ne_nil (ipcEndpoint_ne_nil _ _ _),
        str_orElse_ne_nil (ipcEndpoint_ne_nil _ _ _)⟩
    · obtain ⟨⟨a, b, c⟩, _, -, h⟩ := exec_bind_returns h
      cases h
      exact ⟨str_orElse_ne_nil (tcpEndpoint_ne_nil _), str_orElse_ne_nil (tcpEndpoint_ne_nil _),
        str_orElse_ne_nil (tcpEndpoint_ne_nil _)⟩

/-- Endpoints that are all given are taken as they are. -/
theorem resolved_given {runtimeName transport : PyStr} {kwargs : Kwargs} {command event market : PyStr}
    (hcommand : givenEndpoint kwargs "command_endpoint" "gateway_command_endpoint" = .str command)
    (hevent : givenEndpoint kwargs "event_endpoint" "gateway_event_endpoint" = .str event)
    (hmarket : givenEndpoint kwargs "market_endpoint" "gateway_market_endpoint" = .str market)
    (hne : command ≠ [] ∧ event ≠ [] ∧ market ≠ []) :
    _resolveEndpoints pl runtimeName transport kwargs = pure ⟨command, event, market⟩ := by
  unfold _resolveEndpoints
  rw [hcommand, hevent, hmarket]
  obtain ⟨hc, he, hm⟩ := hne
  simp [truthy, hc, he, hm]

theorem strip_textOr {text : PyStr} (default : PyStr) (h : strip text = text) (hd : strip default = default)
    (hne : default ≠ []) : strip (textOr text default) = textOr text default ∧ textOr text default ≠ [] := by
  unfold textOr
  split
  · exact ⟨hd, hne⟩
  · next htext => exact ⟨h, htext⟩

theorem isSpace_dashed (c : PyChar) :
    isSpace (if c = .scalar '_' then .scalar '-' else c) = isSpace c := by
  split
  · next h =>
    subst h
    decide
  · rfl

theorem strip_lower_dashed (hpl : Documented pl) {text : PyStr} (h : strip text = text) :
    Tidy (dashed (pl.py.lower text)) := by
  apply Tidy.map isSpace_dashed
  rw [tidy_iff, hpl.strip_lower, h]

theorem runtimeName_tidy (hpl : Documented pl) (value : PyVal) {exchangeType assetType accountId : PyStr}
    (hexchange : strip exchangeType = exchangeType) (hasset : strip assetType = assetType)
    (haccount : strip accountId = accountId) :
    strip (_runtimeName pl value exchangeType assetType accountId) =
        _runtimeName pl value exchangeType assetType accountId ∧
      _runtimeName pl value exchangeType assetType accountId ≠ [] := by
  unfold _runtimeName
  dsimp only
  split
  · next hraw => exact ⟨strip_strip _, hraw⟩
  · have hdash : Tidy (u "-") := by
      rw [tidy_iff]
      decide
    have hname := strip_textOr "default" haccount (by decide) (by decide)
    constructor
    · rw [← tidy_iff]
      exact (((strip_lower_dashed hpl hexchange).append hdash).append
        (strip_lower_dashed hpl hasset)).append hdash |>.append (tidy_iff.mpr hname.1)
    · simp [u]

/-! ## Reading settles -/

theorem value_eq {kwargs : Kwargs} {name : String} {v : PyVal} (h : kwargs.get name = some v) :
    kwargs.value name = v := by
  rw [Kwargs.value, h, Option.getD_some]

theorem value_none {kwargs : Kwargs} {name : String} (h : kwargs.get name = none) :
    kwargs.value name = .none := by
  rw [Kwargs.value, h, Option.getD_none]

theorem givenEndpoint_str {kwargs : Kwargs} {name other : String} {s : PyStr}
    (h : kwargs.get name = some (.str s)) (hother : kwargs.get other = none) :
    givenEndpoint kwargs name other = .str s := by
  rw [givenEndpoint, value_eq h, value_none hother, orElse_none]
  by_cases hs : s = []
  · subst hs
    rfl
  · exact orElse_str hs _

section endpointKwargs

variable (c : GatewayConfig) (baseDir : PyStr)

theorem endpointKwargs_command :
    givenEndpoint (c.endpointKwargs baseDir) "command_endpoint" "gateway_command_endpoint" =
      .str c.commandEndpoint :=
  givenEndpoint_str rfl rfl

theorem endpointKwargs_event :
    givenEndpoint (c.endpointKwargs baseDir) "event_endpoint" "gateway_event_endpoint" =
      .str c.eventEndpoint :=
  givenEndpoint_str rfl rfl

theorem endpointKwargs_market :
    givenEndpoint (c.endpointKwargs baseDir) "market_endpoint" "gateway_market_endpoint" =
      .str c.marketEndpoint :=
  givenEndpoint_str rfl rfl

end endpointKwargs

theorem settled_upper (hpl : Documented pl) {text default : PyStr} (h : strip text = text)
    (hd : strip default = default) (hne : default ≠ []) :
    strip (pl.py.upper (strip (textOr text default))) = pl.py.upper (strip (textOr text default)) ∧
      pl.py.upper (pl.py.upper (strip (textOr text default))) = pl.py.upper (strip (textOr text default)) ∧
      pl.py.upper (strip (textOr text default)) ≠ [] := by
  obtain ⟨htext, hnil⟩ := strip_textOr default h hd hne
  rw [htext]
  refine ⟨?_, hpl.upper_upper _, ?_⟩
  · rw [hpl.strip_upper, htext]
  · intro hupper
    exact hnil ((hpl.upper_eq_nil _).mp hupper)

/-- What `__post_init__` makes of a transport. -/
theorem settled_transport (hpl : Documented pl) (text : PyStr) :
    strip (textOr (pl.py.lower (strip text)) "tcp") = textOr (pl.py.lower (strip text)) "tcp" ∧
      pl.py.lower (textOr (pl.py.lower (strip text)) "tcp") = textOr (pl.py.lower (strip text)) "tcp" ∧
      textOr (pl.py.lower (strip text)) "tcp" ≠ [] := by
  have hstrip : strip (pl.py.lower (strip text)) = pl.py.lower (strip text) := by
    rw [hpl.strip_lower, strip_strip]
  obtain ⟨hs, hne⟩ := strip_textOr "tcp" hstrip (by decide) (by decide)
  refine ⟨hs, ?_, hne⟩
  unfold textOr
  split
  · exact hpl.lower_tcp
  · exact hpl.lower_lower _

theorem postInit_settles (hpl : Documented pl) {c c' : GatewayConfig} {p q : Process}
    (h : exec (postInit pl c) p = (.ok c', q)) (hexchange : strip c.exchangeType = c.exchangeType)
    (hasset : strip c.assetType = c.assetType) (haccount : strip c.accountId = c.accountId)
    (hruntime : strip c.runtimeName = c.runtimeName ∧ c.runtimeName ≠ [])
    (hextra : ∀ k ∈ known, c.extra.get k = none) (hcls : c.extra.get "cls" = none) :
    Settled pl c' ∧ c'.pollTimeoutMs = c.pollTimeoutMs := by
  unfold postInit at h
  obtain ⟨e, r, he, h⟩ := exec_bind_returns h
  cases h
  obtain ⟨hcommand, hevent, hmarket⟩ := resolved_ne_nil (endpointKwargs_command ..) (endpointKwargs_event ..)
    (endpointKwargs_market ..) he
  obtain ⟨hts, htl, htne⟩ := settled_transport hpl (textOr c.transport "tcp")
  refine ⟨⟨settled_upper hpl hexchange (by decide) (by decide), settled_upper hpl hasset (by decide) (by decide),
    ?_, ?_, ?_, textOr_ne_nil (hpl.join_ne_nil _ _), ?_, hcommand, hevent, hmarket, hextra, hcls⟩, rfl⟩
  · obtain ⟨hs, hne⟩ := strip_textOr "default" haccount (by decide) (by decide)
    exact ⟨strip_strip _, by rw [hs]; exact hne⟩
  · dsimp only
    split
    · exact ⟨by decide, hpl.lower_tcp, by decide⟩
    · exact ⟨hts, htl, htne⟩
  · dsimp only
    split
    · rintro ⟨htcp, -⟩
      exact absurd htcp (by decide)
    · next hnot => simpa using hnot
  · dsimp only
    rw [textOr_of_ne_nil hruntime.2]
    exact hruntime

theorem get_unknown_of_known (kwargs : Kwargs) {k : PyStr} (hk : k ∈ known) : (unknown kwargs).get k = none := by
  cases h : (unknown kwargs).get k with
  | none => rfl
  | some v =>
    have hmem : (k, v) ∈ kwargs.items.filter fun item => item.1 ∉ known := Dict.mem_of_get h
    simp [hk] at hmem

theorem get_unknown_of_none {kwargs : Kwargs} {k : PyStr} (hk : kwargs.get k = none) :
    (unknown kwargs).get k = none := by
  cases h : (unknown kwargs).get k with
  | none => rfl
  | some v =>
    have hmem : (k, v) ∈ kwargs.items.filter fun item => item.1 ∉ known := Dict.mem_of_get h
    have hget := Dict.get_of_mem kwargs (List.mem_filter.mp hmem).1
    rw [hk] at hget
    cases hget

theorem fromKwargs_settles (hpl : Documented pl) {kwargs : Kwargs} {c : GatewayConfig} {p q : Process}
    (h : exec (fromKwargs pl kwargs) p = (.ok c, q)) :
    Settled pl c ∧ pollTimeout pl kwargs = .ok c.pollTimeoutMs := by
  unfold fromKwargs at h
  split at h
  · obtain ⟨_, _, hthrow, -⟩ := exec_bind_returns h
    cases hthrow
  · next hcls =>
    obtain ⟨e, _, -, h⟩ := exec_bind_returns h
    obtain ⟨startup, _, -, h⟩ := exec_bind_returns h
    obtain ⟨command, _, -, h⟩ := exec_bind_returns h
    obtain ⟨poll, _, hpoll, h⟩ := exec_bind_returns h
    rw [exec_ofExcept] at hpoll
    have hupper : ∀ text, strip (pl.py.upper (strip text)) = pl.py.upper (strip text) := by
      intro text
      rw [hpl.strip_upper, strip_strip]
    obtain ⟨hsettled, hsame⟩ := postInit_settles hpl h (hupper _) (hupper _) (strip_strip _)
      (runtimeName_tidy hpl _ (hupper _) (hupper _) (strip_strip _))
      (fun k hk => get_unknown_of_known kwargs hk)
      (get_unknown_of_none (Option.not_isSome_iff_eq_none.mp hcls))
    exact ⟨hsettled, by rw [hsame]; exact congrArg Prod.fst hpoll⟩

/-! ## The round trip -/

section roundTrip

variable {c : GatewayConfig}

def writtenNames : List String :=
  ["runtime_name", "exchange_type", "asset_type", "account_id", "command_endpoint", "event_endpoint",
    "market_endpoint", "transport", "gateway_startup_timeout_sec", "gateway_command_timeout_sec", "broker_id",
    "td_address", "td_front", "md_address", "md_front", "selected_ctp_env", "selection_reason", "base_dir"]

theorem payload_keys : c.payload.map Prod.fst = writtenNames.map u := rfl

theorem injective_u : Function.Injective u := by
  intro s t h
  exact u_injective h

theorem mem_names {name : String} {names : List String} : u name ∈ names.map u ↔ name ∈ names :=
  List.mem_map_of_injective injective_u

theorem not_written {name : String} (h : name ∉ writtenNames) : u name ∉ c.payload.map Prod.fst := by
  rw [payload_keys, mem_names]
  exact h

theorem nodup_payload : (c.payload.map Prod.fst).Nodup := by
  have hnames : writtenNames.Nodup := by decide
  rw [payload_keys]
  exact hnames.map injective_u

theorem payload_known : ∀ k ∈ c.payload.map Prod.fst, k ∈ known := by
  have hnames : writtenNames ⊆ knownNames := by decide
  intro k hk
  rw [payload_keys] at hk
  obtain ⟨name, hname, rfl⟩ := List.mem_map.mp hk
  exact mem_names.mpr (hnames hname)

theorem unknown_items {kwargs extra : Kwargs} {items : List (PyStr × PyVal)}
    (hitems : kwargs.items = extra.items ++ items) (hextra : ∀ k ∈ known, extra.get k = none)
    (hknown : ∀ k ∈ items.map Prod.fst, k ∈ known) : unknown kwargs = extra := by
  have hkept : ∀ item ∈ extra.items, item.1 ∉ known := by
    rintro ⟨k, v⟩ hitem hk
    have hget := Dict.get_of_mem extra hitem
    rw [hextra k hk] at hget
    cases hget
  have hgone : ∀ item ∈ items, ¬ item.1 ∉ known := by
    intro item hitem hnot
    exact hnot (hknown item.1 (List.mem_map_of_mem hitem))
  have hunknown : (unknown kwargs).items = extra.items := by
    show kwargs.items.filter _ = _
    rw [hitems, List.filter_append, List.filter_eq_self.mpr, List.filter_eq_nil_iff.mpr, List.append_nil]
    · intro item hitem
      simpa using hgone item hitem
    · intro item hitem
      simpa using hkept item hitem
  generalize unknown kwargs = d at hunknown
  cases d
  cases extra
  cases hunknown
  rfl

section fill

variable {extra : Kwargs} {items : List (PyStr × PyVal)}

theorem value_fill (hn : (items.map Prod.fst).Nodup) {name : String} {v : PyVal} (h : (u name, v) ∈ items) :
    Kwargs.value (fill Prod.fst Prod.snd extra items) name = v :=
  value_eq (get_fill_of_mem extra hn h)

theorem get_fill_item (hn : (items.map Prod.fst).Nodup) {name : PyStr} {v : PyVal} (h : (name, v) ∈ items) :
    (fill Prod.fst Prod.snd extra items).get name = some v :=
  get_fill_of_mem extra hn h

theorem get_fill_none {name : PyStr} (h : name ∉ items.map Prod.fst) (hextra : extra.get name = none) :
    (fill Prod.fst Prod.snd extra items).get name = none :=
  (get_fill_of_not_mem extra h).trans hextra

theorem unknown_fill (hn : (items.map Prod.fst).Nodup) (hextra : ∀ k ∈ known, extra.get k = none)
    (hknown : ∀ k ∈ items.map Prod.fst, k ∈ known) : unknown (fill Prod.fst Prod.snd extra items) = extra := by
  refine unknown_items ?_ hextra hknown
  have hfill : (fill Prod.fst Prod.snd extra items).items = _ :=
    items_fill_of_new (fun a ha => hextra a.1 (hknown a.1 (List.mem_map_of_mem ha))) hn
  simpa using hfill

end fill

theorem value_payload {name : String} {v : PyVal} (h : (u name, v) ∈ c.payload) : c.toKwargs.value name = v :=
  value_fill nodup_payload h

theorem unknown_toKwargs (h : Settled pl c) : unknown c.toKwargs = c.extra :=
  unknown_fill nodup_payload h.extra payload_known

theorem get_payload {name : String} {v : PyVal} (h : (u name, v) ∈ c.payload) : c.toKwargs.get name = some v :=
  get_fill_item nodup_payload h

/-- A name that the class reads and `to_kwargs` does not write. -/
theorem get_unwritten (h : Settled pl c) {name : String} (hk : name ∈ knownNames)
    (hn : name ∉ writtenNames) : c.toKwargs.get name = none :=
  get_fill_none (not_written hn) (h.extra _ (mem_names.mpr hk))

theorem endpoints_toKwargs (h : Settled pl c) (runtimeName transport : PyStr) :
    _resolveEndpoints pl runtimeName transport c.toKwargs =
      pure ⟨c.commandEndpoint, c.eventEndpoint, c.marketEndpoint⟩ := by
  apply resolved_given
  · exact givenEndpoint_str (get_payload (by simp [GatewayConfig.payload]))
      (get_unwritten h (by simp [knownNames]) (by simp [writtenNames]))
  · exact givenEndpoint_str (get_payload (by simp [GatewayConfig.payload]))
      (get_unwritten h (by simp [knownNames]) (by simp [writtenNames]))
  · exact givenEndpoint_str (get_payload (by simp [GatewayConfig.payload]))
      (get_unwritten h (by simp [knownNames]) (by simp [writtenNames]))
  · exact ⟨h.command, h.event, h.market⟩

/-- A settled configuration is left as it is. -/
theorem postInit_settled (h : Settled pl c) : postInit pl c = pure c := by
  unfold postInit
  have hexchange : pl.py.upper (strip (textOr c.exchangeType "CTP")) = c.exchangeType := by
    rw [textOr_of_ne_nil h.exchange.2.2, h.exchange.1, h.exchange.2.1]
  have hasset : pl.py.upper (strip (textOr c.assetType "FUTURE")) = c.assetType := by
    rw [textOr_of_ne_nil h.asset.2.2, h.asset.1, h.asset.2.1]
  have haccount : strip (textOr c.accountId "default") = c.accountId := by
    rw [textOr_of_ne_nil h.account.2, h.account.1]
  have htransport : textOr (pl.py.lower (strip (textOr c.transport "tcp"))) "tcp" = c.transport := by
    rw [textOr_of_ne_nil h.transport.2.2, h.transport.1, h.transport.2.1, textOr_of_ne_nil h.transport.2.2]
  have hwindows : (if c.transport = u "ipc" && pl.windows then u "tcp" else c.transport) = c.transport := by
    apply if_neg
    simpa using h.windows
  have hbase : textOr c.baseDir (pl.join pl.tempdir "btgw") = c.baseDir := textOr_of_ne_nil h.base
  have hendpoints : ∀ runtimeName transport, _resolveEndpoints pl runtimeName transport (c.endpointKwargs c.baseDir) =
      pure ⟨c.commandEndpoint, c.eventEndpoint, c.marketEndpoint⟩ := by
    intro runtimeName transport
    exact resolved_given (endpointKwargs_command ..) (endpointKwargs_event ..) (endpointKwargs_market ..)
      ⟨h.command, h.event, h.market⟩
  dsimp only
  rw [hexchange, hasset, haccount, htransport, hwindows, hbase, hendpoints, pure_bind, textOr_of_ne_nil h.runtime.2]

theorem coerceFloat_float (hpl : Documented pl) (x default : PyFloat) :
    _coerceFloat pl (.float x) default = .ok x := by
  simp [_coerceFloat, coerce, missing, hpl.float_float]

theorem value_unwritten (h : Settled pl c) {name : String} (hk : name ∈ knownNames)
    (hn : name ∉ writtenNames) : c.toKwargs.value name = .none :=
  value_none (get_unwritten h hk hn)

theorem read_exchange (h : Settled pl c) :
    pl.py.upper (strip (pl.py.str (orElse (c.toKwargs.value "exchange_type") (.str "CTP")))) = c.exchangeType := by
  have hvalue : c.toKwargs.value "exchange_type" = .str c.exchangeType := value_payload (by simp [GatewayConfig.payload])
  rw [hvalue, orElse_str h.exchange.2.2, Interp.str_str, h.exchange.1, h.exchange.2.1]

theorem read_asset (h : Settled pl c) :
    pl.py.upper (strip (pl.py.str (orElse (c.toKwargs.value "asset_type") (.str "FUTURE")))) = c.assetType := by
  have hvalue : c.toKwargs.value "asset_type" = .str c.assetType := value_payload (by simp [GatewayConfig.payload])
  rw [hvalue, orElse_str h.asset.2.2, Interp.str_str, h.asset.1, h.asset.2.1]

theorem read_account (h : Settled pl c) (v : PyVal) :
    strip (pl.py.str (orElse (c.toKwargs.value "account_id") v)) = c.accountId := by
  have hvalue : c.toKwargs.value "account_id" = .str c.accountId := value_payload (by simp [GatewayConfig.payload])
  rw [hvalue, orElse_str h.account.2, Interp.str_str, h.account.1]

theorem read_runtime (h : Settled pl c) (exchangeType assetType accountId : PyStr) :
    _runtimeName pl (orElse (c.toKwargs.value "gateway_runtime_name") (c.toKwargs.value "runtime_name"))
      exchangeType assetType accountId = c.runtimeName := by
  have hvalue : c.toKwargs.value "runtime_name" = .str c.runtimeName := value_payload (by simp [GatewayConfig.payload])
  rw [value_unwritten h (by simp [knownNames]) (by simp [writtenNames]), orElse_none, hvalue, _runtimeName,
    orElse_str h.runtime.2, Interp.str_str, h.runtime.1]
  exact if_pos h.runtime.2

theorem read_transport (h : Settled pl c) :
    textOr (pl.py.lower (strip (pl.py.str (orElse (c.toKwargs.value "transport") (.str "tcp"))))) "tcp" =
      c.transport := by
  have hvalue : c.toKwargs.value "transport" = .str c.transport := value_payload (by simp [GatewayConfig.payload])
  rw [hvalue, orElse_str h.transport.2.2, Interp.str_str, h.transport.1, h.transport.2.1,
    textOr_of_ne_nil h.transport.2.2]

theorem read_base (h : Settled pl c) :
    textOf pl (orElse (c.toKwargs.value "gateway_base_dir") (c.toKwargs.value "base_dir")) = c.baseDir := by
  have hvalue : c.toKwargs.value "base_dir" = .str c.baseDir := value_payload (by simp [GatewayConfig.payload])
  rw [value_unwritten h (by simp [knownNames]) (by simp [writtenNames]), orElse_none, hvalue, textOf_str]

theorem read_timeout (hpl : Documented pl) {name other : String} {x : PyFloat} (h : (u name, .float x) ∈ c.payload)
    (default : PyFloat) : _coerceFloat pl (firstGiven c.toKwargs name other) default = .ok x := by
  rw [firstGiven, value_payload h]
  exact coerceFloat_float hpl _ _

theorem read_poll (h : Settled pl c) : pollTimeout pl c.toKwargs = .ok 100 := by
  rw [pollTimeout, value_unwritten h (by simp [knownNames]) (by simp [writtenNames]), orElse_none,
    value_unwritten h (by simp [knownNames]) (by simp [writtenNames])]
  rfl

theorem read_text {name : String} {s : PyStr} (h : (u name, .str s) ∈ c.payload) :
    textOf pl (c.toKwargs.value name) = s := by
  rw [value_payload h, textOf_str]

theorem read_front {name other : String} {s : PyStr} (h : (u name, .str s) ∈ c.payload)
    (hother : (u other, .str s) ∈ c.payload) :
    textOf pl (orElse (c.toKwargs.value name) (c.toKwargs.value other)) = s := by
  rw [value_payload h, value_payload hother, orElse, ite_self, textOf_str]

/-- Everything but the poll timeout comes back. -/
theorem fromKwargs_toKwargs (hpl : Documented pl) (h : Settled pl c) (p : Process) :
    exec (fromKwargs pl c.toKwargs) p = (.ok { c with pollTimeoutMs := 100 }, p) := by
  have hnot : "cls" ∉ writtenNames := by simp [writtenNames]
  have hget : c.toKwargs.get "cls" = none := get_fill_none (not_written hnot) h.cls
  have hcls : ¬ (c.toKwargs.get "cls").isSome := by
    rw [hget]
    exact Bool.false_ne_true
  have hread : postInit pl { c with pollTimeoutMs := 100 } = pure { c with pollTimeoutMs := 100 } :=
    postInit_settled ⟨h.exchange, h.asset, h.account, h.transport, h.windows, h.base, h.runtime, h.command,
      h.event, h.market, h.extra, h.cls⟩
  unfold fromKwargs
  rw [if_neg hcls]
  dsimp only
  rw [read_exchange h, read_asset h, read_account h, read_runtime h, read_transport h, read_base h,
    endpoints_toKwargs h, pure_bind, read_timeout hpl (x := c.startupTimeoutSec) (by simp [GatewayConfig.payload]),
    read_timeout hpl (x := c.commandTimeoutSec) (by simp [GatewayConfig.payload]), read_poll h,
    read_text (s := c.brokerId) (by simp [GatewayConfig.payload]),
    read_front (s := c.tdAddress) (by simp [GatewayConfig.payload]) (by simp [GatewayConfig.payload]),
    read_front (s := c.mdAddress) (by simp [GatewayConfig.payload]) (by simp [GatewayConfig.payload]),
    read_text (s := c.selectedCtpEnv) (by simp [GatewayConfig.payload]),
    read_text (s := c.selectionReason) (by simp [GatewayConfig.payload]), unknown_toKwargs h]
  exact congrArg (fun m => exec m p) hread

end roundTrip

/-- What is written and read again is the configuration with the default poll timeout, so it
comes back exactly if that is the one it was read with. -/
theorem round_trip_iff (pl : Platform) (hpl : Documented pl) (kwargs : Kwargs) (c : GatewayConfig) (p q : Process)
    (h : exec (fromKwargs pl kwargs) p = (.ok c, q)) (r : Process) :
    exec (fromKwargs pl c.toKwargs) r = (.ok { c with pollTimeoutMs := 100 }, r) ∧
    ((∃ t, exec (fromKwargs pl c.toKwargs) r = (.ok c, t)) ↔ pollTimeout pl kwargs = .ok 100) := by
  obtain ⟨hsettled, hpoll⟩ := fromKwargs_settles hpl h
  have hread := fromKwargs_toKwargs hpl hsettled r
  refine ⟨hread, ?_⟩
  rw [hread, hpoll]
  constructor
  · rintro ⟨t, hsame⟩
    have hpollTimeout : 100 = c.pollTimeoutMs :=
      congrArg GatewayConfig.pollTimeoutMs (Except.ok.inj (congrArg Prod.fst hsame))
    rw [← hpollTimeout]
  · intro hsame
    have hpollTimeout : c.pollTimeoutMs = 100 := Except.ok.inj hsame
    refine ⟨r, ?_⟩
    rw [← hpollTimeout]

/-- An interpreter on texts that are in the wanted case, and a system that offers the ports from
40000 on. -/
def plain : Platform where
  py := { Interp.ascii with lower := id, upper := id }
  float
    | .float x => .ok x
    | _ => .error (typeError "float() argument must be a string or a real number")
  windows := false
  tempdir := "/tmp"
  path
    | .str s => .ok s
    | _ => .error (typeError "argument should be a str or an os.PathLike object")
  join directory name := directory ++ u "/" ++ name
  mkdir _ := .ok ()
  offer n := .ok (40000 + n)

theorem documented_plain : Documented plain := by
  refine ⟨fun _ => rfl, fun _ => rfl, fun _ => rfl, fun _ => rfl, fun _ => Iff.rfl, fun _ => Iff.rfl, rfl,
    fun _ => rfl, ?_⟩
  intro directory name hnil
  have hslash : u "/" = [] := (List.append_eq_nil_iff.mp (List.append_eq_nil_iff.mp hnil).1).2
  cases hslash

/-- With an alias for the account, one for the trading front, and a key of its own. -/
def plainKwargs (poll : Int) : Kwargs :=
  fill Prod.fst Prod.snd Dict.empty [(u "runtime_name", .str "ctp-1"), (u "investor_id", .str "77001"),
    (u "td_front", .str "tcp://10.0.0.1:17001"), (u "region", .str "sh"), (u "poll_timeout_ms", .int poll)]

theorem returns_of_toBool {α : Type} {m : Eff PyExc Process α} {p : Process} (h : (exec m p).1.toBool = true) :
    ∃ a q, exec m p = (.ok a, q) := by
  cases hm : exec m p with
  | mk outcome q =>
    cases outcome with
    | ok a => exact ⟨a, q, rfl⟩
    | error e =>
      rw [hm] at h
      cases h

theorem round_trip_iff_plain : ∃ c q, exec (fromKwargs plain (plainKwargs 100)) {} = (.ok c, q) ∧
    exec (fromKwargs plain c.toKwargs) q = (.ok { c with pollTimeoutMs := 100 }, q) ∧
    ((∃ t, exec (fromKwargs plain c.toKwargs) q = (.ok c, t)) ↔ pollTimeout plain (plainKwargs 100) = .ok 100) := by
  obtain ⟨c, q, h⟩ := returns_of_toBool (m := fromKwargs plain (plainKwargs 100)) (p := {}) (by decide +kernel)
  exact ⟨c, q, h, round_trip_iff plain documented_plain (plainKwargs 100) c {} q h q⟩

theorem poll_timeout_lost : ∃ c q, exec (fromKwargs plain (plainKwargs 250)) {} = (.ok c, q) ∧
    ∀ r t, exec (fromKwargs plain c.toKwargs) r ≠ (.ok c, t) := by
  obtain ⟨c, q, h⟩ := returns_of_toBool (m := fromKwargs plain (plainKwargs 250)) (p := {}) (by decide +kernel)
  refine ⟨c, q, h, ?_⟩
  obtain ⟨hsettled, hpoll⟩ := fromKwargs_settles documented_plain h
  have hgiven : pollTimeout plain (plainKwargs 250) = .ok 250 := rfl
  have hpollTimeout : 250 = c.pollTimeoutMs := Except.ok.inj (hgiven.symm.trans hpoll)
  intro r t hsame
  rw [fromKwargs_toKwargs documented_plain hsettled r] at hsame
  have hread : 100 = c.pollTimeoutMs :=
    congrArg GatewayConfig.pollTimeoutMs (Except.ok.inj (congrArg Prod.fst hsame))
  omega

end GatewayConfigs
