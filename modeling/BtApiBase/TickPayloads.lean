import BtApiBase.GatewayTicks

/-!
# Ticks from payloads

`GatewayTick.from_dict` makes a tick of any dictionary that has a timestamp and a symbol. A
client in the same process hands over values of the annotated types, a remote one the texts of
the times; the plugin adapter passes both on.
-/

namespace TickPayloads

open PyText PyDict PyValue Protocol GatewayTicks

/-- What `poll_output` of the adapter hands on. -/
inductive Polled where
  | tick (tick : GatewayTick)
  | value (payload : PyVal)

/-- `PluginGatewayAdapter.poll_output`, for what the client has polled. -/
def pollOutput (py : Interp) (fromisoformat : PyStr → Except PyExc PyVal) :
    Option (PyVal × PyVal) → Except PyExc (Option (PyVal × Polled))
  | none => .ok none
  | some (channel, .dict payload) =>
    if isStr CHANNEL_MARKET channel then do
      let tick ← fromDict py fromisoformat (.dict payload)
      .ok (some (channel, .tick tick))
    else .ok (some (channel, .value (.dict payload)))
  | some (channel, payload) => .ok (some (channel, .value payload))

/-- The declared types; numbers stand for those they convert to without being asked. -/
def ofKind : Kind → PyVal → Bool
  | .float, .float _ | .floatOrNone, .float _ => true
  | .float, .int _ | .floatOrNone, .int _ => true
  | .float, .bool _ | .floatOrNone, .bool _ => true
  | .floatOrNone, .none | .datetimeOrNone, .none => true
  | .str, .str _ => true
  | .int, .int _ | .int, .bool _ => true
  | .bool, .bool _ => true
  | .strs, .tuple xs => xs.all fun x => (text? x).isSome
  | .datetimeOrNone, .datetime _ => true
  | _, _ => false

section

variable (py : Interp) (fromisoformat : PyStr → Except PyExc PyVal) (payload : PyMap)

def value (f : Field) : Option PyVal := find (isStr f.name) payload

/-- Every value of its declared type is in the tick, and every text of a time is there as the
moment it is parsed to. -/
structure Keeps (tick : GatewayTick) : Prop where
  typed : ∀ f v, value payload f = some v → ofKind f.kind v = true → tick f = v
  parsed : ∀ f c s, f.kind = .datetimeOrNone → value payload f = some (.str (c :: s)) →
    fromisoformat (c :: s) = .ok (tick f)

/-- The texts of the times can be parsed. -/
def Parses : Prop :=
  ∀ f c s, f.kind = .datetimeOrNone → value payload f = some (.str (c :: s)) →
    ∃ moment, fromisoformat (c :: s) = .ok moment

/-- `datetime` is not given as a moment. -/
def NoMoment : Prop := ∀ iso, value payload .datetime ≠ some (.datetime iso)

def knownItems : PyMap := payload.filter fun kv => Field.all.any fun f => isStr f.name kv.1

end

/-! ## What `from_dict` reads -/

theorem values_knownItems (payload : PyMap) : value (knownItems payload) = value payload := by
  funext f
  have hknown : ∀ x, isStr f.name x = true → (Field.all.any fun f => isStr f.name x) = true := by
    intro x hx
    exact List.any_eq_true.mpr ⟨f, mem_all f, hx⟩
  exact find_filter hknown payload

@[simp] theorem value_set (data : PyMap) (f : Field) (v : PyVal) :
    value (data.set f.name v) = Function.update (value data) f (some v) := by
  funext g
  by_cases h : g = f
  · subst h
    rw [Function.update_self]
    exact find_put_same (by simp) v data
  · have hname : g.name ≠ f.name := fun he => h (name_injective he)
    rw [Function.update_of_ne h]
    exact find_put_other (fun x hx => isStr_disjoint hname x hx) (by simp) v data

theorem get_eq_value (data : PyMap) (f : Field) : data.get f.name = (value data f).getD .none := rfl

/-- What becomes of the value of a time; `drops` tells whether what is no text is dropped. -/
def moment (fromisoformat : PyStr → Except PyExc PyVal) (drops : Bool) : Option PyVal → Except PyExc PyVal
  | none | some .none => .ok .none
  | some (.str (c :: s)) => fromisoformat (c :: s)
  | some v => .ok (if drops then .none else v)

/-- What becomes of the flags. -/
def flagsOf (py : Interp) : Option PyVal → Option PyVal
  | some (.list flags) => some (.tuple (flags.map fun flag => .str (py.str flag)))
  | v => v

/-- `cls(**data)`, with the values that the data has of the fields. -/
def constructed (values : Field → Option PyVal) : Except PyExc GatewayTick :=
  match Field.all.find? fun f => f.declared.2.2.isNone && !(values f).isSome with
  | some f => .error ⟨.typeError, "missing required positional argument: " ++ f.name⟩
  | none => .ok fun f => (values f).getD (f.declared.2.2.getD .none)

section steps

variable (py : Interp) (fromisoformat : PyStr → Except PyExc PyVal) (data : PyMap)

theorem values_readDatetime : (readDatetime fromisoformat data).map value =
    (moment fromisoformat true (value data .datetime)).map fun v =>
      Function.update (value data) .datetime (some v) := by
  unfold readDatetime
  rw [get_eq_value]
  cases hv : value data .datetime with
  | none => exact congrArg Except.ok (value_set data .datetime .none)
  | some v =>
    cases v with
    | str s =>
      cases s with
      | nil => exact congrArg Except.ok (value_set data .datetime .none)
      | cons c s =>
        rw [Option.getD_some]
        dsimp only [moment]
        cases fromisoformat (c :: s) with
        | error e => rfl
        | ok v => exact congrArg Except.ok (value_set data .datetime v)
    | _ => exact congrArg Except.ok (value_set data .datetime .none)

theorem values_readTime (f : Field) : (readTime fromisoformat data f).map value =
    (moment fromisoformat false (value data f)).map fun v => Function.update (value data) f (some v) := by
  unfold readTime
  rw [get_eq_value]
  cases hv : value data f with
  | none => exact congrArg Except.ok (value_set data f .none)
  | some v =>
    have hsame : value data = Function.update (value data) f (some v) := by rw [← hv, Function.update_eq_self]
    cases v with
    | none => exact congrArg Except.ok (value_set data f .none)
    | str s =>
      cases s with
      | nil => exact congrArg Except.ok hsame
      | cons c s =>
        rw [Option.getD_some]
        dsimp only [moment]
        cases fromisoformat (c :: s) with
        | error e => rfl
        | ok v => exact congrArg Except.ok (value_set data f v)
    | _ => exact congrArg Except.ok hsame

theorem values_readFlags : value (readFlags py data) =
    Function.update (value data) .qualityFlags (flagsOf py (value data .qualityFlags)) := by
  unfold readFlags
  rw [get_eq_value]
  cases hv : value data .qualityFlags with
  | none =>
    show value data = Function.update (value data) .qualityFlags none
    rw [← hv, Function.update_eq_self]
  | some v =>
    have hsame : value data = Function.update (value data) .qualityFlags (some v) := by
      rw [← hv, Function.update_eq_self]
    cases v with
    | list flags => exact value_set data .qualityFlags _
    | _ => exact hsame

theorem construct_eq : construct (knownItems data) = constructed (value data) :=
  calc construct (knownItems data) = constructed (value (knownItems data)) := rfl
    _ = constructed (value data) := congrArg constructed (values_knownItems data)

end steps

/-- The time of a field is read, and the rest is done with what it has become. -/
def reading (fromisoformat : PyStr → Except PyExc PyVal) (drops : Bool) (f : Field)
    (next : (Field → Option PyVal) → Except PyExc GatewayTick) (values : Field → Option PyVal) :
    Except PyExc GatewayTick := do
  let v ← moment fromisoformat drops (values f)
  next (Function.update values f (some v))

/-- The flags are read and the tick is made. -/
def finished (py : Interp) (values : Field → Option PyVal) : Except PyExc GatewayTick :=
  constructed (Function.update values .qualityFlags (flagsOf py (values .qualityFlags)))

section

variable {py : Interp} {fromisoformat : PyStr → Except PyExc PyVal} {payload : PyMap}

theorem bind_reading {drops : Bool} {f : Field} {step : PyMap → Except PyExc PyMap}
    {next : PyMap → Except PyExc GatewayTick} {after : (Field → Option PyVal) → Except PyExc GatewayTick}
    (hstep : ∀ data, (step data).map value =
      (moment fromisoformat drops (value data f)).map fun v => Function.update (value data) f (some v))
    (hnext : ∀ data, next data = after (value data)) (data : PyMap) :
    step data >>= next = reading fromisoformat drops f after (value data) := by
  have h := hstep data
  unfold reading
  cases hmoment : moment fromisoformat drops (value data f) with
  | error e =>
    rw [hmoment] at h
    cases hs : step data with
    | error e' =>
      rw [hs] at h
      exact congrArg Except.error (Except.error.inj h)
    | ok left => rw [hs] at h; cases h
  | ok v =>
    rw [hmoment] at h
    cases hs : step data with
    | error e' => rw [hs] at h; cases h
    | ok left =>
      rw [hs] at h
      calc next left = after (value left) := hnext left
        _ = after (Function.update (value data) f (some v)) := congrArg after (Except.ok.inj h)

/-- `from_dict` looks at the fields of the payload alone, one after the other. -/
theorem fromDict_eq (payload : PyMap) : fromDict py fromisoformat (.dict payload) =
    reading fromisoformat true .datetime (reading fromisoformat false .eventTimeUtc
      (reading fromisoformat false .recvTimeUtc (finished py))) (value payload) := by
  have hlast : ∀ data, construct (knownItems (readFlags py data)) = finished py (value data) := by
    intro data
    rw [construct_eq, values_readFlags]
    rfl
  have hreceive := bind_reading (fun data => values_readTime fromisoformat data .recvTimeUtc) hlast
  have hevent := bind_reading (fun data => values_readTime fromisoformat data .eventTimeUtc) hreceive
  have hfirst := bind_reading (values_readDatetime fromisoformat) hevent
  rw [← hfirst]
  show (readDatetime fromisoformat payload >>= fun data =>
    ((readTime fromisoformat data .eventTimeUtc >>= fun data =>
      (readTime fromisoformat data .recvTimeUtc >>= fun data => pure data)) >>= fun data =>
        construct (knownItems (readFlags py data)))) = _
  simp only [bind_assoc, pure_bind]

theorem reading_eq_ok {drops : Bool} {f : Field} {next : (Field → Option PyVal) → Except PyExc GatewayTick}
    {values : Field → Option PyVal} {tick : GatewayTick} :
    reading fromisoformat drops f next values = .ok tick ↔
      ∃ v, moment fromisoformat drops (values f) = .ok v ∧ next (Function.update values f (some v)) = .ok tick := by
  unfold reading
  cases moment fromisoformat drops (values f) with
  | error e =>
    constructor
    · intro h
      cases h
    · rintro ⟨v, h, -⟩
      cases h
  | ok v =>
    constructor
    · intro h
      exact ⟨v, rfl, h⟩
    · rintro ⟨w, hw, h⟩
      obtain rfl := Except.ok.inj hw
      exact h

/-- What a tick has in a field of which the payload has this. -/
def defaulted (f : Field) (v : Option PyVal) : PyVal := v.getD (f.declared.2.2.getD .none)

theorem constructed_eq {values : Field → Option PyVal} (ht : values .timestamp ≠ none) (hs : values .symbol ≠ none) :
    constructed values = .ok fun f => defaulted f (values f) := by
  have hnone : (Field.all.find? fun f => f.declared.2.2.isNone && !(values f).isSome) = none := by
    apply List.find?_eq_none.mpr
    intro f _
    cases f with
    | timestamp => simp [ht]
    | symbol => simp [hs]
    | _ => simp [Field.declared]
  unfold constructed
  rw [hnone]
  rfl

/-- The values that the tick is made of, when the times have been read. -/
def read (py : Interp) (values : Field → Option PyVal) (dt event receive : PyVal) : Field → Option PyVal
  | .datetime => some dt
  | .eventTimeUtc => some event
  | .recvTimeUtc => some receive
  | .qualityFlags => flagsOf py (values .qualityFlags)
  | f => values f

theorem finished_eq {values : Field → Option PyVal} (ht : values .timestamp ≠ none) (hs : values .symbol ≠ none)
    (dt event receive : PyVal) :
    finished py (Function.update (Function.update (Function.update values .datetime (some dt))
      .eventTimeUtc (some event)) .recvTimeUtc (some receive)) =
      .ok fun f => defaulted f (read py values dt event receive f) := by
  have hread : Function.update (Function.update (Function.update (Function.update values .datetime (some dt))
      .eventTimeUtc (some event)) .recvTimeUtc (some receive)) .qualityFlags (flagsOf py (values .qualityFlags)) =
      read py values dt event receive := by
    funext f
    cases f <;> rfl
  exact (congrArg constructed hread).trans (constructed_eq ht hs)

theorem fromDict_eq_ok (ht : value payload .timestamp ≠ none) (hs : value payload .symbol ≠ none) (tick : GatewayTick) :
    fromDict py fromisoformat (.dict payload) = .ok tick ↔ ∃ dt event receive,
      moment fromisoformat true (value payload .datetime) = .ok dt ∧
      moment fromisoformat false (value payload .eventTimeUtc) = .ok event ∧
      moment fromisoformat false (value payload .recvTimeUtc) = .ok receive ∧
      tick = fun f => defaulted f (read py (value payload) dt event receive f) := by
  simp only [fromDict_eq, reading_eq_ok, finished_eq ht hs, Except.ok.injEq]
  constructor
  · rintro ⟨dt, hdt, event, hevent, receive, hreceive, rfl⟩
    exact ⟨dt, event, receive, hdt, hevent, hreceive, rfl⟩
  · rintro ⟨dt, event, receive, hdt, hevent, hreceive, rfl⟩
    exact ⟨dt, hdt, event, hevent, receive, hreceive, rfl⟩

theorem moment_returns (hp : Parses fromisoformat payload) {f : Field} (hf : f.kind = .datetimeOrNone)
    (drops : Bool) : ∃ v, moment fromisoformat drops (value payload f) = .ok v := by
  cases hv : value payload f with
  | none => exact ⟨_, rfl⟩
  | some v =>
    cases v with
    | str s =>
      cases s with
      | nil => exact ⟨_, rfl⟩
      | cons c s => exact hp f c s hf hv
    | _ => exact ⟨_, rfl⟩

/-- A value of the declared type is read as it is, a moment under `datetime` apart. -/
theorem moment_typed {f : Field} {v w : PyVal} {drops : Bool} (hf : f.kind = .datetimeOrNone)
    (hv : value payload f = some v) (ht : ofKind f.kind v = true) (hd : ∀ iso, drops = true → v ≠ .datetime iso)
    (h : moment fromisoformat drops (value payload f) = .ok w) : w = v := by
  rw [hv] at h
  rw [hf] at ht
  cases v with
  | none => exact (Except.ok.inj h).symm
  | datetime iso =>
    cases drops with
    | true => exact absurd rfl (hd iso rfl)
    | false => exact (Except.ok.inj h).symm
  | _ => cases ht

theorem keeps_of (hn : NoMoment payload) {dt event receive : PyVal}
    (hdt : moment fromisoformat true (value payload .datetime) = .ok dt)
    (hevent : moment fromisoformat false (value payload .eventTimeUtc) = .ok event)
    (hreceive : moment fromisoformat false (value payload .recvTimeUtc) = .ok receive) :
    Keeps fromisoformat payload fun f => defaulted f (read py (value payload) dt event receive f) := by
  constructor
  · intro f v hv ht
    have hrest : read py (value payload) dt event receive f = value payload f →
        defaulted f (read py (value payload) dt event receive f) = v := by
      intro h
      rw [h, hv]
      rfl
    cases f with
    | datetime => exact moment_typed rfl hv ht (fun iso _ hiso => hn iso (hiso ▸ hv)) hdt
    | eventTimeUtc => exact moment_typed rfl hv ht (fun _ h => by cases h) hevent
    | recvTimeUtc => exact moment_typed rfl hv ht (fun _ h => by cases h) hreceive
    | qualityFlags =>
      apply hrest
      show flagsOf py (value payload .qualityFlags) = value payload .qualityFlags
      rw [hv]
      cases v with
      | list flags => cases ht
      | _ => rfl
    | _ => exact hrest rfl
  · intro f c s hf hv
    obtain rfl | rfl | rfl := eq_of_datetimeOrNone hf
    · rw [hv] at hdt
      exact hdt
    · rw [hv] at hevent
      exact hevent
    · rw [hv] at hreceive
      exact hreceive

theorem fromDict_keeps_iff (ht : value payload .timestamp ≠ none) (hs : value payload .symbol ≠ none) :
    (∃ tick, fromDict py fromisoformat (.dict payload) = .ok tick ∧ Keeps fromisoformat payload tick) ↔
      NoMoment payload ∧ Parses fromisoformat payload := by
  constructor
  · rintro ⟨tick, hok, htyped, hparsed⟩
    constructor
    · intro iso hv
      obtain ⟨dt, event, receive, hdt, -, -, rfl⟩ := (fromDict_eq_ok ht hs tick).mp hok
      rw [hv] at hdt
      obtain rfl := Except.ok.inj hdt
      cases htyped .datetime _ hv rfl
    · intro f c s hf hv
      exact ⟨tick f, hparsed f c s hf hv⟩
  · rintro ⟨hn, hp⟩
    obtain ⟨dt, hdt⟩ := moment_returns hp (f := .datetime) rfl true
    obtain ⟨event, hevent⟩ := moment_returns hp (f := .eventTimeUtc) rfl false
    obtain ⟨receive, hreceive⟩ := moment_returns hp (f := .recvTimeUtc) rfl false
    exact ⟨_, (fromDict_eq_ok ht hs _).mpr ⟨dt, event, receive, hdt, hevent, hreceive, rfl⟩, keeps_of hn hdt hevent hreceive⟩

theorem fromDict_knownItems : fromDict py fromisoformat (.dict (knownItems payload)) =
    fromDict py fromisoformat (.dict payload) := by
  rw [fromDict_eq, fromDict_eq, values_knownItems]

theorem pollOutput_market {channel : PyVal} (h : isStr CHANNEL_MARKET channel = true) (tick : GatewayTick) :
    pollOutput py fromisoformat (some (channel, .dict payload)) = .ok (some (channel, .tick tick)) ↔
      fromDict py fromisoformat (.dict payload) = .ok tick := by
  dsimp only [pollOutput]
  rw [if_pos h]
  cases fromDict py fromisoformat (.dict payload) with
  | error e =>
    constructor <;> intro h <;> cases h
  | ok t =>
    constructor
    · intro h
      cases h
      rfl
    · intro h
      cases h
      rfl

end

/-- A tick made of a payload, by `from_dict` or by `poll_output` on the market channel, loses
nothing exactly if no moment is given under `datetime` and the texts of the times parse; the
keys that are no fields never matter. -/
theorem payload_kept_iff (py : Interp) (fromisoformat : PyStr → Except PyExc PyVal) (payload : PyMap)
    (ht : value payload .timestamp ≠ none) (hs : value payload .symbol ≠ none) :
    ((∃ tick, fromDict py fromisoformat (.dict payload) = .ok tick ∧ Keeps fromisoformat payload tick) ↔
      NoMoment payload ∧ Parses fromisoformat payload) ∧
    (∀ channel, isStr CHANNEL_MARKET channel = true →
      ((∃ tick, pollOutput py fromisoformat (some (channel, .dict payload)) = .ok (some (channel, .tick tick)) ∧
        Keeps fromisoformat payload tick) ↔ NoMoment payload ∧ Parses fromisoformat payload)) ∧
    fromDict py fromisoformat (.dict (knownItems payload)) = fromDict py fromisoformat (.dict payload) := by
  refine ⟨fromDict_keeps_iff ht hs, ?_, fromDict_knownItems⟩
  intro channel hchannel
  simp only [pollOutput_market hchannel]
  exact fromDict_keeps_iff ht hs

/-- What a client in the same process polls: the time of the event is a moment. -/
def polled : PyMap :=
  [(.str "timestamp", .float (.finite (3 / 2))), (.str "symbol", .str "SA701"),
    (.str "event_time_utc", .datetime "2026-09-09T01:30:01+00:00"), (.str "note", .int 1)]

theorem payload_kept_iff_polled :
    (value polled .timestamp).isSome = true ∧ (value polled .symbol).isSome = true ∧
    ∃ tick, fromDict .ascii (fun iso => .ok (.datetime iso)) (.dict polled) = .ok tick ∧
      Keeps (fun iso => .ok (.datetime iso)) polled tick := by
  have ht : (value polled .timestamp).isSome = true := by decide +kernel
  have hs : (value polled .symbol).isSome = true := by decide +kernel
  have hn : NoMoment polled := by
    intro iso hv
    have hnone : (value polled .datetime).isNone = true := by decide +kernel
    rw [hv] at hnone
    cases hnone
  exact ⟨ht, hs, (payload_kept_iff .ascii (fun iso => .ok (.datetime iso)) polled
    (Option.isSome_iff_ne_none.mp ht) (Option.isSome_iff_ne_none.mp hs)).1.mpr ⟨hn, fun _ _ _ _ _ => ⟨_, rfl⟩⟩⟩

/-- The same with the moment under `datetime` as well. -/
def stamped : PyMap := (.str "datetime", .datetime "2026-09-09T01:30:01+00:00") :: polled

theorem datetime_dropped :
    value stamped .datetime = some (.datetime "2026-09-09T01:30:01+00:00") ∧
    ∃ tick, fromDict .ascii (fun iso => .ok (.datetime iso)) (.dict stamped) = .ok tick ∧
      tick .datetime = .none ∧ tick .eventTimeUtc = .datetime "2026-09-09T01:30:01+00:00" := by
  have ht : (value stamped .timestamp).isSome = true := by decide +kernel
  have hs : (value stamped .symbol).isSome = true := by decide +kernel
  have hd : value stamped .datetime = some (.datetime "2026-09-09T01:30:01+00:00") := by
    simp [value, stamped, find, Field.name, Field.declared]
  have he : value stamped .eventTimeUtc = some (.datetime "2026-09-09T01:30:01+00:00") := by
    rfl
  refine ⟨hd, _, (fromDict_eq_ok (Option.isSome_iff_ne_none.mp ht) (Option.isSome_iff_ne_none.mp hs) _).mpr
    ⟨.none, .datetime "2026-09-09T01:30:01+00:00", .none, ?_, ?_, ?_, rfl⟩, rfl, rfl⟩
  · rw [hd]
    rfl
  · rw [he]
    rfl
  · rfl

end TickPayloads
