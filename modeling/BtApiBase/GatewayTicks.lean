import BtApiBase.PyJsonReading
import BtApiBase.Protocol

/-!
# Ticks on the wire

`GatewayTick` goes over the wire as the dictionary of its fields, with the times as ISO
texts and the flags as a list, and `from_dict` takes these two changes back. A datetime is
given by its ISO text; what `datetime.fromisoformat` makes of a text is a parameter.
-/

namespace GatewayTicks

open PyText PyDict PyValue PyJson PyJsonReading Protocol

inductive Field where
  | timestamp | symbol | exchange | assetType | localTime | price | volume | direction | tradeId
  | bidPrice | askPrice | bidVolume | askVolume | openinterest | turnover | datetime
  | instrumentId | exchangeId | tradingDay | actionDay | updateTime | updateMillisec | highPrice
  | lowPrice | openPrice | prevClose | schemaVersion | volumeSemantics | cumVolume
  | cumulativeVolume | deltaVolume | volumeComplete | volumeQuality | continuityStatus
  | qualityFlags | lastPrice | lowerLimitPrice | upperLimitPrice | eventTimeUtc | recvTimeUtc
  | recvMonotonicNs | connectionGeneration | ingestSeq | subscriptionEpoch | rulesHash
  | clockDomainId | source | eventTimeSource | sourceClockQuality | receiveClockQuality
  | sourceClockErrorMs | receiveClockErrorMs | freshnessVerified | executionEligible
  deriving DecidableEq

/-- The annotations of the fields. -/
inductive Kind where
  | float | floatOrNone | str | int | bool | strs | datetimeOrNone
  deriving DecidableEq

/-- The name, the annotation and the default of a field. -/
def Field.declared : Field → String × Kind × Option PyVal
  | .timestamp => ("timestamp", .float, none)
  | .symbol => ("symbol", .str, none)
  | .exchange => ("exchange", .str, some (.str ""))
  | .assetType => ("asset_type", .str, some (.str ""))
  | .localTime => ("local_time", .floatOrNone, some .none)
  | .price => ("price", .float, some (.float (.finite 0)))
  | .volume => ("volume", .float, some (.float (.finite 0)))
  | .direction => ("direction", .str, some (.str "buy"))
  | .tradeId => ("trade_id", .str, some (.str ""))
  | .bidPrice => ("bid_price", .floatOrNone, some .none)
  | .askPrice => ("ask_price", .floatOrNone, some .none)
  | .bidVolume => ("bid_volume", .floatOrNone, some .none)
  | .askVolume => ("ask_volume", .floatOrNone, some .none)
  | .openinterest => ("openinterest", .float, some (.float (.finite 0)))
  | .turnover => ("turnover", .float, some (.float (.finite 0)))
  | .datetime => ("datetime", .datetimeOrNone, some .none)
  | .instrumentId => ("instrument_id", .str, some (.str ""))
  | .exchangeId => ("exchange_id", .str, some (.str ""))
  | .tradingDay => ("trading_day", .str, some (.str ""))
  | .actionDay => ("action_day", .str, some (.str ""))
  | .updateTime => ("update_time", .str, some (.str ""))
  | .updateMillisec => ("update_millisec", .int, some (.int 0))
  | .highPrice => ("high_price", .floatOrNone, some .none)
  | .lowPrice => ("low_price", .floatOrNone, some .none)
  | .openPrice => ("open_price", .floatOrNone, some .none)
  | .prevClose => ("prev_close", .floatOrNone, some .none)
  | .schemaVersion => ("schema_version", .str, some (.str ""))
  | .volumeSemantics => ("volume_semantics", .str, some (.str ""))
  | .cumVolume => ("cum_volume", .floatOrNone, some .none)
  | .cumulativeVolume => ("cumulative_volume", .floatOrNone, some .none)
  | .deltaVolume => ("delta_volume", .floatOrNone, some .none)
  | .volumeComplete => ("volume_complete", .bool, some (.bool false))
  | .volumeQuality => ("volume_quality", .str, some (.str "unknown"))
  | .continuityStatus => ("continuity_status", .str, some (.str "unverified"))
  | .qualityFlags => ("quality_flags", .strs, some (.tuple []))
  | .lastPrice => ("last_price", .floatOrNone, some .none)
  | .lowerLimitPrice => ("lower_limit_price", .floatOrNone, some .none)
  | .upperLimitPrice => ("upper_limit_price", .floatOrNone, some .none)
  | .eventTimeUtc => ("event_time_utc", .datetimeOrNone, some .none)
  | .recvTimeUtc => ("recv_time_utc", .datetimeOrNone, some .none)
  | .recvMonotonicNs => ("recv_monotonic_ns", .int, some (.int 0))
  | .connectionGeneration => ("connection_generation", .int, some (.int 0))
  | .ingestSeq => ("ingest_seq", .int, some (.int 0))
  | .subscriptionEpoch => ("subscription_epoch", .int, some (.int 0))
  | .rulesHash => ("rules_hash", .str, some (.str ""))
  | .clockDomainId => ("clock_domain_id", .str, some (.str ""))
  | .source => ("source", .str, some (.str "unknown"))
  | .eventTimeSource => ("event_time_source", .str, some (.str "unresolved"))
  | .sourceClockQuality => ("source_clock_quality", .str, some (.str "unknown"))
  | .receiveClockQuality => ("receive_clock_quality", .str, some (.str "unknown"))
  | .sourceClockErrorMs => ("source_clock_error_ms", .floatOrNone, some .none)
  | .receiveClockErrorMs => ("receive_clock_error_ms", .floatOrNone, some .none)
  | .freshnessVerified => ("freshness_verified", .bool, some (.bool false))
  | .executionEligible => ("execution_eligible", .bool, some (.bool false))

/-- The fields in the order of the class. -/
def Field.all : List Field :=
  [.timestamp, .symbol, .exchange, .assetType, .localTime, .price, .volume, .direction, .tradeId,
    .bidPrice, .askPrice, .bidVolume, .askVolume, .openinterest, .turnover, .datetime,
    .instrumentId, .exchangeId, .tradingDay, .actionDay, .updateTime, .updateMillisec, .highPrice,
    .lowPrice, .openPrice, .prevClose, .schemaVersion, .volumeSemantics, .cumVolume,
    .cumulativeVolume, .deltaVolume, .volumeComplete, .volumeQuality, .continuityStatus,
    .qualityFlags, .lastPrice, .lowerLimitPrice, .upperLimitPrice, .eventTimeUtc, .recvTimeUtc,
    .recvMonotonicNs, .connectionGeneration, .ingestSeq, .subscriptionEpoch, .rulesHash,
    .clockDomainId, .source, .eventTimeSource, .sourceClockQuality, .receiveClockQuality,
    .sourceClockErrorMs, .receiveClockErrorMs, .freshnessVerified, .executionEligible]

def Field.name (f : Field) : PyStr := u f.declared.1

def finite : PyFloat → Bool
  | .finite _ | .negZero => true
  | _ => false

/-- A value of the annotated type; an integer will do for a float, and a boolean for an
integer. -/
def Kind.admits : Kind → PyVal → Bool
  | .float, .float x | .floatOrNone, .float x => finite x
  | .float, .int _ | .floatOrNone, .int _ => true
  | .floatOrNone, .none | .datetimeOrNone, .none => true
  | .str, .str _ => true
  | .int, .int _ | .int, .bool _ => true
  | .bool, .bool _ => true
  | .strs, .tuple xs => xs.all fun x => (text? x).isSome
  | .datetimeOrNone, .datetime _ => true
  | _, _ => false

/-- The value of every field. -/
abbrev GatewayTick := Field → PyVal

/-- A dictionary with an item for each field, in order. -/
def table (g : Field → PyVal) : PyMap := Field.all.map fun f => (.str f.name, g f)

def isoformat : PyVal → Except PyExc PyStr
  | .datetime iso => .ok iso
  | _ => .error ⟨.attributeError, "object has no attribute 'isoformat'"⟩

/-- One turn of the loop in `to_dict`. -/
def GatewayTick.putTime (tick : GatewayTick) (payload : PyMap) (f : Field) : Except PyExc PyMap :=
  match tick f with
  | .none => .ok payload
  | value => do .ok (payload.set f.name (.str (← isoformat value)))

def GatewayTick.toDict (tick : GatewayTick) : Except PyExc PyMap :=
  [Field.datetime, .eventTimeUtc, .recvTimeUtc].foldlM tick.putTime
    (asdictFields (Field.all.map fun f => (f.name, tick f)))

/-- `cls(**data)` -/
def construct (data : PyMap) : Except PyExc GatewayTick :=
  match Field.all.find? fun f => f.declared.2.2.isNone && !data.contains f.name with
  | some f => .error ⟨.typeError, "missing required positional argument: " ++ f.name⟩
  | none => .ok fun f => (find (isStr f.name) data).getD (f.declared.2.2.getD .none)

section

variable (py : Interp) (fromisoformat : PyStr → Except PyExc PyVal)

/-- What `from_dict` does with `datetime`: what is not a text is dropped. -/
def readDatetime (data : PyMap) : Except PyExc PyMap :=
  match data.get Field.datetime.name with
  | .str (c :: s) => do .ok (data.set Field.datetime.name (← fromisoformat (c :: s)))
  | _ => .ok (data.set Field.datetime.name .none)

/-- What it does with `event_time_utc` and `recv_time_utc`. -/
def readTime (data : PyMap) (f : Field) : Except PyExc PyMap :=
  match data.get f.name with
  | .str (c :: s) => do .ok (data.set f.name (← fromisoformat (c :: s)))
  | .none => .ok (data.set f.name .none)
  | _ => .ok data

def readFlags (data : PyMap) : PyMap :=
  match data.get Field.qualityFlags.name with
  | .list flags => data.set Field.qualityFlags.name (.tuple (flags.map fun flag => .str (py.str flag)))
  | _ => data

def fromDict (payload : PyVal) : Except PyExc GatewayTick := do
  let data ← py.dict payload
  let data ← readDatetime fromisoformat data
  let data ← [Field.eventTimeUtc, .recvTimeUtc].foldlM (readTime fromisoformat) data
  let data := readFlags py data
  construct (data.filter fun kv => Field.all.any fun f => isStr f.name kv.1)

end

/-! ## Tables -/

theorem mem_all (f : Field) : f ∈ Field.all := by
  cases f <;> decide

theorem nodup_names : (Field.all.map Field.name).Nodup := by
  have hdeclared : (Field.all.map fun f => f.declared.1).Nodup := by decide +kernel
  have hnames : Field.all.map Field.name = (Field.all.map fun f => f.declared.1).map u := by
    rw [List.map_map]
    rfl
  rw [hnames]
  exact hdeclared.map fun _ _ => u_injective

theorem name_injective {f f' : Field} (h : f.name = f'.name) : f = f' :=
  List.inj_on_of_nodup_map nodup_names (mem_all f) (mem_all f') h

theorem find_rows (g : Field → PyVal) {f : Field} {fs : List Field} (h : f ∈ fs) :
    find (isStr f.name) (fs.map fun f => (.str f.name, g f)) = some (g f) := by
  induction fs with
  | nil => cases h
  | cons x fs ih =>
    by_cases hx : x = f
    · simp [find, hx]
    · have hne : x.name ≠ f.name := fun he => hx (name_injective he)
      have hf : f ∈ fs := (List.mem_cons.mp h).resolve_left (Ne.symm hx)
      simpa [find, hne] using ih hf

theorem find_table (g : Field → PyVal) (f : Field) : find (isStr f.name) (table g) = some (g f) :=
  find_rows g (mem_all f)

@[simp] theorem get_table (g : Field → PyVal) (f : Field) : PyMap.get (table g) f.name = g f := by
  rw [PyMap.get, find_table, Option.getD_some]

theorem put_rows (g : Field → PyVal) (f : Field) (v : PyVal) {fs : List Field} (h : f ∈ fs) (hn : fs.Nodup) :
    put (isStr f.name) (.str f.name) v (fs.map fun f => (.str f.name, g f)) =
      fs.map fun x => (.str x.name, Function.update g f v x) := by
  induction fs with
  | nil => cases h
  | cons x fs ih =>
    obtain ⟨hx, hn⟩ := List.nodup_cons.mp hn
    by_cases he : x = f
    · subst he
      have hrest : ∀ y ∈ fs, Function.update g x v y = g y := by
        intro y hy
        have hyx : y ≠ x := fun h => hx (h ▸ hy)
        exact Function.update_of_ne hyx _ _
      simp only [List.map_cons, put, isStr_str, beq_self_eq_true, if_true, Function.update_self, List.cons.injEq,
        true_and]
      exact List.map_congr_left fun y hy => by rw [hrest y hy]
    · have hne : x.name ≠ f.name := fun hname => he (name_injective hname)
      have hf : f ∈ fs := (List.mem_cons.mp h).resolve_left (Ne.symm he)
      simpa [put, hne, Function.update_of_ne he] using ih hf hn

theorem set_table (g : Field → PyVal) (f : Field) (v : PyVal) :
    PyMap.set (table g) f.name v = table (Function.update g f v) :=
  put_rows g f v (mem_all f) (List.Nodup.of_map _ nodup_names)

/-- A loop over fields that puts a new value for each. -/
theorem foldlM_table {step : PyMap → Field → Except PyExc PyMap} {new : Field → PyVal} {fs : List Field}
    (hn : fs.Nodup) {g : Field → PyVal} (hstep : ∀ f ∈ fs, ∀ g' : Field → PyVal, g' f = g f →
      step (table g') f = .ok (table (Function.update g' f (new f)))) :
    fs.foldlM step (table g) = .ok (table fun f => if f ∈ fs then new f else g f) := by
  induction fs generalizing g with
  | nil => simp [pure, Except.pure]
  | cons f fs ih =>
    obtain ⟨hf, hn⟩ := List.nodup_cons.mp hn
    rw [List.foldlM_cons, hstep f List.mem_cons_self g rfl]
    show fs.foldlM step (table (Function.update g f (new f))) = _
    rw [ih hn]
    · congr 2
      funext x
      by_cases hx : x = f
      · simp [hx, hf]
      · simp [hx]
    · intro x hx g' hg
      have hne : x ≠ f := fun he => hf (he ▸ hx)
      exact hstep x (List.mem_cons_of_mem _ hx) g' (by rw [hg, Function.update_of_ne hne])

/-! ## Values of the annotated types -/

def Field.kind (f : Field) : Kind := f.declared.2.1

/-- Every field has a value of its annotated type. -/
def GatewayTick.Typed (tick : GatewayTick) : Prop := ∀ f : Field, f.kind.admits (tick f) = true

/-- The texts of a value that is a text or a tuple of texts. -/
def textsOf : PyVal → List PyStr
  | .str s => [s]
  | .tuple xs => xs.filterMap text?
  | _ => []

/-- No text of the tick has a lone surrogate. -/
def GatewayTick.Clean (tick : GatewayTick) : Prop := ∀ f, ∀ s ∈ textsOf (tick f), Scalar s

/-- What is neither a time nor a tuple. -/
def simple : PyVal → Bool
  | .none | .bool _ | .int _ | .float _ | .str _ => true
  | _ => false

theorem eq_strs {xs : List PyVal} (h : xs.all fun x => (text? x).isSome) :
    xs = (xs.filterMap text?).map .str := by
  induction xs with
  | nil => rfl
  | cons x xs ih =>
    rw [List.all_cons, Bool.and_eq_true] at h
    cases x with
    | str s => simpa [text?] using ih h.2
    | _ => exact absurd h.1 (by simp [text?])

theorem shape {k : Kind} {v : PyVal} (h : k.admits v = true) :
    simple v = true ∨ (∃ iso, v = .datetime iso ∧ k = .datetimeOrNone) ∨
      ∃ texts : List PyStr, v = .tuple (texts.map .str) ∧ k = .strs := by
  cases v with
  | none | bool | int | float | str => exact .inl rfl
  | datetime iso =>
    cases k with
    | datetimeOrNone => exact .inr (.inl ⟨iso, rfl, rfl⟩)
    | _ => cases h
  | tuple xs =>
    cases k with
    | strs => exact .inr (.inr ⟨_, congrArg PyVal.tuple (eq_strs h), rfl⟩)
    | _ => cases h
  | _ => cases k <;> cases h

theorem eq_of_datetimeOrNone {f : Field} (h : f.kind = .datetimeOrNone) :
    f = .datetime ∨ f = .eventTimeUtc ∨ f = .recvTimeUtc := by
  revert h
  cases f <;> decide

theorem eq_of_strs {f : Field} (h : f.kind = .strs) : f = .qualityFlags := by
  revert h
  cases f <;> decide

/-- The value as `to_dict` has it. -/
def isoText : PyVal → PyVal
  | .datetime iso => .str iso
  | v => v

/-- The value as it comes off the wire. -/
def wire : PyVal → PyVal
  | .datetime iso => .str iso
  | .tuple xs => .list xs
  | v => v

theorem normalizeItems_strs (py : Interp) (texts : List PyStr) :
    normalizeItems py (texts.map .str) = texts.map .str := by
  induction texts with
  | nil => rfl
  | cons s texts ih => simp [normalizeItems, _normalize, ih]

theorem asdictItems_strs (texts : List PyStr) : asdictItems (texts.map .str) = texts.map .str := by
  induction texts with
  | nil => rfl
  | cons s texts ih => simp [asdictItems, asdictInner, ih]

section

variable {k : Kind} {v : PyVal} (h : k.admits v = true)

include h

theorem asdictInner_admitted : asdictInner v = v := by
  obtain hs | ⟨iso, rfl, -⟩ | ⟨texts, rfl, -⟩ := shape h
  · cases v with
    | none | bool | int | float | str => rfl
    | _ => cases hs
  · rfl
  · rw [asdictInner, asdictItems_strs]

theorem normalize_isoText (py : Interp) : _normalize py (isoText v) = wire v := by
  obtain hs | ⟨iso, rfl, -⟩ | ⟨texts, rfl, -⟩ := shape h
  · cases v with
    | none | bool | int | float | str => rfl
    | _ => cases hs
  · rfl
  · rw [isoText, _normalize, normalizeItems_strs, wire]
    exact nofun

end

/-! ## Sending -/

variable {py : Interp} {fromisoformat : PyStr → Except PyExc PyVal} {tick : GatewayTick}

theorem asdict_eq (ht : tick.Typed) : asdictFields (Field.all.map fun f => (f.name, tick f)) = table tick := by
  unfold table
  induction Field.all with
  | nil => rfl
  | cons f fs ih => simp [asdictFields, asdictInner_admitted (ht f), ih]

theorem toDict_eq (ht : tick.Typed) : tick.toDict = .ok (table fun f => isoText (tick f)) := by
  have hstep : ∀ f ∈ [Field.datetime, .eventTimeUtc, .recvTimeUtc], ∀ g : Field → PyVal, g f = tick f →
      tick.putTime (table g) f = .ok (table (Function.update g f (isoText (tick f)))) := by
    intro f hf g hg
    have hk : f.kind = .datetimeOrNone := by
      simp only [List.mem_cons, List.not_mem_nil, or_false] at hf
      rcases hf with rfl | rfl | rfl <;> rfl
    have h := ht f
    rw [hk] at h
    unfold GatewayTick.putTime
    cases hv : tick f with
    | none =>
      have hsame : Function.update g f .none = g := by rw [← hv, ← hg, Function.update_eq_self]
      exact congrArg (fun g => Except.ok (table g)) hsame.symm
    | datetime iso => exact congrArg Except.ok (set_table g f (.str iso))
    | _ => rw [hv] at h; cases h
  unfold GatewayTick.toDict
  rw [asdict_eq ht, foldlM_table (by decide) hstep]
  congr 2
  funext f
  split
  · rfl
  · next hf =>
    obtain hs | ⟨iso, -, hk⟩ | ⟨texts, hv, -⟩ := shape (ht f)
    · cases hv : tick f with
      | none | bool | int | float | str => rfl
      | _ => rw [hv] at hs; cases hs
    · obtain rfl | rfl | rfl := eq_of_datetimeOrNone hk <;> simp at hf
    · rw [hv]; rfl

theorem normalizePairs_rows (py : Interp) (g : Field → PyVal) (fs : List Field) :
    normalizePairs py (fs.map fun f => (.str f.name, g f)) = fs.map fun f => (f.name, _normalize py (g f)) := by
  induction fs with
  | nil => rfl
  | cons f fs ih => simp [normalizePairs, ih]

theorem normalize_table (py : Interp) (g : Field → PyVal) :
    _normalize py (.dict (table g)) = .dict (table fun f => _normalize py (g f)) := by
  rw [_normalize, table, normalizePairs_rows, PyMap.update_of_new]
  · simp [table]
  · simp [PyMap.contains]
  · rw [List.map_map]
    exact nodup_names

theorem contains_rows (g : Field → PyVal) {f : Field} {fs : List Field} (h : f ∉ fs) :
    PyMap.contains (fs.map fun x => (.str x.name, g x)) f.name = false := by
  induction fs with
  | nil => rfl
  | cons x fs ih =>
    rw [List.mem_cons, not_or] at h
    have hne : x.name ≠ f.name := fun he => h.1 (name_injective he).symm
    rw [List.map_cons, contains_cons, ih h.2, Bool.or_false]
    simpa using hne

theorem plain_rows {py : Interp} {g : Field → PyVal} (hg : ∀ f, Plain py (g f)) {fs : List Field}
    (hn : fs.Nodup) : PlainPairs py (fs.map fun f => (.str f.name, g f)) := by
  induction fs with
  | nil => trivial
  | cons f fs ih =>
    obtain ⟨hf, hn⟩ := List.nodup_cons.mp hn
    exact ⟨contains_rows g hf, hg f, ih hn⟩

theorem scalar_name (f : Field) : Scalar f.name := scalar_u _

theorem jsonable_table {g : Field → PyVal} (hg : ∀ f, jsonable (g f) = true) :
    jsonable (.dict (table g)) = true := by
  rw [jsonable, jsonablePairs_iff]
  intro kv hkv
  obtain ⟨f, -, rfl⟩ := List.mem_map.mp hkv
  exact ⟨decide_eq_true (scalar_name f), hg f⟩

theorem plainItems_strs (py : Interp) (texts : List PyStr) : PlainItems py (texts.map .str) := by
  induction texts with
  | nil => trivial
  | cons s texts ih => exact ⟨trivial, ih⟩

theorem jsonableItems_strs {texts : List PyStr} (h : ∀ s ∈ texts, Scalar s) :
    jsonableItems (texts.map .str) = true := by
  induction texts with
  | nil => rfl
  | cons s texts ih =>
    have hs := h s List.mem_cons_self
    simp [jsonableItems, jsonable, hs, ih fun s hs => h s (List.mem_cons_of_mem _ hs)]

/-- The times of the tick are read back from their texts. -/
def GatewayTick.TimesRead (fromisoformat : PyStr → Except PyExc PyVal) (tick : GatewayTick) : Prop :=
  ∀ f iso, tick f = .datetime iso → iso ≠ [] ∧ Scalar iso ∧ fromisoformat iso = .ok (.datetime iso)

/-- The floats of the tick are read back from their texts. -/
def GatewayTick.FloatsRead (py : Interp) (tick : GatewayTick) : Prop := ∀ f x, tick f = .float x → Reads py x

theorem plain_wire (ht : tick.Typed) (hfloat : tick.FloatsRead py) (f : Field) : Plain py (wire (tick f)) := by
  obtain hs | ⟨iso, hv, -⟩ | ⟨texts, hv, -⟩ := shape (ht f)
  · cases hv : tick f with
    | none | bool | int | str => trivial
    | float x => exact hfloat f x hv
    | _ => rw [hv] at hs; cases hs
  · rw [hv]; trivial
  · rw [hv]; exact plainItems_strs py texts

theorem jsonable_wire (ht : tick.Typed) (hc : tick.Clean) (hiso : tick.TimesRead fromisoformat) (f : Field) :
    jsonable (wire (tick f)) = true := by
  obtain hs | ⟨iso, hv, -⟩ | ⟨texts, hv, -⟩ := shape (ht f)
  · cases hv : tick f with
    | none | bool | int | float => rfl
    | str s => exact decide_eq_true (hc f s (by rw [hv]; exact List.mem_singleton_self s))
    | _ => rw [hv] at hs; cases hs
  · rw [hv]
    exact decide_eq_true (hiso f iso hv).2.1
  · rw [hv]
    refine jsonableItems_strs fun s hs => hc f s ?_
    rw [hv]
    exact List.mem_filterMap.mpr ⟨.str s, List.mem_map_of_mem hs, rfl⟩

/-- What comes off the wire is the dictionary of the wire values. -/
theorem received_eq (ht : tick.Typed) (hc : tick.Clean) (hiso : tick.TimesRead fromisoformat)
    (hfloat : tick.FloatsRead py) {payload : PyMap} (hp : tick.toDict = .ok payload) :
    (dumpsMessage py (.dict payload) >>= loadsMessage py) = .ok (.dict (table fun f => wire (tick f))) := by
  rw [toDict_eq ht] at hp
  cases hp
  have hnorm : _normalize py (.dict (table fun f => isoText (tick f))) = .dict (table fun f => wire (tick f)) := by
    rw [normalize_table]
    exact congrArg (fun g => PyVal.dict (table g)) (funext fun f => normalize_isoText (ht f) py)
  have hjson := jsonable_table (jsonable_wire ht hc hiso)
  have hplain : Plain py (.dict (table fun f => wire (tick f))) :=
    plain_rows (plain_wire ht hfloat) (List.Nodup.of_map _ nodup_names)
  obtain ⟨bytes, hb⟩ := (dumps_isOk py _).mpr hjson
  obtain ⟨text, hd, hl⟩ := loads_dumps hplain hb
  rw [dumpsMessage, hnorm, hb]
  show loadsMessage py bytes = _
  rw [loadsMessage, hd]
  exact hl

/-! ## Receiving -/

theorem readTime_table (ht : tick.Typed) (hiso : tick.TimesRead fromisoformat) {f : Field}
    (hk : f.kind = .datetimeOrNone) {g : Field → PyVal} (hg : g f = wire (tick f)) :
    readTime fromisoformat (table g) f = .ok (table (Function.update g f (tick f))) := by
  have h := ht f
  rw [hk] at h
  unfold readTime
  rw [get_table, hg]
  cases hv : tick f with
  | none => exact congrArg Except.ok (set_table g f .none)
  | datetime iso =>
    obtain ⟨hne, -, hread⟩ := hiso f iso hv
    cases iso with
    | nil => exact absurd rfl hne
    | cons c s =>
      show (do .ok ((table g).set f.name (← fromisoformat (c :: s)))) = _
      rw [hread]
      exact congrArg Except.ok (set_table g f _)
  | _ => rw [hv] at h; cases h

theorem readDatetime_table (ht : tick.Typed) (hiso : tick.TimesRead fromisoformat) {g : Field → PyVal}
    (hg : g .datetime = wire (tick .datetime)) :
    readDatetime fromisoformat (table g) = .ok (table (Function.update g .datetime (tick .datetime))) := by
  have h := readTime_table ht hiso (f := .datetime) rfl hg
  have hk := ht .datetime
  unfold readTime at h
  unfold readDatetime
  rw [get_table, hg] at h ⊢
  cases hv : tick .datetime with
  | none => exact congrArg Except.ok (set_table g .datetime .none)
  | datetime iso =>
    rw [hv] at h
    cases iso with
    | nil => exact absurd rfl (hiso .datetime [] hv).1
    | cons c s => exact h
  | _ => rw [hv] at hk; cases hk

theorem readFlags_table (ht : tick.Typed) {g : Field → PyVal} (hg : g .qualityFlags = wire (tick .qualityFlags)) :
    readFlags py (table g) = table (Function.update g .qualityFlags (tick .qualityFlags)) := by
  have h := ht .qualityFlags
  unfold readFlags
  rw [get_table, hg]
  obtain hs | ⟨iso, -, hk⟩ | ⟨texts, hv, -⟩ := shape h
  · cases hv : tick .qualityFlags with
    | none | bool | int | float | str => rw [hv] at h; cases h
    | _ => rw [hv] at hs; cases hs
  · cases hk
  · rw [hv]
    simp only [wire, List.map_map, Function.comp_def, Interp.str_str]
    exact set_table g .qualityFlags _

theorem construct_table (g : Field → PyVal) :
    construct ((table g).filter fun kv => Field.all.any fun f => isStr f.name kv.1) = .ok g := by
  have hall : (table g).filter (fun kv => Field.all.any fun f => isStr f.name kv.1) = table g := by
    refine List.filter_eq_self.mpr fun kv hkv => ?_
    obtain ⟨f, hf, rfl⟩ := List.mem_map.mp hkv
    exact List.any_eq_true.mpr ⟨f, hf, by simp⟩
  have hnone : Field.all.find? (fun f => f.declared.2.2.isNone && !PyMap.contains (table g) f.name) = none := by
    rw [List.find?_eq_none]
    intro f _
    simp [PyMap.contains, find_table]
  rw [hall, construct, hnone]
  simp only [find_table, Option.getD_some]

theorem fromDict_wire (ht : tick.Typed) (hiso : tick.TimesRead fromisoformat) :
    fromDict py fromisoformat (.dict (table fun f => wire (tick f))) = .ok tick := by
  have hstep : ∀ f ∈ [Field.eventTimeUtc, .recvTimeUtc], ∀ g : Field → PyVal,
      g f = Function.update (fun f => wire (tick f)) .datetime (tick .datetime) f →
      readTime fromisoformat (table g) f = .ok (table (Function.update g f (tick f))) := by
    intro f hf g hg
    simp only [List.mem_cons, List.not_mem_nil, or_false] at hf
    rcases hf with rfl | rfl
    · exact readTime_table ht hiso rfl (by rw [hg, Function.update_of_ne (by decide)])
    · exact readTime_table ht hiso rfl (by rw [hg, Function.update_of_ne (by decide)])
  unfold fromDict
  simp only [Interp.dict, bind, Except.bind]
  rw [readDatetime_table ht hiso rfl]
  simp only
  rw [foldlM_table (by decide) hstep]
  simp only
  rw [readFlags_table ht (by simp), construct_table]
  congr 1
  funext f
  by_cases hflags : f = .qualityFlags
  · rw [hflags, Function.update_self]
  rw [Function.update_of_ne hflags]
  split
  · rfl
  · next htimes =>
    by_cases hdate : f = .datetime
    · rw [hdate, Function.update_self]
    rw [Function.update_of_ne hdate]
    obtain hs | ⟨iso, -, hk⟩ | ⟨texts, -, hk⟩ := shape (ht f)
    · cases hv : tick f with
      | none | bool | int | float | str => rfl
      | _ => rw [hv] at hs; cases hs
    · obtain rfl | rfl | rfl := eq_of_datetimeOrNone hk
      · exact absurd rfl hdate
      · exact absurd (by simp) htimes
      · exact absurd (by simp) htimes
    · exact absurd (eq_of_strs hk) hflags

/-- `GatewayTick.from_dict(loads_message(dumps_message(tick.to_dict())))` -/
def overWire (py : Interp) (fromisoformat : PyStr → Except PyExc PyVal) (tick : GatewayTick) :
    Except PyExc GatewayTick := do
  let payload ← tick.toDict
  let bytes ← dumpsMessage py (.dict payload)
  let received ← loadsMessage py bytes
  fromDict py fromisoformat received

/-- What is read back from the bytes is what the tick is made of. -/
theorem overWire_ok {payload : PyMap} (hp : tick.toDict = .ok payload) {received : PyVal}
    (hr : (dumpsMessage py (.dict payload) >>= loadsMessage py) = .ok received) :
    overWire py fromisoformat tick = fromDict py fromisoformat received := by
  obtain ⟨bytes, hb, hl⟩ := Effects.bind_eq_ok hr
  unfold overWire
  simp only [hp, hb, hl, bind, Except.bind]

/-- A tick of the annotated types, with any of the optional fields set, comes off the wire
as it was sent if none of its texts has a lone surrogate. -/
theorem overWire_eq (ht : tick.Typed) (hc : tick.Clean) (hiso : tick.TimesRead fromisoformat)
    (hfloat : tick.FloatsRead py) : overWire py fromisoformat tick = .ok tick := by
  have hp := toDict_eq ht
  rw [overWire_ok hp (received_eq ht hc hiso hfloat hp), fromDict_wire ht hiso]

/-- What cannot be written is not sent. -/
theorem overWire_error {payload : PyMap} (hp : tick.toDict = .ok payload)
    (hno : ¬ ∃ bytes, dumpsMessage py (.dict payload) = .ok bytes) :
    ∃ exc, overWire py fromisoformat tick = .error exc := by
  cases hd : dumpsMessage py (.dict payload) with
  | error exc =>
    refine ⟨exc, ?_⟩
    unfold overWire
    simp only [hp, hd, bind, Except.bind]
  | ok bytes => exact absurd ⟨bytes, hd⟩ hno

/-- The interpreter knows two floats, 1.5 and the default 0. -/
def twoFloats : Interp := { Interp.ascii with
  floatRepr x := if x = .finite (3 / 2) then "1.5" else "0.0"
  floatOfText s := if s = u "1.5" then .finite (3 / 2) else .finite 0 }

def optionQuote : GatewayTick := fun f => match f with
  | .timestamp => .float (.finite (3 / 2))
  | .symbol => .str "SA701"
  | .eventTimeUtc => .datetime "2026-09-09T01:30:01+00:00"
  | .qualityFlags => .tuple [.str "late"]
  | f => f.declared.2.2.getD .none

theorem reads_twoFloats {c d e : Char} {q : ℚ} (hc : isDigit (ch c) = true)
    (ht : floatText twoFloats (.finite q) = [ch c, ch d, ch e])
    (hscan : ∀ rest, Delimited rest →
      scanNumber twoFloats false (ch c :: ch d :: ch e :: rest) = some (.float (.finite q), rest)) :
    Reads twoFloats (.finite q) :=
  ⟨false, ch c, [ch d, ch e], hc, by simpa using ht, hscan⟩

theorem overWire_eq_optionQuote :
    overWire twoFloats (fun iso => .ok (.datetime iso)) optionQuote = .ok optionQuote := by
  have hhalf : Reads twoFloats (.finite (3 / 2)) := by
    refine reads_twoFloats (c := '1') (d := '.') (e := '5') (by decide) (by decide +kernel) fun rest hr => ?_
    obtain rfl | ⟨c, s, rfl, rfl | rfl | rfl⟩ := hr.cases <;> rfl
  have hzero : Reads twoFloats (.finite 0) := by
    refine reads_twoFloats (c := '0') (d := '.') (e := '0') (by decide) (by decide +kernel) fun rest hr => ?_
    obtain rfl | ⟨c, s, rfl, rfl | rfl | rfl⟩ := hr.cases <;> rfl
  refine overWire_eq ?_ ?_ ?_ ?_
  · intro f
    cases f <;> rfl
  · intro f
    cases f <;> simp [optionQuote, textsOf, Field.declared, text?]
  · intro f iso hf
    cases f <;> cases hf
    exact ⟨by simp, scalar_u _, rfl⟩
  · intro f x hf
    cases f <;> cases hf <;> first | exact hhalf | exact hzero

/-- The symbol is a string, but UTF-8 has no bytes for it. -/
def surrogateSymbol : GatewayTick := Function.update optionQuote .symbol (.str [.surrogate 0])

theorem lone_surrogate_not_sent :
    surrogateSymbol.Typed ∧ ∃ exc,
      overWire twoFloats (fun iso => .ok (.datetime iso)) surrogateSymbol = .error exc := by
  have htyped : surrogateSymbol.Typed := by
    intro f
    cases f <;> decide +kernel
  refine ⟨htyped, ?_⟩
  have hno : ¬ ∃ bytes, dumpsMessage twoFloats (.dict (table fun f => isoText (surrogateSymbol f))) = .ok bytes := by
    rw [dumpsMessage_isOk, Protocol.Encodable, normalize_table, jsonable, jsonablePairs_iff]
    intro h
    have hsymbol := (h _ (List.mem_map_of_mem (mem_all .symbol))).2
    exact absurd hsymbol (by decide)
  exact overWire_error (toDict_eq htyped) hno

end GatewayTicks
