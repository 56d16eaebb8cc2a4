import BtApiBase.JsonLimits

/-!
# The wire format

`_normalize` turns the values a third party may return into the ones `json`
knows, as far as it goes: what it leaves alone (bytes, sets, objects, the value
of an enumeration member) still makes `dumps_message` raise.
-/

namespace Protocol

open PyText PyDict PyValue PyJson

def CHANNEL_EVENT : PyStr := "event"
def CHANNEL_MARKET : PyStr := "market"

mutual
/-- `dataclasses._asdict_inner`: a data class is a dictionary of its fields, at
every depth that lists, tuples and dictionaries reach. -/
def asdictInner : PyVal → PyVal
  | .dataclass fields => .dict (asdictFields fields)
  | .list xs => .list (asdictItems xs)
  | .tuple xs => .tuple (asdictItems xs)
  | .dict items => .dict (asdictPairs items)
  | v => v
def asdictFields : List (PyStr × PyVal) → PyMap
  | [] => []
  | (name, v) :: fields => (.str name, asdictInner v) :: asdictFields fields
def asdictItems : List PyVal → List PyVal
  | [] => []
  | x :: xs => asdictInner x :: asdictItems xs
def asdictPairs : PyMap → PyMap
  | [] => []
  | (k, v) :: items => (k, asdictInner v) :: asdictPairs items
end

mutual
/-- The fields of a data class are normalized one by one, which is what
normalizing `asdict` of it comes to: see `_normalize_asdictInner`. -/
def _normalize (py : Interp) : PyVal → PyVal
  | .dataclass fields => .dict (PyMap.update [] (normalizeFields py fields))
  | .dict items => .dict (PyMap.update [] (normalizePairs py items))
  | .list xs => .list (normalizeItems py xs)
  | .tuple xs => .list (normalizeItems py xs)
  | .datetime iso => .str iso
  | .enum _ value => value
  | v => v
def normalizeFields (py : Interp) : List (PyStr × PyVal) → List (PyStr × PyVal)
  | [] => []
  | (name, v) :: fields => (name, _normalize py v) :: normalizeFields py fields
def normalizeItems (py : Interp) : List PyVal → List PyVal
  | [] => []
  | x :: xs => _normalize py x :: normalizeItems py xs
/-- `{str(key): _normalize(item) for ...}`, before equal keys fall together. -/
def normalizePairs (py : Interp) : PyMap → List (PyStr × PyVal)
  | [] => []
  | (k, v) :: items => (py.str k, _normalize py v) :: normalizePairs py items
end

mutual
theorem _normalize_asdictInner (py : Interp) :
    ∀ v, _normalize py (asdictInner v) = _normalize py v
  | .dataclass fields => by
    rw [asdictInner, _normalize, _normalize, normalizePairs_asdictFields py fields]
  | .list xs | .tuple xs => by
    rw [asdictInner, _normalize, _normalize, normalizeItems_asdictItems py xs]
  | .dict items => by
    rw [asdictInner, _normalize, _normalize, normalizePairs_asdictPairs py items]
  | .none | .bool _ | .int _ | .float _ | .str _ | .bytes _ | .set _ | .datetime _ | .enum _ _
  | .object _ _ _ => rfl
theorem normalizePairs_asdictFields (py : Interp) :
    ∀ fields, normalizePairs py (asdictFields fields) = normalizeFields py fields
  | [] => rfl
  | (name, v) :: fields => by
    rw [asdictFields, normalizePairs, normalizeFields, _normalize_asdictInner py v,
      normalizePairs_asdictFields py fields, Interp.str_str]
theorem normalizeItems_asdictItems (py : Interp) :
    ∀ xs, normalizeItems py (asdictItems xs) = normalizeItems py xs
  | [] => rfl
  | x :: xs => by
    rw [asdictItems, normalizeItems, normalizeItems, _normalize_asdictInner py x,
      normalizeItems_asdictItems py xs]
theorem normalizePairs_asdictPairs (py : Interp) :
    ∀ items, normalizePairs py (asdictPairs items) = normalizePairs py items
  | [] => rfl
  | (k, v) :: items => by
    rw [asdictPairs, normalizePairs, normalizePairs, _normalize_asdictInner py v,
      normalizePairs_asdictPairs py items]
end

def dumpsMessage (py : Interp) (payload : PyVal) : Except PyExc Bytes :=
  dumps py (_normalize py payload)

/-- `json.loads(payload.decode("utf-8"))` -/
def loadsMessage (py : Interp) (payload : Bytes) : Except PyExc PyVal :=
  match decode payload with
  | some text => loads py text
  | none => .error ⟨.unicodeDecodeError, "'utf-8' codec can't decode"⟩

/-- `dumps_message` in an interpreter with limits. -/
def dumpsMessageWithin (limits : Limits) (py : Interp) (payload : PyVal) : Except PyExc Bytes :=
  within (limits.writing payload) (dumpsMessage py payload)

/-- `loads_message` in an interpreter with limits. -/
def loadsMessageWithin (limits : Limits) (py : Interp) (payload : Bytes) : Except PyExc PyVal :=
  match decode payload with
  | some text => loadsWithin limits py text
  | none => .error ⟨.unicodeDecodeError, "'utf-8' codec can't decode"⟩

/-- What `dumps_message` writes without raising. -/
def Encodable (py : Interp) (payload : PyVal) : Prop := jsonable (_normalize py payload) = true

instance (py : Interp) (payload : PyVal) : Decidable (Encodable py payload) :=
  inferInstanceAs (Decidable (_ = true))

theorem dumpsMessage_isOk (py : Interp) (payload : PyVal) :
    (∃ bytes, dumpsMessage py payload = .ok bytes) ↔ Encodable py payload :=
  dumps_isOk py _

/-- What it writes also where the interpreter has limits. -/
structure EncodableWithin (limits : Limits) (py : Interp) (payload : PyVal) : Prop where
  limit : limits.writing payload = none
  encodable : Encodable py payload

theorem encodableWithin_iff {limits : Limits} {py : Interp} {payload : PyVal} :
    EncodableWithin limits py payload ↔ limits.writing payload = none ∧ Encodable py payload :=
  ⟨fun h => ⟨h.limit, h.encodable⟩, fun h => ⟨h.1, h.2⟩⟩

instance (limits : Limits) (py : Interp) (payload : PyVal) : Decidable (EncodableWithin limits py payload) :=
  decidable_of_iff _ encodableWithin_iff.symm

theorem dumpsMessageWithin_isOk (limits : Limits) (py : Interp) (payload : PyVal) :
    (∃ bytes, dumpsMessageWithin limits py payload = .ok bytes) ↔ EncodableWithin limits py payload := by
  rw [dumpsMessageWithin, within_isOk, dumpsMessage_isOk, encodableWithin_iff]

@[simp] theorem encodable_str (py : Interp) (s : PyStr) : Encodable py (.str s) ↔ Scalar s := by
  simp [Encodable, _normalize, jsonable]

/-- A message with distinct keys can be written if each of its fields can. -/
theorem encodable_fields (py : Interp) (items : List (PyStr × PyVal))
    (hn : (items.map Prod.fst).Nodup) (hs : ∀ kv ∈ items, Scalar kv.1) :
    Encodable py (.dict (items.map fun kv => (.str kv.1, kv.2))) ↔
      ∀ kv ∈ items, Encodable py kv.2 := by
  have hp : ∀ l : List (PyStr × PyVal),
      normalizePairs py (l.map fun kv => (.str kv.1, kv.2)) =
        l.map fun kv => (kv.1, _normalize py kv.2) := by
    intro l
    induction l with
    | nil => rfl
    | cons kv l ih => simp [normalizePairs, ih]
  have hd : ∀ kv ∈ items.map fun kv => (kv.1, _normalize py kv.2),
      PyMap.contains [] kv.1 = false := by simp [PyMap.contains]
  rw [Encodable, _normalize, hp, PyMap.update_of_new hd (by simpa [Function.comp_def] using hn),
    jsonable, List.nil_append, jsonablePairs_iff]
  simp only [List.mem_map, forall_exists_index, and_imp, forall_apply_eq_imp_iff₂]
  refine forall₂_congr fun kv hkv => ?_
  simp [keyOk, hs kv hkv, Encodable]

end Protocol
