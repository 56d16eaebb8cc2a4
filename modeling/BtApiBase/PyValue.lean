import Mathlib
import BtApiBase.PyText
import BtApiBase.PyDict

/-!
# Python values

The values a JSON document, a caller or a third-party object can hand over,
the exceptions that travel with them and the built-in conversions. `Interp`
collects what the interpreter decides and the programs only pass on: case
tables, digit tables and the text of composite values. A value is a finite
tree, so the recursion limit and other resource limits are not modelled.
-/

namespace PyValue

open PyText PyDict

/-- An exact finite value, or one of the floats off the number line. -/
inductive PyFloat where
  | finite (q : Rat)
  | negZero
  | inf (negative : Bool)
  | nan
  deriving DecidableEq, Repr

/-- `object` is an instance of any other class, known by its identity. -/
inductive PyVal where
  | none
  | bool (b : Bool)
  | int (n : Int)
  | float (x : PyFloat)
  | str (s : PyStr)
  | bytes (b : Bytes)
  | list (xs : List PyVal)
  | tuple (xs : List PyVal)
  | set (xs : List PyVal)
  | dict (items : List (PyVal × PyVal))
  | dataclass (fields : List (PyStr × PyVal))
  | datetime (iso : PyStr)
  | enum (name : PyStr) (value : PyVal)
  | object (cls : PyStr) (id : Nat) (truthy : Bool)
  deriving Repr

instance : Inhabited PyVal := ⟨.none⟩

inductive ExcType where
  | typeError | valueError | unicodeDecodeError | unicodeEncodeError | jsonDecodeError
  | attributeError | runtimeError | overflowError | osError | zmqError
  | other (name : String)
  deriving DecidableEq, Repr

/-- `issubclass`, for the classes that `except` clauses name. -/
def ExcType.isA (t s : ExcType) : Bool :=
  t == s || match t, s with
    | .unicodeDecodeError, .valueError => true
    | .unicodeEncodeError, .valueError => true
    | .jsonDecodeError, .valueError => true
    | _, _ => false

def ExcType.name : ExcType → String
  | .typeError => "TypeError"
  | .valueError => "ValueError"
  | .unicodeDecodeError => "UnicodeDecodeError"
  | .unicodeEncodeError => "UnicodeEncodeError"
  | .jsonDecodeError => "JSONDecodeError"
  | .attributeError => "AttributeError"
  | .runtimeError => "RuntimeError"
  | .overflowError => "OverflowError"
  | .osError => "OSError"
  | .zmqError => "ZMQError"
  | .other name => name

/-- An instance of `Exception`: its class and what `str` makes of it. -/
structure PyExc where
  type : ExcType
  text : PyStr
  deriving DecidableEq, Repr

/-- A dictionary as it travels inside a value; keys are compared by `key?`. -/
abbrev PyMap := List (PyVal × PyVal)

structure Interp where
  lower : PyStr → PyStr
  upper : PyStr → PyStr
  isalnum : PyChar → Bool
  /-- `str` of a value that is not a string, an integer, a boolean or `None`. -/
  repr : PyVal → PyStr
  floatRepr : PyFloat → String
  /-- The double nearest to a decimal literal. -/
  floatOfText : PyStr → PyFloat
  /-- `round(x, 2)` -/
  round2 : Rat → PyFloat
  intOfText : PyStr → Option Int
  /-- What `dict` makes of an instance of another class. -/
  dictOfObject : PyStr → Nat → Option PyMap
  /-- What `int` makes of an instance of another class that has an `__int__`. -/
  intOfObject : PyVal → Option Int

/-- The interpreter on ASCII text, for runs on fixed inputs. -/
def Interp.ascii : Interp where
  lower := List.map fun
    | .scalar c => .scalar c.toLower
    | c => c
  upper := List.map fun
    | .scalar c => .scalar c.toUpper
    | c => c
  isalnum
    | .scalar c => c.isAlphanum
    | .surrogate _ => false
  repr _ := []
  floatRepr _ := ""
  floatOfText _ := .nan
  round2 q := .finite q
  intOfText s := if s.isEmpty then none else s.foldlM (fun n c => match c with
    | .scalar c => if c.isDigit then some (10 * n + (c.toNat - 48)) else none
    | .surrogate _ => none) 0
  dictOfObject _ _ := none
  intOfObject _ := none

/-! ## Truth and text -/

def truthy : PyVal → Bool
  | .none => false
  | .bool b => b
  | .int n => n != 0
  | .float (.finite q) => q != 0
  | .float .negZero => false
  | .float _ => true
  | .str s => s != []
  | .bytes b => b != []
  | .list xs => !xs.isEmpty
  | .tuple xs => !xs.isEmpty
  | .set xs => !xs.isEmpty
  | .dict items => !items.isEmpty
  | .dataclass _ => true
  | .datetime _ => true
  | .enum _ _ => true
  | .object _ _ t => t

/-- `a or b` -/
def orElse (a b : PyVal) : PyVal := if truthy a then a else b

def intText (n : Int) : PyStr := u (toString n)

theorem intText_injective {m n : Int} (h : intText m = intText n) : m = n :=
  Int.repr_inj.mp (u_injective h)

theorem intText_ne_nil (n : Int) : intText n ≠ [] := by
  intro h
  have he : n.repr = "" := (u_eq_nil _).mp h
  cases n <;> simp [Int.repr] at he

@[simp] theorem scalar_intText (n : Int) : Scalar (intText n) := scalar_u _

def Interp.str (py : Interp) : PyVal → PyStr
  | .str s => s
  | .int n => intText n
  | .bool b => if b then "True" else "False"
  | .none => "None"
  | v => py.repr v

@[simp] theorem Interp.str_str (py : Interp) (s : PyStr) : py.str (.str s) = s := rfl

@[simp] theorem truthy_str (s : PyStr) : truthy (.str s) = true ↔ s ≠ [] := by simp [truthy]

/-! ## Dictionaries -/

def isStr (k : PyStr) : PyVal → Bool
  | .str s => s == k
  | _ => false

@[simp] theorem isStr_str (k s : PyStr) : isStr k (.str s) = (s == k) := rfl

theorem isStr_disjoint {j k : PyStr} (h : j ≠ k) (x : PyVal) (hx : isStr k x = true) :
    isStr j x = false := by
  cases x with
  | str s =>
    have hs : s = k := by simpa using hx
    simpa [hs] using h.symm
  | _ => rfl

namespace PyMap

/-- `d.get(k)`, which gives `None` for a missing key. -/
def get (d : PyMap) (k : PyStr) : PyVal := (find (isStr k) d).getD .none

def contains (d : PyMap) (k : PyStr) : Bool := (find (isStr k) d).isSome

/-- `d.get(k, default)` -/
def getOr (d : PyMap) (k : PyStr) (default : PyVal) : PyVal := (find (isStr k) d).getD default

def set (d : PyMap) (k : PyStr) (v : PyVal) : PyMap := put (isStr k) (.str k) v d

def setdefault (d : PyMap) (k : PyStr) (v : PyVal) : PyMap :=
  if contains d k then d else set d k v

/-- `d.update(other)`, for string keys. -/
def update (d : PyMap) (items : List (PyStr × PyVal)) : PyMap :=
  items.foldl (fun d kv => set d kv.1 kv.2) d

@[simp] theorem get_nil (k : PyStr) : get [] k = .none := rfl

theorem get_set (d : PyMap) (k j : PyStr) (v : PyVal) :
    get (set d k v) j = if j = k then v else get d j := by
  split
  · next h => subst h; simp [get, set, find_put_same]
  · next h =>
    rw [get, set, find_put_other (fun x hx => isStr_disjoint h x hx) (by simp), ← get]

@[simp] theorem get_set_same (d : PyMap) (k : PyStr) (v : PyVal) : get (set d k v) k = v := by
  simp [get_set]

theorem get_set_other (d : PyMap) {k j : PyStr} (v : PyVal) (h : j ≠ k) :
    get (set d k v) j = get d j := by simp [get_set, h]

theorem getOr_eq (d : PyMap) (k : PyStr) (default : PyVal) :
    getOr d k default = if contains d k then get d k else default := by
  cases h : find (isStr k) d <;> simp [getOr, contains, get, h]

theorem contains_set (d : PyMap) (k j : PyStr) (v : PyVal) :
    contains (set d k v) j = (j == k || contains d j) := by
  by_cases h : j = k
  · subst h; simp [contains, set, find_put_same]
  · simp [contains, set, find_put_other (fun x hx => isStr_disjoint h x hx), h]

theorem put_of_find_eq_none {p : PyVal → Bool} {d : PyMap} (h : find p d = none) (k v : PyVal) :
    put p k v d = d ++ [(k, v)] := by
  induction d with
  | nil => rfl
  | cons kv d ih =>
    by_cases hk : p kv.1 = true
    · simp [find, hk] at h
    · simp only [find, hk, Bool.false_eq_true, ↓reduceIte] at h
      simp [put, hk, ih h]

/-- New keys, each given once, are appended in their order. -/
theorem update_of_new {d : PyMap} {items : List (PyStr × PyVal)}
    (hd : ∀ kv ∈ items, contains d kv.1 = false) (hn : (items.map Prod.fst).Nodup) :
    update d items = d ++ items.map fun kv => (.str kv.1, kv.2) := by
  induction items generalizing d with
  | nil => simp [update]
  | cons kv items ih =>
    obtain ⟨hkv, hn⟩ := List.nodup_cons.mp hn
    have hset : set d kv.1 kv.2 = d ++ [(.str kv.1, kv.2)] := by
      refine put_of_find_eq_none ?_ _ _
      simpa [contains] using hd kv (by simp)
    have hstep : update d (kv :: items) = update (set d kv.1 kv.2) items := rfl
    rw [hstep, ih ?_ hn, hset]
    · simp
    · intro kv' h'
      have hne : kv'.1 ≠ kv.1 := fun he => hkv (he ▸ List.mem_map_of_mem h')
      rw [contains_set, hd kv' (by simp [h'])]
      simpa using hne

end PyMap

/-! ## Keys -/

/-- A hashable value flattened so that equal keys are the same list: the
numeric types share `num`, and a tuple is bracketed. -/
inductive Atom where
  | none
  | num (q : Rat)
  | inf (negative : Bool)
  | nan
  | str (s : PyStr)
  | bytes (b : Bytes)
  | opening
  | closing
  | instant (iso : PyStr)
  | member (name : PyStr)
  | object (id : Nat)
  deriving DecidableEq, Repr

abbrev PyKey := List Atom

mutual
/-- `none` for an unhashable value. -/
def key? : PyVal → Option PyKey
  | .none => some [.none]
  | .bool b => some [.num (if b then 1 else 0)]
  | .int n => some [.num n]
  | .float (.finite q) => some [.num q]
  | .float .negZero => some [.num 0]
  | .float (.inf negative) => some [.inf negative]
  | .float .nan => some [.nan]
  | .str s => some [.str s]
  | .bytes b => some [.bytes b]
  | .tuple xs => (keys? xs).map fun ks => .opening :: ks ++ [.closing]
  | .datetime iso => some [.instant iso]
  | .enum name _ => some [.member name]
  | .object _ id _ => some [.object id]
  | .list _ | .set _ | .dict _ | .dataclass _ => Option.none
def keys? : List PyVal → Option PyKey
  | [] => some []
  | x :: xs => match key? x, keys? xs with
    | some k, some ks => some (k ++ ks)
    | _, _ => Option.none
end

def typeError (text : String) : PyExc := ⟨.typeError, u text⟩
def valueError (text : String) : PyExc := ⟨.valueError, u text⟩

/-- `d[k] = v` for any key. -/
def assign (d : PyMap) (k v : PyVal) : Except PyExc PyMap :=
  match key? k with
  | Option.none => .error (typeError "unhashable type")
  | some key => .ok (put (fun j => key? j == some key) k v d)

/-! ## Iteration and conversion -/

/-- `iter(v)`, run to its end. -/
def iter : PyVal → Except PyExc (List PyVal)
  | .list xs | .tuple xs | .set xs => .ok xs
  | .dict items => .ok (items.map Prod.fst)
  | .str s => .ok (s.map fun c => .str [c])
  | .bytes b => .ok (b.map fun x => .int x.toNat)
  | _ => .error (typeError "object is not iterable")

/-- One element of the sequence that `dict` is built from. -/
def addPair (d : PyMap) (element : PyVal) : Except PyExc PyMap := do
  match ← iter element with
  | [k, v] => assign d k v
  | _ => .error (valueError "dictionary update sequence element has wrong length; 2 is required")

/-- `dict(v)` -/
def Interp.dict (py : Interp) : PyVal → Except PyExc PyMap
  | .dict items => .ok items
  | .object cls id _ => match py.dictOfObject cls id with
    | some items => .ok items
    | Option.none => .error (typeError "object is not iterable")
  | v => do (← iter v).foldlM addPair []

def notAnInt : PyExc := typeError "int() argument must be a string, a bytes-like object or a real number"

/-- `int` of a text, or of bytes that are the text `s` if they are ASCII. -/
def Interp.intLiteral (py : Interp) (v : PyVal) (s : Option PyStr) : Except PyExc Int :=
  match s.bind py.intOfText with
  | some n => .ok n
  | Option.none => .error ⟨.valueError, "invalid literal for int() with base 10: " ++ py.repr v⟩

def asciiText (b : Bytes) : Option PyStr :=
  if b.all (· < 128) then some (b.map fun x => .scalar (Char.ofNat x.toNat)) else Option.none

/-- `int(v)` -/
def Interp.int (py : Interp) : PyVal → Except PyExc Int
  | .bool b => .ok (if b then 1 else 0)
  | .int n => .ok n
  | .float (.finite q) => .ok (q.num.tdiv q.den)
  | .float .negZero => .ok 0
  | .float (.inf _) => .error ⟨.overflowError, "cannot convert float infinity to integer"⟩
  | .float .nan => .error (valueError "cannot convert float NaN to integer")
  | .str s => py.intLiteral (.str s) (some s)
  | .bytes b => py.intLiteral (.bytes b) (asciiText b)
  | .none | .list _ | .tuple _ | .set _ | .dict _ => .error notAnInt
  | v => match py.intOfObject v with
    | some n => .ok n
    | Option.none => .error notAnInt

def text? : PyVal → Option PyStr
  | .str s => some s
  | _ => Option.none

/-- The place among the numbers; NaN has none. -/
def number? : PyVal → Option (WithBot (WithTop Rat))
  | .bool b => some ((if b then (1 : Rat) else 0 : Rat) : WithTop Rat)
  | .int n => some ((n : Rat) : WithTop Rat)
  | .float (.finite q) => some (q : WithTop Rat)
  | .float .negZero => some ((0 : Rat) : WithTop Rat)
  | .float (.inf negative) => some (if negative then ⊥ else ((⊤ : WithTop Rat) : WithBot (WithTop Rat)))
  | _ => Option.none

def leText (a b : PyVal) : Prop := match text? a, text? b with
  | some s, some t => before t s = false
  | _, _ => True

def leNumber (a b : PyVal) : Prop := match number? a, number? b with
  | some p, some q => p ≤ q
  | _, _ => True

instance : DecidableRel leText := fun a b => by
  unfold leText; split <;> infer_instance

instance : DecidableRel leNumber := fun a b => by
  unfold leNumber; split <;> infer_instance

/-- Values that `<` compares with every number. -/
def isNumber : PyVal → Bool
  | .bool _ | .int _ | .float _ => true
  | _ => false

/-- `sorted(xs)`: sorting two or more values compares some pair of each two
kinds present, and only strings or only numbers compare. -/
def sorted (xs : List PyVal) : Except PyExc (List PyVal) :=
  if xs.length ≤ 1 then .ok xs
  else if xs.all fun x => (text? x).isSome then .ok (xs.insertionSort leText)
  else if xs.all isNumber then .ok (xs.insertionSort leNumber)
  else .error (typeError "'<' not supported between instances")

example : (sorted [.str "b", .str "a"]).toOption = some [.str "a", .str "b"] := by rfl

end PyValue
