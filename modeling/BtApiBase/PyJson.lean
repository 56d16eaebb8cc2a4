import BtApiBase.PyValue

/-!
# Python's `json`

`dumps` with `ensure_ascii=False` and the separators `","` and `":"`, and
`loads`. What `dumps` can write, and UTF-8 can then encode, is `jsonable`: a
predicate on the value alone, so that a caller need not run the writer to know
whether it raises.
-/

namespace PyJson

open PyText PyDict PyValue

def ch (c : Char) : PyChar := .scalar c

/-! ## Writing -/

def hexDigit (n : Nat) : PyChar := ch (Nat.digitChar n)

/-- `json.encoder.ESCAPE_DCT` -/
def escape (c : PyChar) : PyStr :=
  if c = ch '"' then "\\\""
  else if c = ch '\\' then "\\\\"
  else if c = ch '\n' then "\\n"
  else if c = ch '\r' then "\\r"
  else if c = ch '\t' then "\\t"
  else if c.code = 12 then "\\f"
  else if c.code = 8 then "\\b"
  else if c.code < 32 then u "\\u00" ++ [hexDigit (c.code / 16), hexDigit (c.code % 16)]
  else [c]

def quote (s : PyStr) : PyStr := ch '"' :: s.flatMap escape ++ [ch '"']

def floatText (py : Interp) : PyFloat → PyStr
  | .nan => "NaN"
  | .inf negative => if negative then "-Infinity" else "Infinity"
  | x => py.floatRepr x

/-- The text of a dictionary key; only these types are accepted. -/
def keyText (py : Interp) : PyVal → Except PyExc PyStr
  | .str s => .ok s
  | .float x => .ok (floatText py x)
  | .bool b => .ok (if b then "true" else "false")
  | .none => .ok "null"
  | .int n => .ok (intText n)
  | _ => .error (typeError "keys must be str, int, float, bool or None")

mutual
def write (py : Interp) : PyVal → Except PyExc PyStr
  | .none => .ok "null"
  | .bool b => .ok (if b then "true" else "false")
  | .int n => .ok (intText n)
  | .float x => .ok (floatText py x)
  | .str s => .ok (quote s)
  | .list xs | .tuple xs => do .ok (ch '[' :: (← writeItems py xs) ++ [ch ']'])
  | .dict items => do .ok (ch '\x7b' :: (← writePairs py items) ++ [ch '\x7d'])
  | _ => .error (typeError "object is not JSON serializable")
/-- The items with a comma after each but the last. -/
def writeItems (py : Interp) : List PyVal → Except PyExc PyStr
  | [] => .ok []
  | x :: xs => do
    let first ← write py x
    let rest ← writeItems py xs
    .ok (first ++ (if xs.isEmpty then [] else [ch ',']) ++ rest)
def writePairs (py : Interp) : List (PyVal × PyVal) → Except PyExc PyStr
  | [] => .ok []
  | (k, v) :: items => do
    let key ← keyText py k
    let value ← write py v
    let rest ← writePairs py items
    .ok (quote key ++ [ch ':'] ++ value ++ (if items.isEmpty then [] else [ch ',']) ++ rest)
end

/-- `json.dumps(v, ensure_ascii=False, separators=(",", ":")).encode("utf-8")` -/
def dumps (py : Interp) (v : PyVal) : Except PyExc Bytes := do
  match encode (← write py v) with
  | some bytes => .ok bytes
  | none => .error ⟨.unicodeEncodeError, "'utf-8' codec can't encode: surrogates not allowed"⟩

/-! ## What can be written -/

def keyOk : PyVal → Bool
  | .str s => decide (Scalar s)
  | .float _ | .bool _ | .none | .int _ => true
  | _ => false

mutual
/-- The types that JSON has, at every depth, and no lone surrogate in a text. -/
def jsonable : PyVal → Bool
  | .none | .bool _ | .int _ | .float _ => true
  | .str s => decide (Scalar s)
  | .list xs | .tuple xs => jsonableItems xs
  | .dict items => jsonablePairs items
  | _ => false
def jsonableItems : List PyVal → Bool
  | [] => true
  | x :: xs => jsonable x && jsonableItems xs
def jsonablePairs : List (PyVal × PyVal) → Bool
  | [] => true
  | (k, v) :: items => keyOk k && jsonable v && jsonablePairs items
end

@[simp] theorem scalar_ch (c : Char) : Scalar [ch c] := by simp [ch]

theorem escape_surrogate (n : Fin 2048) : escape (.surrogate n) = [.surrogate n] := by
  have h : ∀ k, k ≤ 32 → ¬ 0xD800 + n.val < k := by omega
  have h' : ∀ k, k ≤ 32 → 0xD800 + n.val ≠ k := by omega
  simp [escape, ch, PyChar.code, h, h']

theorem scalar_escape (c : PyChar) : Scalar (escape c) ↔ Scalar [c] := by
  cases c with
  | scalar c =>
    unfold escape
    split_ifs <;> simp [hexDigit, ch]
  | surrogate n => rw [escape_surrogate]

theorem scalar_quote (s : PyStr) : Scalar (quote s) ↔ Scalar s := by
  have h : Scalar (s.flatMap escape) ↔ Scalar s := by
    induction s with
    | nil => simp
    | cons c s ih =>
      rw [List.flatMap_cons, scalar_append, scalar_escape, ih]
      simp
  simp [quote, h, ch]

theorem scalar_floatText (py : Interp) (x : PyFloat) : Scalar (floatText py x) := by
  cases x <;> simp only [floatText] <;> first | exact scalar_u _ | (split <;> exact scalar_u _)

theorem keyText_iff (py : Interp) (k : PyVal) :
    (∃ t, keyText py k = .ok t ∧ Scalar t) ↔ keyOk k = true := by
  cases k <;> simp [keyText, keyOk, scalar_floatText]
  split <;> simp

mutual
theorem write_iff (py : Interp) :
    ∀ v, (∃ t, write py v = .ok t ∧ Scalar t) ↔ jsonable v = true
  | .none => by simp [write, jsonable]
  | .bool b => by cases b <;> simp [write, jsonable]
  | .int n => by simp [write, jsonable]
  | .float x => by simp [write, jsonable, scalar_floatText]
  | .str s => by simp [write, jsonable, scalar_quote]
  | .list xs | .tuple xs => by
    rw [write, jsonable, ← writeItems_iff py xs]
    cases writeItems py xs <;> simp [bind, Except.bind, ch]
  | .dict items => by
    rw [write, jsonable, ← writePairs_iff py items]
    cases writePairs py items <;> simp [bind, Except.bind, ch]
  | .bytes _ | .set _ | .dataclass _ | .datetime _ | .enum _ _ | .object _ _ _ => by
    simp [write, jsonable]
theorem writeItems_iff (py : Interp) :
    ∀ xs, (∃ t, writeItems py xs = .ok t ∧ Scalar t) ↔ jsonableItems xs = true
  | [] => by simp [writeItems, jsonableItems]
  | x :: xs => by
    rw [writeItems, jsonableItems, Bool.and_eq_true, ← write_iff py x, ← writeItems_iff py xs]
    cases write py x <;> cases writeItems py xs <;> simp [bind, Except.bind]
    split <;> simp [ch]
theorem writePairs_iff (py : Interp) :
    ∀ items, (∃ t, writePairs py items = .ok t ∧ Scalar t) ↔ jsonablePairs items = true
  | [] => by simp [writePairs, jsonablePairs]
  | (k, v) :: items => by
    rw [writePairs, jsonablePairs, Bool.and_eq_true, Bool.and_eq_true, ← keyText_iff py k,
      ← write_iff py v, ← writePairs_iff py items]
    cases keyText py k <;> cases write py v <;> cases writePairs py items <;>
      simp [bind, Except.bind, scalar_quote]
    split <;> simp [ch, and_assoc]
end

theorem jsonablePairs_iff (items : PyMap) :
    jsonablePairs items = true ↔ ∀ kv ∈ items, keyOk kv.1 = true ∧ jsonable kv.2 = true := by
  induction items with
  | nil => simp [jsonablePairs]
  | cons kv items ih => simp [jsonablePairs, ih]

theorem dumps_isOk (py : Interp) (v : PyVal) :
    (∃ bytes, dumps py v = .ok bytes) ↔ jsonable v = true := by
  rw [← write_iff py v, dumps]
  cases write py v with
  | error e => simp [bind, Except.bind]
  | ok t =>
    simp only [bind, Except.bind, Except.ok.injEq, exists_eq_left', ← encode_isSome]
    cases encode t <;> simp

/-! ## Reading -/

def isJsonSpace (c : PyChar) : Bool := c = ch ' ' || c = ch '\t' || c = ch '\n' || c = ch '\r'

def isDigit (c : PyChar) : Bool := 48 ≤ c.code && c.code ≤ 57

def hexValue (c : PyChar) : Option Nat :=
  let n := c.code
  if 48 ≤ n && n ≤ 57 then some (n - 48)
  else if 65 ≤ n && n ≤ 70 then some (n - 55)
  else if 97 ≤ n && n ≤ 102 then some (n - 87)
  else none

/-- Four hexadecimal digits and what follows them. -/
def hex4 : PyStr → Option (Nat × PyStr)
  | a :: b :: c :: d :: rest => do
    some (((← hexValue a) * 16 + (← hexValue b)) * 256 + (← hexValue c) * 16 + (← hexValue d), rest)
  | _ => none

def charOfCode (n : Nat) : PyChar :=
  if h : 0xD800 ≤ n ∧ n < 0xE000 then .surrogate ⟨n - 0xD800, by omega⟩ else ch (Char.ofNat n)

/-- The character of a `\u` escape: two surrogates that belong together are one. -/
def unicodeEscape (s : PyStr) : Option (PyChar × PyStr) := do
  let (n, rest) ← hex4 s
  if 0xD800 ≤ n ∧ n < 0xDC00 then
    match rest with
    | .scalar '\\' :: .scalar 'u' :: more =>
      let (m, after) ← hex4 more
      if 0xDC00 ≤ m ∧ m < 0xE000 then
        some (ch (Char.ofNat (0x10000 + (n - 0xD800) * 1024 + (m - 0xDC00))), after)
      else some (charOfCode n, rest)
    | _ => some (charOfCode n, rest)
  else some (charOfCode n, rest)

def simpleEscape (c : PyChar) : Option PyChar :=
  if c = ch '"' ∨ c = ch '\\' ∨ c = ch '/' then some c
  else if c = ch 'b' then some (charOfCode 8)
  else if c = ch 'f' then some (charOfCode 12)
  else if c = ch 'n' then some (ch '\n')
  else if c = ch 'r' then some (ch '\r')
  else if c = ch 't' then some (ch '\t')
  else none

/-- The character after a backslash. -/
def scanEscape : PyStr → Option (PyChar × PyStr)
  | [] => none
  | e :: rest =>
    if e = ch 'u' then unicodeEscape rest else (simpleEscape e).map (·, rest)

/-- The rest of a string after its opening quote. -/
def scanString : Nat → PyStr → Option (PyStr × PyStr)
  | 0, _ | _, [] => none
  | fuel + 1, c :: rest =>
    if c = ch '"' then some ([], rest)
    else if c.code < 32 then none
    else do
      let (c, rest) ← if c = ch '\\' then scanEscape rest else some (c, rest)
      let (s, rest) ← scanString fuel rest
      some (c :: s, rest)

def natOfDigits (s : PyStr) : Nat := s.foldl (fun n c => 10 * n + (c.code - 48)) 0

/-- The fraction and the exponent of a number, each empty if it is not there. -/
def scanFraction (s : PyStr) : PyStr × PyStr :=
  match s with
  | .scalar '.' :: rest =>
    match rest.span isDigit with
    | ([], _) => ([], s)
    | (digits, rest) => (ch '.' :: digits, rest)
  | _ => ([], s)

def scanExponent (s : PyStr) : PyStr × PyStr :=
  match s with
  | e :: rest =>
    if e = ch 'e' ∨ e = ch 'E' then
      let (sign, rest) := match rest with
        | .scalar '+' :: rest => ([ch '+'], rest)
        | .scalar '-' :: rest => ([ch '-'], rest)
        | _ => ([], rest)
      match rest.span isDigit with
      | ([], _) => ([], s)
      | (digits, rest) => (e :: sign ++ digits, rest)
    else ([], s)
  | [] => ([], s)

/-- A number without its sign: a zero is not followed by digits. -/
def scanNumber (py : Interp) (negative : Bool) (s : PyStr) : Option (PyVal × PyStr) :=
  let (digits, rest) := match s with
    | .scalar '0' :: rest => ([ch '0'], rest)
    | _ => s.span isDigit
  if digits.isEmpty then none
  else
    let (fraction, rest) := scanFraction rest
    let (exponent, rest) := scanExponent rest
    let sign : PyStr := if negative then "-" else ""
    if fraction.isEmpty && exponent.isEmpty then
      some (.int (if negative then -natOfDigits digits else natOfDigits digits), rest)
    else some (.float (py.floatOfText (sign ++ digits ++ fraction ++ exponent)), rest)

def words : List (String × PyVal) :=
  [("null", .none), ("true", .bool true), ("false", .bool false), ("NaN", .float .nan),
    ("Infinity", .float (.inf false)), ("-Infinity", .float (.inf true))]

def scanWord (s : PyStr) : Option (PyVal × PyStr) :=
  (words.find? fun w => (u w.1).isPrefixOf s).map fun w => (w.2, s.drop w.1.length)

def skip (s : PyStr) : PyStr := s.dropWhile isJsonSpace

mutual
def scanOnce (py : Interp) : Nat → PyStr → Option (PyVal × PyStr)
  | 0, _ | _, [] => none
  | fuel + 1, c :: rest =>
    if c = ch '"' then (scanString (rest.length + 1) rest).map fun (s, rest) => (.str s, rest)
    else if c = ch '[' then
      match skip rest with
      | .scalar ']' :: rest => some (.list [], rest)
      | rest => (scanItems py fuel rest).map fun (xs, rest) => (.list xs, rest)
    else if c = ch '\x7b' then
      match skip rest with
      | .scalar '\x7d' :: rest => some (.dict [], rest)
      | rest => (scanPairs py fuel [] rest).map fun (d, rest) => (.dict d, rest)
    else if c = ch '-' then scanWord (c :: rest) <|> scanNumber py true rest
    else scanWord (c :: rest) <|> scanNumber py false (c :: rest)
def scanItems (py : Interp) : Nat → PyStr → Option (List PyVal × PyStr)
  | 0, _ => none
  | fuel + 1, s => do
    let (x, rest) ← scanOnce py fuel s
    match skip rest with
    | .scalar ']' :: rest => some ([x], rest)
    | .scalar ',' :: rest => do
      let (xs, rest) ← scanItems py fuel (skip rest)
      some (x :: xs, rest)
    | _ => none
/-- A repeated key keeps its first place and takes the last value. -/
def scanPairs (py : Interp) : Nat → PyMap → PyStr → Option (PyMap × PyStr)
  | fuel + 1, d, .scalar '"' :: s => do
    let (key, rest) ← scanString (s.length + 1) s
    match skip rest with
    | .scalar ':' :: rest => do
      let (v, rest) ← scanOnce py fuel (skip rest)
      match skip rest with
      | .scalar '\x7d' :: rest => some (d.set key v, rest)
      | .scalar ',' :: rest => scanPairs py fuel (d.set key v) (skip rest)
      | _ => none
    | _ => none
  | _, _, _ => none
end

/-- `json.loads` of a text; a nesting is shorter than the text. -/
def loads (py : Interp) (s : PyStr) : Except PyExc PyVal :=
  match scanOnce py (2 * s.length + 2) (skip s) with
  | some (v, rest) =>
    if (skip rest).isEmpty then .ok v else .error ⟨.jsonDecodeError, "Extra data"⟩
  | none => .error ⟨.jsonDecodeError, "Expecting value"⟩

example : (loads .ascii "\x7b\"a\": [1, -2]\x7d").toOption.map truthy = some true := by decide +kernel

end PyJson
