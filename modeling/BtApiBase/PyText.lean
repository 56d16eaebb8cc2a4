import Mathlib.Data.List.Basic

/-!
# Python text

A Python string is a sequence of code points in which lone surrogates may
stand: `json.loads` builds them from `\ud800` escapes, and only encoding the
string to UTF-8 notices. Lean's `Char` excludes them, so a character is either
a scalar value or one of the 2048 surrogates. Decoding bytes never yields a
surrogate.
-/

namespace PyText

inductive PyChar where
  | scalar (c : Char)
  | surrogate (n : Fin 2048)
  deriving DecidableEq, Repr

abbrev PyStr := List PyChar

instance : LawfulBEq PyStr := inferInstance

/-- The Python string of a Lean literal. -/
def u (s : String) : PyStr := s.toList.map .scalar

instance : Coe String PyStr := ⟨u⟩

theorem u_injective {s t : String} (h : u s = u t) : s = t := by
  have hl : s.toList = t.toList :=
    List.map_injective_iff.mpr (fun a b hab => by cases hab; rfl) h
  exact String.toList_injective hl

@[simp] theorem u_inj (s t : String) : u s = u t ↔ s = t :=
  ⟨u_injective, fun h => by rw [h]⟩

@[simp] theorem u_eq_nil (s : String) : u s = [] ↔ s = "" := by
  simp [u]

/-- `str.split` with a separator makes one part more than there are separators. -/
theorem length_splitOn (sep : PyChar) (s : PyStr) : (s.splitOn sep).length = s.count sep + 1 := by
  induction s with
  | nil => simp
  | cons c s ih =>
    rw [List.splitOn_eq_splitOnP] at *
    rw [List.splitOnP_cons_eq_if_modifyHead]
    by_cases h : c = sep
    · simp [h, ih]
    · simp [h, ih]

theorem splitOn_join {sep : PyChar} {s t : PyStr} (hs : sep ∉ s) (ht : sep ∉ t) :
    (s ++ sep :: t).splitOn sep = [s, t] := by
  have h : ([sep].intercalate [s, t]).splitOn sep = [s, t] :=
    List.splitOn_intercalate sep (by simp [hs, ht]) (by simp)
  simpa using h

/-- Two parts joined are split into two parts exactly when neither holds the
separator. -/
theorem splitOn_join_pair (sep : PyChar) (s t : PyStr) :
    (∃ a b, (s ++ sep :: t).splitOn sep = [a, b]) ↔ sep ∉ s ∧ sep ∉ t := by
  constructor
  · rintro ⟨a, b, h⟩
    have hlen := length_splitOn sep (s ++ sep :: t)
    rw [h, List.count_append, List.count_cons_self] at hlen
    simp only [List.length_cons, List.length_nil] at hlen
    rw [← List.count_eq_zero, ← List.count_eq_zero]
    omega
  · rintro ⟨hs, ht⟩
    exact ⟨s, t, splitOn_join hs ht⟩

/-- The code point, used where Python compares or classifies characters. -/
def PyChar.code : PyChar → Nat
  | .scalar c => c.toNat
  | .surrogate n => 0xD800 + n

/-- The code points that `str.strip` removes. -/
def isSpace (c : PyChar) : Bool :=
  let n := c.code
  (9 ≤ n && n ≤ 13) || (28 ≤ n && n ≤ 32) || n == 0x85 || n == 0xA0 || n == 0x1680 ||
    (0x2000 ≤ n && n ≤ 0x200A) || n == 0x2028 || n == 0x2029 || n == 0x202F || n == 0x205F ||
    n == 0x3000

def strip (s : PyStr) : PyStr :=
  ((s.dropWhile isSpace).reverse.dropWhile isSpace).reverse

/-- `s < t` on strings compares code points. -/
def before : PyStr → PyStr → Bool
  | [], [] => false
  | [], _ :: _ => true
  | _ :: _, [] => false
  | a :: s, b :: t => a.code < b.code || (a.code == b.code && before s t)

/-- A string without lone surrogates, which are all that UTF-8 refuses. -/
def Scalar (s : PyStr) : Prop := ∀ c ∈ s, ∃ d, c = .scalar d

@[simp] theorem scalar_nil : Scalar [] := by simp [Scalar]

@[simp] theorem scalar_u (s : String) : Scalar (u s) := by
  intro c hc
  obtain ⟨d, -, rfl⟩ := List.mem_map.mp hc
  exact ⟨d, rfl⟩

@[simp] theorem scalar_cons (c : PyChar) (s : PyStr) :
    Scalar (c :: s) ↔ (∃ d, c = .scalar d) ∧ Scalar s := by
  simp [Scalar]

@[simp] theorem scalar_append (s t : PyStr) : Scalar (s ++ t) ↔ Scalar s ∧ Scalar t := by
  simp only [Scalar, List.mem_append, or_imp, forall_and]

def chars? : PyStr → Option (List Char)
  | [] => some []
  | .scalar c :: s => (chars? s).map (c :: ·)
  | .surrogate _ :: _ => none

theorem chars?_isSome (s : PyStr) : (chars? s).isSome ↔ Scalar s := by
  induction s with
  | nil => simp [chars?]
  | cons c s ih => cases c <;> simp [chars?, ih]

instance (s : PyStr) : Decidable (Scalar s) :=
  decidable_of_iff _ (chars?_isSome s)

abbrev Bytes := List UInt8

/-- `str.encode("utf-8")`: `none` stands for `UnicodeEncodeError`. -/
def encode (s : PyStr) : Option Bytes :=
  (chars? s).map fun cs => (String.ofList cs).toUTF8.data.toList

/-- `bytes.decode("utf-8")`: `none` stands for `UnicodeDecodeError`. -/
def decode (b : Bytes) : Option PyStr :=
  (String.fromUTF8? ⟨b.toArray⟩).map u

theorem encode_isSome (s : PyStr) : (encode s).isSome ↔ Scalar s := by
  simp [encode, chars?_isSome]

theorem eq_map_of_chars? {s : PyStr} {cs : List Char} (h : chars? s = some cs) :
    s = cs.map .scalar := by
  induction s generalizing cs with
  | nil => cases h; rfl
  | cons c s ih =>
    cases c with
    | scalar c =>
      obtain ⟨ds, hd, rfl⟩ := Option.map_eq_some_iff.mp h
      rw [ih hd, List.map_cons]
    | surrogate n => cases h

/-- What a valid string encodes to decodes to that string. -/
theorem decode_encode {s : PyStr} {b : Bytes} (h : encode s = some b) : decode b = some s := by
  obtain ⟨cs, hc, rfl⟩ := Option.map_eq_some_iff.mp h
  have he : String.fromUTF8? ⟨(String.ofList cs).toUTF8.data.toList.toArray⟩ =
      some (String.ofList cs) := by
    simp only [Array.toArray_toList, String.fromUTF8?, Option.dite_none_right_eq_some]
    exact ⟨(String.ofList cs).isValidUTF8, rfl⟩
  rw [eq_map_of_chars? hc, decode, he]
  simp [u]

example : decode [0xff] = none := by decide
example : encode [.surrogate 0] = none := by decide

end PyText
