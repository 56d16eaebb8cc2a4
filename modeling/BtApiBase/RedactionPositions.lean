import BtApiBase.Redaction

/-!
# Where redaction does not look

`sanitize` rewrites strings and what stands under sensitive keys. Mapping keys,
integers and bytes stay as they are, so that a secret that is also in one of them
is in the result, and only then.
-/

namespace RedactionPositions

open PyText PyValue Redaction

/-- A value that is directly under a sensitive key at some depth. -/
inductive Held (py : Interp) : PyVal → PyVal → Prop where
  | here {items : List (PyVal × PyVal)} {k v : PyVal} (h : (k, v) ∈ items)
      (hk : isSensitiveKey py k = true) : Held py (.dict items) v
  | value {items : List (PyVal × PyVal)} {k v held : PyVal} (h : (k, v) ∈ items)
      (hs : Held py v held) : Held py (.dict items) held
  | list {xs : List PyVal} {v held : PyVal} (h : v ∈ xs) (hs : Held py v held) : Held py (.list xs) held
  | tuple {xs : List PyVal} {v held : PyVal} (h : v ∈ xs) (hs : Held py v held) : Held py (.tuple xs) held

/-- The text of a secret: a string of four characters or an integer of eight digits. -/
inductive SecretText (py : Interp) (v : PyVal) : PyStr → Prop where
  | str {s : PyStr} (h : Held py v (.str s)) (hlength : 4 ≤ s.length) : SecretText py v s
  | int {n : Int} (h : Held py v (.int n)) (hdigits : 8 ≤ (intText n.natAbs).length) :
      SecretText py v (intText n)

/-- The mapping keys, and the leaves that are integers or bytes. -/
inductive Position : PyVal → PyVal → Prop where
  | int (n : Int) : Position (.int n) (.int n)
  | bytes (b : Bytes) : Position (.bytes b) (.bytes b)
  | key {items : List (PyVal × PyVal)} {k v : PyVal} (h : (k, v) ∈ items) : Position (.dict items) k
  | value {items : List (PyVal × PyVal)} {k v x : PyVal} (h : (k, v) ∈ items) (hx : Position v x) :
      Position (.dict items) x
  | list {xs : List PyVal} {v x : PyVal} (h : v ∈ xs) (hx : Position v x) : Position (.list xs) x
  | tuple {xs : List PyVal} {v x : PyVal} (h : v ∈ xs) (hx : Position v x) : Position (.tuple xs) x

/-- A position that is not below a sensitive key; the key itself is one. -/
inductive Open (py : Interp) : PyVal → PyVal → Prop where
  | int (n : Int) : Open py (.int n) (.int n)
  | bytes (b : Bytes) : Open py (.bytes b) (.bytes b)
  | key {items : List (PyVal × PyVal)} {k v : PyVal} (h : (k, v) ∈ items) : Open py (.dict items) k
  | value {items : List (PyVal × PyVal)} {k v x : PyVal} (h : (k, v) ∈ items)
      (hk : isSensitiveKey py k = false) (hx : Open py v x) : Open py (.dict items) x
  | list {xs : List PyVal} {v x : PyVal} (h : v ∈ xs) (hx : Open py v x) : Open py (.list xs) x
  | tuple {xs : List PyVal} {v x : PyVal} (h : v ∈ xs) (hx : Open py v x) : Open py (.tuple xs) x

/-- The text occurs in what is at a position; in bytes, as they encode it. -/
def Shows (py : Interp) : PyVal → PyStr → Prop
  | .bytes b, s => ∃ e, encode s = some e ∧ e <:+: b
  | x, s => s <:+: py.str x

/-- No secret of the value is in a key, an integer or bytes of the result. -/
def Hidden (py : Interp) (p : Passes) (v : PyVal) : Prop :=
  ∀ s, SecretText py v s → ∀ x, Position (sanitizeValue py p v) x → ¬ Shows py x s

/-- No secret of the value is in one of its own keys, integers or bytes that are not below
a sensitive key. -/
def NotRepeated (py : Interp) (v : PyVal) : Prop :=
  ∀ s, SecretText py v s → ∀ x, Open py v x → ¬ Shows py x s

/-! ## The positions of the result -/

section

variable {py : Interp} {p : Passes} {secrets : List PyVal}

theorem mem_sanitizeItems {xs : List PyVal} {y : PyVal} :
    y ∈ sanitizeItems py p secrets xs ↔ ∃ x ∈ xs, y = sanitize py p secrets x := by
  induction xs with
  | nil => simp [sanitizeItems]
  | cons x xs ih => simp [sanitizeItems, ih]

theorem mem_sanitizePairs {items : List (PyVal × PyVal)} {k y : PyVal} :
    (k, y) ∈ sanitizePairs py p secrets items ↔
      ∃ v, (k, v) ∈ items ∧ y = if isSensitiveKey py k then .str redacted else sanitize py p secrets v := by
  induction items with
  | nil => simp [sanitizePairs]
  | cons kv items ih =>
    obtain ⟨k', v'⟩ := kv
    simp only [sanitizePairs, List.mem_cons, ih, Prod.mk.injEq]
    constructor
    · rintro (⟨rfl, rfl⟩ | ⟨v, hv, rfl⟩)
      · exact ⟨v', .inl ⟨rfl, rfl⟩, rfl⟩
      · exact ⟨v, .inr hv, rfl⟩
    · rintro ⟨v, ⟨rfl, rfl⟩ | hv, rfl⟩
      · exact .inl ⟨rfl, rfl⟩
      · exact .inr ⟨v, hv, rfl⟩

theorem position_of_open {v x : PyVal} (h : Open py v x) : Position (sanitize py p secrets v) x := by
  induction h with
  | int n => exact .int n
  | bytes b => exact .bytes b
  | key h => exact .key (mem_sanitizePairs.mpr ⟨_, h, rfl⟩)
  | value h hk _ ih => exact .value (mem_sanitizePairs.mpr ⟨_, h, by rw [hk]; rfl⟩) ih
  | list h _ ih => exact .list (mem_sanitizeItems.mpr ⟨_, h, rfl⟩) ih
  | tuple h _ ih => exact .tuple (mem_sanitizeItems.mpr ⟨_, h, rfl⟩) ih

/-- The induction is on the position in the result. -/
theorem open_of_position {v x : PyVal} (h : Position (sanitize py p secrets v) x) : Open py v x := by
  generalize hresult : sanitize py p secrets v = result at h
  induction h generalizing v with
  | int n =>
    cases v with
    | int m =>
      cases hresult
      exact .int n
    | _ => simp [sanitize] at hresult
  | bytes b =>
    cases v with
    | bytes c =>
      cases hresult
      exact .bytes b
    | _ => simp [sanitize] at hresult
  | key h =>
    cases v with
    | dict items =>
      simp only [sanitize, PyVal.dict.injEq] at hresult
      subst hresult
      obtain ⟨v, hv, -⟩ := mem_sanitizePairs.mp h
      exact .key hv
    | _ => simp [sanitize] at hresult
  | value h hx ih =>
    cases v with
    | dict items =>
      simp only [sanitize, PyVal.dict.injEq] at hresult
      subst hresult
      obtain ⟨v, hv, hy⟩ := mem_sanitizePairs.mp h
      split at hy
      · subst hy
        cases hx
      · next hk => exact .value hv (Bool.eq_false_iff.mpr hk) (ih hy.symm)
    | _ => simp [sanitize] at hresult
  | list h _ ih =>
    cases v with
    | list xs =>
      simp only [sanitize, PyVal.list.injEq] at hresult
      subst hresult
      obtain ⟨v, hv, hy⟩ := mem_sanitizeItems.mp h
      exact .list hv (ih hy.symm)
    | _ => simp [sanitize] at hresult
  | tuple h _ ih =>
    cases v with
    | tuple xs =>
      simp only [sanitize, PyVal.tuple.injEq] at hresult
      subst hresult
      obtain ⟨v, hv, hy⟩ := mem_sanitizeItems.mp h
      exact .tuple hv (ih hy.symm)
    | _ => simp [sanitize] at hresult

/-- Redaction leaves the keys, the integers and the bytes outside the sensitive keys. -/
theorem position_sanitizeValue (py : Interp) (p : Passes) (v x : PyVal) :
    Position (sanitizeValue py p v) x ↔ Open py v x := ⟨open_of_position, position_of_open⟩

end

/-- The result hides the secrets outside its strings exactly when the value does not
repeat one of them in a key, an integer or bytes. -/
theorem hidden_iff_notRepeated (py : Interp) (p : Passes) (v : PyVal) :
    Hidden py p v ↔ NotRepeated py v := by
  unfold Hidden NotRepeated
  refine forall₂_congr ?_
  intro s _
  refine forall_congr' ?_
  intro x
  rw [position_sanitizeValue]

/-- A response that repeats its secret as an integer and as a key. -/
def repeating : PyVal :=
  .dict [(.str (u "timestamp"), .int 1700000000123), (.str (u "server_time"), .int 1700000000123)]

theorem integer_left : ¬ Hidden .ascii ⟨id, id, id⟩ repeating := by
  intro h
  have hheld : Held .ascii repeating (.int 1700000000123) :=
    .here (k := .str (u "timestamp")) List.mem_cons_self (by decide +kernel)
  have hsecret : SecretText .ascii repeating (intText 1700000000123) := .int hheld (by decide +kernel)
  have hopen : Open .ascii repeating (.int 1700000000123) :=
    .value (k := .str (u "server_time")) (List.mem_cons_of_mem _ List.mem_cons_self) (by decide +kernel)
      (.int _)
  exact h _ hsecret _ (position_of_open hopen) List.infix_rfl

end RedactionPositions
