import BtApiBase.PyReplace
import BtApiBase.PyValue

/-!
# Redaction of secrets

`sanitize_value` collects what stands under sensitive keys and then walks the
value again: a value under such a key becomes `***`, and in every other string
each secret is replaced by `***`, after the passes for URLs, key-value pairs and
bearer tokens. These passes are parameters: what is said here holds for any.
-/

namespace Redaction

open PyText PyDict PyValue PyReplace

def redacted : PyStr := u "***"

def sensitiveKeyParts : List PyStr :=
  ["apikey", "accesskey", "secret", "token", "signature", "password", "passphrase", "authorization",
    "privatekey", "publickey", "listenkey"].map u

def sensitiveExactKeys : List PyStr := ["nonce", "timestamp"].map u

def isSensitiveKey (py : Interp) (key : PyVal) : Bool :=
  let normalized := py.lower
    (replace (u " ") [] (replace (u "_") [] (replace (u "-") [] (py.str key))))
  normalized ∈ sensitiveExactKeys || (u "sign").isSuffixOf normalized ||
    sensitiveKeyParts.any fun part => part <:+: normalized

/-- The regular expressions of `sanitize_text`, each with its replacement. -/
structure Passes where
  url : PyStr → PyStr
  keyValue : PyStr → PyStr
  bearer : PyStr → PyStr

def redact (py : Interp) (text : PyStr) : PyVal → PyStr
  | .none => text
  | secret => if py.str secret = [] then text else replace (py.str secret) redacted text

def sanitizeText (py : Interp) (p : Passes) (value : PyVal) (sensitiveValues : List PyVal) : PyStr :=
  sensitiveValues.foldl (redact py) (p.bearer (p.keyValue (p.url (py.str value))))

/-! ## Collecting -/

/-- The character that a byte sequence starts with, and its length. -/
def charAt? (b : Bytes) : Option (PyChar × Nat) :=
  [1, 2, 3, 4].findSome? fun n => match decode (b.take n) with
    | some [c] => some (c, n)
    | _ => none

/-- `b.decode(errors="ignore")` after `skip` bytes. -/
def decodeIgnoring : Nat → Bytes → PyStr
  | _, [] => []
  | skip + 1, _ :: b => decodeIgnoring skip b
  | 0, x :: b => match charAt? (x :: b) with
    | some (c, n) => c :: decodeIgnoring (n - 1) b
    | none => decodeIgnoring 0 b

def addText (text : PyStr) : List PyStr := if 4 ≤ text.length then [text] else []

/-- What `add` appends; a boolean is an integer of one digit. -/
def add : PyVal → List PyStr
  | .bytes b => addText (decodeIgnoring 0 b)
  | .str s => addText s
  | .int n => if 8 ≤ (intText n.natAbs).length then [intText n] else []
  | _ => []

mutual
def walk (py : Interp) : PyVal → List PyStr
  | .dict items => walkPairs py items
  | .list xs | .tuple xs => walkItems py xs
  | _ => []
def walkItems (py : Interp) : List PyVal → List PyStr
  | [] => []
  | x :: xs => walk py x ++ walkItems py xs
def walkPairs (py : Interp) : List (PyVal × PyVal) → List PyStr
  | [] => []
  | (k, v) :: items => (if isSensitiveKey py k then add v else []) ++ walk py v ++ walkPairs py items
end

/-- `tuple(dict.fromkeys(texts))` -/
def fromkeys (texts : List PyStr) : List PyStr :=
  (texts.foldl (fun d text => d.set text ()) (Dict.empty : Dict PyStr Unit)).keys

def collectSensitiveValues (py : Interp) (value : PyVal) : List PyVal :=
  (fromkeys (walk py value)).map .str

/-! ## Sanitizing -/

mutual
def sanitize (py : Interp) (p : Passes) (sensitiveValues : List PyVal) : PyVal → PyVal
  | .dict items => .dict (sanitizePairs py p sensitiveValues items)
  | .list xs => .list (sanitizeItems py p sensitiveValues xs)
  | .tuple xs => .tuple (sanitizeItems py p sensitiveValues xs)
  | .str s => .str (sanitizeText py p (.str s) sensitiveValues)
  | item => item
def sanitizeItems (py : Interp) (p : Passes) (sensitiveValues : List PyVal) : List PyVal → List PyVal
  | [] => []
  | x :: xs => sanitize py p sensitiveValues x :: sanitizeItems py p sensitiveValues xs
def sanitizePairs (py : Interp) (p : Passes) (sensitiveValues : List PyVal) :
    List (PyVal × PyVal) → List (PyVal × PyVal)
  | [] => []
  | (k, v) :: items =>
    (k, if isSensitiveKey py k then .str redacted else sanitize py p sensitiveValues v) ::
      sanitizePairs py p sensitiveValues items
end

def sanitizeValue (py : Interp) (p : Passes) (value : PyVal) : PyVal :=
  sanitize py p (collectSensitiveValues py value) value

/-! ## Secrets and leaves -/

/-- A string that the value holds directly under a sensitive key at some depth. -/
inductive Secret (py : Interp) : PyVal → PyStr → Prop where
  | here {items : List (PyVal × PyVal)} {k : PyVal} {s : PyStr} (h : (k, .str s) ∈ items)
      (hk : isSensitiveKey py k = true) : Secret py (.dict items) s
  | value {items : List (PyVal × PyVal)} {k v : PyVal} {s : PyStr} (h : (k, v) ∈ items)
      (hs : Secret py v s) : Secret py (.dict items) s
  | list {xs : List PyVal} {v : PyVal} {s : PyStr} (h : v ∈ xs) (hs : Secret py v s) :
      Secret py (.list xs) s
  | tuple {xs : List PyVal} {v : PyVal} {s : PyStr} (h : v ∈ xs) (hs : Secret py v s) :
      Secret py (.tuple xs) s

/-- A string that the value is built from; keys are not leaves. -/
inductive StringLeaf : PyVal → PyStr → Prop where
  | str (s : PyStr) : StringLeaf (.str s) s
  | value {items : List (PyVal × PyVal)} {k v : PyVal} {s : PyStr} (h : (k, v) ∈ items)
      (hs : StringLeaf v s) : StringLeaf (.dict items) s
  | list {xs : List PyVal} {v : PyVal} {s : PyStr} (h : v ∈ xs) (hs : StringLeaf v s) :
      StringLeaf (.list xs) s
  | tuple {xs : List PyVal} {v : PyVal} {s : PyStr} (h : v ∈ xs) (hs : StringLeaf v s) :
      StringLeaf (.tuple xs) s

/-! ## What is collected -/

theorem mem_walkItems {py : Interp} {xs : List PyVal} {s : PyStr} :
    s ∈ walkItems py xs ↔ ∃ x ∈ xs, s ∈ walk py x := by
  induction xs with
  | nil => simp [walkItems]
  | cons x xs ih => simp [walkItems, ih]

theorem mem_walkPairs {py : Interp} {items : List (PyVal × PyVal)} {s : PyStr} :
    s ∈ walkPairs py items ↔
      ∃ kv ∈ items, (isSensitiveKey py kv.1 = true ∧ s ∈ add kv.2) ∨ s ∈ walk py kv.2 := by
  induction items with
  | nil => simp [walkPairs]
  | cons kv items ih =>
    obtain ⟨k, v⟩ := kv
    by_cases hk : isSensitiveKey py k = true
    · simp [walkPairs, ih, hk, or_assoc]
    · simp [walkPairs, ih, hk]

/-- Every secret of four characters is collected. -/
theorem mem_walk {py : Interp} {v : PyVal} {s : PyStr} (h : Secret py v s) (hs : 4 ≤ s.length) :
    s ∈ walk py v := by
  induction h with
  | here h hk =>
    rw [walk, mem_walkPairs]
    exact ⟨_, h, .inl ⟨hk, by simp [add, addText, hs]⟩⟩
  | value h _ ih =>
    rw [walk, mem_walkPairs]
    exact ⟨_, h, .inr (ih hs)⟩
  | list h _ ih =>
    rw [walk, mem_walkItems]
    exact ⟨_, h, ih hs⟩
  | tuple h _ ih =>
    rw [walk, mem_walkItems]
    exact ⟨_, h, ih hs⟩

theorem mem_fromkeys {texts : List PyStr} {s : PyStr} : s ∈ fromkeys texts ↔ s ∈ texts := by
  have hfold : ∀ d : Dict PyStr Unit,
      s ∈ (texts.foldl (fun d text => d.set text ()) d).keys ↔ s ∈ d.keys ∨ s ∈ texts := by
    induction texts with
    | nil => simp
    | cons text texts ih =>
      intro d
      rw [List.foldl_cons, ih, Dict.keys_set]
      split
      · next h =>
        rw [List.mem_cons]
        constructor
        · rintro (hd | ht)
          · exact .inl hd
          · exact .inr (.inr ht)
        · rintro (hd | rfl | ht)
          · exact .inl hd
          · exact .inl h
          · exact .inr ht
      · simp [or_assoc]
  simpa [fromkeys, Dict.keys, Dict.empty] using hfold Dict.empty

theorem mem_collectSensitiveValues {py : Interp} {v : PyVal} {s : PyStr} (h : Secret py v s)
    (hs : 4 ≤ s.length) : .str s ∈ collectSensitiveValues py v :=
  List.mem_map_of_mem (mem_fromkeys.mpr (mem_walk h hs))

/-! ## What is left in a text -/

section

variable {py : Interp} {s : PyStr}

theorem not_mem_of_mem_redacted (hstar : .scalar '*' ∉ s) : ∀ c ∈ redacted, c ∉ s := by
  intro c hc
  obtain rfl : c = .scalar '*' := by simpa [redacted, u] using hc
  exact hstar

/-- Replacing a secret makes no occurrence of a text without `*`. -/
theorem infix_of_infix_redact (hstar : .scalar '*' ∉ s) {text : PyStr} {secret : PyVal}
    (h : s <:+: redact py text secret) : s <:+: text := by
  have hreplace : s <:+: (if py.str secret = [] then text else replace (py.str secret) redacted text) →
      s <:+: text := by
    split
    · exact id
    · next hsecret => exact infix_of_infix_replace hsecret (by decide) (not_mem_of_mem_redacted hstar)
  cases secret with
  | none => exact h
  | _ => exact hreplace h

theorem infix_of_infix_redactAll (hstar : .scalar '*' ∉ s) {secrets : List PyVal} {text : PyStr}
    (h : s <:+: secrets.foldl (redact py) text) : s <:+: text := by
  induction secrets generalizing text with
  | nil => exact h
  | cons secret secrets ih => exact infix_of_infix_redact hstar (ih h)

theorem not_infix_sanitizeText (p : Passes) (hstar : .scalar '*' ∉ s) (hs : s ≠ []) {secrets : List PyVal}
    (hmem : .str s ∈ secrets) (value : PyVal) : ¬ s <:+: sanitizeText py p value secrets := by
  obtain ⟨pre, post, rfl⟩ := List.append_of_mem hmem
  rw [sanitizeText, List.foldl_append, List.foldl_cons]
  intro h
  have hreplaced := infix_of_infix_redactAll hstar h
  rw [redact, Interp.str_str, if_neg hs] at hreplaced
  · exact not_infix_replace _ hs (by decide) (not_mem_of_mem_redacted hstar) hreplaced
  · rintro ⟨⟩

theorem not_infix_redacted (hstar : .scalar '*' ∉ s) (hs : s ≠ []) : ¬ s <:+: redacted := by
  intro h
  obtain ⟨c, hc⟩ := List.exists_mem_of_ne_nil s hs
  exact not_mem_of_mem_redacted hstar c (h.subset hc) hc

end

/-! ## The leaves of the result -/

mutual
theorem leaf_sanitize {py : Interp} {p : Passes} {secrets : List PyVal} :
    ∀ v t, StringLeaf (sanitize py p secrets v) t →
      t = redacted ∨ ∃ s, t = sanitizeText py p (.str s) secrets
  | .str s, t, h => by
    cases h
    exact .inr ⟨s, rfl⟩
  | .dict items, t, h => by
    cases h with
    | value hmem hleaf => exact leaf_sanitizePairs items _ hmem t hleaf
  | .list xs, t, h => by
    cases h with
    | list hmem hleaf => exact leaf_sanitizeItems xs _ hmem t hleaf
  | .tuple xs, t, h => by
    cases h with
    | tuple hmem hleaf => exact leaf_sanitizeItems xs _ hmem t hleaf
  | .none, _, h | .bool _, _, h | .int _, _, h | .float _, _, h | .bytes _, _, h | .set _, _, h
  | .dataclass _, _, h | .datetime _, _, h | .enum _ _, _, h | .object _ _ _, _, h => by
    cases h
theorem leaf_sanitizeItems {py : Interp} {p : Passes} {secrets : List PyVal} :
    ∀ xs x, x ∈ sanitizeItems py p secrets xs → ∀ t, StringLeaf x t →
      t = redacted ∨ ∃ s, t = sanitizeText py p (.str s) secrets
  | [], x, hx, _, _ => by cases hx
  | y :: ys, x, hx, t, h => by
    rcases List.mem_cons.mp hx with rfl | hx
    · exact leaf_sanitize y t h
    · exact leaf_sanitizeItems ys x hx t h
theorem leaf_sanitizePairs {py : Interp} {p : Passes} {secrets : List PyVal} :
    ∀ items kv, kv ∈ sanitizePairs py p secrets items → ∀ t, StringLeaf kv.2 t →
      t = redacted ∨ ∃ s, t = sanitizeText py p (.str s) secrets
  | [], kv, hkv, _, _ => by cases hkv
  | (k, v) :: items, kv, hkv, t, h => by
    rcases List.mem_cons.mp hkv with rfl | hkv
    · dsimp only at h
      split at h
      · cases h
        exact .inl rfl
      · exact leaf_sanitize v t h
    · exact leaf_sanitizePairs items kv hkv t h
end

/-- No string in the result holds a secret of at least four characters without `*`. -/
theorem no_secret_in_leaf (py : Interp) (p : Passes) {v : PyVal} {s : PyStr} (h : Secret py v s)
    (hlength : 4 ≤ s.length) (hstar : .scalar '*' ∉ s) {t : PyStr}
    (ht : StringLeaf (sanitizeValue py p v) t) : ¬ s <:+: t := by
  have hs : s ≠ [] := by
    rintro rfl
    simp at hlength
  rcases leaf_sanitize v t ht with rfl | ⟨text, rfl⟩
  · exact not_infix_redacted hstar hs
  · exact not_infix_sanitizeText p hstar hs (mem_collectSensitiveValues h hlength) _

/-- A response that echoes the key it was sent. -/
def echoed : PyVal :=
  .dict [(.str (u "api_key"), .str (u "abcdef")), (.str (u "message"), .str (u "bad key abcdef"))]

theorem no_secret_in_leaf_echoed :
    ¬ u "abcdef" <:+: u "bad key ***" := by
  have hleaf : StringLeaf (sanitizeValue .ascii ⟨id, id, id⟩ echoed) (u "bad key ***") :=
    .value (k := .str (u "message")) (List.mem_cons_of_mem _ List.mem_cons_self) (.str _)
  exact no_secret_in_leaf .ascii ⟨id, id, id⟩ (v := echoed) (.here List.mem_cons_self (by decide +kernel))
    (by decide) (by decide) hleaf

end Redaction
