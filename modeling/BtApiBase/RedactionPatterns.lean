import BtApiBase.PyScan
import BtApiBase.Redaction

/-!
# The patterns of the redaction

`sanitize_text` runs three patterns over a text, one after the other: URLs, values after
sensitive keys, tokens after the word Bearer. What `sanitize_url` makes of a URL is a
parameter. None of the patterns has to give back what a repetition has taken, so each is
read once from the left.
-/

namespace RedactionPatterns

open PyText PyScan Redaction

/-- How `re.IGNORECASE` reads a character where the pattern has an ASCII letter. -/
def lowered (c : Char) : Char :=
  if c = '\u0130' ∨ c = '\u0131' then 'i'
  else if c = '\u017f' then 's'
  else if c = '\u212a' then 'k'
  else c.toLower

def reads (l : Char) : PyChar → Bool
  | .scalar c => lowered c == l
  | _ => false

/-- What follows the literal, if the text starts with it. -/
def literal : List Char → PyStr → Option PyStr
  | [], s => some s
  | _ :: _, [] => none
  | l :: ls, c :: s => if reads l c then literal ls s else none

def oneOf (chars : String) (c : PyChar) : Bool := c ∈ u chars

/-- An optional character. -/
def skipOne (f : PyChar → Bool) : PyStr → PyStr
  | [] => []
  | c :: s => if f c then s else c :: s

/-! ## URLs -/

def schemes : List String := ["https", "http", "wss", "ws"]

def urlChar (c : PyChar) : Bool := !isSpace c && !oneOf "<>\"'" c

/-- `_URL_PATTERN` -/
def urlAt (s : PyStr) : Option (Nat × Nat) :=
  schemes.findSome? fun scheme => (literal (scheme ++ "://").toList s).bind fun rest =>
    if rest.takeWhile urlChar = [] then none
    else some (0, s.length - rest.length + (rest.takeWhile urlChar).length)

/-- `_trim_url_punctuation` -/
def trimUrlPunctuation (candidate : PyStr) : PyStr × PyStr :=
  ((candidate.reverse.dropWhile (oneOf ".,;:)]\x7d")).reverse,
    (candidate.reverse.takeWhile (oneOf ".,;:)]\x7d")).reverse)

def replaceUrl (sanitizeUrl : PyStr → PyStr) (found : PyStr) : PyStr :=
  sanitizeUrl (trimUrlPunctuation found).1 ++ (trimUrlPunctuation found).2

/-! ## Values after sensitive keys -/

/-- A key is one word, or two that `-`, `_` or a blank may join. -/
inductive Key where
  | word (w : String)
  | joined (first second : String)

def keys : List Key :=
  [.joined "api" "key", .joined "access" "key", .word "secret", .word "token", .word "signature",
    .word "password", .word "passphrase", .word "authorization", .joined "private" "key",
    .joined "public" "key", .joined "listen" "key", .word "nonce", .word "timestamp", .word "x-mbx-apikey",
    .word "ok-access-sign", .word "kc-api-sign", .word "cb-access-sign"]

def Key.rest : Key → PyStr → Option PyStr
  | .word w, s => literal w.toList s
  | .joined first second, s =>
    (literal first.toList s).bind fun rest => literal second.toList (skipOne (oneOf "-_ ") rest)

/-- What follows the sign behind a key, with the blanks and quotes around it. -/
def afterKey (s : PyStr) : Option PyStr :=
  match (skipOne (oneOf "\"'") (s.dropWhile isSpace)).dropWhile isSpace with
  | [] => none
  | c :: rest => if oneOf ":=" c then some (skipOne (oneOf "\"'") (rest.dropWhile isSpace)) else none

def valueChar (c : PyChar) : Bool := !isSpace c && !oneOf ",;\x7d&\"'" c

/-- `_KEY_VALUE_PATTERN` -/
def keyValueAt (s : PyStr) : Option (Nat × Nat) :=
  keys.findSome? fun key => (key.rest s).bind fun rest => (afterKey rest).bind fun value =>
    if value.takeWhile valueChar = [] then none
    else some (s.length - value.length, (value.takeWhile valueChar).length)

/-! ## Tokens after the word Bearer -/

/-- The characters that `\w` stands for: letters and digits of every script, and `_`. -/
structure WordClass where
  is : PyChar → Bool
  ascii : ∀ c : Char, c.toNat < 128 → is (.scalar c) = (c.isAlphanum || c == '_')

/-- `\b` -/
def boundary (w : WordClass) (before : Option PyChar) (s : PyStr) : Bool :=
  before.any w.is != s.head?.any w.is

def tokenChar (c : PyChar) : Bool :=
  match c with
  | .scalar d => (lowered d).isLower || d.isDigit || "._~+/=-".toList.contains d
  | _ => false

/-- `_BEARER_PATTERN` -/
def bearerAt (w : WordClass) (before : Option PyChar) (s : PyStr) : Option (Nat × Nat) :=
  if boundary w before s then
    (literal "bearer".toList s).bind fun rest =>
      if rest.takeWhile isSpace = [] ∨ (rest.dropWhile isSpace).takeWhile tokenChar = [] then none
      else some (s.length - (rest.dropWhile isSpace).length, ((rest.dropWhile isSpace).takeWhile tokenChar).length)
  else none

/-! ## The patterns fit -/

theorem literal_length {ls : List Char} {s rest : PyStr} (h : literal ls s = some rest) :
    rest.length ≤ s.length := by
  induction ls generalizing s with
  | nil =>
    obtain rfl : s = rest := by simpa [literal] using h
    exact Nat.le_refl _
  | cons l ls ih =>
    cases s with
    | nil => simp [literal] at h
    | cons c s =>
      by_cases hc : reads l c = true
      · have := ih (by simpa [literal, hc] using h)
        rw [List.length_cons]
        omega
      · simp [literal, hc] at h

theorem skipOne_length (f : PyChar → Bool) (s : PyStr) : (skipOne f s).length ≤ s.length := by
  cases s with
  | nil => exact Nat.le_refl _
  | cons c s => cases h : f c <;> simp [skipOne, h]

theorem Key.rest_length {key : Key} {s rest : PyStr} (h : key.rest s = some rest) : rest.length ≤ s.length := by
  cases key with
  | word w => exact literal_length h
  | joined first second =>
    obtain ⟨middle, hfirst, hsecond⟩ := Option.bind_eq_some_iff.mp h
    have h₁ := literal_length hfirst
    have h₂ := skipOne_length (oneOf "-_ ") middle
    have h₃ := literal_length hsecond
    omega

theorem afterKey_length {s value : PyStr} (h : afterKey s = some value) : value.length ≤ s.length := by
  have h₁ := (List.dropWhile_suffix isSpace (l := s)).length_le
  have h₂ := skipOne_length (oneOf "\"'") (s.dropWhile isSpace)
  have h₃ := (List.dropWhile_suffix isSpace (l := skipOne (oneOf "\"'") (s.dropWhile isSpace))).length_le
  unfold afterKey at h
  split at h
  · cases h
  · next c rest heq =>
    rw [heq, List.length_cons] at h₃
    have h₄ := (List.dropWhile_suffix isSpace (l := rest)).length_le
    have h₅ := skipOne_length (oneOf "\"'") (rest.dropWhile isSpace)
    by_cases hc : oneOf ":=" c = true
    · obtain rfl : skipOne (oneOf "\"'") (rest.dropWhile isSpace) = value := by simpa [hc] using h
      omega
    · simp [hc] at h

theorem takeWhile_length_pos {f : PyChar → Bool} {s : PyStr} (h : s.takeWhile f ≠ []) :
    0 < (s.takeWhile f).length ∧ (s.takeWhile f).length ≤ s.length :=
  ⟨List.length_pos_of_ne_nil h, (List.takeWhile_prefix f).length_le⟩

/-- What `findSome?` finds was found for one of the candidates. -/
theorem exists_of_found {β γ : Type*} {l : List β} {f : β → Option γ} {y : γ} (h : l.findSome? f = some y) :
    ∃ x, f x = some y := by
  obtain ⟨x, -, hx⟩ := List.exists_of_findSome?_eq_some h
  exact ⟨x, hx⟩

def url : Pattern PyChar where
  matchAt := fun _ => urlAt
  fits := by
    intro _ s keep give h
    obtain ⟨scheme, h⟩ := exists_of_found h
    obtain ⟨rest, hrest, h⟩ := Option.bind_eq_some_iff.mp h
    have hlength := literal_length hrest
    by_cases hnil : rest.takeWhile urlChar = []
    · simp [hnil] at h
    · have := takeWhile_length_pos hnil
      simp only [hnil, if_false, Option.some.injEq, Prod.mk.injEq] at h
      omega

def keyValue : Pattern PyChar where
  matchAt := fun _ => keyValueAt
  fits := by
    intro _ s keep give h
    obtain ⟨key, h⟩ := exists_of_found h
    obtain ⟨rest, hrest, h⟩ := Option.bind_eq_some_iff.mp h
    obtain ⟨value, hvalue, h⟩ := Option.bind_eq_some_iff.mp h
    have h₁ := Key.rest_length hrest
    have h₂ := afterKey_length hvalue
    by_cases hnil : value.takeWhile valueChar = []
    · simp [hnil] at h
    · have := takeWhile_length_pos hnil
      simp only [hnil, if_false, Option.some.injEq, Prod.mk.injEq] at h
      omega

def bearer (w : WordClass) : Pattern PyChar where
  matchAt := bearerAt w
  fits := by
    intro before s keep give h
    by_cases hb : boundary w before s = true
    · rw [bearerAt, if_pos hb] at h
      obtain ⟨rest, hrest, h⟩ := Option.bind_eq_some_iff.mp h
      have h₁ := literal_length hrest
      have h₂ := (List.dropWhile_suffix isSpace (l := rest)).length_le
      by_cases hnil : rest.takeWhile isSpace = [] ∨ (rest.dropWhile isSpace).takeWhile tokenChar = []
      · simp only [if_pos hnil, reduceCtorEq] at h
      · have := takeWhile_length_pos (not_or.mp hnil).2
        simp only [hnil, if_false, Option.some.injEq, Prod.mk.injEq] at h
        omega
    · simp [bearerAt, hb] at h

/-- The passes of `sanitize_text`. -/
def passes (w : WordClass) (sanitizeUrl : PyStr → PyStr) : Passes where
  url := sub url (replaceUrl sanitizeUrl)
  keyValue := sub keyValue fun _ => redacted
  bearer := sub (bearer w) fun _ => redacted

/-! ## The star separates -/

theorem WordClass.star (w : WordClass) : w.is (.scalar '*') = false := w.ascii '*' (by decide)

theorem literal_append {x : PyChar} {ls : List Char} (hx : ∀ l ∈ ls, reads l x = false) (a b : PyStr) :
    literal ls (a ++ x :: b) = (literal ls a).map (· ++ x :: b) := by
  induction ls generalizing a with
  | nil => rfl
  | cons l ls ih =>
    cases a with
    | nil => simp [literal, hx l List.mem_cons_self]
    | cons c a =>
      rw [List.cons_append, literal, literal, ih (fun l' hl' => hx l' (List.mem_cons_of_mem l hl'))]
      by_cases hc : reads l c = true <;> simp [hc]

theorem dropWhile_append {f : PyChar → Bool} {x : PyChar} (hx : f x = false) (a b : PyStr) :
    (a ++ x :: b).dropWhile f = a.dropWhile f ++ x :: b := by
  induction a with
  | nil => simp [hx]
  | cons c a ih => by_cases hc : f c = true <;> simp [hc, ih]

theorem takeWhile_append {f : PyChar → Bool} {x : PyChar} (hx : f x = false) (a b : PyStr) :
    (a ++ x :: b).takeWhile f = a.takeWhile f := by
  induction a with
  | nil => simp [hx]
  | cons c a ih => by_cases hc : f c = true <;> simp [hc, ih]

theorem star_separates (w : WordClass) : Separates (bearer w) (.scalar '*') where
  past := by
    intro before a b
    have hboundary : boundary w before (a ++ .scalar '*' :: b) = boundary w before a := by
      cases a with
      | nil => simp [boundary, w.star]
      | cons c a => rfl
    have hread : ∀ l ∈ "bearer".toList, reads l (.scalar '*') = false := by
      intro l hl
      have hlowered : lowered '*' = '*' := by decide
      have hstar : '*' ∉ "bearer".toList := by decide
      rw [reads, hlowered, beq_eq_false_iff_ne]
      rintro rfl
      exact hstar hl
    show bearerAt w before (a ++ .scalar '*' :: b) = bearerAt w before a
    unfold bearerAt
    rw [hboundary, literal_append hread]
    refine if_congr Iff.rfl ?_ rfl
    rw [Option.bind_map]
    refine congrArg (Option.bind _) (funext fun rest => ?_)
    have hspace : isSpace (.scalar '*') = false := by decide
    have htoken : tokenChar (.scalar '*') = false := by decide
    simp only [Function.comp_apply, dropWhile_append hspace, takeWhile_append hspace, takeWhile_append htoken,
      List.length_append, Nat.add_sub_add_right]
  fresh := by
    intro s
    have hboundary : boundary w (some (.scalar '*')) s = boundary w none s := by simp [boundary, w.star]
    show bearerAt w (some (.scalar '*')) s = bearerAt w none s
    rw [bearerAt, bearerAt, hboundary]

end RedactionPatterns
