import BtApiBase.PyJson
import BtApiBase.Effects

/-!
# Reading JSON back

What `dumps` writes of a plain value, `loads` reads as that value: lists and dictionaries
of strings, integers, booleans, `None` and those floats whose text is read back. What
follows a value is a comma, a closing bracket or nothing, so the scanner stops where the
writer did.
-/

namespace PyJsonReading

open PyText PyDict PyValue PyJson

/-! ## Strings -/

theorem charOfCode_code (c : PyChar) : charOfCode c.code = c := by
  cases c with
  | scalar c =>
    have hv : ¬ (0xD800 ≤ c.toNat ∧ c.toNat < 0xE000) := by
      rintro ⟨h₁, h₂⟩
      rcases c.valid with h | h
      · exact absurd (show c.toNat < 0xD800 from h) (by omega)
      · exact absurd (show 0xDFFF < c.toNat from h.1) (by omega)
    rw [charOfCode, PyChar.code, dif_neg hv, ch, Char.ofNat_toNat]
  | surrogate n =>
    have hv : 0xD800 ≤ 0xD800 + n.val ∧ 0xD800 + n.val < 0xE000 := by omega
    rw [charOfCode, PyChar.code, dif_pos hv]
    exact congrArg PyChar.surrogate (Fin.ext (Nat.add_sub_cancel_left _ _))

theorem hexValue_hexDigit : ∀ n, n < 16 → hexValue (hexDigit n) = some n := by decide

theorem unicodeEscape_control {n : Nat} (hn : n < 32) (s : PyStr) :
    unicodeEscape (ch '0' :: ch '0' :: hexDigit (n / 16) :: hexDigit (n % 16) :: s) =
      some (charOfCode n, s) := by
  have h0 : hexValue (ch '0') = some 0 := by decide
  have ha := hexValue_hexDigit (n / 16) (by omega)
  have hb := hexValue_hexDigit (n % 16) (by omega)
  have hsum : n / 16 * 16 + n % 16 = n := by omega
  have hlt : ¬ (0xD800 ≤ n ∧ n < 0xDC00) := by omega
  simp only [unicodeEscape, hex4, h0, ha, hb, Option.bind_eq_bind, Option.bind_some, Nat.zero_mul,
    Nat.zero_add, hsum, hlt, if_false]

/-- A character is read back from its escape, with one unit of fuel. -/
theorem scanString_escape (c : PyChar) (s : PyStr) (fuel : Nat) :
    scanString (fuel + 1) (escape c ++ s) = (scanString fuel s).map fun r => (c :: r.1, r.2) := by
  have hback : ∀ e x : PyChar, simpleEscape e = some x → e ≠ ch 'u' →
      scanString (fuel + 1) (ch '\\' :: e :: s) = (scanString fuel s).map fun r => (x :: r.1, r.2) := by
    intro e x he hu
    have hq : ch '\\' ≠ ch '"' := by decide
    have hc : ¬ (ch '\\').code < 32 := by decide
    simp only [scanString, hq, if_false, hc, if_true, scanEscape, hu, he, Option.map_some,
      Option.bind_eq_bind, Option.bind_some]
    cases scanString fuel s <;> rfl
  unfold escape
  split_ifs with h₁ h₂ h₃ h₄ h₅ h₆ h₇ h₈
  · rw [h₁]; exact hback (ch '"') _ (by decide) (by decide)
  · rw [h₂]; exact hback (ch '\\') _ (by decide) (by decide)
  · rw [h₃]; exact hback (ch 'n') _ (by decide) (by decide)
  · rw [h₄]; exact hback (ch 'r') _ (by decide) (by decide)
  · rw [h₅]; exact hback (ch 't') _ (by decide) (by decide)
  · have hc : c = charOfCode 12 := by rw [← h₆, charOfCode_code]
    rw [hc]; exact hback (ch 'f') _ (by decide) (by decide)
  · have hc : c = charOfCode 8 := by rw [← h₇, charOfCode_code]
    rw [hc]; exact hback (ch 'b') _ (by decide) (by decide)
  · have hq : ch '\\' ≠ ch '"' := by decide
    have hc : ¬ (ch '\\').code < 32 := by decide
    have hu := unicodeEscape_control h₈ s
    rw [charOfCode_code] at hu
    show scanString (fuel + 1) (ch '\\' :: ch 'u' :: ch '0' :: ch '0' :: hexDigit (c.code / 16) ::
      hexDigit (c.code % 16) :: s) = _
    simp only [scanString, hq, if_false, hc, if_true, scanEscape, hu, Option.bind_eq_bind,
      Option.bind_some]
    cases scanString fuel s <;> rfl
  · simp only [List.cons_append, List.nil_append, scanString, h₁, if_false, h₂, h₈,
      Option.bind_eq_bind, Option.bind_some]
    cases scanString fuel s <;> rfl

/-- A quoted string is read up to its closing quote. -/
theorem scanString_quoted (s rest : PyStr) {fuel : Nat} (h : s.length < fuel) :
    scanString fuel (s.flatMap escape ++ ch '"' :: rest) = some (s, rest) := by
  induction s generalizing fuel with
  | nil =>
    obtain ⟨fuel, rfl⟩ : ∃ n, fuel = n + 1 := ⟨fuel - 1, by simp at h; omega⟩
    simp [scanString]
  | cons c s ih =>
    obtain ⟨fuel, rfl⟩ : ∃ n, fuel = n + 1 := ⟨fuel - 1, by simp at h; omega⟩
    rw [List.flatMap_cons, List.append_assoc, scanString_escape, ih (by simpa using h)]
    rfl

theorem length_le_quoted (s : PyStr) : s.length ≤ (s.flatMap escape).length := by
  induction s with
  | nil => simp
  | cons c s ih =>
    have hpos : 0 < (escape c).length := by
      unfold escape
      split_ifs <;> simp [u]
    rw [List.flatMap_cons, List.length_append, List.length_cons]
    omega

/-! ## Numbers -/

/-- What can follow a value. -/
def Delimited (rest : PyStr) : Prop := ∀ c ∈ rest.head?, c = ch ',' ∨ c = ch ']' ∨ c = ch '\x7d'

theorem delimited_nil : Delimited [] := nofun

theorem delimited_comma (rest : PyStr) : Delimited (ch ',' :: rest) := by simp [Delimited]

theorem delimited_bracket (rest : PyStr) : Delimited (ch ']' :: rest) := by simp [Delimited]

theorem delimited_brace (rest : PyStr) : Delimited (ch '\x7d' :: rest) := by simp [Delimited]

theorem Delimited.cases {rest : PyStr} (h : Delimited rest) :
    rest = [] ∨ ∃ c s, rest = c :: s ∧ (c = ch ',' ∨ c = ch ']' ∨ c = ch '\x7d') := by
  cases rest with
  | nil => exact .inl rfl
  | cons c s => exact .inr ⟨c, s, rfl, h c rfl⟩

def digits (n : Nat) : PyStr := (Nat.toDigits 10 n).map ch

theorem isDigit_ch {c : Char} (h : c.isDigit = true) : isDigit (ch c) = true := by
  have hc := Char.isDigit_iff_toNat.mp h
  exact Bool.and_eq_true_iff.mpr ⟨decide_eq_true hc.1, decide_eq_true hc.2⟩

theorem isDigit_of_mem_digits {n : Nat} {c : PyChar} (h : c ∈ digits n) : isDigit c = true := by
  obtain ⟨d, hd, rfl⟩ := List.mem_map.mp h
  exact isDigit_ch (Nat.isDigit_of_mem_toDigits (by decide) (by decide) hd)

theorem digits_ne_nil (n : Nat) : digits n ≠ [] := by simp [digits]

theorem natOfDigits_digits (n : Nat) : natOfDigits (digits n) = n := by
  have h : natOfDigits (digits n) = Nat.ofDigitChars 10 (Nat.toDigits 10 n) 0 := by
    rw [natOfDigits, digits, List.foldl_map, Nat.ofDigitChars_eq_foldl]
    rfl
  rw [h, Nat.ofDigitChars_ten_toDigits]

/-- Only zero begins with a zero. -/
theorem head_digits {n : Nat} (hn : n ≠ 0) : (digits n).head? ≠ some (ch '0') := by
  induction n using Nat.strongRecOn with
  | ind n ih =>
    rw [digits, Nat.toDigits_eq_if (by decide)]
    split
    · next hlt =>
      have h : ∀ n, n < 10 → n ≠ 0 → Nat.digitChar n ≠ '0' := by decide
      simpa [ch] using h n hlt hn
    · next hge =>
      have hdiv := ih (n / 10) (by omega) (by omega)
      rw [List.map_append, ← digits, List.head?_append_of_ne_nil _ (digits_ne_nil _)]
      exact hdiv

theorem intText_eq (n : Int) :
    intText n = if n < 0 then ch '-' :: digits n.natAbs else digits n.natAbs := by
  cases n with
  | ofNat n =>
    have hn : ¬ (Int.ofNat n < 0) := by simp
    rw [if_neg hn]
    show u (Nat.repr n) = _
    rw [u, Nat.toList_repr]
    rfl
  | negSucc n =>
    rw [if_pos (Int.negSucc_lt_zero n)]
    show u ("-" ++ Nat.repr (n + 1)) = _
    rw [u, String.toList_append, Nat.toList_repr]
    rfl

theorem span_digits {ds rest : PyStr} (hds : ∀ c ∈ ds, isDigit c = true)
    (hrest : ∀ c ∈ rest.head?, isDigit c = false) : (ds ++ rest).span isDigit = (ds, rest) := by
  induction ds with
  | nil =>
    cases rest with
    | nil => rfl
    | cons c rest => simp [List.span_eq_takeWhile_dropWhile, hrest c rfl]
  | cons d ds ih =>
    have ih := ih fun c hc => hds c (List.mem_cons_of_mem _ hc)
    simp only [List.span_eq_takeWhile_dropWhile, Prod.mk.injEq] at ih
    simp [List.span_eq_takeWhile_dropWhile, hds d List.mem_cons_self, ih]

theorem Delimited.not_digit {rest : PyStr} (h : Delimited rest) : ∀ c ∈ rest.head?, isDigit c = false := by
  intro c hc
  rcases h c hc with rfl | rfl | rfl <;> decide

theorem scanFraction_delimited {rest : PyStr} (h : Delimited rest) : scanFraction rest = ([], rest) := by
  obtain rfl | ⟨c, s, rfl, rfl | rfl | rfl⟩ := h.cases <;> rfl

theorem scanExponent_delimited {rest : PyStr} (h : Delimited rest) : scanExponent rest = ([], rest) := by
  obtain rfl | ⟨c, s, rfl, rfl | rfl | rfl⟩ := h.cases <;> simp [scanExponent, ch]

/-- The integer part of a number, and what follows it. -/
def lead (s : PyStr) : PyStr × PyStr := match s with
  | .scalar '0' :: rest => ([ch '0'], rest)
  | _ => s.span isDigit

theorem lead_digits (n : Nat) {rest : PyStr} (hrest : ∀ c ∈ rest.head?, isDigit c = false) :
    lead (digits n ++ rest) = (digits n, rest) := by
  by_cases hn : n = 0
  · subst hn
    rfl
  · unfold lead
    split
    · next s hs =>
      have hhead := head_digits hn
      cases hd : digits n with
      | nil => exact absurd hd (digits_ne_nil n)
      | cons c cs =>
        rw [hd, List.cons_append, List.cons.injEq] at hs
        rw [hd, List.head?_cons, hs.1] at hhead
        exact absurd rfl hhead
    · exact span_digits (fun c hc => isDigit_of_mem_digits hc) hrest

theorem scanNumber_lead (py : Interp) (negative : Bool) (s : PyStr) :
    scanNumber py negative s = match lead s with
      | (ds, rest) =>
        if ds.isEmpty then none
        else
          let (fraction, rest) := scanFraction rest
          let (exponent, rest) := scanExponent rest
          let sign : PyStr := if negative then "-" else ""
          if fraction.isEmpty && exponent.isEmpty then
            some (.int (if negative then -natOfDigits ds else natOfDigits ds), rest)
          else some (.float (py.floatOfText (sign ++ ds ++ fraction ++ exponent)), rest) := rfl

theorem scanNumber_digits (py : Interp) (negative : Bool) (n : Nat) {rest : PyStr} (h : Delimited rest) :
    scanNumber py negative (digits n ++ rest) = some (.int (if negative then -n else n), rest) := by
  have hne : (digits n).isEmpty = false := by simpa using digits_ne_nil n
  rw [scanNumber_lead, lead_digits n h.not_digit]
  simp [hne, scanFraction_delimited h, scanExponent_delimited h, natOfDigits_digits]

/-- A word begins with two characters that are no digits. -/
theorem word_begins {w : String × PyVal} (hw : w ∈ words) :
    ∃ c d rest, u w.1 = c :: d :: rest ∧ isDigit c = false ∧ isDigit d = false := by
  simp only [words, List.mem_cons, List.not_mem_nil, or_false] at hw
  rcases hw with rfl | rfl | rfl | rfl | rfl | rfl
  all_goals
    simp only [u, String.reduceToList, List.map_cons]
    exact ⟨_, _, _, rfl, by decide, by decide⟩

theorem scanWord_eq_none {s : PyStr} (h : ∀ w ∈ words, (u w.1).isPrefixOf s = false) : scanWord s = none := by
  have hw : words.find? (fun w => (u w.1).isPrefixOf s) = none := by
    rw [List.find?_eq_none]
    intro w hw
    simp [h w hw]
  rw [scanWord, hw]
  rfl

theorem scanWord_digit {c : PyChar} (h : isDigit c = true) (s : PyStr) : scanWord (c :: s) = none := by
  apply scanWord_eq_none
  intro w hw
  obtain ⟨c', d, rest, hword, hc, -⟩ := word_begins hw
  have hne : c' ≠ c := by
    rintro rfl
    simp [h] at hc
  simp [hword, List.isPrefixOf, hne]

theorem scanWord_minus {c : PyChar} (h : isDigit c = true) (s : PyStr) :
    scanWord (ch '-' :: c :: s) = none := by
  apply scanWord_eq_none
  intro w hw
  obtain ⟨c', d, rest, hword, -, hd⟩ := word_begins hw
  have hne : d ≠ c := by
    rintro rfl
    simp [h] at hd
  simp [hword, List.isPrefixOf, hne]

/-! ## Plain values -/

/-- The text of the float is a number, and wherever the number ends the float is read
back. -/
structure Reads (py : Interp) (x : PyFloat) : Prop where
  text : ∃ negative c body, isDigit c = true ∧
    floatText py x = (if negative then [ch '-'] else []) ++ c :: body ∧
    ∀ rest, Delimited rest → scanNumber py negative (c :: body ++ rest) = some (.float x, rest)

mutual
def Plain (py : Interp) : PyVal → Prop
  | .none | .bool _ | .int _ | .str _ => True
  | .float x => Reads py x
  | .list xs => PlainItems py xs
  | .dict items => PlainPairs py items
  | _ => False
def PlainItems (py : Interp) : List PyVal → Prop
  | [] => True
  | x :: xs => Plain py x ∧ PlainItems py xs
/-- The keys are strings, and no key stands twice. -/
def PlainPairs (py : Interp) : List (PyVal × PyVal) → Prop
  | [] => True
  | (.str k, v) :: items => PyMap.contains items k = false ∧ Plain py v ∧ PlainPairs py items
  | _ => False
end

theorem skip_cons {c : PyChar} (h : isJsonSpace c = false) (s : PyStr) : skip (c :: s) = c :: s := by
  simp [skip, h]

/-- A character that can begin the text of a value. -/
def Opens (c : PyChar) : Prop := isJsonSpace c = false ∧ c ≠ ch ']' ∧ c ≠ ch '\x7d'

instance : DecidablePred Opens := fun _ => inferInstanceAs (Decidable (_ ∧ _ ∧ _))

theorem opens_of_isDigit {c : PyChar} (h : isDigit c = true) : Opens c := by
  refine ⟨?_, ?_, ?_⟩
  · cases hs : isJsonSpace c with
    | false => rfl
    | true =>
      simp only [isJsonSpace, Bool.or_eq_true, decide_eq_true_eq] at hs
      rcases hs with ((rfl | rfl) | rfl) | rfl <;> exact absurd h (by decide)
  · rintro rfl
    exact absurd h (by decide)
  · rintro rfl
    exact absurd h (by decide)

theorem digits_eq_cons (n : Nat) : ∃ c cs, digits n = c :: cs ∧ isDigit c = true := by
  cases hd : digits n with
  | nil => exact absurd hd (digits_ne_nil n)
  | cons c cs => exact ⟨c, cs, rfl, isDigit_of_mem_digits (hd ▸ List.mem_cons_self)⟩

theorem opens_write {py : Interp} {v : PyVal} {t : PyStr} (hv : Plain py v) (ht : write py v = .ok t) :
    ∃ c cs, t = c :: cs ∧ Opens c := by
  have hminus : Opens (ch '-') := by decide +kernel
  cases v with
  | none => cases ht; exact ⟨_, _, rfl, by decide +kernel⟩
  | bool b => cases b <;> cases ht <;> exact ⟨_, _, rfl, by decide +kernel⟩
  | int n =>
    cases ht
    rw [intText_eq]
    split
    · exact ⟨_, _, rfl, hminus⟩
    · obtain ⟨c, cs, hd, hc⟩ := digits_eq_cons n.natAbs
      exact ⟨c, cs, hd, opens_of_isDigit hc⟩
  | float x =>
    cases ht
    obtain ⟨negative, c, body, hc, ht, -⟩ := Reads.text hv
    rw [ht]
    cases negative with
    | true => exact ⟨_, _, rfl, hminus⟩
    | false => exact ⟨_, _, rfl, opens_of_isDigit hc⟩
  | str s => cases ht; exact ⟨_, _, rfl, by decide +kernel⟩
  | list xs =>
    obtain ⟨items, -, he⟩ := Effects.bind_eq_ok ht
    cases he
    exact ⟨_, _, rfl, by decide +kernel⟩
  | dict items =>
    obtain ⟨pairs, -, he⟩ := Effects.bind_eq_ok ht
    cases he
    exact ⟨_, _, rfl, by decide +kernel⟩
  | _ => exact absurd hv id

theorem opens_items {py : Interp} {x : PyVal} {xs : List PyVal} {t : PyStr} (hv : PlainItems py (x :: xs))
    (ht : writeItems py (x :: xs) = .ok t) : ∃ c cs, t = c :: cs ∧ Opens c := by
  obtain ⟨first, hfirst, ht⟩ := Effects.bind_eq_ok ht
  obtain ⟨others, -, ht⟩ := Effects.bind_eq_ok ht
  obtain ⟨c, cs, rfl, hc⟩ := opens_write hv.1 hfirst
  cases ht
  exact ⟨c, _, rfl, hc⟩

theorem quote_pairs {py : Interp} {kv : PyVal × PyVal} {items : PyMap} {t : PyStr}
    (hv : PlainPairs py (kv :: items)) (ht : writePairs py (kv :: items) = .ok t) : ∃ cs, t = ch '"' :: cs := by
  obtain ⟨k, v⟩ := kv
  cases k with
  | str k =>
    obtain ⟨key, hkey, ht⟩ := Effects.bind_eq_ok ht
    obtain ⟨value, -, ht⟩ := Effects.bind_eq_ok ht
    obtain ⟨others, -, ht⟩ := Effects.bind_eq_ok ht
    cases ht
    exact ⟨_, rfl⟩
  | _ => exact absurd hv id

/-! ## Reading what was written -/

section

variable (py : Interp) (fuel : Nat) (rest : PyStr)

theorem scanOnce_other {c : PyChar} (h : c ≠ ch '"' ∧ c ≠ ch '[' ∧ c ≠ ch '\x7b' ∧ c ≠ ch '-') (s : PyStr) :
    scanOnce py (fuel + 1) (c :: s) = (scanWord (c :: s) <|> scanNumber py false (c :: s)) := by
  rw [scanOnce, if_neg h.1, if_neg h.2.1, if_neg h.2.2.1, if_neg h.2.2.2]

theorem scanOnce_digit {c : PyChar} (h : isDigit c = true) (s : PyStr) :
    scanOnce py (fuel + 1) (c :: s) = scanNumber py false (c :: s) := by
  rw [scanOnce_other, scanWord_digit h]
  · rfl
  · refine ⟨?_, ?_, ?_, ?_⟩ <;> (rintro rfl; exact absurd h (by decide))

theorem scanOnce_minus {c : PyChar} (h : isDigit c = true) (s : PyStr) :
    scanOnce py (fuel + 1) (ch '-' :: c :: s) = scanNumber py true (c :: s) := by
  have h₁ : ch '-' ≠ ch '"' ∧ ch '-' ≠ ch '[' ∧ ch '-' ≠ ch '\x7b' := by decide
  rw [scanOnce, if_neg h₁.1, if_neg h₁.2.1, if_neg h₁.2.2, if_pos rfl, scanWord_minus h]
  rfl

theorem scanOnce_word {w : String × PyVal} (hw : w ∈ [("null", .none), ("true", .bool true), ("false", .bool false)]) :
    scanOnce py (fuel + 1) (u w.1 ++ rest) = some (w.2, rest) := by
  simp only [List.mem_cons, List.not_mem_nil, or_false] at hw
  rcases hw with rfl | rfl | rfl
  all_goals
    simp only [u, String.reduceToList, List.map_cons, List.map_nil, List.cons_append, List.nil_append]
    rw [scanOnce_other py fuel (by decide)]
    simp [scanWord, words, u, List.isPrefixOf, show "null".length = 4 from rfl,
      show "true".length = 4 from rfl, show "false".length = 5 from rfl]

theorem scanOnce_quote (s : PyStr) : scanOnce py (fuel + 1) (quote s ++ rest) = some (.str s, rest) := by
  have hlen := length_le_quoted s
  have hscan : scanString ((s.flatMap escape ++ ch '"' :: rest).length + 1) (s.flatMap escape ++ ch '"' :: rest) =
      some (s, rest) := scanString_quoted s rest (by rw [List.length_append]; omega)
  have hquote : quote s ++ rest = ch '"' :: (s.flatMap escape ++ ch '"' :: rest) := by simp [quote]
  rw [hquote, scanOnce, if_pos rfl, hscan]
  rfl

theorem scanOnce_int (n : Int) (h : Delimited rest) :
    scanOnce py (fuel + 1) (intText n ++ rest) = some (.int n, rest) := by
  obtain ⟨c, cs, hd, hc⟩ := digits_eq_cons n.natAbs
  have hnum := fun negative => scanNumber_digits py negative n.natAbs h
  rw [hd] at hnum
  rw [intText_eq]
  split
  · next hn =>
    rw [hd, List.cons_append, List.cons_append, scanOnce_minus py fuel hc, ← List.cons_append, hnum true, if_pos rfl]
    congr 3
    omega
  · next hn =>
    rw [hd, List.cons_append, scanOnce_digit py fuel hc, ← List.cons_append, hnum false]
    simp only [Bool.false_eq_true, if_false]
    congr 3
    omega

theorem scanOnce_float {x : PyFloat} (hx : Reads py x) (h : Delimited rest) :
    scanOnce py (fuel + 1) (floatText py x ++ rest) = some (.float x, rest) := by
  obtain ⟨negative, c, body, hc, ht, hscan⟩ := hx.text
  rw [ht]
  cases negative with
  | true =>
    simp only [if_true, List.cons_append, List.nil_append]
    rw [scanOnce_minus py fuel hc]
    exact hscan rest h
  | false =>
    simp only [Bool.false_eq_true, if_false, List.nil_append, List.cons_append]
    rw [scanOnce_digit py fuel hc]
    exact hscan rest h

end

/-- A new key goes to the end. -/
theorem set_new {d : PyMap} {k : PyStr} (h : PyMap.contains d k = false) (v : PyVal) :
    d.set k v = d ++ [(.str k, v)] :=
  PyMap.put_of_find_eq_none (by simpa [PyMap.contains] using h) _ _

theorem contains_cons (items : PyMap) (k j : PyStr) (v : PyVal) :
    PyMap.contains ((.str k, v) :: items) j = (k == j || PyMap.contains items j) := by
  by_cases h : k = j
  · simp [PyMap.contains, find, h]
  · simp [PyMap.contains, find, h]

/-- One pair, up to what follows its value. -/
theorem scanPairs_first {py : Interp} {fuel : Nat} {d : PyMap} {k : PyStr} {v : PyVal} {c : PyChar}
    {cs tail : PyStr} (hopen : Opens c) (hx : scanOnce py fuel (c :: cs ++ tail) = some (v, tail)) :
    scanPairs py (fuel + 1) d (quote k ++ [ch ':'] ++ (c :: cs) ++ tail) =
      match skip tail with
      | .scalar '\x7d' :: rest => some (d.set k v, rest)
      | .scalar ',' :: rest => scanPairs py fuel (d.set k v) (skip rest)
      | _ => none := by
  have htext : quote k ++ [ch ':'] ++ (c :: cs) ++ tail =
      .scalar '"' :: (k.flatMap escape ++ ch '"' :: ch ':' :: (c :: cs ++ tail)) := by simp [quote, ch]
  have hlen : k.length < (k.flatMap escape ++ ch '"' :: ch ':' :: (c :: cs ++ tail)).length + 1 := by
    have hle := length_le_quoted k
    rw [List.length_append]
    omega
  rw [htext, scanPairs, scanString_quoted k _ hlen]
  simp only [Option.bind_eq_bind, Option.bind_some]
  rw [skip_cons (by decide)]
  show ((scanOnce py fuel (skip (c :: (cs ++ tail)))).bind _) = _
  rw [skip_cons hopen.1, ← List.cons_append, hx]
  rfl

mutual
theorem scanOnce_write {py : Interp} : ∀ v, Plain py v → ∀ t, write py v = .ok t → ∀ rest fuel,
    Delimited rest → t.length < fuel → scanOnce py fuel (t ++ rest) = some (v, rest)
  | _, _, _, _, _, 0, _, hf => by cases hf
  | .none, _, t, ht, rest, fuel + 1, _, _ => by
    cases ht
    exact scanOnce_word py fuel rest (w := ("null", .none)) (by simp)
  | .bool b, _, t, ht, rest, fuel + 1, _, _ => by
    cases b with
    | true => cases ht; exact scanOnce_word py fuel rest (w := ("true", .bool true)) (by simp)
    | false => cases ht; exact scanOnce_word py fuel rest (w := ("false", .bool false)) (by simp)
  | .int n, _, t, ht, rest, fuel + 1, hr, _ => by
    cases ht
    exact scanOnce_int py fuel rest n hr
  | .float x, hx, t, ht, rest, fuel + 1, hr, _ => by
    cases ht
    exact scanOnce_float py fuel rest hx hr
  | .str s, _, t, ht, rest, fuel + 1, _, _ => by
    cases ht
    exact scanOnce_quote py fuel rest s
  | .list xs, hv, t, ht, rest, fuel + 1, hr, hf => by
    obtain ⟨items, hi, he⟩ := Effects.bind_eq_ok ht
    cases he
    have hb : ch '[' ≠ ch '"' := by decide
    cases xs with
    | nil =>
      cases hi
      simp only [List.nil_append, List.cons_append]
      rw [scanOnce, if_neg hb, if_pos rfl, skip_cons (by decide)]
      rfl
    | cons x xs =>
      have hscan := scanItems_write (x :: xs) (by simp) hv items hi rest fuel (by simp at hf; omega)
      obtain ⟨c, cs, hc, hopen⟩ := opens_items hv hi
      rw [hc] at hscan ⊢
      simp only [List.cons_append, List.append_assoc, List.nil_append] at hscan ⊢
      rw [scanOnce, if_neg hb, if_pos rfl, skip_cons hopen.1]
      split
      · next h => exact absurd (List.cons.inj h).1 hopen.2.1
      · rw [hscan]; rfl
  | .dict items, hv, t, ht, rest, fuel + 1, hr, hf => by
    obtain ⟨pairs, hi, he⟩ := Effects.bind_eq_ok ht
    cases he
    have hb : ch '\x7b' ≠ ch '"' ∧ ch '\x7b' ≠ ch '[' := by decide
    cases items with
    | nil =>
      cases hi
      simp only [List.nil_append, List.cons_append]
      rw [scanOnce, if_neg hb.1, if_neg hb.2, if_pos rfl, skip_cons (by decide)]
      rfl
    | cons kv items =>
      have hscan := scanPairs_write (kv :: items) (by simp) hv pairs hi [] rest fuel (fun _ _ => rfl)
        (by simp at hf; omega)
      obtain ⟨cs, hc⟩ := quote_pairs hv hi
      rw [hc] at hscan ⊢
      simp only [List.cons_append, List.append_assoc, List.nil_append] at hscan ⊢
      rw [scanOnce, if_neg hb.1, if_neg hb.2, if_pos rfl, skip_cons (by decide)]
      split
      · next h => exact absurd (List.cons.inj h).1 (by decide)
      · rw [hscan]; rfl
  | .bytes _, hv, _, _, _, _ + 1, _, _ | .tuple _, hv, _, _, _, _ + 1, _, _ | .set _, hv, _, _, _, _ + 1, _, _
  | .dataclass _, hv, _, _, _, _ + 1, _, _ | .datetime _, hv, _, _, _, _ + 1, _, _
  | .enum _ _, hv, _, _, _, _ + 1, _, _ | .object _ _ _, hv, _, _, _, _ + 1, _, _ => absurd hv id
theorem scanItems_write {py : Interp} : ∀ xs, xs ≠ [] → PlainItems py xs → ∀ t, writeItems py xs = .ok t →
    ∀ rest fuel, t.length + 1 < fuel → scanItems py fuel (t ++ ch ']' :: rest) = some (xs, rest)
  | [], hne, _, _, _, _, _, _ => absurd rfl hne
  | _, _, _, _, _, _, 0, hf => by cases hf
  | x :: xs, _, hv, t, ht, rest, fuel + 1, hf => by
    obtain ⟨first, hfirst, ht⟩ := Effects.bind_eq_ok ht
    obtain ⟨others, hothers, ht⟩ := Effects.bind_eq_ok ht
    cases ht
    cases xs with
    | nil =>
      cases hothers
      have hx := scanOnce_write x hv.1 first hfirst (ch ']' :: rest) fuel (delimited_bracket rest)
        (by simp at hf; omega)
      simp only [List.isEmpty_nil, if_true, List.append_nil]
      rw [scanItems, hx]
      simp only [Option.bind_eq_bind, Option.bind_some]
      rw [skip_cons (by decide)]
      rfl
    | cons y ys =>
      have hlen : first.length + others.length + 1 < fuel := by
        simp at hf
        omega
      have hx := scanOnce_write x hv.1 first hfirst (ch ',' :: (others ++ ch ']' :: rest)) fuel
        (delimited_comma _) (by omega)
      have hxs := scanItems_write (y :: ys) (by simp) hv.2 others hothers rest fuel (by omega)
      obtain ⟨c, cs, rfl, hopen⟩ := opens_items hv.2 hothers
      have htext : first ++ [ch ','] ++ (c :: cs) ++ ch ']' :: rest =
          first ++ ch ',' :: (c :: cs ++ ch ']' :: rest) := by simp
      simp only [List.isEmpty_cons, Bool.false_eq_true, if_false]
      rw [htext, scanItems, hx]
      simp only [Option.bind_eq_bind, Option.bind_some]
      rw [skip_cons (by decide)]
      show (scanItems py fuel (skip (c :: cs ++ ch ']' :: rest))).bind _ = _
      rw [List.cons_append, skip_cons hopen.1, ← List.cons_append, hxs]
      rfl
theorem scanPairs_write {py : Interp} : ∀ items, items ≠ [] → PlainPairs py items → ∀ t,
    writePairs py items = .ok t → ∀ (d : PyMap) rest fuel,
      (∀ k, PyMap.contains items k = true → PyMap.contains d k = false) → t.length + 1 < fuel →
      scanPairs py fuel d (t ++ ch '\x7d' :: rest) = some (d ++ items, rest)
  | [], hne, _, _, _, _, _, _, _, _ => absurd rfl hne
  | _, _, _, _, _, _, _, 0, _, hf => by cases hf
  | (.str k, v) :: items, _, hv, t, ht, d, rest, fuel + 1, hd, hf => by
    obtain ⟨key, hkey, ht⟩ := Effects.bind_eq_ok ht
    cases hkey
    obtain ⟨value, hvalue, ht⟩ := Effects.bind_eq_ok ht
    obtain ⟨others, hothers, ht⟩ := Effects.bind_eq_ok ht
    cases ht
    obtain ⟨hnew, hv, hitems⟩ := hv
    have hset := set_new (hd k (by simp [contains_cons])) v
    obtain ⟨c, cs, rfl, hopen⟩ := opens_write hv hvalue
    cases items with
    | nil =>
      cases hothers
      have hx := scanOnce_write v hv (c :: cs) hvalue (ch '\x7d' :: rest) fuel (delimited_brace rest)
        (by simp at hf ⊢; omega)
      simp only [List.isEmpty_nil, if_true, List.append_nil]
      rw [scanPairs_first hopen hx, skip_cons (by decide), ← hset]
      rfl
    | cons kv items =>
      have hlen : (c :: cs).length + others.length + 1 < fuel := by
        simp at hf ⊢
        omega
      have hx := scanOnce_write v hv (c :: cs) hvalue (ch ',' :: (others ++ ch '\x7d' :: rest)) fuel
        (delimited_comma _) (by omega)
      have hd' : ∀ j, PyMap.contains (kv :: items) j = true → PyMap.contains (d.set k v) j = false := by
        intro j hj
        have hne : j ≠ k := by
          rintro rfl
          rw [hnew] at hj
          cases hj
        rw [PyMap.contains_set, hd j (by rw [contains_cons, hj, Bool.or_true]), Bool.or_false]
        simpa using hne
      have hxs := scanPairs_write (kv :: items) (by simp) hitems others hothers (d.set k v) rest fuel hd'
        (by omega)
      obtain ⟨cs', rfl⟩ := quote_pairs hitems hothers
      have htext : quote k ++ [ch ':'] ++ (c :: cs) ++ [ch ','] ++ (ch '"' :: cs') ++ ch '\x7d' :: rest =
          quote k ++ [ch ':'] ++ (c :: cs) ++ ch ',' :: (ch '"' :: cs' ++ ch '\x7d' :: rest) := by simp
      simp only [List.isEmpty_cons, Bool.false_eq_true, if_false]
      rw [htext, scanPairs_first hopen hx, skip_cons (by decide)]
      show scanPairs py fuel (d.set k v) (skip (ch '"' :: cs' ++ ch '\x7d' :: rest)) = _
      rw [List.cons_append, skip_cons (by decide), ← List.cons_append, hxs, hset]
      simp
  | (.none, _) :: _, _, hv, _, _, _, _, _ + 1, _, _ | (.bool _, _) :: _, _, hv, _, _, _, _, _ + 1, _, _
  | (.int _, _) :: _, _, hv, _, _, _, _, _ + 1, _, _ | (.float _, _) :: _, _, hv, _, _, _, _, _ + 1, _, _
  | (.bytes _, _) :: _, _, hv, _, _, _, _, _ + 1, _, _ | (.list _, _) :: _, _, hv, _, _, _, _, _ + 1, _, _
  | (.tuple _, _) :: _, _, hv, _, _, _, _, _ + 1, _, _ | (.set _, _) :: _, _, hv, _, _, _, _, _ + 1, _, _
  | (.dict _, _) :: _, _, hv, _, _, _, _, _ + 1, _, _ | (.dataclass _, _) :: _, _, hv, _, _, _, _, _ + 1, _, _
  | (.datetime _, _) :: _, _, hv, _, _, _, _, _ + 1, _, _ | (.enum _ _, _) :: _, _, hv, _, _, _, _, _ + 1, _, _
  | (.object _ _ _, _) :: _, _, hv, _, _, _, _, _ + 1, _, _ => absurd hv id
end

/-- A plain value is read back from its text. -/
theorem loads_write {py : Interp} {v : PyVal} {t : PyStr} (hv : Plain py v) (ht : write py v = .ok t) :
    loads py t = .ok v := by
  obtain ⟨c, cs, hc, hopen⟩ := opens_write hv ht
  have hscan := scanOnce_write v hv t ht [] (2 * t.length + 2) delimited_nil (by omega)
  have hskip : skip t = t := by rw [hc, skip_cons hopen.1]
  rw [List.append_nil] at hscan
  rw [loads, hskip, hscan]
  rfl

/-- A plain value is read back from its bytes. -/
theorem loads_dumps {py : Interp} {v : PyVal} {bytes : Bytes} (hv : Plain py v) (hd : dumps py v = .ok bytes) :
    ∃ text, decode bytes = some text ∧ loads py text = .ok v := by
  obtain ⟨text, ht, hd⟩ := Effects.bind_eq_ok hd
  split at hd
  · next b he =>
    cases hd
    exact ⟨text, decode_encode he, loads_write hv ht⟩
  · cases hd

end PyJsonReading
