import BtApiBase.BearerWords

/-!
# Bearer tokens

A token behind the word Bearer is redacted by the last pass, unless an earlier match has
taken the word: as the value of a sensitive key, as part of a URL, or as the token of an
earlier Bearer. What stands before the token decides that.
-/

namespace BearerTokens

open PyText PyValue PyReplace PyScan Redaction RedactionPatterns BearerWords

/-- `A-Z a-z 0-9 . _ ~ + / = -` -/
def tokenCharacter : PyChar → Bool
  | .scalar c => c.isAlphanum || "._~+/=-".toList.contains c
  | _ => false

theorem of_tokenCharacter {c : PyChar} (h : tokenCharacter c = true) : isSpace c = false ∧ tokenChar c = true := by
  have hascii : ∀ n < 128, tokenCharacter (.scalar (Char.ofNat n)) = true →
      isSpace (.scalar (Char.ofNat n)) = false ∧ tokenChar (.scalar (Char.ofNat n)) = true := by
    decide +kernel
  cases c with
  | surrogate v => cases h
  | scalar d =>
    have hd : d.toNat < 128 := by
      have hsigns : ∀ e ∈ ['.', '_', '~', '+', '/', '=', '-'], e.toNat < 128 := by simp
      rw [tokenCharacter, Bool.or_eq_true, List.contains_iff_mem] at h
      rcases h with h | h
      · simp only [Char.isAlphanum, Char.isAlpha, Char.isUpper, Char.isLower, Char.isDigit, Bool.or_eq_true,
          Bool.and_eq_true, decide_eq_true_eq, ge_iff_le, UInt32.le_iff_toNat_le] at h
        have hz : 'z'.val.toNat = 122 := rfl
        have hZ : 'Z'.val.toNat = 90 := rfl
        have h9 : '9'.val.toNat = 57 := rfl
        have hd : d.toNat = d.val.toNat := rfl
        omega
      · exact hsigns d h
    have hof := hascii d.toNat hd
    rw [Char.ofNat_toNat] at hof
    exact hof h

/-- A text with the word Bearer at a word boundary, a blank, and a whole run of token
characters that occurs once. -/
structure BearerText (w : WordClass) where
  pre : PyStr
  word : PyStr
  tok : PyStr
  post : PyStr
  bearer : literal "bearer".toList word = some []
  starts : boundary w pre.getLast? word = true
  run : ∀ c ∈ tok, tokenCharacter c = true
  maximal : ∀ c ∈ post.head?, tokenCharacter c = false
  long : 8 ≤ tok.length
  once : (pre ++ word ++ .scalar ' ' :: (tok ++ post)).tails.countP (tok.isPrefixOf ·) = 1

def BearerText.text {w : WordClass} (t : BearerText w) : PyStr := t.pre ++ t.word ++ .scalar ' ' :: (t.tok ++ t.post)

/-- The part that the span gives up meets the word that stands behind `a`. -/
def Meets (span : Nat × Nat) (a tok : PyStr) : Prop := span.1 < a.length + tok.length ∧ a.length < span.2

/-- Between the values of sensitive keys, wherever the token stands it meets the token of
a match of the bearer pattern. -/
def Covered (w : WordClass) (text tok : PyStr) : Prop :=
  ∀ part ∈ pieces keyValue text, ∀ a b, part = a ++ tok ++ b → ∃ span ∈ spans (bearer w) part, Meets span a tok

theorem not_spared_iff {a tok : PyStr} {l : List (Nat × Nat)} :
    ¬Spared 0 a tok l ↔ ∃ span ∈ l, Meets span a tok := by
  simp only [Spared, Meets, Nat.zero_add, not_forall, not_or, Nat.not_le, exists_prop]

theorem not_exposed_iff {w : WordClass} {part tok : PyStr} (hne : tok ≠ []) :
    ¬Exposed (bearer w) none 0 part tok ↔
      ∀ a b, part = a ++ tok ++ b → ∃ span ∈ spans (bearer w) part, Meets span a tok := by
  have h : Exposed (bearer w) none 0 part tok ↔
      ∃ a b, part = a ++ tok ++ b ∧ Spared 0 a tok (spans (bearer w) part) := infix_piece_iff hne
  rw [h]
  simp only [not_exists, not_and, not_spared_iff]

/-- The last two passes hide a word exactly where both leave it nowhere. -/
theorem not_infix_passes_iff (w : WordClass) (sanitizeUrl : PyStr → PyStr) (text : PyStr) {tok : PyStr}
    (hne : tok ≠ []) (hstar : .scalar '*' ∉ tok) :
    ¬tok <:+: (passes w sanitizeUrl).bearer ((passes w sanitizeUrl).keyValue text) ↔ Covered w text tok := by
  have hkept : ∀ s, tok <:+: sub (bearer w) (fun _ => redacted) s ↔ Exposed (bearer w) none 0 s tok := by
    intro s
    rw [infix_sub_iff hne (by decide) (not_mem_of_mem_redacted hstar), ← infix_piece_iff hne]
    rfl
  have hall : ∀ c ∈ redacted, c = .scalar '*' := by decide
  show ¬tok <:+: sub (bearer w) (fun _ => redacted) (sub keyValue (fun _ => redacted) text) ↔ _
  rw [hkept, sub_eq_intercalate, exposed_intercalate (star_separates w) hne hstar (by decide) hall]
  simp only [not_exists, not_and, not_exposed_iff hne, Covered]

theorem covered_of_gone {w : WordClass} {text tok : PyStr} (h : ¬tok <:+: text) : Covered w text tok := by
  intro part hpart a b heq
  obtain ⟨before, after, hsplit, -⟩ := infix_of_mem_piecesFrom (Nat.zero_le _) hpart
  refine absurd ⟨before ++ a, b ++ after, ?_⟩ h
  rw [hsplit, heq]
  simp

theorem star_not_mem {tok : PyStr} (h : ∀ c ∈ tok, tokenCharacter c = true) : .scalar '*' ∉ tok := by
  intro hstar
  have := h _ hstar
  revert this
  decide

/-! ## What stands before the token -/

/-- What follows the last value of a sensitive key. -/
def sinceValue (before : PyStr) : PyStr := (pieces keyValue before).getLastD []

/-- The word at the end of `before` is not the end of the value of a sensitive key, and since
the last such value not the end of the token of an earlier Bearer. -/
structure Announces (w : WordClass) (before : PyStr) : Prop where
  value : ∀ span ∈ spans keyValue before, span.2 < before.length
  token : ∀ span ∈ spans (bearer w) (sinceValue before), span.2 < (sinceValue before).length

/-- The token that starts `s` holds the value of a sensitive key, as `token=` and what follows. -/
def HoldsValue (tok s : PyStr) : Prop := ∃ span ∈ spans keyValue s, span.1 < tok.length

theorem exists_concat_of_suffix {m s : PyStr} {c : PyChar} (hs : s <:+ m ++ [c]) (hne : s ≠ []) :
    ∃ i, s = i ++ [c] := by
  obtain ⟨a, heq⟩ := hs
  obtain ⟨i, d, rfl⟩ := (List.eq_nil_or_concat s).resolve_left hne
  rw [List.concat_eq_append, ← List.append_assoc] at heq
  obtain ⟨-, hd⟩ := List.append_inj' heq rfl
  exact ⟨i, by rw [List.concat_eq_append, List.singleton_inj.mp hd]⟩

theorem countP_tails_pos {s tok a b : PyStr} (h : s = a ++ tok ++ b) : 0 < s.tails.countP (tok.isPrefixOf ·) := by
  rw [List.countP_pos_iff]
  refine ⟨tok ++ b, ?_, List.isPrefixOf_iff_prefix.mpr (List.prefix_append tok b)⟩
  rw [List.mem_tails, h, List.append_assoc]
  exact List.suffix_append a _

/-- What occurs once occurs at one place. -/
theorem place_unique {s tok a a' b b' : PyStr} (hone : s.tails.countP (tok.isPrefixOf ·) = 1)
    (h : s = a ++ tok ++ b) (h' : s = a' ++ tok ++ b') : a = a' := by
  have hhead : ∀ {c : PyChar} {s a b b' : PyStr}, (c :: s).tails.countP (tok.isPrefixOf ·) = 1 →
      c :: s = tok ++ b → s ≠ a ++ tok ++ b' := by
    intro c s a b b' hone hb hs
    have hfirst : tok.isPrefixOf (c :: s) = true := by
      rw [hb]
      exact List.isPrefixOf_iff_prefix.mpr (List.prefix_append tok b)
    have hrest := countP_tails_pos hs
    rw [List.tails_cons, List.countP_cons, hfirst] at hone
    simp only [↓reduceIte] at hone
    omega
  induction s generalizing a a' with
  | nil =>
    have hnil : ∀ {a b : PyStr}, [] = a ++ tok ++ b → a = [] := fun he =>
      (List.append_eq_nil_iff.mp (List.append_eq_nil_iff.mp he.symm).1).1
    rw [hnil h, hnil h']
  | cons c s ih =>
    cases a with
    | nil =>
      cases a' with
      | nil => rfl
      | cons d' a' => exact absurd (List.cons.inj h').2 (hhead hone h)
    | cons d a =>
      cases a' with
      | nil => exact absurd (List.cons.inj h).2 (hhead hone h')
      | cons d' a' =>
        obtain ⟨rfl, hs⟩ := List.cons.inj h
        obtain ⟨rfl, hs'⟩ := List.cons.inj h'
        have hpos := countP_tails_pos hs
        rw [List.tails_cons, List.countP_cons] at hone
        rw [ih (by split at hone <;> omega) hs hs']

/-- The word at a word boundary, a blank, and a long run of token characters that stands
nowhere else. -/
structure Phrase (w : WordClass) where
  pre : PyStr
  word : PyStr
  tok : PyStr
  post : PyStr
  bearer : IsBearer word
  starts : boundary w pre.getLast? word = true
  run : ∀ c ∈ tok, tokenCharacter c = true
  long : 8 ≤ tok.length
  alone : ∀ a b, pre ++ word ++ blank :: (tok ++ post) = a ++ tok ++ b → a = pre ++ word ++ [blank]

def Phrase.text {w : WordClass} (t : Phrase w) : PyStr := t.pre ++ t.word ++ blank :: (t.tok ++ t.post)

section

variable {w : WordClass} (t : Phrase w)

theorem tok_ne_nil {tok : PyStr} (h : 8 ≤ tok.length) : tok ≠ [] := by
  rintro rfl
  rw [List.length_nil] at h
  omega

theorem tok_character {c : PyChar} (hc : c ∈ t.tok) : isSpace c = false ∧ tokenChar c = true :=
  of_tokenCharacter (t.run c hc)

/-- Up to the word the key-value pattern reads what it would read without the token. -/
theorem pieces_text : ∃ init last first rest, pieces keyValue (t.pre ++ t.word) = init ++ [last] ∧
    pieces keyValue (t.tok ++ t.post) = first :: rest ∧
    pieces keyValue t.text = init ++ (last ++ blank :: first) :: rest := by
  obtain ⟨a, c, hword, hc⟩ := IsBearer.last t.bearer
  have hblank : ∀ before, keyValue.matchAt before (blank :: (t.tok ++ t.post)) = none :=
    fun _ => keyValueAt_blank (t.tok ++ t.post)
  have hpast : ∀ before s, s <:+ t.pre ++ t.word → s ≠ [] →
      keyValue.matchAt before (s ++ blank :: (t.tok ++ t.post)) = keyValue.matchAt before s := by
    intro _ s hs hne
    rw [hword, ← List.append_assoc] at hs
    obtain ⟨i, rfl⟩ := exists_concat_of_suffix hs hne
    exact keyValueAt_append hc i _
  have hfresh : piecesFrom keyValue (some blank) 0 (t.tok ++ t.post) = pieces keyValue (t.tok ++ t.post) := by
    cases t.tok ++ t.post <;> rfl
  cases hfirst : pieces keyValue (t.tok ++ t.post) with
  | nil => exact absurd hfirst (piecesFrom_ne_nil _ _ _)
  | cons first rest =>
    have hsplit : ∃ init last, pieces keyValue (t.pre ++ t.word) = init ++ [last] ∧
        pieces keyValue t.text = init ++ (last ++ blank :: first) :: rest :=
      piecesFrom_append_cons hpast hblank (hfresh.trans hfirst) (Nat.zero_le _)
    obtain ⟨init, last, hbefore, htext⟩ := hsplit
    exact ⟨init, last, first, rest, hbefore, rfl, htext⟩

theorem Phrase.text_eq : t.text = t.pre ++ t.word ++ blank :: (t.tok ++ t.post) := rfl

theorem holdsValue_iff {first : PyStr} {rest : List PyStr} (hfirst : pieces keyValue (t.tok ++ t.post) = first :: rest) :
    HoldsValue t.tok (t.tok ++ t.post) ↔ ¬ t.tok <+: first := by
  have hhead : t.tok <+: (piecesFrom keyValue none 0 (t.tok ++ t.post)).headD [] ↔ _ := prefix_head_iff (i := 0)
  rw [show piecesFrom keyValue none 0 (t.tok ++ t.post) = first :: rest from hfirst, List.headD_cons] at hhead
  rw [hhead]
  simp only [HoldsValue, List.prefix_append, true_and, not_forall, Nat.zero_add, not_le, exists_prop]
  rfl

/-- Of the pieces only the one that holds the blank may hold the token, and there it
follows the blank. -/
theorem covered_iff_middle {init rest : List PyStr} {last first : PyStr}
    (hbefore : pieces keyValue (t.pre ++ t.word) = init ++ [last])
    (hfirst : pieces keyValue (t.tok ++ t.post) = first :: rest)
    (htext : pieces keyValue t.text = init ++ (last ++ blank :: first) :: rest) :
    Covered w t.text t.tok ↔
      (t.tok <+: first → ∃ span ∈ spans (bearer w) (last ++ blank :: first), Meets span (last ++ [blank]) t.tok) := by
  -- an occurrence in the piece in the middle
  have hmiddle : ∀ a b, last ++ blank :: first = a ++ t.tok ++ b → a = last ++ [blank] := by
    intro a b heq
    obtain ⟨before, hlast⟩ := (last_piecesFrom hbefore).1
    obtain ⟨after, hafter⟩ : first <+: t.tok ++ t.post := by
      have hhead : first <+: (piecesFrom keyValue none 0 (t.tok ++ t.post)).headD [] := by
        rw [show piecesFrom keyValue none 0 (t.tok ++ t.post) = first :: rest from hfirst]
        exact List.prefix_refl _
      exact ((prefix_head_iff (i := 0)).mp hhead).1
    have hwhole : t.text = before ++ a ++ t.tok ++ (b ++ after) := by
      have hparts : before ++ last ++ blank :: (first ++ after) = before ++ (last ++ blank :: first) ++ after := by
        simp
      rw [Phrase.text_eq, ← hlast, ← hafter, hparts, heq]
      simp
    have hplace := t.alone _ _ hwhole
    rw [← hlast, List.append_assoc] at hplace
    exact List.append_cancel_left hplace
  constructor
  · rintro h ⟨f, hf⟩
    exact h _ (by rw [htext]; simp) (last ++ [blank]) f (by rw [← hf]; simp)
  · intro h part hpart a b heq
    rw [htext] at hpart
    rcases List.mem_append.mp hpart with hinit | hpart
    · have hmem : part ∈ pieces keyValue (t.pre ++ t.word) := by
        rw [hbefore]
        exact List.mem_append_left _ hinit
      obtain ⟨before, after, hsplit, -⟩ := infix_of_mem_piecesFrom (Nat.zero_le _) hmem
      have hwhole : t.text = before ++ a ++ t.tok ++ (b ++ after ++ blank :: (t.tok ++ t.post)) := by
        rw [Phrase.text_eq, hsplit, heq]
        simp
      have hplace := congrArg List.length (t.alone _ _ hwhole)
      have hlength := congrArg List.length hsplit
      rw [heq] at hlength
      simp only [List.length_append, List.length_cons, List.length_nil] at hplace hlength
      omega
    · rcases List.mem_cons.mp hpart with rfl | hrest
      · obtain rfl := hmiddle a b heq
        refine h ⟨b, ?_⟩
        simpa using heq.symm
      · have hmem : part ∈ (pieces keyValue (t.tok ++ t.post)).tail := by
          rw [hfirst]
          exact hrest
        obtain ⟨before, after, hsplit, hbehind⟩ := infix_of_mem_tail hmem
        have hwhole : t.text = t.pre ++ t.word ++ [blank] ++ before ++ a ++ t.tok ++ (b ++ after) := by
          rw [Phrase.text_eq, hsplit, heq]
          simp
        have hplace := congrArg List.length (t.alone _ _ hwhole)
        simp only [List.length_append, List.length_cons, List.length_nil] at hplace
        exact absurd (List.eq_nil_of_length_eq_zero (by omega)) hbehind

/-- No match gives up part of the token but the one at the word before it. -/
theorem not_meets_behind {last f : PyStr} {before : Option PyChar} {span : Nat × Nat}
    (h : span ∈ spansFrom (bearer w) before 0 (last.length + 1) (t.tok ++ f)) :
    ¬ Meets span (last ++ [blank]) t.tok := by
  have hle := le_spansFrom_append bearer_reads_blank (fun c hc => (tok_character t hc).1) h
  rintro ⟨hmeets, -⟩
  simp only [List.length_append, List.length_singleton] at hmeets
  omega

/-- Where the value of a key has taken the word, the token stays. -/
theorem not_meets_taken {f : PyStr} {span : Nat × Nat} (h : span ∈ spans (bearer w) ([] ++ blank :: (t.tok ++ f))) :
    ¬ Meets span ([] ++ [blank]) t.tok := by
  have hblank : (bearer w).matchAt none (blank :: (t.tok ++ f)) = none := bearerAt_blank none (t.tok ++ f)
  rw [spans, List.nil_append, spansFrom, hblank] at h
  exact not_meets_behind t (show span ∈ spansFrom (bearer w) (some blank) 0 ([].length + 1) (t.tok ++ f) from h)

/-- Where the word is left, the token goes exactly if no earlier token takes the word. -/
theorem meets_iff {q f : PyStr} (hq : q.getLast? = t.pre.getLast?) :
    (∃ span ∈ spans (bearer w) (q ++ t.word ++ blank :: (t.tok ++ f)), Meets span (q ++ t.word ++ [blank]) t.tok) ↔
      ∀ span ∈ spans (bearer w) (q ++ t.word), span.2 < (q ++ t.word).length := by
  obtain ⟨a, c, hword, hc⟩ := IsBearer.last t.bearer
  have hlength := IsBearer.length t.bearer
  have hpast : ∀ before s, s <:+ q ++ t.word → t.word.length < s.length →
      (bearer w).matchAt before (s ++ blank :: (t.tok ++ f)) = (bearer w).matchAt before s := by
    intro before s hs hlong
    rw [hword, ← List.append_assoc] at hs
    obtain ⟨i, rfl⟩ := exists_concat_of_suffix hs (List.ne_nil_of_length_pos (Nat.zero_lt_of_lt hlong))
    rw [hlength, List.length_append, List.length_singleton] at hlong
    exact bearerAt_append hc before (by omega) _
  have hstarts : boundary w (q.getLast?.or none) t.word = true := by
    rw [Option.or_none, hq]
    exact t.starts
  obtain ⟨give, hgive, hmatch⟩ := bearerAt_word t.bearer hstarts (tok_ne_nil t.long)
    (fun c hc => (tok_character t hc).1) (fun c hc => (tok_character t hc).2) (t := f)
  have hpos := List.length_pos_of_ne_nil (tok_ne_nil t.long)
  rcases (swallows_bearer t.bearer).spans_append hpast
    (fun before s hs hne => bearerAt_inside t.bearer before hs hne _) hmatch (.inl rfl) 0 with
    ⟨⟨span, hspan, hreach⟩, heq⟩ | ⟨hle, hmem⟩
  · refine iff_of_false ?_ fun hall => ?_
    · rintro ⟨found, hfound, hmeets⟩
      have hfound : found ∈ spansFrom (bearer w) none 0 0 (q ++ t.word ++ blank :: (t.tok ++ f)) := hfound
      rw [heq] at hfound
      rcases List.mem_append.mp hfound with hfound | hfound
      · have hbound := spansFrom_le hfound
        obtain ⟨-, hend⟩ := hmeets
        simp only [List.length_append, List.length_singleton] at hend hbound
        omega
      · have hshift : 0 + q.length + t.word.length + 1 = (q ++ t.word).length + 1 := by
          rw [List.length_append, Nat.zero_add]
        rw [hshift] at hfound
        exact not_meets_behind t hfound hmeets
    · have hlt := hall span hspan
      rw [hreach, List.length_append] at hlt
      omega
  · refine iff_of_true ⟨_, hmem, ?_⟩ fun span hspan => ?_
    · simp only [Meets, List.length_append, List.length_singleton, hlength]
      omega
    · have hlt := hle span hspan
      rw [List.length_append]
      omega

/-- The last two passes hide the token exactly if what stands before it announces it, or it
holds a value itself. -/
theorem covered_iff_announces :
    Covered w t.text t.tok ↔ Announces w (t.pre ++ t.word) ∨ HoldsValue t.tok (t.tok ++ t.post) := by
  obtain ⟨init, last, first, rest, hbefore, hfirst, htext⟩ := pieces_text t
  have hsince : sinceValue (t.pre ++ t.word) = last := by
    rw [sinceValue, hbefore, List.getLastD_concat]
  rw [covered_iff_middle t hbefore hfirst htext, holdsValue_iff t hfirst, or_comm, ← imp_iff_not_or]
  refine imp_congr_right fun ⟨f, hf⟩ => ?_
  obtain ⟨init', last', hpieces, -, hlast⟩ := (swallows_keyValue t.bearer).last t.pre none (.inl rfl) 0
  have hsame : init ++ [last] = init' ++ [last'] := hbefore.symm.trans hpieces
  obtain ⟨-, heq⟩ := List.append_inj' hsame rfl
  obtain rfl := List.singleton_inj.mp heq
  rw [← hf]
  rcases hlast with ⟨rfl, span, hspan, hreach⟩ | ⟨q, rfl, hq, hvalue⟩
  · refine iff_of_false (fun ⟨found, hfound, hmeets⟩ => not_meets_taken t hfound hmeets) fun hann => ?_
    have hlt := hann.value span hspan
    rw [List.length_append] at hlt
    omega
  · rw [meets_iff t hq]
    constructor
    · intro htoken
      refine ⟨fun span hspan => ?_, ?_⟩
      · have hlt := hvalue span hspan
        rw [List.length_append]
        omega
      · rw [hsince]
        exact htoken
    · intro hann
      have htoken := hann.token
      rwa [hsince] at htoken

end

/-! ## The whole text -/

theorem sanitizeText_passes (py : Interp) (w : WordClass) (sanitizeUrl : PyStr → PyStr) (s : PyStr) :
    sanitizeText py (passes w sanitizeUrl) (.str s) [] =
      sub (bearer w) (fun _ => redacted) (sub keyValue (fun _ => redacted) (sub url (replaceUrl sanitizeUrl) s)) := rfl

section

variable {w : WordClass} (sanitizeUrl : PyStr → PyStr) (t : BearerText w)

theorem hidden_iff_covered (py : Interp) :
    ¬t.tok <:+: sanitizeText py (passes w sanitizeUrl) (.str t.text) [] ↔
      Covered w (sub url (replaceUrl sanitizeUrl) t.text) t.tok :=
  not_infix_passes_iff w sanitizeUrl _ (tok_ne_nil t.long) (star_not_mem t.run)

/-- A text with each URL as `sanitize_url` writes it. -/
def written (s : PyStr) : PyStr := sub url (replaceUrl sanitizeUrl) s

/-- No URL takes the word. -/
def Untaken : Prop := ∀ span ∈ spans url (t.pre ++ t.word), span.2 < (t.pre ++ t.word).length

/-- What stands before the token ends with a word Bearer also when its URLs are written. -/
def LeavesWord : Prop := ∃ pre word,
  written sanitizeUrl (t.pre ++ t.word) = pre ++ word ∧ IsBearer word ∧ boundary w pre.getLast? word = true

/-- `sanitize_url` writes the token nowhere else. -/
def WritesOnce : Prop := ∀ a b,
  written sanitizeUrl t.text = a ++ t.tok ++ b → a = written sanitizeUrl (t.pre ++ t.word) ++ [blank]

/-- What stands before the token announces it, or it holds a value itself, or it begins a URL
that is written in another way. -/
def Announced : Prop :=
  Announces w (written sanitizeUrl (t.pre ++ t.word)) ∨
    ¬t.tok <+: written sanitizeUrl (t.tok ++ t.post) ∨ HoldsValue t.tok (written sanitizeUrl (t.tok ++ t.post))

theorem written_text : written sanitizeUrl t.text =
    written sanitizeUrl (t.pre ++ t.word) ++ blank :: written sanitizeUrl (t.tok ++ t.post) := by
  have hpast : ∀ before s, s <:+ t.pre ++ t.word → s ≠ [] →
      url.matchAt before (s ++ blank :: (t.tok ++ t.post)) = url.matchAt before s :=
    fun _ s _ _ => urlAt_append s (t.tok ++ t.post)
  have hblank : ∀ before, url.matchAt before (blank :: (t.tok ++ t.post)) = none :=
    fun _ => (urlAt_append [] (t.tok ++ t.post)).trans (matchAt_nil (p := url) none)
  have hfresh : ∀ s, subFrom url (replaceUrl sanitizeUrl) (some blank) 0 s = written sanitizeUrl s := by
    intro s
    cases s <;> rfl
  rw [← hfresh (t.tok ++ t.post)]
  exact subFrom_append_cons (replaceUrl sanitizeUrl) hpast hblank (Nat.zero_le _)

/-- The word that no URL takes is left, behind the character that stands before it. -/
theorem leavesWord_of_untaken (h : Untaken t) : LeavesWord sanitizeUrl t := by
  obtain ⟨init, last, hpieces, hinit, hlast⟩ := (swallows_url t.bearer).last t.pre none (.inl rfl) 0
  obtain ⟨a, ha, hsingle⟩ := subFrom_ends (replaceUrl sanitizeUrl) hpieces
  rcases hlast with ⟨-, span, hspan, hreach⟩ | ⟨q, rfl, hq, -⟩
  · have hlt := h span hspan
    rw [List.length_append] at hlt
    omega
  · refine ⟨a ++ q, t.word, by rw [List.append_assoc]; exact ha, t.bearer, ?_⟩
    have hbefore : (a ++ q).getLast? = t.pre.getLast? := by
      rcases hinit with hnil | hne
      · rw [hsingle hnil, List.nil_append, hq]
      · have hq' : q ≠ [] := by
          rintro rfl
          exact hne (List.getLast?_eq_none_iff.mp hq.symm)
        rw [List.getLast?_append_of_ne_nil a hq', hq]
    rw [hbefore]
    exact t.starts

theorem not_infix_of_gone (hone : WritesOnce sanitizeUrl t) (hgone : ¬t.tok <+: written sanitizeUrl (t.tok ++ t.post)) :
    ¬t.tok <:+: written sanitizeUrl t.text := by
  rintro ⟨a, b, heq⟩
  refine hgone ⟨b, ?_⟩
  rw [hone a b heq.symm, written_text, List.append_assoc, List.append_assoc] at heq
  exact (List.cons.inj (List.append_cancel_left heq)).2

/-- Read with its URLs as `sanitize_url` writes them, the text hides the token exactly if what
stands before it announces it. -/
theorem covered_written_iff (hword : LeavesWord sanitizeUrl t) (hone : WritesOnce sanitizeUrl t) :
    Covered w (written sanitizeUrl t.text) t.tok ↔ Announced sanitizeUrl t := by
  by_cases hgone : t.tok <+: written sanitizeUrl (t.tok ++ t.post)
  · obtain ⟨post, hpost⟩ := hgone
    obtain ⟨pre, word, hbefore, hbearer, hstarts⟩ := hword
    have htext : written sanitizeUrl t.text = pre ++ word ++ blank :: (t.tok ++ post) := by
      rw [written_text, hbefore, hpost]
    let phrase : Phrase w :=
      { pre, word, tok := t.tok, post, bearer := hbearer, starts := hstarts, run := t.run, long := t.long
        alone := fun a b h => by rw [← hbefore]; exact hone a b (htext.trans h) }
    have h : Covered w (written sanitizeUrl t.text) t.tok ↔
        Announces w (pre ++ word) ∨ HoldsValue t.tok (t.tok ++ post) := by
      rw [htext]
      exact covered_iff_announces phrase
    rw [h, Announced, hbefore, ← hpost]
    simp only [List.prefix_append, not_true_eq_false, false_or]
  · exact iff_of_true (covered_of_gone (not_infix_of_gone sanitizeUrl t hone hgone)) (.inr (.inl hgone))

end

/-- Where the URLs stay as they are, in particular where there is none, the token is hidden
exactly if what stands before it announces it, or it holds the value of a sensitive key
itself. Else what stands before it is read with its URLs as `sanitize_url` writes them: these
must leave the word, as all do that do not take it, and write the token nowhere else. -/
theorem hidden_iff_announced (py : Interp) (w : WordClass) (sanitizeUrl : PyStr → PyStr) (t : BearerText w) :
    (written sanitizeUrl t.text = t.text →
      (¬t.tok <:+: sanitizeText py (passes w sanitizeUrl) (.str t.text) [] ↔
        Announces w (t.pre ++ t.word) ∨ HoldsValue t.tok (t.tok ++ t.post))) ∧
    (LeavesWord sanitizeUrl t ∧ WritesOnce sanitizeUrl t →
      (¬t.tok <:+: sanitizeText py (passes w sanitizeUrl) (.str t.text) [] ↔ Announced sanitizeUrl t)) ∧
    (Untaken t → LeavesWord sanitizeUrl t) := by
  refine ⟨fun hsame => ?_, fun ⟨hword, hone⟩ => ?_, leavesWord_of_untaken sanitizeUrl t⟩
  · have htext : t.text = t.pre ++ t.word ++ [blank] ++ t.tok ++ t.post := by
      rw [BearerText.text]
      simp [blank]
    let phrase : Phrase w := { t with alone := fun a b h => place_unique t.once h htext }
    rw [hidden_iff_covered]
    show Covered w (written sanitizeUrl t.text) t.tok ↔ _
    rw [hsame]
    exact covered_iff_announces phrase
  · rw [hidden_iff_covered]
    exact covered_written_iff sanitizeUrl t hword hone

/-- `\w` on ASCII text, for runs on fixed inputs. -/
def asciiWords : WordClass where
  is
    | .scalar c => c.isAlphanum || c == '_'
    | .surrogate _ => false
  ascii := fun _ _ => rfl

/-- A token behind a URL that has a secret of its own. -/
def request : BearerText asciiWords where
  pre := u "GET https://h/?token=k with "
  word := u "Bearer"
  tok := u "abcdefgh12"
  post := u " sent"
  bearer := by decide +kernel
  starts := by decide +kernel
  run := by decide +kernel
  maximal := by decide +kernel
  long := by decide
  once := by decide +kernel

/-- What `sanitize_url` makes of that URL. -/
def starred (_ : PyStr) : PyStr := u "https://h/?token=%2A%2A%2A"

theorem hidden_iff_announced_request :
    Announced starred request ∧
      ¬request.tok <:+: sanitizeText .ascii (passes asciiWords starred) (.str request.text) [] := by
  have h := hidden_iff_announced .ascii asciiWords starred request
  have hword : LeavesWord starred request := h.2.2 (by unfold Untaken; decide +kernel)
  have hplace : written starred request.text =
      written starred (request.pre ++ request.word) ++ [blank] ++ request.tok ++ u " sent" := by decide +kernel
  have hone : WritesOnce starred request := fun _ _ heq => place_unique (by decide +kernel) heq hplace
  have hannounced : Announced starred request := .inl ⟨by decide +kernel, by decide +kernel⟩
  exact ⟨hannounced, (h.2.1 ⟨hword, hone⟩).mpr hannounced⟩

/-- The header of an authorized request. -/
def header : BearerText asciiWords where
  pre := u "Authorization: "
  word := u "Bearer"
  tok := u "abcdefgh12"
  post := []
  bearer := by decide +kernel
  starts := by decide +kernel
  run := by decide +kernel
  maximal := by simp
  long := by decide
  once := by decide +kernel

example : sanitizeText .ascii (passes asciiWords id) (.str (u "Bearer x-Bearer t, token = 'k' sent")) [] =
    u "Bearer *** t, token = '***' sent" := by decide +kernel

/-- The word Bearer is redacted as the value of `Authorization`, and the token stays. -/
theorem header_exposes_token : ∃ t : BearerText asciiWords, ∀ (py : Interp) (sanitizeUrl : PyStr → PyStr),
    t.tok <:+: sanitizeText py (passes asciiWords sanitizeUrl) (.str t.text) [] := by
  refine ⟨header, fun py sanitizeUrl => ?_⟩
  have hurl : sub url (replaceUrl sanitizeUrl) header.text = header.text := sub_eq_self (by decide +kernel)
  rw [sanitizeText_passes, hurl]
  decide +kernel

end BearerTokens
