import BtApiBase.PyScanWords
import BtApiBase.RedactionPatterns

/-!
# The word Bearer under the patterns

The characters of the word are value characters and token characters, and no key begins in
it or ends with it. So a match of either pattern takes the word whole or not at all, and the
key-value pattern does not read past the blank behind it.
-/

namespace BearerWords

open PyText PyScan RedactionPatterns

/-! ## Letters -/

/-- The letter that a character stands for where case is ignored. -/
def letter : PyChar → Option Char
  | .scalar c => some (lowered c)
  | .surrogate _ => none

theorem reads_iff {l : Char} {c : PyChar} : reads l c = true ↔ letter c = some l := by
  cases c with
  | scalar c => simp [reads, letter]
  | surrogate v => simp [reads, letter]

theorem literal_iff {ls : List Char} {s rest : PyStr} :
    literal ls s = some rest ↔ ∃ a, s = a ++ rest ∧ a.map letter = ls.map some := by
  induction ls generalizing s with
  | nil => simp [literal, eq_comm]
  | cons l ls ih =>
    cases s with
    | nil => simp [literal, List.map_eq_cons_iff]
    | cons c s =>
      rw [literal]
      split
      · next hc =>
        rw [ih]
        constructor
        · rintro ⟨a, rfl, ha⟩
          exact ⟨c :: a, rfl, by rw [List.map_cons, reads_iff.mp hc, ha, List.map_cons]⟩
        · rintro ⟨a, hs, ha⟩
          obtain ⟨d, a, rfl, -, ha⟩ := List.map_eq_cons_iff.mp ha
          exact ⟨a, (List.cons.inj hs).2, ha⟩
      · next hc =>
        refine iff_of_false (by simp) ?_
        rintro ⟨a, hs, ha⟩
        obtain ⟨d, a, rfl, hd, -⟩ := List.map_eq_cons_iff.mp ha
        obtain ⟨rfl, -⟩ := List.cons.inj hs
        exact hc (reads_iff.mpr hd)

/-- The letters of the word, small and capital. -/
def letters : List Char := ['b', 'e', 'a', 'r', 'B', 'E', 'A', 'R']

theorem toNat_of_toLower {c l : Char} (h : c.toLower = l) : c = l ∨ c.toNat + 32 = l.toNat := by
  unfold Char.toLower at h
  split at h
  · next hupper =>
    right
    have hle : c.val.toNat ≤ 90 := hupper.2
    rw [← h]
    show c.val.toNat + 32 = (c.val + ('a'.val - 'A'.val)).toNat
    rw [UInt32.toNat_add]
    have hdiff : ('a'.val - 'A'.val).toNat = 32 := by decide
    omega
  · exact .inl h

theorem mem_letters {c : PyChar} {l : Char} (hl : l ∈ ['b', 'e', 'a', 'r']) (h : letter c = some l) :
    ∃ d ∈ letters, c = .scalar d := by
  cases c with
  | surrogate v => cases h
  | scalar d =>
    refine ⟨d, ?_, rfl⟩
    have hlowered : lowered d = l := Option.some.inj h
    have hother : ∀ l ∈ ['b', 'e', 'a', 'r'], l ≠ 'i' ∧ l ≠ 's' ∧ l ≠ 'k' := by
      simp
    unfold lowered at hlowered
    split at hlowered
    · exact absurd hlowered.symm (hother l hl).1
    · split at hlowered
      · exact absurd hlowered.symm (hother l hl).2.1
      · split at hlowered
        · exact absurd hlowered.symm (hother l hl).2.2
        · have hcapital : ∀ l ∈ ['b', 'e', 'a', 'r'], l ∈ letters ∧ Char.ofNat (l.toNat - 32) ∈ letters := by
            simp only [List.forall_mem_cons, List.not_mem_nil, false_implies, implies_true, and_true]
            decide
          rcases toNat_of_toLower hlowered with rfl | hupper
          · exact (hcapital _ hl).1
          · have hd : d = Char.ofNat (l.toNat - 32) := by
              rw [← hupper, Nat.add_sub_cancel, Char.ofNat_toNat]
            rw [hd]
            exact (hcapital l hl).2

theorem of_mem_letters {d : Char} (h : d ∈ letters) : isSpace (.scalar d) = false ∧ valueChar (.scalar d) = true ∧
    tokenChar (.scalar d) = true ∧ oneOf ":=" (.scalar d) = false ∧ oneOf "\"'" (.scalar d) = false ∧
    oneOf "-_ " (.scalar d) = false := by
  revert d
  simp only [letters, List.forall_mem_cons, List.not_mem_nil, false_implies, implies_true, and_true]
  decide +kernel

/-! ## The word -/

/-- The text is the word Bearer. -/
def IsBearer (word : PyStr) : Prop := literal "bearer".toList word = some []

section

variable {word : PyStr}

theorem IsBearer.map_letter (h : IsBearer word) : word.map letter = "bearer".toList.map some := by
  obtain ⟨a, ha, hmap⟩ := literal_iff.mp h
  rw [ha, List.append_nil]
  exact hmap

theorem IsBearer.length (h : IsBearer word) : word.length = 6 := by
  have hlength := congrArg List.length h.map_letter
  rwa [List.length_map, List.length_map] at hlength

theorem IsBearer.mem (h : IsBearer word) {c : PyChar} (hc : c ∈ word) : ∃ d ∈ letters, c = .scalar d := by
  have hmem : letter c ∈ "bearer".toList.map some := h.map_letter ▸ List.mem_map_of_mem hc
  obtain ⟨l, hl, heq⟩ := List.mem_map.mp hmem
  have hbear : ∀ l ∈ ['b', 'e', 'a', 'r', 'e', 'r'], l ∈ ['b', 'e', 'a', 'r'] := by simp
  exact mem_letters (hbear l hl) heq.symm

theorem IsBearer.last (h : IsBearer word) : ∃ init c, word = init ++ [c] ∧ letter c = some 'r' := by
  have hne : word ≠ [] := by
    rintro rfl
    cases h.length
  obtain ⟨init, c, rfl⟩ := (List.eq_nil_or_concat word).resolve_left hne
  refine ⟨init, c, List.concat_eq_append, ?_⟩
  have hlast := congrArg List.getLast? h.map_letter
  rw [List.concat_eq_append, List.map_append, List.map_singleton, List.getLast?_concat] at hlast
  exact Option.some.inj hlast

/-- What is left of a run of the word's characters is empty. -/
theorem dropWhile_eq_nil {f : PyChar → Bool} (hf : ∀ c ∈ word, f c = true) {m value : PyStr}
    (hvalue : value <:+ m ++ word) (hle : (value.dropWhile f).length ≤ word.length) : value.dropWhile f = [] := by
  have hsuffix : value.dropWhile f <:+ word := by
    refine List.suffix_of_suffix_length_le ((List.dropWhile_suffix f).trans hvalue) (List.suffix_append m word) hle
  cases hrest : value.dropWhile f with
  | nil => rfl
  | cons c rest =>
    have hc : f c = true := hf c (hsuffix.subset (by rw [hrest]; exact List.mem_cons_self))
    have hnot := List.head_dropWhile_not f (l := value) (by rw [hrest]; exact List.cons_ne_nil _ _)
    simp only [hrest, List.head_cons] at hnot
    rw [hc] at hnot
    cases hnot

end

/-! ## The key-value pattern -/

/-- The first word of a key. -/
def first : Key → String
  | .word w => w
  | .joined w _ => w

theorem starts_first {key : Key} {s rest : PyStr} (h : key.rest s = some rest) :
    (first key).toList.map some <+: s.map letter := by
  cases key with
  | word w =>
    obtain ⟨a, rfl, ha⟩ := literal_iff.mp h
    rw [List.map_append, ha]
    exact List.prefix_append _ _
  | joined w w' =>
    obtain ⟨middle, hmiddle, -⟩ := Option.bind_eq_some_iff.mp h
    obtain ⟨a, rfl, ha⟩ := literal_iff.mp hmiddle
    rw [List.map_append, ha]
    exact List.prefix_append _ _

theorem skipOne_suffix (f : PyChar → Bool) (s : PyStr) : skipOne f s <:+ s := by
  cases s with
  | nil => exact List.suffix_rfl
  | cons c s =>
    rw [skipOne]
    split
    · exact List.suffix_cons c s
    · exact List.suffix_rfl

theorem literal_suffix {ls : List Char} {s rest : PyStr} (h : literal ls s = some rest) : rest <:+ s := by
  obtain ⟨a, rfl, -⟩ := literal_iff.mp h
  exact List.suffix_append a rest

theorem rest_suffix {key : Key} {s rest : PyStr} (h : key.rest s = some rest) : rest <:+ s := by
  cases key with
  | word w => exact literal_suffix h
  | joined w w' =>
    obtain ⟨middle, hmiddle, hrest⟩ := Option.bind_eq_some_iff.mp h
    exact ((literal_suffix hrest).trans (skipOne_suffix _ middle)).trans (literal_suffix hmiddle)

theorem afterKey_suffix {s value : PyStr} (h : afterKey s = some value) : value <:+ s := by
  unfold afterKey at h
  split at h
  · cases h
  · next c rest heq =>
    split at h
    · have hsign : c :: rest <:+ s := by
        rw [← heq]
        exact ((List.dropWhile_suffix _).trans (skipOne_suffix _ _)).trans (List.dropWhile_suffix _)
      rw [← Option.some.inj h]
      exact ((skipOne_suffix _ _).trans (List.dropWhile_suffix _)).trans ((List.suffix_cons c rest).trans hsign)
    · cases h

/-- A match ends where the run of value characters does. -/
theorem keyValueAt_some {s : PyStr} {keep give : Nat} (h : keyValueAt s = some (keep, give)) :
    ∃ key rest value, key ∈ keys ∧ key.rest s = some rest ∧ value <:+ s ∧
      keep + give + (value.dropWhile valueChar).length = s.length := by
  obtain ⟨key, hkey, h⟩ := List.exists_of_findSome?_eq_some h
  obtain ⟨rest, hrest, h⟩ := Option.bind_eq_some_iff.mp h
  obtain ⟨value, hvalue, h⟩ := Option.bind_eq_some_iff.mp h
  have hsuffix := (afterKey_suffix hvalue).trans (rest_suffix hrest)
  refine ⟨key, rest, value, hkey, hrest, hsuffix, ?_⟩
  have hle := hsuffix.length_le
  have hrun := congrArg List.length (List.takeWhile_append_dropWhile (p := valueChar) (l := value))
  rw [List.length_append] at hrun
  split at h
  · cases h
  · simp only [Option.some.injEq, Prod.mk.injEq] at h
    omega

theorem swallows_keyValue {word : PyStr} (h : IsBearer word) : Swallows keyValue word where
  nonempty := by
    rintro rfl
    cases h.length
  inside := by
    intro _ s hs
    cases hmatch : keyValue.matchAt none s with
    | none => exact hmatch
    | some found =>
      obtain ⟨keep, give⟩ := found
      obtain ⟨key, rest, value, hkey, hrest, -⟩ := keyValueAt_some hmatch
      have hinfix : (first key).toList.map some <:+: "bearer".toList.map some := by
        rw [← h.map_letter]
        exact (starts_first hrest).isInfix.trans (hs.map letter).isInfix
      have hno : ∀ key ∈ keys, ¬ (first key).toList.map some <:+: "bearer".toList.map some := by decide +kernel
      exact absurd hinfix (hno key hkey)
  whole := by
    intro _ m keep give hmatch hle
    obtain ⟨-, -, value, -, -, hvalue, hend⟩ := keyValueAt_some hmatch
    rw [List.length_append] at hend
    have hvalueChars : ∀ c ∈ word, valueChar c = true := by
      intro c hc
      obtain ⟨d, hd, rfl⟩ := h.mem hc
      exact (of_mem_letters hd).2.1
    rw [dropWhile_eq_nil hvalueChars hvalue (by omega), List.length_nil] at hend
    omega

/-! ## The URL pattern -/

/-- A match ends where the run of URL characters does. -/
theorem urlAt_some {s : PyStr} {keep give : Nat} (h : urlAt s = some (keep, give)) :
    ∃ scheme ∈ schemes, ∃ rest, literal (scheme ++ "://").toList s = some rest ∧
      keep + give + (rest.dropWhile urlChar).length = s.length := by
  obtain ⟨scheme, hscheme, h⟩ := List.exists_of_findSome?_eq_some h
  obtain ⟨rest, hrest, h⟩ := Option.bind_eq_some_iff.mp h
  refine ⟨scheme, hscheme, rest, hrest, ?_⟩
  have hle := literal_length hrest
  have hrun := congrArg List.length (List.takeWhile_append_dropWhile (p := urlChar) (l := rest))
  rw [List.length_append] at hrun
  split at h
  · cases h
  · simp only [Option.some.injEq, Prod.mk.injEq] at h
    omega

theorem swallows_url {word : PyStr} (h : IsBearer word) : Swallows url word where
  nonempty := by
    rintro rfl
    cases h.length
  inside := by
    intro _ s hs
    cases hmatch : url.matchAt none s with
    | none => exact hmatch
    | some found =>
      obtain ⟨keep, give⟩ := found
      obtain ⟨scheme, hscheme, rest, hrest, -⟩ := urlAt_some hmatch
      obtain ⟨a, rfl, ha⟩ := literal_iff.mp hrest
      have hinfix : (scheme ++ "://").toList.map some <:+: "bearer".toList.map some := by
        rw [← h.map_letter, ← ha]
        exact (List.prefix_append (a.map letter) (rest.map letter)).isInfix.trans
          (by rw [← List.map_append]; exact (hs.map letter).isInfix)
      have hno : ∀ scheme ∈ schemes, ¬ (scheme ++ "://").toList.map some <:+: "bearer".toList.map some := by
        decide +kernel
      exact absurd hinfix (hno scheme hscheme)
  whole := by
    intro _ m keep give hmatch hle
    obtain ⟨scheme, -, rest, hrest, hend⟩ := urlAt_some hmatch
    rw [List.length_append] at hend
    have hurlChars : ∀ c ∈ word, urlChar c = true := by
      intro c hc
      obtain ⟨d, hd, rfl⟩ := h.mem hc
      have hall : ∀ d ∈ letters, urlChar (.scalar d) = true := by
        simp only [letters, List.forall_mem_cons, List.not_mem_nil, false_implies, implies_true, and_true]
        decide +kernel
      exact hall d hd
    rw [dropWhile_eq_nil hurlChars (literal_suffix hrest) (by omega), List.length_nil] at hend
    omega

/-! ## The blank behind the word -/

def blank : PyChar := .scalar ' '

/-- The words of a key. -/
def parts : Key → List String
  | .word w => [w]
  | .joined w w' => [w, w']

theorem parts_keys : ∀ key ∈ keys, ∀ w ∈ parts key, ' ' ∉ w.toList ∧ w.toList.getLast? ≠ some 'r' := by
  decide +kernel

theorem reads_blank {ls : List Char} (h : ' ' ∉ ls) : ∀ l ∈ ls, reads l blank = false := by
  intro l hl
  have hlowered : lowered ' ' = ' ' := by decide
  rw [blank, reads, hlowered, beq_eq_false_iff_ne]
  rintro rfl
  exact h hl

theorem findSome?_eq_of_forall {β γ : Type*} {l : List β} {f g : β → Option γ} (h : ∀ x ∈ l, f x = g x) :
    l.findSome? f = l.findSome? g := by
  rw [← List.head?_filterMap, ← List.head?_filterMap, List.filterMap_congr h]

/-- A URL does not go on past a blank. -/
theorem urlAt_append (s t : PyStr) : urlAt (s ++ blank :: t) = urlAt s := by
  have hblank : urlChar blank = false := by decide
  have hno : ∀ scheme ∈ schemes, ' ' ∉ (scheme ++ "://").toList := by decide
  refine findSome?_eq_of_forall fun scheme hscheme => ?_
  rw [literal_append (reads_blank (hno scheme hscheme)), Option.bind_map]
  refine congrArg (Option.bind _) (funext fun rest => ?_)
  simp only [Function.comp_apply, takeWhile_append hblank, List.length_append, Nat.add_sub_add_right]

theorem keyValueAt_blank (t : PyStr) : keyValueAt (blank :: t) = none := by
  cases hmatch : keyValueAt (blank :: t) with
  | none => rfl
  | some found =>
    obtain ⟨keep, give⟩ := found
    obtain ⟨key, rest, value, hkey, hrest, -⟩ := keyValueAt_some hmatch
    have hfirst : ∀ key ∈ keys, (first key).toList.head? ≠ none ∧ (first key).toList.head? ≠ some ' ' := by
      decide +kernel
    obtain ⟨hne, hblank⟩ := hfirst key hkey
    cases hletters : (first key).toList with
    | nil =>
      rw [hletters] at hne
      exact absurd rfl hne
    | cons l ls =>
      have hstart := starts_first hrest
      rw [hletters, List.map_cons, List.map_cons, List.cons_prefix_cons] at hstart
      have hl : letter blank = some ' ' := by decide
      rw [hl] at hstart
      rw [hletters, List.head?_cons, hstart.1] at hblank
      exact absurd rfl hblank

/-- A last character that reads as `r`. -/
def EndsR (c : PyChar) : Prop := letter c = some 'r'

section

variable {c : PyChar}

theorem EndsR.mem (hc : EndsR c) : ∃ d ∈ letters, c = .scalar d := mem_letters (by simp) hc

/-- A literal that does not end with `r` leaves a last character that does. -/
theorem literal_leaves (hc : EndsR c) {ls : List Char} (hlast : ls.getLast? ≠ some 'r') {init rest : PyStr}
    (h : literal ls (init ++ [c]) = some rest) : ∃ i, rest = i ++ [c] := by
  obtain ⟨a, heq, ha⟩ := literal_iff.mp h
  rcases List.eq_nil_or_concat rest with rfl | ⟨i, d, rfl⟩
  · rw [List.append_nil] at heq
    refine absurd ?_ hlast
    have hletter := congrArg List.getLast? ha
    rw [← heq, List.map_append, List.map_singleton, List.getLast?_concat, hc, List.getLast?_map] at hletter
    cases hls : ls.getLast? with
    | none =>
      rw [hls] at hletter
      cases hletter
    | some l =>
      rw [hls] at hletter
      exact (Option.some.inj hletter).symm
  · rw [List.concat_eq_append, ← List.append_assoc] at heq
    obtain ⟨-, hd⟩ := List.append_inj' heq rfl
    exact ⟨i, by rw [List.concat_eq_append, List.singleton_inj.mp hd]⟩

theorem skipOne_append {f : PyChar → Bool} (hf : f c = false) (init : PyStr) :
    ∃ i, ∀ t, skipOne f (init ++ c :: t) = i ++ c :: t := by
  cases init with
  | nil => exact ⟨[], fun t => by simp [skipOne, hf]⟩
  | cons d init =>
    cases hd : f d with
    | true => exact ⟨init, fun t => by simp [skipOne, hd]⟩
    | false => exact ⟨d :: init, fun t => by simp [skipOne, hd]⟩

/-- What follows a key goes on behind the last character as it does without that. -/
theorem rest_append (hc : EndsR c) {key : Key} (hkey : key ∈ keys) (init t : PyStr) :
    key.rest (init ++ [c] ++ blank :: t) = (key.rest (init ++ [c])).map (· ++ blank :: t) ∧
      ∀ rest, key.rest (init ++ [c]) = some rest → ∃ i, rest = i ++ [c] := by
  have hparts := parts_keys key hkey
  cases key with
  | word w =>
    obtain ⟨hblank, hlast⟩ := hparts w (by simp [parts])
    exact ⟨literal_append (reads_blank hblank) _ _, fun rest h => literal_leaves hc hlast h⟩
  | joined w w' =>
    obtain ⟨hblank, hlast⟩ := hparts w (by simp [parts])
    obtain ⟨hblank', hlast'⟩ := hparts w' (by simp [parts])
    obtain ⟨d, hd, rfl⟩ := hc.mem
    have hjoin : oneOf "-_ " (.scalar d) = false := (of_mem_letters hd).2.2.2.2.2
    simp only [Key.rest, literal_append (reads_blank hblank)]
    cases hfirst : literal w.toList (init ++ [.scalar d]) with
    | none => exact ⟨rfl, nofun⟩
    | some middle =>
      obtain ⟨i, rfl⟩ := literal_leaves hc hlast hfirst
      obtain ⟨j, hskip⟩ := skipOne_append hjoin i
      simp only [Option.map_some, Option.bind_some, List.append_assoc, List.cons_append, List.nil_append, hskip]
      refine ⟨?_, fun rest h => literal_leaves hc hlast' h⟩
      rw [← literal_append (reads_blank hblank'), List.append_assoc, List.cons_append, List.nil_append]

/-- The value begins before the last character, whatever follows that. -/
theorem afterKey_append (hc : EndsR c) (init : PyStr) :
    ∃ o : Option PyStr, ∀ t, afterKey (init ++ c :: t) = o.map (· ++ c :: t) := by
  obtain ⟨d, hd, rfl⟩ := hc.mem
  obtain ⟨hspace, -, -, hsign, hquote, -⟩ := of_mem_letters hd
  obtain ⟨i, hskip⟩ := skipOne_append hquote (init.dropWhile isSpace)
  have hhead : ∀ t, (skipOne (oneOf "\"'") ((init ++ .scalar d :: t).dropWhile isSpace)).dropWhile isSpace =
      i.dropWhile isSpace ++ .scalar d :: t := by
    intro t
    rw [dropWhile_append hspace, hskip, dropWhile_append hspace]
  cases hi : i.dropWhile isSpace with
  | nil =>
    refine ⟨none, fun t => ?_⟩
    rw [afterKey, hhead, hi]
    simp [hsign]
  | cons e i =>
    obtain ⟨j, hvalue⟩ := skipOne_append hquote (i.dropWhile isSpace)
    refine ⟨if oneOf ":=" e then some j else none, fun t => ?_⟩
    rw [afterKey, hhead, hi]
    simp only [List.cons_append]
    split
    · rw [dropWhile_append hspace, hvalue]
      rfl
    · rfl

theorem keyValueAt_append (hc : EndsR c) (init t : PyStr) :
    keyValueAt (init ++ [c] ++ blank :: t) = keyValueAt (init ++ [c]) := by
  have hvalueBlank : valueChar blank = false := by decide
  refine findSome?_eq_of_forall fun key hkey => ?_
  obtain ⟨hrest, hleaves⟩ := rest_append hc hkey init t
  rw [hrest]
  cases hkept : key.rest (init ++ [c]) with
  | none => rfl
  | some rest =>
    obtain ⟨i, rfl⟩ := hleaves rest hkept
    obtain ⟨o, hafter⟩ := afterKey_append hc i
    simp only [Option.map_some, Option.bind_some, List.append_assoc, List.cons_append, List.nil_append, hafter]
    cases o with
    | none => rfl
    | some v =>
      have htake := takeWhile_append hvalueBlank (v ++ [c]) t
      rw [List.append_assoc, List.cons_append, List.nil_append] at htake
      simp only [Option.map_some, Option.bind_some, htake, List.length_append, List.length_cons, List.length_nil]
      refine if_congr Iff.rfl rfl (congrArg (fun keep => some (keep, _)) ?_)
      omega

end

/-! ## The bearer pattern -/

section

variable {w : WordClass} {word : PyStr}

theorem bearerAt_some {before : Option PyChar} {s : PyStr} {keep give : Nat} (h : bearerAt w before s = some (keep, give)) :
    ∃ a rest, s = a ++ rest ∧ a.length = 6 ∧ rest.takeWhile isSpace ≠ [] ∧
      keep = a.length + (rest.takeWhile isSpace).length ∧
      keep + give + ((rest.dropWhile isSpace).dropWhile tokenChar).length = s.length := by
  unfold bearerAt at h
  split at h
  · obtain ⟨rest, hrest, h⟩ := Option.bind_eq_some_iff.mp h
    obtain ⟨a, rfl, ha⟩ := literal_iff.mp hrest
    have hlength : a.length = 6 := by
      have hmap := congrArg List.length ha
      rwa [List.length_map, List.length_map] at hmap
    have hspace := congrArg List.length (List.takeWhile_append_dropWhile (p := isSpace) (l := rest))
    have htoken := congrArg List.length
      (List.takeWhile_append_dropWhile (p := tokenChar) (l := rest.dropWhile isSpace))
    rw [List.length_append] at hspace htoken
    split at h
    · cases h
    · next hnil =>
      simp only [Option.some.injEq, Prod.mk.injEq, List.length_append] at h
      refine ⟨a, rest, rfl, hlength, (not_or.mp hnil).1, ?_, ?_⟩
      · omega
      · rw [List.length_append]
        omega
  · cases h

theorem swallows_bearer (h : IsBearer word) : Swallows (bearer w) word where
  nonempty := by
    rintro rfl
    cases h.length
  inside := by
    intro before s hs
    cases hmatch : (bearer w).matchAt before s with
    | none => rfl
    | some found =>
      obtain ⟨keep, give⟩ := found
      obtain ⟨a, rest, rfl, ha, hspace, -⟩ := bearerAt_some hmatch
      have hle := hs.length_le
      rw [List.length_append, h.length, ha] at hle
      have hrest : rest = [] := List.eq_nil_of_length_eq_zero (by omega)
      rw [hrest] at hspace
      exact absurd rfl hspace
  whole := by
    intro before m keep give hmatch hle
    obtain ⟨a, rest, heq, -, -, -, hend⟩ := bearerAt_some hmatch
    have htokenChars : ∀ c ∈ word, tokenChar c = true := by
      intro c hc
      obtain ⟨d, hd, rfl⟩ := h.mem hc
      exact (of_mem_letters hd).2.2.1
    have hsuffix : rest.dropWhile isSpace <:+ m ++ word := by
      rw [heq]
      exact (List.dropWhile_suffix isSpace).trans (List.suffix_append a rest)
    rw [List.length_append] at hend
    rw [dropWhile_eq_nil htokenChars hsuffix (by omega), List.length_nil] at hend
    omega

/-- A match reads a blank before the token that it gives up. -/
theorem bearer_reads_blank (before : Option PyChar) (s : PyStr) (keep give : Nat)
    (h : (bearer w).matchAt before s = some (keep, give)) : ∃ c ∈ s.take keep, isSpace c = true := by
  obtain ⟨a, rest, rfl, -, hspace, rfl, -⟩ := bearerAt_some h
  obtain ⟨c, hc⟩ := List.exists_mem_of_ne_nil _ hspace
  refine ⟨c, ?_, List.mem_takeWhile_imp hc⟩
  rw [List.take_length_add_append, ← List.prefix_iff_eq_take.mp (List.takeWhile_prefix isSpace)]
  exact List.mem_append_right a hc

theorem bearerAt_append {c : PyChar} (hc : EndsR c) (before : Option PyChar) {init : PyStr} (hlong : 6 ≤ init.length)
    (t : PyStr) : bearerAt w before (init ++ [c] ++ blank :: t) = bearerAt w before (init ++ [c]) := by
  obtain ⟨d, hd, hcd⟩ := hc.mem
  have hspace : isSpace c = false := by
    rw [hcd]
    exact (of_mem_letters hd).1
  have htoken : tokenChar blank = false := by decide
  have hread : ∀ l ∈ "bearer".toList, reads l blank = false := reads_blank (by decide)
  have hboundary : boundary w before (init ++ [c] ++ blank :: t) = boundary w before (init ++ [c]) := by
    cases init <;> rfl
  unfold bearerAt
  rw [hboundary, literal_append hread]
  refine if_congr Iff.rfl ?_ rfl
  cases hrest : literal "bearer".toList (init ++ [c]) with
  | none => rfl
  | some rest =>
    obtain ⟨i, rfl⟩ : ∃ i, rest = i ++ [c] := by
      obtain ⟨a, heq, ha⟩ := literal_iff.mp hrest
      have hsix := congrArg List.length ha
      rw [List.length_map, List.length_map] at hsix
      have hsix : a.length = 6 := hsix
      have hlength := congrArg List.length heq
      rw [List.length_append, List.length_append, List.length_singleton] at hlength
      rcases List.eq_nil_or_concat rest with rfl | ⟨i, e, rfl⟩
      · rw [List.length_nil] at hlength
        omega
      · rw [List.concat_eq_append, ← List.append_assoc] at heq
        obtain ⟨-, he⟩ := List.append_inj' heq rfl
        exact ⟨i, by rw [List.concat_eq_append, List.singleton_inj.mp he]⟩
    have htake := takeWhile_append htoken (i.dropWhile isSpace ++ [c]) t
    simp only [Option.map_some, Option.bind_some, List.append_assoc, List.cons_append, List.nil_append,
      dropWhile_append hspace, takeWhile_append hspace] at htake ⊢
    simp only [htake, List.length_append, List.length_cons, List.length_nil]
    refine if_congr Iff.rfl rfl (congrArg (fun keep => some (keep, _)) ?_)
    omega

/-- The pattern does not read on from inside the word. -/
theorem bearerAt_inside (h : IsBearer word) (before : Option PyChar) {s : PyStr} (hs : s <:+ word) (hne : s ≠ word)
    (t : PyStr) : bearerAt w before (s ++ blank :: t) = none := by
  have hread : ∀ l ∈ "bearer".toList, reads l blank = false := reads_blank (by decide)
  have hnone : literal "bearer".toList s = none := by
    cases hrest : literal "bearer".toList s with
    | none => rfl
    | some rest =>
      obtain ⟨a, rfl, ha⟩ := literal_iff.mp hrest
      have hlength := congrArg List.length ha
      rw [List.length_map, List.length_map] at hlength
      refine absurd (hs.eq_of_length_le ?_) hne
      rw [h.length, List.length_append, hlength]
      exact Nat.le_add_right _ _
  unfold bearerAt
  rw [literal_append hread, hnone]
  split <;> rfl

theorem bearerAt_blank (before : Option PyChar) (t : PyStr) : bearerAt w before (blank :: t) = none := by
  have hread : ∀ l ∈ "bearer".toList, reads l blank = false := reads_blank (by decide)
  have hliteral : literal "bearer".toList (blank :: t) = none := literal_append hread [] t
  rw [bearerAt, hliteral]
  split <;> rfl

/-- At a word boundary the word is found, with the token behind the blank. -/
theorem bearerAt_word (h : IsBearer word) {before : Option PyChar} (hstarts : boundary w before word = true)
    {tok t : PyStr} (hne : tok ≠ []) (hspace : ∀ c ∈ tok, isSpace c = false) (htoken : ∀ c ∈ tok, tokenChar c = true) :
    ∃ give, tok.length ≤ give ∧ bearerAt w before (word ++ blank :: (tok ++ t)) = some (7, give) := by
  have hread : ∀ l ∈ "bearer".toList, reads l blank = false := reads_blank (by decide)
  have hboundary : boundary w before (word ++ blank :: (tok ++ t)) = true := by
    rw [← hstarts]
    cases word with
    | nil => cases h.length
    | cons c word => rfl
  have hdrop : (blank :: (tok ++ t)).dropWhile isSpace = tok ++ t := by
    cases tok with
    | nil => exact absurd rfl hne
    | cons c tok =>
      have hblank : isSpace blank = true := by decide
      rw [List.dropWhile_cons_of_pos hblank, List.cons_append,
        List.dropWhile_cons_of_neg (by rw [hspace c List.mem_cons_self]; exact Bool.false_ne_true)]
  have htake : (blank :: (tok ++ t)).takeWhile isSpace ≠ [] := by
    have hblank : isSpace blank = true := by decide
    rw [List.takeWhile_cons_of_pos hblank]
    exact List.cons_ne_nil _ _
  have hrun : (tok ++ t).takeWhile tokenChar = tok ++ t.takeWhile tokenChar := List.takeWhile_append_of_pos htoken
  refine ⟨(tok ++ t.takeWhile tokenChar).length, ?_, ?_⟩
  · rw [List.length_append]
    exact Nat.le_add_right _ _
  · unfold bearerAt
    have hliteral : literal "bearer".toList word = some [] := h
    rw [if_pos hboundary, literal_append hread, hliteral]
    simp only [Option.map_some, Option.bind_some, List.nil_append, hdrop, hrun]
    rw [if_neg]
    · simp only [List.length_append, List.length_cons, h.length, Option.some.injEq, Prod.mk.injEq, and_true]
      omega
    · rintro (hnil | hnil)
      · exact htake hnil
      · exact hne (List.append_eq_nil_iff.mp hnil).1

end

end BearerWords
