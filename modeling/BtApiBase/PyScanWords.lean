import BtApiBase.PyScan

/-!
# Substitution in a text that ends with a word

Where no match in the first part of a text reads past the character behind it, the parts
are scanned one after the other. A word at the end of the first part is taken whole or not
at all by a pattern whose matches run on over its characters.
-/

namespace PyScan

open PyReplace

variable {α : Type*} {p : Pattern α}

/-! ## Where the pieces stand -/

theorem modifyHead_eq_concat {c : α} {ps init : List (List α)} {last : List α} (hps : ps ≠ [])
    (h : ps.modifyHead (c :: ·) = init ++ [last]) : ∃ init' last', ps = init' ++ [last'] ∧
      (init' = [] ∧ init = [] ∧ last = c :: last' ∨ init' ≠ [] ∧ init ≠ [] ∧ last = last') := by
  obtain ⟨init', last', rfl⟩ := (List.eq_nil_or_concat ps).resolve_left hps
  refine ⟨init', last', List.concat_eq_append, ?_⟩
  rw [List.concat_eq_append] at h
  cases init' with
  | nil =>
    have hinit : [] ++ [c :: last'] = init ++ [last] := h
    obtain ⟨rfl, hlast⟩ := List.append_inj' hinit rfl
    exact .inl ⟨rfl, rfl, (List.singleton_inj.mp hlast).symm⟩
  | cons first init' =>
    have hinit : ((c :: first) :: init') ++ [last'] = init ++ [last] := h
    obtain ⟨rfl, hlast⟩ := List.append_inj' hinit rfl
    exact .inr ⟨List.cons_ne_nil _ _, List.cons_ne_nil _ _, (List.singleton_inj.mp hlast).symm⟩

/-- Whatever is put between the pieces, the last one ends the text, and a single one is all of it. -/
theorem subFrom_ends (new : List α → List α) {before : Option α} {skip : Nat} {s last : List α} {init : List (List α)}
    (h : piecesFrom p before skip s = init ++ [last]) :
    ∃ a, subFrom p new before skip s = a ++ last ∧ (init = [] → a = []) := by
  induction s generalizing before skip init last with
  | nil =>
    obtain ⟨-, hlast⟩ := List.append_inj' (show [] ++ [[]] = init ++ [last] from h) rfl
    exact ⟨[], List.singleton_inj.mp hlast, fun _ => rfl⟩
  | cons c s ih =>
    cases skip with
    | succ skip => exact ih (show piecesFrom p (some c) skip s = init ++ [last] from h)
    | zero =>
      cases hmatch : p.matchAt before (c :: s) with
      | none =>
        rw [piecesFrom_none hmatch] at h
        rw [subFrom, hmatch]
        obtain ⟨init', last', hps, ⟨rfl, rfl, rfl⟩ | ⟨-, hne, rfl⟩⟩ :=
          modifyHead_eq_concat (piecesFrom_ne_nil _ _ _) h
        · obtain ⟨a, ha, hnil⟩ := ih hps
          rw [hnil rfl] at ha
          exact ⟨[], congrArg (c :: ·) ha, fun _ => rfl⟩
        · obtain ⟨a, ha, -⟩ := ih hps
          exact ⟨c :: a, congrArg (c :: ·) ha, fun hnil => absurd hnil hne⟩
      | some found =>
        obtain ⟨keep, give⟩ := found
        rw [piecesFrom_some hmatch] at h
        cases init with
        | nil => exact absurd (List.cons.inj h).2 (piecesFrom_ne_nil _ _ _)
        | cons first init =>
          obtain ⟨a, ha, -⟩ := ih (List.cons.inj h).2
          refine ⟨(c :: s).take keep ++ new (((c :: s).drop keep).take give) ++ a, ?_,
            fun hnil => absurd hnil (List.cons_ne_nil _ _)⟩
          rw [subFrom, hmatch]
          dsimp only
          rw [ha, List.append_assoc _ a]

theorem subFrom_id (before : Option α) (skip : Nat) (s : List α) : subFrom p id before skip s = s.drop skip := by
  induction s generalizing before skip with
  | nil => exact List.drop_nil.symm
  | cons c s ih =>
    cases skip with
    | succ skip => exact ih (some c) skip
    | zero =>
      cases hmatch : p.matchAt before (c :: s) with
      | none =>
        rw [subFrom, hmatch]
        exact congrArg (c :: ·) (ih (some c) 0)
      | some found =>
        obtain ⟨keep, give⟩ := found
        have hfits := p.fits hmatch
        have hrest : s.drop (keep + give - 1) = ((c :: s).drop keep).drop give := by
          obtain ⟨n, hn⟩ : ∃ n, keep + give = n + 1 := ⟨keep + give - 1, by omega⟩
          rw [List.drop_drop, hn]
          rfl
        rw [subFrom, hmatch]
        dsimp only
        rw [ih, hrest, id, List.append_assoc, List.take_append_drop, List.take_append_drop, List.drop_zero]

/-- The last piece ends the text, and a single one is all of it. -/
theorem last_piecesFrom {before : Option α} {skip : Nat} {s last : List α} {init : List (List α)}
    (h : piecesFrom p before skip s = init ++ [last]) : last <:+ s ∧ (init = [] → last = s.drop skip) := by
  obtain ⟨a, ha, hsingle⟩ := subFrom_ends id h
  rw [subFrom_id] at ha
  have hsuffix : last <:+ s.drop skip := ⟨a, ha.symm⟩
  exact ⟨hsuffix.trans (List.drop_suffix skip s), fun hnil => by rw [ha, hsingle hnil, List.nil_append]⟩

/-- A piece stands behind what is skipped, and all but the first behind the first match. -/
theorem infix_of_mem_piecesFrom {before : Option α} {skip : Nat} {s q : List α} (hskip : skip ≤ s.length)
    (h : q ∈ piecesFrom p before skip s) : ∃ a b, s = a ++ q ++ b ∧ skip ≤ a.length := by
  induction s generalizing before skip q with
  | nil =>
    obtain rfl := List.mem_singleton.mp h
    exact ⟨[], [], rfl, hskip⟩
  | cons c s ih =>
    cases skip with
    | succ skip =>
      obtain ⟨a, b, rfl, hle⟩ := ih (Nat.le_of_succ_le_succ hskip) h
      exact ⟨c :: a, b, rfl, Nat.succ_le_succ hle⟩
    | zero =>
      cases hmatch : p.matchAt before (c :: s) with
      | none =>
        rw [piecesFrom_none hmatch] at h
        cases hps : piecesFrom p (some c) 0 s with
        | nil => exact absurd hps (piecesFrom_ne_nil _ _ _)
        | cons first rest =>
          rw [hps, List.modifyHead_cons] at h
          rcases List.mem_cons.mp h with rfl | hq
          · have hhead : first <+: (piecesFrom p (some c) 0 s).headD [] := by
              rw [hps]
              exact List.prefix_refl _
            obtain ⟨b, rfl⟩ := ((prefix_head_iff (i := 0)).mp hhead).1
            exact ⟨[], b, rfl, Nat.zero_le _⟩
          · obtain ⟨a, b, rfl, -⟩ := ih (Nat.zero_le _) (hps ▸ List.mem_cons_of_mem first hq)
            exact ⟨c :: a, b, rfl, Nat.zero_le _⟩
      | some found =>
        obtain ⟨keep, give⟩ := found
        have hfits := p.fits hmatch
        rw [List.length_cons] at hfits
        rw [piecesFrom_some hmatch] at h
        rcases List.mem_cons.mp h with rfl | hq
        · exact ⟨[], (c :: s).drop keep, (List.take_append_drop keep (c :: s)).symm, Nat.zero_le _⟩
        · obtain ⟨a, b, rfl, -⟩ := ih (by omega) hq
          exact ⟨c :: a, b, rfl, Nat.zero_le _⟩

theorem infix_of_mem_tail {before : Option α} {s q : List α} (h : q ∈ (piecesFrom p before 0 s).tail) :
    ∃ a b, s = a ++ q ++ b ∧ a ≠ [] := by
  induction s generalizing before with
  | nil => cases h
  | cons c s ih =>
    cases hmatch : p.matchAt before (c :: s) with
    | none =>
      rw [piecesFrom_none hmatch] at h
      have htail : q ∈ (piecesFrom p (some c) 0 s).tail := by
        cases hps : piecesFrom p (some c) 0 s with
        | nil => exact absurd hps (piecesFrom_ne_nil _ _ _)
        | cons first rest =>
          rw [hps] at h
          exact h
      obtain ⟨a, b, rfl, -⟩ := ih htail
      exact ⟨c :: a, b, rfl, List.cons_ne_nil _ _⟩
    | some found =>
      obtain ⟨keep, give⟩ := found
      have hfits := p.fits hmatch
      rw [List.length_cons] at hfits
      rw [piecesFrom_some hmatch] at h
      obtain ⟨a, b, rfl, -⟩ := infix_of_mem_piecesFrom (by omega) h
      exact ⟨c :: a, b, rfl, List.cons_ne_nil _ _⟩

theorem spansFrom_le {before : Option α} {skip i : Nat} {s : List α} {span : Nat × Nat}
    (h : span ∈ spansFrom p before skip i s) : span.2 ≤ i + s.length := by
  induction s generalizing before skip i with
  | nil => cases h
  | cons c s ih =>
    rw [List.length_cons]
    cases skip with
    | succ skip =>
      have hle := ih (show span ∈ spansFrom p (some c) skip (i + 1) s from h)
      omega
    | zero =>
      unfold spansFrom at h
      split at h
      · have hle := ih h
        omega
      · next keep give hmatch =>
        have hfits := p.fits hmatch
        rw [List.length_cons] at hfits
        rcases List.mem_cons.mp h with rfl | h
        · dsimp only
          omega
        · have hle := ih h
          omega

/-! ## A text in two parts -/

/-- Where no match in the first part reads on, the pieces of both are those of the text, with
the character between the parts in the piece where they meet. -/
theorem piecesFrom_append_cons {x : α} {a b first : List α} {rest : List (List α)}
    (hpast : ∀ before s, s <:+ a → s ≠ [] → p.matchAt before (s ++ x :: b) = p.matchAt before s)
    (hx : ∀ before, p.matchAt before (x :: b) = none) (hb : piecesFrom p (some x) 0 b = first :: rest)
    {before : Option α} {skip : Nat} (hskip : skip ≤ a.length) : ∃ init last,
      piecesFrom p before skip a = init ++ [last] ∧
      piecesFrom p before skip (a ++ x :: b) = init ++ (last ++ x :: first) :: rest := by
  induction a generalizing before skip with
  | nil =>
    obtain rfl : skip = 0 := by simpa using hskip
    refine ⟨[], [], rfl, ?_⟩
    rw [List.nil_append, piecesFrom_none (hx before), hb]
    rfl
  | cons c a ih =>
    have hpast' : ∀ before s, s <:+ a → s ≠ [] → p.matchAt before (s ++ x :: b) = p.matchAt before s :=
      fun before s hs => hpast before s (hs.trans (List.suffix_cons c a))
    cases skip with
    | succ skip => exact ih hpast' (Nat.le_of_succ_le_succ hskip)
    | zero =>
      have hsame : p.matchAt before (c :: (a ++ x :: b)) = p.matchAt before (c :: a) :=
        hpast before (c :: a) List.suffix_rfl (List.cons_ne_nil _ _)
      rw [List.cons_append]
      cases hmatch : p.matchAt before (c :: a) with
      | none =>
        obtain ⟨init, last, ha, hab⟩ := @ih hpast' (some c) 0 (Nat.zero_le _)
        rw [piecesFrom_none hmatch, piecesFrom_none (hsame.trans hmatch), ha, hab]
        cases init with
        | nil => exact ⟨[], c :: last, rfl, rfl⟩
        | cons q init => exact ⟨(c :: q) :: init, last, rfl, rfl⟩
      | some found =>
        obtain ⟨keep, give⟩ := found
        have hfits := p.fits hmatch
        rw [List.length_cons] at hfits
        obtain ⟨init, last, ha, hab⟩ := @ih hpast' (some c) (keep + give - 1) (by omega)
        have htake : (c :: a ++ x :: b).take keep = (c :: a).take keep :=
          List.take_append_of_le_length (by rw [List.length_cons]; omega)
        rw [piecesFrom_some hmatch, piecesFrom_some (hsame.trans hmatch), ha, hab]
        exact ⟨(c :: a).take keep :: init, last, rfl, congrArg (· :: _) htake⟩

/-- There the parts are rewritten one by one. -/
theorem subFrom_append_cons (new : List α → List α) {x : α} {a b : List α}
    (hpast : ∀ before s, s <:+ a → s ≠ [] → p.matchAt before (s ++ x :: b) = p.matchAt before s)
    (hx : ∀ before, p.matchAt before (x :: b) = none) {before : Option α} {skip : Nat} (hskip : skip ≤ a.length) :
    subFrom p new before skip (a ++ x :: b) = subFrom p new before skip a ++ x :: subFrom p new (some x) 0 b := by
  induction a generalizing before skip with
  | nil =>
    obtain rfl : skip = 0 := by simpa using hskip
    have hcopied : subFrom p new before 0 (x :: b) = x :: subFrom p new (some x) 0 b := by
      rw [subFrom, hx before]
    exact hcopied
  | cons c a ih =>
    have hpast' : ∀ before s, s <:+ a → s ≠ [] → p.matchAt before (s ++ x :: b) = p.matchAt before s :=
      fun before s hs => hpast before s (hs.trans (List.suffix_cons c a))
    cases skip with
    | succ skip => exact ih hpast' (Nat.le_of_succ_le_succ hskip)
    | zero =>
      have hsame : p.matchAt before (c :: (a ++ x :: b)) = p.matchAt before (c :: a) :=
        hpast before (c :: a) List.suffix_rfl (List.cons_ne_nil _ _)
      rw [List.cons_append, subFrom, subFrom, hsame]
      cases hmatch : p.matchAt before (c :: a) with
      | none =>
        dsimp only
        rw [ih hpast' (Nat.zero_le _)]
        rfl
      | some found =>
        obtain ⟨keep, give⟩ := found
        have hfits := p.fits hmatch
        rw [List.length_cons] at hfits
        have hlong : keep ≤ (c :: a).length := by
          rw [List.length_cons]
          omega
        have hgive : give ≤ ((c :: a).drop keep).length := by
          rw [List.length_drop, List.length_cons]
          omega
        dsimp only
        rw [ih hpast' (by omega), ← List.cons_append, List.take_append_of_le_length hlong,
          List.drop_append_of_le_length hlong, List.take_append_of_le_length hgive]
        simp only [List.append_assoc]

/-! ## A text that ends with a word -/

/-- A match that comes to the word at the end takes all of it, and none stands inside it. -/
structure Swallows (p : Pattern α) (word : List α) : Prop where
  nonempty : word ≠ []
  inside : ∀ before s, s <:+ word → p.matchAt before s = none
  whole : ∀ before m keep give, p.matchAt before (m ++ word) = some (keep, give) → m.length ≤ keep + give →
    keep + give = m.length + word.length

section

variable {word : List α}

theorem Swallows.at_word (h : Swallows p word) {s : List α} (hs : s <:+ word) (before : Option α) (i : Nat) :
    piecesFrom p before 0 s = [s] ∧ spansFrom p before 0 i s = [] := by
  induction s generalizing before i with
  | nil => exact ⟨rfl, rfl⟩
  | cons c s ih =>
    have hmatch := h.inside before _ hs
    obtain ⟨hpieces, hspans⟩ := ih ((List.suffix_cons c s).trans hs) (some c) (i + 1)
    rw [piecesFrom_none hmatch, hpieces, spansFrom, hmatch]
    exact ⟨rfl, hspans⟩

theorem piecesFrom_all (before : Option α) (s : List α) : piecesFrom p before s.length s = [[]] := by
  induction s generalizing before with
  | nil => rfl
  | cons c s ih => exact ih (some c)

/-- After a match that is not the last thing in the text, less than what stands before the
word is skipped. -/
theorem Swallows.after_match (h : Swallows p word) {before : Option α} {c : α} {m : List α} {keep give : Nat}
    (hmatch : p.matchAt before (c :: m ++ word) = some (keep, give)) :
    keep + give - 1 < m.length ∨ keep + give - 1 = m.length + word.length := by
  have hfits := p.fits hmatch
  have hwhole := h.whole before (c :: m) keep give hmatch
  rw [List.length_cons] at hwhole
  by_cases hle : m.length + 1 ≤ keep + give
  · have heq := hwhole hle
    omega
  · omega

/-- The last piece: nothing, where a match takes the end of the text, and else it ends with
the word and what stands before that. -/
theorem Swallows.last (h : Swallows p word) (m : List α) (before : Option α) {skip : Nat}
    (hskip : skip = 0 ∨ skip < m.length) (i : Nat) : ∃ init last, piecesFrom p before skip (m ++ word) = init ++ [last] ∧
      (init = [] ∨ m ≠ []) ∧
      (last = [] ∧ (∃ span ∈ spansFrom p before skip i (m ++ word), span.2 = i + m.length + word.length) ∨
        ∃ q, last = q ++ word ∧ q.getLast? = m.getLast? ∧
          ∀ span ∈ spansFrom p before skip i (m ++ word), span.2 < i + m.length + word.length) := by
  have hlength := List.length_pos_of_ne_nil h.nonempty
  induction m generalizing before skip i with
  | nil =>
    obtain rfl : skip = 0 := by simpa using hskip
    obtain ⟨hpieces, hspans⟩ := h.at_word List.suffix_rfl before i
    refine ⟨[], word, hpieces, .inl rfl, .inr ⟨[], rfl, rfl, ?_⟩⟩
    rw [List.nil_append, hspans]
    nofun
  | cons c m ih =>
    have hend : i + (c :: m).length + word.length = i + 1 + m.length + word.length := by
      rw [List.length_cons]
      omega
    rw [hend]
    have hgetLast : m ≠ [] → ∀ q : List α, q.getLast? = m.getLast? → q.getLast? = (c :: m).getLast? := by
      intro hne q hq
      rw [hq, List.getLast?_cons_of_ne_nil hne]
    cases skip with
    | succ skip =>
      have hlt : skip < m.length := by simpa using hskip
      have hne : m ≠ [] := List.ne_nil_of_length_pos (Nat.zero_lt_of_lt hlt)
      obtain ⟨init, last, hpieces, -, hlast⟩ := ih (some c) (.inr hlt) (i + 1)
      refine ⟨init, last, hpieces, .inr (List.cons_ne_nil _ _), ?_⟩
      rcases hlast with hlast | ⟨q, rfl, hq, hspans⟩
      · exact .inl hlast
      · exact .inr ⟨q, rfl, hgetLast hne q hq, hspans⟩
    | zero =>
      rw [List.cons_append]
      cases hmatch : p.matchAt before (c :: (m ++ word)) with
      | none =>
        have hspans : spansFrom p before 0 i (c :: (m ++ word)) = spansFrom p (some c) 0 (i + 1) (m ++ word) := by
          rw [spansFrom, hmatch]
        obtain ⟨init, last, hpieces, hinit, hlast⟩ := ih (some c) (.inl rfl) (i + 1)
        rw [hspans, piecesFrom_none hmatch, hpieces]
        cases init with
        | nil =>
          refine ⟨[], c :: last, rfl, .inl rfl, ?_⟩
          have hall := (last_piecesFrom (show _ = [] ++ [last] from hpieces)).2 rfl
          rw [List.drop_zero] at hall
          rcases hlast with ⟨hnil, -⟩ | ⟨q, -, -, hle⟩
          · rw [hnil] at hall
            exact absurd (List.append_eq_nil_iff.mp hall.symm).2 h.nonempty
          · exact .inr ⟨c :: m, by rw [hall]; rfl, rfl, hle⟩
        | cons first init =>
          refine ⟨(c :: first) :: init, last, rfl, .inr (List.cons_ne_nil _ _), ?_⟩
          have hne : m ≠ [] := hinit.resolve_left (List.cons_ne_nil _ _)
          rcases hlast with hlast | ⟨q, rfl, hq, hle⟩
          · exact .inl hlast
          · exact .inr ⟨q, rfl, hgetLast hne q hq, hle⟩
      | some found =>
        obtain ⟨keep, give⟩ := found
        have hfits := p.fits hmatch
        have hspans : spansFrom p before 0 i (c :: (m ++ word)) =
            (i + keep, i + keep + give) :: spansFrom p (some c) (keep + give - 1) (i + 1) (m ++ word) := by
          rw [spansFrom, hmatch]
        rw [hspans, piecesFrom_some hmatch]
        rcases h.after_match hmatch with hlt | hall
        · have hne : m ≠ [] := List.ne_nil_of_length_pos (Nat.zero_lt_of_lt hlt)
          obtain ⟨init, last, hpieces, -, hlast⟩ := ih (some c) (.inr hlt) (i + 1)
          rw [hpieces]
          refine ⟨_ :: init, last, rfl, .inr (List.cons_ne_nil _ _), ?_⟩
          rcases hlast with ⟨hnil, span, hmem, hreach⟩ | ⟨q, rfl, hq, hle⟩
          · exact .inl ⟨hnil, span, List.mem_cons_of_mem _ hmem, hreach⟩
          · refine .inr ⟨q, rfl, hgetLast hne q hq, fun span hmem => ?_⟩
            rcases List.mem_cons.mp hmem with rfl | hmem
            · dsimp only
              omega
            · exact hle span hmem
        · rw [hall, ← List.length_append, piecesFrom_all]
          refine ⟨[_], [], rfl, .inr (List.cons_ne_nil _ _), .inl ⟨rfl, _, List.mem_cons_self, ?_⟩⟩
          dsimp only
          omega

theorem spansFrom_length (before : Option α) (i : Nat) (s : List α) : spansFrom p before s.length i s = [] := by
  induction s generalizing before i with
  | nil => rfl
  | cons c s ih => exact ih (some c) (i + 1)

theorem spansFrom_all {x : α} {b : List α} (hx : ∀ before, p.matchAt before (x :: b) = none) (before : Option α)
    (i : Nat) (s : List α) :
    spansFrom p before s.length i (s ++ x :: b) = spansFrom p (some x) 0 (i + s.length + 1) b := by
  induction s generalizing before i with
  | nil =>
    rw [List.nil_append, List.length_nil, spansFrom, hx]
  | cons c s ih =>
    have hshift : i + 1 + s.length = i + (s.length + 1) := by omega
    show spansFrom p (some c) s.length (i + 1) (s ++ x :: b) = _
    rw [ih, hshift, List.length_cons]

/-- Where the text goes on behind the word, and the pattern matches at the word: either a
match takes the end of the first part, and the spans are those of both, or the match at the
word is found. -/
theorem Swallows.spans_append (h : Swallows p word) {x : α} {b m : List α} {keep give : Nat} {before : Option α}
    (hpast : ∀ before s, s <:+ m ++ word → word.length < s.length →
      p.matchAt before (s ++ x :: b) = p.matchAt before s)
    (hinside : ∀ before s, s <:+ word → s ≠ word → p.matchAt before (s ++ x :: b) = none)
    (hword : p.matchAt (m.getLast?.or before) (word ++ x :: b) = some (keep, give)) {skip : Nat}
    (hskip : skip = 0 ∨ skip < m.length) (i : Nat) :
    (∃ span ∈ spansFrom p before skip i (m ++ word), span.2 = i + m.length + word.length) ∧
        spansFrom p before skip i (m ++ word ++ x :: b) = spansFrom p before skip i (m ++ word) ++
          spansFrom p (some x) 0 (i + m.length + word.length + 1) b ∨
      (∀ span ∈ spansFrom p before skip i (m ++ word), span.2 < i + m.length + word.length) ∧
        (i + m.length + keep, i + m.length + keep + give) ∈ spansFrom p before skip i (m ++ word ++ x :: b) := by
  have hx : ∀ before, p.matchAt before (x :: b) = none :=
    fun before => hinside before [] List.nil_suffix h.nonempty.symm
  induction m generalizing before skip i with
  | nil =>
    obtain rfl : skip = 0 := by simpa using hskip
    obtain ⟨-, hspans⟩ := h.at_word List.suffix_rfl before i
    have hword : p.matchAt before (word ++ x :: b) = some (keep, give) := hword
    refine .inr ⟨?_, ?_⟩
    · rw [List.nil_append, hspans]
      nofun
    · cases word with
      | nil => exact absurd rfl h.nonempty
      | cons d word =>
        rw [List.cons_append] at hword
        rw [List.nil_append, List.cons_append, spansFrom, hword]
        exact List.mem_cons_self
  | cons c m ih =>
    have hend : i + (c :: m).length = i + 1 + m.length := by
      rw [List.length_cons]
      omega
    rw [hend]
    have hpast' : ∀ before s, s <:+ m ++ word → word.length < s.length →
        p.matchAt before (s ++ x :: b) = p.matchAt before s :=
      fun before s hs => hpast before s (hs.trans (List.suffix_cons c _))
    have hword' : p.matchAt (m.getLast?.or (some c)) (word ++ x :: b) = some (keep, give) := by
      rw [← hword, List.getLast?_cons]
      cases m.getLast? <;> rfl
    cases skip with
    | succ skip =>
      have hlt : skip < m.length := by simpa using hskip
      exact ih hpast' hword' (.inr hlt) (i + 1)
    | zero =>
      have hlong : word.length < (c :: (m ++ word)).length := by
        rw [List.length_cons, List.length_append]
        omega
      have hsame : p.matchAt before (c :: (m ++ word ++ x :: b)) = p.matchAt before (c :: (m ++ word)) :=
        hpast before (c :: (m ++ word)) List.suffix_rfl hlong
      rw [List.cons_append, List.cons_append]
      cases hmatch : p.matchAt before (c :: (m ++ word)) with
      | none =>
        simp only [spansFrom, hmatch, hsame.trans hmatch]
        exact ih hpast' hword' (.inl rfl) (i + 1)
      | some found =>
        obtain ⟨k, g⟩ := found
        have hfits := p.fits hmatch
        simp only [spansFrom, hmatch, hsame.trans hmatch, List.mem_cons, exists_eq_or_imp, forall_eq_or_imp,
          List.cons_append]
        rcases h.after_match hmatch with hlt | hall
        · rcases ih hpast' hword' (.inr hlt) (i + 1) with ⟨hreach, heq⟩ | ⟨hle, hmem⟩
          · exact .inl ⟨.inr hreach, congrArg _ heq⟩
          · exact .inr ⟨⟨by omega, hle⟩, .inr hmem⟩
        · have hlength : m.length + word.length = (m ++ word).length := List.length_append.symm
          have hbehind : i + 1 + m.length + word.length + 1 = i + 1 + (m ++ word).length + 1 := by omega
          rw [hall, hlength, spansFrom_length, spansFrom_all hx, hbehind]
          exact .inl ⟨.inl (by omega), rfl⟩

/-- A match that reads a blank gives up nothing of a run without one. -/
theorem le_spansFrom_append {f : α → Bool} {w s : List α}
    (hp : ∀ before s keep give, p.matchAt before s = some (keep, give) → ∃ c ∈ s.take keep, f c = true)
    (hw : ∀ c ∈ w, f c = false) {before : Option α} {skip i : Nat} {span : Nat × Nat}
    (h : span ∈ spansFrom p before skip i (w ++ s)) : i + w.length ≤ span.1 := by
  induction w generalizing before skip i with
  | nil =>
    have hle := (le_of_mem_spansFrom h).1
    rw [List.length_nil]
    omega
  | cons c w ih =>
    have hw' : ∀ c ∈ w, f c = false := fun d hd => hw d (List.mem_cons_of_mem c hd)
    rw [List.cons_append] at h
    rw [List.length_cons]
    cases skip with
    | succ skip =>
      have hle := ih hw' (show span ∈ spansFrom p (some c) skip (i + 1) (w ++ s) from h)
      omega
    | zero =>
      unfold spansFrom at h
      split at h
      · have hle := ih hw' h
        omega
      · next keep give hmatch =>
        rcases List.mem_cons.mp h with rfl | h
        · by_contra hlt
          obtain ⟨d, hd, hfd⟩ := hp _ _ _ _ hmatch
          rw [← List.cons_append, List.take_append_of_le_length (by rw [List.length_cons]; omega)] at hd
          rw [hw d (List.mem_of_mem_take hd)] at hfd
          cases hfd
        · have hle := ih hw' h
          omega

end

end PyScan
