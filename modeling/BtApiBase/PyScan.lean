import BtApiBase.PyReplace

/-!
# Substitution by a pattern

A pattern tells, for a text and the character before it, whether it matches there: how
many characters it keeps (a prefix group) and how many it gives up for the replacement.
`re.sub` takes the leftmost match, goes on behind it, and leaves the pieces of the text
between what is given up. A word that shares no character with the replacement stands in
the result where it stands in the text and meets nothing given up.
-/

namespace PyScan

open PyReplace

variable {α : Type*}

structure Pattern (α : Type*) where
  matchAt : Option α → List α → Option (Nat × Nat)
  fits : ∀ {before s keep give}, matchAt before s = some (keep, give) → 0 < give ∧ keep + give ≤ s.length

/-- `pattern.sub(new, s)` after `skip` characters, where `new` replaces what is given up. -/
def subFrom (p : Pattern α) (new : List α → List α) : Option α → Nat → List α → List α
  | _, _, [] => []
  | _, skip + 1, c :: s => subFrom p new (some c) skip s
  | before, 0, c :: s =>
    match p.matchAt before (c :: s) with
    | none => c :: subFrom p new (some c) 0 s
    | some (keep, give) =>
      (c :: s).take keep ++ new (((c :: s).drop keep).take give) ++ subFrom p new (some c) (keep + give - 1) s

def sub (p : Pattern α) (new : List α → List α) (s : List α) : List α := subFrom p new none 0 s

/-- What `sub` leaves. -/
def piecesFrom (p : Pattern α) : Option α → Nat → List α → List (List α)
  | _, _, [] => [[]]
  | _, skip + 1, c :: s => piecesFrom p (some c) skip s
  | before, 0, c :: s =>
    match p.matchAt before (c :: s) with
    | none => (piecesFrom p (some c) 0 s).modifyHead (c :: ·)
    | some (keep, give) => (c :: s).take keep :: piecesFrom p (some c) (keep + give - 1) s

def pieces (p : Pattern α) (s : List α) : List (List α) := piecesFrom p none 0 s

/-- Where the given up parts begin and end, counted from `i`. -/
def spansFrom (p : Pattern α) : Option α → Nat → Nat → List α → List (Nat × Nat)
  | _, _, _, [] => []
  | _, skip + 1, i, c :: s => spansFrom p (some c) skip (i + 1) s
  | before, 0, i, c :: s =>
    match p.matchAt before (c :: s) with
    | none => spansFrom p (some c) 0 (i + 1) s
    | some (keep, give) =>
      (i + keep, i + keep + give) :: spansFrom p (some c) (keep + give - 1) (i + 1) s

def spans (p : Pattern α) (s : List α) : List (Nat × Nat) := spansFrom p none 0 0 s

variable {p : Pattern α}

section

variable {before : Option α} {c : α} {s : List α}

theorem piecesFrom_none (h : p.matchAt before (c :: s) = none) :
    piecesFrom p before 0 (c :: s) = (piecesFrom p (some c) 0 s).modifyHead (c :: ·) := by rw [piecesFrom, h]

theorem piecesFrom_some {keep give : Nat} (h : p.matchAt before (c :: s) = some (keep, give)) :
    piecesFrom p before 0 (c :: s) = (c :: s).take keep :: piecesFrom p (some c) (keep + give - 1) s := by
  rw [piecesFrom, h]

end

theorem headD_modifyHead (c : α) {qs : List (List α)} (h : qs ≠ []) :
    (qs.modifyHead (c :: ·)).headD [] = c :: qs.headD [] := by
  cases qs with
  | nil => exact absurd rfl h
  | cons q qs => rfl

/-! ## The result and its pieces -/

theorem piecesFrom_ne_nil (before : Option α) (skip : Nat) (s : List α) : piecesFrom p before skip s ≠ [] := by
  induction s generalizing before skip with
  | nil => simp [piecesFrom]
  | cons c s ih =>
    cases skip with
    | succ skip => exact ih (some c) skip
    | zero =>
      unfold piecesFrom
      split
      · cases h : piecesFrom p (some c) 0 s with
        | nil => exact absurd h (ih (some c) 0)
        | cons q qs => simp
      · simp

theorem subFrom_eq_intercalate (new : List α) (before : Option α) (skip : Nat) (s : List α) :
    subFrom p (fun _ => new) before skip s = new.intercalate (piecesFrom p before skip s) := by
  induction s generalizing before skip with
  | nil => simp [subFrom, piecesFrom]
  | cons c s ih =>
    cases skip with
    | succ skip => exact ih (some c) skip
    | zero =>
      unfold subFrom piecesFrom
      split
      · rw [ih]
        cases h : piecesFrom p (some c) 0 s with
        | nil => exact absurd h (piecesFrom_ne_nil _ _ _)
        | cons q qs => rw [List.modifyHead_cons, List.intercalate_cons_cons_left]
      · rw [List.intercalate_cons_of_ne_nil (piecesFrom_ne_nil _ _ _), ih]

/-- A text in which the pattern takes nothing stays as it is. -/
theorem subFrom_eq_drop {new : List α → List α} {before : Option α} {skip i : Nat} {s : List α}
    (h : spansFrom p before skip i s = []) : subFrom p new before skip s = s.drop skip := by
  induction s generalizing before skip i with
  | nil => simp [subFrom]
  | cons c s ih =>
    cases skip with
    | succ skip =>
      have hrest : spansFrom p (some c) skip (i + 1) s = [] := h
      exact ih hrest
    | zero =>
      unfold spansFrom at h
      split at h
      · next hmatch => rw [subFrom, hmatch, ih h]; rfl
      · cases h

theorem sub_eq_self {new : List α → List α} {s : List α} (h : spans p s = []) : sub p new s = s :=
  subFrom_eq_drop h

theorem sub_eq_intercalate (new s : List α) : sub p (fun _ => new) s = new.intercalate (pieces p s) :=
  subFrom_eq_intercalate new none 0 s

/-! ## Pieces and spans -/

theorem le_of_mem_spansFrom {before : Option α} {skip i : Nat} {s : List α} {span : Nat × Nat}
    (h : span ∈ spansFrom p before skip i s) : i + skip ≤ span.1 ∧ span.1 < span.2 := by
  induction s generalizing before skip i with
  | nil => simp [spansFrom] at h
  | cons c s ih =>
    cases skip with
    | succ skip =>
      have hrest : span ∈ spansFrom p (some c) skip (i + 1) s := h
      have := ih hrest
      omega
    | zero =>
      unfold spansFrom at h
      split at h
      · have := ih h
        omega
      · next keep give hmatch =>
        have hfits := p.fits hmatch
        rcases List.mem_cons.mp h with rfl | h
        · dsimp only
          omega
        · have := ih h
          omega

/-- The first piece ends where the first span begins. -/
theorem prefix_head_iff {before : Option α} {i : Nat} {s w : List α} :
    w <+: (piecesFrom p before 0 s).headD [] ↔
      w <+: s ∧ ∀ span ∈ spansFrom p before 0 i s, i + w.length ≤ span.1 := by
  induction s generalizing before i w with
  | nil => simp [piecesFrom, spansFrom]
  | cons c s ih =>
    unfold piecesFrom spansFrom
    split
    · rw [headD_modifyHead c (piecesFrom_ne_nil _ _ _)]
      cases w with
      | nil =>
        simp only [List.nil_prefix, true_and, true_iff, List.length_nil]
        intro span hspan
        have := le_of_mem_spansFrom hspan
        omega
      | cons d w =>
        rw [List.cons_prefix_cons, List.cons_prefix_cons, ih (i := i + 1), and_assoc, List.length_cons]
        have hshift : i + 1 + w.length = i + (w.length + 1) := by omega
        rw [hshift]
    · next keep give hmatch =>
      have hfits := p.fits hmatch
      rw [List.headD_cons, List.prefix_take_iff]
      refine and_congr_right fun _ => ⟨fun hle span hspan => ?_, fun hspans => ?_⟩
      · rcases List.mem_cons.mp hspan with rfl | hspan
        · dsimp only
          omega
        · have := le_of_mem_spansFrom hspan
          omega
      · have := hspans _ List.mem_cons_self
        dsimp only at this
        omega

/-- The word at `a` meets none of the spans. -/
def Spared (i : Nat) (a w : List α) (spans : List (Nat × Nat)) : Prop :=
  ∀ span ∈ spans, i + a.length + w.length ≤ span.1 ∨ span.2 ≤ i + a.length

theorem spared_cons {i : Nat} {a w : List α} {c : α} {spans : List (Nat × Nat)} :
    Spared i (c :: a) w spans ↔ Spared (i + 1) a w spans := by
  have hshift : i + (c :: a).length = i + 1 + a.length := by
    rw [List.length_cons]
    omega
  rw [Spared, Spared, hshift]

theorem infix_cons_headD {c : α} {w : List α} {before : Option α} {s : List α} :
    (∃ q ∈ (piecesFrom p before 0 s).modifyHead (c :: ·), w <:+: q) ↔
      w <+: c :: (piecesFrom p before 0 s).headD [] ∨ ∃ q ∈ piecesFrom p before 0 s, w <:+: q := by
  cases h : piecesFrom p before 0 s with
  | nil => exact absurd h (piecesFrom_ne_nil _ _ _)
  | cons q qs =>
    rw [List.modifyHead_cons, List.headD_cons]
    simp only [List.mem_cons, exists_eq_or_imp, List.infix_cons_iff, or_assoc]

theorem exists_cons_iff {c : α} {s w : List α} {P : List α → Prop} :
    (∃ a b, c :: s = a ++ w ++ b ∧ P a) ↔
      (w <+: c :: s ∧ P []) ∨ ∃ a b, s = a ++ w ++ b ∧ P (c :: a) := by
  constructor
  · rintro ⟨a, b, hs, hp⟩
    cases a with
    | nil => exact .inl ⟨⟨b, hs.symm⟩, hp⟩
    | cons d a =>
      obtain ⟨rfl, rfl⟩ : c = d ∧ s = a ++ w ++ b := by simpa using hs
      exact .inr ⟨a, b, rfl, hp⟩
  · rintro (⟨⟨b, hb⟩, hp⟩ | ⟨a, b, rfl, hp⟩)
    · exact ⟨[], b, hb.symm, hp⟩
    · exact ⟨c :: a, b, rfl, hp⟩

theorem infix_take_iff {s w : List α} {n : Nat} :
    w <:+: s.take n ↔ ∃ a b, s = a ++ w ++ b ∧ a.length + w.length ≤ n := by
  constructor
  · rintro ⟨a, b, hab⟩
    refine ⟨a, b ++ s.drop n, ?_, ?_⟩
    · rw [← List.append_assoc, hab, List.take_append_drop]
    · have hlen := congrArg List.length hab
      simp only [List.length_append, List.length_take] at hlen
      omega
  · rintro ⟨a, b, rfl, hle⟩
    refine ⟨a, b.take (n - (a ++ w).length), ?_⟩
    rw [List.take_append, List.take_of_length_le (l := a ++ w) (by simpa using hle)]

/-- A word stands in a piece where it stands in the text and is spared. -/
theorem infix_pieceFrom_iff (before : Option α) (skip i : Nat) (s : List α) {w : List α} (hw : w ≠ []) :
    (∃ q ∈ piecesFrom p before skip s, w <:+: q) ↔
      ∃ a b, s = a ++ w ++ b ∧ skip ≤ a.length ∧ Spared i a w (spansFrom p before skip i s) := by
  induction s generalizing before skip i with
  | nil => simp [piecesFrom, hw]
  | cons c s ih =>
    cases skip with
    | succ skip =>
      have h := ih (some c) skip (i + 1)
      rw [exists_cons_iff, show piecesFrom p before (skip + 1) (c :: s) = piecesFrom p (some c) skip s from rfl, h,
        show spansFrom p before (skip + 1) i (c :: s) = spansFrom p (some c) skip (i + 1) s from rfl]
      simp [spared_cons]
    | zero =>
      unfold piecesFrom spansFrom
      split
      · rw [exists_cons_iff, infix_cons_headD, ih (some c) 0 (i + 1)]
        simp only [spared_cons, Nat.zero_le, true_and]
        refine or_congr_left ?_
        cases w with
        | nil => exact absurd rfl hw
        | cons d w =>
          rw [List.cons_prefix_cons, List.cons_prefix_cons, prefix_head_iff (i := i + 1), and_assoc]
          refine and_congr_right fun _ => and_congr_right fun _ => forall₂_congr fun span hspan => ?_
          have := le_of_mem_spansFrom hspan
          simp only [List.length_nil, List.length_cons]
          omega
      · next keep give hmatch =>
        have hfits := p.fits hmatch
        have hrest := ih (some c) (keep + give - 1) (i + 1)
        -- The word stands before the span, or behind it.
        have hspans : ∀ a : List α, Spared i a w ((i + keep, i + keep + give) ::
              spansFrom p (some c) (keep + give - 1) (i + 1) s) ↔
            a.length + w.length ≤ keep ∨ keep + give ≤ a.length ∧
              Spared i a w (spansFrom p (some c) (keep + give - 1) (i + 1) s) := by
          intro a
          simp only [Spared, List.mem_cons, forall_eq_or_imp]
          constructor
          · rintro ⟨h, hs⟩
            by_cases hle : a.length + w.length ≤ keep
            · exact .inl hle
            · exact .inr ⟨by omega, hs⟩
          · rintro (h | ⟨h, hs⟩)
            · refine ⟨.inl (by omega), fun span hspan => .inl ?_⟩
              have := le_of_mem_spansFrom hspan
              omega
            · exact ⟨.inr (by omega), hs⟩
        simp only [List.mem_cons, exists_eq_or_imp, hrest, hspans, infix_take_iff, Nat.zero_le, true_and]
        constructor
        · rintro (⟨a, b, hab, hle⟩ | ⟨a, b, hab, hle, hs⟩)
          · exact ⟨a, b, hab, .inl hle⟩
          · refine ⟨c :: a, b, by rw [hab]; rfl, .inr ⟨?_, spared_cons.mpr hs⟩⟩
            rw [List.length_cons]
            omega
        · rintro ⟨a, b, hab, hle | ⟨hle, hs⟩⟩
          · exact .inl ⟨a, b, hab, hle⟩
          · cases a with
            | nil =>
              rw [List.length_nil] at hle
              omega
            | cons d a =>
              obtain ⟨rfl, hrest⟩ : c = d ∧ s = a ++ w ++ b := by simpa using hab
              refine .inr ⟨a, b, hrest, ?_, spared_cons.mp hs⟩
              rw [List.length_cons] at hle
              omega

theorem infix_piece_iff {s w : List α} (hw : w ≠ []) :
    (∃ q ∈ pieces p s, w <:+: q) ↔ ∃ a b, s = a ++ w ++ b ∧ Spared 0 a w (spans p s) := by
  simpa [pieces, spans] using infix_pieceFrom_iff (p := p) none 0 0 s hw

/-- Substituting hides a word exactly where it meets something given up. -/
theorem infix_sub_iff {new s w : List α} (hw : w ≠ []) (hnew : new ≠ []) (hdisjoint : ∀ c ∈ new, c ∉ w) :
    w <:+: sub p (fun _ => new) s ↔ ∃ a b, s = a ++ w ++ b ∧ Spared 0 a w (spans p s) := by
  rw [← infix_piece_iff hw, sub_eq_intercalate]
  constructor
  · exact infix_intercalate hnew hdisjoint hw
  · rintro ⟨q, hq, hinfix⟩
    exact hinfix.trans (infix_intercalate_of_mem hq)

/-! ## Separators -/

/-- No match reads past `x`, and behind `x` the pattern matches as at the beginning. -/
structure Separates (p : Pattern α) (x : α) : Prop where
  past : ∀ before a b, p.matchAt before (a ++ x :: b) = p.matchAt before a
  fresh : ∀ s, p.matchAt (some x) s = p.matchAt none s

/-- The word stands in a piece. -/
def Exposed (p : Pattern α) (before : Option α) (skip : Nat) (s w : List α) : Prop :=
  ∃ q ∈ piecesFrom p before skip s, w <:+: q

variable {x : α} {w : List α}

theorem matchAt_nil (before : Option α) : p.matchAt before [] = none := by
  cases h : p.matchAt before [] with
  | none => rfl
  | some found =>
    have := p.fits h
    rw [List.length_nil] at this
    omega

theorem Separates.matchAt_cons (hp : Separates p x) (before : Option α) (s : List α) :
    p.matchAt before (x :: s) = none := by
  have := hp.past before [] s
  rwa [List.nil_append, matchAt_nil] at this

theorem prefix_head_append (hp : Separates p x) (hx : x ∉ w) (before : Option α) (a b : List α) :
    w <+: (piecesFrom p before 0 (a ++ x :: b)).headD [] ↔ w <+: (piecesFrom p before 0 a).headD [] := by
  induction a generalizing before w with
  | nil =>
    rw [List.nil_append, piecesFrom_none (hp.matchAt_cons _ _), headD_modifyHead x (piecesFrom_ne_nil _ _ _)]
    constructor
    · exact prefix_of_prefix_append (a := []) hx
    · intro h
      rw [List.prefix_nil.mp h]
      exact List.nil_prefix
  | cons c a ih =>
    have hmatch : p.matchAt before (c :: (a ++ x :: b)) = p.matchAt before (c :: a) := hp.past before (c :: a) b
    rw [List.cons_append]
    cases hfound : p.matchAt before (c :: a) with
    | none =>
      rw [piecesFrom_none (hmatch.trans hfound), piecesFrom_none hfound,
        headD_modifyHead c (piecesFrom_ne_nil _ _ _), headD_modifyHead c (piecesFrom_ne_nil _ _ _)]
      cases w with
      | nil => simp
      | cons d w =>
        rw [List.cons_prefix_cons, List.cons_prefix_cons, ih (fun hm => hx (List.mem_cons_of_mem _ hm))]
    | some found =>
      obtain ⟨keep, give⟩ := found
      have hfits := p.fits hfound
      rw [piecesFrom_some (hmatch.trans hfound), piecesFrom_some hfound, List.headD_cons, List.headD_cons,
        ← List.cons_append, List.take_append_of_le_length (by omega)]

theorem exposed_none {before : Option α} {c : α} {s : List α} (h : p.matchAt before (c :: s) = none) :
    Exposed p before 0 (c :: s) w ↔
      w <+: c :: (piecesFrom p (some c) 0 s).headD [] ∨ Exposed p (some c) 0 s w := by
  rw [Exposed, piecesFrom_none h, infix_cons_headD, Exposed]

theorem exposed_some {before : Option α} {c : α} {s : List α} {keep give : Nat}
    (h : p.matchAt before (c :: s) = some (keep, give)) :
    Exposed p before 0 (c :: s) w ↔
      w <:+: (c :: s).take keep ∨ Exposed p (some c) (keep + give - 1) s w := by
  rw [Exposed, piecesFrom_some h, Exposed]
  simp only [List.mem_cons, exists_eq_or_imp]

theorem exposed_append_cons (hp : Separates p x) (hw : w ≠ []) (hx : x ∉ w) (before : Option α) {skip : Nat}
    {a : List α} (hskip : skip ≤ a.length) (b : List α) :
    Exposed p before skip (a ++ x :: b) w ↔ Exposed p before skip a w ∨ Exposed p (some x) 0 b w := by
  induction a generalizing before skip with
  | nil =>
    obtain rfl : skip = 0 := by simpa using hskip
    have hnil : ¬Exposed p before 0 [] w := by simp [Exposed, piecesFrom, hw]
    rw [or_iff_right hnil, List.nil_append, exposed_none (hp.matchAt_cons _ _), or_iff_right]
    intro h
    exact hw (List.prefix_nil.mp (prefix_of_prefix_append (a := []) hx h))
  | cons c a ih =>
    cases skip with
    | succ skip => exact ih (some c) (Nat.le_of_succ_le_succ hskip)
    | zero =>
      have hmatch : p.matchAt before (c :: (a ++ x :: b)) = p.matchAt before (c :: a) := hp.past before (c :: a) b
      rw [List.cons_append]
      cases hfound : p.matchAt before (c :: a) with
      | none =>
        rw [exposed_none (hmatch.trans hfound), exposed_none hfound, ih (some c) (Nat.zero_le _), or_assoc]
        refine or_congr_left ?_
        cases w with
        | nil => exact absurd rfl hw
        | cons d w =>
          rw [List.cons_prefix_cons, List.cons_prefix_cons,
            prefix_head_append hp (fun hm => hx (List.mem_cons_of_mem _ hm))]
      | some found =>
        obtain ⟨keep, give⟩ := found
        have hfits := p.fits hfound
        rw [List.length_cons] at hfits
        rw [exposed_some (hmatch.trans hfound), exposed_some hfound, ih (some c) (by omega), or_assoc,
          ← List.cons_append, List.take_append_of_le_length (by rw [List.length_cons]; omega)]

theorem Separates.exposed_fresh (hp : Separates p x) (s : List α) :
    Exposed p (some x) 0 s w ↔ Exposed p none 0 s w := by
  cases s with
  | nil => rfl
  | cons c s =>
    have hfresh := hp.fresh (c :: s)
    cases hfound : p.matchAt none (c :: s) with
    | none => rw [exposed_none (hfresh.trans hfound), exposed_none hfound]
    | some found => rw [exposed_some (hfresh.trans hfound), exposed_some hfound]

theorem exposed_append (hp : Separates p x) (hw : w ≠ []) (hx : x ∉ w) {new : List α} (hnew : new ≠ [])
    (hall : ∀ c ∈ new, c = x) (a b : List α) :
    Exposed p none 0 (a ++ new ++ b) w ↔ Exposed p none 0 a w ∨ Exposed p none 0 b w := by
  induction new generalizing a with
  | nil => exact absurd rfl hnew
  | cons c new ih =>
    obtain rfl : c = x := hall c List.mem_cons_self
    rw [List.append_assoc, List.cons_append, exposed_append_cons hp hw hx none (Nat.zero_le _), hp.exposed_fresh]
    by_cases hrest : new = []
    · rw [hrest, List.nil_append]
    · have hnil : ¬Exposed p none 0 [] w := by simp [Exposed, piecesFrom, hw]
      have := ih hrest (fun d hd => hall d (List.mem_cons_of_mem c hd)) []
      rw [List.nil_append, or_iff_right hnil] at this
      rw [this]

/-- What separates the parts of a text lets the pattern see each part for itself. -/
theorem exposed_intercalate (hp : Separates p x) (hw : w ≠ []) (hx : x ∉ w) {new : List α} (hnew : new ≠ [])
    (hall : ∀ c ∈ new, c = x) (parts : List (List α)) :
    Exposed p none 0 (new.intercalate parts) w ↔ ∃ part ∈ parts, Exposed p none 0 part w := by
  induction parts with
  | nil => simp [Exposed, piecesFrom, hw]
  | cons part parts ih =>
    by_cases hnil : parts = []
    · subst hnil
      simp
    · rw [List.intercalate_cons_of_ne_nil hnil, exposed_append hp hw hx hnew hall, ih]
      simp only [List.mem_cons, exists_eq_or_imp]

end PyScan
