import Mathlib.Data.List.Infix

/-!
# Replacing one text by another

`str.replace` puts the new text between the parts that `str.split` leaves, which
do not hold the old one. Where the new text shares no character with `t`, an
occurrence of `t` in the result lies within one part.
-/

namespace PyReplace

variable {α : Type*} [DecidableEq α]

/-- `s.split(old)` after `skip` characters: an occurrence is taken as soon as it is met. -/
def splitFrom (old : List α) : Nat → List α → List (List α)
  | _, [] => [[]]
  | skip + 1, _ :: s => splitFrom old skip s
  | 0, c :: s =>
    if old.isPrefixOf (c :: s) then [] :: splitFrom old (old.length - 1) s
    else (splitFrom old 0 s).modifyHead (c :: ·)

/-- `s.replace(old, new)` -/
def replace (old new s : List α) : List α :=
  if old = [] then new ++ s.flatMap fun c => c :: new else new.intercalate (splitFrom old 0 s)

/-! ## The parts -/

theorem splitFrom_ne_nil (old : List α) (skip : Nat) (s : List α) : splitFrom old skip s ≠ [] := by
  induction s generalizing skip with
  | nil => simp [splitFrom]
  | cons c s ih =>
    cases skip with
    | succ skip => exact ih skip
    | zero =>
      unfold splitFrom
      split
      · simp
      · cases h : splitFrom old 0 s with
        | nil => exact absurd h (ih 0)
        | cons part parts => simp

theorem intercalate_splitFrom {old : List α} (hold : old ≠ []) (skip : Nat) (s : List α) :
    old.intercalate (splitFrom old skip s) = s.drop skip := by
  induction s generalizing skip with
  | nil => simp [splitFrom]
  | cons c s ih =>
    cases skip with
    | succ skip => exact ih skip
    | zero =>
      unfold splitFrom
      split
      · next h =>
        obtain ⟨rest, hrest⟩ := List.isPrefixOf_iff_prefix.mp h
        rw [List.intercalate_cons_of_ne_nil (splitFrom_ne_nil _ _ _), ih, List.nil_append]
        cases old with
        | nil => exact absurd rfl hold
        | cons o old =>
          obtain ⟨rfl, rfl⟩ := List.cons.inj hrest
          simp
      · cases h : splitFrom old 0 s with
        | nil => exact absurd h (splitFrom_ne_nil _ _ _)
        | cons part parts =>
          rw [List.modifyHead_cons, List.intercalate_cons_cons_left, ← h, ih]
          rfl

omit [DecidableEq α] in
theorem infix_intercalate_of_mem {sep part : List α} {parts : List (List α)} (h : part ∈ parts) :
    part <:+: sep.intercalate parts := by
  induction parts with
  | nil => cases h
  | cons p parts ih =>
    by_cases hnil : parts = []
    · subst hnil
      rw [List.mem_singleton.mp h, List.intercalate_singleton]
    · rw [List.intercalate_cons_of_ne_nil hnil]
      rcases List.mem_cons.mp h with rfl | h
      · rw [List.append_assoc]
        exact (List.prefix_append part _).isInfix
      · exact (ih h).trans (List.suffix_append _ _).isInfix

theorem infix_of_mem_splitFrom {old part s : List α} (hold : old ≠ []) {skip : Nat}
    (h : part ∈ splitFrom old skip s) : part <:+: s := by
  have hpart : part <:+: old.intercalate (splitFrom old skip s) := infix_intercalate_of_mem h
  rw [intercalate_splitFrom hold] at hpart
  exact hpart.trans (List.drop_suffix skip s).isInfix

/-- No part holds the old text. -/
theorem not_infix_of_mem_splitFrom {old : List α} (hold : old ≠ []) {skip : Nat} {s part : List α}
    (h : part ∈ splitFrom old skip s) : ¬ old <:+: part := by
  induction s generalizing skip part with
  | nil =>
    obtain rfl : part = [] := by simpa [splitFrom] using h
    simpa using hold
  | cons c s ih =>
    cases skip with
    | succ skip =>
      have hrest : part ∈ splitFrom old skip s := h
      exact ih hrest
    | zero =>
      unfold splitFrom at h
      split at h
      · rcases List.mem_cons.mp h with rfl | h
        · simpa using hold
        · exact ih h
      · next hstart =>
        cases hsplit : splitFrom old 0 s with
        | nil => exact absurd hsplit (splitFrom_ne_nil _ _ _)
        | cons first parts =>
          have hparts : ∀ x ∈ first :: parts, ¬ old <:+: x := by
            intro x hx
            rw [← hsplit] at hx
            exact ih hx
          rw [hsplit, List.modifyHead_cons] at h
          rcases List.mem_cons.mp h with rfl | h
          · rw [List.infix_cons_iff, not_or]
            refine ⟨fun hcons => ?_, hparts first List.mem_cons_self⟩
            have hfirst : first <+: s := by
              have hjoin := intercalate_splitFrom hold 0 s
              rw [hsplit, List.drop_zero] at hjoin
              cases parts with
              | nil => rw [← hjoin, List.intercalate_singleton]
              | cons next parts =>
                rw [← hjoin, List.intercalate_cons_cons, List.append_assoc]
                exact List.prefix_append _ _
            refine hstart (List.isPrefixOf_iff_prefix.mpr (hcons.trans ?_))
            exact (List.prefix_cons_inj c).mpr hfirst
          · exact hparts part (List.mem_cons_of_mem _ h)

/-! ## Occurrences in the result -/

section

omit [DecidableEq α]

variable {t : List α}

theorem prefix_of_prefix_append {a b : List α} {x : α} (hx : x ∉ t) (h : t <+: a ++ x :: b) : t <+: a := by
  induction a generalizing t with
  | nil =>
    rcases List.prefix_cons_iff.mp h with rfl | ⟨t, rfl, -⟩
    · exact List.nil_prefix
    · exact absurd List.mem_cons_self hx
  | cons c a ih =>
    rcases List.prefix_cons_iff.mp h with rfl | ⟨t, rfl, ht⟩
    · exact List.nil_prefix
    · exact (List.prefix_cons_inj c).mpr (ih (fun hm => hx (List.mem_cons_of_mem _ hm)) ht)

/-- A character that `t` does not have separates its occurrences. -/
theorem infix_append_cons {a b : List α} {x : α} (hx : x ∉ t) (h : t <:+: a ++ x :: b) :
    t <:+: a ∨ t <:+: b := by
  induction a with
  | nil =>
    rcases List.infix_cons_iff.mp h with h | h
    · exact .inl (prefix_of_prefix_append (a := []) hx h).isInfix
    · exact .inr h
  | cons c a ih =>
    rcases List.infix_cons_iff.mp h with h | h
    · exact .inl (prefix_of_prefix_append (a := c :: a) hx h).isInfix
    · rcases ih h with h | h
      · exact .inl (List.infix_cons h)
      · exact .inr h

theorem infix_append {a new b : List α} (hnew : new ≠ []) (hdisjoint : ∀ c ∈ new, c ∉ t)
    (h : t <:+: a ++ new ++ b) : t <:+: a ∨ t <:+: b := by
  induction new generalizing a with
  | nil => exact absurd rfl hnew
  | cons x new ih =>
    rw [List.append_assoc] at h
    rcases infix_append_cons (hdisjoint x List.mem_cons_self) h with h | h
    · exact .inl h
    · by_cases hrest : new = []
      · subst hrest
        exact .inr h
      · rcases ih (a := []) hrest (fun c hc => hdisjoint c (List.mem_cons_of_mem _ hc)) h with h | h
        · exact .inl (h.trans List.nil_infix)
        · exact .inr h

theorem infix_intercalate {new : List α} {parts : List (List α)} (hnew : new ≠ [])
    (hdisjoint : ∀ c ∈ new, c ∉ t) (ht : t ≠ []) (h : t <:+: new.intercalate parts) :
    ∃ part ∈ parts, t <:+: part := by
  induction parts with
  | nil => exact absurd (List.infix_nil.mp h) ht
  | cons part parts ih =>
    by_cases hnil : parts = []
    · subst hnil
      rw [List.intercalate_singleton] at h
      exact ⟨part, List.mem_cons_self, h⟩
    · rw [List.intercalate_cons_of_ne_nil hnil] at h
      rcases infix_append hnew hdisjoint h with h | h
      · exact ⟨part, List.mem_cons_self, h⟩
      · obtain ⟨p, hp, hinfix⟩ := ih h
        exact ⟨p, List.mem_cons_of_mem _ hp, hinfix⟩

end

/-- A replacement makes no occurrence of a text that shares nothing with the new one. -/
theorem infix_of_infix_replace {old new s t : List α} (hold : old ≠ []) (hnew : new ≠ [])
    (hdisjoint : ∀ c ∈ new, c ∉ t) (h : t <:+: replace old new s) : t <:+: s := by
  by_cases ht : t = []
  · rw [ht]
    exact List.nil_infix
  · rw [replace, if_neg hold] at h
    obtain ⟨part, hpart, hinfix⟩ := infix_intercalate hnew hdisjoint ht h
    exact hinfix.trans (infix_of_mem_splitFrom hold hpart)

/-- It leaves no occurrence of the old one. -/
theorem not_infix_replace {old new : List α} (s : List α) (hold : old ≠ []) (hnew : new ≠ [])
    (hdisjoint : ∀ c ∈ new, c ∉ old) : ¬ old <:+: replace old new s := by
  intro h
  rw [replace, if_neg hold] at h
  obtain ⟨part, hpart, hinfix⟩ := infix_intercalate hnew hdisjoint hold h
  exact not_infix_of_mem_splitFrom hold hpart hinfix

example : replace ['a', 'b'] ['*'] ['a', 'a', 'b', 'b', 'a', 'b'] = ['a', '*', 'b', '*'] := by decide

end PyReplace
