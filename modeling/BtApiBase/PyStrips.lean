import BtApiBase.PyText
import Mathlib.Data.List.DropRight

/-!
# Stripped texts

`strip` leaves a text alone exactly if it neither begins nor ends with a space, so what is put
together from stripped texts is stripped.
-/

namespace PyStrips

open PyText

/-- No space at either end. -/
structure Tidy (s : PyStr) : Prop where
  head : ∀ c, s.head? = some c → isSpace c = false
  last : ∀ c, s.getLast? = some c → isSpace c = false

theorem Tidy.append {s t : PyStr} (hs : Tidy s) (ht : Tidy t) : Tidy (s ++ t) := by
  constructor
  · intro c hc
    cases s with
    | nil => exact ht.head c hc
    | cons a s => exact hs.head c hc
  · intro c hc
    cases t with
    | nil => exact hs.last c (by simpa using hc)
    | cons a t => exact ht.last c (by simpa using hc)

theorem tidy_strip (s : PyStr) : Tidy (strip s) := by
  have hright : strip s = List.rdropWhile isSpace (s.dropWhile isSpace) := rfl
  constructor
  · intro c hc
    have hprefix : strip s <+: s.dropWhile isSpace := List.rdropWhile_prefix isSpace _
    obtain ⟨rest, hrest⟩ := hprefix
    have hhead : (s.dropWhile isSpace).head? = some c := by
      rw [← hrest]
      cases hstrip : strip s with
      | nil => rw [hstrip] at hc; cases hc
      | cons a t => rw [hstrip] at hc; simpa using hc
    have hne := List.head?_dropWhile_not isSpace s
    rw [hhead] at hne
    simpa using hne
  · intro c hc
    rw [hright] at hc
    have hne : List.rdropWhile isSpace (s.dropWhile isSpace) ≠ [] := by
      intro hnil
      rw [hnil] at hc
      cases hc
    have hnot := List.rdropWhile_last_not isSpace (s.dropWhile isSpace) hne
    rw [List.getLast?_eq_some_getLast hne, Option.some.injEq] at hc
    rw [hc] at hnot
    simpa using hnot

theorem strip_of_tidy {s : PyStr} (h : Tidy s) : strip s = s := by
  have hleft : s.dropWhile isSpace = s := by
    cases s with
    | nil => rfl
    | cons c s => simp [List.dropWhile, h.head c rfl]
  have hright : List.rdropWhile isSpace s = s := by
    apply List.rdropWhile_eq_self_iff.mpr
    intro hne
    rw [h.last _ (List.getLast?_eq_some_getLast hne)]
    exact Bool.false_ne_true
  rw [strip, hleft]
  exact hright

theorem tidy_iff {s : PyStr} : Tidy s ↔ strip s = s := by
  constructor
  · exact strip_of_tidy
  · intro h
    rw [← h]
    exact tidy_strip s

/-- What is stripped has nothing left to strip. -/
theorem strip_strip (s : PyStr) : strip (strip s) = strip s := strip_of_tidy (tidy_strip s)

theorem strip_map {f : PyChar → PyChar} (hf : ∀ c, isSpace (f c) = isSpace c) (s : PyStr) :
    strip (s.map f) = (strip s).map f := by
  have hcomp : isSpace ∘ f = isSpace := funext hf
  simp only [strip, List.dropWhile_map, ← List.map_reverse, hcomp]

theorem Tidy.map {f : PyChar → PyChar} (hf : ∀ c, isSpace (f c) = isSpace c) {s : PyStr} (h : Tidy s) :
    Tidy (s.map f) := by
  rw [tidy_iff, strip_map hf, strip_of_tidy h]

end PyStrips
