import Mathlib.Data.List.ReduceOption
import Mathlib.Data.List.Nodup

/-!
# Walks over a dictionary that changes

A dictionary keeps its entries in the order of insertion. What is removed leaves a gap
behind, and an insertion may close the gaps. An iterator over the values is a place among
the entries: it raises where the number of entries is no longer the one it started with,
and where it finds an entry after the last one that it expects.
-/

namespace PyDictWalks

variable {κ α : Type*}

/-- The entries, each under its own key. -/
structure Table (key : α → κ) where
  slots : List (Option α)
  unique : (slots.reduceOption.map key).Nodup

structure Iter where
  pos : Nat
  size : Nat
  left : Nat
  deriving DecidableEq, Repr

inductive Next (α : Type*) where
  | item (a : α) (it : Iter)
  | done
  | raised

/-- The first entry and the number of gaps in front of it. -/
def firstLive : List (Option α) → Option (Nat × α)
  | [] => none
  | none :: slots => (firstLive slots).map fun (gap, a) => (gap + 1, a)
  | some a :: _ => some (0, a)

theorem firstLive_none {slots : List (Option α)} (h : firstLive slots = none) :
    slots.reduceOption = [] := by
  induction slots with
  | nil => rfl
  | cons slot slots ih =>
    cases slot with
    | none =>
      rw [List.reduceOption_cons_of_none]
      exact ih (by simpa [firstLive] using h)
    | some a => cases h

theorem firstLive_some {slots : List (Option α)} {gap : Nat} {a : α}
    (h : firstLive slots = some (gap, a)) :
    (slots.take (gap + 1)).reduceOption = [a] ∧ gap + 1 ≤ slots.length := by
  induction slots generalizing gap with
  | nil => cases h
  | cons slot slots ih =>
    cases slot with
    | none =>
      obtain ⟨⟨gap', a'⟩, hf, he⟩ := Option.map_eq_some_iff.mp h
      obtain ⟨rfl, rfl⟩ : gap' + 1 = gap ∧ a' = a := by simpa using he
      obtain ⟨htake, hle⟩ := ih hf
      rw [List.take_succ_cons, List.reduceOption_cons_of_none, List.length_cons]
      exact ⟨htake, by omega⟩
    | some b =>
      obtain ⟨rfl, rfl⟩ : 0 = gap ∧ b = a := by simpa [firstLive] using h
      simp [List.reduceOption_cons_of_some]

section

variable {key : α → κ} (t : Table key) (it : Iter)

def Table.live : List α := t.slots.reduceOption

/-- What the iterator has come past, as far as it is still there. -/
def Table.passed : List α := (t.slots.take it.pos).reduceOption

/-- What the iterator has not come to. -/
def Table.ahead : List α := (t.slots.drop it.pos).reduceOption

theorem passed_append_ahead : t.passed it ++ t.ahead it = t.live := by
  unfold Table.passed Table.ahead Table.live
  rw [← List.reduceOption_append, List.take_append_drop]

/-- `iter(table.values())` -/
def Table.iter : Iter := ⟨0, t.live.length, t.live.length⟩

/-- `next` of an iterator. -/
def Table.next : Next α :=
  if t.live.length ≠ it.size then .raised
  else match firstLive (t.slots.drop it.pos) with
    | none => .done
    | some (gap, a) =>
      if it.left = 0 then .raised else .item a ⟨it.pos + gap + 1, it.size, it.left - 1⟩

/-- The iterator expects what is ahead of it. -/
structure Fits : Prop where
  size : t.live.length = it.size
  left : (t.ahead it).length = it.left
  pos : it.pos ≤ t.slots.length

theorem fits_iter : Fits t t.iter := ⟨rfl, rfl, Nat.zero_le _⟩

variable {t it}

theorem next_raised_of_size (h : t.live.length ≠ it.size) : t.next it = .raised := if_pos h

theorem next_done (h : t.next it = .done) : t.ahead it = [] := by
  unfold Table.next at h
  split at h
  · cases h
  · split at h
    · next hf => exact firstLive_none hf
    · split at h <;> cases h

/-- What a step of the iterator comes to, and what it leaves ahead. -/
theorem next_item {a : α} {it' : Iter} (h : t.next it = .item a it') (hf : Fits t it) :
    Fits t it' ∧ t.ahead it = a :: t.ahead it' ∧ t.passed it' = t.passed it ++ [a] ∧
      it'.left < it.left := by
  unfold Table.next at h
  rw [if_neg (not_not_intro hf.size)] at h
  cases hl : firstLive (t.slots.drop it.pos) with
  | none =>
    rw [hl] at h
    cases h
  | some found =>
    obtain ⟨gap, b⟩ := found
    rw [hl] at h
    dsimp only at h
    split at h
    · cases h
    · next hleft =>
      cases h
      obtain ⟨htake, hle⟩ := firstLive_some hl
      rw [List.length_drop] at hle
      have hahead : t.ahead it = a :: t.ahead ⟨it.pos + gap + 1, it.size, it.left - 1⟩ := by
        unfold Table.ahead
        rw [← List.take_append_drop (gap + 1) (t.slots.drop it.pos), List.reduceOption_append, htake,
          List.drop_drop]
        rfl
      have hpassed : t.passed ⟨it.pos + gap + 1, it.size, it.left - 1⟩ = t.passed it ++ [a] := by
        unfold Table.passed
        dsimp only
        rw [Nat.add_assoc, List.take_add, List.reduceOption_append, htake]
      have hlen := hf.left
      rw [hahead, List.length_cons] at hlen
      exact ⟨⟨hf.size, by dsimp only; omega, by dsimp only; omega⟩, hahead, hpassed, by
        dsimp only; omega⟩

/-- An iterator that fits does not raise. -/
theorem next_ne_raised (hf : Fits t it) : t.next it ≠ .raised := by
  intro h
  unfold Table.next at h
  rw [if_neg (not_not_intro hf.size)] at h
  split at h
  · cases h
  · next gap a hl =>
    have hleft : it.left ≠ 0 := by
      intro hzero
      have hnil : t.ahead it = [] := List.length_eq_zero_iff.mp (hf.left.trans hzero)
      unfold Table.ahead at hnil
      rw [← List.take_append_drop (gap + 1) (t.slots.drop it.pos), List.reduceOption_append,
        (firstLive_some hl).1] at hnil
      cases hnil
    rw [if_neg hleft] at h
    cases h

end

/-! ## Changes -/

section

variable [DecidableEq κ] {key : α → κ} (t : Table key) (it : Iter)

theorem reduceOption_filter (slots : List (Option α)) (p : α → Bool) :
    (slots.map (Option.filter p)).reduceOption = slots.reduceOption.filter p := by
  induction slots with
  | nil => rfl
  | cons slot slots ih =>
    cases slot with
    | none => simpa [List.reduceOption_cons_of_none] using ih
    | some a =>
      rw [List.map_cons, List.reduceOption_cons_of_some, List.filter_cons]
      cases hp : p a with
      | false => simpa [Option.filter, hp, List.reduceOption_cons_of_none] using ih
      | true => simpa [Option.filter, hp, List.reduceOption_cons_of_some] using ih

theorem reduceOption_compact (slots : List (Option α)) :
    (slots.filter Option.isSome).reduceOption = slots.reduceOption := by
  induction slots with
  | nil => rfl
  | cons slot slots ih =>
    cases slot with
    | none => simpa [List.reduceOption_cons_of_none] using ih
    | some a => simpa [List.reduceOption_cons_of_some] using ih

/-- `table.pop(k)` -/
def Table.pop (k : κ) : Table key where
  slots := t.slots.map (Option.filter (key · ≠ k))
  unique := by
    rw [reduceOption_filter]
    exact t.unique.sublist (List.filter_sublist.map key)

/-- What an entry is after `a` is put under its key. -/
def replace (key : α → κ) (a b : α) : α := if key b = key a then a else b

theorem key_replace (a b : α) : key (replace key a b) = key b := by
  unfold replace
  split
  · next h => exact h.symm
  · rfl

theorem map_key_replace (a : α) (as : List α) :
    (as.map (replace key a)).map key = as.map key := by
  rw [List.map_map]
  exact List.map_congr_left fun b _ => key_replace a b

/-- The entries after an insertion of `a`, which may close the gaps. -/
def insertSlots (slots : List (Option α)) (a : α) (compacts : Bool) : List (Option α) :=
  (if compacts then slots.filter Option.isSome else slots) ++ [some a]

theorem reduceOption_insertSlots (slots : List (Option α)) (a : α) (compacts : Bool) :
    (insertSlots slots a compacts).reduceOption = slots.reduceOption ++ [a] := by
  unfold insertSlots
  rw [List.reduceOption_append]
  cases compacts with
  | false => rfl
  | true => exact congrArg (· ++ [a]) (reduceOption_compact slots)

/-- `table[key(a)] = a` -/
def Table.put (a : α) (compacts : Bool) : Table key :=
  if h : key a ∈ t.slots.reduceOption.map key then
    { slots := t.slots.map (Option.map (replace key a))
      unique := by
        rw [List.reduceOption_map, map_key_replace]
        exact t.unique }
  else
    { slots := insertSlots t.slots a compacts
      unique := by
        rw [reduceOption_insertSlots, List.map_append]
        simpa using t.unique.concat h }

@[simp] theorem ahead_pop (k : κ) : (t.pop k).ahead it = (t.ahead it).filter (key · ≠ k) := by
  unfold Table.pop Table.ahead
  rw [← List.map_drop, reduceOption_filter]

@[simp] theorem passed_pop (k : κ) : (t.pop k).passed it = (t.passed it).filter (key · ≠ k) := by
  unfold Table.pop Table.passed
  rw [← List.map_take, reduceOption_filter]

@[simp] theorem length_pop (k : κ) : (t.pop k).slots.length = t.slots.length := by
  simp [Table.pop]

/-- No gap in front of the iterator would be closed. -/
def NoShift (compacts : Bool) : Prop :=
  compacts = true → ∀ slot ∈ t.slots.take it.pos, slot.isSome = true

instance (compacts : Bool) : Decidable (NoShift t it compacts) :=
  inferInstanceAs (Decidable (_ → _))

variable {t it} {compacts : Bool}

omit [DecidableEq κ] in
theorem insertSlots_split (h : NoShift t it compacts) (a : α) :
    ∃ rest, insertSlots t.slots a compacts = t.slots.take it.pos ++ rest ∧
      rest.reduceOption = t.ahead it ++ [a] := by
  cases compacts with
  | false =>
    refine ⟨t.slots.drop it.pos ++ [some a], ?_, ?_⟩
    · rw [← List.append_assoc, List.take_append_drop]
      rfl
    · exact List.reduceOption_append _ _
  | true =>
    refine ⟨(t.slots.drop it.pos).filter Option.isSome ++ [some a], ?_, ?_⟩
    · have htake : (t.slots.take it.pos).filter Option.isSome = t.slots.take it.pos :=
        List.filter_eq_self.mpr (h rfl)
      have hsplit := List.filter_append (p := Option.isSome) (t.slots.take it.pos) (t.slots.drop it.pos)
      rw [List.take_append_drop, htake] at hsplit
      rw [← List.append_assoc, ← hsplit]
      rfl
    · rw [List.reduceOption_append, reduceOption_compact]
      rfl

/-- An insertion that moves nothing leaves the keys that the iterator has come past. -/
theorem passed_put (h : NoShift t it compacts) (hpos : it.pos ≤ t.slots.length) (a : α) :
    ((t.put a compacts).passed it).map key = (t.passed it).map key := by
  unfold Table.put
  split
  · unfold Table.passed
    dsimp only
    rw [← List.map_take, List.reduceOption_map, map_key_replace]
  · obtain ⟨rest, hslots, -⟩ := insertSlots_split h a
    unfold Table.passed
    dsimp only
    rw [hslots, List.take_left' (List.length_take_of_le hpos)]

theorem mem_ahead_put (h : NoShift t it compacts) (hpos : it.pos ≤ t.slots.length) {a b : α}
    (hb : b ∈ t.ahead it) (hne : key b ≠ key a) : b ∈ (t.put a compacts).ahead it := by
  unfold Table.put
  split
  · unfold Table.ahead
    dsimp only
    rw [← List.map_drop, List.reduceOption_map]
    exact List.mem_map.mpr ⟨b, hb, if_neg hne⟩
  · obtain ⟨rest, hslots, hrest⟩ := insertSlots_split h a
    unfold Table.ahead
    dsimp only
    rw [hslots, List.drop_left' (List.length_take_of_le hpos), hrest]
    exact List.mem_append_left _ hb

theorem pos_le_put (h : NoShift t it compacts) (hpos : it.pos ≤ t.slots.length) (a : α) :
    it.pos ≤ (t.put a compacts).slots.length := by
  unfold Table.put
  split
  · simpa using hpos
  · obtain ⟨rest, hslots, -⟩ := insertSlots_split h a
    dsimp only
    rw [hslots, List.length_append, List.length_take_of_le hpos]
    omega

end

/-! ## Keys -/

section

variable {key : α → κ} {t : Table key} {it : Iter}

/-- What is ahead has another key than what the iterator has come past. -/
theorem disjoint_ahead (t : Table key) (it : Iter) :
    ((t.passed it).map key ++ (t.ahead it).map key).Nodup := by
  rw [← List.map_append, passed_append_ahead]
  exact t.unique

/-- Where no key occurs twice, a key leads to one entry. -/
theorem filter_key [DecidableEq κ] {as : List α} (hk : (as.map key).Nodup) {a : α} (ha : a ∈ as) :
    as.filter (fun b => key b = key a) = [a] := by
  induction as with
  | nil => cases ha
  | cons b as ih =>
    obtain ⟨hb, has⟩ := List.nodup_cons.mp hk
    cases ha with
    | head =>
      have hnone : as.filter (fun c => key c = key a) = [] := by
        rw [List.filter_eq_nil_iff]
        intro c hc he
        exact hb (List.mem_map.mpr ⟨c, hc, by simpa using he⟩)
      rw [List.filter_cons_of_pos (by simp), hnone]
    | tail _ ha =>
      have hne : key b ≠ key a := fun he => hb (List.mem_map.mpr ⟨a, ha, he.symm⟩)
      rw [List.filter_cons_of_neg (by simpa using hne)]
      exact ih has ha

end

end PyDictWalks
