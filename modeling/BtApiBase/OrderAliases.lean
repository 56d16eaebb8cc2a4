import BtApiBase.OrderMatching

/-!
# Ids under several names

An id is looked for under one name after the other, in a row and then in its `details`. The first
name that has a value should give way to the next if nothing is left of its text; the search
of a row stops there all the same.
-/

namespace OrderAliases

open PyText PyDict PyValue OrderMap OrderMatching

section

variable (py : Interp) (row : PyMap) (keys : List PyStr)

/-- The text under a name, if there is a value and a text. -/
def aliasText (key : PyStr) : Option PyStr :=
  match row.get key with
  | .none => none
  | value => given (some (strip (py.str value)))

/-- The text under the first of the names that has one. -/
def rowText : Option PyStr := keys.findSome? (aliasText py row)

/-- The details of a row, if they are a dictionary. -/
def detailsOf : Option PyMap :=
  match row.get "details" with
  | .dict details => some details
  | _ => none

/-- The text in the row, or else in its details. -/
def resolved : Option PyStr :=
  (rowText py row keys).or ((detailsOf row).bind fun details => rowText py details keys)

/-- The name at which the search of a row stops, whose value is neither `None` nor `""`. -/
def stop : Option PyStr := keys.find? fun key => !isBlank (row.get key)

/-- What is left of the text of a value. -/
def textAt (key : PyStr) : PyStr := strip (py.str (row.get key))

/-- The search stops at a value of whose text nothing is left. -/
def Led : Prop := ∃ key, stop row keys = some key ∧ textAt py row key = []

/-- No blank value hides a text: in a row that is led by one there is no text, unless the search of
the details stops at the same, and the details of a row without a text are not led by one. -/
structure Heard : Prop where
  own : Led py row keys → ∀ text, rowText py row keys = some text →
    ∃ details key, detailsOf row = some details ∧ stop details keys = some key ∧
      textAt py details key = text
  details : rowText py row keys = none → ∀ details, detailsOf row = some details →
    ¬ Led py details keys

end

section

variable {py : Interp} {row : PyMap} {keys : List PyStr}

/-! ## One row -/

theorem aliasText_of_isBlank {key : PyStr} (h : isBlank (row.get key) = true) :
    aliasText py row key = none := by
  unfold aliasText
  cases hv : row.get key with
  | none => rfl
  | str s =>
    cases s with
    | nil => rfl
    | cons c s =>
      rw [hv] at h
      cases h
  | _ =>
    rw [hv] at h
    cases h

theorem aliasText_of_not_isBlank {key : PyStr} (h : isBlank (row.get key) = false) :
    aliasText py row key = given (some (textAt py row key)) := by
  unfold aliasText textAt
  cases hv : row.get key with
  | none =>
    rw [hv] at h
    cases h
  | _ => rfl

theorem orderText_eq (py : Interp) (row : PyMap) (keys : List PyStr) :
    _orderText py row keys = (stop row keys).map (textAt py row) := by
  induction keys with
  | nil => rfl
  | cons key keys ih =>
    cases h : isBlank (row.get key) with
    | true => simpa [_orderText, stop, h] using ih
    | false => simp [_orderText, stop, h, textAt]

/-- What is left where the search stops is the first text, if it is one. -/
theorem rowText_of_stop {key : PyStr} (h : stop row keys = some key) (ht : textAt py row key ≠ []) :
    rowText py row keys = some (textAt py row key) := by
  induction keys with
  | nil => cases h
  | cons k keys ih =>
    cases hk : isBlank (row.get k) with
    | true =>
      have hrest : stop row keys = some key := by simpa [stop, hk] using h
      have hnone : aliasText py row k = none := aliasText_of_isBlank hk
      rw [rowText, List.findSome?_cons, hnone]
      exact ih hrest
    | false =>
      obtain rfl : k = key := by simpa [stop, hk] using h
      have hsome : aliasText py row k = some (textAt py row k) := by
        rw [aliasText_of_not_isBlank hk]
        exact (given_eq_some _ _).mpr ⟨rfl, ht⟩
      rw [rowText, List.findSome?_cons, hsome]

theorem rowText_of_stop_none (h : stop row keys = none) : rowText py row keys = none := by
  apply List.findSome?_eq_none_iff.mpr
  intro key hkey
  apply aliasText_of_isBlank
  simpa using List.find?_eq_none.mp h key hkey

/-- A row with a text has a value to stop at, so it is led by a blank if it does not stop at a text. -/
theorem led_of_rowText {text : PyStr} (htext : rowText py row keys = some text)
    (hblank : ∀ key, stop row keys = some key → textAt py row key = []) : Led py row keys := by
  cases hs : stop row keys with
  | none =>
    rw [rowText_of_stop_none hs] at htext
    cases htext
  | some key => exact ⟨key, hs, hblank key hs⟩

theorem rowText_ne_nil (py : Interp) (row : PyMap) (keys : List PyStr) :
    rowText py row keys ≠ some [] := by
  intro h
  obtain ⟨key, -, hkey⟩ := List.exists_of_findSome?_eq_some h
  unfold aliasText at hkey
  split at hkey
  · cases hkey
  · exact ((given_eq_some _ _).mp hkey).2 rfl

theorem orderText_eq_rowText_iff (py : Interp) (row : PyMap) (keys : List PyStr) :
    _orderText py row keys = rowText py row keys ↔ ¬ Led py row keys := by
  rw [orderText_eq]
  cases hs : stop row keys with
  | none =>
    rw [rowText_of_stop_none hs]
    refine iff_of_true rfl ?_
    rintro ⟨key, hkey, -⟩
    rw [hs] at hkey
    cases hkey
  | some key =>
    rw [Option.map_some]
    by_cases ht : textAt py row key = []
    · rw [ht]
      refine iff_of_false ?_ (not_not_intro ⟨key, hs, ht⟩)
      exact fun h => rowText_ne_nil py row keys h.symm
    · rw [rowText_of_stop hs ht]
      refine iff_of_true rfl ?_
      rintro ⟨key', hkey', ht'⟩
      obtain rfl : key = key' := Option.some.inj (hs.symm.trans hkey')
      exact ht ht'

/-! ## The row and its details -/

theorem resolved_ne_nil (py : Interp) (row : PyMap) (keys : List PyStr) :
    resolved py row keys ≠ some [] := by
  intro h
  cases Option.or_eq_some_iff.mp h with
  | inl hrow => exact rowText_ne_nil py row keys hrow
  | inr hdetails =>
    obtain ⟨details, -, ht⟩ := Option.bind_eq_some_iff.mp hdetails.2
    exact rowText_ne_nil py details keys ht

/-- A text that the search of the row stops at is the answer. -/
theorem nestedOrderText_of_stop {key : PyStr} (h : stop row keys = some key)
    (ht : textAt py row key ≠ []) : _nestedOrderText py row keys = some (textAt py row key) := by
  have hdirect : given (_orderText py row keys) = some (textAt py row key) := by
    rw [orderText_eq, h]
    exact (given_eq_some _ _).mpr ⟨rfl, ht⟩
  rw [_nestedOrderText, hdirect]

/-- Otherwise the details are searched, also when the row is led by a blank. -/
theorem nestedOrderText_of_no_text (h : ∀ key, stop row keys = some key → textAt py row key = []) :
    _nestedOrderText py row keys =
      (detailsOf row).bind fun details => _orderText py details keys := by
  have hdirect : given (_orderText py row keys) = none := by
    rw [orderText_eq]
    cases hs : stop row keys with
    | none => rfl
    | some key =>
      rw [Option.map_some, h key hs]
      rfl
  rw [_nestedOrderText, hdirect, detailsOf]
  cases row.get "details" <;> rfl

theorem details_iff (h : rowText py row keys = none) :
    ((detailsOf row).bind fun details => _orderText py details keys) = resolved py row keys ↔
      ∀ details, detailsOf row = some details → ¬ Led py details keys := by
  rw [resolved, h, Option.none_or]
  cases detailsOf row with
  | none => simp
  | some details => simp [orderText_eq_rowText_iff]

theorem details_eq_some_iff (text : PyStr) :
    ((detailsOf row).bind fun details => _orderText py details keys) = some text ↔
      ∃ details key, detailsOf row = some details ∧ stop details keys = some key ∧
        textAt py details key = text := by
  cases detailsOf row with
  | none => simp
  | some details => simp [orderText_eq]

/-- The answer is the first text under the names, and not an empty one, exactly when no blank value
hides a text. -/
theorem nestedOrderText_iff_heard (py : Interp) (row : PyMap) (keys : List PyStr) :
    (_nestedOrderText py row keys = resolved py row keys ∧
      _nestedOrderText py row keys ≠ some []) ↔ Heard py row keys := by
  have hne : _nestedOrderText py row keys = resolved py row keys →
      _nestedOrderText py row keys ≠ some [] := by
    intro h
    rw [h]
    exact resolved_ne_nil py row keys
  rw [and_iff_left_of_imp hne]
  by_cases hstop : ∃ key, stop row keys = some key ∧ textAt py row key ≠ []
  · obtain ⟨key, hs, ht⟩ := hstop
    have htext : rowText py row keys = some (textAt py row key) := rowText_of_stop hs ht
    have hled : ¬ Led py row keys := (orderText_eq_rowText_iff py row keys).mp <| by
      rw [orderText_eq, hs, htext, Option.map_some]
    have hsome : rowText py row keys ≠ none := by simp [htext]
    rw [nestedOrderText_of_stop hs ht, resolved, htext]
    exact iff_of_true rfl ⟨fun h => absurd h hled, fun h => absurd h hsome⟩
  · have hblank : ∀ key, stop row keys = some key → textAt py row key = [] := by
      intro key hs
      by_contra ht
      exact hstop ⟨key, hs, ht⟩
    rw [nestedOrderText_of_no_text hblank]
    cases htext : rowText py row keys with
    | none =>
      rw [details_iff htext]
      constructor
      · intro h
        have hown : ∀ text, rowText py row keys ≠ some text := by simp [htext]
        exact ⟨fun _ text ht => absurd ht (hown text), fun _ => h⟩
      · intro h
        exact h.details htext
    | some text =>
      have hled : Led py row keys := led_of_rowText htext hblank
      have hsome : rowText py row keys ≠ none := by simp [htext]
      rw [resolved, htext, Option.some_or, details_eq_some_iff]
      constructor
      · intro h
        have hown : ∀ text', rowText py row keys = some text' → text = text' := by simp [htext]
        refine ⟨fun _ text' ht => ?_, fun hnone => absurd hnone hsome⟩
        obtain rfl := hown text' ht
        exact h
      · intro h
        exact h.own hled text htext

/-- A row as it comes before the exchange has accepted the order. -/
def padded : PyMap := [(.str "OrderSysID", .str "            "), (.str "id", .str "4711")]

/-- The padding hides the id, and in the details it is itself the answer. -/
theorem padding_hides_id :
    _nestedOrderText .ascii padded VENUE_KEYS = none ∧
      resolved .ascii padded VENUE_KEYS = some "4711" ∧
      _nestedOrderText .ascii [(.str "details", .dict padded)] VENUE_KEYS = some [] ∧
      resolved .ascii [(.str "details", .dict padded)] VENUE_KEYS = some "4711" := by
  decide +kernel

end

end OrderAliases
