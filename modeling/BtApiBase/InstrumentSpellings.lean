import BtApiBase.Instruments

/-!
# The spellings of a pair

A symbol without a separator is cut before the first known quote that is a proper
suffix of it. A known quote that ends another one stands behind it in the list, so
that the first that fits is the longest. With a separator the symbol is cut there,
and both spellings of a pair give one internal name.
-/

namespace InstrumentSpellings

open PyText PyValue Instruments

/-- `str.upper` goes character by character, and an ASCII capital stays. -/
structure UpperByCharacter (py : Interp) : Prop where
  append : ∀ s t, py.upper (s ++ t) = py.upper s ++ py.upper t
  capital : ∀ c : Char, c.isUpper = true → py.upper [.scalar c] = [.scalar c]

theorem upperByCharacter_ascii : UpperByCharacter Interp.ascii where
  append s t := List.map_append
  capital c hc := by
    have hup : c.val.toNat ≤ 90 := by
      simp only [Char.isUpper, decide_eq_true_eq, UInt32.le_iff_toNat_le] at hc
      exact hc.2
    have hlow : ¬ (97 ≤ c.val ∧ c.val ≤ 122) := by
      rw [UInt32.le_iff_toNat_le]
      intro h
      have hge : 97 ≤ c.val.toNat := h.1
      omega
    have hsame : c.toUpper = c := dif_neg hlow
    simp [Interp.ascii, hsame]

/-! ## The known quotes -/

def capitals : PyStr → Bool
  | [] => true
  | .scalar c :: s => c.isUpper && capitals s
  | _ => false

theorem knownQuotes_capitals : ∀ quote ∈ knownQuotes, capitals quote = true := by decide +kernel

theorem knownQuotes_no_separator : ∀ quote ∈ knownQuotes, ∀ c ∈ separators, c ∉ quote := by decide +kernel

/-- A quote is no suffix of one behind it. -/
theorem knownQuotes_pairwise :
    knownQuotes.Pairwise fun quote later => quote.isSuffixOf later = false := by decide +kernel

variable {py : Interp}

theorem upper_capitals (hpy : UpperByCharacter py) {s : PyStr} (h : capitals s = true) :
    py.upper s = s := by
  induction s with
  | nil =>
    have hnil := hpy.append [] []
    simpa using hnil
  | cons c s ih =>
    cases c with
    | surrogate n => cases h
    | scalar c =>
      obtain ⟨hc, hs⟩ := Bool.and_eq_true_iff.mp h
      have happend := hpy.append [.scalar c] s
      rw [hpy.capital c hc, ih hs] at happend
      exact happend

/-- The first quote that fits is the longest one. -/
theorem find_quote {quote s : PyStr} (hquote : quote ∈ knownQuotes) (hsuffix : quote <:+ s)
    (hproper : quote.length < s.length)
    (hlongest : ∀ q ∈ knownQuotes, quote.length < q.length → q <:+ s → ¬ q.length < s.length) :
    knownQuotes.find? (fun q => q.isSuffixOf s && q.length < s.length) = some quote := by
  have hfits : (quote.isSuffixOf s && decide (quote.length < s.length)) = true := by
    simp [hsuffix, hproper]
  cases hfound : knownQuotes.find? (fun q => q.isSuffixOf s && q.length < s.length) with
  | none => exact absurd hfits (by simpa using List.find?_eq_none.mp hfound quote hquote)
  | some first =>
    obtain ⟨hfirst, before, after, hsplit, hbefore⟩ := List.find?_eq_some_iff_append.mp hfound
    obtain ⟨hfs, hfp⟩ : first <:+ s ∧ first.length < s.length := by simpa using hfirst
    have hmem : first ∈ knownQuotes := List.mem_of_find?_eq_some hfound
    rw [hsplit] at hquote
    rcases List.mem_append.mp hquote with hin | hin
    · have hnot := hbefore quote hin
      rw [hfits] at hnot
      cases hnot
    · rcases List.mem_cons.mp hin with rfl | hin
      · rfl
      · have hpair := knownQuotes_pairwise
        rw [hsplit] at hpair
        have hlater := (List.pairwise_cons.mp (List.pairwise_append.mp hpair).2.1).1 quote hin
        rcases List.suffix_or_suffix_of_suffix hfs hsuffix with hshort | hlong
        · rw [List.isSuffixOf_iff_suffix.mpr hshort] at hlater
          cases hlater
        · have hle := hlong.length_le
          rcases Nat.lt_or_eq_of_le hle with hlt | heq
          · exact absurd hfp (hlongest first hmem hlt hfs)
          · rw [hlong.eq_of_length heq]

/-! ## The internal name -/

theorem find_separator_none {s : PyStr} (h : ∀ c ∈ separators, c ∉ s) :
    separators.find? (· ∈ s) = none := by
  refine List.find?_eq_none.mpr ?_
  intro c hc
  simpa using h c hc

theorem find_separator {s : PyStr} {sep : PyChar} (hsep : sep ∈ separators) (hmem : sep ∈ s)
    (honly : ∀ c ∈ separators, c ∈ s → c = sep) : separators.find? (· ∈ s) = some sep := by
  cases hfound : separators.find? (· ∈ s) with
  | none => exact absurd hmem (by simpa using List.find?_eq_none.mp hfound sep hsep)
  | some c =>
    rw [honly c (List.mem_of_find?_eq_some hfound) (by simpa using List.find?_some hfound)]

theorem makeInternal_joined (hpy : UpperByCharacter py) (venue : PyStr) (assetType : AssetType)
    {base quote : PyStr} (hne : base ≠ []) (hupper : py.upper base = base)
    (hbase : ∀ c ∈ separators, c ∉ base) (hquote : quote ∈ knownQuotes)
    (hlongest : ∀ q ∈ knownQuotes, quote.length < q.length → q <:+ base ++ quote →
      ¬ q.length < (base ++ quote).length) :
    makeInternal py venue (base ++ quote) assetType = base ++ u "-" ++ quote := by
  have hnone : separators.find? (· ∈ base ++ quote) = none := by
    refine find_separator_none ?_
    intro c hc
    rw [List.mem_append, not_or]
    exact ⟨hbase c hc, knownQuotes_no_separator quote hquote c hc⟩
  have hup : py.upper (base ++ quote) = base ++ quote := by
    rw [hpy.append, hupper, upper_capitals hpy (knownQuotes_capitals quote hquote)]
  have hproper : quote.length < (base ++ quote).length := by
    rw [List.length_append]
    have hpos := List.length_pos_of_ne_nil hne
    omega
  unfold makeInternal
  rw [hnone]
  dsimp only
  rw [hup, find_quote hquote (List.suffix_append base quote) hproper hlongest]
  dsimp only
  rw [List.length_append, Nat.add_sub_cancel, List.take_left]

theorem makeInternal_separated (py : Interp) (venue : PyStr) (assetType : AssetType)
    {base quote : PyStr} {sep : PyChar} (hbase : ∀ c ∈ separators, c ∉ base)
    (hquote : quote ∈ knownQuotes) (hsep : sep ∈ separators) :
    makeInternal py venue (base ++ sep :: quote) assetType = base ++ u "-" ++ quote := by
  have hquote' := knownQuotes_no_separator quote hquote
  have hfound : separators.find? (· ∈ base ++ sep :: quote) = some sep := by
    refine find_separator hsep (by simp) ?_
    intro c hc hmem
    rw [List.mem_append, List.mem_cons] at hmem
    rcases hmem with hb | rfl | hq
    · exact absurd hb (hbase c hc)
    · rfl
    · exact absurd hq (hquote' c hc)
  unfold makeInternal
  rw [hfound]
  dsimp only
  rw [splitOn_join (hbase sep hsep) (hquote' sep hsep)]
  simp [List.intercalate]

theorem dash_mem_split {s : PyStr} {sep : PyChar} (h : sep ∈ s) :
    PyChar.scalar '-' ∈ (u "-").intercalate (s.splitOn sep) := by
  have hlength := length_splitOn sep s
  have hcount := List.count_pos_iff.mpr h
  cases hsplit : s.splitOn sep with
  | nil =>
    rw [hsplit] at hlength
    simp at hlength
  | cons a rest =>
    cases rest with
    | nil =>
      rw [hsplit] at hlength
      simp only [List.length_cons, List.length_nil] at hlength
      omega
    | cons b rest => simp [List.intercalate, u]

/-- A name with a dash is its own internal name. -/
theorem makeInternal_dash (py : Interp) (venue : PyStr) (assetType : AssetType) {s : PyStr}
    (h : PyChar.scalar '-' ∈ s) : makeInternal py venue s assetType = s := by
  have hfound : separators.find? (· ∈ s) = some (.scalar '-') := by
    simp [separators, h]
  unfold makeInternal
  rw [hfound]
  exact List.intercalate_splitOn (PyChar.scalar '-')

theorem makeInternal_idem (py : Interp) (venue s : PyStr) (assetType : AssetType) :
    makeInternal py venue (makeInternal py venue s assetType) assetType =
      makeInternal py venue s assetType := by
  have hcases : makeInternal py venue s assetType = s ∨
      PyChar.scalar '-' ∈ makeInternal py venue s assetType := by
    unfold makeInternal
    cases hfound : separators.find? (· ∈ s) with
    | some sep => exact .inr (dash_mem_split (by simpa using List.find?_some hfound))
    | none =>
      dsimp only
      split
      · right
        simp [u]
      · exact .inl rfl
  rcases hcases with h | h
  · rw [h, h]
  · exact makeInternal_dash py venue assetType h

/-- The spelling of a pair without a separator and each one with a separator have one
internal name, and an internal name is its own. -/
theorem spellings_agree (py : Interp) (venue : PyStr) (assetType : AssetType) :
    (UpperByCharacter py → ∀ base quote sep, base ≠ [] → py.upper base = base → (∀ c ∈ separators, c ∉ base) →
      quote ∈ knownQuotes →
      (∀ q ∈ knownQuotes, quote.length < q.length → q <:+ base ++ quote →
        ¬ q.length < (base ++ quote).length) →
      sep ∈ separators →
      makeInternal py venue (base ++ quote) assetType = base ++ u "-" ++ quote ∧
        makeInternal py venue (base ++ [sep] ++ quote) assetType = base ++ u "-" ++ quote) ∧
    ∀ s, makeInternal py venue (makeInternal py venue s assetType) assetType =
      makeInternal py venue s assetType := by
  constructor
  · intro hpy base quote sep hne hupper hbase hquote hlongest hsep
    refine ⟨makeInternal_joined hpy venue assetType hne hupper hbase hquote hlongest, ?_⟩
    rw [List.append_assoc]
    exact makeInternal_separated py venue assetType hbase hquote hsep
  · intro s
    exact makeInternal_idem py venue s assetType

theorem spellings_agree_usd :
    makeInternal .ascii (u "BINANCE___SPOT") (u "BTC" ++ u "USD") .spot = u "BTC" ++ u "-" ++ u "USD" ∧
      makeInternal .ascii (u "BINANCE___SPOT") (u "BTC" ++ [.scalar '/'] ++ u "USD") .spot =
        u "BTC" ++ u "-" ++ u "USD" :=
  (spellings_agree .ascii (u "BINANCE___SPOT") .spot).1 upperByCharacter_ascii (u "BTC") (u "USD")
    (.scalar '/') (by decide) (by decide +kernel) (by decide +kernel) (by decide +kernel)
    (by decide +kernel) (by decide +kernel)

end InstrumentSpellings
