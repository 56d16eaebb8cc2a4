import BtApiBase.Caches
import BtApiBase.PyValue

/-!
# Cached functions

`cached` keeps the results of a function under a key that joins the name of the function
and the texts of the arguments with colons. A text does not tell the type of its argument,
and a colon inside one reads as the end of it, so that two calls may share a key.
-/

namespace CachedCalls

open PyDict PyText PyValue ExpiringMaps Runs

variable {α V E T : Type}

structure Call (α : Type) where
  args : List α
  kwargs : Dict PyStr α

/-- What the wrapper closes over, with `str(arg)` and the `{v}` of a format string. -/
structure Decorated (α V E T : Type) where
  name : PyStr
  str : α → Except E PyStr
  format : α → Except E PyStr
  func : Call α → Except E V
  ttl : Option T

section

variable (w : Decorated α V E T)

def Decorated.keyword (item : PyStr × α) : Except E PyStr := do
  return item.1 ++ u "=" ++ (← w.format item.2)

/-- The `key_parts` after the name. The keys of `kwargs` differ, so that sorting the items
compares no values. -/
def Decorated.keyParts (call : Call α) : Except E (List PyStr) := do
  let positional ← call.args.mapM w.str
  let named ← (call.kwargs.items.mergeSort fun a b => !before b.1 a.1).mapM w.keyword
  return positional ++ named

def Decorated.cacheKey (call : Call α) : Except E PyStr := do
  return (u ":").intercalate (w.name :: (← w.keyParts call))

/-- The cache of a decorated function; `none` is `_CACHE_MISSING`. -/
abbrev Store (V T : Type) := Caches.SimpleCache PyStr (Option V) T

variable [LinearOrder T] [Add T]

/-- `wrapper(*args, **kwargs)`, with the readings of the clock in `_get_or_default` and in
`set`. -/
def Decorated.wrapper (c : Store V T) (call : Call α) (now later : T) : Except E V × Store V T :=
  match w.cacheKey call with
  | .error e => (.error e, c)
  | .ok key =>
    match c._getOrDefault now key none with
    | (some value, c) => (.ok value, c)
    | (none, c) => match w.func call with
      | .error e => (.error e, c)
      | .ok result => (.ok result, c.set later key (some result) w.ttl)

/-! ## Runs -/

/-- What a caller does. The clock is `time.time`, which may be set back. -/
inductive Act (α T : Type) where
  | call (call : Call α) (now later : T)
  | clearCache

def Decorated.step (c : Store V T) : Act α T → Store V T
  | .call call now later => (w.wrapper c call now later).2
  | .clearCache => c.clear

/-- A call of the wrapper returns, or raises, what its function does. -/
def Decorated.Transparent (c : Store V T) : Act α T → Prop
  | .call call now later => (w.wrapper c call now later).1 = w.func call
  | .clearCache => True

/-- The run makes only calls of the class `P`. -/
def MakesOnly (P : Call α → Prop) (acts : List (Act α T)) : Prop :=
  ∀ call now later, Act.call call now later ∈ acts → P call

end

/-! ## Texts -/

/-- The arguments as one text, each after a colon. -/
def Decorated.written (w : Decorated α V E T) (call : Call α) : Except E PyStr :=
  (fun parts => parts.flatMap fun part => u ":" ++ part) <$> w.keyParts call

theorem intercalate_cons (sep part : PyStr) (parts : List PyStr) :
    sep.intercalate (part :: parts) = part ++ parts.flatMap fun p => sep ++ p := by
  induction parts generalizing part with
  | nil => simp
  | cons p parts ih =>
    rw [List.intercalate_cons_cons, ih p, List.flatMap_cons]
    simp only [List.append_assoc]

theorem cacheKey_eq (w : Decorated α V E T) (call : Call α) :
    w.cacheKey call = (fun text => w.name ++ text) <$> w.written call := by
  unfold Decorated.cacheKey Decorated.written
  cases w.keyParts call with
  | error e => rfl
  | ok parts => exact congrArg Except.ok (intercalate_cons (u ":") w.name parts)

/-- A text that cannot be made is what the call raises, and calls with one text have one
result. -/
structure Decorated.Told (w : Decorated α V E T) (P : Call α → Prop) : Prop where
  raised : ∀ call e, P call → w.written call = .error e → w.func call = .error e
  alike : ∀ call other text result, P call → P other → w.written call = .ok text →
    w.written other = .ok text → w.func other = .ok result → w.func call = .ok result

theorem cacheKey_error {w : Decorated α V E T} {call : Call α} {e : E} :
    w.cacheKey call = .error e ↔ w.written call = .error e := by
  rw [cacheKey_eq]
  cases w.written call <;> simp

theorem cacheKey_ok {w : Decorated α V E T} {call : Call α} {text : PyStr}
    (h : w.written call = .ok text) : w.cacheKey call = .ok (w.name ++ text) := by
  rw [cacheKey_eq, h]
  rfl

theorem written_of_cacheKey {w : Decorated α V E T} {call : Call α} {key : PyStr}
    (h : w.cacheKey call = .ok key) : ∃ text, key = w.name ++ text ∧ w.written call = .ok text := by
  rw [cacheKey_eq] at h
  cases hw : w.written call with
  | error e => simp [hw] at h
  | ok text =>
    rw [hw] at h
    cases h
    exact ⟨text, rfl, rfl⟩

/-! ## The entries -/

variable [LinearOrder T] [Add T] {w : Decorated α V E T} {P : Call α → Prop}

/-- Every entry is the result of a call of the class that has its key. -/
def Sound (w : Decorated α V E T) (P : Call α → Prop) (c : Store V T) : Prop :=
  ∀ key entry, c._cache.get key = some entry →
    ∃ call result, P call ∧ w.cacheKey call = .ok key ∧ w.func call = .ok result ∧ entry.1 = some result

omit [LinearOrder T] [Add T] in
theorem sound_of_sublist {c c' : Store V T} (h : Sound w P c)
    (hsub : c'._cache.items.Sublist c._cache.items) : Sound w P c' := by
  intro key entry hget
  refine h key entry ?_
  have hmem : key ∈ c'._cache.keys := by
    rw [Dict.mem_keys, hget]
    rfl
  rw [← get_of_sublist hsub hmem, hget]

omit [Add T] in
theorem sound_getOrDefault {c : Store V T} (h : Sound w P c) (now : T) (key : PyStr) :
    Sound w P (c._getOrDefault now key none).2 := by
  unfold Caches.SimpleCache._getOrDefault
  cases hget : c._cache.get key with
  | none => exact h
  | some entry =>
    obtain ⟨value, expiry⟩ := entry
    simp only
    split
    · exact sound_of_sublist h List.filter_sublist
    · intro j other hj
      rw [get_toEnd] at hj
      split at hj
      · next he =>
        subst he
        cases hj
        exact h j _ hget
      · exact h j other hj

omit [LinearOrder T] in
theorem sound_set {c : Store V T} {call : Call α} {key : PyStr} {result : V} (h : Sound w P c) (later : T)
    (hcall : P call) (hkey : w.cacheKey call = .ok key) (hresult : w.func call = .ok result) :
    Sound w P (c.set later key (some result) w.ttl) := by
  have hinserted : Sound w P { c with _cache := c.inserted later key (some result) w.ttl } := by
    intro j entry hj
    simp only [Caches.SimpleCache.inserted, get_toEnd] at hj
    split at hj
    · next he =>
      subst he
      cases hj
      exact ⟨call, result, hcall, hkey, hresult, rfl⟩
    · exact h j entry hj
  exact sound_of_sublist hinserted (Caches.items_set c later key (some result) w.ttl)

omit [LinearOrder T] [Add T] in
theorem sound_new (defaultTtl : T) (maxSize : Option Int) : Sound w P (.new defaultTtl maxSize) := by
  intro key entry hget
  cases hget

omit [Add T] in
/-- What is answered from the cache is the entry. -/
theorem get_of_getOrDefault {c : Store V T} {now : T} {key : PyStr} {value : V}
    (h : (c._getOrDefault now key none).1 = some value) : ∃ expiry, c._cache.get key = some (some value, expiry) := by
  unfold Caches.SimpleCache._getOrDefault at h
  cases hget : c._cache.get key with
  | none => simp [hget] at h
  | some entry =>
    obtain ⟨stored, expiry⟩ := entry
    simp only [hget] at h
    split at h
    · cases h
    · exact ⟨expiry, by rw [show stored = some value from h]⟩

/-! ## One call -/

section

variable {c c' : Store V T} {call : Call α} {key : PyStr} {now : T}

theorem wrapper_hit {value : V} (hkey : w.cacheKey call = .ok key)
    (hgot : c._getOrDefault now key none = (some value, c')) (later : T) :
    w.wrapper c call now later = (.ok value, c') := by
  simp only [Decorated.wrapper, hkey, hgot]

theorem wrapper_raises {e : E} (hkey : w.cacheKey call = .ok key)
    (hgot : c._getOrDefault now key none = (none, c')) (hresult : w.func call = .error e) (later : T) :
    w.wrapper c call now later = (.error e, c') := by
  simp only [Decorated.wrapper, hkey, hgot, hresult]

theorem wrapper_stores {result : V} (hkey : w.cacheKey call = .ok key)
    (hgot : c._getOrDefault now key none = (none, c')) (hresult : w.func call = .ok result) (later : T) :
    w.wrapper c call now later = (.ok result, c'.set later key (some result) w.ttl) := by
  simp only [Decorated.wrapper, hkey, hgot, hresult]

end

theorem sound_wrapper {c : Store V T} {call : Call α} (h : Sound w P c) (hcall : P call) (now later : T) :
    Sound w P (w.wrapper c call now later).2 := by
  cases hkey : w.cacheKey call with
  | error e =>
    simp only [Decorated.wrapper, hkey]
    exact h
  | ok key =>
    have hread := sound_getOrDefault h now key
    cases hgot : c._getOrDefault now key none with
    | mk answer c' =>
      rw [hgot] at hread
      cases answer with
      | some value =>
        rw [wrapper_hit hkey hgot]
        exact hread
      | none =>
        cases hresult : w.func call with
        | error e =>
          rw [wrapper_raises hkey hgot hresult]
          exact hread
        | ok result =>
          rw [wrapper_stores hkey hgot hresult]
          exact sound_set hread later hcall hkey hresult

theorem sound_step {c : Store V T} {act : Act α T} (h : Sound w P c) (hact : MakesOnly P [act]) :
    Sound w P (w.step c act) := by
  cases act with
  | call call now later => exact sound_wrapper h (hact call now later (List.mem_singleton.mpr rfl)) now later
  | clearCache =>
    intro key entry hget
    cases hget

theorem transparent_step {c : Store V T} {act : Act α T} (h : Sound w P c) (hw : w.Told P)
    (hact : MakesOnly P [act]) : w.Transparent c act := by
  cases act with
  | clearCache => trivial
  | call call now later =>
    have hcall := hact call now later (List.mem_singleton.mpr rfl)
    show (w.wrapper c call now later).1 = w.func call
    cases hkey : w.cacheKey call with
    | error e =>
      simp only [Decorated.wrapper, hkey]
      exact (hw.raised call e hcall (cacheKey_error.mp hkey)).symm
    | ok key =>
      obtain ⟨text, rfl, htext⟩ := written_of_cacheKey hkey
      cases hgot : c._getOrDefault now (w.name ++ text) none with
      | mk answer c' =>
        cases answer with
        | none =>
          cases hresult : w.func call with
          | error e => rw [wrapper_raises hkey hgot hresult]
          | ok result => rw [wrapper_stores hkey hgot hresult]
        | some value =>
          rw [wrapper_hit hkey hgot]
          -- the entry was stored by another call with the same text
          obtain ⟨expiry, hget⟩ := get_of_getOrDefault (congrArg Prod.fst hgot)
          obtain ⟨other, result, hother, hkey', hresult, he⟩ := h _ _ hget
          obtain ⟨text', hsame, htext'⟩ := written_of_cacheKey hkey'
          obtain rfl : text = text' := List.append_cancel_left hsame
          obtain rfl : value = result := Option.some.inj he
          exact (hw.alike call other text value hcall hother htext htext' hresult).symm

omit [LinearOrder T] [Add T] in
theorem MakesOnly.tail {act : Act α T} {acts : List (Act α T)} (h : MakesOnly P (act :: acts)) :
    MakesOnly P [act] ∧ MakesOnly P acts := by
  constructor
  · intro call now later hmem
    exact h call now later (List.mem_cons.mpr (.inl (List.mem_singleton.mp hmem)))
  · intro call now later hmem
    exact h call now later (List.mem_cons_of_mem _ hmem)

theorem transparent_run {c : Store V T} (h : Sound w P c) (hw : w.Told P) (acts : List (Act α T))
    (hacts : MakesOnly P acts) : Meets w.step w.Transparent c acts := by
  induction acts generalizing c with
  | nil => exact meets_nil _ _ _
  | cons act acts ih =>
    obtain ⟨hact, hrest⟩ := hacts.tail
    rw [meets_cons]
    exact ⟨transparent_step h hw hact, ih (sound_step h hact) hrest⟩

/-! ## Two calls with one text -/

omit [LinearOrder T] in
/-- A cache without entries keeps the first one, whatever its size. -/
theorem get_set_of_empty {c : Store V T} (h : c._cache = .empty) (later : T) (key : PyStr) (value : Option V)
    (ttl : Option T) :
    (c.set later key value ttl)._cache.get key = some (value, later + ttl.getD c._defaultTtl) := by
  have hitems : (c.inserted later key value ttl).items = [(key, value, later + ttl.getD c._defaultTtl)] := by
    rw [Caches.SimpleCache.inserted, h]
    rfl
  have hkept : (c.set later key value ttl)._cache.items = (c.inserted later key value ttl).items := by
    unfold Caches.SimpleCache.set
    cases c._maxSize with
    | none => rfl
    | some n =>
      by_cases hn : 0 < n
      · simp only [if_pos hn, hitems]
        rw [Caches.overflow_of_le]
        exact hn
      · simp only [if_neg hn]
  refine Dict.get_of_mem _ ?_
  rw [hkept, hitems]
  exact List.mem_singleton.mpr rfl

/-- The first call of a new cache. -/
theorem wrapper_new {call : Call α} {text : PyStr} {result : V} (htext : w.written call = .ok text)
    (hresult : w.func call = .ok result) (defaultTtl : T) (maxSize : Option Int) (now later : T) :
    (w.wrapper (.new defaultTtl maxSize) call now later).2._cache.get (w.name ++ text) =
      some (some result, later + w.ttl.getD defaultTtl) := by
  simp only [Decorated.wrapper, cacheKey_ok htext, Caches.SimpleCache._getOrDefault, Caches.SimpleCache.new,
    Dict.get_empty, hresult]
  exact get_set_of_empty rfl _ _ _ _

/-- An entry that has not expired is answered. -/
theorem wrapper_stored {c : Store V T} {call : Call α} {text : PyStr} {result : V} {now expiry : T}
    (htext : w.written call = .ok text) (hget : c._cache.get (w.name ++ text) = some (some result, expiry))
    (hlive : ¬ expiry < now) (later : T) : (w.wrapper c call now later).1 = .ok result := by
  simp only [Decorated.wrapper, cacheKey_ok htext, Caches.SimpleCache._getOrDefault, hget, if_neg hlive]

theorem told_of_transparent [Inhabited T] {defaultTtl : T} {maxSize : Option Int}
    (h : ∀ acts, MakesOnly P acts → Meets w.step w.Transparent (.new defaultTtl maxSize) acts) : w.Told P where
  raised := by
    intro call e hcall he
    have hrun := h [.call call default default] (by
      rintro c now later (_ | ⟨_, ⟨⟩⟩)
      exact hcall)
    have hfirst := ((meets_cons _ _ _ _ _).mp hrun).1
    simp only [Decorated.Transparent, Decorated.wrapper, cacheKey_error.mpr he] at hfirst
    exact hfirst.symm
  alike := by
    intro call other text result hcall hother htext htext' hresult
    have hrun := h [.call other default default, .call call (default + w.ttl.getD defaultTtl) default] (by
      rintro c now later (_ | ⟨_, _ | ⟨_, ⟨⟩⟩⟩)
      · exact hother
      · exact hcall)
    have hlast := ((meets_cons _ _ _ _ _).mp ((meets_cons _ _ _ _ _).mp hrun).2).1
    have hget := wrapper_new htext' hresult defaultTtl maxSize default default
    exact hlast.symm.trans (wrapper_stored htext hget (lt_irrefl _) default)

/-- The decorator is transparent for calls of a class exactly when the calls of that class
are told apart. -/
theorem transparent_iff_told [Inhabited T] (w : Decorated α V E T) (P : Call α → Prop) (defaultTtl : T)
    (maxSize : Option Int) :
    (∀ acts, MakesOnly P acts → Meets w.step w.Transparent (.new defaultTtl maxSize) acts) ↔ w.Told P := by
  constructor
  · exact told_of_transparent
  · intro hw acts hacts
    exact transparent_run (sound_new defaultTtl maxSize) hw acts hacts

/-! ## An integer and its text -/

/-- A function of one positional argument that returns it. -/
def itself (call : Call PyVal) : Except PyExc PyVal :=
  match call.args with
  | [value] => .ok value
  | _ => .error (typeError "itself() takes 1 positional argument")

def decoratedItself : Decorated PyVal PyVal PyExc Int where
  name := "itself"
  str value := .ok (Interp.ascii.str value)
  format value := .ok (Interp.ascii.str value)
  func := itself
  ttl := some 300

theorem written_one (value : PyVal) :
    decoratedItself.written ⟨[value], .empty⟩ = .ok (u ":" ++ Interp.ascii.str value) := by
  simp [Decorated.written, Decorated.keyParts, Dict.empty, decoratedItself]

/-- The call with the text returns the integer of the call before. -/
theorem integer_returned : ¬ Meets decoratedItself.step decoratedItself.Transparent (.new 300 none)
    [.call ⟨[.int 1], .empty⟩ 0 0, .call ⟨[.str "1"], .empty⟩ 1 1] := by
  intro h
  have hlast := ((meets_cons _ _ _ _ _).mp ((meets_cons _ _ _ _ _).mp h).2).1
  have hget := wrapper_new (written_one (.int 1)) rfl 300 none 0 0
  have hhit := wrapper_stored (written_one (.str "1")) hget (by decide : ¬ (300 : Int) < 1) 1
  cases hhit.symm.trans hlast

end CachedCalls
