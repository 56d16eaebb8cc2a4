import BtApiBase.ExpiringMaps
import BtApiBase.Runs
import Mathlib.Data.Int.Order.Basic

/-!
# The cache

`SimpleCache` keeps its entries in one ordered dictionary: what is set or read with
success goes to its end, and what does not fit is popped at its front. An entry that
has expired stays where it is until a read or a cleanup finds it.
-/

namespace Caches

open PyDict ExpiringMaps Runs

variable {K V T : Type*}

structure SimpleCache (K V T : Type*) where
  _cache : Dict K (V × T)
  _defaultTtl : T
  _maxSize : Option Int
  _hits : Nat
  _misses : Nat

def SimpleCache.new (defaultTtl : T) (maxSize : Option Int) : SimpleCache K V T := ⟨.empty, defaultTtl, maxSize, 0, 0⟩

/-- `popitem(last=False)` while there are more items than fit: the keys popped, and what
is left. -/
def overflow (maxSize : Int) : List (K × V × T) → List K × List (K × V × T)
  | [] => ([], [])
  | item :: items =>
    if maxSize < (item :: items).length then
      let r := overflow maxSize items
      (item.1 :: r.1, r.2)
    else ([], item :: items)

theorem overflow_append (maxSize : Int) (items : List (K × V × T)) :
    ∃ popped, items = popped ++ (overflow maxSize items).2 ∧ (overflow maxSize items).1 = popped.map Prod.fst := by
  induction items with
  | nil => exact ⟨[], rfl, rfl⟩
  | cons item items ih =>
    rw [overflow]
    split
    · obtain ⟨popped, hitems, hkeys⟩ := ih
      exact ⟨item :: popped, by simpa using hitems, by simp [hkeys]⟩
    · exact ⟨[], rfl, rfl⟩

theorem overflow_sublist (maxSize : Int) (items : List (K × V × T)) :
    (overflow maxSize items).2.Sublist items := by
  obtain ⟨popped, hitems, -⟩ := overflow_append maxSize items
  conv_rhs => rw [hitems]
  exact List.sublist_append_right _ _

variable [DecidableEq K] [LinearOrder T] [Add T]

section

variable (c : SimpleCache K V T) (now : T)

/-- `get` is this with the default `None`. -/
def SimpleCache._getOrDefault (key : K) (default : V) : V × SimpleCache K V T :=
  match c._cache.get key with
  | none => (default, { c with _misses := c._misses + 1 })
  | some (value, expiry) =>
    if expiry < now then
      (default, { c with
        _cache := c._cache.pop key
        _misses := c._misses + 1 })
    else
      (value, { c with
        _cache := toEnd c._cache key (value, expiry)
        _hits := c._hits + 1 })

/-- The dictionary after an assignment, before the eviction. -/
def SimpleCache.inserted (key : K) (value : V) (ttl : Option T) : Dict K (V × T) :=
  toEnd c._cache key (value, now + ttl.getD c._defaultTtl)

/-- The keys that `set` evicts. -/
def SimpleCache.evicted (key : K) (value : V) (ttl : Option T) : List K :=
  match c._maxSize with
  | some n => if 0 < n then (overflow n (c.inserted now key value ttl).items).1 else []
  | none => []

def SimpleCache.set (key : K) (value : V) (ttl : Option T) : SimpleCache K V T where
  _cache := match c._maxSize with
    | some n =>
      if 0 < n then {
        items := (overflow n (c.inserted now key value ttl).items).2
        nodup := (c.inserted now key value ttl).nodup.sublist (List.Sublist.map _ (overflow_sublist n _)) }
      else c.inserted now key value ttl
    | none => c.inserted now key value ttl
  _defaultTtl := c._defaultTtl
  _maxSize := c._maxSize
  _hits := c._hits
  _misses := c._misses

def SimpleCache.delete (key : K) : SimpleCache K V T := { c with _cache := c._cache.pop key }

def SimpleCache.clear : SimpleCache K V T := { c with _cache := .empty }

/-- The number of entries removed, and the cache then. -/
def SimpleCache.cleanup : Nat × SimpleCache K V T :=
  let active := keep (fun entry => !decide (entry.2 < now)) c._cache
  (c._cache.values.countP fun entry => entry.2 < now, { c with _cache := active })

def SimpleCache.size : Nat := c._cache.length
def SimpleCache.keys : List K := c._cache.keys

end

/-! ## Sessions -/

inductive Call (K V T : Type*) where
  | get (key : K) (default : V)
  | set (key : K) (value : V) (ttl : Option T)
  | delete (key : K)
  | clear
  | cleanup

def perform (c : SimpleCache K V T) (now : T) : Call K V T → SimpleCache K V T
  | .get key default => (c._getOrDefault now key default).2
  | .set key value ttl => c.set now key value ttl
  | .delete key => c.delete key
  | .clear => c.clear
  | .cleanup => (c.cleanup now).2

/-- The call as the history records it. -/
def eventOf (c : SimpleCache K V T) (now : T) : Call K V T → Event K V T
  | .get key _ => ⟨.get key, now, []⟩
  | .set key value ttl => ⟨.set key value (now + ttl.getD c._defaultTtl), now, c.evicted now key value ttl⟩
  | .delete key => ⟨.delete key, now, []⟩
  | .clear => ⟨.clear, now, []⟩
  | .cleanup => ⟨.cleanup, now, []⟩

structure Session (K V T : Type*) where
  cache : SimpleCache K V T
  now : T
  history : History K V T

def Session.new (defaultTtl : T) (maxSize : Option Int) (start : T) : Session K V T :=
  ⟨.new defaultTtl maxSize, start, []⟩

/-- A call with a reading of the clock, which is never behind an earlier one. -/
def Session.step (s : Session K V T) (call : Call K V T × T) : Session K V T :=
  let now := max s.now call.2
  ⟨perform s.cache now call.1, now, eventOf s.cache now call.1 :: s.history⟩

def isGet (e : Event K V T) : Bool :=
  match e.op with
  | .get _ => true
  | _ => false

/-! ## Evictions -/

omit [DecidableEq K] [LinearOrder T] [Add T] in
theorem length_overflow {maxSize : Int} (h : 0 < maxSize) (items : List (K × V × T)) :
    ((overflow maxSize items).2.length : Int) ≤ maxSize := by
  induction items with
  | nil => exact Int.le_of_lt h
  | cons item items ih =>
    rw [overflow]
    split
    · exact ih
    · next hle => exact Int.not_lt.mp hle

omit [DecidableEq K] [LinearOrder T] [Add T] in
theorem overflow_of_le {maxSize : Int} {items : List (K × V × T)} (h : (items.length : Int) ≤ maxSize) :
    overflow maxSize items = ([], items) := by
  cases items with
  | nil => rfl
  | cons item items => rw [overflow, if_neg (Int.not_lt.mpr h)]

omit [DecidableEq K] [LinearOrder T] [Add T] in
/-- One item too many: the first is popped. -/
theorem overflow_of_eq {maxSize : Int} {item : K × V × T} {items : List (K × V × T)}
    (h : (items.length : Int) = maxSize) : overflow maxSize (item :: items) = ([item.1], items) := by
  have hlt : maxSize < (item :: items).length := by
    rw [List.length_cons]
    omega
  rw [overflow, if_pos hlt, overflow_of_le (Int.le_of_eq h)]

omit [DecidableEq K] in
theorem length_keys (d : Dict K V) : d.keys.length = d.items.length := List.length_map _

/-! ## One call -/

/-- The store reflects the history, fits and has counted every read. -/
structure Sound (s : Session K V T) : Prop where
  reflects : Reflects s.cache._cache s.now s.history
  bounded : ∀ n, s.cache._maxSize = some n → 0 < n → (s.cache.size : Int) ≤ n
  counted : s.cache._hits + s.cache._misses = s.history.countP isGet

variable {s : Session K V T} {now : T}

omit [Add T] in
theorem reflects_get (h : Reflects s.cache._cache now s.history) (key : K) (default : V) :
    Reflects (s.cache._getOrDefault now key default).2._cache now (⟨.get key, now, []⟩ :: s.history) := by
  have hstanding : ∀ k, standing k (⟨.get key, now, []⟩ :: s.history) = standing k s.history := fun k => by
    simp [standing]
  unfold SimpleCache._getOrDefault
  cases hk : s.cache._cache.get key with
  | none =>
    have hmiss : lookup key now s.history = none := by simp [h.lookup_eq, hk]
    refine h.lose hstanding (fun k => ?_) (List.Sublist.refl _) (fun _ _ hget => hget) fun k entry hd hn => ?_
    · by_cases he : key = k
      · subst he
        simp [lastUse, uses, hmiss]
      · simp [lastUse, uses, he]
    · rw [hd] at hn
      cases hn
  | some entry =>
    obtain ⟨value, expiry⟩ := entry
    dsimp only
    by_cases he : expiry < now
    · have hmiss : lookup key now s.history = none := by simp [h.lookup_eq, hk, he]
      rw [if_pos he]
      refine h.lose hstanding (fun k => ?_) (keys_pop_sublist _ key) (fun k entry hget => ?_) fun k entry hd hn => ?_
      · by_cases hkey : key = k
        · subst hkey
          simp [lastUse, uses, hmiss]
        · simp [lastUse, uses, hkey]
      · rw [Dict.get_pop] at hget
        split at hget
        · cases hget
        · exact hget
      · rw [Dict.get_pop] at hn
        split at hn
        · next hkey =>
          rw [hkey, hk] at hd
          exact Option.some.inj hd ▸ he
        · rw [hd] at hn
          cases hn
    · have hhit : (lookup key now s.history).isSome = true := by simp [h.lookup_eq, hk, he]
      rw [if_neg he]
      refine h.use ((hstanding key).trans (h.stored key _ hk)) (fun j _ => hstanding j) fun j => ?_
      by_cases hj : j = key
      · subst hj
        simp [uses, hhit]
      · simp [uses, hj, Ne.symm hj]

theorem reflects_inserted (h : Reflects s.cache._cache now s.history) (key : K) (value : V) (ttl : Option T) :
    Reflects (s.cache.inserted now key value ttl) now
      (⟨.set key value (now + ttl.getD s.cache._defaultTtl), now, []⟩ :: s.history) := by
  refine h.use (by simp [standing]) (fun j hj => ?_) fun j => ?_
  · simp [standing, Ne.symm hj]
  · simp [uses, eq_comm]

omit [LinearOrder T] in
theorem keys_set (c : SimpleCache K V T) (now : T) (key : K) (value : V) (ttl : Option T) :
    c.evicted now key value ttl ++ (c.set now key value ttl).keys = (c.inserted now key value ttl).keys := by
  unfold SimpleCache.evicted SimpleCache.set SimpleCache.keys
  cases c._maxSize with
  | none => rfl
  | some n =>
    by_cases hn : 0 < n
    · obtain ⟨popped, hitems, hkeys⟩ := overflow_append n (c.inserted now key value ttl).items
      simp only [if_pos hn]
      rw [hkeys, Dict.keys, Dict.keys, ← List.map_append, ← hitems]
    · simp only [if_neg hn]
      rfl

omit [LinearOrder T] in
theorem items_set (c : SimpleCache K V T) (now : T) (key : K) (value : V) (ttl : Option T) :
    (c.set now key value ttl)._cache.items.Sublist (c.inserted now key value ttl).items := by
  unfold SimpleCache.set
  cases c._maxSize with
  | none => exact List.Sublist.refl _
  | some n =>
    by_cases hn : 0 < n
    · simp only [if_pos hn]
      exact overflow_sublist n _
    · simp only [if_neg hn]
      exact List.Sublist.refl _

theorem reflects_perform (h : Reflects s.cache._cache now s.history) (call : Call K V T) :
    Reflects (perform s.cache now call)._cache now (eventOf s.cache now call :: s.history) := by
  cases call with
  | get key default => exact reflects_get h key default
  | set key value ttl => exact (reflects_inserted h key value ttl).evict (keys_set _ _ _ _ _) (items_set _ _ _ _ _)
  | delete key => exact h.delete key now
  | clear => exact reflects_clear now now s.history
  | cleanup => exact h.cleanup now

omit [LinearOrder T] [Add T] in
theorem length_pop_le (d : Dict K (V × T)) (key : K) : (d.pop key).length ≤ d.length :=
  List.length_filter_le _ _

omit [LinearOrder T] [Add T] in
theorem length_toEnd (d : Dict K (V × T)) (key : K) (entry : V × T) :
    (toEnd d key entry).length = (d.pop key).length + 1 := by
  have hkeys := congrArg List.length (keys_toEnd d key entry)
  rwa [List.length_append, length_keys, length_keys] at hkeys

omit [LinearOrder T] [Add T] in
/-- A key that is there and goes to the end leaves the length. -/
theorem length_pop_of_get {d : Dict K (V × T)} {key : K} (h : (d.get key).isSome = true) :
    (d.pop key).length + 1 ≤ d.length := by
  obtain ⟨entry, hentry⟩ := Option.isSome_iff_exists.mp h
  have hmem := Dict.mem_of_get hentry
  have hlt : (d.pop key).items.length < d.items.length := by
    refine List.length_filter_lt_length_iff_exists.mpr ⟨_, hmem, ?_⟩
    simp
  exact hlt

theorem maxSize_perform (c : SimpleCache K V T) (now : T) (call : Call K V T) :
    (perform c now call)._maxSize = c._maxSize ∧ (perform c now call)._defaultTtl = c._defaultTtl := by
  cases call with
  | get key default =>
    simp only [perform, SimpleCache._getOrDefault]
    split
    · exact ⟨rfl, rfl⟩
    · split <;> exact ⟨rfl, rfl⟩
  | _ => exact ⟨rfl, rfl⟩

theorem bounded_perform {c : SimpleCache K V T} {n : Int} (hm : c._maxSize = some n) (hn : 0 < n)
    (h : (c.size : Int) ≤ n) (now : T) (call : Call K V T) : ((perform c now call).size : Int) ≤ n := by
  cases call with
  | get key default =>
    simp only [perform, SimpleCache._getOrDefault, SimpleCache.size] at h ⊢
    cases hk : c._cache.get key with
    | none => exact h
    | some entry =>
      have hpop := length_pop_of_get (by rw [hk]; rfl : (c._cache.get key).isSome = true)
      dsimp only
      split
      · dsimp only
        omega
      · dsimp only
        rw [length_toEnd]
        omega
  | set key value ttl =>
    simp only [perform, SimpleCache.set, SimpleCache.size, hm, if_pos hn]
    exact length_overflow hn _
  | delete key =>
    have hpop := length_pop_le c._cache key
    simp only [perform, SimpleCache.delete, SimpleCache.size] at h ⊢
    omega
  | clear => exact Int.le_of_lt hn
  | cleanup =>
    have hkeep : (keep (fun entry => !decide (entry.2 < now)) c._cache).length ≤ c._cache.length :=
      List.length_filter_le _ _
    simp only [perform, SimpleCache.cleanup, SimpleCache.size] at h ⊢
    omega

/-- A read counts as a hit or as a miss, and nothing else counts. -/
theorem counted_perform (c : SimpleCache K V T) (now : T) (call : Call K V T) :
    (perform c now call)._hits + (perform c now call)._misses =
      c._hits + c._misses + [eventOf c now call].countP isGet := by
  cases call with
  | get key default =>
    simp only [perform, SimpleCache._getOrDefault]
    split
    · rfl
    · split
      · rfl
      · dsimp only [eventOf]
        simp [isGet]
        omega
  | _ => rfl

omit [Add T] in
theorem sound_new (defaultTtl : T) (maxSize : Option Int) (start : T) :
    Sound (Session.new defaultTtl maxSize start : Session K V T) where
  reflects := reflects_empty start
  bounded _ _ hn := Int.le_of_lt hn
  counted := rfl

theorem sound_step (h : Sound s) (call : Call K V T × T) : Sound (s.step call) where
  reflects := reflects_perform (h.reflects.wait (le_max_left _ _)) call.1
  bounded n hm hn := by
    rw [Session.step, (maxSize_perform _ _ _).1] at hm
    exact bounded_perform hm hn (h.bounded n hm hn) _ call.1
  counted := by
    rw [Session.step]
    dsimp only
    rw [counted_perform, h.counted]
    simp only [List.countP_cons, List.countP_nil]
    omega

theorem sound_run (defaultTtl : T) (maxSize : Option Int) (start : T) (calls : List (Call K V T × T)) :
    let s := run Session.step (.new defaultTtl maxSize start) calls
    Sound s ∧ s.cache._maxSize = maxSize :=
  run_induction (P := fun s : Session K V T => Sound s ∧ s.cache._maxSize = maxSize)
    (fun s call h => ⟨sound_step h.1 call, ((maxSize_perform s.cache _ call.1).1).trans h.2⟩)
    ⟨sound_new defaultTtl maxSize start, rfl⟩ calls

/-! ## What the cache answers -/

omit [Add T] in
theorem Sound.answer (h : Sound s) (key : K) (default : V) (reading : T) :
    (s.cache._getOrDefault (max s.now reading) key default).1 =
      (lookup key (max s.now reading) s.history).getD default := by
  rw [(h.reflects.wait (le_max_left s.now reading)).lookup_eq, SimpleCache._getOrDefault]
  generalize max s.now reading = now
  cases s.cache._cache.get key with
  | none => rfl
  | some entry =>
    dsimp only
    split
    · next he => simp [he]
    · next he => simp [he]

/-- An eviction makes room for a new key in a full cache. -/
theorem Sound.full (h : Sound s) {key : K} {value : V} {ttl : Option T} {j : K}
    (hj : j ∈ s.cache.evicted now key value ttl) :
    s.cache._maxSize = some (s.cache.size : Int) ∧ key ∉ s.cache.keys ∧ 0 < s.cache.size ∧
      s.cache.evicted now key value ttl =
        (overflow s.cache.size (s.cache.inserted now key value ttl).items).1 := by
  unfold SimpleCache.evicted at hj ⊢
  cases hm : s.cache._maxSize with
  | none =>
    rw [hm] at hj
    cases hj
  | some n =>
    by_cases hn : 0 < n
    · simp only [hm, if_pos hn] at hj ⊢
      have hsize : (s.cache._cache.length : Int) ≤ n := h.bounded n hm hn
      have hinserted : (s.cache.inserted now key value ttl).items.length = (s.cache._cache.pop key).length + 1 :=
        length_toEnd _ _ _
      have hover : n < (s.cache.inserted now key value ttl).items.length := by
        by_contra hle
        rw [overflow_of_le (Int.not_lt.mp hle)] at hj
        cases hj
      have hnew : key ∉ s.cache._cache.keys := by
        intro hkey
        have hpop := length_pop_of_get ((Dict.mem_keys _ _).mp hkey)
        omega
      have hpop := length_pop_le s.cache._cache key
      obtain rfl : n = (s.cache.size : Int) := by
        unfold SimpleCache.size
        omega
      exact ⟨rfl, hnew, by omega, rfl⟩
    · simp only [hm, if_neg hn] at hj
      cases hj

/-- What is evicted was last used before everything else in the cache. -/
theorem Sound.oldest (h : Sound s) {key : K} {value : V} {ttl : Option T} {j : K}
    (hj : j ∈ s.cache.evicted now key value ttl) :
    j ∈ s.cache.keys ∧ ∀ i ∈ s.cache.keys, i ≠ j → lastUse j s.history < lastUse i s.history := by
  obtain ⟨-, hnew, hpos, hevicted⟩ := h.full hj
  have hkeys : (s.cache.inserted now key value ttl).keys = s.cache.keys ++ [key] := by
    rw [SimpleCache.inserted, keys_toEnd, pop_of_absent hnew]
    rfl
  have hordered : s.cache.keys.Pairwise fun j k => lastUse j s.history < lastUse k s.history := h.reflects.ordered
  have hsize : s.cache.keys.length = s.cache.size := length_keys _
  rw [hevicted] at hj
  cases hfirst : s.cache.keys with
  | nil =>
    rw [hfirst, List.length_nil] at hsize
    omega
  | cons k rest =>
    rw [hfirst] at hkeys hordered hsize
    cases hitems : (s.cache.inserted now key value ttl).items with
    | nil =>
      simp [Dict.keys, hitems] at hkeys
    | cons item items =>
      simp only [Dict.keys, hitems, List.map_cons, List.cons_append, List.cons.injEq] at hkeys
      have hlength : items.length = s.cache.size := by
        have hlength := congrArg List.length hkeys.2
        simp only [List.length_map, List.length_append, List.length_cons, List.length_nil] at hlength hsize
        omega
      rw [hitems, overflow_of_eq (by rw [hlength]), List.mem_singleton, hkeys.1] at hj
      subst hj
      refine ⟨List.mem_cons_self, fun i hi hne => ?_⟩
      rcases List.mem_cons.mp hi with he | hi
      · exact absurd he hne
      · exact (List.pairwise_cons.mp hordered).1 i hi

omit [DecidableEq K] [LinearOrder T] [Add T] in
theorem countP_keep (p : V × T → Bool) (items : List (K × V × T)) :
    (items.map Prod.snd).countP (fun entry => !p entry) + (items.filter fun item => p item.2).length =
      items.length := by
  induction items with
  | nil => rfl
  | cons item items ih =>
    by_cases hp : p item.2 = true
    · simp only [List.map_cons, List.countP_cons, List.filter_cons, hp, Bool.not_true, Bool.false_eq_true,
        if_false, if_true, List.length_cons]
      omega
    · simp only [List.map_cons, List.countP_cons, List.filter_cons, hp, Bool.not_false, if_true,
        Bool.false_eq_true, if_false, List.length_cons]
      omega

/-- In every session the cache is a bounded map with expiry that forgets what was last
used longest ago. -/
theorem behaves_as_lru (defaultTtl : T) (maxSize : Option Int) (start : T) (calls : List (Call K V T × T)) :
    let s := run Session.step (.new defaultTtl maxSize start) calls
    (∀ key default reading, (s.cache._getOrDefault (max s.now reading) key default).1 =
      (lookup key (max s.now reading) s.history).getD default) ∧
    (∀ n, maxSize = some n → 0 < n → (s.cache.size : Int) ≤ n) ∧
    (∀ key value ttl reading, let now := max s.now reading
      s.cache.evicted now key value ttl ++ (s.cache.set now key value ttl).keys =
        (s.cache.delete key).keys ++ [key] ∧
      ∀ j ∈ s.cache.evicted now key value ttl,
        maxSize = some (s.cache.size : Int) ∧ key ∉ s.cache.keys ∧ j ∈ s.cache.keys ∧
          ∀ i ∈ s.cache.keys, i ≠ j → lastUse j s.history < lastUse i s.history) ∧
    (∀ now, (s.cache.cleanup now).2._cache.items =
        s.cache._cache.items.filter (fun item => !decide (item.2.2 < now)) ∧
      (s.cache.cleanup now).1 + (s.cache.cleanup now).2.size = s.cache.size) ∧
    s.cache._hits + s.cache._misses = s.history.countP isGet := by
  intro s
  obtain ⟨h, hm⟩ := sound_run defaultTtl maxSize start calls
  refine ⟨h.answer, fun n hn => h.bounded n (hm.trans hn), fun key value ttl reading => ⟨?_, fun j hj => ?_⟩,
    fun now => ⟨rfl, ?_⟩, h.counted⟩
  · rw [keys_set]
    exact keys_toEnd _ _ _
  · obtain ⟨hfull, hnew, -, -⟩ := h.full hj
    exact ⟨hm ▸ hfull, hnew, h.oldest hj⟩
  · have hcount := countP_keep (fun entry : V × T => !decide (entry.2 < now)) s.cache._cache.items
    simpa [SimpleCache.cleanup, SimpleCache.size, Dict.values, Dict.length, keep] using hcount

example : (run Session.step (.new 300 (some 2) 0 : Session Nat Nat Int)
    [(.set 1 10 none, 0), (.set 2 20 none, 1), (.get 1 0, 2), (.set 3 30 (some 5), 3)]).cache.keys = [1, 3] := by
  decide

end Caches
