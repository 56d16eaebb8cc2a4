import BtApiBase.Protocol
import BtApiBase.Runs

/-!
# The cache service

`CacheService` writes to Redis first and then to a dictionary of its own, and reads the
dictionary where Redis raises or has nothing. A Redis call that raises is logged and
forgotten, so the two stores come apart, and the one that fell behind is read first.
-/

namespace CacheServices

open PyText PyDict Runs

variable {K V : Type*}

/-- How a call to Redis ends: an exception may reach the client after the server has
acted. -/
inductive Reply where
  | returns
  | raises (acted : Bool)
  deriving DecidableEq

def Reply.acted : Reply → Bool
  | .returns => true
  | .raises acted => acted

/-- `json` on the values that it can write. -/
structure Json (V : Type*) where
  dumps : V → Bytes
  loads : Bytes → Option V
  loads_dumps : ∀ v, loads (dumps v) = some v
  dumps_ne_nil : ∀ v, dumps v ≠ []

/-- The server holds each text with the time it expires at. -/
structure CacheService (K V : Type*) where
  _redisClient : Option (Dict K (Bytes × WithTop ℚ))
  _localCache : Dict K V
  _localTtl : Dict K (WithTop ℚ)

/-- With a client whose server is empty. -/
def CacheService.new : CacheService K V := ⟨some .empty, .empty, .empty⟩

variable [DecidableEq K]

/-- `redis.get(key)` -/
def stored (server : Dict K (Bytes × WithTop ℚ)) (now : ℚ) (key : K) : Option Bytes :=
  (server.get key).bind fun entry => if (now : WithTop ℚ) < entry.2 then some entry.1 else none

/-- `float("inf")` where there is no `ttl`, or a zero one. -/
def expiry (now : ℚ) : Option ℤ → WithTop ℚ
  | none => ⊤
  | some ttl => if ttl = 0 then ⊤ else ((now + ttl : ℚ) : WithTop ℚ)

section

variable (json : Json V) (c : CacheService K V) (reply : Reply) (now : ℚ) (key : K)

/-- The part of `get` under the lock. -/
def CacheService.getLocal : Option V × CacheService K V :=
  if (c._localTtl.get key).any fun t => (now : WithTop ℚ) < t then (c._localCache.get key, c)
  else (none, { c with
    _localCache := c._localCache.pop key
    _localTtl := c._localTtl.pop key })

/-- A text that is empty, or that `json.loads` raises on, leaves the answer to the
dictionary. -/
def CacheService.get : Option V × CacheService K V :=
  match reply, c._redisClient with
  | .returns, some server =>
    match (stored server now key).bind fun value => if value = [] then none else json.loads value with
    | some value => (some value, c)
    | none => c.getLocal now key
  | _, _ => c.getLocal now key

def CacheService.set (value : V) (ttl : Option ℤ) : CacheService K V where
  _redisClient := c._redisClient.map fun server =>
    if reply.acted then server.set key (json.dumps value, expiry now ttl) else server
  _localCache := c._localCache.set key value
  _localTtl := c._localTtl.set key (expiry now ttl)

def CacheService.delete : CacheService K V where
  _redisClient := c._redisClient.map fun server => if reply.acted then server.pop key else server
  _localCache := c._localCache.pop key
  _localTtl := c._localTtl.pop key

def CacheService.clear : CacheService K V where
  _redisClient := c._redisClient.map fun server => if reply.acted then .empty else server
  _localCache := .empty
  _localTtl := .empty

end

/-! ## Runs -/

inductive Call (K V : Type*) where
  | get (key : K)
  | set (key : K) (value : V)
  | delete (key : K)
  | clear

/-- A call, what becomes of it in Redis and the time. -/
structure Request (K V : Type*) where
  call : Call K V
  reply : Reply
  now : ℚ

def serve (json : Json V) (c : CacheService K V) (q : Request K V) : CacheService K V :=
  match q.call with
  | .get key => (c.get json q.reply q.now key).2
  | .set key value => c.set json q.reply q.now key value none
  | .delete key => c.delete q.reply key
  | .clear => c.clear q.reply

/-- What is to be found under `k` after a call. -/
def Call.leaves (k : K) (found : Option V) : Call K V → Option V
  | .get _ => found
  | .set key value => if k = key then some value else found
  | .delete key => if k = key then none else found
  | .clear => none

/-- The value of the last `set` of `k`, unless a `delete` of `k` or a `clear` followed. -/
def standing (k : K) (requests : List (Request K V)) : Option V :=
  requests.foldl (fun found q => q.call.leaves k found) none

/-- The requests that took effect in Redis. -/
def acted (requests : List (Request K V)) : List (Request K V) :=
  requests.filter fun q => q.reply.acted

@[simp] theorem standing_nil (k : K) : standing k ([] : List (Request K V)) = none := rfl

theorem standing_concat (k : K) (requests : List (Request K V)) (q : Request K V) :
    standing k (requests ++ [q]) = q.call.leaves k (standing k requests) := by
  simp [standing]

theorem standing_acted_concat (k : K) (requests : List (Request K V)) (q : Request K V) :
    standing k (acted (requests ++ [q])) =
      if q.reply.acted then q.call.leaves k (standing k (acted requests))
      else standing k (acted requests) := by
  by_cases h : q.reply.acted = true <;> simp [acted, standing, List.filter_append, h]

/-- The dictionary holds what stands, and the server what stands of the requests that it
carried out. -/
structure Reflects (json : Json V) (c : CacheService K V) (requests : List (Request K V)) : Prop where
  server : ∃ server, c._redisClient = some server ∧
    ∀ k, server.get k = (standing k (acted requests)).map fun v => (json.dumps v, ⊤)
  cache : ∀ k, c._localCache.get k = standing k requests
  ttl : ∀ k, c._localTtl.get k = (standing k requests).map fun _ => ⊤

variable {json : Json V} {c : CacheService K V} {requests : List (Request K V)}

theorem getLocal_spec (h : Reflects json c requests) (now : ℚ) (key : K) :
    (c.getLocal now key).1 = standing key requests ∧
      Reflects json (c.getLocal now key).2 requests := by
  unfold CacheService.getLocal
  rw [h.ttl key]
  cases hs : standing key requests with
  | some v =>
    have hlive : ((some v).map fun _ => (⊤ : WithTop ℚ)).any (fun t => (now : WithTop ℚ) < t) = true := by
      simp
    rw [if_pos hlive, h.cache key, hs]
    exact ⟨rfl, h⟩
  | none =>
    refine ⟨rfl, h.server, fun k => ?_, fun k => ?_⟩
    · show (c._localCache.pop key).get k = _
      rw [Dict.get_pop, h.cache k]
      split
      · next hk => rw [hk, hs]
      · rfl
    · show (c._localTtl.pop key).get k = _
      rw [Dict.get_pop, h.ttl k]
      split
      · next hk => rw [hk, hs]; rfl
      · rfl

/-- A server that answers is believed before the dictionary. -/
theorem get_returns (h : Reflects json c requests) (now : ℚ) (key : K) :
    (c.get json .returns now key).1 = (standing key (acted requests)).or (standing key requests) := by
  obtain ⟨server, hc, hserver⟩ := h.server
  have hl := (getLocal_spec h now key).1
  unfold CacheService.get
  rw [hc]
  cases hs : standing key (acted requests) with
  | none => simp [stored, hserver, hs, hl]
  | some v => simp [stored, hserver, hs, json.loads_dumps, json.dumps_ne_nil]

theorem get_raises (h : Reflects json c requests) (b : Bool) (now : ℚ) (key : K) :
    (c.get json (.raises b) now key).1 = standing key requests :=
  (getLocal_spec h now key).1

theorem get_reflects (h : Reflects json c requests) (reply : Reply) (now : ℚ) (key : K) :
    Reflects json (c.get json reply now key).2 requests := by
  have hl := (getLocal_spec h now key).2
  unfold CacheService.get
  split
  · split
    · exact h
    · exact hl
  · exact hl

/-- The last call is a request to the server like the ones before it. -/
theorem Reflects.write {c' : CacheService K V} {q : Request K V} (h : Reflects json c requests)
    (write : Dict K (Bytes × WithTop ℚ) → Dict K (Bytes × WithTop ℚ))
    (hc : c'._redisClient = c._redisClient.map fun server => if q.reply.acted then write server else server)
    (hwrite : ∀ server (found : K → Option V), (∀ k, server.get k = (found k).map fun v => (json.dumps v, ⊤)) →
      ∀ k, (write server).get k = (q.call.leaves k (found k)).map fun v => (json.dumps v, ⊤))
    (hcache : ∀ k, c'._localCache.get k = q.call.leaves k (standing k requests))
    (httl : ∀ k, c'._localTtl.get k = (q.call.leaves k (standing k requests)).map fun _ => ⊤) :
    Reflects json c' (requests ++ [q]) where
  server := by
    obtain ⟨server, hsome, hserver⟩ := h.server
    refine ⟨if q.reply.acted then write server else server, by rw [hc, hsome]; rfl, fun k => ?_⟩
    rw [standing_acted_concat]
    split
    · exact hwrite server _ hserver k
    · exact hserver k
  cache k := by rw [standing_concat, hcache]
  ttl k := by rw [standing_concat, httl]

theorem reflects_set (h : Reflects json c requests) (reply : Reply) (now : ℚ) (key : K) (value : V) :
    Reflects json (c.set json reply now key value none)
      (requests ++ [⟨.set key value, reply, now⟩]) := by
  apply h.write (fun server => server.set key (json.dumps value, ⊤)) rfl
  · intro server found hf k
    rw [Dict.get_set, hf]
    simp only [Call.leaves]
    split <;> rfl
  · intro k
    simp only [CacheService.set, Dict.get_set, h.cache, Call.leaves]
  · intro k
    simp only [CacheService.set, Dict.get_set, h.ttl, Call.leaves]
    split <;> rfl

theorem reflects_delete (h : Reflects json c requests) (reply : Reply) (now : ℚ) (key : K) :
    Reflects json (c.delete reply key) (requests ++ [⟨.delete key, reply, now⟩]) := by
  apply h.write (fun server => server.pop key) rfl
  · intro server found hf k
    rw [Dict.get_pop, hf]
    simp only [Call.leaves]
    split <;> rfl
  · intro k
    simp only [CacheService.delete, Dict.get_pop, h.cache, Call.leaves]
  · intro k
    simp only [CacheService.delete, Dict.get_pop, h.ttl, Call.leaves]
    split <;> rfl

theorem reflects_clear (h : Reflects json c requests) (reply : Reply) (now : ℚ) :
    Reflects json (c.clear reply) (requests ++ [⟨.clear, reply, now⟩]) :=
  h.write (fun _ => .empty) rfl (fun _ _ _ _ => rfl) (fun _ => rfl) fun _ => rfl

/-- A read leaves both stores as they are to a reader. -/
theorem reflects_get (h : Reflects json c requests) (reply : Reply) (now : ℚ) (key : K) :
    Reflects json (c.get json reply now key).2 (requests ++ [⟨.get key, reply, now⟩]) := by
  have hget := get_reflects h reply now key
  refine ⟨?_, fun k => ?_, fun k => ?_⟩
  · obtain ⟨server, hc, hserver⟩ := hget.server
    refine ⟨server, hc, fun k => ?_⟩
    rw [hserver, standing_acted_concat]
    exact congrArg _ (ite_self _).symm
  · rw [hget.cache, standing_concat]; rfl
  · rw [hget.ttl, standing_concat]; rfl

theorem reflects_run (json : Json V) (requests : List (Request K V)) :
    Reflects json (run (serve json) .new requests) requests := by
  induction requests using List.reverseRecOn with
  | nil => exact ⟨⟨.empty, rfl, fun _ => rfl⟩, fun _ => rfl, fun _ => rfl⟩
  | append_singleton requests q ih =>
    rw [run_concat]
    obtain ⟨call, reply, now⟩ := q
    cases call with
    | get key => exact reflects_get ih reply now key
    | set key value => exact reflects_set ih reply now key value
    | delete key => exact reflects_delete ih reply now key
    | clear => exact reflects_clear ih reply now

/-- A call that writes under `k` and did not reach the server. -/
def Request.misses (k : K) (q : Request K V) : Prop :=
  q.reply.acted = false ∧ ∃ found, q.call.leaves k found ≠ found

/-- As long as the server has carried out every write under `k`, it holds what stands. -/
theorem standing_acted_of_none_missed {k : K} (h : ∀ q ∈ requests, ¬ q.misses k) :
    standing k (acted requests) = standing k requests := by
  induction requests using List.reverseRecOn with
  | nil => rfl
  | append_singleton requests q ih =>
    have hq : ¬ q.misses k := h q (by simp)
    rw [standing_acted_concat, standing_concat, ih fun q' hq' => h q' (by simp [hq'])]
    split
    · rfl
    · next hacted =>
      by_contra hne
      exact hq ⟨by simpa using hacted, _, fun he => hne he.symm⟩

/-- Every `get` of a run answers what stands exactly when each that the server answers
comes when the server holds nothing under the key, or what stands. -/
theorem answers_standing_iff (json : Json V) (requests : List (Request K V)) :
    (∀ before key reply now, before ++ [⟨.get key, reply, now⟩] <+: requests →
      ((run (serve json) .new before).get json reply now key).1 = standing key before) ↔
    ∀ before key now, before ++ [⟨.get key, .returns, now⟩] <+: requests →
      standing key (acted before) = none ∨ standing key (acted before) = standing key before := by
  have hreturns : ∀ (before : List (Request K V)) key now,
      ((run (serve json) .new before).get json .returns now key).1 = standing key before ↔
        standing key (acted before) = none ∨ standing key (acted before) = standing key before := by
    intro before key now
    rw [get_returns (reflects_run json before)]
    cases standing key (acted before) <;> simp
  constructor
  · intro h before key now hp
    exact (hreturns before key now).mp (h before key .returns now hp)
  · intro h before key reply now hp
    cases reply with
    | returns => exact (hreturns before key now).mpr (h before key now hp)
    | raises b => exact get_raises (reflects_run json before) b now key

theorem loads_dumps_bool (b : Bool) :
    (match Protocol.loadsMessage .ascii (if b then [116, 114, 117, 101] else [102, 97, 108, 115, 101]) with
    | .ok (.bool b) => some b
    | _ => none) = some b := by
  revert b
  decide +kernel

/-- The JSON texts of the two booleans. -/
def jsonOfBool : Json Bool where
  dumps b := if b then [116, 114, 117, 101] else [102, 97, 108, 115, 101]
  loads text := match Protocol.loadsMessage .ascii text with
    | .ok (.bool b) => some b
    | _ => none
  loads_dumps := loads_dumps_bool
  dumps_ne_nil := by decide

/-- The second `set` does not reach the server, which then answers the value of the
first. -/
theorem failed_set_answered_older :
    let requests : List (Request String Bool) :=
      [⟨.set "balance" false, .returns, 0⟩, ⟨.set "balance" true, .raises false, 1⟩]
    ((run (serve jsonOfBool) .new requests).get jsonOfBool .returns 2 "balance").1 = some false ∧
      standing "balance" requests = some true := by
  decide +kernel

end CacheServices
