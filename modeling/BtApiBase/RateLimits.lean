import Mathlib.Data.Rat.Floor
import BtApiBase.ChargeLogs
import BtApiBase.PyValue
import BtApiBase.Runs

/-!
# The rate limiter

`RateLimiter` keeps one limiter for a rule name and asks the limiters of all
matching rules in turn; when one refuses, the weights already reserved are
released. Time is exact. `clock i` is the reading of the clock that the `i`-th
limiter operation of a call sees, so that a call may take any time.
-/

namespace RateLimits

open PyText PyDict PyValue ChargeLogs

/-! ## Rules -/

inductive RateLimitType where
  | slidingWindow | fixedWindow | tokenBucket
  deriving DecidableEq, Repr

inductive RateLimitScope where
  | global | endpoint | ip
  deriving DecidableEq, Repr

/-- An element of a glob pattern; a class holds ranges of code points. -/
inductive Glob where
  | star
  | any
  | char (c : PyChar)
  | cls (negated : Bool) (ranges : List (PyChar × PyChar))
  deriving DecidableEq, Repr

/-- The ranges between the brackets; a hyphen that stands first or last is an
ordinary character. -/
def globRanges : PyStr → List (PyChar × PyChar)
  | a :: h :: b :: rest =>
    if h = .scalar '-' then (a, b) :: globRanges rest else (a, a) :: globRanges (h :: b :: rest)
  | a :: rest => (a, a) :: globRanges rest
  | [] => []

/-- What follows `[`: the class up to its closing bracket and the rest. A closing
bracket that stands first belongs to the class. -/
def globClass (s : PyStr) : Option (Glob × PyStr) :=
  let negated := s.head? = some (.scalar '!')
  match if negated then s.tail else s with
  | [] => none
  | c :: rest =>
    match rest.span (· != .scalar ']') with
    | (_, []) => none
    | (body, _ :: rest) => some (.cls negated (globRanges (c :: body)), rest)

/-- `fnmatch.translate`; `n` bounds the elements of the pattern. -/
def translate : Nat → PyStr → List Glob
  | 0, _ | _, [] => []
  | n + 1, c :: rest =>
    if c = .scalar '*' then .star :: translate n rest
    else if c = .scalar '?' then .any :: translate n rest
    else if c = .scalar '[' then
      match globClass rest with
      | some (cls, rest) => cls :: translate n rest
      | none => .char c :: translate n rest
    else .char c :: translate n rest

def Glob.accepts : Glob → PyChar → Bool
  | .star, _ | .any, _ => true
  | .char d, c => c = d
  | .cls negated ranges, c =>
    ranges.any (fun r => r.1.code ≤ c.code && c.code ≤ r.2.code) != negated

def globMatch : List Glob → PyStr → Bool
  | [], s => s.isEmpty
  | .star :: gs, s => s.tails.any (globMatch gs)
  | _ :: _, [] => false
  | g :: gs, c :: s => g.accepts c && globMatch gs s

/-- `fnmatch.fnmatch` where `os.path.normcase` is the identity. -/
def fnmatch (name pat : PyStr) : Bool := globMatch (translate pat.length pat) name

example : fnmatch "/api/v3/order/test" "/api/v[!0-2]/order*" := by decide +kernel
example : ¬ fnmatch "/api/v2/order" "/api/v[!0-2]/order*" := by decide +kernel

structure RateLimitRule where
  name : PyStr
  type : RateLimitType
  interval : Int
  limit : Int
  scope : RateLimitScope := .global
  endpoint : Option PyStr := none
  weightMap : Option (Dict PyStr Int) := none
  weight : Int := 1

def RateLimitRule.«match» (rule : RateLimitRule) (_method path : PyStr) : Bool :=
  match rule.scope, rule.endpoint with
  | .global, _ => true
  | .endpoint, some pat => !pat.isEmpty && fnmatch path pat
  | _, _ => false

def RateLimitRule.getWeight (rule : RateLimitRule) (method path : PyStr) : Int :=
  match rule.weightMap with
  | none => rule.weight
  | some weightMap =>
    if weightMap.items.isEmpty then rule.weight
    else match weightMap.get (method ++ u " " ++ path) with
      | some w => w
      | none => (weightMap.get method).getD rule.weight

/-! ## Limiters -/

structure SlidingWindowLimiter where
  interval : Int
  limit : Int
  requests : List (Rat × Int) := []
  deriving DecidableEq

namespace SlidingWindowLimiter

def pruneExpired (l : SlidingWindowLimiter) (now : Rat) : SlidingWindowLimiter :=
  { l with requests := l.requests.dropWhile fun r => r.1 < now - l.interval }

def acquire (l : SlidingWindowLimiter) (now : Rat) (weight : Int) : Bool × SlidingWindowLimiter :=
  let l := l.pruneExpired now
  let currentWeight := (l.requests.map Prod.snd).sum
  if currentWeight + weight ≤ l.limit then
    (true, { l with requests := l.requests ++ [(now, weight)] })
  else (false, l)

def release (l : SlidingWindowLimiter) (now : Rat) (weight : Int) : SlidingWindowLimiter :=
  let l := l.pruneExpired now
  if l.requests.getLast?.map Prod.snd = some weight then
    { l with requests := l.requests.dropLast }
  else l

end SlidingWindowLimiter

structure FixedWindowLimiter where
  interval : Int
  limit : Int
  windowStart : Rat := 0
  windowCount : Int := 0
  deriving DecidableEq

/-- `int(now // interval) * interval` -/
def windowOf (interval : Int) (now : Rat) : Rat := ⌊now / interval⌋ * interval

namespace FixedWindowLimiter

/-- The window is reset when it is not the one of the reading. -/
def advance (l : FixedWindowLimiter) (now : Rat) : FixedWindowLimiter :=
  if windowOf l.interval now ≠ l.windowStart then
    { l with windowStart := windowOf l.interval now, windowCount := 0 }
  else l

def acquire (l : FixedWindowLimiter) (now : Rat) (weight : Int) : Bool × FixedWindowLimiter :=
  let l := l.advance now
  if l.windowCount + weight ≤ l.limit then
    (true, { l with windowCount := l.windowCount + weight })
  else (false, l)

def release (l : FixedWindowLimiter) (weight : Int) : FixedWindowLimiter :=
  { l with windowCount := max 0 (l.windowCount - weight) }

end FixedWindowLimiter

inductive Limiter where
  | sliding (l : SlidingWindowLimiter)
  | fixed (l : FixedWindowLimiter)
  deriving DecidableEq

namespace Limiter

def interval : Limiter → Int
  | sliding l => l.interval
  | fixed l => l.interval

def limit : Limiter → Int
  | sliding l => l.limit
  | fixed l => l.limit

/-- The division by the interval raises before the limiter is touched. -/
def acquire (limiter : Limiter) (now : Rat) (weight : Int) : Except ExcType (Bool × Limiter) :=
  match limiter with
  | sliding l => .ok ((l.acquire now weight).1, sliding (l.acquire now weight).2)
  | fixed l =>
    if l.interval = 0 then .error (.other "ZeroDivisionError")
    else .ok ((l.acquire now weight).1, fixed (l.acquire now weight).2)

def release (limiter : Limiter) (now : Rat) (weight : Int) : Limiter :=
  match limiter with
  | sliding l => sliding (l.release now weight)
  | fixed l => fixed (l.release weight)

end Limiter

/-! ## The rate limiter -/

structure RateLimiter where
  rules : List RateLimitRule
  limiters : Dict PyStr Limiter

/-- The limiter that a rule asks for; a token bucket gets none. -/
def RateLimitRule.limiter? (rule : RateLimitRule) : Option Limiter :=
  match rule.type with
  | .slidingWindow => some (.sliding ⟨rule.interval, rule.limit, []⟩)
  | .fixedWindow => some (.fixed ⟨rule.interval, rule.limit, 0, 0⟩)
  | .tokenBucket => none

def addLimiter (limiters : Dict PyStr Limiter) (rule : RateLimitRule) : Dict PyStr Limiter :=
  match rule.limiter? with
  | some limiter => limiters.set rule.name limiter
  | none => limiters

def RateLimiter.new (rules : List RateLimitRule) : RateLimiter where
  rules := rules
  limiters := rules.foldl addLimiter Dict.empty

/-- A call of `acquire` and the readings of the clock it sees. -/
structure Call where
  method : PyStr
  path : PyStr
  weight : Int
  clock : Nat → Rat

/-- A call without a path, at one time. -/
def callAt (method : String) (weight : Int) (time : Rat) : Call := ⟨u method, [], weight, fun _ => time⟩

/-- An entry of `acquired_limiters`, whose limiter stands under the rule's name,
with the time it was made. -/
abbrev Reservation := Charge PyStr Rat Int

/-- What a call answers: `True`, `False` or an exception; with the reservations
that it leaves behind. -/
inductive Reply where
  | admitted (acquired : List Reservation)
  | denied
  | raised (e : ExcType) (acquired : List Reservation)
  deriving DecidableEq, Repr

/-- The answer that the caller sees. -/
def Reply.answer : Reply → Except ExcType Bool
  | admitted _ => .ok true
  | denied => .ok false
  | raised e _ => .error e

def Reply.kept : Reply → List Reservation
  | admitted acquired | raised _ acquired => acquired
  | denied => []

def RateLimiter.getMatchedRules (r : RateLimiter) (method path : PyStr) : List RateLimitRule :=
  r.rules.filter fun rule => rule.match method path

def RateLimitRule.requestWeight (rule : RateLimitRule) (c : Call) : Int :=
  rule.getWeight c.method c.path * c.weight

def RateLimitRule.reservation (rule : RateLimitRule) (c : Call) (i : Nat) : Reservation :=
  ⟨rule.name, c.clock i, rule.requestWeight c⟩

/-- The loop over `reversed(acquired_limiters)`. -/
def releaseAll (clock : Nat → Rat) : Nat → List Reservation → Dict PyStr Limiter → Dict PyStr Limiter
  | _, [], limiters => limiters
  | i, a :: rest, limiters =>
    match limiters.get a.account with
    | some limiter =>
      releaseAll clock (i + 1) rest (limiters.set a.account (limiter.release (clock i) a.weight))
    | none => releaseAll clock (i + 1) rest limiters

/-- The loop over `matched_rules`. -/
def acquireAll (c : Call) :
    Nat → List RateLimitRule → List Reservation → Dict PyStr Limiter → Reply × Dict PyStr Limiter
  | _, [], acquired, limiters => (.admitted acquired, limiters)
  | i, rule :: rest, acquired, limiters =>
    match limiters.get rule.name with
    | none => acquireAll c i rest acquired limiters
    | some limiter =>
      match limiter.acquire (c.clock i) (rule.requestWeight c) with
      | .ok (true, limiter) =>
        acquireAll c (i + 1) rest (acquired ++ [rule.reservation c i]) (limiters.set rule.name limiter)
      | .ok (false, limiter) =>
        (.denied, releaseAll c.clock (i + 1) acquired.reverse (limiters.set rule.name limiter))
      | .error e => (.raised e acquired, limiters)

def RateLimiter.acquire (r : RateLimiter) (c : Call) : Reply × RateLimiter :=
  if r.rules.isEmpty then (.admitted [], r)
  else
    let matchedRules := r.getMatchedRules c.method c.path
    if matchedRules.isEmpty then (.admitted [], r)
    else
      let out := acquireAll c 0 matchedRules [] r.limiters
      (out.1, { r with limiters := out.2 })

def RateLimiter.after (r : RateLimiter) (c : Call) : RateLimiter := (r.acquire c).2

/-- What the calls of a run answer, in order. -/
def RateLimiter.replies (r : RateLimiter) (calls : List Call) : List Reply :=
  Runs.log RateLimiter.after (fun r c => [(r.acquire c).1]) r calls

/-- The clock does not go back, within a call or from one call to the next. -/
def Ordered (calls : List Call) : Prop :=
  (∀ c ∈ calls, Monotone c.clock) ∧ calls.Pairwise fun c d => ∀ i j, c.clock i ≤ d.clock j

end RateLimits
