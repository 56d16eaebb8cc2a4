import BtApiBase.HttpRetries
import BtApiBase.PyControl

/-!
# The attempts of a request

The loop of `http_request` over any outcomes of the client. An attempt ends the
loop or goes on after a pause. The status codes 404 and 410 end it as they should,
and so does a text in which one of these numbers occurs, be it of an id or a URL.
-/

namespace HttpAttempts

open PyText PyDict PyValue Redaction Effects HttpRetries PyControl

/-- How the loop ends; without an attempt it just runs out. -/
inductive Ending where
  | returned (body : PyVal)
  | gone
  | raised (e : HttpError)
  | nothing

structure Run where
  made : Nat
  ending : Ending

variable (feed : Feed) (request : Request)

/-- What a pause comes to; it does not depend on the answers to come. -/
def pause (attempt : Nat) (e : HttpError) : Except HttpError Unit :=
  (exec (retryBackoff feed attempt e) ⟨Stream'.const (.error (.timeout [])), []⟩).1

def goneError : HttpError :=
  requestError feed.exchangeName (u "endpoint gone/not found: " ++ feed.env.sanitizeUrl request.url)

/-- The status of the failure is 404 or 410. -/
def GoneStatus (e : HttpError) : Prop :=
  e.cls = .requestFailed ∧ (e.statusCode = some 404 ∨ e.statusCode = some 410)

/-- The text has one of the numbers. -/
def NumberInText (e : HttpError) : Prop := u "404" <:+: e.text ∨ u "410" <:+: e.text

instance (e : HttpError) : Decidable (GoneStatus e) := inferInstanceAs (Decidable (_ ∧ _))
instance (e : HttpError) : Decidable (NumberInText e) := inferInstanceAs (Decidable (_ ∨ _))

variable (maxRetries : Nat) (outcome : Nat → Except HttpError PyVal)

/-- The body of the loop; `none` goes on to the next attempt. -/
def attemptOnce (attempt : Nat) : Option Ending :=
  match outcome attempt with
  | .ok body => some (.returned body)
  | .error e =>
    if GoneStatus e ∨ (e.cls = .requestFailed ∧ NumberInText e) then some .gone
    else if attempt + 1 < maxRetries then
      match pause feed attempt e with
      | .ok () => none
      | .error raised => some (.raised raised)
    else if e.cls = .requestFailed ∧ u "timeout" <:+: feed.env.py.lower e.text then
      some (.raised (requestTimeoutError feed.env feed.exchangeName request.timeout))
    else some (.raised e)

def attempts : Run :=
  let run := loop (attemptOnce feed request maxRetries outcome) (List.range maxRetries)
  ⟨run.1, run.2.getD .nothing⟩

def Ending.result : Ending → Except HttpError PyVal
  | .returned body => .ok body
  | .gone => .error (goneError feed request)
  | .raised e => .error e
  | .nothing => .ok .none

/-! ## The loop of `http_request` -/

variable {feed request}

theorem exec_sleep_answers (feed : Feed) (duration : PyFloat) (w w' : World) :
    (exec (sleep feed duration) w).1 = (exec (sleep feed duration) w').1 ∧
      (exec (sleep feed duration) w).2.answers = w.answers := by
  cases duration with
  | nan => exact ⟨rfl, rfl⟩
  | inf negative => exact ⟨rfl, rfl⟩
  | negZero => exact ⟨rfl, rfl⟩
  | finite q =>
    by_cases hlong : feed.env.longest < |q|
    · simp only [sleep, if_pos hlong]
      exact ⟨rfl, rfl⟩
    · by_cases hneg : q < 0
      · simp only [sleep, if_neg hlong, if_pos hneg]
        exact ⟨rfl, rfl⟩
      · simp only [sleep, if_neg hlong, if_neg hneg]
        exact ⟨rfl, rfl⟩

theorem exec_sleepBackoff_answers (feed : Feed) (attempt : Nat) (w w' : World) :
    (exec (sleepBackoff feed attempt) w).1 = (exec (sleepBackoff feed attempt) w').1 ∧
      (exec (sleepBackoff feed attempt) w).2.answers = w.answers := by
  unfold sleepBackoff
  split
  · exact exec_sleep_answers feed _ w w'
  · exact ⟨rfl, rfl⟩

theorem exec_retryBackoff_answers (feed : Feed) (attempt : Nat) (e : HttpError) (w w' : World) :
    (exec (retryBackoff feed attempt e) w).1 = (exec (retryBackoff feed attempt e) w').1 ∧
      (exec (retryBackoff feed attempt e) w).2.answers = w.answers := by
  unfold retryBackoff
  split
  · exact exec_sleepBackoff_answers feed attempt w w'
  · next retryAfter _ =>
    obtain ⟨hresult, hanswers⟩ := exec_sleep_answers feed retryAfter w w'
    rw [exec_tryCatch, exec_tryCatch]
    cases hw : exec (sleep feed retryAfter) w with
    | mk result s =>
      cases hw' : exec (sleep feed retryAfter) w' with
      | mk result' s' =>
        rw [hw, hw'] at hresult
        rw [hw] at hanswers
        obtain rfl : result = result' := hresult
        cases result with
        | ok a => exact ⟨rfl, hanswers⟩
        | error raised =>
          dsimp only
          split
          · have hbackoff := exec_sleepBackoff_answers feed attempt s s'
            exact ⟨hbackoff.1, hbackoff.2.trans hanswers⟩
          · exact ⟨rfl, hanswers⟩

/-- What the client makes of an answer. -/
def clientOutcome (feed : Feed) (headers : List (PyStr × PyStr)) :
    Except Failure Response → Except HttpError PyVal
  | .error failure => .error (failureError feed headers failure)
  | .ok response => processResponse feed response

theorem exec_clientRequest_any (headers : List (PyStr × PyStr)) (answers : Stream' (Except Failure Response))
    (slept : List PyFloat) : exec (clientRequest feed headers) ⟨answers, slept⟩ =
      (clientOutcome feed headers answers.head, ⟨answers.tail, slept⟩) := by
  simp only [clientRequest, exec_get_bind, exec_modify_bind]
  cases answers.head with
  | error failure => rfl
  | ok response => exact exec_ofExcept _ _

variable {maxRetries : Nat} {outcome : Nat → Except HttpError PyVal}

/-- The attempts of `http_request` that are left are those of the loop. -/
theorem exec_attempts (feed : Feed) (request : Request) (outcome : Nat → Except HttpError PyVal)
    (first left : Nat) (hmax : first + left = maxRetries)
    (answers : Stream' (Except Failure Response)) (slept : List PyFloat)
    (hout : ∀ k, outcome (first + k) = clientOutcome feed request.headers (answers.get k)) :
    let run := loop (attemptOnce feed request maxRetries outcome) (List.range' first left)
    let done := exec (HttpRetries.attempts feed request maxRetries (List.range' first left)) ⟨answers, slept⟩
    done.1 = (run.2.getD .nothing).result feed request ∧ done.2.answers = answers.drop run.1 := by
  induction left generalizing first answers slept with
  | zero => exact ⟨rfl, rfl⟩
  | succ left ih =>
    have hhead : outcome first = clientOutcome feed request.headers answers.head := hout 0
    rw [List.range'_succ]
    simp only [HttpRetries.attempts, exec_tryCatch, exec_clientRequest_any, ← hhead, loop]
    cases hfirst : outcome first with
    | ok body =>
      simp only [attemptOnce, hfirst]
      exact ⟨rfl, rfl⟩
    | error e =>
      have hgone : (e.cls = .requestFailed ∧ (e.statusCode = some 404 ∨ e.statusCode = some 410 ∨
          u "404" <:+: e.text ∨ u "410" <:+: e.text)) ↔
          GoneStatus e ∨ (e.cls = .requestFailed ∧ NumberInText e) := by
        unfold GoneStatus NumberInText
        tauto
      have hlast : (first : Int) < maxRetries - 1 ↔ first + 1 < maxRetries := by omega
      simp only [hgone, hlast, attemptOnce, hfirst]
      by_cases hg : GoneStatus e ∨ (e.cls = .requestFailed ∧ NumberInText e)
      · simp only [if_pos hg]
        exact ⟨rfl, rfl⟩
      · by_cases hl : first + 1 < maxRetries
        · simp only [if_neg hg, if_pos hl, exec_bind]
          have hpause := exec_retryBackoff_answers feed first e ⟨answers.tail, slept⟩
            ⟨Stream'.const (.error (.timeout [])), []⟩
          have hp : (exec (retryBackoff feed first e) ⟨answers.tail, slept⟩).1 = pause feed first e := hpause.1
          cases hw : exec (retryBackoff feed first e) ⟨answers.tail, slept⟩ with
          | mk result w =>
            rw [hw] at hp
            have hanswers : w.answers = answers.tail := by
              have h := hpause.2
              rwa [hw] at h
            cases result with
            | error raised =>
              simp only [← hp]
              exact ⟨rfl, hanswers⟩
            | ok a =>
              simp only [← hp]
              have hrest := ih (first + 1) (by omega) w.answers w.slept (by
                intro k
                rw [hanswers, show first + 1 + k = first + (k + 1) by omega, hout (k + 1)]
                rfl)
              refine ⟨hrest.1, ?_⟩
              rw [hrest.2, hanswers]
              rfl
        · simp only [if_neg hg, if_neg hl]
          split
          · exact ⟨rfl, rfl⟩
          · exact ⟨rfl, rfl⟩

/-- `http_request` makes the attempts of the loop, one for each answer that it takes. -/
theorem exec_httpRequest (feed : Feed) (request : Request) (maxRetries : Nat)
    (answers : Stream' (Except Failure Response)) (slept : List PyFloat) :
    let run := attempts feed request maxRetries fun k => clientOutcome feed request.headers (answers.get k)
    (exec (httpRequest feed request maxRetries) ⟨answers, slept⟩).1 = run.ending.result feed request ∧
      (exec (httpRequest feed request maxRetries) ⟨answers, slept⟩).2.answers = answers.drop run.made := by
  have h := exec_attempts feed request (fun k => clientOutcome feed request.headers (answers.get k)) 0 maxRetries
    (Nat.zero_add _) answers slept fun k => by rw [Nat.zero_add]
  rw [← List.range_eq_range'] at h
  exact h

/-! ## What the loop promises -/

/-- The attempt fails with status code 404 or 410. -/
def Gone (outcome : Nat → Except HttpError PyVal) (k : Nat) : Prop :=
  ∃ e, outcome k = .error e ∧ GoneStatus e

/-- The attempt succeeds, and none before it succeeds or fails with 404 or 410. -/
def FirstSuccess (outcome : Nat → Except HttpError PyVal) (k : Nat) (body : PyVal) : Prop :=
  outcome k = .ok body ∧ ∀ j < k, ¬ Gone outcome j ∧ ∀ other, outcome j ≠ .ok other

/-- At most so many attempts are made; the first success is returned, and nothing else is;
the endpoint counts as gone when an attempt that was made fails with 404 or 410. -/
structure Promised (maxRetries : Nat) (outcome : Nat → Except HttpError PyVal) (run : Run) : Prop where
  bounded : run.made ≤ maxRetries
  success : ∀ k < maxRetries, ∀ body, FirstSuccess outcome k body → run = ⟨k + 1, .returned body⟩
  returned : ∀ body, run.ending = .returned body → ∃ k < run.made, outcome k = .ok body
  raises : run.ending ≠ .nothing
  gone : run.ending = .gone ↔ ∃ k < run.made, Gone outcome k

/-- A failed request whose status is another one, with one of the numbers in its text. -/
def Mistaken (outcome : Nat → Except HttpError PyVal) (k : Nat) : Prop :=
  ∃ e, outcome k = .error e ∧ ¬ GoneStatus e ∧ e.cls = .requestFailed ∧ NumberInText e

/-- The pause after the failure raises, because it is longer than `time.sleep` takes. -/
def PauseRaises (feed : Feed) (outcome : Nat → Except HttpError PyVal) (k : Nat) : Prop :=
  ∃ e raised, outcome k = .error e ∧ pause feed k e = .error raised

/-- After the failure the next attempt is made. -/
def GoesOn (feed : Feed) (outcome : Nat → Except HttpError PyVal) (k : Nat) : Prop :=
  (∃ e, outcome k = .error e) ∧ ¬ Gone outcome k ∧ ¬ Mistaken outcome k ∧ ¬ PauseRaises feed outcome k

/-- There is an attempt, and each one that is made neither has one of the numbers in its
text alone nor a pause that raises before the first success. -/
structure Tellable (feed : Feed) (maxRetries : Nat) (outcome : Nat → Except HttpError PyVal) : Prop where
  attempted : 0 < maxRetries
  told : ∀ k < maxRetries, (∀ j < k, GoesOn feed outcome j) → ¬ Mistaken outcome k
  paused : ∀ k < maxRetries, (∀ j < k, GoesOn feed outcome j) → PauseRaises feed outcome k →
    ∀ later body, k < later → later < maxRetries → ¬ FirstSuccess outcome later body

theorem attemptOnce_ok {k : Nat} {body : PyVal} (h : outcome k = .ok body) :
    attemptOnce feed request maxRetries outcome k = some (.returned body) := by
  simp only [attemptOnce, h]

theorem attemptOnce_gone {k : Nat} (h : Gone outcome k ∨ Mistaken outcome k) :
    attemptOnce feed request maxRetries outcome k = some .gone := by
  rcases h with ⟨e, he, hstatus⟩ | ⟨e, he, -, hcls, htext⟩
  · simp only [attemptOnce, he, if_pos (Or.inl hstatus)]
  · have hnumber : GoneStatus e ∨ (e.cls = .requestFailed ∧ NumberInText e) := .inr ⟨hcls, htext⟩
    simp only [attemptOnce, he, if_pos hnumber]

/-- A failure that is no sign of a missing endpoint leads on, or is raised. -/
theorem attemptOnce_error (feed : Feed) (request : Request) (maxRetries : Nat) {k : Nat} {e : HttpError}
    (h : outcome k = .error e) (hg : ¬ Gone outcome k) (hm : ¬ Mistaken outcome k) :
    (attemptOnce feed request maxRetries outcome k = none ∧ k + 1 < maxRetries ∧
        ¬ PauseRaises feed outcome k) ∨
      ∃ raised, attemptOnce feed request maxRetries outcome k = some (.raised raised) ∧
        (k + 1 < maxRetries → PauseRaises feed outcome k) := by
  have hnot : ¬ (GoneStatus e ∨ (e.cls = .requestFailed ∧ NumberInText e)) := by
    rintro (hstatus | ⟨hcls, htext⟩)
    · exact hg ⟨e, h, hstatus⟩
    · exact hm ⟨e, h, fun hstatus => hg ⟨e, h, hstatus⟩, hcls, htext⟩
  by_cases hl : k + 1 < maxRetries
  · cases hp : pause feed k e with
    | ok a =>
      left
      refine ⟨by simp only [attemptOnce, h, if_neg hnot, if_pos hl, hp], hl, ?_⟩
      rintro ⟨e', raised, he', hraised⟩
      rw [h] at he'
      cases he'
      rw [hp] at hraised
      cases hraised
    | error raised =>
      right
      refine ⟨raised, by simp only [attemptOnce, h, if_neg hnot, if_pos hl, hp], ?_⟩
      intro _
      exact ⟨e, raised, h, hp⟩
  · right
    by_cases ht : e.cls = .requestFailed ∧ u "timeout" <:+: feed.env.py.lower e.text
    · exact ⟨requestTimeoutError feed.env feed.exchangeName request.timeout,
        by simp only [attemptOnce, h, if_neg hnot, if_neg hl, if_pos ht], fun hk => absurd hk hl⟩
    · exact ⟨e, by simp only [attemptOnce, h, if_neg hnot, if_neg hl, if_neg ht], fun hk => absurd hk hl⟩

theorem goesOn_of_attemptOnce {k : Nat} (h : attemptOnce feed request maxRetries outcome k = none) :
    GoesOn feed outcome k ∧ k + 1 < maxRetries := by
  have hg : ¬ Gone outcome k := by
    intro hg
    rw [attemptOnce_gone (.inl hg)] at h
    cases h
  have hm : ¬ Mistaken outcome k := by
    intro hm
    rw [attemptOnce_gone (.inr hm)] at h
    cases h
  cases hout : outcome k with
  | ok body =>
    rw [attemptOnce_ok hout] at h
    cases h
  | error e =>
    rcases attemptOnce_error feed request maxRetries hout hg hm with
      ⟨-, hl, hp⟩ | ⟨raised, hraised, -⟩
    · exact ⟨⟨⟨e, hout⟩, hg, hm, hp⟩, hl⟩
    · rw [hraised] at h
      cases h

theorem attemptOnce_of_goesOn (request : Request) {k : Nat} (h : GoesOn feed outcome k) (hl : k + 1 < maxRetries) :
    attemptOnce feed request maxRetries outcome k = none := by
  obtain ⟨⟨e, he⟩, hg, hm, hp⟩ := h
  rcases attemptOnce_error feed request maxRetries he hg hm with
    ⟨hnone, -⟩ | ⟨raised, -, hraises⟩
  · exact hnone
  · exact absurd (hraises hl) hp

/-- The last attempt does not go on. -/
theorem ends_of_attempted (feed : Feed) (request : Request) (outcome : Nat → Except HttpError PyVal)
    (h : 0 < maxRetries) :
    ∃ k ending, EndsAt (attemptOnce feed request maxRetries outcome) maxRetries k ending := by
  refine (runs_out_or_ends _ maxRetries).resolve_left ?_
  intro hnone
  obtain ⟨-, hl⟩ := goesOn_of_attemptOnce (hnone (maxRetries - 1) (by omega))
  omega

section

variable {k : Nat} {ending : Ending} (h : EndsAt (attemptOnce feed request maxRetries outcome) maxRetries k ending)
include h

theorem attempts_of_ends : attempts feed request maxRetries outcome = ⟨k + 1, ending⟩ := by
  rw [attempts, h.loop_eq]
  rfl

theorem goesOn_before : ∀ j < k, GoesOn feed outcome j :=
  fun j hj => (goesOn_of_attemptOnce (h.before j hj)).1

/-- The attempts that are reached are those up to the one that ends the loop. -/
theorem reached_iff {j : Nat} (hj : j < maxRetries) : (∀ i < j, GoesOn feed outcome i) ↔ j ≤ k := by
  constructor
  · intro hall
    by_contra hlt
    have hnone := attemptOnce_of_goesOn request (hall k (by omega)) (by omega : k + 1 < maxRetries)
    rw [h.ending] at hnone
    cases hnone
  · intro hle i hi
    exact goesOn_before h i (by omega)

theorem firstSuccess_at {j : Nat} {body : PyVal} (hj : FirstSuccess outcome j body) : k ≤ j := by
  by_contra hlt
  obtain ⟨⟨e, he⟩, -⟩ := goesOn_before h j (by omega)
  rw [hj.1] at he
  cases he

theorem not_gone_before {j : Nat} (hj : j < k) : ¬ Gone outcome j := (goesOn_before h j hj).2.1

theorem exists_gone_iff : (∃ j < k + 1, Gone outcome j) ↔ Gone outcome k := by
  constructor
  · rintro ⟨j, hj, hg⟩
    obtain rfl : j = k := by
      by_contra hne
      exact not_gone_before h (by omega) hg
    exact hg
  · intro hg
    exact ⟨k, Nat.lt_succ_self k, hg⟩

/-- Before the last attempt the loop goes on, so that the condition speaks of the last one. -/
theorem tellable_iff : Tellable feed maxRetries outcome ↔ ¬ Mistaken outcome k ∧
    (PauseRaises feed outcome k →
      ∀ later body, k < later → later < maxRetries → ¬ FirstSuccess outcome later body) := by
  constructor
  · intro ht
    exact ⟨ht.told k h.lt (goesOn_before h), ht.paused k h.lt (goesOn_before h)⟩
  · rintro ⟨hm, hp⟩
    have hlast : ∀ j < maxRetries, (∀ i < j, GoesOn feed outcome i) → ¬ GoesOn feed outcome j → j = k := by
      intro j hj hall hstop
      have hle := (reached_iff h hj).mp hall
      by_contra hne
      exact hstop (goesOn_before h j (by omega))
    refine ⟨by have := h.lt; omega, ?_, ?_⟩
    · intro j hj hall hmistaken
      obtain rfl := hlast j hj hall fun hon => hon.2.2.1 hmistaken
      exact hm hmistaken
    · intro j hj hall hraises
      obtain rfl := hlast j hj hall fun hon => hon.2.2.2 hraises
      exact hp hraises

theorem promised_returned {body : PyVal} (hout : outcome k = .ok body) :
    Promised maxRetries outcome ⟨k + 1, .returned body⟩ where
  bounded := h.lt
  success j hj other hfirst := by
    have hle := firstSuccess_at h hfirst
    obtain rfl : j = k := by
      by_contra hne
      exact (hfirst.2 k (by omega)).2 body hout
    obtain rfl := Except.ok.inj (hout.symm.trans hfirst.1)
    rfl
  returned other hother := by
    cases hother
    exact ⟨k, Nat.lt_succ_self k, hout⟩
  raises hnothing := by cases hnothing
  gone := by
    rw [exists_gone_iff h]
    constructor
    · intro hending
      cases hending
    · rintro ⟨e, he, -⟩
      rw [hout] at he
      cases he

theorem promised_gone (hg : Gone outcome k) : Promised maxRetries outcome ⟨k + 1, .gone⟩ where
  bounded := h.lt
  success j hj body hfirst := by
    have hle := firstSuccess_at h hfirst
    by_cases hjk : j = k
    · subst hjk
      obtain ⟨e, he, -⟩ := hg
      rw [hfirst.1] at he
      cases he
    · exact absurd hg (hfirst.2 k (by omega)).1
  returned other hother := by cases hother
  raises hnothing := by cases hnothing
  gone := by
    rw [exists_gone_iff h]
    exact iff_of_true rfl hg

/-- An exception ends the loop as promised when no later attempt would have been the
first success. -/
theorem promised_raised_iff {e raised : HttpError} (hout : outcome k = .error e) (hg : ¬ Gone outcome k) :
    Promised maxRetries outcome ⟨k + 1, .raised raised⟩ ↔
      ∀ later body, k < later → later < maxRetries → ¬ FirstSuccess outcome later body := by
  constructor
  · intro hp later body _ hlater hfirst
    cases hp.success later hlater body hfirst
  · intro hnone
    refine ⟨h.lt, ?_, ?_, ?_, ?_⟩
    · intro j hj body hfirst
      have hle := firstSuccess_at h hfirst
      by_cases hjk : j = k
      · subst hjk
        have hok := hfirst.1
        rw [hout] at hok
        cases hok
      · exact absurd hfirst (hnone j body (by omega) hj)
    · intro body hbody
      cases hbody
    · intro hnothing
      cases hnothing
    · rw [exists_gone_iff h]
      refine iff_of_false ?_ hg
      intro hending
      cases hending

theorem promised_iff_of_ends :
    Promised maxRetries outcome ⟨k + 1, ending⟩ ↔ Tellable feed maxRetries outcome := by
  rw [tellable_iff h]
  have hending := h.ending
  cases hout : outcome k with
  | ok body =>
    rw [attemptOnce_ok hout] at hending
    cases hending
    refine iff_of_true (promised_returned h hout) ⟨?_, ?_⟩
    · rintro ⟨e, he, -⟩
      rw [hout] at he
      cases he
    · rintro ⟨e, raised, he, -⟩
      rw [hout] at he
      cases he
  | error e =>
    by_cases hg : Gone outcome k
    · rw [attemptOnce_gone (.inl hg)] at hending
      cases hending
      refine iff_of_true (promised_gone h hg) ⟨?_, ?_⟩
      · rintro ⟨e', he', hstatus, -⟩
        obtain ⟨e'', he'', hgone⟩ := hg
        rw [he'] at he''
        cases he''
        exact hstatus hgone
      · intro _ later body hlt _ hfirst
        exact (hfirst.2 k hlt).1 hg
    · by_cases hm : Mistaken outcome k
      · rw [attemptOnce_gone (.inr hm)] at hending
        cases hending
        refine iff_of_false ?_ fun hnot => hnot.1 hm
        intro hp
        exact hg ((exists_gone_iff h).mp (hp.gone.mp rfl))
      · rcases attemptOnce_error feed request maxRetries hout hg hm with
          ⟨hnone, -⟩ | ⟨raised, hraised, hpause⟩
        · rw [hnone] at hending
          cases hending
        · rw [hraised] at hending
          cases hending
          rw [promised_raised_iff h hout hg]
          constructor
          · intro hall
            exact ⟨hm, fun _ => hall⟩
          · rintro ⟨-, hall⟩ later body hlt hlater
            exact hall (hpause (by omega)) later body hlt hlater

end

/-- The loop does what it promises exactly when it makes an attempt, no text of a failure
that it comes to has one of the numbers without the status, and no pause raises before the
first success. -/
theorem promised_iff_tellable (feed : Feed) (request : Request) (maxRetries : Nat)
    (outcome : Nat → Except HttpError PyVal) :
    Promised maxRetries outcome (attempts feed request maxRetries outcome) ↔
      Tellable feed maxRetries outcome := by
  cases maxRetries with
  | zero =>
    refine iff_of_false ?_ ?_
    · intro hp
      exact hp.raises rfl
    · intro ht
      exact absurd ht.attempted (Nat.lt_irrefl 0)
  | succ n =>
    obtain ⟨k, ending, h⟩ := ends_of_attempted feed request outcome (Nat.succ_pos n)
    rw [attempts_of_ends h]
    exact promised_iff_of_ends h

/-- A server error whose text quotes an order id, and then a result. -/
def quoted : Nat → Except HttpError PyVal
  | 0 => .error (requestFailedError (u "TEST") (u "order 94041 is locked") (some 500))
  | _ => .ok (.dict [])

/-- The number is in the order id. -/
theorem given_up_for_an_id :
    ¬ Promised 3 quoted (attempts exampleFeed ⟨u "https://example.com", [], .int 10⟩ 3 quoted) := by
  intro hp
  have hgone : (attempts exampleFeed ⟨u "https://example.com", [], .int 10⟩ 3 quoted).made = 1 := by
    decide +kernel
  have hfirst : FirstSuccess quoted 1 (.dict []) := by
    refine ⟨rfl, ?_⟩
    intro j hj
    obtain rfl : j = 0 := by omega
    constructor
    · rintro ⟨e, he, -, hstatus⟩
      cases he
      revert hstatus
      decide +kernel
    · intro other hother
      cases hother
  have hrun := hp.success 1 (by omega) (.dict []) hfirst
  rw [hrun] at hgone
  cases hgone

end HttpAttempts
