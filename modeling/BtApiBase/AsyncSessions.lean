import Mathlib.Data.Finset.Card
import BtApiBase.OnDemand
import BtApiBase.PyText
import BtApiBase.Runs

/-!
# TLS of the asynchronous sessions

The constructor resolves one TLS context from its options and keeps it; a context is an object
that others may hold and change. Every session is made with the kept context, which is
verified again at that moment. The session is closed by a coroutine that `close` submits.
-/

namespace AsyncSessions

open PyText OnDemand Runs

inductive VerifyMode where
  | none | optional | required
  deriving DecidableEq, Repr

/-- `SSLContext` -/
structure Context where
  checkHostname : Bool
  verifyMode : VerifyMode
  deriving DecidableEq, Repr

def Context.Verified (x : Context) : Prop := x.checkHostname = true ∧ x.verifyMode = .required

instance (x : Context) : Decidable x.Verified := inferInstanceAs (Decidable (_ ∧ _))

/-- The contexts by identity. -/
structure Heap where
  contexts : Nat → Context
  next : Nat

/-- `ssl.create_default_context()` -/
def createDefaultContext (heap : Heap) : Nat × Heap :=
  (heap.next, ⟨Function.update heap.contexts heap.next ⟨true, .required⟩, heap.next + 1⟩)

/-- The value of an option; `other` is any object that is not `None`, a Boolean or a context. -/
inductive Value where
  | none | bool (b : Bool) | context (ref : Nat) | other
  deriving DecidableEq, Repr

def Value.context? : Value → Option Nat
  | .context ref => some ref
  | _ => Option.none

/-- The options that are read, where they are given. -/
structure Options where
  verifySsl : Option Value := none
  sslVerify : Option Value := none
  ssl : Option Value := none
  asyncSsl : Option Value := none
  sslContext : Option Value := none
  deriving DecidableEq, Repr

def Options.switches (o : Options) : List (PyStr × Value) :=
  (o.verifySsl.map (u "verify_ssl", ·)).toList ++ (o.sslVerify.map (u "ssl_verify", ·)).toList

def Options.configured (o : Options) : List Value :=
  o.ssl.toList ++ o.asyncSsl.toList ++ o.sslContext.toList

/-- The message of the `ConfigurationError`, or the context. -/
def _requireVerifiedSslContext (heap : Heap) (ref : Nat) : Except PyStr Nat :=
  if (heap.contexts ref).Verified then .ok ref
  else .error (u "TLS context must enable hostname checks and require certificate validation")

def unsupported : Value → Bool
  | .none | .bool true | .context _ => false
  | _ => true

def Options.contexts (o : Options) : List Nat := o.configured.filterMap Value.context?

/-- The context given, or a new one. -/
def chosen (heap : Heap) (o : Options) : Nat × Heap := match o.contexts.head? with
  | some ref => (ref, heap)
  | none => createDefaultContext heap

def _resolveSslContext (heap : Heap) (o : Options) : Except PyStr (Nat × Heap) :=
  match o.switches.find? fun p => p.2 ≠ .bool true with
  | some (key, _) => .error (key ++ u " cannot disable TLS certificate verification")
  | none =>
    if .bool false ∈ o.configured then
      .error (u "TLS certificate verification cannot be disabled")
    else if 1 < o.contexts.toFinset.card then
      .error (u "Conflicting TLS contexts were provided")
    else if o.configured.any unsupported then
      .error (u "TLS configuration must be True or a verified SSLContext")
    else
      let (ref, heap) := chosen heap o
      (_requireVerifiedSslContext heap ref).map (·, heap)

/-- What the options must be. -/
structure Accepts (heap : Heap) (o : Options) : Prop where
  switches : ∀ p ∈ o.switches, p.2 = .bool true
  configured : ∀ v ∈ o.configured, v = .none ∨ v = .bool true ∨ ∃ ref, v = .context ref
  verified : ∀ ref, .context ref ∈ o.configured → (heap.contexts ref).Verified
  same : ∀ ref other, .context ref ∈ o.configured → .context other ∈ o.configured → ref = other

/-! ## Which options are accepted -/

theorem verified_default (heap : Heap) :
    ((createDefaultContext heap).2.contexts (createDefaultContext heap).1).Verified := by
  simp [createDefaultContext, Context.Verified]

theorem mem_contexts {o : Options} {ref : Nat} :
    ref ∈ o.contexts ↔ .context ref ∈ o.configured := by
  unfold Options.contexts
  rw [List.mem_filterMap]
  constructor
  · rintro ⟨v, hv, href⟩
    cases v with
    | context _ =>
      obtain rfl := Option.some.inj href
      exact hv
    | none | bool _ | other => cases href
  · exact fun h => ⟨_, h, rfl⟩

theorem unsupported_iff (v : Value) :
    unsupported v = false ↔ v = .none ∨ v = .bool true ∨ ∃ ref, v = .context ref := by
  cases v with
  | none | context _ | other => simp [unsupported]
  | bool b => cases b <;> simp [unsupported]

theorem requireVerified_eq_ok {heap : Heap} {ref ref' : Nat} :
    _requireVerifiedSslContext heap ref = .ok ref' ↔ (heap.contexts ref).Verified ∧ ref = ref' := by
  unfold _requireVerifiedSslContext
  split
  · next hv => simp [hv]
  · next hv => simp [hv]

/-- The four checks before the context is verified. -/
theorem resolve_eq_ok {heap : Heap} {o : Options} {r : Nat × Heap} :
    _resolveSslContext heap o = .ok r ↔
      (∀ p ∈ o.switches, p.2 = .bool true) ∧ .bool false ∉ o.configured ∧
      (∀ ref ∈ o.contexts, ∀ other ∈ o.contexts, ref = other) ∧
      (∀ v ∈ o.configured, unsupported v = false) ∧
      ((chosen heap o).2.contexts (chosen heap o).1).Verified ∧ r = chosen heap o := by
  have hswitch : (o.switches.find? fun p => p.2 ≠ .bool true) = none ↔
      ∀ p ∈ o.switches, p.2 = .bool true := by simp
  have hcard : ¬ 1 < o.contexts.toFinset.card ↔
      ∀ ref ∈ o.contexts, ∀ other ∈ o.contexts, ref = other := by
    rw [not_lt, Finset.card_le_one]
    simp
  have hany : ¬ o.configured.any unsupported = true ↔ ∀ v ∈ o.configured, unsupported v = false := by
    simp
  unfold _resolveSslContext
  split
  · next h =>
    refine iff_of_false (by simp) fun hr => ?_
    have hnone := hswitch.mpr hr.1
    rw [h] at hnone
    cases hnone
  · next h =>
    rw [← hcard, ← hany, ← hswitch, h]
    split_ifs with hfalse hmany hother
    · simp [hfalse]
    · simp [hmany]
    · simp [hother]
    · rcases hc : chosen heap o with ⟨ref, heap'⟩
      cases hr : _requireVerifiedSslContext heap' ref with
      | error e =>
        have hv : ¬ (heap'.contexts ref).Verified := fun hv => by
          rw [requireVerified_eq_ok.mpr ⟨hv, rfl⟩] at hr
          cases hr
        simp [Except.map, hr, hv]
      | ok ref' =>
        obtain ⟨hv, rfl⟩ := requireVerified_eq_ok.mp hr
        simp [Except.map, hr, hfalse, hmany, hother, hv, eq_comm]

/-- The options are accepted exactly where none turns the verification off and all contexts
among them are one verified context. -/
theorem accepts_iff (heap : Heap) (o : Options) :
    (∃ r, _resolveSslContext heap o = .ok r) ↔ Accepts heap o := by
  constructor
  · rintro ⟨r, hr⟩
    obtain ⟨hswitches, hfalse, hsame, hsupported, hverified, -⟩ := resolve_eq_ok.mp hr
    have hsame' : ∀ ref other, .context ref ∈ o.configured → .context other ∈ o.configured →
        ref = other := by
      intro ref other hr ho
      exact hsame ref (mem_contexts.mpr hr) other (mem_contexts.mpr ho)
    refine ⟨hswitches, fun v hv => (unsupported_iff v).mp (hsupported v hv), ?_, hsame'⟩
    intro ref href
    cases hh : o.contexts.head? with
    | none =>
      have hnil := List.head?_eq_none_iff.mp hh
      have hmem := mem_contexts.mpr href
      rw [hnil] at hmem
      cases hmem
    | some first =>
      have hfirst := List.mem_of_mem_head? hh
      rw [hsame' ref first href (mem_contexts.mp hfirst)]
      simpa [chosen, hh] using hverified
  · intro h
    refine ⟨chosen heap o, resolve_eq_ok.mpr ⟨h.switches, ?_, ?_, ?_, ?_, rfl⟩⟩
    · intro hfalse
      rcases h.configured _ hfalse with hv | hv | ⟨_, hv⟩ <;> cases hv
    · exact fun ref hr other ho => h.same ref other (mem_contexts.mp hr) (mem_contexts.mp ho)
    · exact fun v hv => (unsupported_iff v).mpr (h.configured v hv)
    · cases hh : o.contexts.head? with
      | none => simpa [chosen, hh] using verified_default heap
      | some first =>
        simpa [chosen, hh] using h.verified first (mem_contexts.mp (List.mem_of_mem_head? hh))

/-! ## The sessions -/

structure AsyncBase where
  heap : Heap
  _sslContext : Nat
  session : Slot := {}
  /-- The context of each session as it was when the session was made. -/
  madeWith : List Context := []
  /-- The session of each request and whether it was closed then, or nothing where the context
  was refused. -/
  requests : List (Option (Nat × Bool)) := []

def AsyncBase.new (heap : Heap) (o : Options) : Except PyStr AsyncBase :=
  (_resolveSslContext heap o).map fun r => { heap := r.2, _sslContext := r.1 }

def getSession (b : AsyncBase) : Except PyStr (Nat × AsyncBase) :=
  (_requireVerifiedSslContext b.heap b._sslContext).map fun ref => (b.session.get.1,
    { b with session := b.session.get.2, madeWith := b.madeWith ++ [b.heap.contexts ref] })

/-- The request is sent on the session. -/
def send (b : AsyncBase) (session : Nat) : AsyncBase :=
  { b with requests := b.requests ++ [some (session, b.session.closed session)] }

def asyncHttpRequest (b : AsyncBase) : AsyncBase := match b.session.live with
  | some session => send b session
  | none => match getSession b with
    | .ok (session, b) => send b session
    | .error _ => { b with requests := b.requests ++ [none] }

def close (b : AsyncBase) : AsyncBase := match b.session.current with
  | some session => { b with session := b.session.handOver session }
  | none => b

inductive Label where
  /-- Anyone who holds a context changes it. -/
  | configure (ref : Nat) (x : Context)
  | request
  | close
  /-- The coroutine that `close` submitted runs. -/
  | runClose (session : Nat)
  deriving DecidableEq, Repr

def step (b : AsyncBase) : Label → AsyncBase
  | .configure ref x =>
    { b with heap := { b.heap with contexts := Function.update b.heap.contexts ref x } }
  | .request => asyncHttpRequest b
  | .close => close b
  | .runClose session => { b with session := b.session.runCloser session }

/-- Every session was made with a verified context, one is open at most, and a request is sent
on an open one. -/
structure Secure (b : AsyncBase) : Prop where
  numbered : Numbered b.session
  single : Single b.session
  counted : b.madeWith.length = b.session.made
  verified : ∀ x ∈ b.madeWith, x.Verified
  sent : ∀ r, some r ∈ b.requests → r.2 = false

section

variable {b : AsyncBase}

theorem secure_new (heap : Heap) (ref : Nat) : Secure { heap := heap, _sslContext := ref } :=
  ⟨numbered_new, single_new, rfl, by simp, by simp⟩

theorem Secure.send (h : Secure b) {session : Nat} (ho : b.session.closed session = false) :
    Secure (send b session) := by
  refine ⟨h.numbered, h.single, h.counted, h.verified, ?_⟩
  intro r hr
  rcases List.mem_append.mp hr with hr | hr
  · exact h.sent r hr
  · obtain rfl := Option.some.inj (List.mem_singleton.mp hr)
    exact ho

/-- A session is made where there is no open one, with the context as it is verified. -/
theorem Secure.getSession (h : Secure b) (hlive : b.session.live = none) {session : Nat}
    {b' : AsyncBase} (hb : getSession b = .ok (session, b')) :
    Secure b' ∧ b'.session.closed session = false := by
  unfold AsyncSessions.getSession at hb
  cases hr : _requireVerifiedSslContext b.heap b._sslContext with
  | error e =>
    rw [hr] at hb
    cases hb
  | ok ref =>
    obtain ⟨hv, rfl⟩ := requireVerified_eq_ok.mp hr
    rw [hr] at hb
    obtain ⟨rfl, rfl⟩ := Prod.mk.inj (Except.ok.inj hb)
    refine ⟨⟨h.numbered.get, h.single.get, ?_, ?_, h.sent⟩, (get_open h.numbered).1⟩
    · simp [Slot.get, hlive, h.counted]
    · intro x hx
      rcases List.mem_append.mp hx with hx | hx
      · exact h.verified x hx
      · rw [List.mem_singleton.mp hx]
        exact hv

theorem secure_asyncHttpRequest (h : Secure b) : Secure (asyncHttpRequest b) := by
  unfold asyncHttpRequest
  split
  · next session hlive => exact h.send (live_eq_some.mp hlive).2
  · next hlive =>
    split
    · next session b' hb =>
      obtain ⟨hb', ho⟩ := h.getSession hlive hb
      exact hb'.send ho
    · refine ⟨h.numbered, h.single, h.counted, h.verified, ?_⟩
      intro r hr
      exact h.sent r (by simpa using hr)

theorem secure_close (h : Secure b) : Secure (close b) := by
  unfold close
  split
  · next session hc =>
    have hmade := h.numbered.current session hc
    exact ⟨h.numbered.handOver hmade, h.single, h.counted, h.verified, h.sent⟩
  · exact h

theorem secure_step (h : Secure b) (l : Label) : Secure (step b l) := by
  cases l with
  | configure ref x => exact ⟨h.numbered, h.single, h.counted, h.verified, h.sent⟩
  | request => exact secure_asyncHttpRequest h
  | close => exact secure_close h
  | runClose session =>
    refine ⟨h.numbered.runCloser, h.single.runCloser, ?_, h.verified, h.sent⟩
    exact h.counted.trans (made_runCloser b.session session).symm

/-- Whatever happens to the contexts after the constructor accepted its options, every session
was made with a verified context, two are never open together, and no request was sent on a
closed one. -/
theorem sessions_secure (heap : Heap) (o : Options) :
    ((∃ b, AsyncBase.new heap o = .ok b) ↔ Accepts heap o) ∧
    ∀ b, AsyncBase.new heap o = .ok b → ∀ ls : List Label,
      (run step b ls).madeWith.length = (run step b ls).session.made ∧
      (∀ x ∈ (run step b ls).madeWith, x.Verified) ∧
      (∀ i < (run step b ls).session.made, ∀ j < (run step b ls).session.made,
        (run step b ls).session.closed i = false → (run step b ls).session.closed j = false → i = j) ∧
      ∀ r, some r ∈ (run step b ls).requests → r.2 = false := by
  constructor
  · rw [← accepts_iff]
    unfold AsyncBase.new
    cases _resolveSslContext heap o <;> simp [Except.map]
  · intro b hb ls
    have hsecure : Secure b := by
      unfold AsyncBase.new at hb
      cases hr : _resolveSslContext heap o with
      | error e =>
        rw [hr] at hb
        cases hb
      | ok r =>
        rw [hr] at hb
        obtain rfl := Except.ok.inj hb
        exact secure_new r.2 r.1
    have h := run_induction (P := Secure) (fun _ l h => secure_step h l) hsecure ls
    exact ⟨h.counted, h.verified, fun i hi j hj => h.single.unique hi hj, h.sent⟩

end

def noContexts : Heap := ⟨fun _ => ⟨false, .none⟩, 0⟩

/-- The first session is closed between two requests. -/
def twoSessions : List Label := [.request, .close, .runClose 0, .request]

theorem sessions_secure_twice : ∃ b, AsyncBase.new noContexts {} = .ok b ∧
    (run step b twoSessions).session.closed 0 = true ∧
    (run step b twoSessions).requests = [some (0, false), some (1, false)] ∧
    (run step b twoSessions).madeWith.length = (run step b twoSessions).session.made ∧
    ∀ x ∈ (run step b twoSessions).madeWith, x.Verified := by
  have hnew : AsyncBase.new noContexts {} = .ok
      { heap := (createDefaultContext noContexts).2, _sslContext := 0 } := by rfl
  have h := (sessions_secure noContexts {}).2 _ hnew twoSessions
  exact ⟨_, hnew, by decide, by decide, h.1, h.2.1⟩

end AsyncSessions
