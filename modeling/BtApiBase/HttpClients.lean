import BtApiBase.OnDemand
import BtApiBase.Runs

/-!
# The clients of `HttpClient`

The constructor makes the synchronous client, and asynchronous ones are made on demand.
`close` hands the asynchronous client to a task if an event loop runs, else it closes it in a
loop of its own; `aclose` closes it in place. A client is closed as soon as its closing starts.
What a coroutine does between two awaits is one step, so the coroutines and the tasks of one
event loop interleave in any order.
-/

namespace HttpClients

open OnDemand Runs

structure HttpClient where
  /-- `_sync_client` is closed. -/
  syncClosed : Bool := false
  /-- `_async_client`, with the clients that were in it before and the tasks that close them. -/
  _asyncClient : Slot := {}
  /-- For each synchronous request whether it was sent; a closed client raises instead. -/
  syncSent : List Bool := []
  /-- The client of each asynchronous request, and whether it was closed when it was used. -/
  asyncSent : List (Nat × Bool) := []

def request (c : HttpClient) : HttpClient := { c with syncSent := c.syncSent ++ [!c.syncClosed] }

def _getAsyncClient (c : HttpClient) : Nat × HttpClient :=
  (c._asyncClient.get.1, { c with _asyncClient := c._asyncClient.get.2 })

def asyncRequest (c : HttpClient) : HttpClient :=
  let (client, c) := _getAsyncClient c
  { c with asyncSent := c.asyncSent ++ [(client, c._asyncClient.closed client)] }

def _closeAsyncClient (running : Bool) (c : HttpClient) : HttpClient := { c with
  _asyncClient := match c._asyncClient.live with
    | none => c._asyncClient.empty
    | some client =>
      if running then (c._asyncClient.handOver client).empty
      else (c._asyncClient.close client).empty }

def close (running : Bool) (c : HttpClient) : HttpClient :=
  _closeAsyncClient running { c with syncClosed := true }

def aclose (c : HttpClient) : HttpClient := { c with
  syncClosed := true
  _asyncClient := match c._asyncClient.live with
    | none => c._asyncClient
    | some client => c._asyncClient.close client }

inductive Label where
  | request
  | asyncRequest
  /-- `close`, with or without a running event loop. -/
  | close (running : Bool)
  | aclose
  /-- A task of `close` starts. -/
  | runClose (client : Nat)
  /-- A task of `close` is cancelled before it starts. -/
  | cancelClose (client : Nat)
  deriving DecidableEq, Repr

def step (c : HttpClient) : Label → HttpClient
  | .request => request c
  | .asyncRequest => asyncRequest c
  | .close running => close running c
  | .aclose => aclose c
  | .runClose client => { c with _asyncClient := c._asyncClient.runCloser client }
  | .cancelClose client => { c with _asyncClient := c._asyncClient.forget client }

/-- Each asynchronous client was open when it was used, and those of the tasks wait alone. -/
structure Sound (c : HttpClient) : Prop where
  numbered : Numbered c._asyncClient
  detached : Detached c._asyncClient
  sent : ∀ r ∈ c.asyncSent, r.2 = false

/-- An asynchronous client that is open is `_async_client`, or a task will close it. -/
def Accounted (c : HttpClient) : Prop := Covered c._asyncClient

/-- The step cancels no task that has not started. -/
def Starts (c : HttpClient) : Label → Prop
  | .cancelClose client => client ∉ c._asyncClient.closing
  | _ => True

instance (c : HttpClient) : (l : Label) → Decidable (Starts c l)
  | .cancelClose client => inferInstanceAs (Decidable (client ∉ c._asyncClient.closing))
  | .request | .asyncRequest | .close _ | .aclose | .runClose _ => isTrue trivial

theorem sound_new : Sound {} := ⟨numbered_new, detached_new, by simp⟩

section

variable {c : HttpClient}

theorem sound_asyncRequest (h : Sound c) : Sound (asyncRequest c) := by
  refine ⟨h.numbered.get, h.detached.get h.numbered, ?_⟩
  intro r hr
  rcases List.mem_append.mp hr with hr | hr
  · exact h.sent r hr
  · rw [List.mem_singleton.mp hr]
    exact (get_open h.numbered).1

theorem sound_closeAsyncClient (h : Sound c) (running : Bool) :
    Sound (_closeAsyncClient running c) := by
  unfold _closeAsyncClient
  split
  · exact ⟨h.numbered.empty, h.detached.empty, h.sent⟩
  · next client hlive =>
    obtain ⟨hcurrent, -⟩ := live_eq_some.mp hlive
    have hmade := h.numbered.current client hcurrent
    split
    · exact ⟨(h.numbered.handOver hmade).empty, h.detached.handOver hlive, h.sent⟩
    · have haway : client ∉ c._asyncClient.closing :=
        fun hi => h.detached.away client hi hcurrent
      exact ⟨(h.numbered.close hmade).empty, (h.detached.close haway).empty, h.sent⟩

theorem sound_aclose (h : Sound c) : Sound (aclose c) := by
  unfold aclose
  split
  · exact ⟨h.numbered, h.detached, h.sent⟩
  · next client hlive =>
    obtain ⟨hcurrent, -⟩ := live_eq_some.mp hlive
    have haway : client ∉ c._asyncClient.closing := fun hi => h.detached.away client hi hcurrent
    exact ⟨h.numbered.close (h.numbered.current client hcurrent), h.detached.close haway, h.sent⟩

theorem sound_step (h : Sound c) (l : Label) : Sound (step c l) := by
  cases l with
  | request => exact ⟨h.numbered, h.detached, h.sent⟩
  | asyncRequest => exact sound_asyncRequest h
  | close running =>
    have hsync : Sound { c with syncClosed := true } := ⟨h.numbered, h.detached, h.sent⟩
    exact sound_closeAsyncClient hsync running
  | aclose => exact sound_aclose h
  | runClose client => exact ⟨h.numbered.runCloser, h.detached.runCloser, h.sent⟩
  | cancelClose client => exact ⟨h.numbered.forget, h.detached.forget, h.sent⟩

theorem accounted_close (h : Accounted c) (running : Bool) : Accounted (close running c) := by
  unfold close _closeAsyncClient Accounted
  split
  · next hlive => exact Covered.empty h fun i hi => by simp [hlive] at hi
  · next client hlive =>
    split
    · refine (Covered.handOver h).empty fun i hi => ?_
      have hlive' : c._asyncClient.live = some i := hi
      obtain rfl : client = i := Option.some.inj (hlive.symm.trans hlive')
      simp [Slot.handOver]
    · refine (Covered.close h).empty fun i hi => ?_
      obtain ⟨hcurrent, ho⟩ := live_eq_some.mp hi
      obtain rfl : client = i := by
        have hslot := (live_eq_some.mp hlive).1
        exact Option.some.inj (hslot.symm.trans hcurrent)
      simp [Slot.close] at ho

theorem accounted_aclose (h : Accounted c) : Accounted (aclose c) := by
  unfold aclose Accounted
  split
  · exact h
  · exact Covered.close h

theorem accounted_step (hs : Sound c) (h : Accounted c) (l : Label) :
    Accounted (step c l) ↔ Starts c l := by
  cases l with
  | request => exact iff_of_true h trivial
  | asyncRequest =>
    have hget : Covered c._asyncClient.get.2 := Covered.get h
    exact iff_of_true hget trivial
  | close running => exact iff_of_true (accounted_close h running) trivial
  | aclose => exact iff_of_true (accounted_aclose h) trivial
  | runClose client =>
    have hrun : Covered (c._asyncClient.runCloser client) := Covered.runCloser h
    exact iff_of_true hrun trivial
  | cancelClose client => exact covered_forget hs.numbered hs.detached h

/-- Throughout a run every open asynchronous client is the current one or will be closed by a
task, exactly if no task is cancelled before it starts. -/
theorem accounted_iff (ls : List Label) :
    Throughout step Accounted {} ls ↔ Meets step Starts {} ls :=
  throughout_iff_meets (P := Accounted) (Q := Sound) (fun _ l h => sound_step h l)
    (fun _ l hs h => accounted_step hs h l) sound_new covered_new ls

/-! ## After a close -/

/-- Closed for synchronous requests, and without an asynchronous client. -/
structure Shut (c : HttpClient) : Prop where
  sync : c.syncClosed = true
  slot : c._asyncClient.current = none

theorem shut_close (running : Bool) (c : HttpClient) : Shut (close running c) := by
  unfold close _closeAsyncClient
  refine ⟨rfl, ?_⟩
  dsimp only
  split
  · rfl
  · split <;> rfl

theorem live_of_shut (h : Shut c) : c._asyncClient.live = none := by simp [Slot.live, h.slot]

theorem shut_step (h : Shut c) {l : Label} (hl : l ≠ .asyncRequest) : Shut (step c l) := by
  cases l with
  | asyncRequest => exact absurd rfl hl
  | request => exact ⟨h.sync, h.slot⟩
  | close running => exact shut_close running c
  | aclose =>
    refine ⟨rfl, ?_⟩
    simp only [step, aclose, live_of_shut h]
    exact h.slot
  | runClose client =>
    refine ⟨h.sync, ?_⟩
    simp only [step, Slot.runCloser]
    split <;> exact h.slot
  | cancelClose client => exact ⟨h.sync, h.slot⟩

theorem shut_run (h : Shut c) {ls : List Label} (hls : Label.asyncRequest ∉ ls) :
    Shut (run step c ls) := by
  induction ls generalizing c with
  | nil => exact h
  | cons l ls ih =>
    rw [List.mem_cons, not_or] at hls
    exact ih (shut_step h (Ne.symm hls.1)) hls.2

/-- `close` closes everything: once its tasks have started, no client is open, whatever was
called before, unless an asynchronous request comes after it. -/
theorem closed_run (before after : List Label) (running : Bool)
    (hstarts : Meets step Starts {} (before ++ .close running :: after))
    (hafter : Label.asyncRequest ∉ after)
    (hdone : (run step {} (before ++ .close running :: after))._asyncClient.closing = []) :
    (run step {} (before ++ .close running :: after)).syncClosed = true ∧
      ∀ i < (run step {} (before ++ .close running :: after))._asyncClient.made,
        (run step {} (before ++ .close running :: after))._asyncClient.closed i = true := by
  have hacc := throughout_last ((accounted_iff _).mpr hstarts)
  have hshut : Shut (run step {} (before ++ .close running :: after)) := by
    rw [run_append, run_cons]
    exact shut_run (shut_close running _) hafter
  refine ⟨hshut.sync, fun i hi => ?_⟩
  rcases hacc i hi with hc | hc | hc
  · exact hc
  · rw [hshut.slot] at hc
    cases hc
  · rw [hdone] at hc
    cases hc

end

/-- Two clients, one closed by a task and one where no loop ran. -/
def twoClients : List Label :=
  [.asyncRequest, .close true, .asyncRequest, .runClose 0, .request]

theorem closed_run_twoClients :
    (run step {} (twoClients ++ .close false :: [.request])).syncClosed = true ∧
      ∀ i < (run step {} (twoClients ++ .close false :: [.request]))._asyncClient.made,
        (run step {} (twoClients ++ .close false :: [.request]))._asyncClient.closed i = true :=
  closed_run twoClients [.request] false (by decide) (by decide) rfl

end HttpClients
