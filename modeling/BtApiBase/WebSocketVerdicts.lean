import BtApiBase.WebSocketWatchdogs

/-!
# Verdicts of the watchdogs

Outside the calls of `on_open` and `on_close`, a time of the last message or a deadline
stands only where the installed socket is the one that was opened as the current
generation. What the second look of a watchdog finds is then about that socket.
-/

namespace WebSocketVerdicts

open WebSocketApps WebSocketWatchdogs Runs

/-- The decision names the generation that its socket was opened as, and was right about
the socket: it had received no message for longer than the timeout, or was still waiting
for readiness after its own deadline. -/
def Sound (cfg : Config) (openings : List Opening) (d : Decision) : Prop :=
  ∃ o ∈ openings, o.generation = d.generation ∧ o.ws = d.ws ∧
    match d.kind with
    | .readiness => d.awaiting = true ∧ o.openedAt + cfg.readinessTimeout < d.time
    | .messageIdle => o.openedAt + cfg.messageIdleTimeout < d.time ∧
        ∀ r ∈ d.received, r + cfg.messageIdleTimeout < d.time

theorem Sound.mono {cfg : Config} {l l' : List Opening} {d : Decision} (h : Sound cfg l d) (hl : l ⊆ l') :
    Sound cfg l' d := by
  obtain ⟨o, ho, hs⟩ := h
  exact ⟨o, hl ho, hs⟩

/-! ## The invariant -/

/-- The installed socket was opened as the current generation. -/
structure Open (openings : List Opening) (a : App) (o : Opening) : Prop where
  mem : o ∈ openings
  generation : o.generation = a._connectionGeneration
  ws : a.ws = some o.ws

structure Cleared (a : App) : Prop where
  last : a._lastMessageAt = none
  deadline : a._readinessDeadline = none

/-- The current generation has no socket yet. -/
def Unopened (openings : List Opening) (a : App) : Prop := ∀ o ∈ openings, o.generation < a._connectionGeneration

/-- Neither an opening nor the end of one. -/
def inner : Action → Bool
  | .countGeneration | .readClock _ | .open _ _ | .forgetMessage => false
  | _ => true

def Placed (w : World) : Place → Prop
  | .between => Cleared w.app
  | .installed ws => Cleared w.app ∧ w.app.ws = some ws
  | .running ws _ todo => w.app.ws = some ws ∧ (
      (Cleared w.app ∧ (todo = onOpen ws ∨ (todo = [.readClock ws] ∧ Unopened w.openings w.app) ∨
        ∃ t ≤ w.now, todo = [.open ws t] ∧ Unopened w.openings w.app)) ∨
      ((∃ o, Open w.openings w.app o ∧ o.openedAt ≤ w.now) ∧ ∀ x ∈ todo, inner x = true))
  | .closing todo =>
      todo = onClose ∨ todo = [.closeBatch, .forgetMessage, .emit .disconnected] ∨
      (todo = [.forgetMessage, .emit .disconnected] ∧ w.app._readinessDeadline = none) ∨
      ((todo = [.emit .disconnected] ∨ todo = []) ∧ Cleared w.app)

def Watched (cfg : Config) (w : World) (kind : Kind) : Watchdog → Prop
  | .overdue s => overdue cfg w.now s kind = true
  | .decided d | .emitted d => Sound cfg w.openings d
  | _ => True

structure Inv (cfg : Config) (w : World) : Prop where
  last : ∀ l, w.app._lastMessageAt = some l →
    l ≤ w.now ∧ (∀ r ∈ w.received, r ≤ l) ∧ ∃ o, Open w.openings w.app o ∧ o.openedAt ≤ l
  deadline : ∀ d, w.app._readinessDeadline = some d →
    w.app._readinessGeneration = w.app._connectionGeneration ∧
      ∃ o, Open w.openings w.app o ∧ w.app._readinessWs = some o.ws ∧ d = o.openedAt + cfg.readinessTimeout
  times : ∀ r ∈ w.received, r ≤ w.now
  past : ∀ o ∈ w.openings, o.generation ≤ w.app._connectionGeneration
  once : (w.openings.map (·.generation)).Nodup
  placed : Placed w w.place
  watched : ∀ kind, Watched cfg w kind (w.watchdogs kind)
  log : ∀ d, .timedOut d ∈ w.log ∨ .closed d ∈ w.log → Sound cfg w.openings d

variable {cfg : Config}

theorem inv_init (a : App) : Inv cfg (init a) where
  last := by simp [init]
  deadline := by simp [init, App.closeBatch]
  times := by simp [init]
  past := by simp [init]
  once := by simp [init]
  placed := ⟨rfl, rfl⟩
  watched := fun _ => trivial
  log := by simp [init]

/-! ## What the actions between an opening and its end keep -/

structure Keeps (now : Rat) (a a' : App) : Prop where
  ws : a'.ws = a.ws
  generation : a'._connectionGeneration = a._connectionGeneration
  readinessWs : a'._readinessWs = a._readinessWs
  readinessGeneration : a'._readinessGeneration = a._readinessGeneration
  last : a'._lastMessageAt = a._lastMessageAt ∨ a'._lastMessageAt = some now
  deadline : a'._readinessDeadline = a._readinessDeadline ∨ a'._readinessDeadline = none

theorem exec_keeps {now : Rat} {a : App} {x : Action} (hx : inner x = true) : Keeps now a (exec cfg now a x).app := by
  cases x with
  | countSubscription sent =>
    cases ht : a._trackingSubscriptionBatch <;> constructor <;> simp [exec, App.countSubscription, ht]
  | countGeneration => simp [inner] at hx
  | readClock ws => simp [inner] at hx
  | «open» ws t => simp [inner] at hx
  | forgetMessage => simp [inner] at hx
  | touch => exact ⟨rfl, rfl, rfl, rfl, .inr rfl, .inl rfl⟩
  | markReady => exact ⟨rfl, rfl, rfl, rfl, .inr rfl, .inr rfl⟩
  | clearReadiness => exact ⟨rfl, rfl, rfl, rfl, .inl rfl, .inr rfl⟩
  | closeBatch => exact ⟨rfl, rfl, rfl, rfl, .inl rfl, .inr rfl⟩
  | _ => exact ⟨rfl, rfl, rfl, rfl, .inl rfl, .inl rfl⟩

theorem giveUp_keeps (now : Rat) (kind : Kind) (a : App) : Keeps now a (giveUp kind a) := by
  cases kind with
  | readiness => exact ⟨rfl, rfl, rfl, rfl, .inl rfl, .inr rfl⟩
  | messageIdle => exact ⟨rfl, rfl, rfl, rfl, .inl rfl, .inr rfl⟩

theorem inner_todo {now : Rat} {a : App} {x : Action} (hx : inner x = true) :
    ∀ y ∈ (exec cfg now a x).todo, inner y = true := by
  intro y hy
  cases leadsTo_of_mem hy with
  | opens ws => simp [inner] at hx
  | _ => rfl

theorem openings_inner (a : App) {x : Action} (hx : inner x = true) : openings a x = [] := by
  cases x <;> first | rfl | simp [inner] at hx

theorem received_inner (w : World) {x : Action} (hx : inner x = true) :
    received w x = w.received ∨
      received w x = w.received ++ [w.now] ∧ (exec cfg w.now w.app x).app._lastMessageAt = some w.now := by
  cases x with
  | touch => exact .inr ⟨rfl, rfl⟩
  | «open» ws t => simp [inner] at hx
  | _ => exact .inl rfl

theorem Open.kept {w w' : World} {o : Opening} (h : Open w.openings w.app o) (hk : Keeps w.now w.app w'.app)
    (ho : w'.openings = w.openings) : Open w'.openings w'.app o where
  mem := ho ▸ h.mem
  generation := h.generation.trans hk.generation.symm
  ws := hk.ws.trans h.ws

/-- A step that opens nothing, ends nothing and reads the clock only where a socket is open. -/
theorem Inv.kept {w w' : World} (h : Inv cfg w) (hk : Keeps w.now w.app w'.app) (hnow : w'.now = w.now)
    (ho : w'.openings = w.openings)
    (hlast : w'.app._lastMessageAt = w.app._lastMessageAt ∨ ∃ o, Open w.openings w.app o ∧ o.openedAt ≤ w.now)
    (hr : w'.received = w.received ∨
      w'.received = w.received ++ [w.now] ∧ w'.app._lastMessageAt = some w.now)
    (hp : Placed w' w'.place) (hw : ∀ kind, Watched cfg w' kind (w'.watchdogs kind))
    (hl : ∀ d, .timedOut d ∈ w'.log ∨ .closed d ∈ w'.log → Sound cfg w'.openings d) : Inv cfg w' := by
  have htimes : ∀ r ∈ w'.received, r ≤ w.now := by
    intro r hmem
    rcases hr with hr | ⟨hr, -⟩
    · exact h.times r (hr ▸ hmem)
    · rw [hr] at hmem
      rcases List.mem_append.mp hmem with hmem | hmem
      · exact h.times r hmem
      · rw [List.mem_singleton.mp hmem]
  refine ⟨?_, ?_, ?_, ?_, ?_, hp, hw, hl⟩
  · intro l hl'
    rw [hnow]
    by_cases he : w'.app._lastMessageAt = some w.now
    · obtain rfl : w.now = l := by simpa [he] using hl'
      refine ⟨le_refl _, htimes, ?_⟩
      rcases hlast with hs | ⟨o, hopen, hle⟩
      · obtain ⟨-, -, o, hopen, hle⟩ := h.last w.now (hs ▸ hl')
        exact ⟨o, hopen.kept hk ho, hle⟩
      · exact ⟨o, hopen.kept hk ho, hle⟩
    · have hs : w'.app._lastMessageAt = w.app._lastMessageAt := hk.last.resolve_right he
      obtain ⟨h₁, h₂, o, hopen, hle⟩ := h.last l (hs ▸ hl')
      have hrec : w'.received = w.received := hr.resolve_right fun hn => he hn.2
      exact ⟨h₁, hrec ▸ h₂, o, hopen.kept hk ho, hle⟩
  · intro d hd
    have hs : w'.app._readinessDeadline = w.app._readinessDeadline := hk.deadline.resolve_right (by simp [hd])
    obtain ⟨h₁, o, hopen, h₂, h₃⟩ := h.deadline d (hs ▸ hd)
    exact ⟨by rw [hk.readinessGeneration, hk.generation, h₁], o, hopen.kept hk ho, by rw [hk.readinessWs, h₂], h₃⟩
  · rw [hnow]
    exact htimes
  · rw [ho, hk.generation]
    exact h.past
  · rw [ho]
    exact h.once

theorem keeps_refl (now : Rat) (a : App) : Keeps now a a := ⟨rfl, rfl, rfl, rfl, .inl rfl, .inl rfl⟩

theorem Inv.place {w : World} (h : Inv cfg w) {p : Place} (hp : Placed w p) : Inv cfg { w with place := p } :=
  ⟨h.last, h.deadline, h.times, h.past, h.once, hp, h.watched, h.log⟩

theorem Watched.mono {w w' : World} {kind : Kind} {x : Watchdog} (h : Watched cfg w kind x)
    (hn : w.now ≤ w'.now) (ho : w.openings ⊆ w'.openings) : Watched cfg w' kind x := by
  cases x with
  | overdue s =>
    cases kind with
    | readiness =>
      have : s.since < w.now := by simpa [Watched, overdue] using h
      have : s.since < w'.now := by linarith
      simpa [Watched, overdue] using this
    | messageIdle =>
      have : cfg.messageIdleTimeout < w.now - s.since := by simpa [Watched, overdue] using h
      have : cfg.messageIdleTimeout < w'.now - s.since := by linarith
      simpa [Watched, overdue] using this
  | decided d => exact Sound.mono h ho
  | emitted d => exact Sound.mono h ho
  | asleep | awake | looked s => exact trivial

theorem Placed.kept {w w' : World} {p : Place} (h : Placed w p) (hk : Keeps w.now w.app w'.app)
    (hl : w'.app._lastMessageAt = w.app._lastMessageAt) (ho : w'.openings = w.openings) (hn : w.now ≤ w'.now) :
    Placed w' p := by
  have hd : w.app._readinessDeadline = none → w'.app._readinessDeadline = none :=
    fun hd => hk.deadline.elim (fun he => he.trans hd) id
  have hc : Cleared w.app → Cleared w'.app := fun hc => ⟨hl.trans hc.last, hd hc.deadline⟩
  have hu : Unopened w.openings w.app → Unopened w'.openings w'.app := fun hu => by
    rw [Unopened, ho, hk.generation]
    exact hu
  cases p with
  | between => exact hc h
  | installed ws => exact ⟨hc h.1, hk.ws.trans h.2⟩
  | running ws callback todo =>
    refine ⟨hk.ws.trans h.1, ?_⟩
    rcases h.2 with ⟨h₁, h₂⟩ | ⟨⟨o, hopen, hle⟩, h₂⟩
    · refine .inl ⟨hc h₁, ?_⟩
      rcases h₂ with h₂ | ⟨h₂, h₃⟩ | ⟨t, ht, h₂, h₃⟩
      · exact .inl h₂
      · exact .inr (.inl ⟨h₂, hu h₃⟩)
      · exact .inr (.inr ⟨t, ht.trans hn, h₂, hu h₃⟩)
    · exact .inr ⟨⟨o, hopen.kept hk ho, hle.trans hn⟩, h₂⟩
  | closing todo =>
    rcases h with h | h | ⟨h, h'⟩ | ⟨h, h'⟩
    · exact .inl h
    · exact .inr (.inl h)
    · exact .inr (.inr (.inl ⟨h, hd h'⟩))
    · exact .inr (.inr (.inr ⟨h, hc h'⟩))

/-! ## The steps of the socket thread -/

theorem log_perform {w : World} {x : Action} {place : List Action → Place} {d : Decision}
    (h : .timedOut d ∈ (perform cfg w x place).log ∨ .closed d ∈ (perform cfg w x place).log) :
    .timedOut d ∈ w.log ∨ .closed d ∈ w.log := by
  simpa [perform] using h

theorem inv_inner {w : World} {x : Action} {place : List Action → Place} (h : Inv cfg w) (hx : inner x = true)
    (hlast : (exec cfg w.now w.app x).app._lastMessageAt = w.app._lastMessageAt ∨
      ∃ o, Open w.openings w.app o ∧ o.openedAt ≤ w.now)
    (hp : Placed (perform cfg w x place) (place (exec cfg w.now w.app x).todo)) :
    Inv cfg (perform cfg w x place) := by
  have ho : (perform cfg w x place).openings = w.openings := by simp [perform, openings_inner w.app hx]
  have hk : Keeps w.now w.app (perform cfg w x place).app := exec_keeps hx
  refine h.kept hk rfl ho hlast (received_inner w hx) hp ?_ ?_
  · exact fun kind => (h.watched kind).mono (le_refl _) (by rw [ho]; exact fun _ => id)
  · intro d hd
    rw [ho]
    exact h.log d (log_perform hd)

/-- `on_open` takes the next generation. -/
theorem inv_count {w : World} {ws : Nat} {callback : Option Callback} {place : List Action → Place}
    (h : Inv cfg w) (hws : w.app.ws = some ws) (hc : Cleared w.app)
    (hp : place = fun todo => .running ws callback (todo ++ [.readClock ws])) :
    Inv cfg (perform cfg w .countGeneration place) := by
  have ho : (perform cfg w .countGeneration place).openings = w.openings := by simp [perform, openings]
  have hl : (perform cfg w .countGeneration place).app._lastMessageAt = none := hc.last
  have hd : (perform cfg w .countGeneration place).app._readinessDeadline = none := hc.deadline
  have hu : Unopened w.openings (perform cfg w .countGeneration place).app :=
    fun o hmem => Nat.lt_succ_of_le (h.past o hmem)
  refine ⟨?_, ?_, h.times, ?_, ?_, ?_, ?_, ?_⟩
  · simp [hl]
  · simp [hd]
  · rw [ho]
    exact fun o hmem => (hu o hmem).le
  · rw [ho]
    exact h.once
  · rw [show (perform cfg w .countGeneration place).place = .running ws callback [.readClock ws] by
      simp [perform, exec, hp]]
    exact ⟨hws, .inl ⟨⟨hl, hd⟩, .inr (.inl ⟨rfl, ho ▸ hu⟩)⟩⟩
  · exact fun kind => (h.watched kind).mono (le_refl _) (by rw [ho]; exact fun _ => id)
  · intro d hd
    rw [ho]
    exact h.log d (log_perform hd)

theorem inv_clock {w : World} {ws : Nat} {callback : Option Callback} {place : List Action → Place}
    (h : Inv cfg w) (hws : w.app.ws = some ws) (hc : Cleared w.app) (hu : Unopened w.openings w.app)
    (hp : place = fun todo => .running ws callback (todo ++ [])) :
    Inv cfg (perform cfg w (.readClock ws) place) := by
  have ho : (perform cfg w (.readClock ws) place).openings = w.openings := by simp [perform, openings]
  refine h.kept (keeps_refl _ _) rfl ho (.inl rfl) (.inl rfl) ?_ ?_ ?_
  · rw [show (perform cfg w (.readClock ws) place).place = .running ws callback [.open ws w.now] by
      simp [perform, exec, hp]]
    exact ⟨hws, .inl ⟨hc, .inr (.inr ⟨w.now, le_refl _, rfl, ho ▸ hu⟩)⟩⟩
  · exact fun kind => (h.watched kind).mono (le_refl _) (by rw [ho]; exact fun _ => id)
  · intro d hd
    rw [ho]
    exact h.log d (log_perform hd)

/-- The locked block of `on_open` opens the socket as the current generation. -/
theorem inv_open {w : World} {ws : Nat} {t : Rat} {callback : Option Callback} {place : List Action → Place}
    (h : Inv cfg w) (hws : w.app.ws = some ws) (ht : t ≤ w.now) (hu : Unopened w.openings w.app)
    (hp : place = fun todo => .running ws callback (todo ++ [])) :
    Inv cfg (perform cfg w (.open ws t) place) := by
  have ho : (perform cfg w (.open ws t) place).openings = w.openings ++ [⟨w.app._connectionGeneration, ws, t⟩] := rfl
  have hsub : w.openings ⊆ (perform cfg w (.open ws t) place).openings := by
    rw [ho]
    exact List.subset_append_left _ _
  have happ : (perform cfg w (.open ws t) place).app = w.app.open cfg ws t := rfl
  have hopen : Open (perform cfg w (.open ws t) place).openings (perform cfg w (.open ws t) place).app
      ⟨w.app._connectionGeneration, ws, t⟩ := by
    refine ⟨?_, rfl, hws⟩
    rw [ho]
    exact List.mem_append_right _ List.mem_cons_self
  refine ⟨?_, ?_, ?_, ?_, ?_, ?_, ?_, ?_⟩
  · intro l hl
    obtain rfl : t = l := by simpa [happ, App.open] using hl
    exact ⟨ht, by simp [perform, received], _, hopen, le_refl _⟩
  · intro d hd
    refine ⟨rfl, _, hopen, rfl, ?_⟩
    by_cases hpos : 0 < cfg.readinessTimeout
    · simp [happ, App.open, hpos] at hd
      exact hd.symm
    · simp [happ, App.open, hpos] at hd
  · simp [perform, received]
  · intro o hmem
    rw [ho] at hmem
    rcases List.mem_append.mp hmem with hmem | hmem
    · exact h.past o hmem
    · rw [List.mem_singleton.mp hmem]
      exact Nat.le_refl _
  · rw [ho, List.map_append, List.nodup_append]
    refine ⟨h.once, by simp, ?_⟩
    intro g hg g' hg'
    obtain ⟨o, hmem, rfl⟩ := List.mem_map.mp hg
    obtain rfl : g' = w.app._connectionGeneration := by simpa using hg'
    exact (hu o hmem).ne
  · rw [show (perform cfg w (.open ws t) place).place = .running ws callback [] by simp [perform, exec, hp]]
    exact ⟨hws, .inr ⟨⟨_, hopen, ht⟩, by simp⟩⟩
  · exact fun kind => (h.watched kind).mono (le_refl _) hsub
  · exact fun d hd => (h.log d (log_perform hd)).mono hsub

/-- `on_close` forgets the time of the last message. -/
theorem inv_forget {w : World} {place : List Action → Place} (h : Inv cfg w)
    (hd : w.app._readinessDeadline = none)
    (hp : place = fun todo => .closing (todo ++ [.emit .disconnected])) :
    Inv cfg (perform cfg w .forgetMessage place) := by
  have ho : (perform cfg w .forgetMessage place).openings = w.openings := by simp [perform, openings]
  have hl : (perform cfg w .forgetMessage place).app._lastMessageAt = none := rfl
  have hd' : (perform cfg w .forgetMessage place).app._readinessDeadline = none := hd
  refine ⟨?_, ?_, h.times, ?_, ?_, ?_, ?_, ?_⟩
  · simp [hl]
  · simp [hd']
  · rw [ho]
    exact h.past
  · rw [ho]
    exact h.once
  · rw [show (perform cfg w .forgetMessage place).place = .closing [.emit .disconnected] by
      simp [perform, exec, hp]]
    exact .inr (.inr (.inr ⟨.inl rfl, hl, hd'⟩))
  · exact fun kind => (h.watched kind).mono (le_refl _) (by rw [ho]; exact fun _ => id)
  · intro d hd
    rw [ho]
    exact h.log d (log_perform hd)

theorem inv_running {w : World} {ws : Nat} {callback : Option Callback} {x : Action} {rest : List Action}
    (h : Inv cfg w) (hw : w.place = .running ws callback (x :: rest)) :
    Inv cfg (perform cfg w x fun todo => .running ws callback (todo ++ rest)) := by
  have hp := h.placed
  rw [hw] at hp
  obtain ⟨hws, ⟨hc, hopen⟩ | ⟨⟨o, hopen, hle⟩, hinner⟩⟩ := hp
  · rcases hopen with hopen | ⟨hopen, hu⟩ | ⟨t, ht, hopen, hu⟩
    · obtain ⟨rfl, rfl⟩ : x = .countGeneration ∧ rest = [.readClock ws] := by simpa [onOpen] using hopen
      exact inv_count h hws hc rfl
    · obtain ⟨rfl, rfl⟩ : x = .readClock ws ∧ rest = [] := by simpa using hopen
      exact inv_clock h hws hc hu rfl
    · obtain ⟨rfl, rfl⟩ : x = .open ws t ∧ rest = [] := by simpa using hopen
      exact inv_open h hws ht hu rfl
  · have hx : inner x = true := hinner x List.mem_cons_self
    have hk : Keeps w.now w.app (exec cfg w.now w.app x).app := exec_keeps hx
    refine inv_inner h hx (.inr ⟨o, hopen, hle⟩) ⟨hk.ws.trans hws, .inr ⟨⟨o, ?_, hle⟩, ?_⟩⟩
    · exact hopen.kept hk (by simp [perform, openings_inner w.app hx])
    · intro y hy
      rcases List.mem_append.mp hy with hy | hy
      · exact inner_todo hx y hy
      · exact hinner y (List.mem_cons_of_mem x hy)

theorem inv_closing {w : World} {x : Action} {rest : List Action} (h : Inv cfg w)
    (hw : w.place = .closing (x :: rest)) :
    Inv cfg (perform cfg w x fun todo => .closing (todo ++ rest)) := by
  have hp := h.placed
  rw [hw] at hp
  rcases hp with hp | hp | ⟨hp, hd⟩ | ⟨hp | hp, hc⟩
  · obtain ⟨rfl, rfl⟩ : x = .clearRunning ∧ rest = [.closeBatch, .forgetMessage, .emit .disconnected] := by
      simpa [onClose] using hp
    exact inv_inner h rfl (.inl rfl) (.inr (.inl rfl))
  · obtain ⟨rfl, rfl⟩ : x = .closeBatch ∧ rest = [.forgetMessage, .emit .disconnected] := by simpa using hp
    exact inv_inner h rfl (.inl rfl) (.inr (.inr (.inl ⟨rfl, rfl⟩)))
  · obtain ⟨rfl, rfl⟩ : x = .forgetMessage ∧ rest = [.emit .disconnected] := by simpa using hp
    exact inv_forget h hd rfl
  · obtain ⟨rfl, rfl⟩ : x = .emit .disconnected ∧ rest = [] := by simpa using hp
    exact inv_inner h rfl (.inl rfl) (.inr (.inr (.inr ⟨.inr rfl, hc⟩)))
  · simp at hp

theorem inv_act {w : World} (h : Inv cfg w) : Inv cfg (act cfg w) := by
  cases hw : w.place with
  | between => simpa [act, hw] using h
  | installed ws => simpa [act, hw] using h
  | running ws callback todo =>
    cases todo with
    | nil => simpa [act, hw] using h
    | cons x rest =>
      rw [act, hw]
      exact inv_running h hw
  | closing todo =>
    cases todo with
    | nil =>
      have hp := h.placed
      rw [hw] at hp
      rw [act, hw]
      rcases hp with hp | hp | ⟨hp, -⟩ | ⟨-, hc⟩
      · simp [onClose] at hp
      · simp at hp
      · simp at hp
      · exact h.place hc
    | cons x rest =>
      rw [act, hw]
      exact inv_closing h hw

theorem inv_install {w : World} (h : Inv cfg w) (ws : Nat) : Inv cfg (install w ws) := by
  by_cases hs : w.place = .between ∧ w.app._stopEvent = false
  · have hc : Cleared w.app := by
      have hp := h.placed
      rw [hs.1] at hp
      exact hp
    rw [install, if_pos hs]
    refine ⟨?_, ?_, h.times, h.past, h.once, ⟨⟨hc.last, hc.deadline⟩, rfl⟩, ?_, h.log⟩
    · intro l hl
      exact absurd hl (by simp [hc.last])
    · intro d hd
      exact absurd hd (by simp [hc.deadline])
    · exact fun kind => (h.watched kind).mono (le_refl _) fun _ => id
  · simpa [install, hs] using h

theorem inv_finish {w : World} (h : Inv cfg w) : Inv cfg (finish w) := by
  by_cases hs : w.place = .between
  · have hk : Keeps w.now w.app { w.app with _runningFlag := false, _stopEvent := true } :=
      ⟨rfl, rfl, rfl, rfl, .inl rfl, .inl rfl⟩
    rw [finish, if_pos hs]
    exact h.kept hk rfl rfl (.inl rfl) (.inl rfl) (h.placed.kept hk rfl rfl (le_refl _))
      (fun kind => (h.watched kind).mono (le_refl _) fun _ => id) h.log
  · simpa [finish, hs] using h

theorem inv_callOnOpen {w : World} (h : Inv cfg w) : Inv cfg (callOnOpen w) := by
  cases hw : w.place with
  | installed ws =>
    have hp := h.placed
    rw [hw] at hp
    rw [callOnOpen, hw]
    exact h.place ⟨hp.2, .inl ⟨hp.1, .inl rfl⟩⟩
  | between => simpa [callOnOpen, hw] using h
  | running ws callback todo => simpa [callOnOpen, hw] using h
  | closing todo => simpa [callOnOpen, hw] using h

/-- The thread of an open socket is left with other actions between the opening and the end. -/
theorem inv_todo {w : World} {ws : Nat} {callback callback' : Option Callback} {todo : List Action}
    (h : Inv cfg w) (hw : w.place = .running ws callback []) (ht : ∀ x ∈ todo, inner x = true) :
    Inv cfg { w with place := .running ws callback' todo } := by
  have hp := h.placed
  rw [hw] at hp
  obtain ⟨hws, ⟨-, hopen⟩ | ⟨hopen, -⟩⟩ := hp
  · simp [onOpen] at hopen
  · exact h.place ⟨hws, .inr ⟨hopen, ht⟩⟩

theorem inv_callOnMessage {w : World} (h : Inv cfg w) : Inv cfg (callOnMessage w) := by
  rw [callOnMessage]
  split
  · exact inv_todo h ‹_› (by simp [onMessage, inner])
  · exact h

theorem inv_callOnClose {w : World} (h : Inv cfg w) : Inv cfg (callOnClose w) := by
  rw [callOnClose]
  split
  · exact h.place (.inl rfl)
  · exact h.place (.inl rfl)
  · exact h

theorem inner_actions (c : Call) : ∀ x ∈ c.actions, inner x = true := by
  cases c <;> simp [Call.actions, WebSocketApps.subscribe, subscriptionAcknowledged, inner]

theorem inner_afterReturn (ready : Bool) (c : Callback) : ∀ x ∈ c.afterReturn ready, inner x = true := by
  cases c <;> cases ready <;> simp [Callback.afterReturn, afterOpenRsp, inner]

theorem inner_afterRaise (fatal : Bool) (c : Callback) : ∀ x ∈ c.afterRaise fatal, inner x = true := by
  cases c <;> cases fatal <;> simp [Callback.afterRaise, openFailed, messageFailed, inner]

theorem inv_call {w : World} (h : Inv cfg w) (c : Call) : Inv cfg (call w c) := by
  rw [call]
  split
  · exact inv_todo h ‹_› (inner_actions c)
  · exact h

theorem inv_returns {w : World} (h : Inv cfg w) (ready : Bool) : Inv cfg (returns w ready) := by
  rw [returns]
  split
  · exact inv_todo h ‹_› (inner_afterReturn ready _)
  · exact h

theorem inv_raises {w : World} (h : Inv cfg w) (fatal : Bool) : Inv cfg (raises w fatal) := by
  rw [raises]
  split
  · exact inv_todo h ‹_› (inner_afterRaise fatal _)
  · exact h

theorem inv_fail {w : World} (h : Inv cfg w) : Inv cfg (fail w) := by
  cases hw : w.place with
  | installed ws =>
    have hp := h.placed
    rw [hw] at hp
    rw [fail, hw]
    exact h.place hp.1
  | between => simpa [fail, hw] using h
  | running ws callback todo => simpa [fail, hw] using h
  | closing todo => simpa [fail, hw] using h

theorem inv_tick {w : World} (h : Inv cfg w) (reading : Rat) : Inv cfg { w with now := max w.now reading } := by
  have hn : w.now ≤ max w.now reading := le_max_left _ _
  refine ⟨?_, h.deadline, fun r hr => (h.times r hr).trans hn, h.past, h.once, ?_, ?_, h.log⟩
  · intro l hl
    obtain ⟨h₁, h₂, h₃⟩ := h.last l hl
    exact ⟨h₁.trans hn, h₂, h₃⟩
  · exact h.placed.kept (keeps_refl _ _) rfl rfl hn
  · exact fun kind => (h.watched kind).mono hn fun _ => id

/-! ## The steps of a watchdog -/

/-- What the second look finds is about the open socket. -/
theorem sound_decision {w : World} {kind : Kind} {s : Snapshot} (h : Inv cfg w)
    (ho : overdue cfg w.now s kind = true) (hh : holds kind w.app s = true) :
    Sound cfg w.openings (decision w kind s) := by
  cases kind with
  | readiness =>
    have hlate : s.since < w.now := by simpa [overdue] using ho
    obtain ⟨⟨⟨⟨hawait, hdeadline⟩, hgen⟩, hsocket⟩, -⟩ : (((w.app._awaitingReady = true ∧
        w.app._readinessDeadline = some s.since) ∧ w.app._readinessGeneration = s.generation) ∧
        w.app._readinessWs = some s.ws) ∧ w.app.ws = some s.ws := by
      simpa [holds, readinessHolds] using hh
    obtain ⟨hcurrent, o, hopen, hws, hsince⟩ := h.deadline _ hdeadline
    refine ⟨o, hopen.mem, ?_, ?_, hawait, ?_⟩
    · rw [hopen.generation, ← hcurrent, hgen]
      rfl
    · exact Option.some.inj (hws.symm.trans hsocket)
    · rw [← hsince]
      exact hlate
  | messageIdle =>
    have hlate : cfg.messageIdleTimeout < w.now - s.since := by simpa [overdue] using ho
    obtain ⟨⟨⟨-, hsocket⟩, hgen⟩, hlast⟩ : ((w.app._idleCloseRequested = false ∧ w.app.ws = some s.ws) ∧
        w.app._connectionGeneration = s.generation) ∧ w.app._lastMessageAt = some s.since := by
      simpa [holds, idleHolds] using hh
    obtain ⟨-, hreceived, o, hopen, hle⟩ := h.last _ hlast
    refine ⟨o, hopen.mem, ?_, ?_, ?_, ?_⟩
    · rw [hopen.generation, hgen]
      rfl
    · exact Option.some.inj (hopen.ws.symm.trans hsocket)
    · show o.openedAt + cfg.messageIdleTimeout < w.now
      linarith
    · intro r hr
      have := hreceived r hr
      show r + cfg.messageIdleTimeout < w.now
      linarith

theorem inv_setWatchdog {w : World} {kind : Kind} {x : Watchdog} (h : Inv cfg w) (hx : Watched cfg w kind x) :
    Inv cfg (setWatchdog w kind x) := by
  refine ⟨h.last, h.deadline, h.times, h.past, h.once, h.placed, ?_, h.log⟩
  intro kind'
  by_cases hk : kind' = kind
  · subst hk
    have : (setWatchdog w kind' x).watchdogs kind' = x := Function.update_self ..
    rw [this]
    exact hx.mono (le_refl _) fun _ => id
  · have : (setWatchdog w kind x).watchdogs kind' = w.watchdogs kind' := Function.update_of_ne hk ..
    rw [this]
    exact (h.watched kind').mono (le_refl _) fun _ => id

theorem inv_giveUp {w : World} (h : Inv cfg w) (kind : Kind) : Inv cfg { w with app := giveUp kind w.app } := by
  have hk : Keeps w.now w.app (giveUp kind w.app) := giveUp_keeps _ _ _
  have hl : (giveUp kind w.app)._lastMessageAt = w.app._lastMessageAt := by cases kind <;> rfl
  exact h.kept hk rfl rfl (.inl hl) (.inl rfl) (h.placed.kept hk hl rfl (le_refl _))
    (fun kind' => (h.watched kind').mono (le_refl _) fun _ => id) h.log

theorem inv_append {w : World} (h : Inv cfg w) {e : Entry}
    (he : ∀ d, e = .timedOut d ∨ e = .closed d → Sound cfg w.openings d) :
    Inv cfg { w with log := w.log ++ [e] } := by
  refine ⟨h.last, h.deadline, h.times, h.past, h.once, h.placed, ?_, ?_⟩
  · exact fun kind => (h.watched kind).mono (le_refl _) fun _ => id
  · intro d hd
    rcases hd with hd | hd
    · rcases List.mem_append.mp hd with hd | hd
      · exact h.log d (.inl hd)
      · exact he d (.inl (List.mem_singleton.mp hd).symm)
    · rcases List.mem_append.mp hd with hd | hd
      · exact h.log d (.inr hd)
      · exact he d (.inr (List.mem_singleton.mp hd).symm)

theorem inv_watch {w : World} (h : Inv cfg w) (kind : Kind) : Inv cfg (watch cfg w kind) := by
  have hw := h.watched kind
  cases hx : w.watchdogs kind with
  | asleep =>
    by_cases hs : 0 < timeout cfg kind ∧ w.app._stopEvent = false
    · rw [watch, hx]
      simp only [if_pos hs]
      exact inv_setWatchdog h trivial
    · simpa [watch, hx, hs] using h
  | awake =>
    cases hs : snapshot kind w.app with
    | none => simpa [watch, hx, hs] using inv_setWatchdog (x := .asleep) h trivial
    | some s => simpa [watch, hx, hs] using inv_setWatchdog (x := .looked s) h trivial
  | looked s =>
    rw [watch, hx]
    by_cases ho : overdue cfg w.now s kind = true
    · simp only [if_pos ho]
      exact inv_setWatchdog h ho
    · simp only [if_neg ho]
      exact inv_setWatchdog h trivial
  | overdue s =>
    rw [hx] at hw
    rw [watch, hx]
    by_cases hh : holds kind w.app s = true
    · simp only [if_pos hh]
      exact inv_giveUp (inv_setWatchdog h (x := .decided (decision w kind s)) (sound_decision h hw hh)) kind
    · simp only [if_neg hh]
      exact inv_setWatchdog h trivial
  | decided d =>
    rw [hx] at hw
    rw [watch, hx]
    refine inv_append (inv_setWatchdog h (x := .emitted d) hw) ?_
    intro d' hd
    obtain rfl : d = d' := by simpa using hd
    exact hw
  | emitted d =>
    rw [hx] at hw
    rw [watch, hx]
    refine inv_append (inv_setWatchdog h (x := .asleep) trivial) ?_
    intro d' hd
    obtain rfl : d = d' := by simpa using hd
    exact hw

theorem inv_step {w : World} (h : Inv cfg w) (l : Label) : Inv cfg (step cfg w l) := by
  cases l with
  | tick reading => exact inv_tick h reading
  | install ws => exact inv_install h ws
  | fail => exact inv_fail h
  | onOpen => exact inv_callOnOpen h
  | onMessage => exact inv_callOnMessage h
  | onClose => exact inv_callOnClose h
  | call c => exact inv_call h c
  | returns ready => exact inv_returns h ready
  | raises fatal => exact inv_raises h fatal
  | act => exact inv_act h
  | finish => exact inv_finish h
  | watch kind => exact inv_watch h kind

theorem inv_run (cfg : Config) (a : App) (labels : List Label) : Inv cfg (run (step cfg) (init a) labels) :=
  run_induction (P := Inv cfg) (fun _ l h => inv_step h l) (inv_init a) labels

/-- In every interleaving each verdict that a watchdog emits, and each socket that it
closes, comes from a sound decision, and no two sockets are opened as one generation. -/
theorem verdicts_are_sound (cfg : Config) (a : App) (labels : List Label) :
    Throughout (step cfg) (fun w =>
      (∀ d, .timedOut d ∈ w.log ∨ .closed d ∈ w.log → Sound cfg w.openings d) ∧
        (w.openings.map (·.generation)).Nodup) (init a) labels := by
  intro pre _
  have h : Inv cfg (run (step cfg) (init a) pre) := inv_run cfg a pre
  exact ⟨h.log, h.once⟩

-- A socket is silent for 11 seconds where 10 are allowed.
example : (run (step ⟨0, 10, 1, by decide, by decide⟩) (init {}) [.install 7, .onOpen, .act, .act, .act,
    .returns true, .act, .act, .act, .act, .tick 11, .watch .messageIdle, .watch .messageIdle, .watch .messageIdle,
    .watch .messageIdle, .watch .messageIdle, .watch .messageIdle]).log =
      [.app .flagged 1, .app .connected 1, .timedOut ⟨.messageIdle, 7, 1, 11, false, []⟩,
        .closed ⟨.messageIdle, 7, 1, 11, false, []⟩] := by
  decide +kernel

end WebSocketVerdicts
