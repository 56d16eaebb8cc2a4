import BtApiBase.GatewayConfigs
import BtApiBase.Runs

/-!
# Ports of the same runtime

A port that has been assigned to a runtime is reserved with it, and the assignment is used only
while it is not reserved. So every configuration without endpoints gets the next three ports
that the operating system offers, whatever its name.
-/

namespace GatewayEndpoints

open PyText PyDict PyDictFills PyValue Effects GatewayConfigs Runs

variable (pl : Platform)

/-- A configuration is constructed from its fields or from keywords. -/
inductive Construction where
  | fields (c : GatewayConfig)
  | kwargs (k : Kwargs)

def construct : Construction → Eff PyExc Process GatewayConfig
  | .fields c => postInit pl c
  | .kwargs k => fromKwargs pl k

/-- The transport is `tcp` and no endpoint is given. -/
def Plain : Construction → Prop
  | .fields c => textOr (pl.py.lower (strip (textOr c.transport "tcp"))) "tcp" = u "tcp" ∧
      c.commandEndpoint = [] ∧ c.eventEndpoint = [] ∧ c.marketEndpoint = []
  | .kwargs k =>
      textOr (pl.py.lower (strip (pl.py.str (orElse (k.value "transport") (.str "tcp"))))) "tcp" = u "tcp" ∧
      givenEndpoint k "command_endpoint" "gateway_command_endpoint" = .str [] ∧
      givenEndpoint k "event_endpoint" "gateway_event_endpoint" = .str [] ∧
      givenEndpoint k "market_endpoint" "gateway_market_endpoint" = .str []

/-- A configuration, how it was constructed and how many sockets had been bound before. -/
structure Built where
  construction : Construction
  config : GatewayConfig
  sockets : Nat

structure World where
  process : Process := {}
  built : List Built := []

def World.step (w : World) (x : Construction) : World :=
  match exec (construct pl x) w.process with
  | (.ok c, p) => ⟨p, w.built ++ [⟨x, c, w.process.sockets⟩]⟩
  | (.error _, p) => { w with process := p }

def after (xs : List Construction) : World := run (World.step pl) {} xs

def GatewayConfig.endpoints (c : GatewayConfig) : PyStr × PyStr × PyStr :=
  (c.commandEndpoint, c.eventEndpoint, c.marketEndpoint)

/-- The ports that the operating system offers to three sockets, one after the other. -/
def offers (sockets : Nat) : Except PyExc Nat × Except PyExc Nat × Except PyExc Nat :=
  (pl.offer sockets, pl.offer (sockets + 1), pl.offer (sockets + 2))

/-- Two configurations without endpoints and with one runtime name have the same endpoints. -/
def Stable (a b : Built) : Prop :=
  Plain pl a.construction → Plain pl b.construction → a.config.runtimeName = b.config.runtimeName →
    GatewayConfig.endpoints a.config = GatewayConfig.endpoints b.config

/-! ## Reservations -/

def Reserved (p : Process) : Prop :=
  ∀ name port, p._tcpPortAssignments.get name = some port → port ∈ p._tcpReservedBasePorts

/-- A computation that leaves every assigned port reserved. -/
def Careful {α : Type} (m : Eff PyExc Process α) : Prop := ∀ p, Reserved p → Reserved (exec m p).2

theorem cached_none {p : Process} (h : Reserved p) (name : PyStr) : p.cached name = none := by
  unfold Process.cached
  cases hport : p._tcpPortAssignments.get name with
  | none => rfl
  | some port => exact if_neg (not_not_intro (h name port hport))

theorem careful_pure {α : Type} (a : α) : Careful (pure a : Eff PyExc Process α) := by
  intro p h
  exact h

theorem careful_throw {α : Type} (e : PyExc) : Careful (throw e : Eff PyExc Process α) := by
  intro p h
  exact h

theorem careful_ofExcept {α : Type} (x : Except PyExc α) : Careful (ofExcept x : Eff PyExc Process α) := by
  intro p h
  rw [exec_ofExcept]
  exact h

theorem careful_bind {α β : Type} {m : Eff PyExc Process α} {k : α → Eff PyExc Process β} (hm : Careful m)
    (hk : ∀ a, Careful (k a)) : Careful (m >>= k) := by
  intro p h
  have hfirst := hm p h
  rw [exec_bind]
  split
  · next a q hq =>
    rw [hq] at hfirst
    exact hk a q hfirst
  · next e q hq =>
    rw [hq] at hfirst
    exact hfirst

theorem careful_bindPort : Careful (bindPort pl) := by
  intro p h
  exact h

theorem careful_assign (name : PyStr) (port : Nat) :
    Careful (modify fun p => (p.assign name port).reserve port) := by
  intro p h other x hget
  have hget' : (p._tcpPortAssignments.set name port).get other = some x := hget
  rw [Dict.get_set] at hget'
  split at hget'
  · cases hget'
    exact List.mem_cons_self
  · exact List.mem_cons_of_mem _ (h other x hget')

theorem careful_reserveTcpPorts (name : PyStr) : Careful (_reserveTcpPorts pl name) := by
  intro p h
  unfold _reserveTcpPorts
  rw [exec_get_bind]
  have hbind : Careful (do
      let command ← bindPort pl
      let event ← bindPort pl
      let market ← bindPort pl
      modify fun p => (p.assign name command).reserve command
      pure (command, event, market)) :=
    careful_bind (careful_bindPort pl) fun _ => careful_bind (careful_bindPort pl) fun _ =>
      careful_bind (careful_bindPort pl) fun _ => careful_bind (careful_assign name _) fun _ => careful_pure _
  rw [cached_none h name]
  exact hbind p h

theorem careful_resolveEndpoints (name transport : PyStr) (kwargs : Kwargs) :
    Careful (_resolveEndpoints pl name transport kwargs) := by
  unfold _resolveEndpoints
  dsimp only
  split_ifs
  · exact careful_pure _
  · exact careful_bind (careful_ofExcept _) fun _ => careful_bind (careful_ofExcept _) fun _ => careful_pure _
  · exact careful_bind (careful_reserveTcpPorts pl name) fun _ => careful_pure _

theorem careful_postInit (c : GatewayConfig) : Careful (postInit pl c) :=
  careful_bind (careful_resolveEndpoints pl _ _ _) fun _ => careful_pure _

theorem careful_fromKwargs (kwargs : Kwargs) : Careful (fromKwargs pl kwargs) := by
  unfold fromKwargs
  dsimp only
  split_ifs
  · exact careful_bind (careful_throw _) fun _ => careful_bind (careful_resolveEndpoints pl _ _ _) fun _ =>
      careful_bind (careful_ofExcept _) fun _ => careful_bind (careful_ofExcept _) fun _ =>
      careful_bind (careful_ofExcept _) fun _ => careful_postInit pl _
  · exact careful_bind (careful_resolveEndpoints pl _ _ _) fun _ =>
      careful_bind (careful_ofExcept _) fun _ => careful_bind (careful_ofExcept _) fun _ =>
      careful_bind (careful_ofExcept _) fun _ => careful_postInit pl _

theorem careful_construct (x : Construction) : Careful (construct pl x) := by
  cases x with
  | fields c => exact careful_postInit pl c
  | kwargs k => exact careful_fromKwargs pl k

/-! ## What a construction without endpoints gets -/

variable {pl}

theorem exec_bindPort {p q : Process} {port : Nat} (h : exec (bindPort pl) p = (.ok port, q)) :
    pl.offer p.sockets = .ok port ∧ q.sockets = p.sockets + 1 := by
  obtain ⟨hport, rfl⟩ := Prod.mk.inj h
  exact ⟨hport, rfl⟩

theorem exec_reserveTcpPorts {name : PyStr} {p q : Process} {a b c : Nat} (hreserved : Reserved p)
    (h : exec (_reserveTcpPorts pl name) p = (.ok (a, b, c), q)) :
    offers pl p.sockets = (.ok a, .ok b, .ok c) := by
  unfold _reserveTcpPorts at h
  rw [exec_get_bind, cached_none hreserved] at h
  obtain ⟨a', p₁, ha, h⟩ := exec_bind_returns h
  obtain ⟨b', p₂, hb, h⟩ := exec_bind_returns h
  obtain ⟨c', p₃, hc, h⟩ := exec_bind_returns h
  cases h
  obtain ⟨ha, hp₁⟩ := exec_bindPort ha
  obtain ⟨hb, hp₂⟩ := exec_bindPort hb
  obtain ⟨hc, -⟩ := exec_bindPort hc
  rw [hp₁] at hb
  rw [hp₂, hp₁] at hc
  rw [offers, ha, hb, hc]

theorem exec_resolveEndpoints {name transport : PyStr} {kwargs : Kwargs} {p q : Process} {e : Endpoints}
    (hreserved : Reserved p) (htransport : transport = u "tcp")
    (hcommand : givenEndpoint kwargs "command_endpoint" "gateway_command_endpoint" = .str [])
    (hevent : givenEndpoint kwargs "event_endpoint" "gateway_event_endpoint" = .str [])
    (hmarket : givenEndpoint kwargs "market_endpoint" "gateway_market_endpoint" = .str [])
    (h : exec (_resolveEndpoints pl name transport kwargs) p = (.ok e, q)) :
    ∃ a b c, offers pl p.sockets = (.ok a, .ok b, .ok c) ∧ e = ⟨tcpEndpoint a, tcpEndpoint b, tcpEndpoint c⟩ := by
  unfold _resolveEndpoints at h
  rw [hcommand, hevent, hmarket, htransport] at h
  dsimp only at h
  rw [if_neg (by simp [truthy]), if_neg (by decide)] at h
  obtain ⟨⟨a, b, c⟩, _, hports, h⟩ := exec_bind_returns h
  cases h
  exact ⟨a, b, c, exec_reserveTcpPorts hreserved hports, rfl⟩

theorem exec_postInit {c c' : GatewayConfig} {p q : Process} (h : exec (postInit pl c) p = (.ok c', q)) :
    ∃ e name transport baseDir, exec (_resolveEndpoints pl name transport (c.endpointKwargs baseDir)) p = (.ok e, q) ∧
      transport = (if textOr (pl.py.lower (strip (textOr c.transport "tcp"))) "tcp" = u "ipc" && pl.windows then u "tcp"
        else textOr (pl.py.lower (strip (textOr c.transport "tcp"))) "tcp") ∧
      GatewayConfig.endpoints c' = (e.commandEndpoint, e.eventEndpoint, e.marketEndpoint) := by
  unfold postInit at h
  obtain ⟨e, _, he, h⟩ := exec_bind_returns h
  cases h
  exact ⟨e, _, _, _, he, rfl, rfl⟩

/-- The endpoints of what was constructed are on the ports that were offered next. -/
def Ported (pl : Platform) (b : Built) : Prop :=
  Plain pl b.construction → ∃ x y z, offers pl b.sockets = (.ok x, .ok y, .ok z) ∧
    GatewayConfig.endpoints b.config = (tcpEndpoint x, tcpEndpoint y, tcpEndpoint z)

theorem ported_fields {c c' : GatewayConfig} {p q : Process} (hreserved : Reserved p)
    (h : exec (postInit pl c) p = (.ok c', q)) : Ported pl ⟨.fields c, c', p.sockets⟩ := by
  rintro ⟨htcp, hcommand, hevent, hmarket⟩
  obtain ⟨e, name, transport, baseDir, he, htransport, hendpoints⟩ := exec_postInit h
  rw [htcp, if_neg (by simp [u])] at htransport
  obtain ⟨x, y, z, hoffers, rfl⟩ := exec_resolveEndpoints hreserved htransport
    ((endpointKwargs_command c baseDir).trans (by rw [hcommand])) ((endpointKwargs_event c baseDir).trans (by rw [hevent]))
    ((endpointKwargs_market c baseDir).trans (by rw [hmarket])) he
  exact ⟨x, y, z, hoffers, hendpoints⟩

theorem ported_kwargs {k : Kwargs} {c : GatewayConfig} {p q : Process} (hreserved : Reserved p)
    (h : exec (fromKwargs pl k) p = (.ok c, q)) : Ported pl ⟨.kwargs k, c, p.sockets⟩ := by
  rintro ⟨htcp, hcommand, hevent, hmarket⟩
  unfold fromKwargs at h
  split at h
  · obtain ⟨_, _, hthrow, -⟩ := exec_bind_returns h
    cases hthrow
  · obtain ⟨e, _, he, h⟩ := exec_bind_returns h
    obtain ⟨x, y, z, hoffers, rfl⟩ := exec_resolveEndpoints hreserved htcp hcommand hevent hmarket he
    obtain ⟨_, _, -, h⟩ := exec_bind_returns h
    obtain ⟨_, _, -, h⟩ := exec_bind_returns h
    obtain ⟨_, _, -, h⟩ := exec_bind_returns h
    -- `__post_init__` finds all three endpoints given
    obtain ⟨e, name, transport, baseDir, he, -, hendpoints⟩ := exec_postInit h
    rw [resolved_given (endpointKwargs_command ..) (endpointKwargs_event ..) (endpointKwargs_market ..)
      ⟨tcpEndpoint_ne_nil x, tcpEndpoint_ne_nil y, tcpEndpoint_ne_nil z⟩] at he
    cases he
    exact ⟨x, y, z, hoffers, hendpoints⟩

theorem ported_construct {x : Construction} {c : GatewayConfig} {p q : Process} (hreserved : Reserved p)
    (h : exec (construct pl x) p = (.ok c, q)) : Ported pl ⟨x, c, p.sockets⟩ := by
  cases x with
  | fields c => exact ported_fields hreserved h
  | kwargs k => exact ported_kwargs hreserved h

/-! ## Runs -/

structure Inv (pl : Platform) (w : World) : Prop where
  reserved : Reserved w.process
  ported : ∀ b ∈ w.built, Ported pl b

theorem inv_after (xs : List Construction) : Inv pl (after pl xs) := by
  have hnew : Inv pl {} := by
    constructor
    · intro name port h
      cases h
    · intro b hb
      cases hb
  apply run_induction _ hnew
  intro w x h
  have hcareful := careful_construct pl x w.process h.reserved
  unfold World.step
  split
  · next c p hexec =>
    rw [hexec] at hcareful
    refine ⟨hcareful, ?_⟩
    intro b hb
    rcases List.mem_append.mp hb with hb | hb
    · exact h.ported b hb
    · obtain rfl := List.mem_singleton.mp hb
      exact ported_construct h.reserved hexec
  · next e p hexec =>
    rw [hexec] at hcareful
    exact ⟨hcareful, h.ported⟩

theorem tcpEndpoint_injective {a b : Nat} (h : tcpEndpoint a = tcpEndpoint b) : a = b := by
  have htext : intText a = intText b := List.append_cancel_left h
  exact Int.ofNat_inj.mp (intText_injective htext)

theorem endpoints_eq_iff {a b : Built} (ha : Ported pl a) (hb : Ported pl b) (hpa : Plain pl a.construction)
    (hpb : Plain pl b.construction) :
    GatewayConfig.endpoints a.config = GatewayConfig.endpoints b.config ↔ offers pl a.sockets = offers pl b.sockets := by
  obtain ⟨x, y, z, hx, hea⟩ := ha hpa
  obtain ⟨x', y', z', hx', heb⟩ := hb hpb
  rw [hea, heb, hx, hx']
  constructor
  · intro h
    obtain ⟨hcommand, h⟩ := Prod.mk.inj h
    obtain ⟨hevent, hmarket⟩ := Prod.mk.inj h
    rw [tcpEndpoint_injective hcommand, tcpEndpoint_injective hevent, tcpEndpoint_injective hmarket]
  · intro h
    obtain ⟨hcommand, h⟩ := Prod.mk.inj h
    obtain ⟨hevent, hmarket⟩ := Prod.mk.inj h
    rw [Except.ok.inj hcommand, Except.ok.inj hevent, Except.ok.inj hmarket]

/-- The endpoints of the configurations with one name agree in a run exactly if the operating
system offers the same ports to each of them. -/
theorem endpoints_stable_iff (pl : Platform) (xs : List Construction) :
    (∀ a ∈ (after pl xs).built, ∀ b ∈ (after pl xs).built, Stable pl a b) ↔
      ∀ a ∈ (after pl xs).built, ∀ b ∈ (after pl xs).built, Plain pl a.construction → Plain pl b.construction →
        a.config.runtimeName = b.config.runtimeName → offers pl a.sockets = offers pl b.sockets := by
  have h : Inv pl (after pl xs) := inv_after xs
  constructor
  · intro hstable a ha b hb hpa hpb hname
    exact (endpoints_eq_iff (h.ported a ha) (h.ported b hb) hpa hpb).mp (hstable a ha b hb hpa hpb hname)
  · intro hoffers a ha b hb hpa hpb hname
    exact (endpoints_eq_iff (h.ported a ha) (h.ported b hb) hpa hpb).mpr (hoffers a ha b hb hpa hpb hname)

theorem construction_mem (xs : List Construction) {w : World} :
    ∀ b ∈ (run (World.step pl) w xs).built, b ∈ w.built ∨ b.construction ∈ xs := by
  induction xs generalizing w with
  | nil =>
    intro b hb
    exact .inl hb
  | cons x xs ih =>
    intro b hb
    rw [run_cons] at hb
    rcases ih b hb with hb | hb
    · unfold World.step at hb
      split at hb
      · rcases List.mem_append.mp hb with hb | hb
        · exact .inl hb
        · obtain rfl := List.mem_singleton.mp hb
          exact .inr List.mem_cons_self
      · exact .inl hb
    · exact .inr (List.mem_cons_of_mem x hb)

/-- A server and a client of one runtime. -/
def serverAndClient : List Construction :=
  [.fields { runtimeName := "ctp-1" }, .fields { runtimeName := "ctp-1" }]

theorem client_elsewhere :
    ¬ ∀ a ∈ (after plain serverAndClient).built, ∀ b ∈ (after plain serverAndClient).built, Stable plain a b := by
  intro h
  have hbuilt : (after plain serverAndClient).built.map (fun b => (b.config.runtimeName, b.config.commandEndpoint)) =
      [(u "ctp-1", tcpEndpoint 40000), (u "ctp-1", tcpEndpoint 40003)] := by decide +kernel
  have hplain : ∀ b ∈ (after plain serverAndClient).built, Plain plain b.construction := by
    intro b hb
    rcases construction_mem serverAndClient b hb with hb | hb
    · cases hb
    · simp only [serverAndClient, List.mem_cons, List.not_mem_nil, or_false, or_self] at hb
      rw [hb]
      exact ⟨rfl, rfl, rfl, rfl⟩
  obtain ⟨a, rest, hcons, ha, hrest⟩ := List.map_eq_cons_iff.mp hbuilt
  obtain ⟨b, rest, rfl, hb, -⟩ := List.map_eq_cons_iff.mp hrest
  obtain ⟨hnameA, hportA⟩ := Prod.mk.inj ha
  obtain ⟨hnameB, hportB⟩ := Prod.mk.inj hb
  have hmemA : a ∈ (after plain serverAndClient).built := by simp [hcons]
  have hmemB : b ∈ (after plain serverAndClient).built := by simp [hcons]
  have hsame := h a hmemA b hmemB (hplain a hmemA) (hplain b hmemB) (hnameA.trans hnameB.symm)
  have hports : tcpEndpoint 40000 = tcpEndpoint 40003 :=
    hportA.symm.trans ((congrArg Prod.fst hsame).trans hportB)
  exact absurd (tcpEndpoint_injective hports) (by decide)

end GatewayEndpoints
