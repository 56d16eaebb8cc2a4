import BtApiBase.OrderRef

/-!
# References survive crashes

The file is at most one reference behind the process and never behind a
reference that was returned, because the replacement of the file comes before
the return. A crash loses the difference between the two, which is a reference
that nobody was given, or a value that `align_with_max` had not yet stored.
-/

namespace OrderRefCrash

open PyText PyDict PyValue OrderRef Runs

/-- The reference that the state file holds, if it is there. -/
def saved : Option StateText → Option Int
  | some (.ok (.dict data)) =>
    match PyMap.get data _STATE_KEY with
    | .int n => some n
    | _ => none
  | _ => none

/-- Every other key has the value it has in `base`. -/
def KeepsOthers (base data : PyMap) : Prop :=
  ∀ k, k ≠ _STATE_KEY →
    PyMap.get data k = PyMap.get base k ∧ PyMap.contains data k = PyMap.contains base k

/-- The file is absent, and then `base` is empty, or it is an object with an
integer reference and the other keys of `base`. -/
def FileOk (base : PyMap) : Option StateText → Prop
  | none => base = []
  | some (.ok (.dict data)) => (∃ n, PyMap.get data _STATE_KEY = .int n) ∧ KeepsOthers base data
  | _ => False

theorem fileOk_dict {data : PyMap} {n : Int} (h : PyMap.get data _STATE_KEY = .int n) :
    FileOk data (some (.ok (.dict data))) := ⟨⟨n, h⟩, fun _ _ => ⟨rfl, rfl⟩⟩

theorem keepsOthers_set {base data : PyMap} (h : KeepsOthers base data) (v : PyVal) :
    KeepsOthers base (PyMap.set data _STATE_KEY v) := by
  intro k hk
  rw [PyMap.get_set_other _ _ hk, PyMap.contains_set, beq_eq_false_iff_ne.mpr hk, Bool.false_or]
  exact h k hk

theorem contains_of_get {data : PyMap} {k : PyStr} {n : Int} (h : PyMap.get data k = .int n) :
    PyMap.contains data k = true := by
  cases hf : find (isStr k) data with
  | none => rw [PyMap.get, hf] at h; cases h
  | some v => simp [PyMap.contains, hf]

theorem load_object (py : Interp) {data : PyMap} {n : Int}
    (h : PyMap.get data _STATE_KEY = .int n) (value : Int) :
    load py value (some (.ok (.dict data))) = .ok (if n > value then n else value) := by
  have hs : savedValue py (.ok (.dict data)) = .ok n := by
    have ho : PyMap.getOr data _STATE_KEY (.int 0) = .int n := by
      rw [PyMap.getOr_eq, contains_of_get h, if_pos rfl, h]
    by_cases hz : n = 0
    · subst hz
      simp [savedValue, ho, orElse, truthy, Interp.int, bind, Except.bind]
    · simp [savedValue, ho, orElse, truthy, hz, Interp.int, bind, Except.bind]
  simp [load, hs]

/-- A returned reference is larger than everything that was returned or stored
before it. -/
def Before (a b : Event) : Prop := ∀ ref, b = .returned ref → a.value < ref

/-- Every value that a finished call has made known is in the file. -/
def Stored (events : List Event) (file : Option StateText) : Prop :=
  ∀ e ∈ events, ∃ n, saved file = some n ∧ e.value ≤ n

def AtMost (file : Option StateText) (value : Int) : Prop := ∀ n, saved file = some n → n ≤ value

/-- The call in progress has not reached the file. -/
def Pending (file : Option StateText) (value : Int) (c : Call) : Prop :=
  AtMost file value ∧ match c with
    | .next v => v = value ∧ ∀ n, saved file = some n → n < v
    | .align m => m ≤ value

/-- The call in progress has reached the file and has not returned. -/
def Reached (events : List Event) (file : Option StateText) (value : Int) (c : Call) : Prop :=
  saved file = some value ∧ match c with
    | .next v => v = value ∧ ∀ e ∈ events, e.value < v
    | .align m => m ≤ value

def ProcessOk (base : PyMap) (w : World) (p : Process) : Prop :=
  match p.pc with
  | .loadExists | .loadRead => True
  | .idle => AtMost w.disk.stateFile p.value
  | .mkdir c | .stateExists c | .read c => Pending w.disk.stateFile p.value c
  | .createTemp c loaded | .writeTemp c loaded =>
    Pending w.disk.stateFile p.value c ∧ KeepsOthers base loaded
  | .replace c => Pending w.disk.stateFile p.value c ∧ ∃ content,
      w.disk.temp = .full content ∧ PyMap.get content _STATE_KEY = .int p.value ∧
        KeepsOthers base content
  | .tempExists c => Reached w.events w.disk.stateFile p.value c

structure Inv (base : PyMap) (w : World) : Prop where
  file : FileOk base w.disk.stateFile
  stored : Stored w.events w.disk.stateFile
  increasing : w.events.Pairwise Before
  process : ∀ p, w.process = some p → ProcessOk base w p

/-- A call that has reached the file may return. -/
theorem inv_finish {base : PyMap} {w : World} (h : Inv base w) {p : Process} {c : Call}
    (hr : Reached w.events w.disk.stateFile p.value c) : Inv base (finish w p c) := by
  obtain ⟨hs, hc⟩ := hr
  have hval : c.event.value ≤ p.value := by
    cases c with
    | next v => exact hc.1.le
    | align m => exact hc
  refine ⟨h.file, ?_, ?_, ?_⟩
  · intro e he
    rcases List.mem_append.mp he with he | he
    · exact h.stored e he
    · rw [List.mem_singleton.mp he]
      exact ⟨p.value, hs, hval⟩
  · refine List.pairwise_append.mpr ⟨h.increasing, List.pairwise_singleton _ _, ?_⟩
    intro e he b hb ref href
    rw [List.mem_singleton.mp hb] at href
    cases c with
    | next v => cases href; exact hc.2 e he
    | align m => cases href
  · rintro q ⟨⟩ n hn
    rw [show (finish w p c).disk = w.disk from rfl, hs] at hn
    exact (Option.some.inj hn).ge

/-- Replacing the file is what makes a call's value known. -/
theorem inv_replace {base : PyMap} {w : World} (h : Inv base w) {p : Process} {c : Call}
    {content : PyMap} (hp : Pending w.disk.stateFile p.value c)
    (hk : PyMap.get content _STATE_KEY = .int p.value) (ho : KeepsOthers base content) :
    Inv base { w with
      disk := { w.disk with stateFile := some (.ok (.dict content)), temp := .absent }
      process := some { p with pc := .tempExists c } } := by
  obtain ⟨hle, hc⟩ := hp
  have hs : saved (some (.ok (.dict content))) = some p.value := by simp [saved, hk]
  refine ⟨⟨⟨p.value, hk⟩, ho⟩, ?_, h.increasing, ?_⟩
  · intro e he
    obtain ⟨n, hn, hen⟩ := h.stored e he
    exact ⟨p.value, hs, hen.trans (hle n hn)⟩
  · rintro q ⟨⟩
    refine ⟨hs, ?_⟩
    cases c with
    | next v =>
      refine ⟨hc.1, fun e he => ?_⟩
      obtain ⟨n, hn, hen⟩ := h.stored e he
      exact hen.trans_lt (hc.2 n hn)
    | align m => exact hc

theorem inv_load (py : Interp) {base : PyMap} {w : World} (h : Inv base w) (value : Int) :
    ∃ value', load py value w.disk.stateFile = .ok value' ∧ AtMost w.disk.stateFile value' := by
  have hf := h.file
  unfold FileOk at hf
  split at hf
  · next he => exact ⟨value, by rw [he]; rfl, by simp [AtMost, he, saved]⟩
  · next data he =>
    obtain ⟨⟨n, hn⟩, -⟩ := hf
    refine ⟨_, by rw [he, load_object py hn], ?_⟩
    intro m hm
    simp only [he, saved, hn, Option.some.injEq] at hm
    subst hm
    split <;> omega
  · exact hf.elim

/-- What `_persist_locked` reads has the other keys of `base`. -/
theorem inv_read {base : PyMap} {w : World} (h : Inv base w) :
    ∃ loaded, (w.disk.stateFile.map existing).getD (.ok []) = .ok loaded ∧
      KeepsOthers base loaded := by
  have hf := h.file
  unfold FileOk at hf
  split at hf
  · next he => exact ⟨[], by simp [he], by simp [KeepsOthers, hf]⟩
  · next data he => exact ⟨data, by simp [he, existing, bind, Except.bind], hf.2⟩
  · exact hf.elim

/-- A file operation other than the replacement changes nothing that is kept. -/
theorem Inv.goto {base : PyMap} {w w' : World} (h : Inv base w)
    (hf : w'.disk.stateFile = w.disk.stateFile) (he : w'.events = w.events)
    (hp : ∀ p, w'.process = some p → ProcessOk base w' p) : Inv base w' where
  file := hf ▸ h.file
  stored := by rw [hf, he]; exact h.stored
  increasing := he ▸ h.increasing
  process := hp

theorem inv_advance (py : Interp) {base : PyMap} {w : World} (h : Inv base w) {p : Process}
    (hp : w.process = some p) : Inv base (advance py w p) := by
  have hok := h.process p hp
  obtain ⟨value, pc⟩ := p
  cases pc with
  | idle => exact h
  | loadExists =>
    simp only [advance]
    split
    · exact h.goto rfl rfl (by rintro q ⟨⟩; trivial)
    · next hn =>
      refine h.goto rfl rfl ?_
      rintro q ⟨⟩ n hs
      cases hf : w.disk.stateFile with
      | none => rw [hf] at hs; cases hs
      | some text => simp [hf] at hn
  | loadRead =>
    obtain ⟨value', hl, hle⟩ := inv_load py h value
    simp only [advance, hl]
    exact h.goto rfl rfl (by rintro q ⟨⟩; exact hle)
  | mkdir c => exact h.goto rfl rfl (by rintro q ⟨⟩; exact hok)
  | stateExists c =>
    simp only [advance]
    split
    · exact h.goto rfl rfl (by rintro q ⟨⟩; exact hok)
    · next hn =>
      refine h.goto rfl rfl ?_
      rintro q ⟨⟩
      refine ⟨hok, ?_⟩
      have hf := h.file
      cases hw : w.disk.stateFile with
      | none => rw [hw] at hf; simp [KeepsOthers, show base = [] from hf]
      | some text => simp [hw] at hn
  | read c =>
    obtain ⟨loaded, hl, ho⟩ := inv_read h
    simp only [advance, hl]
    exact h.goto rfl rfl (by rintro q ⟨⟩; exact ⟨hok, ho⟩)
  | createTemp c loaded => exact h.goto rfl rfl (by rintro q ⟨⟩; exact hok)
  | writeTemp c loaded =>
    refine h.goto rfl rfl ?_
    rintro q ⟨⟩
    exact ⟨hok.1, _, rfl, PyMap.get_set_same _ _ _, keepsOthers_set hok.2 _⟩
  | replace c =>
    obtain ⟨hpend, content, ht, hk, ho⟩ := hok
    simp only [advance, ht]
    exact inv_replace h hpend hk ho
  | tempExists c =>
    have h' : Inv base { w with disk.temp := .absent } :=
      h.goto rfl rfl (fun q hq => by
        rw [show q = _ from Option.some.inj (hq.symm.trans hp)]
        exact hok)
    exact inv_finish h' hok

theorem inv_step (py : Interp) {base : PyMap} (w : World) (l : Label) (h : Inv base w) :
    Inv base (step py w l) := by
  cases l with
  | start initial =>
    cases hp : w.process with
    | none =>
      simp only [step, hp]
      exact h.goto rfl rfl (by rintro q ⟨⟩; trivial)
    | some p => simpa only [step, hp] using h
  | next =>
    simp only [step]
    split
    · next value hp =>
      have hle : AtMost w.disk.stateFile value := h.process _ hp
      refine h.goto rfl rfl ?_
      rintro q ⟨⟩
      refine ⟨fun n hn => ?_, rfl, fun n hn => ?_⟩
      · exact (hle n hn).trans (by simp)
      · exact (hle n hn).trans_lt (by simp)
    · exact h
  | align maxOrderRef =>
    simp only [step]
    split
    · next value maxVal hp hm =>
      have hle : AtMost w.disk.stateFile value := h.process _ hp
      refine h.goto rfl rfl ?_
      rintro q ⟨⟩
      refine ⟨fun n hn => (hle n hn).trans ?_, ?_⟩
      · dsimp only
        split <;> omega
      · dsimp only
        split <;> omega
    · exact h
  | advance =>
    cases hp : w.process with
    | none => simpa only [step, hp] using h
    | some p =>
      simp only [step, hp]
      exact inv_advance py h hp
  | crash => exact h.goto rfl rfl (by rintro q ⟨⟩)

/-- Whatever crashes and restarts a run goes through, every returned reference
is larger than the references returned and the values stored before it, and the
state file keeps the value of every other key. -/
theorem references_increase (py : Interp) (base : PyMap) (disk : Disk)
    (h : FileOk base disk.stateFile) (labels : List Label) :
    (run (step py) ⟨disk, none, [], []⟩ labels).events.Pairwise Before ∧
      FileOk base (run (step py) ⟨disk, none, [], []⟩ labels).disk.stateFile := by
  have h₀ : Inv base ⟨disk, none, [], []⟩ :=
    ⟨h, by rintro e ⟨⟩, List.Pairwise.nil, by rintro p ⟨⟩⟩
  have hinv := run_induction (fun w l => inv_step py w l) h₀ labels
  exact ⟨hinv.increasing, hinv.file⟩

/-- A call of `next` that is not interrupted. -/
def whole : List Label := .next :: List.replicate 7 .advance

def crashing : List Label :=
  .start 0 :: .advance :: .advance :: (whole ++ .next :: .advance :: .crash :: .start 0 :: .advance :: .advance :: whole)

/-- A file that also holds somebody else's key, and a crash in the second `next`. -/
theorem references_increase_sample :
    ∃ (data : PyMap) (disk : Disk) (labels : List Label), FileOk data disk.stateFile ∧
      ((run (step .ascii) ⟨disk, none, [], []⟩ labels).events.Pairwise Before ∧
        FileOk data (run (step .ascii) ⟨disk, none, [], []⟩ labels).disk.stateFile) ∧
      (run (step .ascii) ⟨disk, none, [], []⟩ labels).events = [.returned 8, .returned 9] := by
  let data : PyMap := [(.str _STATE_KEY, .int 7), (.str "owner", .str "a")]
  let disk : Disk := ⟨true, some (.ok (.dict data)), .absent⟩
  have hstored : PyMap.get data _STATE_KEY = .int 7 := by simp [data, PyMap.get, find, isStr]
  have hfile : FileOk data disk.stateFile := fileOk_dict hstored
  have hincrease := references_increase .ascii data disk hfile crashing
  refine ⟨data, disk, crashing, hfile, hincrease, ?_⟩
  decide +kernel

/-- A crash before the replacement loses the value that `align_with_max` was
given: a reference of the next process is below it. -/
theorem aligned_value_lost :
    ∃ before after : List Label,
      let w₀ : World := ⟨⟨true, none, .absent⟩, none, [], []⟩
      FileOk [] w₀.disk.stateFile ∧ (run (step .ascii) w₀ before).asked = [100] ∧
        (run (step .ascii) w₀ before).events = [] ∧
        (run (step .ascii) w₀ (before ++ after)).events = [.returned 1] :=
  ⟨[.start 0, .advance, .align (.int 100), .advance, .crash],
    [.start 0, .advance, .next, .advance, .advance, .advance, .advance, .advance, .advance],
    rfl, by decide +kernel, by decide +kernel, by decide +kernel⟩

end OrderRefCrash
