import BtApiBase.PyValue
import BtApiBase.Runs

/-!
# The persistent order reference allocator

An order reference is handed out only after the state file holds it. The state
file is known by what reading and parsing it gives, since nothing else of it is
looked at; `json` and `os.replace` are taken at their word, and no file
operation fails. First the calls as wholes, then the same calls one file
operation at a time, so that a crash can fall between any two.
-/

namespace OrderRef

open PyText PyDict PyValue

def _STATE_KEY : PyStr := "last_order_ref"

/-- `json.loads(path.read_text(encoding="utf-8"))` -/
abbrev StateText := Except PyExc PyVal

inductive Temp where
  | absent
  | empty
  | full (content : PyMap)

/-- A temporary file that a crash leaves behind is never looked at again. -/
structure Disk where
  stateDir : Bool
  stateFile : Option StateText
  temp : Temp

structure OrderRefAllocator where
  value : Int
  disk : Disk

section

variable (py : Interp)

/-- The value that `_load` reads out of the state file. -/
def savedValue (text : StateText) : Except PyExc Int := do
  match ← text with
  | .dict data => py.int (orElse (PyMap.getOr data _STATE_KEY (.int 0)) (.int 0))
  | _ => .error (typeError "state payload must be an object")

/-- `_load`: an exception of another type than these leaves the constructor. -/
def load (value : Int) (file : Option StateText) : Except PyExc Int :=
  match file with
  | none => .ok value
  | some text =>
    match savedValue py text with
    | .ok saved => .ok (if saved > value then saved else value)
    | .error e =>
      if e.type.isA .typeError || e.type.isA .valueError || e.type.isA .osError then .ok value
      else .error e

/-- What `_persist_locked` finds in the state file; a file that is not UTF-8 is
not among the errors it goes on after. -/
def existing (text : StateText) : Except PyExc PyMap :=
  match (do match ← text with
    | .dict loaded => .ok loaded
    | _ => .error (typeError "state payload must be an object") : Except PyExc PyMap) with
  | .ok loaded => .ok loaded
  | .error e =>
    if e.type.isA .typeError || e.type.isA .jsonDecodeError || e.type.isA .osError then .ok []
    else .error e

/-- The exceptions that `_persist_locked` swallows. -/
def swallowed (e : PyExc) : Bool :=
  e.type.isA .typeError || e.type.isA .valueError || e.type.isA .osError

/-- `_persist_locked` -/
def persistLocked (value : Int) (disk : Disk) : Except PyExc Disk :=
  let disk := { disk with stateDir := true }
  match (disk.stateFile.map existing).getD (.ok []) with
  | .error e => if swallowed e then .ok disk else .error e
  | .ok loaded =>
    .ok { disk with
      stateFile := some (.ok (.dict (PyMap.set loaded _STATE_KEY (.int value))))
      temp := .absent }

/-- `OrderRefAllocator(account_id, state_dir, initial_value)` -/
def create (initial : Int) (disk : Disk) : Except PyExc OrderRefAllocator := do
  .ok ⟨← load py initial disk.stateFile, disk⟩

def next (a : OrderRefAllocator) : Except PyExc PyStr × OrderRefAllocator :=
  let value := a.value + 1
  match persistLocked value a.disk with
  | .ok disk => (.ok (intText value), ⟨value, disk⟩)
  | .error e => (.error e, ⟨value, { a.disk with stateDir := true }⟩)

def alignWithMax (a : OrderRefAllocator) (maxOrderRef : PyVal) :
    Except PyExc Unit × OrderRefAllocator :=
  match py.int maxOrderRef with
  | .error e => (.error e, a)
  | .ok maxVal =>
    let value := if maxVal > a.value then maxVal else a.value
    match persistLocked value a.disk with
    | .ok disk => (.ok (), ⟨value, disk⟩)
    | .error e => (.error e, ⟨value, { a.disk with stateDir := true }⟩)

end

@[simp] theorem next_value (a : OrderRefAllocator) : (next a).2.value = a.value + 1 := by
  unfold next; dsimp only; split <;> rfl

/-- A reference that is handed out is the text of the new value. -/
theorem eq_of_next {a : OrderRefAllocator} {ref : PyStr} (h : (next a).1 = .ok ref) :
    ref = intText (a.value + 1) := by
  unfold next at h
  dsimp only at h
  split at h <;> cases h
  rfl

/-! ## One file operation at a time -/

inductive Call where
  | next (value : Int)
  | align (maxVal : Int)
  deriving DecidableEq

/-- The file operation that comes next, with the locals it needs. -/
inductive Pc where
  | loadExists | loadRead
  | idle
  | mkdir (c : Call) | stateExists (c : Call) | read (c : Call)
  | createTemp (c : Call) (loaded : PyMap) | writeTemp (c : Call) (loaded : PyMap)
  | replace (c : Call) | tempExists (c : Call)

structure Process where
  value : Int
  pc : Pc

/-- A call that has ended, with the reference it returned or the value it took. -/
inductive Event where
  | returned (ref : Int)
  | aligned (maxVal : Int)
  deriving DecidableEq

def Event.value : Event → Int
  | .returned ref => ref
  | .aligned maxVal => maxVal

def Call.event : Call → Event
  | .next value => .returned value
  | .align maxVal => .aligned maxVal

/-- The directory, the process if one is running, and what has happened:
`events` holds the calls that have ended and `asked` every value that was given
to `align_with_max`, in order. -/
structure World where
  disk : Disk
  process : Option Process
  events : List Event
  asked : List Int

inductive Label where
  | start (initial : Int)
  | next
  | align (maxOrderRef : PyVal)
  | advance
  | crash

section

variable (py : Interp)

/-- The call ends and the lock is released. -/
def finish (w : World) (p : Process) (c : Call) : World :=
  { w with process := some { p with pc := .idle }, events := w.events ++ [c.event] }

def advance (w : World) (p : Process) : World :=
  let goto (pc : Pc) : World := { w with process := some { p with pc := pc } }
  match p.pc with
  | .idle => w
  | .loadExists => if w.disk.stateFile.isSome then goto .loadRead else goto .idle
  | .loadRead =>
    match load py p.value w.disk.stateFile with
    | .ok value => { w with process := some ⟨value, .idle⟩ }
    | .error _ => { w with process := none }
  | .mkdir c =>
    { w with disk.stateDir := true, process := some { p with pc := .stateExists c } }
  | .stateExists c => if w.disk.stateFile.isSome then goto (.read c) else goto (.createTemp c [])
  | .read c =>
    match (w.disk.stateFile.map existing).getD (.ok []) with
    | .ok loaded => goto (.createTemp c loaded)
    | .error e => if swallowed e then finish w p c else goto .idle
  | .createTemp c loaded =>
    { w with disk.temp := .empty, process := some { p with pc := .writeTemp c loaded } }
  | .writeTemp c loaded =>
    { w with
      disk.temp := .full (PyMap.set loaded _STATE_KEY (.int p.value))
      process := some { p with pc := .replace c } }
  | .replace c =>
    match w.disk.temp with
    | .full content =>
      { w with
        disk := { w.disk with stateFile := some (.ok (.dict content)), temp := .absent }
        process := some { p with pc := .tempExists c } }
    | _ => goto (.tempExists c)
  | .tempExists c => finish { w with disk.temp := .absent } p c

def step (w : World) : Label → World
  | .start initial =>
    match w.process with
    | none => { w with process := some ⟨initial, .loadExists⟩ }
    | some _ => w
  | .next =>
    match w.process with
    | some ⟨value, .idle⟩ => { w with process := some ⟨value + 1, .mkdir (.next (value + 1))⟩ }
    | _ => w
  | .align maxOrderRef =>
    match w.process, py.int maxOrderRef with
    | some ⟨value, .idle⟩, .ok maxVal =>
      { w with
        process := some ⟨if maxVal > value then maxVal else value, .mkdir (.align maxVal)⟩
        asked := w.asked ++ [maxVal] }
    | _, _ => w
  | .advance =>
    match w.process with
    | some p => advance py w p
    | none => w
  | .crash => { w with process := none }

end

/-- A call to `next` that no crash interrupts is the call as a whole. Seven
file operations are the most it takes. -/
theorem run_next (py : Interp) {w : World} {v : Int} (h : w.process = some ⟨v, .idle⟩) :
    let w' := Runs.run (step py) w (.next :: List.replicate 7 .advance)
    let r := next ⟨v, w.disk⟩
    w'.process = some ⟨r.2.value, .idle⟩ ∧ w'.disk = r.2.disk ∧
      w'.events = w.events ++ (match r.1 with
        | .ok _ => [.returned (v + 1)]
        | .error _ => []) := by
  obtain ⟨disk, process, events, asked⟩ := w
  obtain ⟨dir, file, temp⟩ := disk
  subst h
  cases file with
  | none =>
    simp [List.replicate, step, advance, finish, next, persistLocked, Call.event]
  | some text =>
    cases he : existing text with
    | ok loaded =>
      simp [List.replicate, step, advance, finish, next, persistLocked, Call.event, he]
    | error e =>
      cases hs : swallowed e <;>
        simp [List.replicate, step, advance, finish, next, persistLocked, Call.event, he, hs]

end OrderRef
