import BtApiBase.OrderRefCrash
import BtApiBase.PyJson
import BtApiBase.Effects

/-!
# Corrupt state files

`_load` and `_persist_locked` parse the same file and go on after different
exceptions. A file that only `_load` gets over is never replaced, so that every
allocator starts from the same value again; a file that neither gets over stops
the constructor. `loads` stands for `json.loads`, whatever it raises.
-/

namespace OrderRefRecovery

open PyText PyDict PyValue OrderRef

variable (py : Interp) (loads : PyStr → Except PyExc PyVal)

/-- `json.loads(path.read_text(encoding="utf-8"))` of a file with these bytes. -/
def stateText (bytes : Bytes) : StateText :=
  match decode bytes with
  | some text => loads text
  | none => .error ⟨.unicodeDecodeError, "'utf-8' codec can't decode"⟩

/-- A writable directory with a state file in it. -/
def directory (bytes : Bytes) : Disk := ⟨true, some (stateText loads bytes), .absent⟩

/-- The constructor returns, and after a reference was returned every new
allocator stands at it or above it. -/
def Recovers (bytes : Bytes) (initial : Int) : Prop :=
  ∃ a, create py initial (directory loads bytes) = .ok a ∧
    ∀ v, (next a).1 = .ok (intText v) →
      ∀ initial', ∃ b, create py initial' (next a).2.disk = .ok b ∧ v ≤ b.value

/-- The file is UTF-8, `json.loads` raises nothing that `_persist_locked` does
not expect of it, and no infinite value stands for the reference. -/
def Recoverable (bytes : Bytes) : Prop :=
  ∃ text, decode bytes = some text ∧ match loads text with
    | .ok v => ∀ data, v = .dict data → ∀ negative, PyMap.get data _STATE_KEY ≠ .float (.inf negative)
    | .error e => e.type = .typeError ∨ e.type = .jsonDecodeError ∨ e.type = .osError

/-! ## What the two parts get over -/

/-- `_load` gets over what is in the file. -/
def Loadable (text : StateText) : Prop :=
  match text with
  | .ok v => ∀ data, v = .dict data → ∀ negative, PyMap.get data _STATE_KEY ≠ .float (.inf negative)
  | .error e => swallowed e

/-- `_persist_locked` gets over what is in the file. -/
def Replaceable (text : StateText) : Prop :=
  match text with
  | .ok _ => True
  | .error e => e.type.isA .typeError ∨ e.type.isA .jsonDecodeError ∨ e.type.isA .osError

variable {py loads}

theorem intLiteral_error {v : PyVal} {s : Option PyStr} {e : PyExc} (h : py.intLiteral v s = .error e) :
    e.type = .valueError := by
  unfold Interp.intLiteral at h
  split at h <;> cases h
  rfl

/-- Only an infinite value is an integer that overflows. -/
theorem int_error {v : PyVal} {e : PyExc} (h : py.int v = .error e) :
    (∃ negative, v = .float (.inf negative)) ∧ e.type = .overflowError ∨
      e.type = .typeError ∨ e.type = .valueError := by
  cases v with
  | float x =>
    cases x with
    | inf negative => cases h; exact .inl ⟨⟨negative, rfl⟩, rfl⟩
    | nan => cases h; exact .inr (.inr rfl)
    | finite q => cases h
    | negZero => cases h
  | str s => exact .inr (.inr (intLiteral_error h))
  | bytes b => exact .inr (.inr (intLiteral_error h))
  | bool b => cases h
  | int n => cases h
  | none | list xs | tuple xs | set xs | dict items => cases h; exact .inr (.inl rfl)
  | _ =>
    simp only [Interp.int] at h
    split at h <;> cases h
    exact .inr (.inl rfl)

theorem savedValue_dict (data : PyMap) :
    savedValue py (.ok (.dict data)) =
      py.int (orElse (PyMap.getOr data _STATE_KEY (.int 0)) (.int 0)) := rfl

theorem getOr_inf {data : PyMap} {negative : Bool} :
    PyMap.getOr data _STATE_KEY (.int 0) = .float (.inf negative) ↔
      PyMap.get data _STATE_KEY = .float (.inf negative) := by
  unfold PyMap.getOr PyMap.get
  cases find (isStr _STATE_KEY) data <;> simp

theorem load_saved {text : StateText} {saved : Int} (h : savedValue py text = .ok saved) (initial : Int) :
    load py initial (some text) = .ok (if saved > initial then saved else initial) := by
  simp only [load, h]

theorem load_error {text : StateText} {e : PyExc} (h : savedValue py text = .error e) (initial : Int) :
    load py initial (some text) = if swallowed e then .ok initial else .error e := by
  simp only [load, h]
  rfl

theorem load_isOk (py : Interp) (initial : Int) (text : StateText) :
    (∃ value, load py initial (some text) = .ok value) ↔ Loadable text := by
  cases hs : savedValue py text with
  | ok saved =>
    refine iff_of_true ⟨_, load_saved hs initial⟩ ?_
    cases text with
    | error e => cases hs
    | ok v =>
      rintro data rfl negative hinf
      rw [savedValue_dict, getOr_inf.mpr hinf] at hs
      cases hs
  | error e =>
    have hok : (∃ value, load py initial (some text) = .ok value) ↔ swallowed e = true := by
      rw [load_error hs]
      split <;> simp [*]
    rw [hok]
    cases text with
    | error e' => cases hs; rfl
    | ok v =>
      cases v with
      | dict data =>
        rw [savedValue_dict] at hs
        rcases int_error hs with ⟨⟨negative, hv⟩, he⟩ | he
        · have hinf : PyMap.get data _STATE_KEY = .float (.inf negative) := by
            refine getOr_inf.mp ?_
            unfold orElse at hv
            split at hv
            · exact hv
            · cases hv
          refine iff_of_false (by simp [swallowed, he]; decide) fun h => h data rfl negative hinf
        · refine iff_of_true ?_ ?_
          · rcases he with he | he <;> simp [swallowed, he, ExcType.isA]
          · rintro data' ⟨⟩ negative hinf
            rw [getOr_inf.mpr hinf] at hs
            cases hs
            simp at he
      | _ => cases hs; exact iff_of_true rfl (by simp [Loadable])

theorem existing_error (e : PyExc) : existing (.error e) =
    if e.type.isA .typeError || e.type.isA .jsonDecodeError || e.type.isA .osError then .ok []
    else .error e := rfl

theorem existing_isOk (text : StateText) : (∃ loaded, existing text = .ok loaded) ↔ Replaceable text := by
  cases text with
  | error e =>
    rw [existing_error]
    split
    · next he => exact iff_of_true ⟨[], rfl⟩ (by simpa [Replaceable, or_assoc] using he)
    · next he =>
      refine iff_of_false ?_ (by simpa [Replaceable, or_assoc] using he)
      rintro ⟨loaded, ⟨⟩⟩
  | ok v =>
    refine iff_of_true ?_ trivial
    cases v <;> exact ⟨_, rfl⟩

/-- A file that `_persist_locked` does not get over could not be parsed. -/
theorem error_of_existing {text : StateText} {e : PyExc} (h : existing text = .error e) : text = .error e := by
  cases text with
  | ok v => cases v <;> cases h
  | error e' =>
    rw [existing_error] at h
    split at h
    · cases h
    · rw [Except.error.inj h]

/-! ## A reference and a restart -/

/-- The replaced file holds the reference that is returned. -/
theorem recovers_of_existing {value : Int} {text : StateText} {loaded : PyMap} (h : existing text = .ok loaded)
    {v : Int} (hv : (next ⟨value, ⟨true, some text, .absent⟩⟩).1 = .ok (intText v)) (initial : Int) :
    ∃ b, create py initial (next ⟨value, ⟨true, some text, .absent⟩⟩).2.disk = .ok b ∧ v ≤ b.value := by
  have hname : intText v = intText (value + 1) := eq_of_next (a := ⟨value, ⟨true, some text, .absent⟩⟩) hv
  obtain rfl := intText_injective hname
  have hdisk : (next ⟨value, ⟨true, some text, .absent⟩⟩).2.disk.stateFile =
      some (.ok (.dict (PyMap.set loaded _STATE_KEY (.int (value + 1))))) := by
    simp [next, persistLocked, h]
  have hload := OrderRefCrash.load_object py (PyMap.get_set_same loaded _STATE_KEY (.int (value + 1))) initial
  refine ⟨_, by rw [create, hdisk, hload]; rfl, ?_⟩
  dsimp only
  split <;> omega

/-- A file that stays as it is leaves the next allocator where it begins. -/
theorem not_recovers_of_existing (py : Interp) (value : Int) {text : StateText} {e : PyExc} (h : existing text = .error e)
    (hl : Loadable text) :
    (next ⟨value, ⟨true, some text, .absent⟩⟩).1 = .ok (intText (value + 1)) ∧
      ∀ initial, create py initial (next ⟨value, ⟨true, some text, .absent⟩⟩).2.disk =
        .ok ⟨initial, ⟨true, some text, .absent⟩⟩ := by
  obtain rfl := error_of_existing h
  have hs : swallowed e = true := hl
  have hnext : next ⟨value, ⟨true, some (.error e), .absent⟩⟩ =
      (.ok (intText (value + 1)), ⟨value + 1, ⟨true, some (.error e), .absent⟩⟩) := by
    simp [next, persistLocked, h, hs]
  rw [hnext]
  refine ⟨rfl, fun initial => ?_⟩
  have hload : load py initial (some (.error e)) = .ok initial := by
    rw [load_error (e := e) rfl, if_pos hs]
  rw [create, hload]
  rfl

theorem recoverable_iff (bytes : Bytes) :
    Recoverable loads bytes ↔ Loadable (stateText loads bytes) ∧ Replaceable (stateText loads bytes) := by
  unfold Recoverable stateText
  cases decode bytes with
  | none => simp [Replaceable, ExcType.isA]
  | some text =>
    simp only [Option.some.injEq, exists_eq_left']
    cases loads text with
    | ok v => simp [Loadable, Replaceable]
    | error e => cases ht : e.type <;> simp [Loadable, Replaceable, swallowed, ht, ExcType.isA]

/-- Allocators recover from a state file exactly if it is UTF-8, `json.loads`
gives a value or raises `JSONDecodeError`, and the reference in it is not
infinite. -/
theorem recovers_iff (py : Interp) (loads : PyStr → Except PyExc PyVal) (bytes : Bytes) (initial : Int) :
    Recovers py loads bytes initial ↔ Recoverable loads bytes := by
  rw [recoverable_iff]
  constructor
  · rintro ⟨a, ha, hrun⟩
    have hload : ∃ value, load py initial (some (stateText loads bytes)) = .ok value := by
      obtain ⟨value, hvalue, -⟩ := Effects.bind_eq_ok ha
      exact ⟨value, hvalue⟩
    have hl := (load_isOk py initial _).mp hload
    refine ⟨hl, (existing_isOk _).mp ?_⟩
    cases he : existing (stateText loads bytes) with
    | ok loaded => exact ⟨loaded, rfl⟩
    | error e =>
      obtain ⟨value, -, hvalue⟩ := Effects.bind_eq_ok ha
      cases hvalue
      obtain ⟨hnext, hcreate⟩ := not_recovers_of_existing py value he hl
      obtain ⟨b, hb, hle⟩ := hrun (value + 1) hnext value
      rw [directory, hcreate] at hb
      cases hb
      simp at hle
  · rintro ⟨hl, hr⟩
    obtain ⟨value, hvalue⟩ := (load_isOk py initial _).mpr hl
    obtain ⟨loaded, hloaded⟩ := (existing_isOk _).mpr hr
    refine ⟨⟨value, directory loads bytes⟩, ?_, fun v hv initial' => recovers_of_existing hloaded hv initial'⟩
    rw [create, directory, hvalue]
    rfl

/-- With `json.loads` as it is without limits, only the encoding and an infinite
reference matter. -/
theorem recoverable_json (py : Interp) (bytes : Bytes) :
    Recoverable (PyJson.loads py) bytes ↔ ∃ text, decode bytes = some text ∧ ∀ data, PyJson.loads py text = .ok (.dict data) →
      ∀ negative, PyMap.get data _STATE_KEY ≠ .float (.inf negative) := by
  refine exists_congr fun text => and_congr_right fun _ => ?_
  cases h : PyJson.loads py text with
  | ok v => simp
  | error e =>
    have he : e.type = .jsonDecodeError := by
      unfold PyJson.loads at h
      split at h
      · split at h <;> cases h
        rfl
      · cases h
        rfl
    simp [he]

/-- The byte `0xff` is no UTF-8: the reference 1 is handed out again after a restart. -/
theorem invalid_utf8_reused :
    ¬ ∀ (py : Interp) (bytes : Bytes) (initial : Int), Recovers py (PyJson.loads py) bytes initial := by
  intro hclaim
  have hdecode : decode [0xff] = none := by decide
  obtain ⟨a, ha, hrun⟩ := hclaim .ascii [0xff] 0
  have htext : stateText (PyJson.loads .ascii) [0xff] =
      .error ⟨.unicodeDecodeError, "'utf-8' codec can't decode"⟩ := by rw [stateText, hdecode]
  have hstart : create .ascii 0 (directory (PyJson.loads .ascii) [0xff]) =
      .ok ⟨0, directory (PyJson.loads .ascii) [0xff]⟩ := by
    rw [directory, htext]
    rfl
  obtain rfl := Except.ok.inj (hstart.symm.trans ha)
  rw [directory, htext] at hrun
  obtain ⟨b, hb, hle⟩ := hrun 1 rfl 0
  cases hb
  exact absurd hle (by decide)

end OrderRefRecovery
