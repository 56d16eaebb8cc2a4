import BtApiBase.PyValue

/-!
# URL-safe base64

`base64.urlsafe_b64encode` and `urlsafe_b64decode`. The decoder is lenient: what is
not in the alphabet is skipped, and the text ends at the padding that completes a
group.
-/

namespace PyBase64

open PyText PyValue

def digit (n : Nat) : UInt8 :=
  .ofNat (if n < 26 then n + 65 else if n < 52 then n + 71 else if n < 62 then n - 4
    else if n = 62 then 45 else 95)

/-- `+` and `/` are read as `-` and `_` are. -/
def valueOf (b : UInt8) : Option Nat :=
  if 65 ≤ b ∧ b ≤ 90 then some (b.toNat - 65)
  else if 97 ≤ b ∧ b ≤ 122 then some (b.toNat - 71)
  else if 48 ≤ b ∧ b ≤ 57 then some (b.toNat + 4)
  else if b = 45 ∨ b = 43 then some 62
  else if b = 95 ∨ b = 47 then some 63
  else none

def pad : UInt8 := 61

def urlsafeB64encode : Bytes → Bytes
  | [] => []
  | [a] => [digit (a.toNat / 4), digit (a.toNat % 4 * 16), pad, pad]
  | [a, b] => [digit (a.toNat / 4), digit (a.toNat % 4 * 16 + b.toNat / 16), digit (b.toNat % 16 * 4), pad]
  | a :: b :: c :: rest =>
    digit (a.toNat / 4) :: digit (a.toNat % 4 * 16 + b.toNat / 16) ::
      digit (b.toNat % 16 * 4 + c.toNat / 64) :: digit (c.toNat % 64) :: urlsafeB64encode rest

/-- `binascii.Error`, a subclass of `ValueError`. -/
def binasciiError (text : PyStr) : PyExc := ⟨.other "Error", text⟩

/-- `binascii.a2b_base64`: the place in the group of four, the bits left over from the
digit before, the padding seen in a row and the bytes so far. -/
def a2b : Bytes → Nat → Nat → Nat → Bytes → Except PyExc Bytes
  | [], quad, _, _, out =>
    if quad = 0 then .ok out
    else if quad = 1 then .error (binasciiError (u
      s!"Invalid base64-encoded string: number of data characters ({out.length / 3 * 4 + 1}) cannot be 1 more than a multiple of 4"))
    else .error (binasciiError "Incorrect padding")
  | b :: rest, quad, left, pads, out =>
    if b = pad then
      if 2 ≤ quad then
        if 4 ≤ quad + (pads + 1) then .ok out else a2b rest quad left (pads + 1) out
      else a2b rest quad left pads out
    else match valueOf b with
      | none => a2b rest quad left pads out
      | some v => match quad with
        | 0 => a2b rest 1 v 0 out
        | 1 => a2b rest 2 (v % 16) 0 (out ++ [.ofNat (left * 4 + v / 16)])
        | 2 => a2b rest 3 (v % 4) 0 (out ++ [.ofNat (left * 16 + v / 4)])
        | _ => a2b rest 0 0 0 (out ++ [.ofNat (left * 64 + v)])

def urlsafeB64decode (bytes : Bytes) : Except PyExc Bytes := a2b bytes 0 0 0 []

/-! ## The round trip -/

theorem digit_value : ∀ n < 64, digit n ≠ pad ∧ valueOf (digit n) = some n ∧ digit n < 128 := by
  decide

theorem a2b_digit {n : Nat} (h : n < 64) (rest : Bytes) (quad left pads : Nat) (out : Bytes) :
    a2b (digit n :: rest) quad left pads out = match quad with
      | 0 => a2b rest 1 n 0 out
      | 1 => a2b rest 2 (n % 16) 0 (out ++ [.ofNat (left * 4 + n / 16)])
      | 2 => a2b rest 3 (n % 4) 0 (out ++ [.ofNat (left * 16 + n / 4)])
      | _ => a2b rest 0 0 0 (out ++ [.ofNat (left * 64 + n)]) := by
  obtain ⟨hpad, hvalue, -⟩ := digit_value n h
  rw [a2b, if_neg hpad, hvalue]

theorem lt_first (a : UInt8) : a.toNat / 4 < 64 := by
  have := a.toNat_lt
  omega

theorem lt_second (a b : UInt8) : a.toNat % 4 * 16 + b.toNat / 16 < 64 := by
  have := b.toNat_lt
  omega

theorem lt_third (b c : UInt8) : b.toNat % 16 * 4 + c.toNat / 64 < 64 := by
  have := c.toNat_lt
  omega

theorem lt_fourth (c : UInt8) : c.toNat % 64 < 64 := by omega

theorem first_byte (a b : UInt8) : a.toNat / 4 * 4 + (a.toNat % 4 * 16 + b.toNat / 16) / 16 = a.toNat := by
  have := b.toNat_lt
  omega

theorem second_byte (a b c : UInt8) :
    (a.toNat % 4 * 16 + b.toNat / 16) % 16 * 16 + (b.toNat % 16 * 4 + c.toNat / 64) / 4 = b.toNat := by
  have := b.toNat_lt
  have := c.toNat_lt
  omega

theorem third_byte (b c : UInt8) :
    (b.toNat % 16 * 4 + c.toNat / 64) % 4 * 64 + c.toNat % 64 = c.toNat := by
  have := c.toNat_lt
  omega

theorem a2b_encode (bytes out : Bytes) (left pads : Nat) :
    a2b (urlsafeB64encode bytes) 0 left pads out = .ok (out ++ bytes) := by
  induction bytes using urlsafeB64encode.induct generalizing left pads out with
  | case1 => simp [urlsafeB64encode, a2b]
  | case2 a =>
    have hlt : a.toNat % 4 * 16 < 64 := lt_second a 0
    have hbyte : a.toNat / 4 * 4 + a.toNat % 4 * 16 / 16 = a.toNat := first_byte a 0
    simp only [urlsafeB64encode, a2b_digit (lt_first a), a2b_digit hlt, hbyte]
    simp [a2b]
  | case3 a b =>
    have hlt : b.toNat % 16 * 4 < 64 := lt_third b 0
    have hbyte : (a.toNat % 4 * 16 + b.toNat / 16) % 16 * 16 + b.toNat % 16 * 4 / 4 = b.toNat :=
      second_byte a b 0
    simp only [urlsafeB64encode, a2b_digit (lt_first a), a2b_digit (lt_second a b), a2b_digit hlt,
      first_byte, hbyte]
    simp [a2b]
  | case4 a b c rest ih =>
    simp only [urlsafeB64encode, a2b_digit (lt_first a), a2b_digit (lt_second a b),
      a2b_digit (lt_third b c), a2b_digit (lt_fourth c), first_byte, second_byte, third_byte, ih]
    simp

theorem urlsafeB64decode_encode (bytes : Bytes) : urlsafeB64decode (urlsafeB64encode bytes) = .ok bytes :=
  a2b_encode bytes [] 0 0

theorem a2b_error {bytes out : Bytes} {quad left pads : Nat} {e : PyExc}
    (h : a2b bytes quad left pads out = .error e) : e.type = .other "Error" := by
  induction bytes generalizing quad left pads out with
  | nil =>
    simp only [a2b] at h
    split_ifs at h
    · rw [← Except.error.inj h]
      rfl
    · rw [← Except.error.inj h]
      rfl
  | cons b rest ih =>
    rw [a2b] at h
    split_ifs at h
    · exact ih h
    · exact ih h
    · cases hv : valueOf b with
      | none =>
        rw [hv] at h
        exact ih h
      | some v =>
        rw [hv] at h
        dsimp only at h
        split at h <;> exact ih h

theorem urlsafeB64encode_injective : Function.Injective urlsafeB64encode := by
  intro a b h
  have hdecoded := congrArg urlsafeB64decode h
  rw [urlsafeB64decode_encode, urlsafeB64decode_encode] at hdecoded
  exact Except.ok.inj hdecoded

theorem urlsafeB64encode_eq_nil {bytes : Bytes} : urlsafeB64encode bytes = [] ↔ bytes = [] :=
  ⟨fun h => urlsafeB64encode_injective h, fun h => by rw [h]; rfl⟩

/-- Every byte of the text is ASCII. -/
theorem ascii_encode (bytes : Bytes) : ∀ b ∈ urlsafeB64encode bytes, b < 128 := by
  have hdigit : ∀ {n}, n < 64 → digit n < 128 := fun hn => (digit_value _ hn).2.2
  have hpad : pad < 128 := by decide
  induction bytes using urlsafeB64encode.induct with
  | case1 => simp [urlsafeB64encode]
  | case2 a =>
    simp only [urlsafeB64encode, List.forall_mem_cons]
    exact ⟨hdigit (lt_first a), hdigit (lt_second a 0), hpad, hpad, by simp⟩
  | case3 a b =>
    simp only [urlsafeB64encode, List.forall_mem_cons]
    exact ⟨hdigit (lt_first a), hdigit (lt_second a b), hdigit (lt_third b 0), hpad, by simp⟩
  | case4 a b c rest ih =>
    simp only [urlsafeB64encode, List.forall_mem_cons]
    exact ⟨hdigit (lt_first a), hdigit (lt_second a b), hdigit (lt_third b c), hdigit (lt_fourth c), ih⟩

/-! ## As text -/

theorem chars?_map (cs : List Char) : chars? (cs.map .scalar) = some cs := by
  induction cs with
  | nil => rfl
  | cons c cs ih => simp [chars?, ih]

/-- What decodes to a string is what the string encodes to. -/
theorem encode_of_decode {b : Bytes} {s : PyStr} (h : PyText.decode b = some s) : encode s = some b := by
  obtain ⟨t, ht, rfl⟩ := Option.map_eq_some_iff.mp h
  simp only [String.fromUTF8?, Option.dite_none_right_eq_some] at ht
  obtain ⟨hvalid, ht⟩ := ht
  rw [encode, u, chars?_map, Option.map_some, String.ofList_toList, ← Option.some.inj ht]
  rfl

theorem decode_ascii {b : Bytes} (h : ∀ x ∈ b, x < 128) : ∃ s, PyText.decode b = some s := by
  have hcode : ∀ n < 128, String.utf8EncodeChar (Char.ofNat n) = [UInt8.ofNat n] := by decide
  have hchar : ∀ x : UInt8, x < 128 → String.utf8EncodeChar (Char.ofNat x.toNat) = [x] := by
    intro x hx
    rw [hcode x.toNat hx, UInt8.ofNat_toNat]
  have hencode : encode ((b.map fun x => Char.ofNat x.toNat).map .scalar) = some b := by
    rw [encode, chars?_map, Option.map_some, String.toUTF8_eq_toByteArray, String.toByteArray_ofList,
      List.utf8Encode, List.toList_data_toByteArray, List.flatMap_map, Option.some.injEq]
    rw [List.flatMap_congr fun x hx => hchar x (h x hx)]
    exact List.flatMap_singleton' b
  exact ⟨_, PyText.decode_encode hencode⟩

end PyBase64
