import BtApiBase.PyBase64

/-!
# The credential manager

A manager with an encryption key derives the key of its cipher from the password and
from a salt that it draws when it is made and keeps to itself. What the cryptography
package computes is a parameter, and so are the draws of randomness.
-/

namespace Credentials

open PyText PyDict PyValue PyBase64

/-- A cipher, by the 32 bytes of its key. -/
structure Fernet where
  key : Bytes
  length_key : key.length = 32
  deriving DecidableEq

abbrev Salt := {b : Bytes // b.length = 16}

/-- The package: whether it is installed, `PBKDF2HMAC.derive` of a password and a salt,
and `Fernet.encrypt` (which also draws randomness) and `Fernet.decrypt`. -/
structure Cryptography where
  available : Bool
  derive : Bytes → Bytes → Bytes
  encrypt : Fernet → Bytes → Bytes → Bytes
  decrypt : Fernet → Bytes → Option Bytes

/-- What the package promises: a token is not empty and decrypts under the key that made
it and under no other, and different salts give different keys of 32 bytes. -/
structure Documented (cr : Cryptography) : Prop where
  length_derive : ∀ password salt, (cr.derive password salt).length = 32
  salted : ∀ password (s t : Salt), s ≠ t → cr.derive password s.1 ≠ cr.derive password t.1
  token_ne : ∀ f draw data, cr.encrypt f draw data ≠ []
  own : ∀ f draw data, cr.decrypt f (cr.encrypt f draw data) = some data
  other : ∀ f g draw data, f ≠ g → cr.decrypt g (cr.encrypt f draw data) = none

def encodeError : PyExc := ⟨.unicodeEncodeError, "'utf-8' codec can't encode: surrogates not allowed"⟩
def decodeError : PyExc := ⟨.unicodeDecodeError, "'utf-8' codec can't decode"⟩
def invalidToken : PyExc := ⟨.other "InvalidToken", ""⟩

def strEncode (s : PyStr) : Except PyExc Bytes := (encode s).elim (.error encodeError) .ok
def bytesDecode (b : Bytes) : Except PyExc PyStr := (PyText.decode b).elim (.error decodeError) .ok

/-- The constructor of `Fernet`. -/
def fernet (key : Bytes) : Except PyExc Fernet :=
  match urlsafeB64decode key with
  | .ok raw =>
    if h : raw.length = 32 then .ok ⟨raw, h⟩
    else .error ⟨.valueError, "Fernet key must be 32 url-safe base64-encoded bytes."⟩
  | .error _ => .error ⟨.valueError, "Fernet key must be 32 url-safe base64-encoded bytes."⟩

structure SecureCredentialManager where
  _encryptionKey : Option PyStr
  _cipher : Option Fernet
  _salt : Option Bytes

variable (cr : Cryptography)

def _createCipher (password : PyStr) (salt : Option Bytes) (urandom : Salt) :
    Except PyExc (Fernet × Bytes) := do
  let salt := salt.getD urandom.1
  let cipher ← fernet (urlsafeB64encode (cr.derive (← strEncode password) salt))
  return (cipher, salt)

/-- Whether a manager with this key encrypts. -/
def keyed (encryptionKey : Option PyStr) : Bool := encryptionKey.any fun key => key != []

/-- The constructor, with the bytes that `os.urandom` gives it. -/
def init (encryptionKey : Option PyStr) (urandom : Salt) : Except PyExc SecureCredentialManager :=
  if keyed encryptionKey then
    if cr.available then do
      let (cipher, salt) ← _createCipher cr (encryptionKey.getD []) none urandom
      return ⟨encryptionKey, some cipher, some salt⟩
    else .error ⟨.other "ImportError",
      "cryptography package required for encryption. Install with: pip install cryptography"⟩
  else .ok ⟨encryptionKey, none, none⟩

def encryptCredential (m : SecureCredentialManager) (credential : PyStr) (draw : Bytes) :
    Except PyExc PyStr :=
  match m._cipher with
  | none => .ok credential
  | some f => do bytesDecode (urlsafeB64encode (cr.encrypt f draw (← strEncode credential)))

def decryptCredential (m : SecureCredentialManager) (encryptedCredential : PyStr) : Except PyExc PyStr :=
  match m._cipher with
  | none => .ok encryptedCredential
  | some f => do
    let encrypted ← urlsafeB64decode (← strEncode encryptedCredential)
    match cr.decrypt f encrypted with
    | some data => bytesDecode data
    | none => .error invalidToken

/-- A credential of an exchange, the variable of the environment that it is read from,
and whether it is a flag. -/
structure Field where
  name : PyStr
  env : PyStr
  flag : Bool := false

def fields (exchange : PyStr) : List Field :=
  if exchange = "BINANCE" then
    [⟨"api_key", "BINANCE_API_KEY", false⟩, ⟨"secret", "BINANCE_SECRET", false⟩,
      ⟨"testnet", "BINANCE_TESTNET", true⟩]
  else if exchange = "OKX" then
    [⟨"api_key", "OKX_API_KEY", false⟩, ⟨"secret", "OKX_SECRET", false⟩,
      ⟨"passphrase", "OKX_PASSPHRASE", false⟩, ⟨"testnet", "OKX_TESTNET", true⟩]
  else if exchange = "CTP" then
    [⟨"broker_id", "CTP_BROKER_ID", false⟩, ⟨"user_id", "CTP_USER_ID", false⟩,
      ⟨"password", "CTP_PASSWORD", false⟩, ⟨"md_front", "CTP_MD_FRONT", false⟩,
      ⟨"td_front", "CTP_TD_FRONT", false⟩]
  else if exchange = "IB" then
    [⟨"account_id", "IB_ACCOUNT_ID", false⟩, ⟨"username", "IB_USERNAME", false⟩,
      ⟨"password", "IB_PASSWORD", false⟩]
  else []

/-- What stands in the environment for a field. -/
def loadField (py : Interp) (getenv : PyStr → Option PyStr) (field : Field) : PyVal :=
  if field.flag then .bool (py.lower ((getenv field.env).getD "false") == "true")
  else ((getenv field.env).map PyVal.str).getD .none

/-- `except (InvalidToken, ValueError, UnicodeDecodeError)`, with the error of `binascii`
among the value errors. -/
def caught (e : PyExc) : Bool :=
  e.type.isA .valueError || e.type == .other "Error" || e.type == .other "InvalidToken"

/-- One turn of the loop that decrypts. -/
def decryptField (m : SecureCredentialManager) (name : PyStr) (value : PyVal) : Except PyExc PyVal :=
  match value with
  | .str s =>
    if s != [] && name != "testnet" then
      match decryptCredential cr m s with
      | .ok credential => .ok (.str credential)
      | .error e => if caught e then .ok .none else .error e
    else .ok value
  | _ => .ok value

def decryptFields (m : SecureCredentialManager) :
    List (PyStr × PyVal) → Except PyExc (List (PyStr × PyVal))
  | [] => .ok []
  | (name, value) :: rest => do
    let value ← decryptField cr m name value
    return (name, value) :: (← decryptFields m rest)

def getExchangeCredentials (py : Interp) (getenv : PyStr → Option PyStr) (m : SecureCredentialManager)
    (exchange : PyStr) (encrypted : Bool) : Except PyExc (List (PyStr × PyVal)) :=
  let credentials := (fields (py.upper exchange)).map fun field => (field.name, loadField py getenv field)
  if encrypted && m._cipher.isSome then decryptFields cr m credentials else .ok credentials

/-! ## The ciphers -/

variable {cr}

theorem fernet_encode {key : Bytes} (h : key.length = 32) : fernet (urlsafeB64encode key) = .ok ⟨key, h⟩ := by
  simp [fernet, urlsafeB64decode_encode, h]

/-- What the constructor makes of a key: no cipher, or the one of the derived key. -/
theorem init_eq (h : Documented cr) {key : Option PyStr} {salt : Salt} {m : SecureCredentialManager}
    (hm : init cr key salt = .ok m) :
    (keyed key = false ∧ m._cipher = none) ∨
      ∃ password, encode (key.getD []) = some password ∧ keyed key = true ∧
        m._cipher = some ⟨cr.derive password salt.1, h.length_derive password salt.1⟩ := by
  unfold init at hm
  by_cases hk : keyed key = true
  · rw [if_pos hk] at hm
    by_cases ha : cr.available = true
    · rw [if_pos ha] at hm
      cases hp : encode (key.getD []) with
      | none =>
        simp only [_createCipher, strEncode, hp] at hm
        cases hm
      | some password =>
        simp only [_createCipher, strEncode, hp, Option.elim_some, Option.getD_none, bind, Except.bind,
          fernet_encode (h.length_derive password salt.1), pure, Except.pure, Except.ok.injEq] at hm
        exact .inr ⟨password, rfl, hk, by rw [← hm]⟩
    · rw [if_neg ha] at hm
      cases hm
  · rw [if_neg hk, Except.ok.injEq] at hm
    exact .inl ⟨Bool.not_eq_true _ ▸ hk, by rw [← hm]⟩

theorem init_ok (h : Documented cr) (ha : cr.available = true) {password : PyStr} (hp : Scalar password)
    (salt : Salt) : ∃ m, init cr (some password) salt = .ok m := by
  obtain ⟨bytes, hbytes⟩ := Option.isSome_iff_exists.mp ((encode_isSome password).mpr hp)
  unfold init
  split_ifs
  · simp [_createCipher, strEncode, hbytes, bind, Except.bind, pure, Except.pure,
      fernet_encode (h.length_derive bytes salt.1)]
  · exact ⟨_, rfl⟩

theorem encrypt_ok {m : SecureCredentialManager} {c : PyStr} (hc : Scalar c) (draw : Bytes) :
    ∃ token, encryptCredential cr m c draw = .ok token := by
  unfold encryptCredential
  cases m._cipher with
  | none => exact ⟨c, rfl⟩
  | some f =>
    obtain ⟨data, hdata⟩ := Option.isSome_iff_exists.mp ((encode_isSome c).mpr hc)
    obtain ⟨token, htoken⟩ := decode_ascii (ascii_encode (cr.encrypt f draw data))
    exact ⟨token, by simp [strEncode, hdata, bytesDecode, htoken, bind, Except.bind]⟩

/-- The token that a cipher makes of a credential, and the way back to it. -/
theorem encrypt_some {m : SecureCredentialManager} {f : Fernet} (hf : m._cipher = some f) {c token : PyStr}
    {draw : Bytes} (he : encryptCredential cr m c draw = .ok token) :
    ∃ data, encode c = some data ∧ encode token = some (urlsafeB64encode (cr.encrypt f draw data)) := by
  simp only [encryptCredential, hf] at he
  cases hdata : encode c with
  | none =>
    simp only [strEncode, hdata] at he
    cases he
  | some data =>
    refine ⟨data, rfl, encode_of_decode ?_⟩
    simp only [strEncode, hdata, Option.elim_some, bind, Except.bind, bytesDecode] at he
    cases htoken : PyText.decode (urlsafeB64encode (cr.encrypt f draw data)) with
    | none =>
      rw [htoken] at he
      cases he
    | some t =>
      rw [htoken, Option.elim_some, Except.ok.injEq] at he
      rw [he]

theorem decrypt_token {m : SecureCredentialManager} {g : Fernet} (hg : m._cipher = some g) {token : PyStr}
    {bytes : Bytes} (ht : encode token = some (urlsafeB64encode bytes)) :
    decryptCredential cr m token = match cr.decrypt g bytes with
      | some data => bytesDecode data
      | none => .error invalidToken := by
  simp [decryptCredential, hg, strEncode, ht, urlsafeB64decode_encode, bind, Except.bind]

/-- What one manager encrypts the other decrypts exactly when they have no cipher or
drew the same salt, and else the other finds the token invalid. -/
theorem decrypt_encrypt (h : Documented cr) {key : Option PyStr} {s t : Salt}
    {m₁ m₂ : SecureCredentialManager} (h₁ : init cr key s = .ok m₁) (h₂ : init cr key t = .ok m₂)
    {c token : PyStr} {draw : Bytes} (he : encryptCredential cr m₁ c draw = .ok token) :
    decryptCredential cr m₂ token =
      if keyed key = false ∨ s = t then .ok c else .error invalidToken := by
  rcases init_eq h h₁ with ⟨hk, hf⟩ | ⟨password, hp, hk, hf⟩
  · rcases init_eq h h₂ with ⟨-, hg⟩ | ⟨-, -, hk', -⟩
    · simp only [encryptCredential, hf, Except.ok.injEq] at he
      simp [decryptCredential, hg, hk, he]
    · rw [hk] at hk'
      cases hk'
  · rcases init_eq h h₂ with ⟨hk', -⟩ | ⟨password', hp', -, hg⟩
    · rw [hk] at hk'
      cases hk'
    · obtain rfl : password = password' := Option.some.inj (hp.symm.trans hp')
      obtain ⟨data, hdata, htoken⟩ := encrypt_some hf he
      rw [decrypt_token hg htoken]
      by_cases hst : s = t
      · subst hst
        rw [h.own, if_pos (.inr rfl)]
        simp [bytesDecode, PyText.decode_encode hdata]
      · have hne : cr.derive password s.1 ≠ cr.derive password t.1 := h.salted password s t hst
        rw [h.other _ _ _ _ fun hfg => hne (congrArg Fernet.key hfg), if_neg (by simp [hk, hst])]

theorem token_ne_nil (h : Documented cr) {m : SecureCredentialManager} {f : Fernet}
    (hf : m._cipher = some f) {c token : PyStr} {draw : Bytes}
    (he : encryptCredential cr m c draw = .ok token) : token ≠ [] := by
  rintro rfl
  obtain ⟨data, -, htoken⟩ := encrypt_some hf he
  have hnil : encode [] = some [] := by decide
  rw [hnil, Option.some.injEq, eq_comm, urlsafeB64encode_eq_nil] at htoken
  exact h.token_ne f draw data htoken

/-! ## The credentials of an exchange -/

theorem nodup_fields (exchange : PyStr) : ((fields exchange).map Field.name).Nodup := by
  unfold fields
  split_ifs <;> decide

/-- A field that is no flag is not named as the loop leaves out. -/
theorem name_ne_testnet {exchange : PyStr} {field : Field} (h : field ∈ fields exchange)
    (hf : field.flag = false) : field.name ≠ "testnet" := by
  have hall : ∀ field ∈ fields exchange, field.flag = false → field.name ≠ "testnet" := by
    unfold fields
    split_ifs <;> simp
  exact hall field h hf

theorem find_field {exchange : PyStr} {field : Field} (h : field ∈ fields exchange) (value : Field → PyVal) :
    find (· == field.name) ((fields exchange).map fun f => (f.name, value f)) = some (value field) := by
  have hn : (((fields exchange).map fun f => (f.name, value f)).map Prod.fst).Nodup := by
    simpa [List.map_map, Function.comp_def] using nodup_fields exchange
  have hget := Dict.get_of_mem ⟨_, hn⟩ (List.mem_map.mpr ⟨field, h, rfl⟩)
  -- the two tests are the equality of texts, by two instances
  have htest : (fun x : PyStr => x == field.name) = fun x => decide (x = field.name) := by
    funext x
    rw [Bool.eq_iff_iff, beq_iff_eq, decide_eq_true_iff]
  rw [htest]
  exact hget

/-- Whatever `decrypt_credential` raises is caught. -/
theorem caught_decrypt {m : SecureCredentialManager} {s : PyStr} {e : PyExc}
    (h : decryptCredential cr m s = .error e) : caught e = true := by
  unfold decryptCredential at h
  cases hf : m._cipher with
  | none =>
    rw [hf] at h
    cases h
  | some f =>
    simp only [hf, strEncode, bind, Except.bind] at h
    cases hs : encode s with
    | none =>
      rw [hs] at h
      rw [← Except.error.inj h]
      decide
    | some bytes =>
      simp only [hs, Option.elim_some] at h
      cases hb : urlsafeB64decode bytes with
      | error e' =>
        rw [hb] at h
        rw [← Except.error.inj h, caught, a2b_error hb]
        decide
      | ok raw =>
        simp only [hb] at h
        cases hd : cr.decrypt f raw with
        | none =>
          rw [hd] at h
          rw [← Except.error.inj h]
          decide
        | some data =>
          simp only [hd, bytesDecode] at h
          cases ht : PyText.decode data with
          | none =>
            rw [ht] at h
            rw [← Except.error.inj h]
            decide
          | some text =>
            rw [ht] at h
            cases h

/-- What the loop makes of a value. -/
def opened (cr : Cryptography) (m : SecureCredentialManager) (name : PyStr) : PyVal → PyVal
  | .str s =>
    if s != [] && name != "testnet" then ((decryptCredential cr m s).toOption.map PyVal.str).getD .none
    else .str s
  | value => value

theorem decryptField_eq (m : SecureCredentialManager) (name : PyStr) (value : PyVal) :
    decryptField cr m name value = .ok (opened cr m name value) := by
  cases value with
  | str s =>
    simp only [decryptField, opened]
    by_cases hs : (s != [] && name != "testnet") = true
    · rw [if_pos hs, if_pos hs]
      cases hd : decryptCredential cr m s with
      | ok c => rfl
      | error e =>
        dsimp only
        rw [if_pos (caught_decrypt hd)]
        rfl
    · rw [if_neg hs, if_neg hs]
  | _ => rfl

/-- The loop raises nothing. -/
theorem decryptFields_eq (m : SecureCredentialManager) (credentials : List (PyStr × PyVal)) :
    decryptFields cr m credentials = .ok (credentials.map fun nv => (nv.1, opened cr m nv.1 nv.2)) := by
  induction credentials with
  | nil => rfl
  | cons nv rest ih =>
    obtain ⟨name, value⟩ := nv
    simp [decryptFields, decryptField_eq, ih, bind, Except.bind, pure, Except.pure]

theorem getExchangeCredentials_eq (py : Interp) (getenv : PyStr → Option PyStr)
    (m : SecureCredentialManager) (exchange : PyStr) :
    getExchangeCredentials cr py getenv m exchange true = .ok ((fields (py.upper exchange)).map fun field =>
      (field.name, if m._cipher.isSome then opened cr m field.name (loadField py getenv field)
        else loadField py getenv field)) := by
  unfold getExchangeCredentials
  cases m._cipher with
  | none => rfl
  | some f => simp [decryptFields_eq, Function.comp_def]

/-- A field whose variable holds what a manager has encrypted. -/
theorem recovered_iff (h : Documented cr) {key : Option PyStr} {s t : Salt}
    {m₁ m₂ : SecureCredentialManager} (h₁ : init cr key s = .ok m₁) (h₂ : init cr key t = .ok m₂)
    {c token : PyStr} {draw : Bytes} (he : encryptCredential cr m₁ c draw = .ok token) (py : Interp)
    (getenv : PyStr → Option PyStr) {exchange : PyStr} {field : Field}
    (hfield : field ∈ fields (py.upper exchange)) (hflag : field.flag = false)
    (henv : getenv field.env = some token) :
    ∃ credentials, getExchangeCredentials cr py getenv m₂ exchange true = .ok credentials ∧
      (find (· == field.name) credentials = some (.str c) ↔ keyed key = false ∨ s = t) := by
  have hload : loadField py getenv field = .str token := by simp [loadField, hflag, henv]
  have hopen := decrypt_encrypt h h₁ h₂ he
  refine ⟨_, getExchangeCredentials_eq py getenv m₂ exchange, ?_⟩
  rw [find_field hfield, hload]
  rcases init_eq h h₂ with ⟨hk, hg⟩ | ⟨password, -, hk, hg⟩
  · rw [if_pos (.inl hk)] at hopen
    simp only [decryptCredential, hg, Except.ok.injEq] at hopen
    simp [hg, hk, hopen]
  · rcases init_eq h h₁ with ⟨hk', -⟩ | ⟨password', -, -, hf⟩
    · rw [hk] at hk'
      cases hk'
    · have hne : (token != [] && field.name != "testnet") = true := by
        simp [token_ne_nil h hf he, name_ne_testnet hfield hflag]
      rw [hg, Option.isSome_some, if_pos rfl, opened, if_pos hne, hopen]
      by_cases hst : s = t
      · simp [hst, Except.toOption]
      · simp [hst, hk, Except.toOption]

/-- For two managers made with one key and any credential: the first encrypts it, and
the second gives it back, as `decrypt_credential` and as a credential of an exchange,
exactly when there is no key or both drew the same salt. -/
theorem recovers_iff_same_salt (h : Documented cr) {key : Option PyStr} {s t : Salt}
    {m₁ m₂ : SecureCredentialManager} (h₁ : init cr key s = .ok m₁) (h₂ : init cr key t = .ok m₂)
    (c : PyStr) (draw : Bytes) :
    (Scalar c → ∃ token, encryptCredential cr m₁ c draw = .ok token) ∧
    ∀ token, encryptCredential cr m₁ c draw = .ok token →
      (decryptCredential cr m₂ token = .ok c ↔ keyed key = false ∨ s = t) ∧
      ∀ py getenv exchange field, field ∈ fields (py.upper exchange) → field.flag = false →
        getenv field.env = some token →
        ∃ credentials, getExchangeCredentials cr py getenv m₂ exchange true = .ok credentials ∧
          (find (· == field.name) credentials = some (.str c) ↔ keyed key = false ∨ s = t) := by
  refine ⟨fun hc => encrypt_ok hc draw, fun token he => ⟨?_, ?_⟩⟩
  · rw [decrypt_encrypt h h₁ h₂ he]
    split_ifs with hst
    · simp [hst]
    · simp [hst]
  · intro py getenv exchange field hfield hflag henv
    exact recovered_iff h h₁ h₂ he py getenv hfield hflag henv

/-- A package whose keys are the salts and whose tokens begin with the key. -/
def demo : Cryptography where
  available := true
  derive _ salt := (salt ++ List.replicate 32 0).take 32
  encrypt f _ data := f.key ++ data
  decrypt f token := if token.take 32 = f.key then some (token.drop 32) else none

theorem documented_demo : Documented demo where
  length_derive password salt := by simp [demo]
  salted password s t hst heq := by
    have htake : ∀ salt : Salt, (demo.derive password salt.1).take 16 = salt.1 := by
      intro salt
      simp [demo, List.take_take, List.take_left' salt.2]
    exact hst (Subtype.ext (by rw [← htake s, ← htake t, heq]))
  token_ne f draw data hnil := by
    have hkey : f.key = [] := (List.append_eq_nil_iff.mp hnil).1
    have hlength := f.length_key
    rw [hkey] at hlength
    cases hlength
  own f draw data := by simp [demo, List.take_left' f.length_key, List.drop_left' f.length_key]
  other f g draw data hfg := by
    have hkey : f.key ≠ g.key := by
      intro h
      cases f
      cases g
      exact hfg (by simpa using h)
    simp [demo, List.take_left' f.length_key, hkey]

def saltOf (b : UInt8) : Salt := ⟨List.replicate 16 b, List.length_replicate⟩

theorem recovers_iff_same_salt_demo :
    ∃ m₁ m₂, init demo (some "strong-password") (saltOf 0) = .ok m₁ ∧
      init demo (some "strong-password") (saltOf 1) = .ok m₂ ∧
      ∃ token, encryptCredential demo m₁ "secret-value" [] = .ok token ∧
        decryptCredential demo m₂ token ≠ .ok "secret-value" := by
  obtain ⟨m₁, h₁⟩ := init_ok documented_demo rfl (scalar_u "strong-password") (saltOf 0)
  obtain ⟨m₂, h₂⟩ := init_ok documented_demo rfl (scalar_u "strong-password") (saltOf 1)
  obtain ⟨hencrypt, hdecrypt⟩ := recovers_iff_same_salt documented_demo h₁ h₂ "secret-value" []
  obtain ⟨token, htoken⟩ := hencrypt (scalar_u "secret-value")
  refine ⟨m₁, m₂, h₁, h₂, token, htoken, fun hc => ?_⟩
  have hsame := (hdecrypt token htoken).1.mp hc
  revert hsame
  decide

/-- The second manager of one key finds the token of the first invalid, and the stored
credential comes out as nothing. -/
theorem second_manager_fails :
    (do
      let m₁ ← init demo (some "strong-password") (saltOf 0)
      let m₂ ← init demo (some "strong-password") (saltOf 1)
      let token ← encryptCredential demo m₁ "secret-value" []
      let stored ← getExchangeCredentials demo .ascii (fun env => if env = "OKX_SECRET" then some token else none)
        m₂ "OKX" true
      return (find (· == u "secret") stored, decryptCredential demo m₂ token)) =
      Except.ok (some PyVal.none, .error invalidToken) := by
  rfl

end Credentials
