import AiSOC.Base64
import AiSOC.EmailApproval
import AiSOC.IntegerText
import AiSOC.JsonParser
import AiSOC.TextEncoding
import AiSOC.TextSearch

/-! # Tokens of ChatOps callbacks

A callback URL carries the encoded claims, a dot and the MAC of the encoded text. The MAC is
compared before anything is decoded. -/
namespace ChatOpsToken

open CodeText JsonText
open EmailApproval (encodable)

/-- A float cut towards zero. -/
inductive Truncated where
  | whole (n : ℤ)
  | infinite
  | notANumber

/-- What the code takes from the interpreter: the MAC in hexadecimal digits, the decimal digits
of the Unicode database, floats as they are written, the text of values that are no strings, and
how deep containers may nest. -/
structure Runtime where
  hexdigest : Text → Text → Text
  decimalDigit : CodePoint → Option ℕ
  truncate : Text → Truncated
  str : Json Text → Text
  depth : ℕ

/-- `raised` is any exception that is no `ChatOpsTokenError`. -/
inductive TokenError where
  | secretRequired
  | malformed
  | invalidSignature
  | expired
  | raised
  deriving DecidableEq, Repr

structure ChatOpsTokenClaims where
  actionId : ℕ
  caseId : ℕ
  tenantId : ℕ
  choice : Text
  userRef : Text
  issuedAt : ℤ
  expiresAt : ℤ
  deriving DecidableEq, Repr

/-! ## UUIDs -/

def removeChars (cs : Text) (t : Text) : Text := (t.dropWhile (· ∈ cs)).rdropWhile (· ∈ cs)

section
variable (env : Runtime)

def int (base : ℕ) (t : Text) : Option ℤ := IntegerText.int env.decimalDigit base t

/-- `UUID(text)`, where `none` is a `ValueError`. -/
def uuid (t : Text) : Option ℕ :=
  let hex := TextSearch.remove (text "uuid:") (TextSearch.remove (text "urn:") t)
  let hex := (removeChars (text "\x7b\x7d") hex).filter (· ≠ cp '-')
  if hex.length ≠ 32 then none else (int env 16 hex).map Int.toNat

/-! ## Verification -/

/-- Both arguments are encoded, the text as ASCII. -/
def sign (payload secret : Text) : Except TokenError Text :=
  if encodable secret ∧ payload.all (·.val < 0x80) then .ok (env.hexdigest secret payload)
  else .error .raised

/-- Only an object has the method that reads a member. -/
def loadBody (payload : Text) : Except TokenError (List (Text × Json Text)) :=
  match (Base64.decode payload).bind TextEncoding.decode with
  | none => .error .malformed
  | some raw =>
    match JsonParser.loads (env.depth + 1) raw with
    | .error .decode => .error .malformed
    | .error .recursion => .error .raised
    | .ok (.obj members) => .ok members
    | .ok _ => .error .raised

/-- A `ValueError` is caught, other exceptions are not. -/
def orMalformed {α : Type} : Option α → Except TokenError α
  | none => .error .malformed
  | some x => .ok x

/-- `str(value)` -/
def strOf : Json Text → Text
  | .str s => s
  | .int n => decimal n
  | x => env.str x

/-- `UUID(value)`, which asks for the methods of a string. -/
def uuidOf : Json Text → Except TokenError ℕ
  | .str s => orMalformed (uuid env s)
  | _ => .error .raised

/-- `int(value)`, with a `TypeError` for a container and an `OverflowError` for an infinity. -/
def intOf : Json Text → Except TokenError ℤ
  | .int n => .ok n
  | .bool b => .ok (if b then 1 else 0)
  | .str s => orMalformed (int env 10 s)
  | .float x =>
    match env.truncate x with
    | .whole n => .ok n
    | .notANumber => .error .malformed
    | .infinite => .error .raised
  | _ => .error .raised

/-- `body[key]` -/
def item (body : List (Text × Json Text)) (key : Text) : Except TokenError (Json Text) :=
  orMalformed (member body key)

def readClaims (body : List (Text × Json Text)) : Except TokenError ChatOpsTokenClaims := do
  let actionId ← item body (text "aid") >>= uuidOf env
  let caseId ← item body (text "cid") >>= uuidOf env
  let tenantId ← item body (text "tid") >>= uuidOf env
  let choice ← item body (text "ch")
  let issuedAt ← item body (text "iat") >>= intOf env
  let expiresAt ← item body (text "exp") >>= intOf env
  .ok {
    actionId, caseId, tenantId, issuedAt, expiresAt
    choice := strOf env choice
    userRef := ((member body (text "ur")).map (strOf env)).getD [] }

def isVersion : Option (Json Text) → Bool
  | some (.str v) => v = text "v1"
  | _ => false

def payloadOf (token : Text) : Text := token.takeWhile (· ≠ cp '.')

def signatureOf (token : Text) : Text := (token.dropWhile (· ≠ cp '.')).drop 1

/-- What follows a signature that is right. -/
def readBody (now : ℤ) (body : List (Text × Json Text)) : Except TokenError ChatOpsTokenClaims :=
  if !isVersion (member body (text "v")) then .error .malformed
  else do
    let claims ← readClaims env body
    if claims.expiresAt ≤ now then .error .expired else .ok claims

/-- The comparison of two strings takes ASCII only. -/
def verifyToken (token secret : Text) (now : ℤ) : Except TokenError ChatOpsTokenClaims :=
  if secret = [] then .error .secretRequired
  else if token.count (cp '.') ≠ 1 then .error .malformed
  else do
    let expected ← sign env (payloadOf token) secret
    if !(signatureOf token).all (·.val < 0x80) then .error .raised
    else if expected ≠ signatureOf token then .error .invalidSignature
    else loadBody env (payloadOf token) >>= readBody env now

/-! ## What is not reported as a token error -/

inductive Kind where
  | uuid
  | any
  | integer

/-- The keys of the claims, in the order in which they are read. -/
def claimKeys : List (Text × Kind) :=
  [(text "aid", .uuid), (text "cid", .uuid), (text "tid", .uuid), (text "ch", .any),
    (text "iat", .integer), (text "exp", .integer)]

def Kind.Reads : Kind → Json Text → Prop
  | .uuid, .str s => (ChatOpsToken.uuid env s).isSome
  | .any, _ => True
  | .integer, .int _ => True
  | .integer, .bool _ => True
  | .integer, .str s => (int env 10 s).isSome
  | .integer, .float x => ∃ n, env.truncate x = .whole n
  | _, _ => False

/-- A value of another type, or an infinity. -/
def Kind.Trips : Kind → Json Text → Prop
  | .uuid, .str _ => False
  | .uuid, _ => True
  | .integer, .null => True
  | .integer, .arr _ => True
  | .integer, .obj _ => True
  | .integer, .float x => env.truncate x = .infinite
  | _, _ => False

/-- Some key has a value that trips its reader, and those before it are read. -/
def Trips (body : List (Text × Json Text)) : List (Text × Kind) → Prop
  | [] => False
  | (key, kind) :: rest => (∃ x, member body key = some x ∧ kind.Trips env x) ∨
      (∃ x, member body key = some x ∧ kind.Reads env x) ∧ Trips body rest

/-- What the text encodes nests too deep, or is no object. -/
def NoObject (depth : ℕ) (t : Text) : Prop :=
  ∃ raw, (Base64.decode t).bind TextEncoding.decode = some raw ∧
    (JsonParser.loads (depth + 1) raw = .error .recursion ∨
      ∃ x, JsonParser.loads (depth + 1) raw = .ok x ∧ ∀ members, x ≠ .obj members)

/-- The kinds of tokens that end in another exception. -/
inductive Escapes (token secret : Text) : Prop where
  | secret (h : encodable secret = false)
  | payload (h : ∃ c ∈ payloadOf token, 0x80 ≤ c.val)
  | signature (h : ∃ c ∈ signatureOf token, 0x80 ≤ c.val)
  | body (hsigned : env.hexdigest secret (payloadOf token) = signatureOf token)
      (h : NoObject env.depth (payloadOf token))
  | claim (hsigned : env.hexdigest secret (payloadOf token) = signatureOf token)
      (body : List (Text × Json Text)) (hbody : loadBody env (payloadOf token) = .ok body)
      (hversion : member body (text "v") = some (.str (text "v1")))
      (h : Trips env body claimKeys)

variable {env}

theorem error_bind {ε α β : Type} (e : ε) (f : α → Except ε β) :
    Except.error e >>= f = .error e :=
  rfl

theorem ok_bind {ε α β : Type} (a : α) (f : α → Except ε β) : Except.ok a >>= f = f a :=
  rfl

theorem bind_error {ε α β : Type} {x : Except ε α} {f : α → Except ε β} {e : ε} :
    x >>= f = .error e ↔ x = .error e ∨ ∃ a, x = .ok a ∧ f a = .error e := by
  cases x with
  | error e' =>
    rw [error_bind]
    exact ⟨fun h => Or.inl (congrArg _ (Except.error.inj h)), fun h => h.elim
      (fun h => congrArg _ (Except.error.inj h)) nofun⟩
  | ok a =>
    rw [ok_bind]
    exact ⟨fun h => Or.inr ⟨a, rfl, h⟩, fun h => h.elim nofun
      fun ⟨b, hb, h⟩ => Except.ok.inj hb ▸ h⟩

/-- For a continuation that fails so or not, whatever it is given. -/
theorem bind_error_of {ε α β : Type} {x : Except ε α} {f : α → Except ε β} {e : ε} {P : Prop}
    (h : ∀ a, f a = .error e ↔ P) :
    x >>= f = .error e ↔ x = .error e ∨ (∃ a, x = .ok a) ∧ P := by
  simp only [bind_error, h, exists_and_right]

theorem orMalformed_ne_raised {α : Type} (x : Option α) : orMalformed x ≠ .error .raised := by
  cases x with
  | none => exact nofun
  | some x => exact nofun

theorem orMalformed_ok {α : Type} {x : Option α} {a : α} :
    orMalformed x = .ok a ↔ x = some a := by
  cases x with
  | none => exact ⟨nofun, nofun⟩
  | some x => rw [orMalformed, Except.ok.injEq, Option.some.injEq]

theorem item_ok {body : List (Text × Json Text)} {key : Text} {x : Json Text} :
    item body key = .ok x ↔ member body key = some x :=
  orMalformed_ok

theorem item_ne_raised {body : List (Text × Json Text)} {key : Text} :
    item body key ≠ .error .raised :=
  orMalformed_ne_raised _

theorem uuidOf_raised {x : Json Text} : uuidOf env x = .error .raised ↔ Kind.uuid.Trips env x := by
  cases x with
  | str s => exact iff_of_false (orMalformed_ne_raised _) not_false
  | _ => exact iff_of_true rfl trivial

theorem uuidOf_ok {x : Json Text} : (∃ n, uuidOf env x = .ok n) ↔ Kind.uuid.Reads env x := by
  cases x with
  | str s =>
    rw [Kind.Reads, Option.isSome_iff_exists]
    exact exists_congr fun n => orMalformed_ok
  | _ => exact iff_of_false nofun not_false

theorem intOf_raised {x : Json Text} : intOf env x = .error .raised ↔
    Kind.integer.Trips env x := by
  cases x with
  | str s => exact iff_of_false (orMalformed_ne_raised _) not_false
  | float x =>
    rw [intOf, Kind.Trips]
    cases env.truncate x with
    | infinite => exact iff_of_true rfl rfl
    | _ => exact iff_of_false nofun nofun
  | int n => exact iff_of_false nofun not_false
  | bool b => exact iff_of_false nofun not_false
  | _ => exact iff_of_true rfl trivial

theorem intOf_ok {x : Json Text} : (∃ n, intOf env x = .ok n) ↔ Kind.integer.Reads env x := by
  cases x with
  | str s =>
    rw [Kind.Reads, Option.isSome_iff_exists]
    exact exists_congr fun n => orMalformed_ok
  | float x =>
    rw [intOf, Kind.Reads]
    cases env.truncate x with
    | whole n => exact iff_of_true ⟨n, rfl⟩ ⟨n, rfl⟩
    | _ => exact iff_of_false nofun nofun
  | int n => exact iff_of_true ⟨n, rfl⟩ trivial
  | bool b => exact iff_of_true ⟨_, rfl⟩ trivial
  | _ => exact iff_of_false nofun not_false

/-- One key of the claims, and what is left to read. -/
theorem read_raised {α β : Type} {body : List (Text × Json Text)} {key : Text} {kind : Kind}
    {rest : List (Text × Kind)} {read : Json Text → Except TokenError α}
    {f : α → Except TokenError β}
    (htrips : ∀ {x}, read x = .error .raised ↔ kind.Trips env x)
    (hreads : ∀ {x}, (∃ a, read x = .ok a) ↔ kind.Reads env x)
    (hrest : ∀ a, f a = .error .raised ↔ Trips env body rest) :
    item body key >>= read >>= f = .error .raised ↔ Trips env body ((key, kind) :: rest) := by
  rw [bind_error_of hrest, Trips, bind_error, or_iff_right item_ne_raised]
  refine or_congr (by simp only [item_ok, htrips]) (and_congr_left fun _ => ?_)
  simp only [← hreads]
  constructor
  · rintro ⟨a, hbind⟩
    cases hitem : item body key with
    | error e =>
      rw [hitem, error_bind] at hbind
      cases hbind
    | ok x =>
      rw [hitem, ok_bind] at hbind
      exact ⟨x, item_ok.mp hitem, a, hbind⟩
  · rintro ⟨x, hitem, a, hread⟩
    exact ⟨a, by rw [item_ok.mpr hitem, ok_bind, hread]⟩

theorem readClaims_raised (body : List (Text × Json Text)) :
    readClaims env body = .error .raised ↔ Trips env body claimKeys := by
  refine read_raised uuidOf_raised uuidOf_ok fun actionId => ?_
  refine read_raised uuidOf_raised uuidOf_ok fun caseId => ?_
  refine read_raised uuidOf_raised uuidOf_ok fun tenantId => ?_
  have hany : ∀ {x : Json Text}, (Except.ok x : Except TokenError _) = .error .raised ↔
      Kind.any.Trips env x := iff_of_false nofun not_false
  have hpresent : ∀ {x : Json Text}, (∃ y, (Except.ok x : Except TokenError _) = .ok y) ↔
      Kind.any.Reads env x := iff_of_true ⟨_, rfl⟩ trivial
  rw [show item body (text "ch") = item body (text "ch") >>= Except.ok by
    cases item body (text "ch") <;> rfl]
  refine read_raised hany hpresent fun choice => ?_
  refine read_raised intOf_raised intOf_ok fun issuedAt => ?_
  exact read_raised intOf_raised intOf_ok fun expiresAt => iff_of_false nofun not_false

theorem loadBody_raised {payload : Text} :
    loadBody env payload = .error .raised ↔ NoObject env.depth payload := by
  rw [loadBody, NoObject]
  cases (Base64.decode payload).bind TextEncoding.decode with
  | none => exact iff_of_false nofun (fun ⟨_, h, _⟩ => nomatch h)
  | some raw =>
    simp only [Option.some.injEq, exists_eq_left']
    cases JsonParser.loads (env.depth + 1) raw with
    | error e =>
      cases e with
      | decode => exact iff_of_false nofun (by simp)
      | recursion => exact iff_of_true rfl (Or.inl rfl)
    | ok x =>
      cases x with
      | obj members => exact iff_of_false nofun (by simp)
      | _ => exact iff_of_true rfl (Or.inr ⟨_, rfl, nofun⟩)

theorem isVersion_iff {x : Option (Json Text)} :
    isVersion x = true ↔ x = some (.str (text "v1")) := by
  cases x with
  | none => exact iff_of_false nofun nofun
  | some x =>
    cases x with
    | str s => simp only [isVersion, decide_eq_true_eq, Option.some.injEq, Json.str.injEq]
    | _ => exact iff_of_false nofun nofun

theorem readBody_raised {now : ℤ} {body : List (Text × Json Text)} :
    readBody env now body = .error .raised ↔
      member body (text "v") = some (.str (text "v1")) ∧ Trips env body claimKeys := by
  rw [readBody, ← isVersion_iff]
  cases isVersion (member body (text "v")) with
  | false => exact iff_of_false nofun (fun h => nomatch h.1)
  | true =>
    rw [← readClaims_raised, if_neg (by decide), bind_error]
    constructor
    · rintro (h | ⟨claims, -, hexpired⟩)
      · exact ⟨rfl, h⟩
      · split_ifs at hexpired
        cases hexpired
    · rintro ⟨-, h⟩
      exact Or.inl h

theorem not_ascii {t : Text} :
    (!t.all (·.val < 0x80)) = true ↔ ∃ c ∈ t, 0x80 ≤ c.val := by
  rw [Bool.not_eq_true', List.all_eq_false]
  simp only [decide_eq_true_eq, not_lt]

theorem sign_ok {payload secret signature : Text} :
    sign env payload secret = .ok signature ↔
      (encodable secret = true ∧ payload.all (·.val < 0x80) = true) ∧
        env.hexdigest secret payload = signature := by
  rw [sign]
  split_ifs with h
  · rw [Except.ok.injEq, and_iff_right h]
  · exact iff_of_false nofun fun hsigned => h hsigned.1

theorem sign_raised {payload secret : Text} :
    sign env payload secret = .error .raised ↔
      encodable secret = false ∨ ∃ c ∈ payload, 0x80 ≤ c.val := by
  rw [← not_ascii, ← Bool.not_eq_true, Bool.not_eq_true', ← Bool.not_eq_true, ← not_and_or, sign]
  split_ifs with h
  · exact iff_of_false nofun (not_not_intro h)
  · exact iff_of_true rfl h

/-- A signed token ends in another exception where its body does. -/
theorem readSigned_raised {token secret : Text} {now : ℤ}
    (hsigned : env.hexdigest secret (payloadOf token) = signatureOf token)
    (hescapes : loadBody env (payloadOf token) >>= readBody env now = .error .raised) :
    Escapes env token secret := by
  rcases bind_error.mp hescapes with h | ⟨body, hbody, h⟩
  · exact .body hsigned (loadBody_raised.mp h)
  · obtain ⟨hversion, htrips⟩ := readBody_raised.mp h
    exact .claim hsigned body hbody hversion htrips

/-- The ways to another exception, in a token with one dot. -/
theorem verifyToken_raised {token secret : Text} {now : ℤ} :
    verifyToken env token secret now = .error .raised ↔
      secret ≠ [] ∧ token.count (cp '.') = 1 ∧ Escapes env token secret := by
  rw [verifyToken]
  by_cases hsecret : secret = []
  · rw [if_pos hsecret]
    exact iff_of_false nofun fun h => h.1 hsecret
  by_cases hcount : token.count (cp '.') = 1
  swap
  · rw [if_neg hsecret, if_pos hcount]
    exact iff_of_false nofun fun h => hcount h.2.1
  rw [if_neg hsecret, if_neg (not_not_intro hcount), bind_error, sign_raised]
  constructor
  · rintro ((h | h) | ⟨expected, hsign, h⟩)
    · exact ⟨hsecret, hcount, .secret h⟩
    · exact ⟨hsecret, hcount, .payload h⟩
    · split_ifs at h with hascii hequal
      · exact ⟨hsecret, hcount, .signature (not_ascii.mp hascii)⟩
      · cases h
      · have hdigest := (sign_ok.mp hsign).2.trans (not_ne_iff.mp hequal)
        exact ⟨hsecret, hcount, readSigned_raised hdigest h⟩
  · rintro ⟨-, -, hescapes⟩
    by_cases hsign : encodable secret = false ∨ ∃ c ∈ payloadOf token, 0x80 ≤ c.val
    · exact Or.inl hsign
    right
    -- everything is encoded, so that the MAC is computed
    refine ⟨_, sign_ok.mpr ⟨?_, rfl⟩, ?_⟩
    · rwa [← not_ascii, ← Bool.not_eq_true, Bool.not_eq_true', ← Bool.not_eq_true, ← not_and_or,
        not_not] at hsign
    by_cases hascii : ∃ c ∈ signatureOf token, 0x80 ≤ c.val
    · rw [if_pos (not_ascii.mpr hascii)]
    rw [if_neg (fun h => hascii (not_ascii.mp h))]
    cases hescapes with
    | secret h => exact absurd (Or.inl h) hsign
    | payload h => exact absurd (Or.inr h) hsign
    | signature h => exact absurd h hascii
    | body hsigned h =>
      rw [if_neg (not_not_intro hsigned), bind_error]
      exact Or.inl (loadBody_raised.mpr h)
    | claim hsigned body hbody hversion h =>
      rw [if_neg (not_not_intro hsigned), bind_error]
      exact Or.inr ⟨body, hbody, readBody_raised.mpr ⟨hversion, h⟩⟩

end

end ChatOpsToken
