import Mathlib.Algebra.Order.Ring.Rat
import Mathlib.Data.Rat.Defs
import AiSOC.Base64
import AiSOC.JsonRoundTrip
import AiSOC.TextEncoding

/-! # Approval by email

A link in an email carries a signed token: a JSON envelope with the decision, the two ids, the
expiry and a MAC over the four, which are joined with bars. -/
namespace EmailApproval

open CodeText JsonText JsonRoundTrip

/-- What the code takes from the interpreter: the MAC in hexadecimal digits, floats, the text of
values that are no strings, and how deep containers may nest. -/
structure Runtime (F : Type) where
  hexdigest : Text → Text → Text
  hex : ∀ secret payload, (hexdigest secret payload).all (· ∈ text "0123456789abcdef") = true
  /-- `none` is an `OverflowError`. -/
  ofInt : ℤ → Option F
  add : F → F → F
  /-- `none` for an infinity or NaN. -/
  truncate : F → Option ℤ
  gt : F → F → Bool
  isZero : Text → Bool
  str : Json Text → Text
  depth : ℕ

structure ApprovalToken where
  decision : Text
  actionId : Text
  caseId : Text
  expiresAt : ℤ
  deriving DecidableEq, Repr

structure IssueCall (F : Type) where
  decision : Text
  actionId : Text
  caseId : Text
  ttlSeconds : ℤ
  now : F

/-- `raised` is any exception that is no `EmailApprovalError`. -/
inductive TokenError where
  | unsupportedDecision (decision : Text)
  | secretEmpty
  | tokenEmpty
  | malformed
  | actionIdMissing
  | expiresAtMissing
  | signatureMismatch
  | expired
  | raised
  deriving DecidableEq, Repr

def decisions : List Text := [text "approved", text "rejected"]

@[grind =]
def canonicalPayload (decision actionId caseId : Text) (expiresAt : ℤ) : Text :=
  decision ++ cp '|' :: (actionId ++ cp '|' :: (caseId ++ cp '|' :: decimal expiresAt))

instance (c : CodePoint) : Decidable (IsSurrogate c) := inferInstanceAs (Decidable (_ ∧ _))

/-- Whether UTF-8 has an encoding for the text. -/
@[grind =]
def encodable (t : Text) : Bool := t.all fun c => ¬IsSurrogate c

/-- The members of an envelope, sorted by key. -/
def envelope (token : ApprovalToken) (signature : Text) : List (Text × Scalar) :=
  [(text "a", .str token.actionId), (text "c", .str token.caseId),
    (text "d", .str token.decision), (text "e", .int token.expiresAt),
    (text "s", .str signature)]

def pack (token : ApprovalToken) (signature : Text) : Text :=
  Base64.encode (TextEncoding.asciiBytes (writeObject (envelope token signature)))

/-- The last of two members with one key counts. -/
def field (members : List (Text × Json Text)) (key : Text) : Option (Json Text) :=
  (members.reverse.find? (·.1 = key)).map (·.2)

/-- `isinstance(value, int)`, which a truth value is. -/
def intField : Option (Json Text) → Option ℤ
  | some (.int n) => some n
  | some (.bool b) => some (if b then 1 else 0)
  | _ => none

section
variable {F : Type} (env : Runtime F) (secret : Text)

@[grind =]
def hmacHex (payload : Text) : Option Text :=
  if encodable secret ∧ encodable payload then some (env.hexdigest secret payload) else none

@[grind =]
def expiresAt (call : IssueCall F) : Option ℤ :=
  (env.ofInt (max 60 call.ttlSeconds)).bind fun seconds =>
    env.truncate (env.add call.now seconds)

/-- The code writes no integer of more digits than the interpreter allows. -/
@[grind =]
def issueToken (call : IssueCall F) : Except TokenError Text :=
  if call.decision ∉ decisions then .error (.unsupportedDecision call.decision)
  else if secret = [] then .error .secretEmpty
  else if call.actionId = [] then .error .actionIdMissing
  else
    match expiresAt env call with
    | none => .error .raised
    | some expires =>
      if 10 ^ JsonParser.maxIntDigits ≤ expires.natAbs then .error .raised
      else
        match hmacHex env secret
          (canonicalPayload call.decision call.actionId call.caseId expires) with
        | none => .error .raised
        | some signature =>
          .ok (pack ⟨call.decision, call.actionId, call.caseId, expires⟩ signature)

/-- `str(value or "")` -/
def fieldText : Option (Json Text) → Text
  | none => []
  | some .null => []
  | some (.bool b) => if b then text "True" else []
  | some (.int n) => if n = 0 then [] else decimal n
  | some (.float x) => if env.isZero x then [] else env.str (.float x)
  | some (.str s) => s
  | some (.arr []) => []
  | some (.obj []) => []
  | some x => env.str x

/-- Only an object has the method that reads a field. -/
def loadEnvelope (token : Text) : Except TokenError (List (Text × Json Text)) :=
  match (Base64.decode token).bind TextEncoding.decode with
  | none => .error .malformed
  | some raw =>
    match JsonParser.loads (env.depth + 1) raw with
    | .error .decode => .error .malformed
    | .error .recursion => .error .raised
    | .ok (.obj members) => .ok members
    | .ok _ => .error .raised

/-- What the envelope says, with its signature. -/
def readFields (members : List (Text × Json Text)) : Except TokenError (ApprovalToken × Text) :=
  let decision := fieldText env (field members (text "d"))
  let actionId := fieldText env (field members (text "a"))
  let caseId := fieldText env (field members (text "c"))
  let signature := fieldText env (field members (text "s"))
  if decision ∉ decisions then .error (.unsupportedDecision decision)
  else if actionId = [] then .error .actionIdMissing
  else
    match intField (field members (text "e")) with
    | none => .error .expiresAtMissing
    | some expires => .ok (⟨decision, actionId, caseId, expires⟩, signature)

/-- The comparison of two strings takes ASCII only. -/
def check (now : F) (token : ApprovalToken) (signature : Text) : Except TokenError ApprovalToken :=
  match hmacHex env secret
    (canonicalPayload token.decision token.actionId token.caseId token.expiresAt) with
  | none => .error .raised
  | some expected =>
    if ¬signature.all (·.val < 0x80) then .error .raised
    else if expected ≠ signature then .error .signatureMismatch
    else
      match env.ofInt token.expiresAt with
      | none => .error .raised
      | some limit => if env.gt now limit then .error .expired else .ok token

def presented (token : Text) : Except TokenError (ApprovalToken × Text) :=
  (loadEnvelope env token).bind (readFields env)

def verifyToken (token : Text) (now : F) : Except TokenError ApprovalToken :=
  if secret = [] then .error .secretEmpty
  else if token = [] then .error .tokenEmpty
  else (presented env token).bind fun (fields, signature) => check env secret now fields signature

@[grind =]
def payload (token : ApprovalToken) : Text :=
  canonicalPayload token.decision token.actionId token.caseId token.expiresAt

/-- The call issued a token, and these are the fields that it was given. -/
def Grants (call : IssueCall F) (token : ApprovalToken) : Prop :=
  (∃ t, issueToken env secret call = .ok t) ∧ expiresAt env call = some token.expiresAt ∧
    call.decision = token.decision ∧ call.actionId = token.actionId ∧ call.caseId = token.caseId

def NotPassed (expires : ℤ) (now : F) : Prop :=
  ∃ limit, env.ofInt expires = some limit ∧ env.gt now limit = false

/-- The ideal MAC, for what one token presents: its signature is right for no payload but those
that the calls had signed. -/
def MacIdeal (calls : Set (IssueCall F)) (token : Text) : Prop :=
  ∀ fields signature, presented env token = .ok (fields, signature) →
    hmacHex env secret (payload fields) = some signature →
    ∃ call ∈ calls, ∃ granted, Grants env secret call granted ∧ payload granted = payload fields

/-- What is accepted was granted by one of the calls and has not expired. -/
def Unforgeable (calls : Set (IssueCall F)) (now : F) : Prop :=
  ∀ token fields, MacIdeal env secret calls token →
    verifyToken env secret token now = .ok fields →
    (∃ call ∈ calls, Grants env secret call fields) ∧ NotPassed env fields.expiresAt now

/-- Another place for the bar between the two ids of a token that is still good gives the ids
of another token that was granted. -/
def SplitsGranted (calls : Set (IssueCall F)) (now : F) : Prop :=
  ∀ call ∈ calls, ∀ token, Grants env secret call token → NotPassed env token.expiresAt now →
    ∀ actionId caseId, actionId ≠ [] →
      actionId ++ cp '|' :: caseId = token.actionId ++ cp '|' :: token.caseId →
      ∃ other ∈ calls, Grants env secret other
        ⟨token.decision, actionId, caseId, token.expiresAt⟩

variable {env secret} {token : ApprovalToken} {signature t : Text} {call : IssueCall F} {now : F}

theorem hmacHex_some {p : Text} : hmacHex env secret p = some signature ↔
    (encodable secret = true ∧ encodable p = true) ∧ env.hexdigest secret p = signature := by
  rw [hmacHex]
  split_ifs with h
  · simp only [h, and_self, Option.some.injEq, true_and]
  · simp only [h, false_and]

theorem issueToken_ok (h : issueToken env secret call = .ok t) :
    call.decision ∈ decisions ∧ secret ≠ [] ∧ call.actionId ≠ [] ∧
      ∃ expires, expiresAt env call = some expires ∧
        expires.natAbs < 10 ^ JsonParser.maxIntDigits ∧ ∃ signature, hmacHex env secret
          (canonicalPayload call.decision call.actionId call.caseId expires) = some signature ∧
          t = pack ⟨call.decision, call.actionId, call.caseId, expires⟩ signature := by
  rw [issueToken] at h
  split_ifs at h with hdecision hsecret haction
  cases hexpires : expiresAt env call with
  | none =>
    rw [hexpires] at h
    cases h
  | some expires =>
    rw [hexpires] at h
    dsimp only at h
    split_ifs at h with hlong
    split at h
    · cases h
    · rename_i signature hmac
      exact ⟨hdecision, hsecret, haction, expires, rfl, Nat.lt_of_not_le hlong,
        signature, hmac, (Except.ok.inj h).symm⟩

theorem grants_spec (h : Grants env secret call token) :
    token.decision ∈ decisions ∧ secret ≠ [] ∧ token.actionId ≠ [] ∧
      token.expiresAt.natAbs < 10 ^ JsonParser.maxIntDigits ∧
      encodable secret = true ∧ encodable (payload token) = true := by
  obtain ⟨⟨t, hissue⟩, hexpires, hdecision, haction, hcase⟩ := h
  obtain ⟨hdecisions, hsecret, hne, expires, hexpires', hlong, signature, hmac, -⟩ :=
    issueToken_ok hissue
  obtain rfl := Option.some.inj (hexpires.symm.trans hexpires')
  rw [hdecision] at hdecisions hmac
  rw [haction] at hne hmac
  rw [hcase] at hmac
  obtain ⟨⟨hsecret', hpayload⟩, -⟩ := hmacHex_some.mp hmac
  exact ⟨hdecisions, hsecret, hne, hlong, hsecret', hpayload⟩

theorem encodable_append {a b : Text} :
    encodable (a ++ b) = true ↔ encodable a = true ∧ encodable b = true := by
  rw [encodable, List.all_append, Bool.and_eq_true, encodable, encodable]

theorem encodable_tail {c : CodePoint} {a : Text} (h : encodable (c :: a) = true) :
    encodable a = true := by
  rw [encodable, List.all_cons, Bool.and_eq_true] at h
  exact h.2

theorem encodable_iff {a : Text} : encodable a = true ↔ ∀ c ∈ a, ¬IsSurrogate c := by
  simp only [encodable, List.all_eq_true, decide_eq_true_eq]

theorem encodable_payload : encodable (payload token) = true ↔ encodable token.decision = true ∧
    encodable (token.actionId ++ cp '|' :: token.caseId) = true ∧
    encodable (decimal token.expiresAt) = true := by
  have hbar : ∀ b, encodable (cp '|' :: b) = encodable b := fun b => rfl
  simp only [payload, canonicalPayload, encodable_append, hbar, and_assoc]

theorem bar_notMem_digits (n : ℕ) : cp '|' ∉ digits n := by
  intro hbar
  exact absurd (isDigit_of_mem_digits hbar) (by decide)

theorem bar_notMem_decimal (z : ℤ) : cp '|' ∉ decimal z := by
  rw [decimal]
  split_ifs
  · rw [List.mem_cons, not_or]
    exact ⟨by decide, bar_notMem_digits _⟩
  · exact bar_notMem_digits _

/-- The payload fixes the decision, the expiry and the two ids with their bar, but not which bar
that is. -/
theorem payload_eq_iff {other : ApprovalToken} (h : token.decision ∈ decisions)
    (h' : other.decision ∈ decisions) : payload token = payload other ↔
      token.decision = other.decision ∧ token.expiresAt = other.expiresAt ∧
        token.actionId ++ cp '|' :: token.caseId = other.actionId ++ cp '|' :: other.caseId := by
  have hbar : ∀ d ∈ decisions, cp '|' ∉ d := by decide
  have hids : ∀ x : ApprovalToken, payload x = x.decision ++ cp '|' ::
      ((x.actionId ++ cp '|' :: x.caseId) ++ cp '|' :: decimal x.expiresAt) := by
    intro x
    rw [payload, canonicalPayload, List.append_assoc, List.cons_append]
  rw [hids, hids]
  constructor
  · intro heq
    obtain ⟨hdecision, hrest⟩ := append_cons_inj (hbar _ h) (hbar _ h') heq
    obtain ⟨hids, hexpires⟩ := append_cons_inj_right (bar_notMem_decimal _)
      (bar_notMem_decimal _) hrest
    exact ⟨hdecision, decimal_inj hexpires, hids⟩
  · rintro ⟨hdecision, hexpires, hids⟩
    rw [hdecision, hexpires, hids]

theorem field_envelope (token : ApprovalToken) (signature : Text) :
    let members := (envelope token signature).map jsonMember
    field members (text "d") = some (.str token.decision) ∧
      field members (text "a") = some (.str token.actionId) ∧
      field members (text "c") = some (.str token.caseId) ∧
      field members (text "s") = some (.str signature) ∧
      field members (text "e") = some (.int token.expiresAt) :=
  ⟨rfl, rfl, rfl, rfl, rfl⟩

/-- What was packed is presented again. -/
theorem presented_pack (hdecision : token.decision ∈ decisions) (haction : token.actionId ≠ [])
    (hlong : token.expiresAt.natAbs < 10 ^ JsonParser.maxIntDigits)
    (hpayload : encodable (payload token) = true)
    (hsignature : ∀ c ∈ signature, ¬IsSurrogate c) :
    presented env (pack token signature) = .ok (token, signature) := by
  obtain ⟨hdecision', hids, -⟩ := encodable_payload.mp hpayload
  obtain ⟨haction', hcase⟩ := encodable_append.mp hids
  have hkey : ∀ key ∈ [text "a", text "c", text "d", text "e", text "s"],
      ∀ c ∈ key, ¬IsSurrogate c := by
    simp only [← encodable_iff]
    decide
  have hreadable : ∀ m ∈ envelope token signature, Readable m := by
    simp only [envelope, List.forall_mem_cons, List.not_mem_nil, false_imp_iff, implies_true,
      and_true] at hkey ⊢
    obtain ⟨ha, hc, hd, he, hs⟩ := hkey
    exact ⟨⟨ha, encodable_iff.mp haction'⟩, ⟨hc, encodable_iff.mp (encodable_tail hcase)⟩,
      ⟨hd, encodable_iff.mp hdecision'⟩, ⟨he, hlong⟩, ⟨hs, hsignature⟩⟩
  have hload : loadEnvelope env (pack token signature) =
      .ok ((envelope token signature).map jsonMember) := by
    rw [loadEnvelope, pack, Base64.decode_encode, Option.bind_some,
      TextEncoding.decode_asciiBytes (isAscii_writeObject _)]
    dsimp only
    rw [loads_writeObject env.depth hreadable]
  rw [presented, hload]
  change readFields env ((envelope token signature).map jsonMember) = _
  obtain ⟨hd, ha, hc, hs, he⟩ := field_envelope token signature
  rw [readFields, hd, ha, hc, hs, he]
  exact (if_neg (not_not.mpr hdecision)).trans (if_neg haction)

theorem verifyToken_pack (hsecret : secret ≠ []) (hdecision : token.decision ∈ decisions)
    (haction : token.actionId ≠ [])
    (hlong : token.expiresAt.natAbs < 10 ^ JsonParser.maxIntDigits)
    (hmac : hmacHex env secret (payload token) = some signature)
    (hnow : NotPassed env token.expiresAt now) :
    verifyToken env secret (pack token signature) now = .ok token := by
  obtain ⟨⟨-, hpayload⟩, hdigest⟩ := hmacHex_some.mp hmac
  have hascii : signature.all (·.val < 0x80) = true := by
    have hdigits : ∀ c ∈ text "0123456789abcdef", c.val < 0x80 :=  by
      simp [text, cp]
    have hhex := List.all_eq_true.mp (env.hex secret (payload token))
    rw [hdigest] at hhex
    rw [List.all_eq_true]
    intro c hc
    exact decide_eq_true (hdigits c (of_decide_eq_true (hhex c hc)))
  have hsignature : ∀ c ∈ signature, ¬IsSurrogate c := by
    intro c hc hsurrogate
    have hlt := of_decide_eq_true (List.all_eq_true.mp hascii c hc)
    have hle := hsurrogate.1
    omega
  have hpresented : presented env (pack token signature) = .ok (token, signature) :=
    presented_pack hdecision haction hlong hpayload hsignature
  have hne : pack token signature ≠ [] := by
    intro hnil
    have hdecode := Base64.decode_encode
      (TextEncoding.asciiBytes (writeObject (envelope token signature)))
    rw [pack] at hnil
    rw [hnil] at hdecode
    exact absurd (Option.some.inj hdecode) (List.cons_ne_nil _ _).symm
  obtain ⟨limit, hlimit, hgt⟩ := hnow
  rw [verifyToken, if_neg hsecret, if_neg hne, hpresented]
  change check env secret now token signature = _
  rw [check, ← payload, hmac]
  dsimp only
  rw [if_neg (not_not.mpr hascii), if_neg (not_not.mpr rfl), hlimit]
  dsimp only
  rw [if_neg (by rw [hgt]; exact Bool.false_ne_true)]

/-- A token that was issued is accepted until it expires. -/
theorem verifyToken_issueToken (h : issueToken env secret call = .ok t)
    (hgrants : Grants env secret call token) (hnow : NotPassed env token.expiresAt now) :
    verifyToken env secret t now = .ok token := by
  obtain ⟨decision, actionId, caseId, expires⟩ := token
  obtain ⟨-, hexpires, rfl, rfl, rfl⟩ := hgrants
  obtain ⟨hdecision, hsecret, haction, expires', hexpires', hlong, signature, hmac, rfl⟩ :=
    issueToken_ok h
  obtain rfl := Option.some.inj (hexpires.symm.trans hexpires')
  exact verifyToken_pack hsecret hdecision haction hlong hmac hnow

theorem verifyToken_ok (h : verifyToken env secret t now = .ok token) :
    token.decision ∈ decisions ∧ token.actionId ≠ [] ∧ NotPassed env token.expiresAt now ∧
      ∃ signature, presented env t = .ok (token, signature) ∧
        hmacHex env secret (payload token) = some signature := by
  rw [verifyToken] at h
  split_ifs at h
  obtain ⟨⟨fields, signature⟩, hpresented, hcheck⟩ := JsonParser.bind_ok h
  dsimp only at hcheck
  rw [check, ← payload] at hcheck
  split at hcheck
  · cases hcheck
  · rename_i expected hmac
    split_ifs at hcheck with hascii heq
    split at hcheck
    · cases hcheck
    · rename_i limit hlimit
      split_ifs at hcheck with hgt
      obtain rfl := Except.ok.inj hcheck
      rw [not_not] at heq
      rw [heq] at hmac
      obtain ⟨members, -, hread⟩ := JsonParser.bind_ok hpresented
      rw [readFields] at hread
      split_ifs at hread with hdecision haction
      split at hread
      · cases hread
      · obtain ⟨rfl, -⟩ := Prod.mk.inj (Except.ok.inj hread)
        exact ⟨hdecision, haction, ⟨limit, hlimit, Bool.eq_false_of_not_eq_true hgt⟩,
          signature, hpresented, hmac⟩

/-- Moving the bar between the two ids changes nothing that is signed. -/
theorem unforgeable_iff (env : Runtime F) (secret : Text) (calls : Set (IssueCall F)) (now : F) :
    Unforgeable env secret calls now ↔ SplitsGranted env secret calls now := by
  constructor
  · intro h call hcall token hgrants hnow actionId caseId hne hids
    obtain ⟨hdecision, hsecret, -, hlong, hencodable, hpayload⟩ := grants_spec hgrants
    let moved : ApprovalToken := ⟨token.decision, actionId, caseId, token.expiresAt⟩
    have hmoved : moved.decision ∈ decisions := hdecision
    have haction : moved.actionId ≠ [] := hne
    have heq : payload moved = payload token :=
      (payload_eq_iff hmoved hdecision).mpr ⟨rfl, rfl, hids⟩
    have hmac : hmacHex env secret (payload moved) =
        some (env.hexdigest secret (payload token)) := by
      rw [heq]
      exact hmacHex_some.mpr ⟨⟨hencodable, hpayload⟩, rfl⟩
    have hverify := verifyToken_pack hsecret hmoved haction hlong hmac hnow
    obtain ⟨-, -, -, signature, hpresented, -⟩ := verifyToken_ok hverify
    refine (h _ moved ?_ hverify).1
    -- the forged token presents the payload that the call had signed
    intro fields signature' hpresented' hmac'
    obtain ⟨rfl, -⟩ := Prod.mk.inj (Except.ok.inj (hpresented.symm.trans hpresented'))
    exact ⟨call, hcall, token, hgrants, heq.symm⟩
  · intro h t fields hideal hverify
    obtain ⟨hdecision, haction, hnow, signature, hpresented, hmac⟩ := verifyToken_ok hverify
    refine ⟨?_, hnow⟩
    obtain ⟨call, hcall, granted, hgrants, heq⟩ := hideal fields signature hpresented hmac
    obtain ⟨hdecisions, hexpires, hids⟩ :=
      (payload_eq_iff (grants_spec hgrants).1 hdecision).mp heq
    rw [← hexpires] at hnow
    obtain ⟨other, hother, hsplit⟩ :=
      h call hcall granted hgrants hnow fields.actionId fields.caseId haction hids.symm
    rw [hdecisions, hexpires] at hsplit
    exact ⟨other, hother, hsplit⟩

/-- Ids without bars are safe. -/
theorem unforgeable_of_no_bar {calls : Set (IssueCall F)}
    (h : ∀ call ∈ calls, cp '|' ∉ call.actionId ∧ cp '|' ∉ call.caseId) (now : F) :
    Unforgeable env secret calls now := by
  rw [unforgeable_iff]
  intro call hcall token hgrants hnow actionId caseId hne hids
  obtain ⟨haction, hcase⟩ := h call hcall
  rw [hgrants.2.2.2.1] at haction
  rw [hgrants.2.2.2.2] at hcase
  obtain ⟨hactions, -, hcases⟩ := (List.append_cons_inj_of_notMem haction hcase).mp hids.symm
  subst hactions hcases
  exact ⟨call, hcall, hgrants⟩

end

/-- The digest of one payload under one key, exact numbers. -/
def exampleRuntime : Runtime ℚ where
  hexdigest _ payload :=
    if payload = text "approved|act|x|y|1700003600" then
      text "8c1c7e82441235b3c2430ebd64e91d319e0891fba326374d94a38a5cd7527917"
    else List.replicate 64 (cp '0')
  hex := by
    intro _ payload
    split_ifs
    · rw [text_ofList, text_ofList]
      decide
    · decide
  ofInt n := some (n : ℚ)
  add x y := x + y
  truncate x := some (x.num.tdiv x.den)
  gt now limit := limit < now
  isZero _ := false
  str _ := []
  depth := 5

def exampleCall : IssueCall ℚ :=
  ⟨text "approved", text "act|x", text "y", 3600, 1700000000⟩

/-- The link that approves `act|x` of the case `y`, with the bar moved. -/
def movedToken : Text :=
  text "eyJhIjoiYWN0IiwiYyI6Inh8eSIsImQiOiJhcHByb3ZlZCIsImUiOjE3MDAwMDM2MDAsInMiOiI4YzFjN2U4Mj" ++
    text "Q0MTIzNWIzYzI0MzBlYmQ2NGU5MWQzMTllMDg5MWZiYTMyNjM3NGQ5NGEzOGE1Y2Q3NTI3OTE3In0"

def movedFields : ApprovalToken := ⟨text "approved", text "act", text "x|y", 1700003600⟩

theorem presented_movedToken : presented exampleRuntime movedToken = .ok (movedFields,
    text "8c1c7e82441235b3c2430ebd64e91d319e0891fba326374d94a38a5cd7527917") := by
  rw [movedToken]
  repeat rw [text_ofList]
  decide +kernel

theorem moved_bar_is_accepted :
    MacIdeal exampleRuntime (text "test-key") {exampleCall} movedToken ∧
      verifyToken exampleRuntime (text "test-key") movedToken 1700000001 = .ok movedFields ∧
      ∀ call ∈ ({exampleCall} : Set (IssueCall ℚ)),
        ¬Grants exampleRuntime (text "test-key") call movedFields := by
  have hissue : issueToken exampleRuntime (text "test-key") exampleCall =
      .ok (pack ⟨text "approved", text "act|x", text "y", 1700003600⟩
        (text "8c1c7e82441235b3c2430ebd64e91d319e0891fba326374d94a38a5cd7527917")) := by
    rw [text_ofList]
    decide +kernel
  have hgrants : Grants exampleRuntime (text "test-key") exampleCall
      ⟨text "approved", text "act|x", text "y", 1700003600⟩ :=
    ⟨⟨_, hissue⟩, by decide +kernel, rfl, rfl, rfl⟩
  refine ⟨?_, ?_, ?_⟩
  · intro fields signature hpresented hmac
    obtain ⟨rfl, -⟩ := Prod.mk.inj (Except.ok.inj (presented_movedToken.symm.trans hpresented))
    exact ⟨exampleCall, rfl, _, hgrants, by decide⟩
  · rw [movedToken]
    repeat rw [text_ofList]
    decide +kernel
  · rintro call rfl ⟨-, -, -, haction, -⟩
    exact absurd haction (by decide)

end EmailApproval
