import AiSOC.ChatOpsToken

/-! # How the verification of a token fails

Both functions promise one error of their own for every token that they refuse. -/
namespace TokenFailure

open CodeText JsonText
open EmailApproval (ApprovalToken encodable hmacHex loadEnvelope payload presented)
open ChatOpsToken (NoObject loadBody not_ascii)

section
variable {F : Type} (env : EmailApproval.Runtime F) (runtime : ChatOpsToken.Runtime)

/-- The decoded approval, or an `EmailApprovalError`. -/
def EmailKeepsPromise (secret token : Text) (now : F) : Prop :=
  match EmailApproval.verifyToken env secret token now with
  | .ok fields => ∃ signature, presented env token = .ok (fields, signature)
  | .error e => e ≠ .raised

/-- Claims, or a `ChatOpsTokenError`. -/
def ChatOpsKeepsPromise (secret token : Text) (now : ℤ) : Prop :=
  ChatOpsToken.verifyToken runtime token secret now ≠ .error .raised

/-- The kinds of links whose verification ends in another exception. -/
inductive Escapes (secret token : Text) : Prop where
  | envelope (h : NoObject env.depth token)
  | text (fields : ApprovalToken) (signature : Text)
      (hpresented : presented env token = .ok (fields, signature))
      (h : encodable secret = false ∨ encodable (payload fields) = false)
  | signature (fields : ApprovalToken) (signature : Text)
      (hpresented : presented env token = .ok (fields, signature))
      (h : ∃ c ∈ signature, 0x80 ≤ c.val)
  | expiry (fields : ApprovalToken) (signature : Text)
      (hpresented : presented env token = .ok (fields, signature))
      (hsigned : hmacHex env secret (payload fields) = some signature)
      (h : env.ofInt fields.expiresAt = none)

variable {env} {secret token : Text} {fields : ApprovalToken} {signature : Text} {now : F}

theorem bind_raised {α β : Type} {x : Except EmailApproval.TokenError α}
    {f : α → Except EmailApproval.TokenError β} :
    x.bind f = .error .raised ↔ x = .error .raised ∨ ∃ a, x = .ok a ∧ f a = .error .raised :=
  ChatOpsToken.bind_error

theorem loadEnvelope_raised :
    loadEnvelope env token = .error .raised ↔ NoObject env.depth token := by
  rw [loadEnvelope, NoObject]
  cases (Base64.decode token).bind TextEncoding.decode with
  | none =>
    refine iff_of_false (by rintro ⟨⟩) ?_
    rintro ⟨_, ⟨⟩, _⟩
  | some raw =>
    simp only [Option.some.injEq, exists_eq_left']
    cases JsonParser.loads (env.depth + 1) raw with
    | error e =>
      cases e with
      | decode => exact iff_of_false (by rintro ⟨⟩) (by simp)
      | recursion => exact iff_of_true rfl (Or.inl rfl)
    | ok x =>
      cases x with
      | obj members => exact iff_of_false (by rintro ⟨⟩) (by simp)
      | _ => exact iff_of_true rfl (Or.inr ⟨_, rfl, by rintro _ ⟨⟩⟩)

theorem readFields_ne_raised (members : List (Text × Json Text)) :
    EmailApproval.readFields env members ≠ .error .raised := by
  intro h
  rw [EmailApproval.readFields] at h
  split at h
  · cases h
  · split at h
    · cases h
    · split at h
      · cases h
      · cases h

theorem presented_raised :
    presented env token = .error .raised ↔ NoObject env.depth token := by
  rw [presented, bind_raised, loadEnvelope_raised]
  refine or_iff_left ?_
  rintro ⟨members, _, hread⟩
  exact readFields_ne_raised members hread

theorem hmacHex_none {p : Text} :
    hmacHex env secret p = none ↔ encodable secret = false ∨ encodable p = false := by
  rw [hmacHex, ← Bool.not_eq_true, ← Bool.not_eq_true, ← not_and_or]
  split_ifs with h
  · exact iff_of_false (by rintro ⟨⟩) (not_not_intro h)
  · exact iff_of_true rfl h

theorem check_raised : EmailApproval.check env secret now fields signature = .error .raised ↔
    (encodable secret = false ∨ encodable (payload fields) = false) ∨
      (∃ c ∈ signature, 0x80 ≤ c.val) ∨
      hmacHex env secret (payload fields) = some signature ∧
        env.ofInt fields.expiresAt = none := by
  rw [EmailApproval.check, ← payload, ← hmacHex_none, ← not_ascii]
  cases hmacHex env secret (payload fields) with
  | none => exact iff_of_true rfl (Or.inl rfl)
  | some expected =>
    dsimp only
    rw [or_iff_right (by rintro ⟨⟩), Option.some.injEq]
    by_cases hascii : signature.all (·.val < 0x80) = true
    swap
    · rw [if_pos hascii]
      exact iff_of_true rfl (Or.inl (by rwa [Bool.not_eq_true', ← Bool.not_eq_true]))
    rw [if_neg (not_not_intro hascii), or_iff_right (by rw [hascii]; rintro ⟨⟩)]
    by_cases hsigned : expected = signature
    swap
    · rw [if_pos hsigned]
      exact iff_of_false (by rintro ⟨⟩) fun h => hsigned h.1
    rw [if_neg (not_not_intro hsigned), and_iff_right hsigned]
    cases env.ofInt fields.expiresAt with
    | none => exact iff_of_true rfl rfl
    | some limit =>
      dsimp only
      refine iff_of_false (fun h => ?_) (by rintro ⟨⟩)
      split_ifs at h
      cases h

theorem presented_nil : presented env [] = .error .malformed := by
  have hload : loadEnvelope env [] = .error .malformed := by
    have hdecode : (Base64.decode []).bind TextEncoding.decode = some [] := rfl
    rw [loadEnvelope, hdecode]
    dsimp only
    rw [JsonParser.loads_nil]
  rw [presented, hload]
  rfl

theorem escapes_ne_nil (h : Escapes env secret token) : token ≠ [] := by
  rintro rfl
  cases h with
  | envelope h => exact nomatch presented_nil.symm.trans (presented_raised.mpr h)
  | text fields signature hpresented h => exact nomatch presented_nil.symm.trans hpresented
  | signature fields signature hpresented h => exact nomatch presented_nil.symm.trans hpresented
  | expiry fields signature hpresented hsigned h =>
    exact nomatch presented_nil.symm.trans hpresented

theorem verifyEmail_raised : EmailApproval.verifyToken env secret token now = .error .raised ↔
    secret ≠ [] ∧ Escapes env secret token := by
  rw [EmailApproval.verifyToken]
  by_cases hsecret : secret = []
  · rw [if_pos hsecret]
    exact iff_of_false (by rintro ⟨⟩) fun h => h.1 hsecret
  rw [if_neg hsecret]
  by_cases htoken : token = []
  · rw [if_pos htoken]
    exact iff_of_false (by rintro ⟨⟩) fun h => escapes_ne_nil h.2 htoken
  rw [if_neg htoken, bind_raised, presented_raised]
  constructor
  · rintro (h | ⟨⟨fields, signature⟩, hpresented, hcheck⟩)
    · exact ⟨hsecret, .envelope h⟩
    · rcases check_raised.mp hcheck with h | h | ⟨hsigned, h⟩
      · exact ⟨hsecret, .text fields signature hpresented h⟩
      · exact ⟨hsecret, .signature fields signature hpresented h⟩
      · exact ⟨hsecret, .expiry fields signature hpresented hsigned h⟩
  · rintro ⟨-, h⟩
    cases h with
    | envelope h => exact Or.inl h
    | text fields signature hpresented h =>
      exact Or.inr ⟨_, hpresented, check_raised.mpr (Or.inl h)⟩
    | signature fields signature hpresented h =>
      exact Or.inr ⟨_, hpresented, check_raised.mpr (Or.inr (Or.inl h))⟩
    | expiry fields signature hpresented hsigned h =>
      exact Or.inr ⟨_, hpresented, check_raised.mpr (Or.inr (Or.inr ⟨hsigned, h⟩))⟩

theorem emailKeepsPromise_iff :
    EmailKeepsPromise env secret token now ↔ secret = [] ∨ ¬Escapes env secret token := by
  rw [← @not_not (secret = []), ← not_and_or]
  refine Iff.trans ?_ (not_congr (@verifyEmail_raised _ _ _ _ now))
  rw [EmailKeepsPromise]
  cases hverify : EmailApproval.verifyToken env secret token now with
  | error e => exact not_congr (Except.error.injEq _ _ ▸ Iff.rfl)
  | ok fields =>
    refine iff_of_true ?_ nofun
    obtain ⟨-, -, -, signature, hpresented, -⟩ := EmailApproval.verifyToken_ok hverify
    exact ⟨signature, hpresented⟩

end

/-- Both functions fail with their own error on every token but those of the kinds listed. -/
theorem own_errors_iff {F : Type} (env : EmailApproval.Runtime F)
    (runtime : ChatOpsToken.Runtime) (secret token : Text) (now : F) (second : ℤ) :
    (EmailKeepsPromise env secret token now ↔ secret = [] ∨ ¬Escapes env secret token) ∧
      (ChatOpsKeepsPromise runtime secret token second ↔ secret = [] ∨
        token.count (cp '.') ≠ 1 ∨ ¬ChatOpsToken.Escapes runtime token secret) := by
  refine ⟨emailKeepsPromise_iff, ?_⟩
  rw [ChatOpsKeepsPromise, ne_eq, ChatOpsToken.verifyToken_raised, not_and_or, not_and_or, not_not]

/-- No floats, no MAC. -/
def exampleRuntime : ChatOpsToken.Runtime where
  hexdigest _ _ := text "00"
  decimalDigit _ := none
  truncate _ := .notANumber
  str _ := []
  depth := 5

/-- A link that encodes `[1]`, and a callback whose signature has an accent. -/
theorem list_and_accent_raise :
    ¬(∀ (secret token : Text) (now : ℚ),
      EmailKeepsPromise EmailApproval.exampleRuntime secret token now) ∧
    ¬(∀ (secret token : Text) (now : ℤ), ChatOpsKeepsPromise exampleRuntime secret token now) := by
  constructor
  · intro h
    have hraised : EmailApproval.verifyToken EmailApproval.exampleRuntime (text "k") (text "WzFd")
        0 = .error .raised := by
      repeat rw [text_ofList]
      decide +kernel
    have hpromise := h (text "k") (text "WzFd") 0
    rw [EmailKeepsPromise, hraised] at hpromise
    exact hpromise rfl
  · intro h
    refine h (text "k") (text "e30.é") 0 ?_
    repeat rw [text_ofList]
    decide +kernel

end TokenFailure
