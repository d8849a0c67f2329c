import Mathlib.Data.List.Dedup
import Mathlib.Data.List.Forall2
import AiSOC.JsonParser
import AiSOC.RegexSearch

/-! # The contract on what is sent to a language model

The validator of message lists: signatures of raw logs and secrets in the head of a message,
blocklisted keys in a message that is JSON. The size cap, the nesting that the JSON decoder
bears and the character tables are those of the process. -/
namespace LlmContract

open CodeText JsonText JsonParser RegexSearch

structure Env where
  tables : Tables
  recursionDepth : ℕ
  maxMessageChars : ℤ

/-- The keys in the order in which they are reported. -/
def ocsfKeys : List Text :=
  ["activity_id", "category_uid", "class_uid", "metadata", "observables", "raw_data", "time_dt",
    "type_uid"].map text

def logKeys : List Text :=
  ["Channel", "Event", "EventData", "EventRecordID", "Provider", "RecordID", "Sysmon", "_raw",
    "_time", "punct"].map text

def contractDictKeyBlocklist : List Text := ocsfKeys ++ logKeys

def blocklisted (k : Text) : Bool := k ∈ contractDictKeyBlocklist

/-- A quoted key, a colon and what begins its value. -/
def keyShape (key : String) (value : Regex CodePoint) : Regex CodePoint :=
  inOrder [exactly "\"", exactly key, exactly "\"", spaces, exactly ":", spaces, value]

def logShapePatterns (tables : Tables) : List (Regex CodePoint) :=
  let number : Regex CodePoint := .run tables.isDecimal 1 none
  [keyShape "class_uid" number, keyShape "activity_id" number, keyShape "EventID" number,
    keyShape "EventRecordID" number,
    exactly "<Event xmlns=\"http://schemas.microsoft.com/win/", keyShape "_raw" (exactly "\""),
    keyShape "sourcetype" (exactly "\"")]

/-- `[A-Za-z0-9_\-]` without regard to case. -/
def isSecretChar (c : CodePoint) : Bool :=
  between 'a' 'z' (foldCase c) || between '0' '9' c || c = cp '_' || c = cp '-'

def secretPatterns : List (Regex CodePoint) :=
  [inOrder [anyOf [inOrder [ignoringCase "api", optional (oneOf "_-"), ignoringCase "key"],
      ignoringCase "secret", ignoringCase "password", ignoringCase "token"],
      spaces, oneOf ":=", spaces, oneOf "'\"", .run isSecretChar 16 none, oneOf "'\""],
    inOrder [exactly "-----BEGIN ", optional (anyOf [exactly "RSA ", exactly "EC ",
      exactly "OPENSSH "]), exactly "PRIVATE KEY-----"]]

def maxJsonLineKeys : ℕ := 6
def headChars : ℕ := 4000

/-- `payload.get(key)`: of equal keys the last one counts. -/
def get (payload : List (Text × Json Text)) (key : Text) : Option (Json Text) :=
  (payload.reverse.find? fun m => m.1 = key).map Prod.snd

def hasMember (payload : List (Text × Json Text)) (key : Text) : Bool :=
  payload.any fun m => m.1 = key

/-- The representation of a list of plain words. -/
def reprWords (words : List Text) : Text :=
  text "[" ++ ((words.map fun w => text "'" ++ w ++ text "'").intersperse (text ", ")).flatten ++
    text "]"

def looksLikeOcsf (payload : List (Text × Json Text)) : Option Text :=
  match ocsfKeys.filter (hasMember payload) with
  | k :: ks => some (text "OCSF keys present: " ++ reprWords (k :: ks))
  | [] =>
    match get payload (text "metadata") with
    | some (.obj metadata) =>
      if hasMember metadata (text "product") ∧ hasMember metadata (text "version") then
        some (text "OCSF-style metadata.product/version block")
      else none
    | _ => none

def looksLikeRawLog (payload : List (Text × Json Text)) : Option Text :=
  match logKeys.filter (hasMember payload) with
  | k :: ks => some (text "raw-log keys present: " ++ reprWords (k :: ks))
  | [] =>
    match get payload (text "EventID") with
    | some (.int _) | some (.bool _) =>
      if hasMember payload (text "Channel") then
        some (text "Windows event-log shape (EventID + Channel)")
      else none
    | _ => none

/-- The first of the patterns that is found in the head of the message. -/
def findInHead (patterns : List (Regex CodePoint)) (t : Text) : Option Text :=
  patterns.findSome? fun r => search r (t.take headChars)

def looksLikeLogString (tables : Tables) (t : Text) : Option Text :=
  (findInHead (logShapePatterns tables) t).map fun m =>
    text "raw-log signature matched: " ++ m.take 80

def looksLikeSecret (t : Text) : Option Text :=
  (findInHead secretPatterns t).map fun m => text "secret-shaped value detected: " ++ m.take 60

/-- The error is the one that is not caught. -/
def tryLoadJson (depth : ℕ) (t : Text) : Except LoadError (Option (Json Text)) :=
  match strip t with
  | [] => .ok none
  | c :: rest =>
    if c = cp '[' ∨ c = cp '{' then
      match loads depth (c :: rest) with
      | .ok x => .ok (some x)
      | .error .decode => .ok none
      | .error .recursion => .error .recursion
    else .ok none

def distinctKeys (payload : List (Text × Json Text)) : ℕ := (payload.map Prod.fst).dedup.length

/-- What is said about a message that is JSON. -/
def inspectJson : Json Text → Option Text
  | .obj payload => (looksLikeOcsf payload).or (looksLikeRawLog payload)
  | .arr (.obj head :: _) =>
    if maxJsonLineKeys < distinctKeys head ∧
        ((looksLikeOcsf head).isSome ∨ (looksLikeRawLog head).isSome) then
      some (text "raw event array detected (looks like log batch)")
    else none
  | _ => none

def classifyMessage (env : Env) (content : Text) : Except LoadError (Option Text) :=
  if env.maxMessageChars < content.length then
    .ok (some (text "message exceeds size cap (" ++ decimal content.length ++ text " > " ++
      decimal env.maxMessageChars ++ text " chars)"))
  else
    match looksLikeLogString env.tables content with
    | some reason => .ok (some reason)
    | none =>
      match looksLikeSecret content with
      | some reason => .ok (some reason)
      | none => (tryLoadJson env.recursionDepth content).map fun parsed => parsed.bind inspectJson

/-- A Python value of a message: a string, or some other object. -/
inductive Value (Obj : Type) where
  | text (t : Text)
  | object (o : Obj)

/-- What Python does with the other objects; `dumps` may fail. -/
structure Runtime (Obj : Type) where
  truthy : Obj → Bool
  str : Obj → Text
  dumps : Obj → Option Text

/-- The shapes of a message: a dictionary, an object with a type and a content, a pair, and
anything else. A key that is absent or `None` is `none`. -/
inductive Message (Obj : Type) where
  | dict (role content : Option (Value Obj))
  | base (type : Text) (content : Value Obj)
  | pair (role content : Value Obj)
  | other (shown : Value Obj)

structure View where
  role : Text
  content : Text
  deriving DecidableEq

structure Violation where
  reason : Text
  role : Text
  evidence : Text

inductive Failure where
  | violation (v : Violation)
  | recursion
  | dumps

variable {Obj : Type}

def str (rt : Runtime Obj) : Value Obj → Text
  | .text t => t
  | .object o => rt.str o

/-- `str(role or "user")`. -/
def roleOf (rt : Runtime Obj) : Option (Value Obj) → Text
  | none => text "user"
  | some (.text t) => if t = [] then text "user" else t
  | some (.object o) => if rt.truthy o then rt.str o else text "user"

def contentOf (rt : Runtime Obj) : Value Obj → Except Failure Text
  | .text t => .ok t
  | .object o =>
    match rt.dumps o with
    | some t => .ok t
    | none => .error .dumps

def typeToRole (type : Text) : Text :=
  if type = text "human" then text "user"
  else if type = text "ai" then text "assistant"
  else if type = text "system" then text "system"
  else if type = text "tool" then text "tool"
  else text "user"

def coerceMessage (rt : Runtime Obj) : Message Obj → Except Failure View
  | .dict role none => .ok ⟨roleOf rt role, text "null"⟩
  | .dict role (some content) => (contentOf rt content).map fun t => ⟨roleOf rt role, t⟩
  | .base type content => (contentOf rt content).map fun t => ⟨typeToRole type, t⟩
  | .pair role content => (contentOf rt content).map fun t => ⟨str rt role, t⟩
  | .other shown => .ok ⟨text "user", str rt shown⟩

/-- The check of one message when the contract is enforced. -/
def check (env : Env) (idx : ℕ) (view : View) : Except Failure Unit :=
  match classifyMessage env view.content with
  | .error _ => .error .recursion
  | .ok none => .ok ()
  | .ok (some reason) => .error (.violation
      ⟨text "message[" ++ digits idx ++ text "] failed contract: " ++ reason, view.role,
        view.content.take 200⟩)

def validateFrom (rt : Runtime Obj) (env : Env) (enforced : Bool) :
    ℕ → List (Message Obj) → Except Failure (List View)
  | _, [] => .ok []
  | idx, msg :: rest =>
    (coerceMessage rt msg).bind fun view =>
      (if enforced then check env idx view else .ok ()).bind fun _ =>
        (validateFrom rt env enforced (idx + 1) rest).map fun views => view :: views

def validate (rt : Runtime Obj) (env : Env) (enforced : Bool) (messages : List (Message Obj)) :
    Except Failure (List View) := validateFrom rt env enforced 0 messages

def signatures (env : Env) : List (Regex CodePoint) :=
  logShapePatterns env.tables ++ secretPatterns

/-- No signature matches anywhere in the content, and no object in the JSON that it is, white
space around it apart, has a blocklisted key. -/
def Clean (env : Env) (t : Text) : Prop :=
  (∀ r ∈ signatures env, ¬ Occurs r t) ∧
    ∀ x, loads env.recursionDepth (strip t) = .ok x → hasKey blocklisted x = false

/-- A match of a signature that ends where `ending` says. -/
def SignatureAt (env : Env) (ending : ℕ → Prop) (t : Text) : Prop :=
  ∃ r ∈ signatures env, ∃ pre m post, t = pre ++ m ++ post ∧
    Matches r (lastOf none pre) m post ∧ ending (pre ++ m).length

def blockedTop (members : List (Text × Json Text)) : Bool := members.any fun m => blocklisted m.1

/-- The places at which the validator looks for keys: those of the message itself, and those of
the first item of a list if it has enough of them. -/
def topKey : Json Text → Bool
  | .obj members => blockedTop members
  | .arr (.obj members :: _) => maxJsonLineKeys < distinctKeys members ∧ blockedTop members = true
  | _ => false

/-- Keys further down: in the values of the message's members, or anywhere in a list. -/
def buriedKey : Json Text → Bool
  | .obj members => members.any fun m => hasKey blocklisted m.2
  | .arr items => items.any (hasKey blocklisted)
  | _ => false

/-- What the validator sees. -/
def Seen (env : Env) (t : Text) : Prop :=
  SignatureAt env (· ≤ headChars) t ∨
    ∃ x, loads env.recursionDepth (strip t) = .ok x ∧ topKey x = true

/-- What it does not look at: matches that end past the head, keys further down. -/
def Unseen (env : Env) (t : Text) : Prop :=
  SignatureAt env (headChars < ·) t ∨
    ∃ x, loads env.recursionDepth (strip t) = .ok x ∧ buriedKey x = true

/-- Contents that the validator does not let pass. -/
def Refused (env : Env) (t : Text) : Prop :=
  env.maxMessageChars < t.length ∨ Seen env t ∨ tryLoadJson env.recursionDepth t = .error .recursion

def Rejected (rt : Runtime Obj) (env : Env) (enforced : Bool) (msg : Message Obj) : Prop :=
  match coerceMessage rt msg with
  | .error _ => True
  | .ok view => enforced = true ∧ Refused env view.content

theorem signatures_contextFree (env : Env) : ∀ r ∈ signatures env, contextFree r = true := by
  have hall : (signatures env).all contextFree = true := rfl
  exact List.all_eq_true.mp hall

theorem findInHead_isSome {patterns : List (Regex CodePoint)} {t : Text} :
    (findInHead patterns t).isSome ↔ ∃ r ∈ patterns, Occurs r (t.take headChars) := by
  simp only [findInHead, List.isSome_findSome?, List.any_eq_true, search_isSome]

theorem signatureAt_head {env : Env} {t : Text} :
    SignatureAt env (· ≤ headChars) t ↔
      (looksLikeLogString env.tables t).isSome ∨ (looksLikeSecret t).isSome := by
  have htake : SignatureAt env (· ≤ headChars) t ↔
      ∃ r ∈ signatures env, Occurs r (t.take headChars) := by
    constructor
    · rintro ⟨r, hr, hm⟩
      exact ⟨r, hr, (occurs_take (signatures_contextFree env r hr)).mpr hm⟩
    · rintro ⟨r, hr, hm⟩
      exact ⟨r, hr, (occurs_take (signatures_contextFree env r hr)).mp hm⟩
  rw [htake, looksLikeLogString, looksLikeSecret, Option.isSome_map, Option.isSome_map,
    findInHead_isSome, findInHead_isSome, signatures]
  simp only [List.mem_append, or_and_right, exists_or]

theorem occurs_iff {env : Env} {t : Text} : (∃ r ∈ signatures env, Occurs r t) ↔
    SignatureAt env (· ≤ headChars) t ∨ SignatureAt env (headChars < ·) t := by
  constructor
  · rintro ⟨r, hr, pre, m, post, ht, hm⟩
    rcases Nat.lt_or_ge headChars (pre ++ m).length with hlen | hlen
    · exact Or.inr ⟨r, hr, pre, m, post, ht, hm, hlen⟩
    · exact Or.inl ⟨r, hr, pre, m, post, ht, hm, hlen⟩
  · rintro (⟨r, hr, pre, m, post, ht, hm, -⟩ | ⟨r, hr, pre, m, post, ht, hm, -⟩)
    · exact ⟨r, hr, pre, m, post, ht, hm⟩
    · exact ⟨r, hr, pre, m, post, ht, hm⟩

theorem hasKey_iff (x : Json Text) :
    hasKey blocklisted x = true ↔ topKey x = true ∨ buriedKey x = true := by
  cases x with
  | obj members =>
    simp only [hasKey, topKey, buriedKey, blockedTop, hasKeyMembers_iff, List.any_eq_true,
      and_or_left, exists_or]
  | arr items =>
    simp only [hasKey, buriedKey, hasKeyItems_iff, List.any_eq_true]
    constructor
    · exact Or.inr
    · rintro (htop | hburied)
      · cases items with
        | nil => cases htop
        | cons head rest =>
          cases head with
          | obj members =>
            simp only [topKey, decide_eq_true_eq, blockedTop, List.any_eq_true] at htop
            obtain ⟨-, m, hm, hk⟩ := htop
            refine ⟨.obj members, List.mem_cons_self, ?_⟩
            rw [hasKey, hasKeyMembers_iff]
            exact ⟨m, hm, Or.inl hk⟩
          | _ => cases htop
      · exact hburied
  | _ => simp [hasKey, topKey, buriedKey]

/-- Nothing is unclean but what the validator sees and what it does not. -/
theorem clean_iff {env : Env} {t : Text} : Clean env t ↔ ¬ Seen env t ∧ ¬ Unseen env t := by
  have hsignatures : (∀ r ∈ signatures env, ¬ Occurs r t) ↔
      ¬ (SignatureAt env (· ≤ headChars) t ∨ SignatureAt env (headChars < ·) t) := by
    rw [← occurs_iff]
    push Not
    rfl
  have hkeys : (∀ x, loads env.recursionDepth (strip t) = .ok x → hasKey blocklisted x = false) ↔
      ¬ ((∃ x, loads env.recursionDepth (strip t) = .ok x ∧ topKey x = true) ∨
        ∃ x, loads env.recursionDepth (strip t) = .ok x ∧ buriedKey x = true) := by
    simp only [← exists_or, ← and_or_left, ← hasKey_iff]
    push Not
    simp only [Bool.not_eq_true]
  rw [Clean, hsignatures, hkeys, Seen, Unseen]
  simp only [not_or]
  exact and_and_and_comm

theorem get_isSome {payload : List (Text × Json Text)} {key : Text} {x : Json Text}
    (h : get payload key = some x) : hasMember payload key = true := by
  obtain ⟨m, hm, -⟩ := Option.map_eq_some_iff.mp h
  have hkey := List.find?_some hm
  have hmem := List.mem_of_find?_eq_some hm
  exact List.any_eq_true.mpr ⟨m, List.mem_reverse.mp hmem, hkey⟩

theorem filter_cons_iff {keys : List Text} {payload : List (Text × Json Text)} :
    (∃ k ks, keys.filter (hasMember payload) = k :: ks) ↔
      ∃ m ∈ payload, m.1 ∈ keys := by
  rw [← List.ne_nil_iff_exists_cons, Ne, List.filter_eq_nil_iff]
  push Not
  simp only [hasMember, List.any_eq_true, decide_eq_true_eq]
  constructor
  · rintro ⟨k, hk, m, hm, rfl⟩
    exact ⟨m, hm, hk⟩
  · rintro ⟨m, hm, hk⟩
    exact ⟨m.1, hk, m, hm, rfl⟩

/-- Without one of its keys the further checks find nothing: they need such a key as well. -/
theorem looksLikeOcsf_isSome {payload : List (Text × Json Text)} :
    (looksLikeOcsf payload).isSome ↔ ∃ m ∈ payload, m.1 ∈ ocsfKeys := by
  rw [← filter_cons_iff, looksLikeOcsf]
  split
  · rename_i k ks hfilter
    exact iff_of_true rfl ⟨k, ks, hfilter⟩
  · rename_i hfilter
    have hmetadata : get payload (text "metadata") = none := by
      rw [Option.eq_none_iff_forall_ne_some]
      intro x hx
      rw [List.filter_eq_nil_iff] at hfilter
      exact hfilter (text "metadata") (by decide) (get_isSome hx)
    simp [hmetadata, hfilter]

theorem looksLikeRawLog_isSome {payload : List (Text × Json Text)} :
    (looksLikeRawLog payload).isSome ↔ ∃ m ∈ payload, m.1 ∈ logKeys := by
  rw [← filter_cons_iff, looksLikeRawLog]
  split
  · rename_i k ks hfilter
    exact iff_of_true rfl ⟨k, ks, hfilter⟩
  · rename_i hfilter
    have hchannel : hasMember payload (text "Channel") = false := by
      rw [List.filter_eq_nil_iff] at hfilter
      exact Bool.not_eq_true _ ▸ hfilter (text "Channel") (by decide)
    split <;> simp [hchannel, hfilter]

theorem looksLike_isSome {payload : List (Text × Json Text)} :
    ((looksLikeOcsf payload).isSome ∨ (looksLikeRawLog payload).isSome) ↔
      blockedTop payload = true := by
  rw [looksLikeOcsf_isSome, looksLikeRawLog_isSome, ← exists_or]
  simp only [blockedTop, List.any_eq_true, blocklisted, decide_eq_true_eq,
    contractDictKeyBlocklist, List.mem_append, and_or_left]

theorem inspectJson_isSome (x : Json Text) : (inspectJson x).isSome ↔ topKey x = true := by
  cases x with
  | obj members =>
    rw [inspectJson, Option.isSome_or, Bool.or_eq_true, looksLike_isSome]
    rfl
  | arr items =>
    cases items with
    | nil => simp [inspectJson, topKey]
    | cons head rest =>
      cases head with
      | obj members =>
        simp only [inspectJson, topKey, looksLike_isSome, decide_eq_true_eq]
        split
        · rename_i hboth
          exact iff_of_true rfl hboth
        · rename_i hboth
          exact iff_of_false Bool.false_ne_true hboth
      | _ => simp [inspectJson, topKey]
  | _ => simp [inspectJson, topKey]

theorem isContainer_of_topKey {x : Json Text} (h : topKey x = true) : isContainer x = true := by
  cases x with
  | obj members => rfl
  | arr items => rfl
  | _ => cases h

theorem isSpace_of_isJsonSpace {c : CodePoint} (h : isSpace c = false) : isJsonSpace c = false := by
  rw [Bool.eq_false_iff]
  intro hjson
  simp only [isJsonSpace, decide_eq_true_eq] at hjson
  rcases hjson with rfl | rfl | rfl | rfl <;> exact absurd h (by decide)

/-- Only containers are of interest, so that trying to load what looks like one loses none. -/
theorem tryLoadJson_topKey {depth : ℕ} {t : Text} {x : Json Text} (hx : topKey x = true) :
    tryLoadJson depth t = .ok (some x) ↔ loads depth (strip t) = .ok x := by
  rw [tryLoadJson]
  split
  · rename_i hstrip
    rw [hstrip]
    constructor
    · intro h
      cases h
    · intro h
      rw [loads_nil] at h
      cases h
  · rename_i c rest hstrip
    rw [hstrip]
    constructor
    · intro h
      split at h
      · split at h
        · rename_i hloads
          cases h
          exact hloads
        · cases h
        · cases h
      · cases h
    · intro hloads
      rw [if_pos (loads_container hloads (isSpace_of_isJsonSpace (isSpace_of_strip hstrip))
        (isContainer_of_topKey hx)), hloads]

theorem tryLoadJson_error {depth : ℕ} {t : Text} {e : LoadError}
    (h : tryLoadJson depth t = .error e) : e = .recursion := by
  rw [tryLoadJson] at h
  split at h
  · cases h
  · split at h
    · split at h
      · cases h
      · cases h
      · cases h
        rfl
    · cases h

theorem loads_topKey {depth : ℕ} {t : Text} :
    (∃ x, loads depth (strip t) = .ok x ∧ topKey x = true) ↔
      ∃ x, tryLoadJson depth t = .ok (some x) ∧ topKey x = true := by
  refine exists_congr fun x => and_congr_left fun hx => ?_
  exact (tryLoadJson_topKey hx).symm

theorem classifyMessage_passes {env : Env} {t : Text} :
    classifyMessage env t = .ok none ↔ ¬ Refused env t := by
  rw [classifyMessage]
  split
  · rename_i hsize
    exact iff_of_false (by simp) fun hrefused => hrefused (Or.inl hsize)
  · rename_i hsize
    split
    · rename_i reason hlog
      have hseen : Seen env t := Or.inl (signatureAt_head.mpr (Or.inl (hlog ▸ rfl)))
      exact iff_of_false (by simp) fun hrefused => hrefused (Or.inr (Or.inl hseen))
    · rename_i hlog
      split
      · rename_i reason hsecret
        have hseen : Seen env t := Or.inl (signatureAt_head.mpr (Or.inr (hsecret ▸ rfl)))
        exact iff_of_false (by simp) fun hrefused => hrefused (Or.inr (Or.inl hseen))
      · rename_i hsecret
        have hhead : ¬ SignatureAt env (· ≤ headChars) t := by
          rw [signatureAt_head, hlog, hsecret]
          simp
        simp only [Refused, Seen, hsize, hhead, false_or, loads_topKey]
        cases hload : tryLoadJson env.recursionDepth t with
        | error e =>
          rw [tryLoadJson_error hload]
          simp [Except.map]
        | ok parsed =>
          cases parsed with
          | none => simp [Except.map]
          | some x =>
            have hinspect := inspectJson_isSome x
            rw [← not_iff_not, Option.not_isSome_iff_eq_none] at hinspect
            simp [Except.map, hinspect]

/-- The validator lets a message pass, in this view. -/
def Accepted (rt : Runtime Obj) (env : Env) (enforced : Bool) (msg : Message Obj) (view : View) :
    Prop := coerceMessage rt msg = .ok view ∧ ¬ (enforced = true ∧ Refused env view.content)

theorem accepted_of_not_rejected {rt : Runtime Obj} {env : Env} {enforced : Bool}
    {msg : Message Obj} (h : ¬ Rejected rt env enforced msg) :
    ∃ view, Accepted rt env enforced msg view := by
  rw [Rejected] at h
  split at h
  · exact absurd trivial h
  · rename_i view hview
    exact ⟨view, hview, h⟩

theorem Accepted.not_rejected {rt : Runtime Obj} {env : Env} {enforced : Bool}
    {msg : Message Obj} {view : View} (h : Accepted rt env enforced msg view) :
    ¬ Rejected rt env enforced msg := by
  rw [Rejected, h.1]
  exact h.2

theorem gate_ok {env : Env} {enforced : Bool} {idx : ℕ} {view : View} :
    (if enforced = true then check env idx view else .ok ()) = .ok () ↔
      ¬ (enforced = true ∧ Refused env view.content) := by
  cases enforced with
  | false => simp
  | true =>
    simp only [if_true, true_and, ← classifyMessage_passes, check]
    split
    · rename_i e h
      simp [h]
    · rename_i h
      simp [h]
    · rename_i reason h
      simp [h]

/-- The views of a validated list are those of its messages, all of them accepted. -/
theorem validateFrom_ok {rt : Runtime Obj} {env : Env} {enforced : Bool} {idx : ℕ}
    {messages : List (Message Obj)} {views : List View} :
    validateFrom rt env enforced idx messages = .ok views ↔
      List.Forall₂ (Accepted rt env enforced) messages views := by
  induction messages generalizing idx views with
  | nil =>
    rw [validateFrom, List.forall₂_nil_left_iff, Except.ok.injEq, eq_comm]
  | cons msg rest ih =>
    rw [validateFrom, List.forall₂_cons_left_iff]
    constructor
    · intro h
      obtain ⟨view, hview, h⟩ := bind_ok h
      obtain ⟨⟨⟩, hpass, h⟩ := bind_ok h
      cases hrest : validateFrom rt env enforced (idx + 1) rest with
      | error e =>
        rw [hrest] at h
        cases h
      | ok views' =>
        rw [hrest] at h
        cases h
        exact ⟨view, views', ⟨hview, gate_ok.mp hpass⟩, ih.mp hrest, rfl⟩
    · rintro ⟨view, views', ⟨hview, hpass⟩, hrest, rfl⟩
      rw [hview, Except.bind, gate_ok.mpr hpass, Except.bind, ih.mpr hrest, Except.map]

theorem exists_view {R : Message Obj → View → Prop} {messages : List (Message Obj)}
    {views : List View} (h : List.Forall₂ R messages views) :
    (∀ msg ∈ messages, ∃ view ∈ views, R msg view) ∧
      ∀ view ∈ views, ∃ msg ∈ messages, R msg view := by
  induction h with
  | nil => simp
  | cons hview _ ih =>
    constructor
    · intro m hm
      rcases List.mem_cons.mp hm with rfl | hm
      · exact ⟨_, List.mem_cons_self, hview⟩
      · obtain ⟨v, hv, hr⟩ := ih.1 m hm
        exact ⟨v, List.mem_cons_of_mem _ hv, hr⟩
    · intro v hv
      rcases List.mem_cons.mp hv with rfl | hv
      · exact ⟨_, List.mem_cons_self, hview⟩
      · obtain ⟨m, hm, hr⟩ := ih.2 v hv
        exact ⟨m, List.mem_cons_of_mem _ hm, hr⟩

theorem exists_views {rt : Runtime Obj} {env : Env} {enforced : Bool}
    {messages : List (Message Obj)} (h : ∀ msg ∈ messages, ¬ Rejected rt env enforced msg) :
    ∃ views, List.Forall₂ (Accepted rt env enforced) messages views := by
  induction messages with
  | nil => exact ⟨[], .nil⟩
  | cons msg rest ih =>
    obtain ⟨view, hview⟩ := accepted_of_not_rejected (h msg List.mem_cons_self)
    obtain ⟨views, hviews⟩ := ih fun m hm => h m (List.mem_cons_of_mem msg hm)
    exact ⟨view :: views, .cons hview hviews⟩

/-- A validated list is clean exactly when some message is rejected, so that it is not
validated, or the messages hold nothing that the validator does not look at. -/
theorem validated_clean_iff (rt : Runtime Obj) (env : Env) (enforced : Bool)
    (messages : List (Message Obj)) :
    (∀ views, validate rt env enforced messages = .ok views →
      ∀ view ∈ views, Clean env view.content) ↔
    (∃ msg ∈ messages, Rejected rt env enforced msg) ∨
      ∀ msg ∈ messages, ∀ view, coerceMessage rt msg = .ok view →
        ¬ Unseen env view.content ∧ (enforced = true ∨ ¬ Seen env view.content) := by
  constructor
  · intro h
    by_cases hrejected : ∃ msg ∈ messages, Rejected rt env enforced msg
    · exact Or.inl hrejected
    · right
      push Not at hrejected
      obtain ⟨views, hviews⟩ := exists_views hrejected
      have hclean := h views (validateFrom_ok.mpr hviews)
      intro msg hmsg view hview
      obtain ⟨view', hmem, haccepted⟩ := (exists_view hviews).1 msg hmsg
      obtain rfl : view' = view := Except.ok.inj (haccepted.1.symm.trans hview)
      have hboth := clean_iff.mp (hclean view' hmem)
      exact ⟨hboth.2, Or.inr hboth.1⟩
  · intro hcondition views hviews view hview
    have hforall := validateFrom_ok.mp hviews
    rcases hcondition with ⟨msg, hmsg, hrejected⟩ | hunseen
    · obtain ⟨view', -, haccepted⟩ := (exists_view hforall).1 msg hmsg
      exact absurd hrejected haccepted.not_rejected
    · obtain ⟨msg, hmsg, hcoerce, hpass⟩ := (exists_view hforall).2 view hview
      obtain ⟨hdeep, henforced⟩ := hunseen msg hmsg view hcoerce
      refine clean_iff.mpr ⟨?_, hdeep⟩
      rcases henforced with henforced | hseen
      · intro hseen
        exact hpass ⟨henforced, Or.inr (Or.inl hseen)⟩
      · exact hseen

/-- The default settings of a process, with other objects than strings left out. -/
def defaultEnv : Env := ⟨asciiTables, 900, 60000⟩
def plainRuntime : Runtime Empty := ⟨nofun, nofun, nofun⟩

/-- A blocklisted key one level down. -/
def nestedKey : Text := text "\x7b\"a\":\x7b\"raw_data\":1\x7d\x7d"

theorem nested_key_passes : ¬ ∀ views,
    validate plainRuntime defaultEnv true [.pair (.text (text "user")) (.text nestedKey)] =
      .ok views → ∀ view ∈ views, Clean defaultEnv view.content := by
  intro h
  have hclassify : classifyMessage defaultEnv nestedKey = .ok none := by decide +kernel
  have hloads : (loads 900 (strip nestedKey)).toOption.any (hasKey blocklisted) = true := by
    decide +kernel
  have hpass : ¬ (true = true ∧ Refused defaultEnv nestedKey) :=
    fun hrefused => classifyMessage_passes.mp hclassify hrefused.2
  have hviews : validate plainRuntime defaultEnv true
      [.pair (.text (text "user")) (.text nestedKey)] = .ok [⟨text "user", nestedKey⟩] :=
    validateFrom_ok.mpr (.cons ⟨rfl, hpass⟩ .nil)
  have hclean := (h _ hviews _ List.mem_cons_self).2
  cases hx : loads 900 (strip nestedKey) with
  | error e =>
    rw [hx] at hloads
    cases hloads
  | ok x =>
    rw [hx] at hloads
    exact Bool.false_ne_true ((hclean x hx).symm.trans hloads)

end LlmContract
