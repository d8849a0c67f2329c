import AiSOC.EventPayload
import AiSOC.RegexSearch

/-! # Sanitising submitted events

Values under sensitive keys are masked first; sizes are measured on what is left, and what is
too large is replaced by a marker. So the masked values have no influence on the result. -/
namespace EventSanitiser

open CodeText RegexSearch EventPayload

def hyphen : Regex CodePoint := optional (oneOf "_-")

/-- The words that follow each other, with or without a hyphen or underscore between them. -/
def hyphenated (words : List String) : Regex CodePoint :=
  inOrder ((words.map ignoringCase).intersperse hyphen)

def sensitiveKeyPatterns : List (Regex CodePoint) :=
  [["password"], ["passwd"], ["secret"], ["token"], ["api", "key"], ["apikey"],
    ["private", "key"], ["client", "secret"], ["authorization"], ["auth", "header"], ["bearer"],
    ["session", "id"], ["sessionid"], ["cookie"], ["set", "cookie"], ["refresh", "token"],
    ["access", "token"], ["id", "token"], ["jwt"], ["otp"], ["mfa", "code"], ["2fa"],
    ["aws", "secret", "access", "key"], ["aws", "access", "key", "id"]].map hyphenated

def redactedSentinel : Text := text "[REDACTED]"

def defaultMaxEvents : ℤ := 1000
def defaultMaxEventBytes : ℤ := 256 * 1024
def defaultMaxTotalBytes : ℤ := 4 * 1024 * 1024

def hardMaxEvents : ℤ := 100000
def hardMaxEventBytes : ℕ := 16 * 1024 * 1024
def hardMaxTotalBytes : ℤ := 64 * 1024 * 1024

def maxDepth : ℕ := 32
def maxNodes : ℕ := 50000

/-- The variables that are set to an integer. -/
structure Environment where
  maxEvents : Option ℤ
  maxEventBytes : Option ℤ
  maxTotalBytes : Option ℤ

def readPositiveInt (raw : Option ℤ) (default hardMax : ℤ) : ℤ :=
  match raw with
  | none => default
  | some value => if value ≤ 0 then default else min value hardMax

def Environment.eventLimit (env : Environment) : ℤ :=
  readPositiveInt env.maxEvents defaultMaxEvents hardMaxEvents

def Environment.eventBytesLimit (env : Environment) : ℤ :=
  readPositiveInt env.maxEventBytes defaultMaxEventBytes hardMaxEventBytes

def Environment.totalBytesLimit (env : Environment) : ℤ :=
  readPositiveInt env.maxTotalBytes defaultMaxTotalBytes hardMaxTotalBytes

def isSensitiveKey : Key → Bool
  | .str s => sensitiveKeyPatterns.any fun pattern => (search pattern s).isSome
  | .other _ _ => false

structure Counters where
  nodes : ℕ
  redacted : ℕ
  deriving DecidableEq

def keyed (name : String) (value : Value) : Key × Value := (.str (text name), value)

def boundMarker (bound : String) : Value := .dict [keyed "_truncated" (.str (text bound))]

mutual

/-- Past either bound a marker stands for the rest of the subtree. -/
def redactValue (depth : ℕ) (value : Value) (counters : Counters) : Value × Counters :=
  let counters := { counters with nodes := counters.nodes + 1 }
  if counters.nodes > maxNodes then (boundMarker "max_nodes", counters)
  else if depth > maxDepth then (boundMarker "max_depth", counters)
  else match value with
    | .dict entries =>
      let (out, counters) := redactEntries (depth + 1) entries counters
      (.dict out, counters)
    | .list items =>
      let (out, counters) := redactItems (depth + 1) items counters
      (.list out, counters)
    | .tuple items =>
      let (out, counters) := redactItems (depth + 1) items counters
      (.list out, counters)
    | value => (value, counters)

def redactItems (depth : ℕ) (items : List Value) (counters : Counters) :
    List Value × Counters :=
  match items with
  | [] => ([], counters)
  | v :: vs =>
    let (first, counters) := redactValue depth v counters
    let (rest, counters) := redactItems depth vs counters
    (first :: rest, counters)

def redactEntries (depth : ℕ) (entries : Dict) (counters : Counters) : Dict × Counters :=
  match entries with
  | [] => ([], counters)
  | (k, v) :: es =>
    let (first, counters) :=
      if isSensitiveKey k then
        (Value.str redactedSentinel, { counters with redacted := counters.redacted + 1 })
      else redactValue depth v counters
    let (rest, counters) := redactEntries depth es counters
    ((k, first) :: rest, counters)

end

/-- What cannot be written counts as larger than any cap. -/
def serialisedSize (value : Value) : ℕ := (jsonSize value).getD (hardMaxEventBytes + 1)

def truncationMarker (original : Value) (size : ℕ) (reason : String) : Value :=
  .dict ([keyed "_truncated" (.bool true), keyed "_size" (.int size),
      keyed "_reason" (.str (text reason))] ++
    match original with
    | .dict entries =>
      [keyed "_keys" (.list ((entries.take 20).map fun entry => .str entry.1.pyStr))]
    | _ => [])

inductive SanitiserError where
  | submitPayloadTooLarge (detail : Text)
  | valueError
  deriving DecidableEq

structure Stats where
  redacted : ℕ
  truncated : ℕ
  deriving DecidableEq

def coerceEvent (isPrintable : CodePoint → Bool) : Value → Except SanitiserError Value
  | .dict entries => .ok (.dict entries)
  | event =>
    match pyStr isPrintable event with
    | some s => .ok (.dict [keyed "value" (.str s)])
    | none => .error .valueError

/-- The event under a cap. -/
def capEvent (bytesCap : ℤ) (event : Value) : Value × Stats :=
  let (redacted, counters) := redactValue 0 event ⟨0, 0⟩
  let size := serialisedSize redacted
  if size > bytesCap then
    (truncationMarker event size "event_too_large", ⟨counters.redacted, 1⟩)
  else (redacted, ⟨counters.redacted, 0⟩)

def sanitiseEvent (isPrintable : CodePoint → Bool) (env : Environment) (event : Value)
    (maxBytes : Option ℤ) : Except SanitiserError (Value × Stats) := do
  let bytesCap := maxBytes.getD env.eventBytesLimit
  return capEvent bytesCap (← coerceEvent isPrintable event)

def batchSizeMarker (index : ℕ) : Value :=
  .dict [keyed "_truncated" (.bool true), keyed "_reason" (.str (text "batch_size_cap")),
    keyed "_index" (.int index)]

/-- The events from an index on. Once one does not fit, all that follow are replaced. -/
def sanitiseFrom (isPrintable : CodePoint → Bool) (env : Environment)
    (capEventBytes capTotalBytes : ℤ) :
    ℕ → ℤ → List Value → Except SanitiserError (List Value × Stats)
  | _, _, [] => .ok ([], ⟨0, 0⟩)
  | idx, runningTotal, event :: rest => do
    let (sanitised, evStats) ← sanitiseEvent isPrintable env event (some capEventBytes)
    let size := serialisedSize sanitised
    if runningTotal + size + 1 > capTotalBytes then
      return ((List.range' idx (rest.length + 1)).map batchSizeMarker, ⟨0, rest.length + 1⟩)
    else
      let (out, stats) ← sanitiseFrom isPrintable env capEventBytes capTotalBytes (idx + 1)
        (runningTotal + size + 1) rest
      return (sanitised :: out,
        ⟨evStats.redacted + stats.redacted, evStats.truncated + stats.truncated⟩)

structure Overrides where
  maxEvents : Option ℤ
  maxEventBytes : Option ℤ
  maxTotalBytes : Option ℤ

/-- An override of zero is none. -/
def orElse (override : Option ℤ) (fallback : ℤ) : ℤ :=
  match override with
  | some n => if n = 0 then fallback else n
  | none => fallback

def Overrides.capEvents (overrides : Overrides) (env : Environment) : ℤ :=
  orElse overrides.maxEvents env.eventLimit

def Overrides.capEventBytes (overrides : Overrides) (env : Environment) : ℤ :=
  orElse overrides.maxEventBytes env.eventBytesLimit

def Overrides.capTotalBytes (overrides : Overrides) (env : Environment) : ℤ :=
  orElse overrides.maxTotalBytes env.totalBytesLimit

def sanitiseEventBatch (isPrintable : CodePoint → Bool) (env : Environment)
    (overrides : Overrides) : Value → Except SanitiserError (List Value × Stats)
  | .list events =>
    if events.length > overrides.capEvents env then
      .error (.submitPayloadTooLarge (text "too many events in batch (max " ++
        decimal (overrides.capEvents env) ++ text ")"))
    else sanitiseFrom isPrintable env (overrides.capEventBytes env)
      (overrides.capTotalBytes env) 0 2 events
  | _ => .error (.submitPayloadTooLarge (text "events must be a list"))

mutual

/-- The value with nothing under its sensitive keys. -/
def withoutSecrets : Value → Value
  | .dict entries => .dict (entriesWithoutSecrets entries)
  | .list items => .list (itemsWithoutSecrets items)
  | .tuple items => .tuple (itemsWithoutSecrets items)
  | value => value

def itemsWithoutSecrets : List Value → List Value
  | [] => []
  | v :: vs => withoutSecrets v :: itemsWithoutSecrets vs

def entriesWithoutSecrets : Dict → Dict
  | [] => []
  | (k, v) :: es =>
    (k, if isSensitiveKey k then .none else withoutSecrets v) :: entriesWithoutSecrets es

end

/-- An event that is no dictionary has no keys of its own; it is taken as a text. -/
def eventWithoutSecrets : Value → Value
  | .dict entries => .dict (entriesWithoutSecrets entries)
  | event => event

mutual

/-- What is masked is not looked at. -/
theorem redactValue_withoutSecrets (depth : ℕ) : ∀ (value : Value) (counters : Counters),
    redactValue depth (withoutSecrets value) counters = redactValue depth value counters
  | .dict entries, counters => by
    simp only [withoutSecrets, redactValue, redactEntries_withoutSecrets]
  | .list items, counters => by
    simp only [withoutSecrets, redactValue, redactItems_withoutSecrets]
  | .tuple items, counters => by
    simp only [withoutSecrets, redactValue, redactItems_withoutSecrets]
  | .none, _ => by simp only [withoutSecrets]
  | .bool _, _ => by simp only [withoutSecrets]
  | .int _, _ => by simp only [withoutSecrets]
  | .float _, _ => by simp only [withoutSecrets]
  | .str _, _ => by simp only [withoutSecrets]
  | .object _, _ => by simp only [withoutSecrets]

theorem redactItems_withoutSecrets (depth : ℕ) : ∀ (items : List Value) (counters : Counters),
    redactItems depth (itemsWithoutSecrets items) counters = redactItems depth items counters
  | [], _ => by rw [itemsWithoutSecrets]
  | v :: vs, counters => by
    simp only [itemsWithoutSecrets, redactItems, redactValue_withoutSecrets,
      redactItems_withoutSecrets]

theorem redactEntries_withoutSecrets (depth : ℕ) : ∀ (entries : Dict) (counters : Counters),
    redactEntries depth (entriesWithoutSecrets entries) counters =
      redactEntries depth entries counters
  | [], _ => by rw [entriesWithoutSecrets]
  | (k, v) :: es, counters => by
    rcases hk : isSensitiveKey k with _ | _
    · simp only [entriesWithoutSecrets, redactEntries, hk, Bool.false_eq_true, if_false,
        redactValue_withoutSecrets, redactEntries_withoutSecrets]
    · simp only [entriesWithoutSecrets, redactEntries, hk, if_true, redactEntries_withoutSecrets]

end

theorem entriesWithoutSecrets_keys (entries : Dict) :
    (entriesWithoutSecrets entries).map Prod.fst = entries.map Prod.fst := by
  induction entries with
  | nil => rw [entriesWithoutSecrets]
  | cons entry es ih =>
    obtain ⟨k, v⟩ := entry
    rw [entriesWithoutSecrets, List.map_cons, List.map_cons, ih]

/-- The marker names the keys alone. -/
theorem truncationMarker_withoutSecrets (entries : Dict) (size : ℕ) (reason : String) :
    truncationMarker (.dict (entriesWithoutSecrets entries)) size reason =
      truncationMarker (.dict entries) size reason := by
  have hkeys (es : Dict) : ((es.take 20).map fun entry => Value.str entry.1.pyStr) =
      ((es.map Prod.fst).take 20).map fun k => Value.str k.pyStr := by
    rw [← List.map_take, List.map_map]
    rfl
  unfold truncationMarker
  dsimp only
  rw [hkeys, hkeys, entriesWithoutSecrets_keys]

variable {isPrintable : CodePoint → Bool} {env : Environment}

theorem capEvent_withoutSecrets (bytesCap : ℤ) (entries : Dict) :
    capEvent bytesCap (.dict (entriesWithoutSecrets entries)) =
      capEvent bytesCap (.dict entries) := by
  have hredact := redactValue_withoutSecrets 0 (.dict entries) ⟨0, 0⟩
  rw [withoutSecrets] at hredact
  simp only [capEvent, hredact, truncationMarker_withoutSecrets]

theorem sanitiseEvent_withoutSecrets (event : Value) (maxBytes : Option ℤ) :
    sanitiseEvent isPrintable env (eventWithoutSecrets event) maxBytes =
      sanitiseEvent isPrintable env event maxBytes := by
  cases event with
  | dict entries =>
    simp only [eventWithoutSecrets, sanitiseEvent, coerceEvent]
    exact congrArg Except.ok (capEvent_withoutSecrets _ entries)
  | _ => rfl

theorem sanitiseFrom_withoutSecrets (capEventBytes capTotalBytes : ℤ) (events : List Value)
    (idx : ℕ) (runningTotal : ℤ) :
    sanitiseFrom isPrintable env capEventBytes capTotalBytes idx runningTotal
        (events.map eventWithoutSecrets) =
      sanitiseFrom isPrintable env capEventBytes capTotalBytes idx runningTotal events := by
  induction events generalizing idx runningTotal with
  | nil => rfl
  | cons event rest ih =>
    rw [List.map_cons, sanitiseFrom, sanitiseFrom, sanitiseEvent_withoutSecrets, List.length_map]
    simp only [ih]

/-- Batches that differ in masked values alone have one result. -/
theorem secrets_without_influence {events events' : List Value} (overrides : Overrides)
    (h : events.map eventWithoutSecrets = events'.map eventWithoutSecrets) :
    sanitiseEventBatch isPrintable env overrides (.list events) =
      sanitiseEventBatch isPrintable env overrides (.list events') := by
  have hlength : events.length = events'.length := by
    have := congrArg List.length h
    rwa [List.length_map, List.length_map] at this
  unfold sanitiseEventBatch
  dsimp only
  rw [hlength, ← sanitiseFrom_withoutSecrets _ _ events, h, sanitiseFrom_withoutSecrets]

def printableAscii (c : CodePoint) : Bool := 0x20 ≤ c.val ∧ c.val < 0x7f

def unsetEnvironment : Environment := ⟨none, none, none⟩

def noOverrides : Overrides := ⟨none, none, none⟩

def login (password : String) : Value :=
  .dict [keyed "user" (.str (text "alice")), keyed "Password" (.str (text password))]

theorem eventWithoutSecrets_login (password : String) : eventWithoutSecrets (login password) =
    .dict [keyed "user" (.str (text "alice")), keyed "Password" .none] := by
  have huser : isSensitiveKey (.str (text "user")) = false := by decide
  have hpassword : isSensitiveKey (.str (text "Password")) = true := by decide
  simp [login, keyed, eventWithoutSecrets, entriesWithoutSecrets, withoutSecrets, huser, hpassword]

theorem logins_same :
    sanitiseEventBatch printableAscii unsetEnvironment noOverrides (.list [login "hunter2"]) =
      sanitiseEventBatch printableAscii unsetEnvironment noOverrides (.list [login ""]) :=
  secrets_without_influence noOverrides (by
    simp only [List.map_cons, List.map_nil, eventWithoutSecrets_login])

/-- An event that is a list is turned into a text, with what is under its keys. -/
theorem list_event_leaks : ¬ ∀ events events' : List Value,
    events.map withoutSecrets = events'.map withoutSecrets →
      sanitiseEventBatch printableAscii unsetEnvironment noOverrides (.list events) =
        sanitiseEventBatch printableAscii unsetEnvironment noOverrides (.list events') := by
  intro hall
  have hlogin (password : String) : withoutSecrets (login password) =
      .dict [keyed "user" (.str (text "alice")), keyed "Password" .none] := by
    rw [← eventWithoutSecrets_login password, login, withoutSecrets, eventWithoutSecrets]
  have hsame := hall [.list [login "a"]] [.list [login "b"]] (by
    simp only [List.map_cons, List.map_nil, withoutSecrets, itemsWithoutSecrets, hlogin])
  have htexts := congrArg (fun result => result.toOption.bind fun r => dumps (.list r.1)) hsame
  revert htexts
  decide

end EventSanitiser
