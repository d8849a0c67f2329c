import AiSOC.EventSanitiser
import AiSOC.OrderedDict

/-! # Redacting audit changes

What is under a sensitive key is masked, and what stands too deep or comes too late is cut off.
A payload that is too large after that is replaced by a marker. -/
namespace AuditRedaction

open CodeText RegexSearch EventPayload EventSanitiser

inductive KeyPattern where
  | anywhere (words : List String)
  /-- Between `^` and `$`, which a newline may follow. -/
  | whole (word : String)
  deriving DecidableEq

def KeyPattern.found (key : Text) : KeyPattern → Bool
  | .anywhere words => (search (hyphenated words) key).isSome
  | .whole word => (ends (ignoringCase word) ⟨none, key⟩).any fun place =>
      place.rest = [] ∨ place.rest = text "\n"

def sensitiveKeyPatterns : List KeyPattern :=
  [.anywhere ["password"], .anywhere ["passwd"], .anywhere ["secret"], .anywhere ["token"],
    .anywhere ["api", "key"], .anywhere ["private", "key"], .anywhere ["credential"],
    .anywhere ["authorization"], .whole "auth", .anywhere ["client", "secret"],
    .anywhere ["refresh", "token"], .anywhere ["access", "token"], .anywhere ["session", "id"],
    .anywhere ["cookie"], .anywhere ["otp"], .anywhere ["mfa", "code"],
    .anywhere ["recovery", "code"], .anywhere ["webhook", "secret"], .anywhere ["signing", "key"]]

def redactedSentinel : Value := .str (text "[REDACTED]")

def defaultMaxBytes : ℤ := 16 * 1024
def maxDepth : ℕ := 8
def maxNodes : ℕ := 2000

/-- `raw` is the integer that `int` makes of the variable, if it makes one. -/
def maxBytes (raw : Option ℤ) : ℤ :=
  match raw with
  | none => defaultMaxBytes
  | some value => max value 256

def isSensitiveKey (key : Text) : Bool := sensitiveKeyPatterns.any (KeyPattern.found key)

def asDict (out : OrderedDict Text Value) : Dict := out.entries.map fun e => (.str e.1, e.2)

mutual

/-- The value as it is kept, and how many nodes have been met. -/
def redactNode (value : Value) (depth counter : ℕ) : Value × ℕ :=
  let counter := counter + 1
  if counter > maxNodes then (redactedSentinel, counter)
  else if depth > maxDepth then (redactedSentinel, counter)
  else match value with
    | .dict entries =>
      let (pairs, counter) := redactEntries entries (depth + 1) counter
      (.dict (asDict (.ofList pairs)), counter)
    | .list items =>
      let (items, counter) := redactItems items (depth + 1) counter
      (.list items, counter)
    | .tuple items =>
      let (items, counter) := redactItems items (depth + 1) counter
      (.list items, counter)
    | value => (value, counter)

def redactItems (items : List Value) (depth counter : ℕ) : List Value × ℕ :=
  match items with
  | [] => ([], counter)
  | v :: vs =>
    let (first, counter) := redactNode v depth counter
    let (rest, counter) := redactItems vs depth counter
    (first :: rest, counter)

/-- The assignments to the new dictionary, in their order. -/
def redactEntries (entries : Dict) (depth counter : ℕ) : List (Text × Value) × ℕ :=
  match entries with
  | [] => ([], counter)
  | (k, v) :: es =>
    let key := k.pyStr
    let (first, counter) :=
      if isSensitiveKey key then (redactedSentinel, counter) else redactNode v depth counter
    let (rest, counter) := redactEntries es depth counter
    ((key, first) :: rest, counter)

end

def compact (parts : List Text) : Text := List.intercalate (text ",") parts

def quoted (s : Text) : Text := cp '"' :: JsonWriter.encode s ++ [cp '"']

mutual

/-- The text in ASCII without spaces; nothing for what the encoder cannot write. -/
def dumps : Value → Option Text
  | .none => some (text "null")
  | .bool b => some (if b then text "true" else text "false")
  | .int n => intText n
  | .float x => some x.json
  | .str s => some (quoted s)
  | .list items => (dumpsItems items).map fun parts => text "[" ++ compact parts ++ text "]"
  | .tuple items => (dumpsItems items).map fun parts => text "[" ++ compact parts ++ text "]"
  | .dict entries => (dumpsEntries entries).map fun parts =>
      text "\x7b" ++ compact parts ++ text "\x7d"
  | .object o => some (quoted o.str)

def dumpsItems : List Value → Option (List Text)
  | [] => some []
  | v :: vs => do return (← dumps v) :: (← dumpsItems vs)

def dumpsEntries : Dict → Option (List Text)
  | [] => some []
  | (k, v) :: es => do
    return (quoted (← k.json) ++ text ":" ++ (← dumps v)) :: (← dumpsEntries es)

end

/-- The interpreter has no longer texts. -/
def maxTextLength : ℕ := 2 ^ 63 - 1

def encodedSize (encoded : Text) : ℕ := (encoded.map utf8Width).sum

inductive AuditError where
  | assertionError
  | overflowError
  deriving DecidableEq, Repr

def unserializable : Dict :=
  [keyed "_truncated" (.bool true), keyed "_reason" (.str (text "unserializable"))]

def oversized (size : ℕ) (cap : ℤ) : Dict :=
  [keyed "_truncated" (.bool true), keyed "_original_size_bytes" (.int size),
    keyed "_max_size_bytes" (.int cap)]

/-- `changes` as the audit row gets them; nothing stands for `None`. -/
def redactChanges (raw : Option ℤ) : Option Dict → Except AuditError (Option Dict)
  | none => .ok none
  | some [] => .ok (some [])
  | some (e :: es) =>
    match (redactNode (.dict (e :: es)) 0 0).1 with
    | .dict redacted =>
      match dumps (.dict redacted) with
      | none => .ok (some unserializable)
      | some encoded =>
        if maxTextLength < encoded.length then .error .overflowError
        else if encodedSize encoded ≤ maxBytes raw then .ok (some redacted)
        else .ok (some (oversized (encodedSize encoded) (maxBytes raw)))
    | _ => .error .assertionError

end AuditRedaction
