import Mathlib.Tactic.SplitIfs
import AiSOC.ByteText
import AiSOC.NestedMaps
import AiSOC.OrderedDict

/-! # Inbox templates

A template copies fields of a vendor's event to paths of the published one, translates the
severity and stamps constants. Maps are iterated in an order that the language leaves open, and
the nested maps of the event and of the constants are shared, not copied. -/
namespace InboxTemplate

open ByteText NestedMaps

/-- What an event or a constant holds apart from maps. -/
inductive Leaf (A : Type) where
  | nil
  | str (s : Bytes)
  | int (n : ℤ)
  | other (a : A)
  deriving DecidableEq

/-- A value as it comes from JSON or YAML. -/
inductive Tree (A : Type) where
  | leaf (x : Leaf A)
  | map (members : List (Bytes × Tree A))

/-- The maps that there are before a template is applied, by where they lie in the event or in a
constant. -/
inductive Root where
  | output
  | event (path : List Bytes)
  | constant (key : Bytes) (path : List Bytes)
  deriving DecidableEq

abbrev Maps (A : Type) := Heap Root Bytes (Leaf A)
abbrev Any (A : Type) := Value Root Bytes (Leaf A)

structure Template (A : Type) where
  vendorName : Bytes
  productName : Bytes
  classUID : ℤ
  className : Bytes
  activityID : ℤ
  fieldMap : OrderedDict Bytes Bytes
  severityMap : OrderedDict Bytes ℤ
  severityField : Bytes
  timeField : Bytes
  messageField : Bytes
  constants : OrderedDict Bytes (Tree A)

/-- An order in which the two maps of a template may be iterated. -/
structure Order {A : Type} (t : Template A) where
  fieldMap : List (Bytes × Bytes)
  constants : List (Bytes × Tree A)
  fieldMap_perm : fieldMap.Perm t.fieldMap.entries
  constants_perm : constants.Perm t.constants.entries

/-- What the standard library does with letters and times. -/
structure Library (T : Type) where
  toLower : Bytes → Bytes
  parse : Bytes → Bytes → Option T
  formatUTC : T → Bytes → Bytes

/-- The arguments of `Apply`, and what the clock shows at its two readings. -/
structure Request (A T : Type) where
  payload : List (Bytes × Tree A)
  tenantID : Bytes
  connectorRef : Bytes
  receivedAt : Bytes
  now : T
  nowMetadata : T

section
variable {A T : Type}

def child : Tree A → Bytes → Option (Tree A)
  | .map members, k => (members.find? (·.1 = k)).map (·.2)
  | .leaf _, _ => none

def treeAt : Tree A → List Bytes → Option (Tree A)
  | x, [] => some x
  | x, k :: ks => (child x k).bind (treeAt · ks)

/-- A value of the event or of a constant that lies at a path there. -/
def anyOf (root : List Bytes → Root) (path : List Bytes) : Tree A → Any A
  | .leaf x => .leaf x
  | .map _ => .ref (.base (root path))

/-- The maps of the event and of the constants. -/
def start (t : Template A) (payload : List (Bytes × Tree A)) : Maps A
  | (.base (.event path), k) =>
    ⟨(treeAt (.map payload) (path ++ [k])).map (anyOf .event (path ++ [k])), 0⟩
  | (.base (.constant key path), k) =>
    ⟨((t.constants.get key).bind (treeAt · (path ++ [k]))).map
      (anyOf (.constant key) (path ++ [k])), 0⟩
  | _ => ⟨none, 0⟩

def ocsf : Addr Root Bytes := .base .output

def event : Addr Root Bytes := .base (.event [])

def splitPath (path : Bytes) : List Bytes := path.splitOn (byte '.')

/-- `none` is `nil`. -/
def getNested (h : Maps A) (path : Bytes) : Option (Any A) :=
  if path = [] then none
  else
    match lookup h (.ref event) (splitPath path) with
    | some (.leaf .nil) => none
    | v => v

def getNestedString (h : Maps A) (path : Bytes) : Bytes :=
  match getNested h path with
  | some (.leaf (.str s)) => s
  | _ => []

def setOcsf (h : Maps A) (path : Bytes) (v : Any A) : Maps A := setNested h ocsf (splitPath path) v

/-- `ocsf[key] = value` -/
def assign (h : Maps A) (key : String) (x : Leaf A) : Maps A := put h ocsf (bytes key) (.leaf x)

def rfc3339 : Bytes := bytes "2006-01-02T15:04:05Z07:00"

def rfc3339Nano : Bytes := bytes "2006-01-02T15:04:05.999999999Z07:00"

def timeFormats : List Bytes :=
  [rfc3339Nano, rfc3339, bytes "2006-01-02T15:04:05.000Z", bytes "2006-01-02T15:04:05Z",
    bytes "2006-01-02 15:04:05", bytes "2006-01-02T15:04:05.000-0700",
    bytes "01/02/2006 15:04:05"]

def normaliseTime (lib : Library T) (s fallback : Bytes) : Bytes :=
  match timeFormats.findSome? (lib.parse · s) with
  | some time => lib.formatUTC time rfc3339Nano
  | none => fallback

def canonicalSeverity (id : ℤ) : Bytes :=
  if id = 1 then bytes "Informational"
  else if id = 2 then bytes "Low"
  else if id = 3 then bytes "Medium"
  else if id = 4 then bytes "High"
  else if id = 5 then bytes "Critical"
  else if id = 6 then bytes "Fatal"
  else bytes "Unknown"

/-- A field of the template, or what is used if it is empty. -/
def orDefault (field : Bytes) (default : String) : Bytes :=
  if field = [] then bytes default else field

variable (lib : Library T) (t : Template A) (request : Request A T)

def assignClass (h : Maps A) : Maps A :=
  let h := assign h "class_uid" (.int t.classUID)
  let h := assign h "class_name" (.str t.className)
  let h := if 0 < t.classUID then assign h "category_uid" (.int (t.classUID / 1000)) else h
  assign h "activity_id" (.int (if t.activityID ≠ 0 then t.activityID else 1))

def assignTime (h : Maps A) : Maps A :=
  let v := getNestedString h (orDefault t.timeField "time")
  let h := assign h "time" (.str (if v ≠ [] then normaliseTime lib v request.receivedAt
    else request.receivedAt))
  assign h "ingest_time" (.str (lib.formatUTC request.now rfc3339Nano))

def assignMetadata (h : Maps A) : Maps A :=
  let metadata := fresh h ocsf (bytes "metadata")
  let h := make h ocsf (bytes "metadata")
  let h := put h metadata (bytes "version") (.leaf (.str (bytes "1.1.0")))
  let h := put h metadata (bytes "tenant_uid") (.leaf (.str request.tenantID))
  let h := put h metadata (bytes "ingested_time")
    (.leaf (.str (lib.formatUTC request.nowMetadata rfc3339)))
  let product := fresh h metadata (bytes "product")
  let h := make h metadata (bytes "product")
  let h := put h product (bytes "name") (.leaf (.str t.productName))
  put h product (bytes "vendor_name") (.leaf (.str t.vendorName))

/-- One entry of the field map. -/
def copyField (h : Maps A) (entry : Bytes × Bytes) : Maps A :=
  match getNested h entry.1 with
  | some v => setOcsf h entry.2 v
  | none => h

def assignSeverity (h : Maps A) : Maps A :=
  let raw := getNestedString h (orDefault t.severityField "severity")
  if raw ≠ [] then
    match t.severityMap.get (lib.toLower (trimSpace raw)) with
    | some id =>
      assign (assign h "severity_id" (.int id)) "severity" (.str (canonicalSeverity id))
    | none => assign (assign h "severity_id" (.int 0)) "severity" (.str raw)
  else if (h (ocsf, bytes "severity_id")).value.isNone then
    assign (assign h "severity_id" (.int 0)) "severity" (.str (bytes "Unknown"))
  else h

def assignMessage (h : Maps A) : Maps A :=
  let message := getNestedString h (orDefault t.messageField "message")
  if (h (ocsf, bytes "message")).value.isNone ∧ message ≠ [] then
    assign h "message" (.str message)
  else h

def stampConstant (h : Maps A) (constant : Bytes × Tree A) : Maps A :=
  setOcsf h constant.1 (anyOf (.constant constant.1) [] constant.2)

/-- `ocsf` before the field map is copied. -/
def seed : Maps A :=
  assignMetadata lib t request (assignTime lib t request (assignClass t (start t request.payload)))

/-- Between the two loops. -/
def assignRest (h : Maps A) : Maps A := assignMessage t (assignSeverity lib t h)

def apply (order : Order t) : Maps A :=
  let h := order.fieldMap.foldl copyField (seed lib t request)
  let h := order.constants.foldl stampConstant (assignRest lib t h)
  let h := assign h "tenant_uid" (.str request.tenantID)
  assign h "source_connector_id" (.str request.connectorRef)

/-- What is published does not depend on the order of the iteration. -/
def Deterministic : Prop :=
  ∀ order order' : Order t, ∀ path, observe (apply lib t request order) ocsf path =
    observe (apply lib t request order') ocsf path

end

end InboxTemplate
