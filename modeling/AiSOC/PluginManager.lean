import Mathlib.Data.List.Forall2
import Mathlib.Logic.Function.Basic
import AiSOC.OrderedDict
import AiSOC.PythonValue
import AiSOC.TransitionSystem

/-! # Installing and loading plugins

A plugin is checked, its module is registered and executed, and the instance goes into the
registry. An installation replaces the plugin's directory before it loads it, and a reload drops
the plugin first, so what a failure leaves depends on how far the call came. -/
namespace PluginManager

open CodeText PythonValue
open TransitionSystem (System GuardedTrace runTrace)

abbrev Bytes := List UInt8

/-- The failures of the manager, and the exceptions that it lets through. -/
inductive PluginError where
  | emptyRef | flagRef | refCharacters | forbiddenHost
  | orasNotFound | pullTimedOut | pullFailed
  | symlink | severalPluginDirs | noPluginRoot
  | invalidYaml | invalidJson | noManifest
  | missingFields (names : List String) | invalidPluginId | invalidPluginType | hintMismatch
  | invalidSignatureFile | unsigned | noTrustedKeys | notVerified
  | noPluginModule | importFailed | noPluginClass | notFound
  | raised (exc : PyError)

def catching {α : Type} : Outcome α → Except PluginError α
  | .ok a => .ok a
  | .error exc => .error (.raised exc)

/-- What the loader sees of a plugin's directory; `D` is all the rest of it. -/
structure PluginDir (D : Type) where
  yaml : Option Bytes
  json : Option Bytes
  signature : Option Bytes
  pluginPy : Option Bytes
  rest : D

inductive TrustMode where
  | strict | warn | disabled

/-- The libraries that the manager calls, `str` of other classes among them. -/
structure Library (Ω D : Type) where
  objects : Objects Ω
  lower : Text → Text
  safeLoad : Bytes → Option (Value Ω)
  loadJson : Bytes → Option (Value Ω)
  /-- The canonical digest of the manifest and of the sources. -/
  digest : PluginDir D → Dict Ω → Outcome Bytes
  /-- Whether a key verifies a signature over a digest. -/
  verify : Bytes → Bytes → Bytes → Outcome Bool

structure Config where
  trustMode : TrustMode
  trustedKeys : List (Text × Bytes)

variable {Ω D : Type}

def toStr (lib : Library Ω D) : Value Ω → Outcome Text
  | .str s => .ok s
  | v => lib.objects.str v

/-! ## Checks -/

def isAlnum (c : CodePoint) : Bool :=
  between 'a' 'z' c || between 'A' 'Z' c || between '0' '9' c

/-- A final line break is not part of what the pattern has to match. -/
def beforeFinalNewline (t : Text) : Text := if t.getLast? = some (cp '\n') then t.dropLast else t

/-- A character of the first kind and then between `low` and `high` of the other kind. -/
def matchesId (rest : CodePoint → Bool) (low high : ℕ) (t : Text) : Bool :=
  match beforeFinalNewline t with
  | [] => false
  | c :: cs => isAlnum c && cs.all rest && (low ≤ cs.length ∧ cs.length ≤ high)

def isIdPart (c : CodePoint) : Bool := isAlnum c || c = cp '.' || c = cp '_' || c = cp '-'

def isRefPart (c : CodePoint) : Bool := isIdPart c || c = cp ':' || c = cp '/' || c = cp '@'

def validatePluginId (pluginId : Text) : Except PluginError Unit :=
  if matchesId isIdPart 1 63 pluginId then .ok () else .error .invalidPluginId

def forbiddenHosts : List String :=
  ["169.254.169.254", "metadata.google.internal", "metadata.azure.com"]

def validateOciRef (lib : Library Ω D) (ref : Text) : Except PluginError Unit :=
  if ref = [] then .error .emptyRef
  else if ref.head? = some (cp '-') then .error .flagRef
  else if !matchesId isRefPart 0 254 ref then .error .refCharacters
  else if forbiddenHosts.any fun bad => decide (text bad <:+: lib.lower ref) then
    .error .forbiddenHost
  else .ok ()

/-- The legacy manifest may be any JSON value; only a dictionary has fields to ask for. -/
def readManifest (lib : Library Ω D) (dir : PluginDir D) : Except PluginError (Dict Ω) :=
  match dir.yaml, dir.json with
  | some source, _ =>
    match lib.safeLoad source with
    | some (.dict raw) => .ok raw
    | _ => .error .invalidYaml
  | none, some source =>
    match lib.loadJson source with
    | some (.dict raw) => .ok raw
    | some _ => .error (.raised (.other (text "AttributeError")))
    | none => .error .invalidJson
  | none, none => .error .noManifest

def isBlankByte (b : UInt8) : Bool := b = 0x20 || (0x09 ≤ b && b ≤ 0x0d)

def hexDigit (b : UInt8) : Option UInt8 :=
  if 0x30 ≤ b && b ≤ 0x39 then some (b - 0x30)
  else if 0x61 ≤ b && b ≤ 0x66 then some (b - 0x57)
  else if 0x41 ≤ b && b ≤ 0x46 then some (b - 0x37)
  else none

/-- Pairs of digits, with blanks between them. -/
def fromHex : Bytes → Option Bytes
  | [] => some []
  | [b] => if isBlankByte b then some [] else none
  | b :: c :: bs =>
    if isBlankByte b then fromHex (c :: bs)
    else do
      let high ← hexDigit b
      let low ← hexDigit c
      let decoded ← fromHex bs
      return (high * 16 + low) :: decoded

def readSignature (dir : PluginDir D) : Except PluginError (Option Bytes) :=
  match dir.signature with
  | none => .ok none
  | some raw =>
    match (fromHex raw).filter fun decoded => decoded.length = 64 with
    | some decoded => .ok (some decoded)
    | none => if raw.length = 64 then .ok (some raw) else .error .invalidSignatureFile

inductive SignatureStatus where
  | verified | invalid | unsigned | skipped

/-- The first key that verifies the signature. -/
def findKey (lib : Library Ω D) (digest signature : Bytes) :
    List (Text × Bytes) → Outcome (Option Text)
  | [] => .ok none
  | (keyId, pem) :: keys => do
    if ← lib.verify pem digest signature then return some keyId
    findKey lib digest signature keys

/-- A refusal in strict mode, a warning otherwise. -/
def Config.refuse (config : Config) (e : PluginError) (status : SignatureStatus) :
    Except PluginError (SignatureStatus × Option Text) :=
  match config.trustMode with
  | .strict => .error e
  | _ => .ok (status, none)

def verifyPluginSignature (lib : Library Ω D) (config : Config) (dir : PluginDir D)
    (manifestRaw : Dict Ω) : Except PluginError (SignatureStatus × Option Text) :=
  match config.trustMode with
  | .disabled => .ok (.skipped, none)
  | _ => do
    match ← readSignature dir with
    | none => config.refuse .unsigned .unsigned
    | some signature =>
      if config.trustedKeys = [] then config.refuse .noTrustedKeys .invalid
      else
        let digest ← catching (lib.digest dir manifestRaw)
        match ← catching (findKey lib digest signature config.trustedKeys) with
        | some keyId => return (.verified, some keyId)
        | none => config.refuse .notVerified .invalid

/-! ## Loading -/

def requiredFields : List String := ["id", "name", "version", "plugin_type"]

def validPluginTypes : List String :=
  ["enricher", "action", "connector", "responder", "detection", "widget"]

structure PluginManifest (Ω : Type) where
  id : Text
  name : Value Ω
  version : Value Ω
  pluginType : Text
  description : Value Ω
  author : Value Ω
  tags : Value Ω
  configSchema : Value Ω
  homepage : Value Ω
  license : Value Ω
  minAisocVersion : Value Ω
  ociImage : Value Ω

def getOr (raw : Dict Ω) (name : String) (default : Value Ω) : Value Ω :=
  (raw.get (text name)).getD default

/-- Fields that are missing or without truth. -/
def missingFields (lib : Library Ω D) (raw : Dict Ω) : Outcome (List String) :=
  requiredFields.filterM fun name => do
    return !(← truthy lib.objects (getOr raw name .none))

def moduleName (pluginId : Text) : Text :=
  text "aisoc_plugin_" ++ pluginId.map fun c => if c = cp '.' ∨ c = cp '-' then cp '_' else c

/-- What the loader knows of a plugin before it makes the module. -/
structure Checked (Ω : Type) where
  manifest : PluginManifest Ω
  signatureStatus : SignatureStatus
  signingKeyId : Option Text

/-- The part of the loading that changes nothing. A plugin type that is no text is none of the
valid ones, and an id that is no text has no `replace`. -/
def checkPlugin (lib : Library Ω D) (config : Config) (dir : PluginDir D) :
    Except PluginError (Checked Ω) := do
  let raw ← readManifest lib dir
  let missing ← catching (missingFields lib raw)
  if missing ≠ [] then throw (.missingFields missing)
  let id := getOr raw "id" .none
  validatePluginId (← catching (toStr lib id))
  match getOr raw "plugin_type" .none with
  | .str pluginType =>
    if !validPluginTypes.any fun valid => decide (text valid = pluginType) then
      throw .invalidPluginType
    let (status, keyId) ← verifyPluginSignature lib config dir raw
    if dir.pluginPy.isNone then throw .noPluginModule
    match id with
    | .str id =>
      let empty := Value.str []
      return {
        manifest := {
          id := id
          name := getOr raw "name" .none
          version := getOr raw "version" .none
          pluginType := pluginType
          description := getOr raw "description" empty
          author := getOr raw "author" empty
          tags := getOr raw "tags" (.list [])
          configSchema := getOr raw "config_schema" (.dict [])
          homepage := getOr raw "homepage" empty
          license := getOr raw "license" empty
          minAisocVersion := getOr raw "min_aisoc_version" empty
          ociImage := getOr raw "oci_image" empty }
        signatureStatus := status
        signingKeyId := keyId }
    | _ => throw (.raised (.other (text "AttributeError")))
  | _ => throw .invalidPluginType

/-- What comes of the plugin's own code: its import, its class and the instance. -/
inductive Import where
  | importFails
  | noClass
  | constructorRaises (exc : PyError)
  | instance (handle : ℕ)

structure LoadedPlugin (Ω : Type) where
  manifest : PluginManifest Ω
  pluginDir : Text
  handle : ℕ
  enabled : Bool
  signatureStatus : SignatureStatus
  signingKeyId : Option Text

inductive Entry (D : Type) where
  | dir (content : PluginDir D)
  | other

/-- The files are the entries of the plugins directory, the modules those of `sys.modules`, each a
new object. -/
structure World (Ω D : Type) where
  files : Text → Option (Entry D)
  plugins : OrderedDict Text (LoadedPlugin Ω)
  modules : Text → Option ℕ
  nextModule : ℕ
  modules_lt : ∀ name m, modules name = some m → m < nextModule

def World.addModule (w : World Ω D) (name : Text) : World Ω D :=
  { w with
    modules := Function.update w.modules name (some w.nextModule)
    nextModule := w.nextModule + 1
    modules_lt := by
      intro n m h
      rw [Function.update_apply] at h
      split_ifs at h
      · have := Option.some.inj h
        omega
      · have := w.modules_lt n m h
        omega }

def World.load (lib : Library Ω D) (config : Config) (w : World Ω D) (pluginDir : Text)
    (imported : Import) : World Ω D × Except PluginError Text :=
  match w.files pluginDir with
  | some (.dir dir) =>
    match checkPlugin lib config dir with
    | .error e => (w, .error e)
    | .ok checked =>
      let w := w.addModule (moduleName checked.manifest.id)
      match imported with
      | .importFails => (w, .error .importFailed)
      | .noClass => (w, .error .noPluginClass)
      | .constructorRaises exc => (w, .error (.raised exc))
      | .instance handle =>
        ({ w with plugins := w.plugins.set checked.manifest.id ⟨checked.manifest, pluginDir, handle,
            true, checked.signatureStatus, checked.signingKeyId⟩ },
          .ok checked.manifest.id)
  | _ => (w, .error .noManifest)

/-! ## Installing from an image -/

/-- What an image unpacks to, with its directories in the order of their names. -/
structure PulledTree (D : Type) where
  root : PluginDir D
  subdirs : List (Text × PluginDir D)
  hasSymlink : Bool

inductive Pull (D : Type) where
  | orasNotFound
  | timedOut
  | failed
  | pulled (tree : PulledTree D)

def Pull.tree : Pull D → Except PluginError (PulledTree D)
  | .orasNotFound => .error .orasNotFound
  | .timedOut => .error .pullTimedOut
  | .failed => .error .pullFailed
  | .pulled tree => .ok tree

/-- What is left of the destination by a removal or a copy that fails. -/
structure Disk (D : Type) where
  rmtree : Option (Option (Entry D))
  copytree : Option (Option (Entry D))

structure OciCall (D : Type) where
  ociRef : Text
  pluginIdHint : Option Text
  tmpName : Text
  pull : Pull D
  disk : Disk D
  imported : Import

def hasManifest (dir : PluginDir D) : Bool := dir.yaml.isSome || dir.json.isSome

def selectExtractedPluginDir (tmpName : Text) (tree : PulledTree D) :
    Except PluginError (Text × PluginDir D) :=
  if hasManifest tree.root then .ok (tmpName, tree.root)
  else
    match tree.subdirs, tree.subdirs.filter fun d => hasManifest d.2 with
    | [], _ => .ok (tmpName, tree.root)
    | _, [candidate] => .ok candidate
    | _, _ :: _ :: _ => .error .severalPluginDirs
    | [subdir], [] => .ok subdir
    | _, [] => .error .noPluginRoot

/-- Everything before the plugins directory is touched: the id to install under, and what to copy
there. -/
def prepare (lib : Library Ω D) (config : Config) (call : OciCall D) :
    Except PluginError (Text × PluginDir D) := do
  validateOciRef lib call.ociRef
  if let some hint := call.pluginIdHint then validatePluginId hint
  let tree ← call.pull.tree
  if tree.hasSymlink then throw .symlink
  let (name, extracted) ← selectExtractedPluginDir call.tmpName tree
  let raw ← readManifest lib extracted
  let rawId := getOr raw "id" .none
  let named ← catching (truthy lib.objects rawId)
  let pluginId ← if named then catching (toStr lib rawId) else pure (call.pluginIdHint.getD name)
  validatePluginId pluginId
  if let some hint := call.pluginIdHint then
    if named && !(← catching (eqValue lib.objects rawId (.str hint))) then throw .hintMismatch
  let _ ← verifyPluginSignature lib config extracted raw
  return (pluginId, extracted)

/-- The destination after its replacement, and whether the replacement was complete. Only a
directory can be removed. -/
def replaced (before : Option (Entry D)) (dir : PluginDir D) (disk : Disk D) :
    Option (Entry D) × Bool :=
  let copied := match disk.copytree with
    | none => (some (.dir dir), true)
    | some left => (left, false)
  match before, disk.rmtree with
  | none, _ => copied
  | some .other, _ => (before, false)
  | some (.dir _), none => copied
  | some (.dir _), some left => (left, false)

def World.installFromOci (lib : Library Ω D) (config : Config) (w : World Ω D) (call : OciCall D) :
    World Ω D × Except PluginError Text :=
  match prepare lib config call with
  | .error e => (w, .error e)
  | .ok (pluginId, extracted) =>
    let (entry, complete) := replaced (w.files pluginId) extracted call.disk
    let w := { w with files := Function.update w.files pluginId entry }
    if complete then w.load lib config pluginId call.imported
    else (w, .error (.raised (.other (text "OSError"))))

/-! ## Managing -/

def World.unload (w : World Ω D) (pluginId : Text) : World Ω D × Except PluginError Unit :=
  if pluginId ∈ w.plugins.keys then ({ w with plugins := w.plugins.erase pluginId }, .ok ())
  else (w, .error .notFound)

def World.reload (lib : Library Ω D) (config : Config) (w : World Ω D) (pluginId : Text)
    (imported : Import) : World Ω D × Except PluginError Text :=
  match w.plugins.get pluginId with
  | none => (w, .error .notFound)
  | some p => ({ w with plugins := w.plugins.erase pluginId }).load lib config p.pluginDir imported

/-- `enable` and `disable`. -/
def World.setEnabled (w : World Ω D) (pluginId : Text) (enabled : Bool) :
    World Ω D × Except PluginError Unit :=
  match w.plugins.get pluginId with
  | none => (w, .error .notFound)
  | some p => ({ w with plugins := w.plugins.set pluginId { p with enabled := enabled } }, .ok ())

/-- The calls of the manager; a discovery is one `load` for each directory that it finds. -/
inductive Event (D : Type) where
  | load (pluginDir : Text) (imported : Import)
  | install (call : OciCall D)
  | reload (pluginId : Text) (imported : Import)
  | unload (pluginId : Text)
  | setEnabled (pluginId : Text) (enabled : Bool)

/-- The trust settings are read again by each call. -/
def step (lib : Library Ω D) (w : World Ω D) : Config × Event D → World Ω D
  | (config, .load pluginDir imported) => (w.load lib config pluginDir imported).1
  | (config, .install call) => (w.installFromOci lib config call).1
  | (config, .reload pluginId imported) => (w.reload lib config pluginId imported).1
  | (_, .unload pluginId) => (w.unload pluginId).1
  | (_, .setEnabled pluginId enabled) => (w.setEnabled pluginId enabled).1

/-- No two plugins share a module name. -/
def DistinctModules (w : World Ω D) : Prop :=
  ∀ p ∈ w.plugins.keys, ∀ q ∈ w.plugins.keys, moduleName p = moduleName q → p = q

def system (lib : Library Ω D) : System (World Ω D) (Config × Event D) where
  start := DistinctModules
  next w e := some (step lib w e)

structure Unchanged (w t : World Ω D) : Prop where
  files : t.files = w.files
  plugins : t.plugins = w.plugins
  modules : ∀ id ∈ w.plugins.keys, t.modules (moduleName id) = w.modules (moduleName id)

/-- A call that raises has changed nothing. -/
def FailsClean (w : World Ω D) (result : World Ω D × Except PluginError Text) : Prop :=
  ∀ e, result.2 = .error e → Unchanged w result.1

/-! ## When nothing changes -/

/-- The id of the plugin that an entry holds, if it loads. -/
def loadedId (lib : Library Ω D) (config : Config) : Option (Entry D) → Import → Option Text
  | some (.dir dir), .instance _ => (checkPlugin lib config dir).toOption.map fun c => c.manifest.id
  | _, _ => none

def Loads (lib : Library Ω D) (config : Config) (entry : Option (Entry D)) (imported : Import) :
    Prop := loadedId lib config entry imported ≠ none

/-- The plugin is refused before its module is made, or that is not the module of a plugin in the
registry. -/
def SparesModules (lib : Library Ω D) (config : Config) (w : World Ω D) (dir : PluginDir D) :
    Prop :=
  ∀ checked, checkPlugin lib config dir = .ok checked →
    ∀ id ∈ w.plugins.keys, moduleName id ≠ moduleName checked.manifest.id

/-- Either the replacement is complete and the plugin loads, or the destination is left as it
was and no module of a loaded plugin is made again. -/
def InstallGuard (lib : Library Ω D) (config : Config) (w : World Ω D) (call : OciCall D) : Prop :=
  ∀ pluginId dir, prepare lib config call = .ok (pluginId, dir) →
    let (entry, complete) := replaced (w.files pluginId) dir call.disk
    (complete = true ∧ Loads lib config (some (.dir dir)) call.imported) ∨
      (entry = w.files pluginId ∧ (complete = true → SparesModules lib config w dir))

def ReloadGuard (lib : Library Ω D) (config : Config) (w : World Ω D) (pluginId : Text)
    (imported : Import) : Prop :=
  ∀ p, w.plugins.get pluginId = some p → Loads lib config (w.files p.pluginDir) imported

variable {lib : Library Ω D} {config : Config} {w t : World Ω D} {pluginDir id : Text}
  {imported : Import} {call : OciCall D} {dir : PluginDir D} {checked : Checked Ω}

theorem Unchanged.refl (w : World Ω D) : Unchanged w w := ⟨rfl, rfl, fun _ _ => rfl⟩

theorem addModule_modules {name : Text} (n : Text) : (w.addModule name).modules n =
    if n = name then some w.nextModule else w.modules n := Function.update_apply _ _ _ _

/-- The module that is made is a new one. -/
theorem addModule_eq_iff {name n : Text} :
    (w.addModule name).modules n = w.modules n ↔ n ≠ name := by
  rw [addModule_modules]
  by_cases hn : n = name
  · rw [if_pos hn]
    refine iff_of_false ?_ fun h => h hn
    intro h
    exact absurd (w.modules_lt n _ h.symm) (lt_irrefl _)
  · rw [if_neg hn]
    exact iff_of_true rfl hn

/-- How far a loading comes. -/
theorem load_cases (lib : Library Ω D) (config : Config) (w : World Ω D) (pluginDir : Text)
    (imported : Import) :
    (∃ e, w.load lib config pluginDir imported = (w, .error e) ∧
      loadedId lib config (w.files pluginDir) imported = none ∧
      ∀ dir checked, w.files pluginDir = some (.dir dir) →
        checkPlugin lib config dir ≠ .ok checked) ∨
    ∃ dir checked, w.files pluginDir = some (.dir dir) ∧ checkPlugin lib config dir = .ok checked ∧
      ((∃ e, w.load lib config pluginDir imported =
          (w.addModule (moduleName checked.manifest.id), .error e) ∧
          loadedId lib config (w.files pluginDir) imported = none) ∨
        ∃ p, w.load lib config pluginDir imported =
          ({ w.addModule (moduleName checked.manifest.id) with
              plugins := w.plugins.set checked.manifest.id p }, .ok checked.manifest.id) ∧
          loadedId lib config (w.files pluginDir) imported = some checked.manifest.id) := by
  rw [World.load]
  cases hentry : w.files pluginDir with
  | none => exact Or.inl ⟨_, rfl, rfl, fun _ _ h => by cases h⟩
  | some entry =>
    cases entry with
    | other => exact Or.inl ⟨_, rfl, rfl, fun _ _ h => by cases h⟩
    | dir dir =>
      dsimp only
      cases hcheck : checkPlugin lib config dir with
      | error e =>
        refine Or.inl ⟨e, rfl, ?_, ?_⟩
        · cases imported with
          | «instance» handle =>
            rw [loadedId, hcheck]
            rfl
          | _ => rfl
        · rintro dir' checked ⟨⟩ hchecked
          rw [hcheck] at hchecked
          cases hchecked
      | ok checked =>
        refine Or.inr ⟨dir, checked, rfl, hcheck, ?_⟩
        cases imported with
        | «instance» handle =>
          refine Or.inr ⟨_, rfl, ?_⟩
          rw [loadedId, hcheck]
          rfl
        | importFails => exact Or.inl ⟨_, rfl, rfl⟩
        | noClass => exact Or.inl ⟨_, rfl, rfl⟩
        | constructorRaises exc => exact Or.inl ⟨_, rfl, rfl⟩

/-- Loading from an entry that was just written, compared with the state before that. -/
theorem load_failsClean_iff {files : Text → Option (Entry D)}
    (h : files pluginDir = some (.dir dir)) :
    FailsClean w (({ w with files := files } : World Ω D).load lib config pluginDir imported) ↔
      Loads lib config (some (.dir dir)) imported ∨
        (files = w.files ∧ SparesModules lib config w dir) := by
  have hcases := load_cases lib config { w with files := files } pluginDir imported
  simp only [h] at hcases
  rw [Loads]
  rcases hcases with ⟨e, hload, hnone, hrefused⟩ | ⟨dir', checked, hdir, hcheck, hcases⟩
  · have hspares : SparesModules lib config w dir := by
      intro checked hcheck
      exact absurd hcheck (hrefused dir checked rfl)
    rw [hload, hnone, or_iff_right (fun hne => hne rfl), and_iff_left hspares]
    exact ⟨fun hclean => (hclean e rfl).files, fun hfiles _ _ => ⟨hfiles, rfl, fun _ _ => rfl⟩⟩
  obtain rfl : dir = dir' := Entry.dir.inj (Option.some.inj hdir)
  rcases hcases with ⟨e, hload, hnone⟩ | ⟨p, hload, hsome⟩
  · have hspares : SparesModules lib config w dir ↔
        ∀ id ∈ w.plugins.keys, moduleName id ≠ moduleName checked.manifest.id := by
      refine ⟨fun hspares => hspares checked hcheck, ?_⟩
      intro hnames checked' hcheck'
      obtain rfl := Except.ok.inj (hcheck.symm.trans hcheck')
      exact hnames
    rw [hload, hnone, or_iff_right (fun hne => hne rfl), hspares]
    constructor
    · intro hclean
      have hunchanged := hclean e rfl
      exact ⟨hunchanged.files, fun id hid => addModule_eq_iff.mp (hunchanged.modules id hid)⟩
    · rintro ⟨hfiles, hnames⟩ _ _
      exact ⟨hfiles, rfl, fun id hid => addModule_eq_iff.mpr (hnames id hid)⟩
  · rw [hload, hsome]
    exact iff_of_true (fun _ he => by cases he) (Or.inl (Option.some_ne_none _))

/-- A replacement that is complete leaves the copy. -/
theorem entry_of_complete {before : Option (Entry D)} {disk : Disk D}
    (h : (replaced before dir disk).2 = true) : (replaced before dir disk).1 = some (.dir dir) := by
  obtain ⟨rmtree, copytree⟩ := disk
  cases copytree with
  | none =>
    cases before with
    | none => rfl
    | some entry =>
      cases entry with
      | other => cases h
      | dir _ =>
        cases rmtree with
        | none => rfl
        | some left => cases h
  | some left =>
    cases before with
    | none => cases h
    | some entry =>
      cases entry with
      | other => cases h
      | dir _ =>
        cases rmtree with
        | none => cases h
        | some left => cases h

theorem install_failsClean_iff (lib : Library Ω D) (config : Config) (w : World Ω D)
    (call : OciCall D) :
    FailsClean w (w.installFromOci lib config call) ↔ InstallGuard lib config w call := by
  rw [World.installFromOci, InstallGuard]
  cases hprepare : prepare lib config call with
  | error e => exact iff_of_true (fun _ _ => .refl w) fun _ _ h => by cases h
  | ok prepared =>
    obtain ⟨pluginId, dir⟩ := prepared
    have hguard : ∀ P : Text → PluginDir D → Prop,
        (∀ pluginId' dir', (Except.ok (pluginId, dir) : Except PluginError (Text × PluginDir D)) =
          .ok (pluginId', dir') → P pluginId' dir') ↔ P pluginId dir := by
      intro P
      constructor
      · exact fun h => h pluginId dir rfl
      · rintro h _ _ ⟨⟩
        exact h
    rw [hguard]
    have hsame : ∀ entry, Function.update w.files pluginId entry = w.files ↔
        entry = w.files pluginId := fun entry => Function.update_eq_self_iff
    dsimp only
    cases hcomplete : (replaced (w.files pluginId) dir call.disk).2 with
    | false =>
      simp only [Bool.false_eq_true, if_false, false_and, false_or, false_imp_iff, and_true]
      rw [← hsame]
      exact ⟨fun h => (h _ rfl).files, fun h _ _ => ⟨h, rfl, fun _ _ => rfl⟩⟩
    | true =>
      simp only [if_true, true_and, true_imp_iff]
      have hentry := entry_of_complete hcomplete
      rw [← hsame, hentry]
      exact load_failsClean_iff (Function.update_self _ _ _)

theorem reload_failsClean_iff (lib : Library Ω D) (config : Config) (w : World Ω D) (id : Text)
    (imported : Import) : FailsClean w (w.reload lib config id imported) ↔
      ReloadGuard lib config w id imported := by
  rw [World.reload, ReloadGuard]
  cases hget : w.plugins.get id with
  | none => exact iff_of_true (fun _ _ => .refl w) fun _ h => by cases h
  | some p =>
    have hp : (∀ p', some p = some p' → Loads lib config (w.files p'.pluginDir) imported) ↔
        Loads lib config (w.files p.pluginDir) imported :=
      ⟨fun h => h p rfl, fun h p' hp' => Option.some.inj hp' ▸ h⟩
    rw [hp]
    have herased : w.plugins.erase id ≠ w.plugins := by
      intro h
      have hnone : (w.plugins.erase id).get id = none := by
        rw [OrderedDict.get_erase, if_pos rfl]
      rw [h, hget] at hnone
      cases hnone
    rw [Loads]
    rcases load_cases lib config { w with plugins := w.plugins.erase id } p.pluginDir imported with
      ⟨e, hload, hnone, -⟩ | ⟨dir, checked, -, -, ⟨e, hload, hnone⟩ | ⟨p', hload, hsome⟩⟩
    · dsimp only
      rw [hload, hnone]
      exact iff_of_false (fun h => herased (h e rfl).plugins) fun hne => hne rfl
    · dsimp only
      rw [hload, hnone]
      exact iff_of_false (fun h => herased (h e rfl).plugins) fun hne => hne rfl
    · dsimp only
      rw [hload, hsome]
      exact iff_of_true (fun _ he => by cases he) (Option.some_ne_none _)

/-! ## Module names -/

def isSeparator (c : CodePoint) : Bool := c = cp '.' || c = cp '-' || c = cp '_'

/-- The ids differ at most in which separators they have. -/
def Alike (p q : Text) : Prop :=
  List.Forall₂ (fun c d => c = d ∨ isSeparator c = true ∧ isSeparator d = true) p q

/-- What is put in the place of some characters is the same for all of them and for itself. -/
theorem replace_eq_replace_iff {P : CodePoint → Prop} [DecidablePred P] {u c d : CodePoint} :
    ((if P c then u else c) = if P d then u else d) ↔
      c = d ∨ (P c ∨ c = u) ∧ (P d ∨ d = u) := by
  by_cases hc : P c
  · rw [if_pos hc]
    by_cases hd : P d
    · rw [if_pos hd]
      exact iff_of_true rfl (Or.inr ⟨Or.inl hc, Or.inl hd⟩)
    · rw [if_neg hd]
      constructor
      · exact fun h => Or.inr ⟨Or.inl hc, Or.inr h.symm⟩
      · rintro (rfl | ⟨-, h | h⟩)
        · exact absurd hc hd
        · exact absurd h hd
        · exact h.symm
  · rw [if_neg hc]
    by_cases hd : P d
    · rw [if_pos hd]
      constructor
      · exact fun h => Or.inr ⟨Or.inr h, Or.inl hd⟩
      · rintro (rfl | ⟨h | h, -⟩)
        · exact absurd hd hc
        · exact absurd h hc
        · exact h
    · rw [if_neg hd]
      constructor
      · exact Or.inl
      · rintro (h | ⟨h | h, h' | h'⟩)
        · exact h
        · exact absurd h hc
        · exact absurd h hc
        · exact absurd h' hd
        · exact h.trans h'.symm

theorem moduleName_eq_iff {p q : Text} : moduleName p = moduleName q ↔ Alike p q := by
  have hchar : ∀ c d : CodePoint, ((if c = cp '.' ∨ c = cp '-' then cp '_' else c) =
      if d = cp '.' ∨ d = cp '-' then cp '_' else d) ↔
      (c = d ∨ isSeparator c = true ∧ isSeparator d = true) := by
    intro c d
    simp only [isSeparator, Bool.or_eq_true, decide_eq_true_eq]
    exact replace_eq_replace_iff (P := fun c => c = cp '.' ∨ c = cp '-')
  rw [moduleName, moduleName, List.append_cancel_left_eq, ← List.forall₂_eq_eq_eq,
    List.forall₂_map_left_iff, List.forall₂_map_right_iff, Alike]
  simp only [hchar]

/-- The id of the plugin that a call loads, if it does. -/
def incoming (lib : Library Ω D) (w : World Ω D) : Config × Event D → Option Text
  | (config, .load pluginDir imported) => loadedId lib config (w.files pluginDir) imported
  | (config, .install call) =>
    match prepare lib config call with
    | .ok (pluginId, dir) =>
      if (replaced (w.files pluginId) dir call.disk).2 then
        loadedId lib config (some (.dir dir)) call.imported else none
    | .error _ => none
  | (config, .reload pluginId imported) =>
    (w.plugins.get pluginId).bind fun p => loadedId lib config (w.files p.pluginDir) imported
  | _ => none

/-- The plugins that a call leaves in the registry, besides the one that it loads. -/
def remaining (w : World Ω D) : Event D → OrderedDict Text (LoadedPlugin Ω)
  | .reload pluginId _ | .unload pluginId => w.plugins.erase pluginId
  | _ => w.plugins

/-- The plugin that is loaded has no id that is alike to that of another one. -/
def SeparateIds (lib : Library Ω D) (w : World Ω D) (e : Config × Event D) : Prop :=
  ∀ id ∈ incoming lib w e, ∀ q ∈ (remaining w e.2).keys, Alike q id → q = id

variable {q : Text}

theorem mem_load_keys : q ∈ (w.load lib config pluginDir imported).1.plugins.keys ↔
    loadedId lib config (w.files pluginDir) imported = some q ∨ q ∈ w.plugins.keys := by
  rcases load_cases lib config w pluginDir imported with
    ⟨e, hload, hnone, -⟩ | ⟨dir, checked, -, -, ⟨e, hload, hnone⟩ | ⟨p, hload, hsome⟩⟩
  · rw [hload, hnone]
    exact (or_iff_right fun h => by cases h).symm
  · rw [hload, hnone]
    exact (or_iff_right fun h => by cases h).symm
  · rw [hload, hsome, Option.some.injEq, eq_comm]
    exact OrderedDict.mem_keys_set

theorem mem_erase_keys {plugins : OrderedDict Text (LoadedPlugin Ω)} :
    q ∈ (plugins.erase id).keys ↔ q ≠ id ∧ q ∈ plugins.keys := by
  rw [← OrderedDict.get_isSome, OrderedDict.get_erase, ← OrderedDict.get_isSome]
  by_cases hq : q = id
  · simp [hq]
  · simp [hq]

/-- The registry after a call has the plugin that the call loads and those that it leaves. -/
theorem mem_step_keys (e : Config × Event D) : q ∈ (step lib w e).plugins.keys ↔
    incoming lib w e = some q ∨ q ∈ (remaining w e.2).keys := by
  obtain ⟨config, e⟩ := e
  cases e with
  | load pluginDir imported => exact mem_load_keys
  | install call =>
    simp only [step, World.installFromOci, incoming, remaining]
    cases prepare lib config call with
    | error e => exact (or_iff_right fun h => by cases h).symm
    | ok prepared =>
      obtain ⟨pluginId, dir⟩ := prepared
      dsimp only
      cases hcomplete : (replaced (w.files pluginId) dir call.disk).2 with
      | false => exact (or_iff_right fun h => by cases h).symm
      | true =>
        rw [if_pos rfl, if_pos rfl, mem_load_keys]
        dsimp only
        rw [Function.update_self, entry_of_complete hcomplete]
  | reload pluginId imported =>
    simp only [step, World.reload, incoming, remaining]
    cases hget : w.plugins.get pluginId with
    | none =>
      have hnotMem := OrderedDict.get_eq_none.mp hget
      rw [mem_erase_keys]
      refine ⟨fun h => Or.inr ⟨?_, h⟩, fun h => ?_⟩
      · rintro rfl
        exact hnotMem h
      · rcases h with h | h
        · cases h
        · exact h.2
    | some p => exact mem_load_keys
  | unload pluginId =>
    simp only [step, World.unload, incoming, remaining, reduceCtorEq, false_or]
    split_ifs with hid
    · exact Iff.rfl
    · rw [mem_erase_keys]
      refine ⟨fun h => ⟨?_, h⟩, And.right⟩
      rintro rfl
      exact hid h
  | setEnabled pluginId enabled =>
    simp only [step, World.setEnabled, incoming, remaining, reduceCtorEq, false_or]
    cases hget : w.plugins.get pluginId with
    | none => exact Iff.rfl
    | some p =>
      have hmem : pluginId ∈ w.plugins.keys := by
        rw [← OrderedDict.get_isSome, hget]
        rfl
      refine OrderedDict.mem_keys_set.trans (or_iff_right_of_imp ?_)
      rintro rfl
      exact hmem

theorem remaining_subset (e : Event D) (h : q ∈ (remaining w e).keys) : q ∈ w.plugins.keys := by
  cases e with
  | reload pluginId imported => exact (mem_erase_keys.mp h).2
  | unload pluginId => exact (mem_erase_keys.mp h).2
  | _ => exact h

theorem step_distinct_iff (h : DistinctModules w) (e : Config × Event D) :
    DistinctModules (step lib w e) ↔ SeparateIds lib w e := by
  simp only [DistinctModules, mem_step_keys]
  constructor
  · intro hdistinct id hid q hq halike
    exact hdistinct q (Or.inr hq) id (Or.inl hid) (moduleName_eq_iff.mpr halike)
  · rintro hseparate p (hp | hp) q (hq | hq) hname
    · exact Option.some.inj (hp.symm.trans hq)
    · exact (hseparate p hp q hq (moduleName_eq_iff.mp hname.symm)).symm
    · exact hseparate q hq p hp (moduleName_eq_iff.mp hname)
    · exact h p (remaining_subset e.2 hp) q (remaining_subset e.2 hq) hname

/-- A failed installation or reload changes nothing, and loaded plugins share no module name,
exactly under these conditions. -/
theorem failures_clean_iff (lib : Library Ω D) :
    (∀ config (w : World Ω D) call, FailsClean w (w.installFromOci lib config call) ↔
      InstallGuard lib config w call) ∧
    (∀ config (w : World Ω D) id imported, FailsClean w (w.reload lib config id imported) ↔
      ReloadGuard lib config w id imported) ∧
    ∀ (w : World Ω D) (es : List (Config × Event D)), (system lib).start w →
      (GuardedTrace (system lib) (fun w e => DistinctModules (step lib w e)) w es ↔
        GuardedTrace (system lib) (SeparateIds lib) w es) := by
  refine ⟨install_failsClean_iff lib, reload_failsClean_iff lib, ?_⟩
  intro w es hstart
  refine TransitionSystem.guardedTrace_congr (I := DistinctModules) ?_
    (fun w e h => step_distinct_iff h e) hstart
  intro w e t _ h hnext
  exact Option.some.inj hnext ▸ h

/-! ## Calls that fail halfway -/

/-- Manifests are told apart by their first byte: a point or a dash in the id. -/
def sampleManifest (source : Bytes) : Value Empty :=
  .dict [(.str (text "id"), .str (text (if source.head? = some 0 then "geo.ip" else "geo-ip"))),
    (.str (text "name"), .str (text "Geo")), (.str (text "version"), .str (text "1.0.0")),
    (.str (text "plugin_type"), .str (text "enricher"))]

def sampleLibrary : Library Empty Unit where
  objects := {
    str := fun _ => .error .typeError
    truthy := fun o => o.elim
    items := fun o => o.elim
    eq := fun _ _ => .ok false
    rich := fun _ _ _ => .error .typeError
    contains := fun o => o.elim
    isSet := fun o => o.elim }
  lower t := t
  safeLoad _ := none
  loadJson source := some (sampleManifest source)
  digest _ _ := .ok []
  verify _ _ _ := .ok false

def unchecked : Config := ⟨.disabled, []⟩

def sampleDir (manifest source : UInt8) : PluginDir Unit :=
  ⟨none, some [manifest], none, some [source], ()⟩

/-- Two plugins on disk, of which none is loaded. -/
def start : World Empty Unit where
  files name :=
    if name = text "point" then some (.dir (sampleDir 0 1))
    else if name = text "dash" then some (.dir (sampleDir 1 1))
    else none
  plugins := .empty
  modules _ := none
  nextModule := 0
  modules_lt := fun _ _ h => by cases h

def oneLoaded : World Empty Unit :=
  step sampleLibrary start (unchecked, .load (text "point") (.instance 1))

/-- An image with the first plugin, whose module does not import. -/
def brokenImage : OciCall Unit where
  ociRef := text "registry/geo"
  pluginIdHint := none
  tmpName := text "tmp"
  pull := .pulled ⟨sampleDir 0 2, [], false⟩
  disk := ⟨none, none⟩
  imported := .importFails

/-- A reload that fails has dropped the plugin, an installation that fails has written its
directory, and the two plugins are loaded under one module name. -/
theorem failures_change :
    ¬ FailsClean oneLoaded (oneLoaded.reload sampleLibrary unchecked (text "geo.ip") .importFails) ∧
    ¬ FailsClean oneLoaded (oneLoaded.installFromOci sampleLibrary unchecked brokenImage) ∧
    ¬ DistinctModules
      (step sampleLibrary oneLoaded (unchecked, .load (text "dash") (.instance 2))) := by
  refine ⟨?_, ?_, ?_⟩
  · intro h
    have hkeys := congrArg OrderedDict.keys (h .importFailed rfl).plugins
    exact absurd hkeys (by decide)
  · intro h
    have hentry := congrFun (h .importFailed rfl).files (text "geo.ip")
    exact absurd (congrArg Option.isSome hentry) (by decide)
  · intro h
    have hsame := h (text "geo.ip") (by decide) (text "geo-ip") (by decide) (by decide)
    exact absurd hsame (by decide)

/-- The first plugin alone, again and again, never shares its module name. -/
theorem reloading_separate : GuardedTrace (system sampleLibrary)
    (fun w e => DistinctModules (step sampleLibrary w e)) start
    [(unchecked, .load (text "point") (.instance 1)),
      (unchecked, .reload (text "geo.ip") (.instance 2))] := by
  have hstart : (system sampleLibrary).start start := fun _ h => absurd h List.not_mem_nil
  refine ((failures_clean_iff sampleLibrary).2.2 start _ hstart).mpr ?_
  refine TransitionSystem.guardedTrace_cons ?_ rfl
    (TransitionSystem.guardedTrace_cons ?_ rfl trivial)
  · intro id _ q hq
    exact absurd hq List.not_mem_nil
  · intro id _ q hq
    exact absurd hq (by decide +revert)

end PluginManager
