import Mathlib.Data.List.Dedup
import Mathlib.Data.List.Lex
import Mathlib.Data.List.Sort
import AiSOC.OrderedDict
import AiSOC.SqlTokens

/-! # Queries from templates

The queries that may run on a host: reviewed templates with placeholders. A value is put into the
template as it is written, if no comment and no semicolon is in it. -/
namespace OsqueryAllowlist

open CodeText SqlTokens

/-- A piece of a template: text, a placeholder `{name}`, or a placeholder within apostrophes
`'{name}'`. -/
inductive Part where
  | text (t : Text)
  | value (name : Text)
  | quoted (name : Text)
  deriving DecidableEq, Repr

def Part.placeholder : Part → Option Text
  | .text _ => none
  | .value name | .quoted name => some name

/-- The values by the text that is written for them. -/
abbrev Params := OrderedDict Text Text

def limit : Text := text "limit"
def directory : Text := text "directory"
def pid : Text := text "pid"
def maxDepth : Text := text "max_depth"

def templates : List (Text × List Part) :=
  [(text "running_processes",
      [.text (text "SELECT pid, name, path, cmdline, uid, gid, start_time, parent AS ppid, " ++
        text "on_disk FROM processes ORDER BY start_time DESC LIMIT "), .value limit,
        .text (text ";")]),
    (text "active_connections",
      [.text (text "SELECT pid, fd, socket, remote_address, remote_port, local_address, " ++
        text "local_port, protocol, state FROM process_open_sockets WHERE remote_address != '' " ++
        text "AND remote_port != 0 LIMIT "), .value limit, .text (text ";")]),
    (text "logged_in_users",
      [.text (text "SELECT type, user, host, tty, time FROM logged_in_users ORDER BY time DESC " ++
        text "LIMIT "), .value limit, .text (text ";")]),
    (text "recent_files",
      [.text (text "SELECT path, directory, filename, size, type, atime, mtime, ctime, uid, gid " ++
        text "FROM file WHERE directory = "), .quoted directory, .text (text " LIMIT "),
        .value limit, .text (text ";")]),
    (text "process_tree",
      [.text (text "WITH RECURSIVE proctree(pid, ppid, name, path, cmdline, depth) AS (   " ++
        text "SELECT pid, parent AS ppid, name, path, cmdline, 0 AS depth   FROM processes   " ++
        text "WHERE pid = "),
        .value pid,
        .text (text "   UNION ALL   SELECT p.pid, p.parent, p.name, p.path, p.cmdline, pt.depth " ++
          text "+ 1   FROM processes p   JOIN proctree pt ON p.parent = pt.pid   WHERE " ++
          text "pt.depth < "),
        .value maxDepth,
        .text (text " ) SELECT pid, ppid, name, path, cmdline, depth FROM proctree ORDER BY " ++
        text "depth, pid;")]),
    (text "package_inventory",
      [.text (text "SELECT name, version, source, COALESCE(arch, '') AS arch FROM deb_packages " ++
        text "UNION ALL SELECT name, version, source, arch FROM rpm_packages UNION ALL SELECT " ++
        text "name, version, 'homebrew' AS source, '' AS arch FROM homebrew_packages LIMIT "),
        .value limit, .text (text ";")])]

def defaults : List (Text × List (Text × Text)) :=
  [(text "running_processes", [(limit, text "200")]),
    (text "active_connections", [(limit, text "200")]),
    (text "logged_in_users", [(limit, text "100")]),
    (text "recent_files", [(directory, text "/tmp"), (limit, text "100")]),
    (text "process_tree", [(pid, text "1"), (maxDepth, text "5")]),
    (text "package_inventory", [(limit, text "500")])]

def paramSpecs : List (Text × List Text) :=
  [(text "running_processes", [limit]), (text "active_connections", [limit]),
    (text "logged_in_users", [limit]), (text "recent_files", [directory, limit]),
    (text "process_tree", [pid, maxDepth]), (text "package_inventory", [limit])]

def sorted (names : List Text) : List Text := names.insertionSort (· ≤ ·)

def commaSeparated (names : List Text) : Text := List.intercalate (text ", ") names

def listTemplates : List Text := sorted (templates.map Prod.fst)

def unknownTemplate (templateId : Text) : Text :=
  text "Unknown template '" ++ templateId ++ text "'. Available: " ++ commaSeparated listTemplates

def unknownParams (templateId : Text) (unknown allowed : List Text) : Text :=
  text "Template '" ++ templateId ++ text "' does not accept parameter(s): " ++
    commaSeparated (sorted unknown) ++ text ". Allowed: " ++ commaSeparated (sorted allowed)

def missingParams (templateId : Text) (missing : List Text) : Text :=
  text "Template '" ++ templateId ++ text "' requires parameter(s) with no default: " ++
    commaSeparated (sorted missing)

def disallowedCharacters (key : Text) : Text :=
  text "Parameter '" ++ key ++ text "' contains disallowed characters."

/-- A comment begins in the value, or a statement ends. -/
def disallowed (value : Text) : Bool :=
  text "--" <:+: value ∨ text "/*" <:+: value ∨ cp ';' ∈ value

def template (templateId : Text) : List Part := (templates.lookup templateId).getD []

def merged (templateId : Text) (params : Params) : Params :=
  (OrderedDict.ofList ((defaults.lookup templateId).getD [])).update params

def valueOf (values : Params) (name : Text) : Text := (values.get name).getD []

def Part.render (values : Params) : Part → Text
  | .text t => t
  | .value name => valueOf values name
  | .quoted name => apostrophe :: valueOf values name ++ [apostrophe]

/-- The error is the text of the one that is raised. -/
def renderQuery (templateId : Text) (params : Params) : Except Text Text :=
  if (templates.lookup templateId).isNone then .error (unknownTemplate templateId)
  else
    let allowed := (paramSpecs.lookup templateId).getD []
    let unknown := params.keys.filter (· ∉ allowed)
    if unknown ≠ [] then .error (unknownParams templateId unknown allowed)
    else
      let values := merged templateId params
      let required := ((template templateId).filterMap Part.placeholder).dedup
      let missing := required.filter (· ∉ values.keys)
      if missing ≠ [] then .error (missingParams templateId missing)
      else
        match values.entries.find? fun e => disallowed e.2 with
        | some e => .error (disallowedCharacters e.1)
        | none => .ok ((template templateId).flatMap (Part.render values))

/-- The tokens of a piece, where a value is one literal of its own. -/
def Part.tokens (values : Params) : Part → List Token
  | .text t => tokenise t
  | .value name => [⟨.integer, stripBlank (valueOf values name)⟩]
  | .quoted name => [⟨.string, apostrophe :: valueOf values name ++ [apostrophe]⟩]

/-- The query has the tokens of its template, with one literal for each placeholder. -/
def TokensKept (templateId : Text) (params : Params) (sql : Text) : Prop :=
  tokenise sql = (template templateId).flatMap (Part.tokens (merged templateId params))

/-- An integer, or a text in which every apostrophe is doubled if the placeholder stands within
apostrophes. -/
def Part.IsLiteral (values : Params) : Part → Prop
  | .text _ => True
  | .value name => IsInteger (stripBlank (valueOf values name))
  | .quoted name => Closed apostrophe (valueOf values name)

def Literals (templateId : Text) (params : Params) : Prop :=
  ∀ part ∈ template templateId, part.IsLiteral (merged templateId params)

/-- Placeholders stand between tokens: text before one ends between tokens, and text `after` one
begins with a space or a semicolon. -/
def separated : Bool → List Part → Bool
  | _, [] => true
  | after, .text t :: parts =>
    (after → t.head? = some (cp ' ') ∨ t.head? = some (cp ';')) ∧
      (parts = [] ∨ (run initial t).mode = .blank) ∧ separated false parts
  | after, .value _ :: parts => after = false ∧ separated true parts
  | after, .quoted _ :: parts => after = false ∧ separated true parts

variable {templateId sql : Text} {params values : Params} {parts : List Part} {l : Lexer}

theorem templates_separated : (templates.all fun t => separated false t.2) = true := by
  rw [templates]
  repeat rw [text_ofList]
  decide +kernel

theorem template_separated (templateId : Text) : separated false (template templateId) = true := by
  rw [template]
  cases h : templates.lookup templateId with
  | none => rfl
  | some parts =>
    obtain ⟨before, after, htemplates, -⟩ := List.lookup_eq_some_iff.mp h
    have hmem : (templateId, parts) ∈ templates := by
      rw [htemplates]
      exact List.mem_append_right before List.mem_cons_self
    exact List.all_eq_true.mp templates_separated _ hmem

/-- Text that follows what has ended is read from the start. -/
theorem run_text {after : Bool} {t : Text}
    (hhead : after = true → t.head? = some (cp ' ') ∨ t.head? = some (cp ';'))
    (hmode : if after then Ends l.mode else l.mode = .blank) :
    run l t = ⟨l.finish ++ (run initial t).tokens, (run initial t).mode⟩ := by
  have hrun : run l t = run ⟨l.finish, .blank⟩ t := by
    cases after with
    | false =>
      have hl : l = ⟨l.finish, .blank⟩ := by
        obtain ⟨tokens, m⟩ := l
        obtain rfl : m = .blank := hmode
        rw [Lexer.finish, close, List.append_nil]
      exact congrArg (fun l => run l t) hl
    | true =>
      cases t with
      | nil => simp at hhead
      | cons c t =>
        apply run_cons_of_none
        apply hmode
        rcases hhead rfl with hc | hc
        · obtain rfl := Option.some.inj hc
          exact Or.inl (by decide)
        · exact Or.inr (Option.some.inj hc)
  rw [hrun, run_tokens]
  rfl

/-- Pieces that are separated are read one by one. -/
theorem run_parts {after : Bool} (hparts : separated after parts = true)
    (hvalues : ∀ part ∈ parts, part.IsLiteral values)
    (hmode : if after then Ends l.mode else l.mode = .blank) :
    (run l (parts.flatMap (Part.render values))).finish =
      l.finish ++ parts.flatMap (Part.tokens values) := by
  induction parts generalizing after l with
  | nil => exact (List.append_nil _).symm
  | cons part parts ih =>
    obtain ⟨hpart, hrest⟩ := List.forall_mem_cons.mp hvalues
    rw [List.flatMap_cons, List.flatMap_cons, run_append, ← List.append_assoc]
    cases part with
    | text t =>
      rw [separated, decide_eq_true_iff] at hparts
      obtain ⟨hhead, hnext, hparts⟩ := hparts
      have hfinish : (run l t).finish = l.finish ++ tokenise t := by
        rw [run_text hhead hmode, Lexer.finish]
        exact List.append_assoc _ _ _
      rw [Part.render, Part.tokens, ← hfinish]
      rcases hnext with rfl | hblank
      · exact (List.append_nil _).symm
      · apply ih hparts hrest
        rw [run_text hhead hmode]
        exact hblank
    | value name =>
      rw [separated, decide_eq_true_iff] at hparts
      obtain ⟨rfl, hparts⟩ := hparts
      obtain ⟨tokens, m⟩ := l
      obtain rfl : m = .blank := hmode
      obtain ⟨hfinish, hends⟩ := run_value tokens hpart
      have hblank : (⟨tokens, .blank⟩ : Lexer).finish = tokens := List.append_nil tokens
      rw [hblank, Part.render, Part.tokens, ← hfinish]
      exact ih hparts hrest hends
    | quoted name =>
      rw [separated, decide_eq_true_iff] at hparts
      obtain ⟨rfl, hparts⟩ := hparts
      obtain ⟨tokens, m⟩ := l
      obtain rfl : m = .blank := hmode
      have hrun := run_string tokens hpart
      have hblank : (⟨tokens, .blank⟩ : Lexer).finish = tokens := List.append_nil tokens
      rw [hblank, Part.render, Part.tokens, hrun]
      exact ih hparts hrest (ends_closing .string _)

theorem rendered_of_ok (h : renderQuery templateId params = .ok sql) :
    sql = (template templateId).flatMap (Part.render (merged templateId params)) := by
  rw [renderQuery] at h
  dsimp only at h
  split_ifs at h
  cases hfind : (merged templateId params).entries.find? fun e => disallowed e.2 with
  | some e =>
    rw [hfind] at h
    cases h
  | none =>
    rw [hfind] at h
    exact (Except.ok.inj h).symm

/-- Values that are literals keep the tokens. -/
theorem tokens_kept_of_literals (h : renderQuery templateId params = .ok sql)
    (hliterals : Literals templateId params) : TokensKept templateId params sql := by
  rw [rendered_of_ok h]
  exact @run_parts _ _ initial false (template_separated templateId) hliterals rfl

theorem literals_of_tokens_kept (h : TokensKept templateId params sql) :
    Literals templateId params := by
  intro part hpart
  have hmem : ∀ token ∈ part.tokens (merged templateId params), token.WellFormed := by
    intro token htoken
    apply tokenise_wellFormed sql
    rw [h]
    exact List.mem_flatMap.mpr ⟨part, hpart, htoken⟩
  cases part with
  | text t => trivial
  | value name => exact (hmem _ List.mem_cons_self).1 rfl
  | quoted name =>
    obtain ⟨body, hbody, htext⟩ := (hmem _ List.mem_cons_self).2 rfl
    have hvalue := List.append_cancel_right (List.cons.inj htext).2
    rw [Part.IsLiteral, hvalue]
    exact hbody

/-- The tokens are kept exactly if the values are literals. -/
theorem tokens_kept_iff (h : renderQuery templateId params = .ok sql) :
    TokensKept templateId params sql ↔ Literals templateId params :=
  ⟨literals_of_tokens_kept, tokens_kept_of_literals h⟩

def logFiles : Params := OrderedDict.ofList [(directory, text "/var/log"), (limit, text " 0x64")]

/-- The directory is a text and the limit an integer. -/
theorem tokens_kept_iff_log_files : TokensKept (text "recent_files") logFiles
    ((template (text "recent_files")).flatMap
      (Part.render (merged (text "recent_files") logFiles))) := by
  have hdirectory : valueOf (merged (text "recent_files") logFiles) directory =
      text "/var/log" := by decide +kernel
  have hlimit : stripBlank (valueOf (merged (text "recent_files") logFiles) limit) =
      text "0x64" := by decide +kernel
  obtain ⟨start, htemplate⟩ : ∃ start, template (text "recent_files") =
      [.text start, .quoted directory, .text (text " LIMIT "), .value limit, .text (text ";")] :=
    ⟨_, rfl⟩
  rw [tokens_kept_iff (by rfl)]
  intro part hpart
  rw [htemplate] at hpart
  cases part with
  | text t => trivial
  | value name =>
    have hname : name = limit := by simpa using hpart
    rw [Part.IsLiteral, hname, hlimit]
    exact Or.inr ⟨cp 'x', text "64", rfl, by decide, by decide, List.all_eq_true.mp (by decide)⟩
  | quoted name =>
    have hname : name = directory := by simpa using hpart
    rw [Part.IsLiteral, hname, hdirectory]
    exact closed_of_notMem (by decide)

def everyProcess : Params := OrderedDict.ofList [(pid, text "1 OR 1 = 1")]

/-- A value that is no integer changes the condition of the query. -/
theorem pid_adds_condition : ¬∀ (templateId : Text) (params : Params) (sql : Text),
    renderQuery templateId params = .ok sql → TokensKept templateId params sql := by
  intro h
  have hliterals := literals_of_tokens_kept (h (text "process_tree") everyProcess _ (by rfl))
  have hpid : stripBlank (valueOf (merged (text "process_tree") everyProcess) pid) =
      text "1 OR 1 = 1" := by decide +kernel
  have hmem : Part.value pid ∈ template (text "process_tree") :=
    List.mem_cons_of_mem _ List.mem_cons_self
  have hinteger : IsInteger (text "1 OR 1 = 1") := hpid ▸ hliterals _ hmem
  rcases hinteger with ⟨-, hdigits⟩ | ⟨mark, digits, htext, -⟩
  · exact absurd (hdigits (cp ' ') (by decide)) (by decide)
  · exact absurd (List.cons.inj htext).1 (by decide)

end OsqueryAllowlist
