import Mathlib.Algebra.Group.Nat.Even
import AiSOC.IntegerText
import AiSOC.TextSearch

/-! # The grammar check of ES|QL queries

A query is checked on its whole text for its quotes and parentheses, loses its comments line by
line, and is split at its pipes. The three passes find the string literals each in its own way;
the measure is one scan of the text that knows literals, escapes and comments. -/
namespace EsqlGrammar

open CodeText
open TextSearch (countUnmarked count_remove_pair)

inductive GrammarError where
  | empty
  | unbalancedQuotes
  | unbalancedParentheses
  | onlyComments
  | danglingPipe
  | noStatements
  | sourceCommand (head : Text)
  | indexPattern
  | unknownCommand (head : Text)
  | requiresArguments (head : Text)
  | limit
  | stats
  deriving DecidableEq, Repr

def processingCommands : List Text :=
  ["WHERE", "STATS", "EVAL", "KEEP", "DROP", "RENAME", "LIMIT", "SORT", "GROK", "DISSECT", "ENRICH",
    "MV_EXPAND", "DEDUP", "INLINESTATS", "LOOKUP", "TOP", "FORK", "JOIN"].map text

def sourceCommands : List Text := ["FROM", "ROW", "SHOW", "META"].map text

def quotes : List CodePoint := [cp '"', cp '\'']

/-- Escaped quotes do not count. -/
def balancedQuotes (query : Text) : Bool :=
  quotes.all fun quote => (TextSearch.remove [cp '\\', quote] query).count quote % 2 = 0

def balancedParensFrom (depth : ℕ) : Text → Bool
  | [] => depth = 0
  | c :: t =>
    if c = cp '(' then balancedParensFrom (depth + 1) t
    else if c = cp ')' then
      if depth = 0 then false else balancedParensFrom (depth - 1) t
    else balancedParensFrom depth t

def balancedParens (query : Text) : Bool := balancedParensFrom 0 query

def isLineBreak (c : CodePoint) : Bool :=
  (0x0a ≤ c.val ∧ c.val ≤ 0x0d) ∨ (0x1c ≤ c.val ∧ c.val ≤ 0x1e) ∨ c.val = 0x85 ∨
    c.val = 0x2028 ∨ c.val = 0x2029

def onFirst (c : CodePoint) : List Text → List Text
  | [] => [[c]]
  | part :: parts => (c :: part) :: parts

/-- A carriage return and a line feed are one break. -/
def splitlines : Text → List Text
  | [] => []
  | c :: t =>
    if c = cp '\r' ∧ t.head? = some (cp '\n') then splitlines t
    else if isLineBreak c then [] :: splitlines t
    else onFirst c (splitlines t)

def cutComment : Text → Text
  | [] => []
  | c :: t => if c = cp '/' ∧ t.head? = some (cp '/') then [] else c :: cutComment t

/-- The query without its line comments. -/
def cleaned (query : Text) : Text :=
  strip ([cp '\n'].intercalate ((splitlines query).map cutComment))

structure Segment where
  head : Text
  body : Text
  deriving DecidableEq, Repr

/-- The parts between the pipes outside of strings. -/
def pipeParts (inSingle inDouble : Bool) : Text → List Text
  | [] => [[]]
  | c :: t =>
    let single := if c = cp '\'' ∧ !inDouble then !inSingle else inSingle
    let double := if c = cp '"' ∧ !inSingle then !inDouble else inDouble
    if c = cp '|' ∧ !single ∧ !double then [] :: pipeParts single double t
    else onFirst c (pipeParts single double t)

def headWord (part : Text) : Text := part.takeWhile (· ≠ cp ' ')

section
variable (upper : Text → Text) (decimalDigit : CodePoint → Option ℕ)

/-- Parts without text are left out. -/
def splitPipes (query : Text) : List Segment :=
  (((pipeParts false false query).map strip).filter (· ≠ [])).map fun part =>
    ⟨upper (headWord part), strip ((part.dropWhile (· ≠ cp ' ')).drop 1)⟩

def checkLimit (segment : Segment) : Except GrammarError Unit :=
  match IntegerText.int decimalDigit 10 (strip segment.body) with
  | none => .error .limit
  | some n => if n ≤ 0 then .error .limit else .ok ()

def checkStats (segment : Segment) : Except GrammarError Unit :=
  if TextSearch.find (text " BY ") (upper segment.body) = none ∧ cp '=' ∉ segment.body then
    .error .stats
  else .ok ()

def withArguments : List Text := ["STATS", "EVAL", "WHERE", "SORT", "GROK", "DISSECT"].map text

/-- A segment after the first one. -/
def checkSegment (segment : Segment) : Except GrammarError Unit :=
  if segment.head ∉ processingCommands then .error (.unknownCommand segment.head)
  else if segment.head ∈ withArguments ∧ segment.body = [] then
    .error (.requiresArguments segment.head)
  else if segment.head = text "LIMIT" then checkLimit decimalDigit segment
  else if segment.head = text "STATS" then checkStats upper segment
  else .ok ()

def checkSegments : List Segment → Except GrammarError Unit
  | [] => .error .noStatements
  | first :: rest =>
    if first.head ∉ sourceCommands then .error (.sourceCommand first.head)
    else if first.head = text "FROM" ∧ first.body = [] then .error .indexPattern
    else rest.forM (checkSegment upper decimalDigit)

def validateEsql (query : Text) : Except GrammarError Unit :=
  if strip query = [] then .error .empty
  else if !balancedQuotes query then .error .unbalancedQuotes
  else if !balancedParens query then .error .unbalancedParentheses
  else if cleaned query = [] then .error .onlyComments
  else if (cleaned query).getLast? = some (cp '|') then .error .danglingPipe
  else checkSegments upper decimalDigit (splitPipes upper (cleaned query))

/-! ## The scan of a query -/

inductive Mode where
  | code
  | comment
  | literal (quote : CodePoint) (escaped : Bool)

/-- What stands between the pipes outside of literals and comments, without the comments. -/
def topLevel (mode : Mode) : Text → List Text
  | [] => [[]]
  | c :: t =>
    match mode with
    | .code =>
      if c = cp '|' then [] :: topLevel .code t
      else if c = cp '/' ∧ t.head? = some (cp '/') then topLevel .comment t
      else onFirst c (topLevel (if c ∈ quotes then .literal c false else .code) t)
    | .comment => if isLineBreak c then onFirst c (topLevel .code t) else topLevel .comment t
    | .literal quote true => onFirst c (topLevel (.literal quote false) t)
    | .literal quote false => onFirst c (topLevel
        (if c = quote then .code else .literal quote (c = cp '\\')) t)

def firstWord (segment : Text) : Text := (lstrip segment).takeWhile fun c => !isSpace c

/-- The commands for a segment at a place of the query. -/
def allowed (place : ℕ) : List Text := if place = 0 then sourceCommands else processingCommands

def brackets : List (CodePoint × CodePoint) :=
  [(cp '(', cp ')'), (cp '[', cp ']'), (cp '{', cp '}')]

/-- No bracket closes that was not opened, and all that were opened close. -/
def Nested (pair : CodePoint × CodePoint) (query : Text) : Prop :=
  (∀ start, start <+: query → start.count pair.2 ≤ start.count pair.1) ∧
    query.count pair.2 = query.count pair.1

/-- What acceptance promises of a query. -/
structure Checked (query : Text) : Prop where
  segments : ∀ place segment, (topLevel .code query)[place]? = some segment →
    upper (firstWord segment) ∈ allowed place
  quotes : ∀ quote ∈ quotes, Even (countUnmarked (cp '\\') quote false query)
  brackets : ∀ pair ∈ brackets, Nested pair query

/-- The code reads this head at this place. -/
def Reads (query : Text) (place : ℕ) (head : Text) : Prop :=
  ((splitPipes upper (cleaned query)).map Segment.head)[place]? = some head

variable {upper decimalDigit} {query t : Text} {segments : List Segment}

theorem forall_start_cons {P : Text → Prop} : (∀ start, start <+: c :: t → P start) ↔
    P [] ∧ ∀ start, start <+: t → P (c :: start) := by
  constructor
  · exact fun h => ⟨h [] List.nil_prefix, fun start hstart =>
      h _ (List.cons_prefix_cons.mpr ⟨rfl, hstart⟩)⟩
  · rintro ⟨hnil, hcons⟩ start hstart
    rcases List.prefix_cons_iff.mp hstart with rfl | ⟨rest, rfl, hrest⟩
    · exact hnil
    · exact hcons rest hrest

/-- The loop over the parentheses, with those that are open already. -/
theorem balancedParensFrom_iff {depth : ℕ} : balancedParensFrom depth t = true ↔
    (∀ start, start <+: t → start.count (cp ')') ≤ depth + start.count (cp '(')) ∧
      t.count (cp ')') = depth + t.count (cp '(') := by
  induction t generalizing depth with
  | nil =>
    simp only [balancedParensFrom, decide_eq_true_eq, List.prefix_nil, List.count_nil,
      forall_eq, Nat.zero_le, true_and]
    omega
  | cons c t ih =>
    rw [balancedParensFrom, forall_start_cons, List.count_nil, and_iff_right (Nat.zero_le _)]
    by_cases hopen : c = cp '('
    · have hclose : c ≠ cp ')' := by rw [hopen]; decide
      rw [if_pos hopen, ih]
      simp only [hopen, List.count_cons_self, List.count_cons_of_ne (hopen ▸ hclose)]
      refine and_congr (forall_congr' fun start => forall_congr' fun _ => ?_) ?_
      · omega
      · omega
    rw [if_neg hopen]
    simp only [List.count_cons_of_ne hopen]
    by_cases hclose : c = cp ')'
    · rw [if_pos hclose]
      simp only [hclose, List.count_cons_self]
      by_cases hdepth : depth = 0
      · rw [if_pos hdepth]
        refine iff_of_false nofun fun h => ?_
        have hnil := h.1 [] List.nil_prefix
        rw [List.count_nil, List.count_nil] at hnil
        omega
      · rw [if_neg hdepth, ih]
        refine and_congr (forall_congr' fun start => forall_congr' fun _ => ?_) ?_
        · omega
        · omega
    · rw [if_neg hclose, ih]
      simp only [List.count_cons_of_ne hclose]

theorem nested_parens : balancedParens query = true ↔ Nested (cp '(', cp ')') query := by
  rw [balancedParens, balancedParensFrom_iff, Nested]
  simp only [Nat.zero_add]

theorem balancedQuotes_iff : balancedQuotes query = true ↔
    ∀ quote ∈ quotes, Even (countUnmarked (cp '\\') quote false query) := by
  rw [balancedQuotes, List.all_eq_true]
  refine forall_congr' fun quote => forall_congr' fun hquote => ?_
  have hmark : cp '\\' ≠ quote := by
    rintro rfl
    exact absurd hquote (by decide)
  rw [decide_eq_true_eq, count_remove_pair hmark, Nat.even_iff]

theorem checkSegment_head {segment : Segment}
    (h : checkSegment upper decimalDigit segment = .ok ()) : segment.head ∈ processingCommands := by
  by_contra hunknown
  rw [checkSegment, if_pos hunknown] at h
  cases h

theorem forM_checkSegment (h : segments.forM (checkSegment upper decimalDigit) = .ok ()) :
    ∀ segment ∈ segments, segment.head ∈ processingCommands := by
  induction segments with
  | nil => exact List.forall_mem_nil _
  | cons segment segments ih =>
    cases hsegment : checkSegment upper decimalDigit segment with
    | error e =>
      rw [List.forM_eq_forM, List.forM_cons, hsegment] at h
      cases h
    | ok u =>
      rw [List.forM_eq_forM, List.forM_cons, hsegment] at h
      exact List.forall_mem_cons.mpr ⟨checkSegment_head hsegment, ih h⟩

/-- The heads of what is accepted, at their places. -/
theorem checkSegments_heads (h : checkSegments upper decimalDigit segments = .ok ()) :
    ∀ place head, (segments.map Segment.head)[place]? = some head → head ∈ allowed place := by
  cases segments with
  | nil => cases h
  | cons first rest =>
    rw [checkSegments] at h
    split_ifs at h with hsource hpattern
    intro place head hhead
    cases place with
    | zero =>
      obtain rfl := Option.some.inj hhead
      exact hsource
    | succ place =>
      rw [List.map_cons, List.getElem?_cons_succ] at hhead
      obtain ⟨segment, hsegment, rfl⟩ := List.mem_map.mp (List.mem_of_getElem? hhead)
      exact forM_checkSegment h segment hsegment

theorem validateEsql_ok (h : validateEsql upper decimalDigit query = .ok ()) :
    balancedQuotes query = true ∧ balancedParens query = true ∧
      ∀ place head, Reads upper query place head → head ∈ allowed place := by
  rw [validateEsql] at h
  split_ifs at h with hempty hquotes hparens hcomments hpipe
  rw [Bool.not_eq_true', Bool.not_eq_false] at hquotes hparens
  exact ⟨hquotes, hparens, checkSegments_heads h⟩

/-! ## Queries that the passes and the scan read alike -/

/-- One line without backslashes and comment signs. -/
structure Plain (query : Text) : Prop where
  line : ∀ c ∈ query, isLineBreak c = false
  unescaped : cp '\\' ∉ query
  uncommented : ¬[cp '/', cp '/'] <:+: query

theorem Plain.tail {c : CodePoint} (h : Plain (c :: t)) : Plain t where
  line d hd := h.line d (List.mem_cons_of_mem c hd)
  unescaped hd := h.unescaped (List.mem_cons_of_mem c hd)
  uncommented hinfix := h.uncommented (List.infix_cons hinfix)

theorem Plain.no_comment {c : CodePoint} (h : Plain (c :: t)) :
    ¬(c = cp '/' ∧ t.head? = some (cp '/')) := by
  rintro ⟨rfl, hhead⟩
  cases t with
  | nil => cases hhead
  | cons d t =>
    obtain rfl := Option.some.inj hhead
    exact h.uncommented ⟨[], t, rfl⟩

theorem cleaned_of_plain (h : Plain query) : cleaned query = strip query := by
  have hcut : ∀ t, Plain t → cutComment t = t := by
    intro t
    induction t with
    | nil => exact fun _ => rfl
    | cons c t ih =>
      intro hplain
      rw [cutComment, if_neg hplain.no_comment, ih hplain.tail]
  have hlines : ∀ t, Plain t → splitlines t = if t = [] then [] else [t] := by
    intro t
    induction t with
    | nil => exact fun _ => rfl
    | cons c t ih =>
      intro hplain
      have hbreak := hplain.line c List.mem_cons_self
      have hreturn : ¬(c = cp '\r' ∧ t.head? = some (cp '\n')) := by
        rintro ⟨rfl, -⟩
        exact absurd hbreak (by decide)
      rw [splitlines, if_neg hreturn, hbreak, if_neg Bool.false_ne_true, ih hplain.tail,
        if_neg (List.cons_ne_nil c t)]
      by_cases ht : t = []
      · rw [if_pos ht, ht]
        rfl
      · rw [if_neg ht]
        rfl
  rw [cleaned, hlines query h]
  by_cases hquery : query = []
  · rw [if_pos hquery, hquery]
    rfl
  · rw [if_neg hquery, List.map_singleton, List.intercalate_singleton, hcut query h]

/-- The mode of the scan that the two flags of the split stand for. -/
def modeOf (single double : Bool) : Mode :=
  if single then .literal (cp '\'') false else if double then .literal (cp '"') false else .code

theorem topLevel_eq_pipeParts {single double : Bool} (h : Plain t)
    (hone : (single && double) = false) :
    topLevel (modeOf single double) t = pipeParts single double t := by
  induction t generalizing single double with
  | nil => rfl
  | cons c t ih =>
    have hescape : c ≠ cp '\\' := fun hc => h.unescaped (hc ▸ List.mem_cons_self)
    have hpart := fun single double => @ih single double h.tail
    rw [pipeParts]
    cases single with
    | true =>
      cases double with
      | true => cases hone
      | false =>
        change onFirst c (topLevel (if c = cp '\'' then .code else
          .literal (cp '\'') (c = cp '\\')) t) = _
        by_cases hquote : c = cp '\''
        · subst hquote
          exact congrArg _ (hpart false false rfl)
        · simp only [hquote, hescape, if_false, decide_false, false_and, Bool.not_true,
            Bool.false_eq_true, and_false]
          exact congrArg _ (hpart true false rfl)
    | false =>
      cases double with
      | true =>
        change onFirst c (topLevel (if c = cp '"' then .code else
          .literal (cp '"') (c = cp '\\')) t) = _
        by_cases hquote : c = cp '"'
        · subst hquote
          exact congrArg _ (hpart false false rfl)
        · simp only [hquote, hescape, if_false, decide_false, false_and, Bool.not_true,
            Bool.false_eq_true, and_false]
          exact congrArg _ (hpart false true rfl)
      | false =>
        change (if c = cp '|' then [] :: topLevel .code t
          else if c = cp '/' ∧ t.head? = some (cp '/') then topLevel .comment t
          else onFirst c (topLevel (if c ∈ quotes then .literal c false else .code) t)) = _
        rw [if_neg h.no_comment]
        by_cases hpipe : c = cp '|'
        · subst hpipe
          exact congrArg _ (hpart false false rfl)
        by_cases hsingle : c = cp '\''
        · subst hsingle
          exact congrArg (onFirst (cp '\'')) (hpart true false rfl)
        by_cases hdouble : c = cp '"'
        · subst hdouble
          exact congrArg (onFirst (cp '"')) (hpart false true rfl)
        have hquote : c ∉ quotes := by
          simp only [quotes, List.mem_cons, List.not_mem_nil, or_false, not_or]
          exact ⟨hdouble, hsingle⟩
        simp only [hpipe, hsingle, hdouble, hquote, if_false, false_and]
        exact congrArg _ (hpart false false rfl)

theorem rstrip_cons (c : CodePoint) (t : Text) :
    rstrip (c :: t) = if isSpace c = true ∧ rstrip t = [] then [] else c :: rstrip t := by
  have hempty : rstrip t = [] ↔ t.reverse.dropWhile isSpace = [] := List.reverse_eq_nil_iff
  rw [rstrip, rstrip, List.rdropWhile, List.rdropWhile, List.reverse_cons, List.dropWhile_append]
  rw [rstrip, List.rdropWhile] at hempty
  simp only [List.isEmpty_iff, hempty]
  by_cases hrest : t.reverse.dropWhile isSpace = []
  · rw [if_pos hrest, hrest]
    cases hc : isSpace c with
    | true => simp [List.dropWhile, hc]
    | false => simp [List.dropWhile, hc]
  · rw [if_neg hrest, if_neg fun h => hrest h.2, List.reverse_append]
    rfl

theorem headWord_cons (c : CodePoint) (t : Text) :
    headWord (c :: t) = if c = cp ' ' then [] else c :: headWord t := by
  rw [headWord, List.takeWhile_cons]
  by_cases h : c = cp ' '
  · rw [if_pos h, if_neg (by simpa using h)]
  · rw [if_neg h, if_pos (by simpa using h)]
    rfl

/-- A word without white space is the same to the split at blanks and to the scan. -/
theorem takeWhile_eq_headWord (h : ∀ c ∈ headWord (rstrip t), isSpace c = false) :
    (t.takeWhile fun c => !isSpace c) = headWord (rstrip t) := by
  induction t with
  | nil => rfl
  | cons c t ih =>
    rw [rstrip_cons] at h ⊢
    cases hc : isSpace c with
    | true =>
      rw [List.takeWhile_cons_of_neg (by rw [hc]; decide)]
      rw [hc] at h
      by_cases hrest : rstrip t = []
      · rw [if_pos ⟨rfl, hrest⟩]
        rfl
      · rw [if_neg fun h => hrest h.2] at h ⊢
        by_cases hblank : c = cp ' '
        · rw [headWord_cons, if_pos hblank]
        · rw [headWord_cons, if_neg hblank] at h
          rw [h c List.mem_cons_self] at hc
          cases hc
    | false =>
      have hblank : c ≠ cp ' ' := by
        rintro rfl
        exact absurd hc (by decide)
      rw [hc, if_neg fun h => Bool.false_ne_true h.1, headWord_cons, if_neg hblank] at h
      rw [if_neg fun h => Bool.false_ne_true h.1, headWord_cons, if_neg hblank,
        List.takeWhile_cons_of_pos (by rw [hc]; rfl)]
      exact congrArg _ (ih fun d hd => h d (List.mem_cons_of_mem c hd))

/-- In a plain query without surrounding white space and without blank segments every segment is
read. -/
theorem reads_of_plain (hupper : ∀ t, ∀ c ∈ t, isSpace c = true → c ∈ upper t)
    (hplain : Plain query) (hstrip : strip query = query)
    (hblank : ∀ segment ∈ topLevel .code query, strip segment ≠ [])
    (haccepted : validateEsql upper decimalDigit query = .ok ()) :
    ∀ place segment, (topLevel .code query)[place]? = some segment →
      Reads upper query place (upper (firstWord segment)) := by
  have hparts : topLevel .code query = pipeParts false false query :=
    @topLevel_eq_pipeParts query false false hplain rfl
  have hheads : (splitPipes upper (cleaned query)).map Segment.head =
      (topLevel .code query).map fun segment => upper (headWord (strip segment)) := by
    rw [cleaned_of_plain hplain, hstrip, splitPipes, ← hparts, List.map_map,
      List.filter_eq_self.mpr, List.map_map]
    · rfl
    · intro part hpart
      obtain ⟨segment, hsegment, rfl⟩ := List.mem_map.mp hpart
      exact decide_eq_true (hblank segment hsegment)
  intro place segment hsegment
  have hreads : Reads upper query place (upper (headWord (strip segment))) := by
    rw [Reads, hheads, List.getElem?_map, hsegment]
    rfl
  have hallowed := (validateEsql_ok haccepted).2.2 place _ hreads
  have hwords : ∀ place, ∀ word ∈ allowed place, word.all (fun c => !isSpace c) = true := by
    intro place
    rw [allowed]
    split_ifs
    · decide
    · decide
  have hword : ∀ c ∈ headWord (strip segment), isSpace c = false := by
    intro c hc
    by_contra hspace
    rw [Bool.not_eq_false] at hspace
    have hword := List.all_eq_true.mp (hwords place _ hallowed) c (hupper _ c hc hspace)
    rw [hspace] at hword
    cases hword
  rwa [firstWord, takeWhile_eq_headWord hword]

end

def asciiUpper (t : Text) : Text := t.map fun c => if between 'a' 'z' c then c - 0x20 else c

/-- A web address in a literal hides the last command. -/
def hiddenCommand : Text :=
  text "FROM logs | WHERE url == \"http://a.example\" | FORMAT_DISK now"

end EsqlGrammar
