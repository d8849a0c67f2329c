import Mathlib.Tactic.SplitIfs
import AiSOC.CodeText

/-! # The tokens of SQL

A machine that reads a text one character at a time: words, numbers, text in quotes and symbols,
with white space and comments between them. A quote is doubled within quotes. What no token of
the language begins or ends is a token that is not legal. -/
namespace SqlTokens

open CodeText

inductive Kind where
  | word
  | integer
  | decimal
  | string
  | name
  | symbol
  | illegal
  deriving DecidableEq, Repr

structure Token where
  kind : Kind
  text : Text
  deriving DecidableEq, Repr

/-- What is being read, with the text of it so far. -/
inductive Mode where
  | blank
  | word (t : Text)
  | digits (t : Text)
  | hexMark (t : Text)
  | hex (t : Text)
  | fraction (t : Text)
  | exponent (t : Text)
  | exponentSign (t : Text)
  | scaled (t : Text)
  | junk (t : Text)
  | symbol (t : Text)
  | quoted (kind : Kind) (quote : CodePoint) (t : Text)
  | closing (kind : Kind) (quote : CodePoint) (t : Text)
  | bracketed (t : Text)
  | bracketEnd (t : Text)
  | lineComment
  | blockComment (star : Bool)
  deriving DecidableEq, Repr

def isBlank (c : CodePoint) : Bool :=
  c.val = 0x09 ∨ c.val = 0x0a ∨ c.val = 0x0c ∨ c.val = 0x0d ∨ c.val = 0x20

def isDigit (c : CodePoint) : Bool := between '0' '9' c

def isHexDigit (c : CodePoint) : Bool := isDigit c ∨ between 'a' 'f' c ∨ between 'A' 'F' c

def isWordStart (c : CodePoint) : Bool :=
  between 'a' 'z' c ∨ between 'A' 'Z' c ∨ c = cp '_' ∨ 0x80 ≤ c.val

def isWordChar (c : CodePoint) : Bool := isWordStart c ∨ isDigit c ∨ c = cp '$'

def isHexMark (c : CodePoint) : Bool := c = cp 'x' ∨ c = cp 'X'

def isExponent (c : CodePoint) : Bool := c = cp 'e' ∨ c = cp 'E'

/-- The symbols of more than one character. -/
def symbols : List Text :=
  [text "==", text "<=", text "<>", text "<<", text ">=", text ">>", text "!=", text "||",
    text "->", text "->>"]

/-- The character begins a token, or is white space. -/
def begins (c : CodePoint) : Mode :=
  if isBlank c then .blank
  else if isDigit c then .digits [c]
  else if isWordStart c then .word [c]
  else if c = cp '\'' then .quoted .string c [c]
  else if c = cp '"' ∨ c = cp '`' then .quoted .name c [c]
  else if c = cp '[' then .bracketed [c]
  else .symbol [c]

/-- How a number of decimal digits goes on. -/
def continuesNumber (t : Text) (c : CodePoint) : Option Mode :=
  if isExponent c then some (.exponent (t ++ [c]))
  else if isWordChar c then some (.junk (t ++ [c]))
  else none

/-- How the character continues what is being read, if it does. -/
def continues : Mode → CodePoint → Option Mode
  | .blank, _ => none
  | .word t, c => if isWordChar c then some (.word (t ++ [c])) else none
  | .digits t, c =>
    if isDigit c then some (.digits (t ++ [c]))
    else if c = cp '.' then some (.fraction (t ++ [c]))
    else if isHexMark c ∧ t = [cp '0'] then some (.hexMark (t ++ [c]))
    else continuesNumber t c
  | .hexMark t, c =>
    if isHexDigit c then some (.hex (t ++ [c]))
    else if isWordChar c then some (.junk (t ++ [c]))
    else none
  | .hex t, c =>
    if isHexDigit c then some (.hex (t ++ [c]))
    else if isWordChar c then some (.junk (t ++ [c]))
    else none
  | .fraction t, c => if isDigit c then some (.fraction (t ++ [c])) else continuesNumber t c
  | .exponent t, c =>
    if isDigit c then some (.scaled (t ++ [c]))
    else if c = cp '+' ∨ c = cp '-' then some (.exponentSign (t ++ [c]))
    else if isWordChar c then some (.junk (t ++ [c]))
    else none
  | .exponentSign t, c => if isDigit c then some (.scaled (t ++ [c])) else none
  | .scaled t, c =>
    if isDigit c then some (.scaled (t ++ [c]))
    else if isWordChar c then some (.junk (t ++ [c]))
    else none
  | .junk t, c => if isWordChar c then some (.junk (t ++ [c])) else none
  | .symbol t, c =>
    if t = [cp '.'] ∧ isDigit c then some (.fraction (t ++ [c]))
    else if t = [cp '-'] ∧ c = cp '-' then some .lineComment
    else if t = [cp '/'] ∧ c = cp '*' then some (.blockComment false)
    else if t ++ [c] ∈ symbols then some (.symbol (t ++ [c]))
    else none
  | .quoted kind quote t, c =>
    if c = quote then some (.closing kind quote (t ++ [c]))
    else some (.quoted kind quote (t ++ [c]))
  | .closing kind quote t, c =>
    if c = quote then some (.quoted kind quote (t ++ [c])) else none
  | .bracketed t, c =>
    if c = cp ']' then some (.bracketEnd (t ++ [c])) else some (.bracketed (t ++ [c]))
  | .bracketEnd _, _ => none
  | .lineComment, c => if c = cp '\n' then some .blank else some .lineComment
  | .blockComment star, c =>
    if star ∧ c = cp '/' then some .blank else some (.blockComment (c = cp '*'))

/-- The tokens that end where the text or what is being read ends. -/
def close : Mode → List Token
  | .blank | .lineComment | .blockComment _ => []
  | .word t => [⟨.word, t⟩]
  | .digits t | .hex t => [⟨.integer, t⟩]
  | .fraction t | .scaled t => [⟨.decimal, t⟩]
  | .hexMark t | .exponent t | .junk t | .quoted _ _ t | .bracketed t => [⟨.illegal, t⟩]
  | .exponentSign t => [⟨.illegal, t.dropLast⟩, ⟨.symbol, t.drop (t.length - 1)⟩]
  | .symbol t => [⟨.symbol, t⟩]
  | .closing kind _ t => [⟨kind, t⟩]
  | .bracketEnd t => [⟨.name, t⟩]

/-- The tokens that were read, and what is being read. -/
structure Lexer where
  tokens : List Token
  mode : Mode
  deriving DecidableEq, Repr

def initial : Lexer := ⟨[], .blank⟩

def step (l : Lexer) (c : CodePoint) : Lexer :=
  match continues l.mode c with
  | some mode => ⟨l.tokens, mode⟩
  | none => ⟨l.tokens ++ close l.mode, begins c⟩

def run (l : Lexer) (t : Text) : Lexer := t.foldl step l

def Lexer.finish (l : Lexer) : List Token := l.tokens ++ close l.mode

def tokenise (t : Text) : List Token := (run initial t).finish

def IsDecimal (t : Text) : Prop := t ≠ [] ∧ ∀ c ∈ t, isDigit c = true

/-- Hexadecimal digits behind their mark. -/
def IsHex (t : Text) : Prop :=
  ∃ mark digits, t = cp '0' :: mark :: digits ∧ isHexMark mark = true ∧ digits ≠ [] ∧
    ∀ c ∈ digits, isHexDigit c = true

def IsInteger (t : Text) : Prop := IsDecimal t ∨ IsHex t

/-- Every quote stands next to the one that doubles it. -/
inductive Closed (quote : CodePoint) : Text → Prop where
  | nil : Closed quote []
  | other {t : Text} (c : CodePoint) : Closed quote t → c ≠ quote → Closed quote (t ++ [c])
  | doubled {t : Text} : Closed quote t → Closed quote (t ++ [quote, quote])

def apostrophe : CodePoint := cp '\''

theorem closed_of_notMem {quote : CodePoint} {t : Text} (h : quote ∉ t) : Closed quote t := by
  induction t using List.reverseRecOn with
  | nil => exact .nil
  | append_singleton t c ih =>
    rw [List.mem_append, not_or, List.mem_singleton] at h
    exact (ih h.1).other c (Ne.symm h.2)

/-- What the text of a token of its kind is. -/
def Token.WellFormed (token : Token) : Prop :=
  (token.kind = .integer → IsInteger token.text) ∧
    (token.kind = .string → ∃ body, Closed apostrophe body ∧
      token.text = apostrophe :: body ++ [apostrophe])

/-- What holds of the text that is being read. -/
def Mode.Ok : Mode → Prop
  | .digits t => IsDecimal t
  | .hexMark t => ∃ mark, t = [cp '0', mark] ∧ isHexMark mark = true
  | .hex t => IsHex t
  | .quoted kind quote t => kind ≠ .integer ∧ (kind = .string → quote = apostrophe ∧
      ∃ body, Closed apostrophe body ∧ t = apostrophe :: body)
  | .closing kind quote t => kind ≠ .integer ∧ (kind = .string → quote = apostrophe ∧
      ∃ body, Closed apostrophe body ∧ t = apostrophe :: body ++ [apostrophe])
  | _ => True

variable {c : CodePoint} {t body : Text} {m : Mode} {l : Lexer} {token : Token}

theorem begins_ok (c : CodePoint) : (begins c).Ok := by
  rw [begins]
  split_ifs with hblank hdigit hword hstring hname hbracket
  · trivial
  · exact ⟨List.cons_ne_nil c [], by simpa using hdigit⟩
  · trivial
  · subst hstring
    exact ⟨by decide, fun _ => ⟨rfl, [], .nil, rfl⟩⟩
  · exact ⟨by decide, nofun⟩
  · trivial
  · trivial

theorem continuesNumber_ok {next : Mode} (h : continuesNumber t c = some next) : next.Ok := by
  rw [continuesNumber] at h
  split_ifs at h
  · cases h
    trivial
  · cases h
    trivial

theorem forall_concat {α : Type*} {p : α → Prop} {xs : List α} {x : α} (hxs : ∀ y ∈ xs, p y)
    (hx : p x) : ∀ y ∈ xs ++ [x], p y := by
  rw [List.forall_mem_append, List.forall_mem_singleton]
  exact ⟨hxs, hx⟩

theorem continues_ok (hm : m.Ok) {next : Mode} (h : continues m c = some next) : next.Ok := by
  cases m with
  | blank | bracketEnd t => cases h
  | word t | exponent t | exponentSign t | scaled t | junk t | symbol t | bracketed t
  | lineComment | blockComment star =>
    rw [continues] at h
    split_ifs at h <;> (cases h; trivial)
  | digits t =>
    rw [continues] at h
    split_ifs at h with hdigit hpoint hmark
    · cases h
      exact ⟨by simp, forall_concat hm.2 hdigit⟩
    · cases h
      trivial
    · cases h
      exact ⟨c, by rw [hmark.2]; rfl, hmark.1⟩
    · exact continuesNumber_ok h
  | hexMark t =>
    rw [continues] at h
    split_ifs at h with hdigit hword
    · cases h
      obtain ⟨mark, rfl, hmark⟩ := hm
      exact ⟨mark, [c], rfl, hmark, by simp, by simpa using hdigit⟩
    · cases h
      trivial
  | hex t =>
    rw [continues] at h
    split_ifs at h with hdigit hword
    · cases h
      obtain ⟨mark, digits, rfl, hmark, -, hdigits⟩ := hm
      exact ⟨mark, digits ++ [c], rfl, hmark, by simp, forall_concat hdigits hdigit⟩
    · cases h
      trivial
  | fraction t =>
    rw [continues] at h
    split_ifs at h with hdigit
    · cases h
      trivial
    · exact continuesNumber_ok h
  | quoted kind quote t =>
    rw [continues] at h
    split_ifs at h with hquote
    · cases h
      refine ⟨hm.1, ?_⟩
      intro hkind
      obtain ⟨hap, body, hbody, rfl⟩ := hm.2 hkind
      exact ⟨hap, body, hbody, by rw [hquote, hap]⟩
    · cases h
      refine ⟨hm.1, ?_⟩
      intro hkind
      obtain ⟨hap, body, hbody, rfl⟩ := hm.2 hkind
      exact ⟨hap, body ++ [c], hbody.other c (hap ▸ hquote), rfl⟩
  | closing kind quote t =>
    rw [continues] at h
    split_ifs at h with hquote
    · cases h
      refine ⟨hm.1, ?_⟩
      intro hkind
      obtain ⟨hap, body, hbody, rfl⟩ := hm.2 hkind
      refine ⟨hap, body ++ [apostrophe, apostrophe], hbody.doubled, ?_⟩
      rw [hquote, hap]
      simp

theorem close_wellFormed (hm : m.Ok) : ∀ token ∈ close m, token.WellFormed := by
  intro token htoken
  cases m with
  | blank | lineComment | blockComment star => cases htoken
  | digits t =>
    obtain rfl := List.mem_singleton.mp htoken
    exact ⟨fun _ => Or.inl hm, nofun⟩
  | hex t =>
    obtain rfl := List.mem_singleton.mp htoken
    exact ⟨fun _ => Or.inr hm, nofun⟩
  | closing kind quote t =>
    obtain rfl := List.mem_singleton.mp htoken
    refine ⟨fun hkind => absurd hkind hm.1, ?_⟩
    intro hkind
    obtain ⟨-, body, hbody, ht⟩ := hm.2 hkind
    exact ⟨body, hbody, ht⟩
  | exponentSign t =>
    rcases List.mem_cons.mp htoken with rfl | htoken
    · exact ⟨nofun, nofun⟩
    · obtain rfl := List.mem_singleton.mp htoken
      exact ⟨nofun, nofun⟩
  | word t | fraction t | scaled t | hexMark t | exponent t | junk t | quoted kind quote t
  | bracketed t | symbol t | bracketEnd t =>
    obtain rfl := List.mem_singleton.mp htoken
    exact ⟨nofun, nofun⟩

theorem run_wellFormed (t : Text) (hmode : l.mode.Ok)
    (htokens : ∀ token ∈ l.tokens, token.WellFormed) :
    (run l t).mode.Ok ∧ ∀ token ∈ (run l t).tokens, token.WellFormed := by
  induction t generalizing l with
  | nil => exact ⟨hmode, htokens⟩
  | cons c t ih =>
    have hstep : (step l c).mode.Ok ∧ ∀ token ∈ (step l c).tokens, token.WellFormed := by
      rw [step]
      cases hnext : continues l.mode c with
      | some mode => exact ⟨continues_ok hmode hnext, htokens⟩
      | none =>
        refine ⟨begins_ok c, ?_⟩
        intro token htoken
        rcases List.mem_append.mp htoken with hold | hnew
        · exact htokens token hold
        · exact close_wellFormed hmode token hnew
    exact ih hstep.1 hstep.2

/-- Integers and strings are read as the language writes them. -/
theorem tokenise_wellFormed (t : Text) : ∀ token ∈ tokenise t, token.WellFormed := by
  obtain ⟨hmode, htokens⟩ := @run_wellFormed initial t trivial nofun
  intro token htoken
  rcases List.mem_append.mp htoken with hread | hlast
  · exact htokens token hread
  · exact close_wellFormed hmode token hlast

theorem run_append (l : Lexer) (s t : Text) : run l (s ++ t) = run (run l s) t :=
  List.foldl_append

/-- What was read before does not matter. -/
theorem run_tokens (tokens : List Token) (m : Mode) (t : Text) :
    run ⟨tokens, m⟩ t = ⟨tokens ++ (run ⟨[], m⟩ t).tokens, (run ⟨[], m⟩ t).mode⟩ := by
  induction t generalizing tokens m with
  | nil => simp [run]
  | cons c t ih =>
    have hcons (l : Lexer) : run l (c :: t) = run (step l c) t := rfl
    rw [hcons, hcons, step, step]
    cases hnext : continues m c with
    | some next => exact ih tokens next
    | none =>
      dsimp only
      rw [ih (tokens ++ close m), ih ([] ++ close m), List.nil_append, List.append_assoc]

theorem run_of_initial (tokens : List Token) (h : run initial t = ⟨[], m⟩) :
    run ⟨tokens, .blank⟩ t = ⟨tokens, m⟩ := by
  have hinitial : run ⟨[], .blank⟩ t = ⟨[], m⟩ := h
  rw [run_tokens, hinitial, List.append_nil]

/-- A character that does not continue what is being read ends it. -/
theorem run_cons_of_none (h : continues l.mode c = none) (t : Text) :
    run l (c :: t) = run ⟨l.finish, .blank⟩ (c :: t) := by
  have hcons (l : Lexer) : run l (c :: t) = run (step l c) t := rfl
  have hblank : continues .blank c = none := rfl
  rw [hcons, hcons, step, step, h]
  dsimp only
  rw [hblank, close, List.append_nil, Lexer.finish]

/-- White space between tokens is skipped. -/
theorem run_blank (tokens : List Token) (h : ∀ c ∈ t, isBlank c = true) :
    run ⟨tokens, .blank⟩ t = ⟨tokens, .blank⟩ := by
  induction t with
  | nil => rfl
  | cons c t ih =>
    obtain ⟨hc, ht⟩ := List.forall_mem_cons.mp h
    have hstep : step ⟨tokens, .blank⟩ c = ⟨tokens, .blank⟩ := by
      have hblank : continues .blank c = none := rfl
      rw [step, hblank]
      simp [begins, hc, close]
    exact (congrArg (fun l => run l t) hstep).trans (ih ht)

/-- What is being read ends before white space and before a semicolon. -/
def Ends (m : Mode) : Prop :=
  ∀ c, isBlank c = true ∨ c = cp ';' → continues m c = none

theorem run_digits (tokens : List Token) (h : ∀ c ∈ t, isDigit c = true) (s : Text) :
    run ⟨tokens, .digits s⟩ t = ⟨tokens, .digits (s ++ t)⟩ := by
  induction t generalizing s with
  | nil => rw [List.append_nil]; rfl
  | cons c t ih =>
    obtain ⟨hc, ht⟩ := List.forall_mem_cons.mp h
    have hstep : step ⟨tokens, .digits s⟩ c = ⟨tokens, .digits (s ++ [c])⟩ := by
      simp [step, continues, hc]
    have hrun := ih ht (s ++ [c])
    rw [List.append_assoc] at hrun
    exact (congrArg (fun l => run l t) hstep).trans hrun

theorem run_hex (tokens : List Token) (h : ∀ c ∈ t, isHexDigit c = true) (s : Text) :
    run ⟨tokens, .hex s⟩ t = ⟨tokens, .hex (s ++ t)⟩ := by
  induction t generalizing s with
  | nil => rw [List.append_nil]; rfl
  | cons c t ih =>
    obtain ⟨hc, ht⟩ := List.forall_mem_cons.mp h
    have hstep : step ⟨tokens, .hex s⟩ c = ⟨tokens, .hex (s ++ [c])⟩ := by
      simp [step, continues, hc]
    have hrun := ih ht (s ++ [c])
    rw [List.append_assoc] at hrun
    exact (congrArg (fun l => run l t) hstep).trans hrun

/-- White space and the semicolon are part of no number and no word. -/
theorem not_continuing (h : isBlank c = true ∨ c = cp ';') :
    isDigit c = false ∧ isHexDigit c = false ∧ isWordChar c = false ∧ isHexMark c = false ∧
      isExponent c = false ∧ c ≠ cp '.' ∧ c ≠ apostrophe := by
  have hcases : c = 0x09 ∨ c = 0x0a ∨ c = 0x0c ∨ c = 0x0d ∨ c = 0x20 ∨ c = cp ';' := by
    rcases h with h | rfl
    · simp only [isBlank, decide_eq_true_eq] at h
      rcases h with h | h | h | h | h
      · exact Or.inl (Fin.ext h)
      · exact Or.inr (Or.inl (Fin.ext h))
      · exact Or.inr (Or.inr (Or.inl (Fin.ext h)))
      · exact Or.inr (Or.inr (Or.inr (Or.inl (Fin.ext h))))
      · exact Or.inr (Or.inr (Or.inr (Or.inr (Or.inl (Fin.ext h)))))
    · exact Or.inr (Or.inr (Or.inr (Or.inr (Or.inr rfl))))
  rcases hcases with rfl | rfl | rfl | rfl | rfl | rfl <;> decide

theorem ends_digits (t : Text) : Ends (.digits t) := by
  intro c hc
  obtain ⟨hdigit, -, hword, hmark, hexponent, hpoint, -⟩ := not_continuing hc
  simp [continues, continuesNumber, hdigit, hword, hmark, hexponent, hpoint]

theorem ends_hex (t : Text) : Ends (.hex t) := by
  intro c hc
  obtain ⟨-, hdigit, hword, -⟩ := not_continuing hc
  simp [continues, hdigit, hword]

theorem ends_closing (kind : Kind) (t : Text) : Ends (.closing kind apostrophe t) := by
  intro c hc
  have hquote := (not_continuing hc).2.2.2.2.2.2
  exact if_neg hquote

theorem step_digit (tokens : List Token) (hc : isDigit c = true) :
    step ⟨tokens, .blank⟩ c = ⟨tokens, .digits [c]⟩ := by
  have hblank : isBlank c = false := by
    rw [Bool.eq_false_iff]
    intro hblank
    rw [(not_continuing (Or.inl hblank)).1] at hc
    cases hc
  have hnone : continues .blank c = none := rfl
  rw [step, hnone]
  simp [begins, close, hblank, hc]

/-- A literal is read as one token, which ends before white space and before a semicolon. -/
theorem run_integer (tokens : List Token) (h : IsInteger t) :
    ∃ m, run ⟨tokens, .blank⟩ t = ⟨tokens, m⟩ ∧ close m = [⟨.integer, t⟩] ∧ Ends m := by
  rcases h with ⟨hne, hdigits⟩ | ⟨mark, digits, rfl, hmark, hne, hdigits⟩
  · obtain ⟨c, t, rfl⟩ := List.exists_cons_of_ne_nil hne
    obtain ⟨hc, ht⟩ := List.forall_mem_cons.mp hdigits
    refine ⟨.digits (c :: t), ?_, rfl, ends_digits _⟩
    exact (congrArg (fun l => run l t) (step_digit tokens hc)).trans (run_digits tokens ht [c])
  · obtain ⟨c, t, rfl⟩ := List.exists_cons_of_ne_nil hne
    obtain ⟨hc, ht⟩ := List.forall_mem_cons.mp hdigits
    refine ⟨.hex (cp '0' :: mark :: c :: t), ?_, rfl, ends_hex _⟩
    have hmarks : run ⟨tokens, .blank⟩ [cp '0', mark] = ⟨tokens, .hexMark [cp '0', mark]⟩ := by
      rw [isHexMark, decide_eq_true_eq] at hmark
      rcases hmark with rfl | rfl
      · exact run_of_initial tokens (by decide)
      · exact run_of_initial tokens (by decide)
    have hfirst : step ⟨tokens, .hexMark [cp '0', mark]⟩ c =
        ⟨tokens, .hex [cp '0', mark, c]⟩ := by
      simp [step, continues, hc]
    have hsplit : cp '0' :: mark :: c :: t = [cp '0', mark] ++ c :: t := rfl
    rw [hsplit, run_append, hmarks]
    exact (congrArg (fun l => run l t) hfirst).trans (run_hex tokens ht _)

theorem run_quoted (tokens : List Token) (h : Closed apostrophe body) :
    run ⟨tokens, .blank⟩ (apostrophe :: body) =
      ⟨tokens, .quoted .string apostrophe (apostrophe :: body)⟩ := by
  induction h with
  | nil => exact run_of_initial tokens (by decide)
  | @other t c hclosed hc ih =>
    rw [← List.cons_append, run_append, ih]
    simp [run, step, continues, hc]
  | @doubled t hclosed ih =>
    rw [← List.cons_append, run_append, ih]
    simp [run, step, continues]

/-- A text in which every quote is doubled is one token between quotes. -/
theorem run_string (tokens : List Token) (h : Closed apostrophe body) :
    run ⟨tokens, .blank⟩ (apostrophe :: body ++ [apostrophe]) =
      ⟨tokens, .closing .string apostrophe (apostrophe :: body ++ [apostrophe])⟩ := by
  rw [run_append, run_quoted tokens h]
  simp [run, step, continues]

/-- A text without the white space around it. -/
def stripBlank (t : Text) : Text := (t.dropWhile isBlank).rdropWhile isBlank

theorem exists_stripBlank (t : Text) : ∃ before after, t = before ++ (stripBlank t ++ after) ∧
    (∀ c ∈ before, isBlank c = true) ∧ ∀ c ∈ after, isBlank c = true := by
  refine ⟨t.takeWhile isBlank, (t.dropWhile isBlank).rtakeWhile isBlank, ?_, ?_, ?_⟩
  · rw [stripBlank, List.rdropWhile_append_rtakeWhile, List.takeWhile_append_dropWhile]
  · exact fun c hc => List.mem_takeWhile_imp hc
  · exact fun c hc => List.mem_rtakeWhile_imp hc

/-- An integer with white space around it is one token. -/
theorem run_value (tokens : List Token) (h : IsInteger (stripBlank t)) :
    (run ⟨tokens, .blank⟩ t).finish = tokens ++ [⟨.integer, stripBlank t⟩] ∧
      Ends (run ⟨tokens, .blank⟩ t).mode := by
  obtain ⟨before, after, ht, hbefore, hafter⟩ := exists_stripBlank t
  obtain ⟨m, hrun, hclose, hends⟩ := run_integer tokens h
  have hsplit : run ⟨tokens, .blank⟩ t = run ⟨tokens, m⟩ after := by
    conv_lhs => rw [ht]
    rw [run_append, run_blank tokens hbefore, run_append, hrun]
  rw [hsplit]
  cases after with
  | nil => exact ⟨by rw [run, List.foldl_nil, Lexer.finish, hclose], hends⟩
  | cons c after =>
    have hc := hafter c List.mem_cons_self
    rw [run_cons_of_none (hends c (Or.inl hc)), run_blank _ hafter, Lexer.finish, Lexer.finish,
      hclose]
    exact ⟨List.append_nil _, fun c hc => rfl⟩

end SqlTokens
