import Mathlib.Tactic.SplitIfs
import AiSOC.CodeText

/-! # Conditions of Sigma rules

The evaluator of a rule's `condition`: a tokenizer, a recursive descent over `or`, `and`, `not`
and what they join, and the conjunction of all selections where that fails. -/
namespace SigmaCondition

open CodeText (Text CodePoint cp text strip isSpace between)

abbrev Selections := List (Text × Bool)

/-- `str.lower` on a word, which is ASCII. -/
def lower (t : Text) : Text := t.map fun c => if between 'A' 'Z' c then c + 0x20 else c

/-! ## Tokens -/

def wordStart (c : CodePoint) : Bool :=
  between 'A' 'Z' c || between 'a' 'z' c || between '0' '9' c || c = cp '_'

def wordChar (c : CodePoint) : Bool := wordStart c || c = cp '*'

def isWord : Text → Bool
  | [] => false
  | c :: t => wordStart c && t.all wordChar

/-- Every token takes at least one character. -/
def tokenizeFrom : ℕ → Text → Option (List Text)
  | 0, _ => some []
  | fuel + 1, expr =>
    match expr.dropWhile isSpace with
    | [] => some []
    | c :: t =>
      if c = cp '(' then (tokenizeFrom fuel t).map (text "(" :: ·)
      else if c = cp ')' then (tokenizeFrom fuel t).map (text ")" :: ·)
      else if wordStart c then
        (tokenizeFrom fuel (t.dropWhile wordChar)).map ((c :: t.takeWhile wordChar) :: ·)
      else none

def tokenize (expr : Text) : Option (List Text) := tokenizeFrom expr.length expr

/-! ## Values -/

def operandValue (selections : Selections) (tok : Text) : Bool :=
  if lower tok = text "true" then true
  else if lower tok = text "false" then false
  else (selections.lookup tok).getD false

/-- What `.*` leaves: it does not match line breaks. -/
def starSuffixes : Text → List Text
  | [] => [[]]
  | c :: t => (c :: t) :: if c = cp '\n' then [] else starSuffixes t

/-- The regular expression of a pattern; its `$` also matches before a last line break. -/
def wildcardMatches : Text → Text → Bool
  | [], name => name = [] || name = [cp '\n']
  | p :: pattern, name =>
    if p = cp '*' then (starSuffixes name).any (wildcardMatches pattern)
    else
      match name with
      | [] => false
      | c :: name => c = p && wildcardMatches pattern name

/-- `isThem` tells the pattern that stands for all selections. -/
def quantifierValue (isThem : Text → Bool) (selections : Selections) (quantifier pattern : Text) :
    Bool :=
  let values :=
    if isThem pattern then selections.map Prod.snd
    else if cp '*' ∈ pattern then
      (selections.filter fun s => wildcardMatches pattern s.1).map Prod.snd
    else [(selections.lookup pattern).getD false]
  if values = [] then false
  else if quantifier = text "1" then values.any id
  else values.all id

def evaluateQuantifier (selections : Selections) (quantifier pattern : Text) : Bool :=
  quantifierValue (fun pattern => pattern = text "them") selections quantifier pattern

/-! ## The parser

`none` is an exception. -/

def isQuantifier (tok : Text) : Bool := lower tok = text "1" || lower tok = text "all"

/-- The loop over a left-associative operator. -/
def chain (keyword : Text) (operand : List Text → Option (Bool × List Text))
    (op : Bool → Bool → Bool) : ℕ → Bool → List Text → Option (Bool × List Text)
  | n + 1, left, tok :: toks =>
    if lower tok = keyword then
      (operand toks).bind fun (right, rest) => chain keyword operand op n (op left right) rest
    else some (left, tok :: toks)
  | _, left, toks => some (left, toks)

/-- After a quantifier and its `of`. -/
def parsePattern (selections : Selections) (quantifier : Text) :
    List Text → Option (Bool × List Text)
  | [] => none
  | pattern :: rest =>
    if pattern = text "(" ∨ pattern = text ")" then none
    else some (evaluateQuantifier selections quantifier pattern, rest)

mutual

def parseOr (selections : Selections) : ℕ → List Text → Option (Bool × List Text)
  | 0, _ => none
  | fuel + 1, toks => (parseAnd selections fuel toks).bind fun (left, rest) =>
    chain (text "or") (parseAnd selections fuel) (· || ·) rest.length left rest

def parseAnd (selections : Selections) : ℕ → List Text → Option (Bool × List Text)
  | 0, _ => none
  | fuel + 1, toks => (parseNot selections fuel toks).bind fun (left, rest) =>
    chain (text "and") (parseNot selections fuel) (· && ·) rest.length left rest

def parseNot (selections : Selections) : ℕ → List Text → Option (Bool × List Text)
  | 0, _ => none
  | fuel + 1, [] => parseAtom selections fuel []
  | fuel + 1, tok :: toks =>
    if lower tok = text "not" then
      (parseNot selections fuel toks).map fun (value, rest) => (!value, rest)
    else parseAtom selections fuel (tok :: toks)

def parseAtom (selections : Selections) : ℕ → List Text → Option (Bool × List Text)
  | 0, _ => none
  | _ + 1, [] => none
  | fuel + 1, tok :: toks =>
    if tok = text "(" then
      (parseOr selections fuel toks).bind fun (value, rest) =>
        match rest with
        | [] => none
        | close :: rest => if lower close = text ")" then some (value, rest) else none
    else
      match toks with
      | [] => some (operandValue selections tok, [])
      | next :: rest =>
        if isQuantifier tok && lower next = text "of" then
          parsePattern selections (lower tok) rest
        else some (operandValue selections tok, next :: rest)

end

/-- The recursion takes four calls for each token. -/
def parseTokens (selections : Selections) (tokens : List Text) : Option Bool :=
  (parseOr selections (4 * tokens.length + 4) tokens).bind fun (value, rest) =>
    if rest = [] then some value else none

def parse (selections : Selections) (expr : Text) : Option Bool :=
  (tokenize expr).bind (parseTokens selections)

def fallback (selections : Selections) : Bool :=
  if selections = [] then false else selections.all Prod.snd

def evalCondition (condition : Text) (selections : Selections) : Bool :=
  (parse selections (strip condition)).getD (fallback selections)

/-! ## The grammar -/

inductive Join where
  | or | and

def Join.word : Join → Text
  | .or => text "or"
  | .and => text "and"

def Join.op : Join → Bool → Bool → Bool
  | .or, a, b => a || b
  | .and, a, b => a && b

inductive Tree where
  | operand (w : Text)
  | quantifier (q p : Text)
  | not (tree : Tree)
  | join (j : Join) (left right : Tree)

/-- The truth of a tree, with the patterns that stand for all selections. -/
def Tree.value (isThem : Text → Bool) (selections : Selections) : Tree → Bool
  | .operand w => operandValue selections w
  | .quantifier q p => quantifierValue isThem selections (lower q) p
  | .not tree => !tree.value isThem selections
  | .join j left right => j.op (left.value isThem selections) (right.value isThem selections)

/-- Which tokens may be operands, and which may be patterns. -/
structure Words where
  operand : Text → Prop
  pattern : Text → Prop

/-- What the rules derive; after the first operand of a chain come more behind its word. -/
inductive Symbol where
  | chain (j : Join)
  | more (j : Join) (left : Tree)
  | not
  | atom

def Join.operands : Join → Symbol
  | .or => .chain .and
  | .and => .not

inductive Derives (words : Words) : Symbol → List Text → Tree → Prop where
  | chain {j ts us left tree} : Derives words j.operands ts left →
      Derives words (.more j left) us tree → Derives words (.chain j) (ts ++ us) tree
  | done {j left} : Derives words (.more j left) [] left
  | more {j k ts us left right tree} : lower k = j.word → Derives words j.operands ts right →
      Derives words (.more j (.join j left right)) us tree →
      Derives words (.more j left) (k :: (ts ++ us)) tree
  | not {k ts tree} : lower k = text "not" → Derives words .not ts tree →
      Derives words .not (k :: ts) (.not tree)
  | atom {ts tree} : Derives words .atom ts tree → Derives words .not ts tree
  | parentheses {ts tree} : Derives words (.chain .or) ts tree →
      Derives words .atom (text "(" :: (ts ++ [text ")"])) tree
  | quantifier {q k p} : isQuantifier q = true → lower k = text "of" → words.pattern p →
      Derives words .atom [q, k, p] (.quantifier q p)
  | operand {w} : words.operand w → Derives words .atom [w] (.operand w)

def keywords : List Text := [text "and", text "or", text "not", text "of"]

/-- The words of the grammar. -/
def sigma : Words where
  operand w := isWord w = true ∧ lower w ∉ keywords
  pattern w := isWord w = true ∧ lower w ∉ keywords

/-- What the parser takes for words. -/
def lenient : Words where
  operand w := w ≠ text "(" ∧ lower w ≠ text "not"
  pattern w := w ≠ text "(" ∧ w ≠ text ")"

/-! ## What the parser accepts -/

def lowerThem (pattern : Text) : Bool := pattern = text "them"

section

variable {selections : Selections} {j : Join} {tree left : Tree} {ts toks rest : List Text}
  {v : Bool} {fuel n : ℕ} {words : Words} {symbol : Symbol}

/-- The value by which the parser goes. -/
def Tree.read (selections : Selections) (tree : Tree) : Bool := tree.value lowerThem selections

def parseChain (selections : Selections) : Join → ℕ → List Text → Option (Bool × List Text)
  | .or => parseOr selections
  | .and => parseAnd selections

def parseOperand (selections : Selections) : Join → ℕ → List Text → Option (Bool × List Text)
  | .or => parseAnd selections
  | .and => parseNot selections

theorem parseChain_succ (selections : Selections) (j : Join) (fuel : ℕ) (toks : List Text) :
    parseChain selections j (fuel + 1) toks =
      (parseOperand selections j fuel toks).bind fun (left, rest) =>
        chain j.word (parseOperand selections j fuel) j.op rest.length left rest := by
  cases j
  · exact parseOr.eq_2 selections toks fuel
  · exact parseAnd.eq_2 selections toks fuel

/-- The tokens begin with what the symbol derives, and this has the value. -/
def Found (selections : Selections) (symbol : Symbol) (toks : List Text) (v : Bool)
    (rest : List Text) : Prop :=
  ∃ ts tree, toks = ts ++ rest ∧ Derives lenient symbol ts tree ∧ tree.read selections = v

theorem chain_sound
    (hoperand : ∀ toks v rest, parseOperand selections j fuel toks = some (v, rest) →
      Found selections j.operands toks v rest)
    (h : chain j.word (parseOperand selections j fuel) j.op n (left.read selections) toks =
      some (v, rest)) :
    Found selections (.more j left) toks v rest := by
  induction n generalizing left toks with
  | zero =>
    rw [chain] at h
    obtain ⟨rfl, rfl⟩ := Prod.mk.inj (Option.some.inj h)
    exact ⟨[], left, rfl, .done, rfl⟩
    nofun
  | succ n ih =>
    cases toks with
    | nil =>
      rw [chain] at h
      obtain ⟨rfl, rfl⟩ := Prod.mk.inj (Option.some.inj h)
      exact ⟨[], left, rfl, .done, rfl⟩
      nofun
    | cons k toks =>
      rw [chain] at h
      split_ifs at h with hk
      · obtain ⟨⟨right, rest'⟩, hright, h⟩ := Option.bind_eq_some_iff.mp h
        obtain ⟨ts, tree, rfl, hts, rfl⟩ := hoperand toks right rest' hright
        obtain ⟨us, result, rfl, hus, hv⟩ := @ih (.join j left tree) _ h
        refine ⟨k :: (ts ++ us), result, ?_, .more hk hts hus, hv⟩
        rw [List.cons_append, List.append_assoc]
      · obtain ⟨rfl, rfl⟩ := Prod.mk.inj (Option.some.inj h)
        exact ⟨[], left, rfl, .done, rfl⟩

theorem parseChain_sound
    (hoperand : ∀ toks v rest, parseOperand selections j fuel toks = some (v, rest) →
      Found selections j.operands toks v rest)
    (h : parseChain selections j (fuel + 1) toks = some (v, rest)) :
    Found selections (.chain j) toks v rest := by
  rw [parseChain_succ] at h
  obtain ⟨⟨first, rest'⟩, hfirst, h⟩ := Option.bind_eq_some_iff.mp h
  obtain ⟨ts, left, rfl, hts, rfl⟩ := hoperand toks first rest' hfirst
  obtain ⟨us, tree, rfl, hus, hv⟩ := chain_sound hoperand h
  refine ⟨ts ++ us, tree, ?_, .chain hts hus, hv⟩
  rw [List.append_assoc]

/-- Only letters change their case. -/
theorem eq_close_of_lower {t : Text} (h : lower t = text ")") : t = text ")" := by
  rcases t with - | ⟨c, - | ⟨d, t⟩⟩
  · cases h
  · have hc : (if between 'A' 'Z' c then c + 0x20 else c) = cp ')' := (List.cons.inj h).1
    split_ifs at hc with hupper
    · rw [between, decide_eq_true_eq] at hupper
      have hval := congrArg Fin.val hc
      rw [Fin.val_add] at hval
      have hhigh : c.val ≤ 90 := hupper.2
      have hlow : 65 ≤ c.val := hupper.1
      have hclose : (cp ')').val = 41 := rfl
      have hstep : (0x20 : CodePoint).val = 32 := rfl
      rw [hclose, hstep] at hval
      omega
    · rw [hc]
      rfl
  · cases (List.cons.inj h).2

theorem parseAtom_sound
    (hinner : ∀ toks v rest, parseOr selections fuel toks = some (v, rest) →
      Found selections (.chain .or) toks v rest)
    (h : parseAtom selections (fuel + 1) toks = some (v, rest))
    (hnot : ∀ tok, toks.head? = some tok → lower tok ≠ text "not") :
    Found selections .atom toks v rest := by
  cases toks with
  | nil => cases h
  | cons tok toks =>
    rw [parseAtom.eq_def] at h
    dsimp only at h
    split_ifs at h with hopen
    · obtain ⟨⟨value, rest'⟩, hvalue, h⟩ := Option.bind_eq_some_iff.mp h
      obtain ⟨ts, tree, rfl, hts, rfl⟩ := hinner toks value rest' hvalue
      cases rest' with
      | nil => cases h
      | cons close rest' =>
        dsimp only at h
        split_ifs at h with hclose
        obtain ⟨rfl, rfl⟩ := Prod.mk.inj (Option.some.inj h)
        refine ⟨text "(" :: (ts ++ [text ")"]), tree, ?_, .parentheses hts, rfl⟩
        rw [hopen, eq_close_of_lower hclose, List.cons_append, List.append_assoc]
        rfl
    · have hoperand : Derives lenient .atom [tok] (.operand tok) :=
        .operand ⟨hopen, hnot tok rfl⟩
      cases toks with
      | nil =>
        obtain ⟨rfl, rfl⟩ := Prod.mk.inj (Option.some.inj h)
        exact ⟨[tok], _, rfl, hoperand, rfl⟩
      | cons next toks =>
        dsimp only at h
        split_ifs at h with hquantifier
        · rw [Bool.and_eq_true, decide_eq_true_eq] at hquantifier
          cases toks with
          | nil => cases h
          | cons pattern toks =>
            rw [parsePattern] at h
            split_ifs at h with hpattern
            obtain ⟨rfl, rfl⟩ := Prod.mk.inj (Option.some.inj h)
            exact ⟨[tok, next, pattern], _, rfl,
              .quantifier hquantifier.1 hquantifier.2 (not_or.mp hpattern), rfl⟩
        · obtain ⟨rfl, rfl⟩ := Prod.mk.inj (Option.some.inj h)
          exact ⟨[tok], _, rfl, hoperand, rfl⟩

theorem parseNot_sound
    (hnot : ∀ toks v rest, parseNot selections fuel toks = some (v, rest) →
      Found selections .not toks v rest)
    (hatom : ∀ toks v rest, parseAtom selections fuel toks = some (v, rest) →
      (∀ tok, toks.head? = some tok → lower tok ≠ text "not") →
        Found selections .atom toks v rest)
    (h : parseNot selections (fuel + 1) toks = some (v, rest)) :
    Found selections .not toks v rest := by
  cases toks with
  | nil =>
    obtain ⟨ts, tree, htoks, hts, hv⟩ := hatom [] v rest h nofun
    exact ⟨ts, tree, htoks, .atom hts, hv⟩
  | cons k toks =>
    rw [parseNot] at h
    split_ifs at h with hk
    · obtain ⟨⟨value, rest'⟩, hvalue, heq⟩ := Option.map_eq_some_iff.mp h
      obtain ⟨rfl, rfl⟩ := Prod.mk.inj heq
      obtain ⟨ts, tree, rfl, hts, rfl⟩ := hnot toks value rest' hvalue
      exact ⟨k :: ts, .not tree, rfl, .not hk hts, rfl⟩
    · have hhead : ∀ tok, (k :: toks).head? = some tok → lower tok ≠ text "not" := by
        intro tok htok
        obtain rfl := Option.some.inj htok
        exact hk
      obtain ⟨ts, tree, htoks, hts, hv⟩ := hatom (k :: toks) v rest h hhead
      exact ⟨ts, tree, htoks, .atom hts, hv⟩

/-- What each function takes is derived by its symbol. -/
theorem parser_sound (selections : Selections) (fuel : ℕ) :
    (∀ j toks v rest, parseChain selections j fuel toks = some (v, rest) →
      Found selections (.chain j) toks v rest) ∧
    (∀ toks v rest, parseNot selections fuel toks = some (v, rest) →
      Found selections .not toks v rest) ∧
    ∀ toks v rest, parseAtom selections fuel toks = some (v, rest) →
      (∀ tok, toks.head? = some tok → lower tok ≠ text "not") →
        Found selections .atom toks v rest := by
  induction fuel with
  | zero =>
    refine ⟨?_, ?_, ?_⟩
    · intro j toks v rest h
      cases j <;> cases h
    · intro toks v rest h
      cases h
    · intro toks v rest h
      cases h
  | succ fuel ih =>
    obtain ⟨hchain, hnot, hatom⟩ := ih
    refine ⟨?_, ?_, ?_⟩
    · intro j toks v rest h
      refine parseChain_sound ?_ h
      cases j with
      | or => exact hchain .and
      | and => exact hnot
    · exact fun toks v rest h => parseNot_sound hnot hatom h
    · exact fun toks v rest h => parseAtom_sound (hchain .or) h

/-! ## What the parser does not refuse -/

/-- The words that go on with what a symbol derives. -/
def stops : Symbol → List Text
  | .chain .or | .more .or _ => [text "or", text "and", text "of"]
  | .chain .and | .more .and _ => [text "and", text "of"]
  | .not | .atom => [text "of"]

def Follows (symbol : Symbol) (rest : List Text) : Prop :=
  ∀ tok, rest.head? = some tok → lower tok ∉ stops symbol

def Join.calls : Join → ℕ
  | .or => 4
  | .and => 3

/-- Whatever follows, the parser takes what is derived. -/
def Accepts (selections : Selections) (ts : List Text) (tree : Tree) : Symbol → Prop
  | .chain j => ∀ fuel rest, 4 * ts.length + j.calls ≤ fuel → Follows (.chain j) rest →
    parseChain selections j fuel (ts ++ rest) = some (tree.read selections, rest)
  | .more j left => ∀ fuel n rest, 4 * ts.length ≤ fuel → (ts ++ rest).length ≤ n →
    Follows (.more j left) rest →
      chain j.word (parseOperand selections j fuel) j.op n (left.read selections) (ts ++ rest) =
        some (tree.read selections, rest)
  | .not => ∀ fuel rest, 4 * ts.length + 2 ≤ fuel → Follows .not rest →
    parseNot selections fuel (ts ++ rest) = some (tree.read selections, rest)
  | .atom => ∀ fuel rest, 4 * ts.length + 1 ≤ fuel → Follows .atom rest →
    parseAtom selections fuel (ts ++ rest) = some (tree.read selections, rest)

theorem Accepts.operand (h : Accepts selections ts tree j.operands)
    (hfuel : 4 * ts.length + 3 ≤ fuel ∨ j = .and ∧ 4 * ts.length + 2 ≤ fuel)
    (hrest : Follows j.operands rest) :
    parseOperand selections j fuel (ts ++ rest) = some (tree.read selections, rest) := by
  cases j with
  | or =>
    refine h fuel rest ?_ hrest
    rw [Join.calls]
    rcases hfuel with hfuel | ⟨hj, -⟩
    · exact hfuel
    · cases hj
  | and =>
    refine h fuel rest ?_ hrest
    rcases hfuel with hfuel | ⟨-, hfuel⟩
    · omega
    · exact hfuel

theorem follows_operands (h : Follows (.chain j) rest) : Follows j.operands rest := by
  intro tok htok hmem
  apply h tok htok
  cases j with
  | or => exact List.mem_cons_of_mem _ hmem
  | and => exact List.mem_cons_of_mem _ hmem

theorem follows_cons {k : Text} (hk : lower k = j.word) : Follows j.operands (k :: rest) := by
  intro tok htok hmem
  obtain rfl := Option.some.inj htok
  rw [hk] at hmem
  cases j with
  | or => exact absurd hmem (by decide)
  | and => exact absurd hmem (by decide)

theorem head_more (h : Derives words (.more j left) ts tree) :
    ts = [] ∨ ∃ k us, ts = k :: us ∧ lower k = j.word := by
  cases h with
  | done => exact Or.inl rfl
  | more hk _ _ => exact Or.inr ⟨_, _, rfl, hk⟩

theorem follows_more {us : List Text} (h : Derives words (.more j left) us tree)
    (hrest : Follows (.chain j) rest) : Follows j.operands (us ++ rest) := by
  rcases head_more h with rfl | ⟨k, us, rfl, hk⟩
  · exact follows_operands hrest
  · exact follows_cons hk

theorem accepts_done : Accepts selections [] left (.more j left) := by
  intro fuel n rest _ _ hrest
  rw [List.nil_append]
  cases n with
  | zero => rw [chain.eq_def]
  | succ n =>
    cases rest with
    | nil => rw [chain.eq_def]
    | cons k rest =>
      rw [chain, if_neg]
      intro hk
      apply hrest k rfl
      rw [hk]
      cases j <;> exact List.mem_cons_self

theorem accepts_more {k : Text} {us : List Text} {right : Tree} (hk : lower k = j.word)
    (hright : Accepts selections ts right j.operands)
    (hus : Derives words (.more j (.join j left right)) us tree)
    (hmore : Accepts selections us tree (.more j (.join j left right))) :
    Accepts selections (k :: (ts ++ us)) tree (.more j left) := by
  intro fuel n rest hfuel hn hrest
  have hfollows : Follows (.chain j) rest := by
    cases j <;> exact hrest
  rw [List.length_cons, List.length_append] at hfuel
  rw [List.cons_append, List.length_cons, List.append_assoc, List.length_append] at hn
  obtain ⟨n, rfl⟩ : ∃ m, n = m + 1 := ⟨n - 1, by omega⟩
  rw [List.cons_append, List.append_assoc, chain, if_pos hk,
    hright.operand (Or.inl (by omega)) (follows_more hus hfollows), Option.bind_some]
  refine hmore fuel n rest (by omega) (by omega) ?_
  cases j <;> exact hrest

theorem accepts_chain {us : List Text} (hleft : Accepts selections ts left j.operands)
    (hus : Derives words (.more j left) us tree)
    (hmore : Accepts selections us tree (.more j left)) :
    Accepts selections (ts ++ us) tree (.chain j) := by
  intro fuel rest hfuel hrest
  rw [List.length_append] at hfuel
  have hcalls : 3 ≤ j.calls := by cases j <;> decide
  obtain ⟨fuel, rfl⟩ : ∃ m, fuel = m + 1 := ⟨fuel - 1, by omega⟩
  have hoperand : 4 * ts.length + 3 ≤ fuel ∨ j = .and ∧ 4 * ts.length + 2 ≤ fuel := by
    cases j with
    | or =>
      rw [Join.calls] at hfuel
      exact Or.inl (by omega)
    | and =>
      rw [Join.calls] at hfuel
      exact Or.inr ⟨rfl, by omega⟩
  rw [parseChain_succ, List.append_assoc, hleft.operand hoperand (follows_more hus hrest),
    Option.bind_some]
  refine hmore fuel _ rest (by omega) le_rfl ?_
  cases j <;> exact hrest

theorem accepts_not {k : Text} (hk : lower k = text "not")
    (htree : Accepts selections ts tree .not) :
    Accepts selections (k :: ts) (.not tree) .not := by
  intro fuel rest hfuel hrest
  rw [List.length_cons] at hfuel
  obtain ⟨fuel, rfl⟩ : ∃ m, fuel = m + 1 := ⟨fuel - 1, by omega⟩
  rw [List.cons_append, parseNot, if_pos hk, htree fuel rest (by omega) hrest]
  rfl

/-- A list that an atom derives begins with no `not`. -/
theorem head_atom (h : Derives lenient .atom ts tree) :
    ∃ k us, ts = k :: us ∧ lower k ≠ text "not" := by
  cases h with
  | parentheses _ => exact ⟨_, _, rfl, by decide⟩
  | quantifier hq _ _ =>
    refine ⟨_, _, rfl, ?_⟩
    intro hnot
    rw [isQuantifier, hnot] at hq
    exact absurd hq (by decide)
  | operand hw => exact ⟨_, _, rfl, hw.2⟩

theorem accepts_atom (h : Derives lenient .atom ts tree)
    (htree : Accepts selections ts tree .atom) : Accepts selections ts tree .not := by
  intro fuel rest hfuel hrest
  obtain ⟨fuel, rfl⟩ : ∃ m, fuel = m + 1 := ⟨fuel - 1, by omega⟩
  have hatom := htree fuel rest (by omega) hrest
  obtain ⟨k, us, rfl, hk⟩ := head_atom h
  rw [List.cons_append] at hatom ⊢
  rw [parseNot, if_neg hk, hatom]

theorem accepts_parentheses (htree : Accepts selections ts tree (.chain .or)) :
    Accepts selections (text "(" :: (ts ++ [text ")"])) tree .atom := by
  intro fuel rest hfuel hrest
  rw [List.length_cons, List.length_append, List.length_singleton] at hfuel
  obtain ⟨fuel, rfl⟩ : ∃ m, fuel = m + 1 := ⟨fuel - 1, by omega⟩
  have hclose : Follows (.chain .or) (text ")" :: rest) := by
    intro tok htok
    obtain rfl := Option.some.inj htok
    decide
  have hinner : parseOr selections fuel (ts ++ text ")" :: rest) =
      some (tree.read selections, text ")" :: rest) :=
    htree fuel _ (by rw [Join.calls]; omega) hclose
  have hlower : lower (text ")") = text ")" := by decide
  rw [List.cons_append, List.append_assoc, List.singleton_append, parseAtom.eq_def]
  dsimp only
  rw [if_pos rfl, hinner, Option.bind_some]
  exact if_pos hlower

theorem accepts_quantifier {q k p : Text} (hq : isQuantifier q = true)
    (hk : lower k = text "of") (hp : lenient.pattern p) :
    Accepts selections [q, k, p] (.quantifier q p) .atom := by
  intro fuel rest hfuel _
  obtain ⟨fuel, rfl⟩ : ∃ m, fuel = m + 1 := ⟨fuel - 1, by omega⟩
  have hopen : q ≠ text "(" := by
    rintro rfl
    exact absurd hq (by decide)
  rw [List.cons_append, List.cons_append, List.singleton_append, parseAtom.eq_def]
  dsimp only
  rw [if_neg hopen, hq, Bool.true_and, decide_eq_true hk, if_pos rfl, parsePattern,
    if_neg (not_or.mpr hp)]
  rfl

theorem accepts_operand {w : Text} (hw : lenient.operand w) :
    Accepts selections [w] (.operand w) .atom := by
  intro fuel rest hfuel hrest
  obtain ⟨fuel, rfl⟩ : ∃ m, fuel = m + 1 := ⟨fuel - 1, by omega⟩
  rw [List.singleton_append, parseAtom.eq_def]
  dsimp only
  rw [if_neg hw.1]
  cases rest with
  | nil => rfl
  | cons next rest =>
    have hnext : lower next ≠ text "of" := by
      intro hof
      apply hrest next rfl
      rw [hof]
      exact List.mem_cons_self
    dsimp only
    rw [decide_eq_false hnext, Bool.and_false, if_neg Bool.false_ne_true]
    rfl

theorem parser_complete (selections : Selections) (h : Derives lenient symbol ts tree) :
    Accepts selections ts tree symbol := by
  induction h with
  | chain _ hus ihleft ihmore => exact accepts_chain ihleft hus ihmore
  | done => exact accepts_done
  | more hk _ hus ihright ihmore => exact accepts_more hk ihright hus ihmore
  | not hk _ ih => exact accepts_not hk ih
  | atom htree ih => exact accepts_atom htree ih
  | parentheses _ ih => exact accepts_parentheses ih
  | quantifier hq hk hp => exact accepts_quantifier hq hk hp
  | operand hw => exact accepts_operand hw

/-- The parser takes exactly the lists that the lenient grammar derives. -/
theorem parseTokens_eq_some {tokens : List Text} : parseTokens selections tokens = some v ↔
    ∃ tree, Derives lenient (.chain .or) tokens tree ∧ tree.read selections = v := by
  rw [parseTokens]
  constructor
  · intro h
    obtain ⟨⟨value, rest⟩, hvalue, h⟩ := Option.bind_eq_some_iff.mp h
    dsimp only at h
    split_ifs at h with hrest
    obtain ⟨ts, tree, htoks, hts, hv⟩ :=
      (parser_sound selections (4 * tokens.length + 4)).1 .or tokens value rest hvalue
    rw [hrest, List.append_nil] at htoks
    rw [htoks]
    exact ⟨tree, hts, hv.trans (Option.some.inj h)⟩
  · rintro ⟨tree, htree, rfl⟩
    have hparse := parser_complete selections htree (4 * tokens.length + 4) []
      le_rfl nofun
    rw [List.append_nil] at hparse
    have hor : parseOr selections (4 * tokens.length + 4) tokens =
      some (tree.read selections, []) := hparse
    rw [hor, Option.bind_some]
    exact if_pos rfl

/-- More calls would not take more lists. -/
theorem parseTokens_of_fuel {tokens : List Text}
    (h : parseOr selections fuel tokens = some (v, [])) :
    parseTokens selections tokens = some v := by
  obtain ⟨ts, tree, htoks, hts, hv⟩ := (parser_sound selections fuel).1 .or tokens v [] h
  rw [List.append_nil] at htoks
  rw [htoks]
  exact parseTokens_eq_some.mpr ⟨tree, hts, hv⟩

end


/-! ## Texts of a list of tokens -/

section

variable {b t tok core tail condition : Text} {toks tokens : List Text} {c : CodePoint}
  {selections : Selections} {tree : Tree} {symbol : Symbol} {words words' : Words}

def isToken (tok : Text) : Bool := tok = text "(" || tok = text ")" || isWord tok

/-- White space stands anywhere around the tokens; behind a word something must end it. -/
inductive Spells : Text → List Text → Prop where
  | blank {u : Text} : (∀ c ∈ u, isSpace c = true) → Spells u []
  | token {u w v : Text} {toks : List Text} : (∀ c ∈ u, isSpace c = true) → isToken w = true →
      (isWord w = true → ∀ c, v.head? = some c → wordChar c = false) → Spells v toks →
      Spells (u ++ (w ++ v)) (w :: toks)

theorem wordStart_range (h : wordStart c = true) : 48 ≤ c.val ∧ c.val ≤ 122 := by
  rw [wordStart, Bool.or_eq_true, Bool.or_eq_true, Bool.or_eq_true, between, between, between,
    decide_eq_true_eq, decide_eq_true_eq, decide_eq_true_eq, decide_eq_true_eq] at h
  have hA : 'A'.toNat = 65 := rfl
  have hZ : 'Z'.toNat = 90 := rfl
  have ha : 'a'.toNat = 97 := rfl
  have hz : 'z'.toNat = 122 := rfl
  have h0 : '0'.toNat = 48 := rfl
  have h9 : '9'.toNat = 57 := rfl
  rw [hA, hZ, ha, hz, h0, h9] at h
  rcases h with ((hupper | hlower) | hdigit) | hunderscore
  · omega
  · omega
  · omega
  · have hval : c.val = 95 := congrArg Fin.val hunderscore
    omega

theorem isSpace_of_wordStart (h : wordStart c = true) : isSpace c = false := by
  have hrange := wordStart_range h
  rw [isSpace, decide_eq_false_iff_not]
  omega

theorem isSpace_of_wordChar (h : wordChar c = true) : isSpace c = false := by
  rw [wordChar, Bool.or_eq_true, decide_eq_true_eq] at h
  rcases h with hstart | rfl
  · exact isSpace_of_wordStart hstart
  · decide

/-- A token begins and goes on without white space. -/
theorem isToken_cons (h : isToken tok = true) :
    ∃ c t, tok = c :: t ∧ isSpace c = false ∧ ∀ d ∈ t, isSpace d = false := by
  rw [isToken, Bool.or_eq_true, Bool.or_eq_true, decide_eq_true_eq, decide_eq_true_eq] at h
  rcases h with (rfl | rfl) | hword
  · exact ⟨cp '(', [], rfl, by decide, nofun⟩
  · exact ⟨cp ')', [], rfl, by decide, nofun⟩
  · cases tok with
    | nil => cases hword
    | cons c t =>
      rw [isWord, Bool.and_eq_true, List.all_eq_true] at hword
      exact ⟨c, t, rfl, isSpace_of_wordStart hword.1,
        fun d hd => isSpace_of_wordChar (hword.2 d hd)⟩

theorem dropWhile_blank (hb : ∀ c ∈ b, isSpace c = true) (htok : isToken tok = true) :
    (b ++ (tok ++ t)).dropWhile isSpace = tok ++ t := by
  obtain ⟨c, w, rfl, hc, -⟩ := isToken_cons htok
  rw [List.dropWhile_append_of_pos hb, List.cons_append, List.dropWhile_cons_of_neg]
  rw [hc]
  exact Bool.false_ne_true

theorem takeWhile_word {w : Text} (hw : ∀ d ∈ w, wordChar d = true)
    (ht : ∀ d, t.head? = some d → wordChar d = false) :
    (w ++ t).takeWhile wordChar = w ∧ (w ++ t).dropWhile wordChar = t := by
  rw [List.takeWhile_append_of_pos hw, List.dropWhile_append_of_pos hw]
  cases t with
  | nil => exact ⟨List.append_nil w, rfl⟩
  | cons d t =>
    have hd : ¬ wordChar d = true := by
      rw [ht d rfl]
      exact Bool.false_ne_true
    rw [List.takeWhile_cons_of_neg hd, List.dropWhile_cons_of_neg hd]
    exact ⟨List.append_nil w, rfl⟩

/-- The tokenizer takes the first token off. -/
theorem tokenizeFrom_token (n : ℕ) (hb : ∀ c ∈ b, isSpace c = true) (htok : isToken tok = true)
    (hend : isWord tok = true → ∀ c, t.head? = some c → wordChar c = false) :
    tokenizeFrom (n + 1) (b ++ (tok ++ t)) = (tokenizeFrom n t).map (tok :: ·) := by
  rw [tokenizeFrom, dropWhile_blank hb htok]
  rw [isToken, Bool.or_eq_true, Bool.or_eq_true, decide_eq_true_eq, decide_eq_true_eq] at htok
  rcases htok with (rfl | rfl) | hword
  · exact if_pos rfl
  · exact (if_neg (by decide)).trans (if_pos rfl)
  · cases tok with
    | nil => cases hword
    | cons c w =>
      have hstop := hend hword
      rw [isWord, Bool.and_eq_true, List.all_eq_true] at hword
      obtain ⟨htake, hdrop⟩ := takeWhile_word hword.2 hstop
      have hopen : c ≠ cp '(' := by
        rintro rfl
        exact absurd hword.1 (by decide)
      have hclose : c ≠ cp ')' := by
        rintro rfl
        exact absurd hword.1 (by decide)
      rw [List.cons_append]
      dsimp only
      rw [if_neg hopen, if_neg hclose, if_pos hword.1, htake, hdrop]

theorem tokenizeFrom_spells (h : Spells t tokens) (n : ℕ) (hn : t.length ≤ n) :
    tokenizeFrom n t = some tokens := by
  induction h generalizing n with
  | blank hb =>
    cases n with
    | zero => rfl
    | succ n =>
      rw [tokenizeFrom, List.dropWhile_eq_nil_iff.mpr hb]
  | token hb htok hend _ ih =>
    obtain ⟨c, w, rfl, -, -⟩ := isToken_cons htok
    rw [List.length_append, List.length_append, List.length_cons] at hn
    obtain ⟨n, rfl⟩ : ∃ m, n = m + 1 := ⟨n - 1, by omega⟩
    rw [tokenizeFrom_token n hb htok hend, ih n (by omega)]
    rfl

theorem spells_lstrip (h : Spells t tokens) : Spells (CodeText.lstrip t) tokens := by
  rw [CodeText.lstrip]
  cases h with
  | blank hb =>
    rw [List.dropWhile_eq_nil_iff.mpr hb]
    exact .blank nofun
  | token hb htok hend hrest =>
    rw [dropWhile_blank hb htok]
    exact .token (u := []) nofun htok hend hrest

/-- White space after a token that ends the text is no part of the token. -/
theorem eq_nil_of_token (htok : isToken tok = true) (htail : ∀ c ∈ tail, isSpace c = true)
    (h : b ++ tok = core ++ tail) : tail = [] := by
  rcases List.eq_nil_or_concat tail with hnil | ⟨u, z, rfl⟩
  · exact hnil
  · obtain ⟨c, w, rfl, hc, hw⟩ := isToken_cons htok
    have hlast := congrArg List.getLast? h
    rw [List.concat_eq_append, ← List.append_assoc, List.getLast?_concat,
      List.getLast?_append_of_ne_nil b (List.cons_ne_nil c w)] at hlast
    have hz : z ∈ c :: w := List.mem_of_getLast? hlast
    have hspace : isSpace z = true := by
      apply htail
      rw [List.concat_eq_append]
      exact List.mem_append_right u List.mem_cons_self
    rcases List.mem_cons.mp hz with rfl | hz
    · rw [hc] at hspace
      cases hspace
    · rw [hw z hz] at hspace
      cases hspace

theorem spells_of_append (h : Spells (core ++ tail) tokens)
    (htail : ∀ c ∈ tail, isSpace c = true) : Spells core tokens := by
  generalize ht : core ++ tail = t at h
  induction h generalizing core with
  | blank hb =>
    rw [← ht] at hb
    exact .blank fun c hc => hb c (List.mem_append_left tail hc)
  | @token b tok t toks hb htok hend _ ih =>
    rw [← List.append_assoc] at ht
    rcases List.append_eq_append_iff.mp ht with ⟨u, hcore, htail'⟩ | ⟨u, hcore, ht'⟩
    · have hu : u = [] := by
        refine eq_nil_of_token htok ?_ hcore
        intro c hc
        apply htail
        rw [htail']
        exact List.mem_append_left t hc
      rw [hu, List.append_nil] at hcore
      rw [hu, List.nil_append] at htail'
      rw [← hcore]
      have hrest := @ih [] (by rw [List.nil_append, htail'])
      have htoken : Spells (b ++ (tok ++ [])) (tok :: toks) := by
        refine .token hb htok ?_ hrest
        intro _ c hc
        cases hc
      rwa [List.append_nil] at htoken
    · rw [hcore, List.append_assoc]
      refine .token hb htok ?_ (ih ht'.symm)
      intro hword c hc
      apply hend hword c
      rw [ht', List.head?_append, hc]
      rfl

theorem tokenize_strip (h : Spells condition tokens) :
    tokenize (strip condition) = some tokens := by
  have hl := spells_lstrip h
  rw [← List.rdropWhile_append_rtakeWhile (p := isSpace)
    (l := CodeText.lstrip condition)] at hl
  refine tokenizeFrom_spells (spells_of_append hl ?_) _ le_rfl
  intro c hc
  exact List.mem_rtakeWhile_imp hc

/-- Every list of tokens has a text, here with a space before each of them. -/
theorem exists_spells (h : ∀ tok ∈ tokens, isToken tok = true) :
    Spells (tokens.flatMap (cp ' ' :: ·)) tokens := by
  induction tokens with
  | nil => exact .blank nofun
  | cons tok toks ih =>
    have hspace : ∀ c ∈ [cp ' '], isSpace c = true := by
      intro c hc
      obtain rfl := List.mem_singleton.mp hc
      decide
    have hrest := ih fun t ht => h t (List.mem_cons_of_mem tok ht)
    have htoken := Spells.token hspace (h tok List.mem_cons_self) ?_ hrest
    · exact htoken
    · intro _ c hc
      cases toks with
      | nil => cases hc
      | cons u us =>
        obtain rfl := Option.some.inj hc
        decide

/-! ## The condition as a whole -/

theorem Derives.mono (hoperand : ∀ w, words.operand w → words'.operand w)
    (hpattern : ∀ w, words.pattern w → words'.pattern w) (h : Derives words symbol tokens tree) :
    Derives words' symbol tokens tree := by
  induction h with
  | chain _ _ ihleft ihmore => exact .chain ihleft ihmore
  | done => exact .done
  | more hk _ _ ihright ihmore => exact .more hk ihright ihmore
  | not hk _ ih => exact .not hk ih
  | atom _ ih => exact .atom ih
  | parentheses _ ih => exact .parentheses ih
  | quantifier hq hk hp => exact .quantifier hq hk (hpattern _ hp)
  | operand hw => exact .operand (hoperand _ hw)

/-- A chain of one operand. -/
theorem Derives.single {j : Join} (h : Derives words j.operands tokens tree) :
    Derives words (.chain j) tokens tree := by
  have hchain := Derives.chain h .done
  rwa [List.append_nil] at hchain

theorem ne_of_isWord (h : isWord tok = true) : tok ≠ text "(" ∧ tok ≠ text ")" := by
  constructor
  · rintro rfl
    cases h
  · rintro rfl
    cases h

/-- The parser refuses nothing that the grammar derives. -/
theorem Derives.lenient (h : Derives sigma symbol tokens tree) :
    Derives lenient symbol tokens tree := by
  refine h.mono ?_ ?_
  · intro w hw
    refine ⟨(ne_of_isWord hw.1).1, ?_⟩
    intro hnot
    apply hw.2
    rw [hnot]
    decide
  · intro w hw
    exact ne_of_isWord hw.1

/-- The pattern for all selections is a keyword, whose case does not matter. -/
def anyThem (pattern : Text) : Bool := lower pattern = text "them"

def Grammatical (words : Words) (tokens : List Text) : Prop :=
  ∃ tree, Derives words (.chain .or) tokens tree

/-- What the grammar derives has the value of its tree, all else is refused for the fallback. -/
structure Correct (condition : Text) (tokens : List Text) (selections : Selections) : Prop where
  value : ∀ tree, Derives sigma (.chain .or) tokens tree →
    evalCondition condition selections = tree.value anyThem selections
  refused : ¬ Grammatical sigma tokens → parse selections (strip condition) = none ∧
    evalCondition condition selections = fallback selections

theorem parse_spells (h : Spells condition tokens) (selections : Selections) :
    parse selections (strip condition) = parseTokens selections tokens := by
  rw [parse, tokenize_strip h, Option.bind_some]

theorem evalCondition_of_derives (h : Spells condition tokens)
    (htree : Derives lenient (.chain .or) tokens tree) (selections : Selections) :
    evalCondition condition selections = tree.value lowerThem selections := by
  rw [evalCondition, parse_spells h, parseTokens_eq_some.mpr ⟨tree, htree, rfl⟩]
  rfl

theorem parseTokens_eq_none :
    parseTokens selections tokens = none ↔ ¬ Grammatical lenient tokens := by
  rw [Option.eq_none_iff_forall_ne_some]
  constructor
  · rintro h ⟨tree, htree⟩
    exact h _ (parseTokens_eq_some.mpr ⟨tree, htree, rfl⟩)
  · intro h v hv
    obtain ⟨tree, htree, -⟩ := parseTokens_eq_some.mp hv
    exact h ⟨tree, htree⟩

/-- The two readings of a tree; a chain that goes on has read what came before. -/
def Agrees (selections : Selections) (tree : Tree) : Symbol → Prop
  | .more _ left => left.value anyThem selections = left.value lowerThem selections →
      tree.value anyThem selections = tree.value lowerThem selections
  | _ => tree.value anyThem selections = tree.value lowerThem selections

theorem Agrees.operands {j : Join} (h : Agrees selections tree j.operands) :
    tree.value anyThem selections = tree.value lowerThem selections := by
  cases j with
  | or => exact h
  | and => exact h

/-- The two readings differ only about a `them` in another case. -/
theorem agrees_of_lower (selections : Selections) (h : Derives words symbol tokens tree)
    (hthem : ∀ tok ∈ tokens, lower tok = text "them" → tok = text "them") :
    Agrees selections tree symbol := by
  induction h with
  | chain _ _ ihleft ihmore =>
    have hleft := ihleft fun t ht => hthem t (List.mem_append_left _ ht)
    exact ihmore (fun t ht => hthem t (List.mem_append_right _ ht)) hleft.operands
  | done => exact id
  | more _ _ _ ihright ihmore =>
    intro hleft
    have hright := ihright fun t ht =>
      hthem t (List.mem_cons_of_mem _ (List.mem_append_left _ ht))
    have hmore := ihmore fun t ht => hthem t (List.mem_cons_of_mem _ (List.mem_append_right _ ht))
    apply hmore
    rw [Tree.value, Tree.value, hleft, hright.operands]
  | not _ _ ih =>
    have htree := ih fun t ht => hthem t (List.mem_cons_of_mem _ ht)
    exact congrArg (!·) htree
  | atom _ ih => exact ih hthem
  | parentheses _ ih =>
    exact ih fun t ht => hthem t (List.mem_cons_of_mem _ (List.mem_append_left _ ht))
  | @quantifier q k p _ _ _ =>
    have hp : anyThem p = lowerThem p := by
      rw [anyThem, lowerThem]
      by_cases hlower : lower p = text "them"
      · have hmem : p ∈ [q, k, p] := List.mem_cons_of_mem q (List.mem_cons_of_mem k
          List.mem_cons_self)
        rw [hthem p hmem hlower]
        rfl
      · rw [decide_eq_false hlower, decide_eq_false]
        rintro rfl
        exact hlower rfl
    rw [Agrees, Tree.value, Tree.value, quantifierValue, quantifierValue, hp]
    nofun
  | operand _ => exact rfl

/-- No derived list begins with a word between operands. -/
def Begins (tokens : List Text) : Symbol → Prop
  | .more _ _ => True
  | _ => ∃ k us, tokens = k :: us ∧ lower k ∉ [text "and", text "or", text "of"]

theorem begins_of_derives (h : Derives sigma symbol tokens tree) : Begins tokens symbol := by
  induction h with
  | @chain j ts us left tree _ _ ihleft _ =>
    have hbegins : ∃ k vs, ts = k :: vs ∧ lower k ∉ [text "and", text "or", text "of"] := by
      cases j with
      | or => exact ihleft
      | and => exact ihleft
    obtain ⟨k, vs, rfl, hk⟩ := hbegins
    exact ⟨k, vs ++ us, rfl, hk⟩
  | done => trivial
  | more _ _ _ _ _ => trivial
  | not hk _ _ =>
    refine ⟨_, _, rfl, ?_⟩
    rw [hk]
    decide
  | atom _ ih => exact ih
  | parentheses _ _ => exact ⟨_, _, rfl, by decide⟩
  | quantifier hq _ _ =>
    refine ⟨_, _, rfl, ?_⟩
    rw [isQuantifier, Bool.or_eq_true, decide_eq_true_eq, decide_eq_true_eq] at hq
    rcases hq with hq | hq
    · rw [hq]
      decide
    · rw [hq]
      decide
  | operand hw =>
    refine ⟨_, _, rfl, ?_⟩
    intro hmem
    apply hw.2
    revert hmem
    simp only [keywords, List.mem_cons, List.not_mem_nil, or_false]
    tauto

/-- A condition is read by its grammar unless a `them` in another case or a list of tokens that
only the parser takes is in the way. -/
theorem correct_iff (h : Spells condition tokens) (selections : Selections) :
    Correct condition tokens selections ↔
      (∀ tree, Derives sigma (.chain .or) tokens tree →
        tree.value anyThem selections = tree.value lowerThem selections) ∧
      (Grammatical lenient tokens → Grammatical sigma tokens) := by
  constructor
  · intro hcorrect
    constructor
    · intro tree htree
      rw [← hcorrect.value tree htree]
      exact evalCondition_of_derives h htree.lenient selections
    · intro hlenient
      by_contra hsigma
      have hnone := (hcorrect.refused hsigma).1
      rw [parse_spells h] at hnone
      exact parseTokens_eq_none.mp hnone hlenient
  · rintro ⟨hthem, hlenient⟩
    constructor
    · intro tree htree
      rw [hthem tree htree]
      exact evalCondition_of_derives h htree.lenient selections
    · intro hsigma
      have hnone : parse selections (strip condition) = none := by
        rw [parse_spells h]
        exact parseTokens_eq_none.mpr fun hg => hsigma (hlenient hg)
      refine ⟨hnone, ?_⟩
      rw [evalCondition, hnone]
      rfl

/-- A negation beside a quantifier. -/
theorem quantifier_correct : Correct (text " not a or 1 of b*")
    [text "not", text "a", text "or", text "1", text "of", text "b*"]
    [(text "a", true), (text "b1", true)] := by
  have hspells := @exists_spells [text "not", text "a", text "or", text "1", text "of",
    text "b*"] (by decide)
  refine (correct_iff hspells _).mpr ⟨?_, ?_⟩
  · intro tree htree
    exact agrees_of_lower _ htree (by decide)
  · intro _
    have ha : Derives sigma (.chain .and) [text "not", text "a"] (.not (.operand (text "a"))) :=
      .single (.not (by decide) (.atom (.operand ⟨by decide, by decide⟩)))
    have hb : Derives sigma (.chain .and) [text "1", text "of", text "b*"]
        (.quantifier (text "1") (text "b*")) :=
      .single (.atom (.quantifier (by decide) (by decide) ⟨by decide, by decide⟩))
    have hor : lower (text "or") = Join.or.word := by decide
    exact ⟨_, .chain ha (.more hor hb .done)⟩

end

/-- The word `and` alone is taken for the name of an absent selection. -/
theorem and_alone : Spells (text " and") [text "and"] ∧ ¬ Grammatical sigma [text "and"] ∧
    evalCondition (text " and") [(text "a", true)] ≠ fallback [(text "a", true)] := by
  have hspells : Spells (text " and") [text "and"] :=
    @exists_spells [text "and"] (by decide)
  have hlenient : Derives lenient (.chain .or) [text "and"] (.operand (text "and")) :=
    .single (.single (j := .and) (.atom (.operand ⟨by decide, by decide⟩)))
  refine ⟨hspells, ?_, ?_⟩
  · rintro ⟨tree, htree⟩
    obtain ⟨k, us, heq, hk⟩ := begins_of_derives htree
    obtain ⟨rfl, -⟩ := List.cons.inj heq
    exact absurd hk (by decide)
  · rw [evalCondition_of_derives hspells hlenient]
    decide

end SigmaCondition
