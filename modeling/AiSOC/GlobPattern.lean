import Mathlib.Computability.Language

/-! # Glob patterns

A pattern is a list of tokens, each a star or a class of single symbols. Matching is
executable, and what it accepts is the product of the tokens' languages. Two readings of a
text as tokens are given: one that knows only `*` and `?`, and the shell's, which also reads
sets of characters between brackets. -/
namespace GlobPattern

variable {α : Type*}

inductive Token (α : Type*) where
  | star
  | one (accepts : α → Bool)

def matchTokens : List (Token α) → List α → Bool
  | [], cs => cs.isEmpty
  | .star :: ts, cs => cs.tails.any (matchTokens ts)
  | .one _ :: _, [] => false
  | .one accepts :: ts, c :: cs => accepts c && matchTokens ts cs

def Token.language : Token α → Language α
  | .star => ⊤
  | .one accepts => {cs | ∃ c, accepts c = true ∧ cs = [c]}

def language (ts : List (Token α)) : Language α := (ts.map Token.language).prod

theorem mem_language_nil {cs : List α} : cs ∈ language ([] : List (Token α)) ↔ cs = [] :=
  Language.mem_one cs

theorem mem_language_star {ts : List (Token α)} {cs : List α} :
    cs ∈ language (.star :: ts) ↔ ∃ ds ∈ language ts, ds <:+ cs := by
  simp only [language, List.map_cons, List.prod_cons, Language.mem_mul]
  constructor
  · rintro ⟨before, -, ds, hds, rfl⟩
    exact ⟨ds, hds, List.suffix_append _ _⟩
  · rintro ⟨ds, hds, before, rfl⟩
    exact ⟨before, trivial, ds, hds, rfl⟩

theorem mem_language_one {accepts : α → Bool} {ts : List (Token α)} {cs : List α} :
    cs ∈ language (.one accepts :: ts) ↔ ∃ c ds, cs = c :: ds ∧ accepts c = true ∧
      ds ∈ language ts := by
  simp only [language, List.map_cons, List.prod_cons, Language.mem_mul]
  constructor
  · rintro ⟨_, ⟨c, hc, rfl⟩, ds, hds, rfl⟩
    exact ⟨c, ds, rfl, hc, hds⟩
  · rintro ⟨c, ds, rfl, hc, hds⟩
    exact ⟨[c], ⟨c, hc, rfl⟩, ds, hds, rfl⟩

/-- Matching decides the language. -/
theorem matchTokens_iff {ts : List (Token α)} {cs : List α} :
    matchTokens ts cs = true ↔ cs ∈ language ts := by
  induction ts generalizing cs with
  | nil => rw [mem_language_nil, matchTokens, List.isEmpty_iff]
  | cons t ts ih =>
    cases t with
    | star =>
      rw [mem_language_star, matchTokens, List.any_eq_true]
      constructor
      · rintro ⟨ds, hds, hmatch⟩
        exact ⟨ds, ih.mp hmatch, (List.mem_tails _ _).mp hds⟩
      · rintro ⟨ds, hds, hsuffix⟩
        exact ⟨ds, (List.mem_tails _ _).mpr hsuffix, ih.mpr hds⟩
    | one accepts =>
      rw [mem_language_one]
      cases cs with
      | nil => simp [matchTokens]
      | cons c cs => simp [matchTokens, ih]

/-- A pattern without a star or a class accepts its own text only. -/
theorem mem_language_literals [DecidableEq α] {cs ds : List α} :
    ds ∈ language (cs.map fun c => .one fun d => d = c) ↔ ds = cs := by
  induction cs generalizing ds with
  | nil => exact mem_language_nil
  | cons c cs ih =>
    rw [List.map_cons, mem_language_one]
    constructor
    · rintro ⟨d, ds, rfl, hd, hds⟩
      rw [ih.mp hds, of_decide_eq_true hd]
    · rintro rfl
      exact ⟨c, cs, rfl, decide_eq_true rfl, ih.mpr rfl⟩

def globToken (c : Char) : Token Char :=
  if c = '*' then .star else if c = '?' then .one fun _ => true else .one fun d => d = c

/-- Only `*` and `?` are special. -/
def globTokens (cs : List Char) : List (Token Char) := cs.map globToken

/-- What a set accepts: single characters and ranges. -/
def setRanges : List Char → List (Char × Char)
  | lo :: '-' :: hi :: cs => (lo, hi) :: setRanges cs
  | c :: cs => (c, c) :: setRanges cs
  | [] => []

def setAccepts (stuff : List Char) (c : Char) : Bool :=
  match stuff with
  | '!' :: stuff => !(setRanges stuff).any fun r => r.1 ≤ c ∧ c ≤ r.2
  | stuff => (setRanges stuff).any fun r => r.1 ≤ c ∧ c ≤ r.2

/-- The characters up to a closing bracket and what follows it. -/
def closeSet : List Char → Option (List Char × List Char)
  | [] => none
  | c :: cs => if c = ']' then some ([], cs) else (closeSet cs).map (Prod.map (c :: ·) id)

/-- A bracket right after the opening of a set, or after its `!`, does not close it. -/
def readSet : List Char → Option (List Char × List Char)
  | '!' :: ']' :: cs => (closeSet cs).map (Prod.map ('!' :: ']' :: ·) id)
  | '!' :: cs => (closeSet cs).map (Prod.map ('!' :: ·) id)
  | ']' :: cs => (closeSet cs).map (Prod.map (']' :: ·) id)
  | cs => closeSet cs

/-- The shell's reading, after so many characters that were already read. A set that is not
closed is an ordinary bracket. -/
def shellTokens : Nat → List Char → List (Token Char)
  | _, [] => []
  | skip + 1, _ :: cs => shellTokens skip cs
  | 0, c :: cs =>
    if c = '[' then
      match readSet cs with
      | some (stuff, rest) => .one (setAccepts stuff) :: shellTokens (cs.length - rest.length) cs
      | none => .one (fun d => d = '[') :: shellTokens 0 cs
    else globToken c :: shellTokens 0 cs

def fnmatchcase (name pattern : String) : Bool :=
  matchTokens (shellTokens 0 pattern.toList) name.toList

/-- The two readings differ only where there is a bracket. -/
theorem shellTokens_eq_globTokens {cs : List Char} (h : '[' ∉ cs) :
    shellTokens 0 cs = globTokens cs := by
  induction cs with
  | nil => rfl
  | cons c cs ih =>
    have hc : c ≠ '[' := fun heq => h (heq ▸ List.mem_cons_self)
    have hcs : '[' ∉ cs := fun hmem => h (List.mem_cons_of_mem c hmem)
    rw [shellTokens, if_neg hc, ih hcs]
    rfl

theorem globTokens_literals {cs : List Char} (hstar : '*' ∉ cs) (hany : '?' ∉ cs) :
    globTokens cs = cs.map fun c => .one fun d => d = c := by
  refine List.map_congr_left fun c hc => ?_
  have hcstar : c ≠ '*' := fun heq => hstar (heq ▸ hc)
  have hcany : c ≠ '?' := fun heq => hany (heq ▸ hc)
  rw [globToken, if_neg hcstar, if_neg hcany]

end GlobPattern
