import AiSOC.LiteralReading

/-! # Printed expressions

A path, an operator and a literal, printed as an expression, and what the expression makes of
them. -/
namespace ExpressionAgreement

open CodeText (Text CodePoint cp text strip decimal isSpace)
open LiteralReading
open PlaybookExpression
open PythonValue (Dict Objects Outcome Value)

variable {Ω : Type} {lib : Builtins Ω} {t : Text} {c : CodePoint} {context : Dict Ω}

/-! ## Splitting an expression -/

/-- The operator as it is printed between two blanks. -/
def symbol : Op → Text
  | .eq => text "=="
  | .ne => text "!="
  | .gte => text ">="
  | .lte => text "<="
  | .gt => text ">"
  | .lt => text "<"
  | .notIn => text "not in"
  | .isIn => text "in"

def printed (lib : Builtins Ω) (path : Text) (op : Op) (l : Literal) : Text :=
  path ++ cp ' ' :: (symbol op ++ cp ' ' :: l.print lib)

/-- What is searched for, which has its blanks with it if it is a word. -/
def token : Op → Text
  | .notIn => text " not in "
  | .isIn => text " in "
  | op => symbol op

/-- Where the token stands in a printed expression. -/
def place (path : Text) : Op → ℕ
  | .notIn => path.length
  | .isIn => path.length
  | _ => path.length + 1

/-- The operators that are tried before. -/
def earlier (op : Op) : List (Text × Op) := exprOperators.takeWhile fun e => e.2 ≠ op

theorem exprOperators_split (op : Op) :
    ∃ later, exprOperators = earlier op ++ (token op, op) :: later ∧ ∀ e ∈ later, e.2 ≠ op := by
  cases op <;> exact ⟨_, rfl, by decide⟩

variable {path expr : Text} {op : Op} {l : Literal}

/-- The text is split at the first occurrence of an operator if none that is tried before occurs. -/
theorem splitExpression_iff {a b : Text} :
    splitExpression lib expr = some (a, op, b) ↔
      (∀ e ∈ earlier op, ¬ e.1 <:+: haystack lib e.2 expr) ∧
        ∃ i, TextSearch.find (token op) (haystack lib op expr) = some i ∧
          a = expr.take i ∧ b = expr.drop (i + (token op).length) := by
  obtain ⟨later, hsplit, hlater⟩ := exprOperators_split op
  rw [splitExpression, hsplit, List.findSome?_append, List.findSome?_cons]
  constructor
  · intro h
    rcases Option.or_eq_some_iff.mp h with hfound | ⟨hnone, hrest⟩
    · obtain ⟨e, he, hfind⟩ := List.exists_of_findSome?_eq_some hfound
      obtain ⟨i, -, heq⟩ := Option.map_eq_some_iff.mp hfind
      have hother := List.mem_takeWhile_imp he
      rw [(Prod.mk.inj (Prod.mk.inj heq).2).1] at hother
      exact absurd rfl (of_decide_eq_true hother)
    · refine ⟨fun e he => ?_, ?_⟩
      · have hfind := List.findSome?_eq_none_iff.mp hnone e he
        exact TextSearch.find_eq_none.mp (Option.map_eq_none_iff.mp hfind)
      · cases hfind : TextSearch.find (token op) (haystack lib op expr) with
        | some i =>
          simp only [hfind, Option.map_some, Option.some.injEq, Prod.mk.injEq, true_and] at hrest
          exact ⟨i, rfl, hrest.1.symm, hrest.2.symm⟩
        | none =>
          simp only [hfind, Option.map_none] at hrest
          obtain ⟨e, he, hfound⟩ := List.exists_of_findSome?_eq_some hrest
          obtain ⟨i, -, heq⟩ := Option.map_eq_some_iff.mp hfound
          exact absurd (Prod.mk.inj (Prod.mk.inj heq).2).1 (hlater e he)
  · rintro ⟨hbefore, i, hfind, rfl, rfl⟩
    have hnone : (earlier op).findSome? (fun e => (TextSearch.find e.1 (haystack lib e.2 expr)).map
        fun i => (expr.take i, e.2, expr.drop (i + e.1.length))) = none := by
      refine List.findSome?_eq_none_iff.mpr fun e he => ?_
      rw [Option.map_eq_none_iff]
      exact TextSearch.find_eq_none.mpr (hbefore e he)
    rw [hnone, Option.none_or]
    dsimp only
    rw [hfind]
    rfl

/-- The printed expression around the token. -/
theorem printed_parts (hpath : Solid path) (op : Op) (l : Literal) :
    ∃ a b, printed lib path op l = a ++ (token op ++ b) ∧ a.length = place path op ∧
      strip a = path ∧ strip b = l.print lib := by
  have hwords : strip path = path ∧ strip (l.print lib) = l.print lib :=
    ⟨hpath.strip_eq, (solid_print l).strip_eq⟩
  have hsymbols : strip (path ++ [cp ' ']) = path ∧
      strip (cp ' ' :: l.print lib) = l.print lib :=
    ⟨hpath.strip_concat (by decide), (solid_print l).strip_cons (by decide)⟩
  have hassoc : printed lib path op l =
      path ++ [cp ' '] ++ (symbol op ++ cp ' ' :: l.print lib) :=
    (List.append_assoc path [cp ' '] _).symm
  cases op
  case isIn => exact ⟨path, l.print lib, rfl, rfl, hwords⟩
  case notIn => exact ⟨path, l.print lib, rfl, rfl, hwords⟩
  all_goals
    exact ⟨path ++ [cp ' '], cp ' ' :: l.print lib, hassoc, List.length_append, hsymbols⟩

theorem solid_printed (hpath : Solid path) : Solid (printed lib path op l) := by
  have happend := hpath.append (@solid_print Ω lib l) (cp ' ' :: (symbol op ++ [cp ' ']))
  rwa [List.append_assoc, List.cons_append, List.append_assoc] at happend

theorem length_printed : (printed lib path op l).length =
    path.length + (symbol op).length + (l.print lib).length + 2 := by
  rw [printed, List.length_append, List.length_cons, List.length_append, List.length_cons]
  omega

/-- An operator that is no word is searched for in the text as it is, without its blanks. -/
theorem symbol_spec (h : op ≠ .notIn ∧ op ≠ .isIn) (path expr : Text) :
    token op = symbol op ∧ place path op = path.length + 1 ∧ haystack lib op expr = expr ∧
      cp ' ' ∉ symbol op ∧ symbol op ≠ [] := by
  cases op
  case notIn => exact absurd rfl h.1
  case isIn => exact absurd rfl h.2
  all_goals exact ⟨rfl, rfl, rfl, by decide, by decide⟩

theorem earlier_symbol (h : op ≠ .notIn ∧ op ≠ .isIn) : ∀ e ∈ earlier op,
    cp ' ' ∉ e.1 ∧ ¬ e.1 <:+: symbol op ∧ e.2 ≠ .notIn ∧ e.2 ≠ .isIn := by
  cases op
  case notIn => exact absurd rfl h.1
  case isIn => exact absurd rfl h.2
  all_goals decide

/-- The sides are what was printed only where the token was printed. -/
theorem place_of_split {i : ℕ}
    (hfind : TextSearch.find (token op) (haystack lib op (printed lib path op l)) = some i)
    (ha : strip ((printed lib path op l).take i) = path)
    (hb : strip ((printed lib path op l).drop (i + (token op).length)) = l.print lib) :
    i = place path op := by
  have hleft := strip_length_le ((printed lib path op l).take i)
  have hright := strip_length_le ((printed lib path op l).drop (i + (token op).length))
  have hlit := List.length_pos_iff.mpr (@solid_print Ω lib l).ne_nil
  rw [ha, List.length_take] at hleft
  rw [hb, List.length_drop, length_printed] at hright
  have hrange : path.length ≤ i ∧ i + (token op).length ≤ path.length + (symbol op).length + 2 := by
    omega
  by_cases hword : op ≠ .notIn ∧ op ≠ .isIn
  · -- a symbol has no blank in it, so it begins at neither of the places next to its own
    obtain ⟨htoken, hplace, hhaystack, hblank, hne⟩ :=
      @symbol_spec Ω lib op hword path (printed lib path op l)
    rw [htoken, hhaystack] at hfind
    rw [htoken] at hrange
    have hprefix := TextSearch.find_spec hfind
    by_cases hfirst : i = path.length
    · rw [hfirst, printed, List.drop_left] at hprefix
      exact absurd (CodeText.eq_nil_of_prefix_cons hblank hprefix) hne
    · by_cases hlast : i = path.length + 2
      · obtain ⟨d, rest, hrest⟩ := List.exists_cons_of_ne_nil hne
        rw [hlast, printed, ← List.drop_drop, List.drop_left, hrest] at hprefix
        have hle := (TextSearch.prefix_of_prefix_append (hrest ▸ hblank) hprefix).length_le
        rw [List.length_cons] at hle
        omega
      · omega
  · have hplace : place path op = path.length ∧ (token op).length = (symbol op).length + 2 := by
      cases op
      case notIn => exact ⟨rfl, rfl⟩
      case isIn => exact ⟨rfl, rfl⟩
      all_goals exact absurd ⟨nofun, nofun⟩ hword
    omega

/-! ## The suffixes for nothing -/

theorem suffix_lower {s : Text} (h : s.all isAscii = true) (ht : s <:+ t) :
    s.map lowerAscii <:+ lib.lower t := by
  obtain ⟨init, rfl⟩ := ht
  exact lib.lower_suffix init s h

theorem isAscii_of_isNumeral (h : isNumeral c = true) :
    isAscii c = true ∧ lowerAscii c ≠ cp 'l' := by
  rw [isNumeral, Bool.or_eq_true] at h
  rcases h with hdigit | hmem
  · simp only [JsonParser.isDigit, CodeText.between, decide_eq_true_eq] at hdigit
    have hzero : '0'.toNat = 48 := rfl
    have hnine : '9'.toNat = 57 := rfl
    have hupper : CodeText.between 'A' 'Z' c = false := by
      rw [CodeText.between, decide_eq_false_iff_not]
      have hA : 'A'.toNat = 65 := rfl
      omega
    rw [isAscii, decide_eq_true_eq, lowerAscii, hupper]
    refine ⟨by omega, ?_⟩
    rintro rfl
    have hl : (cp 'l').val = 108 := rfl
    omega
  · have hall : (text "+-.einfa").all (fun c => isAscii c && lowerAscii c ≠ cp 'l') = true := by
      decide
    have hc := List.all_eq_true.mp hall c (of_decide_eq_true hmem)
    rw [Bool.and_eq_true, decide_eq_true_eq] at hc
    exact hc

/-- Only the null in small letters ends as the suffixes do. -/
theorem last_print (hne : l ≠ .null false) :
    ∃ init c, l.print lib = init ++ [c] ∧ isAscii c = true ∧ lowerAscii c ≠ cp 'l' := by
  have hnumeral {t : Text} (hne : t ≠ []) (ht : ∀ c ∈ t, isNumeral c = true) :
      ∃ init c, t = init ++ [c] ∧ isAscii c = true ∧ lowerAscii c ≠ cp 'l' :=
    ⟨_, _, (List.dropLast_append_getLast hne).symm,
      isAscii_of_isNumeral (ht _ (List.getLast_mem hne))⟩
  cases l with
  | str quote s =>
    refine ⟨quote.char :: s, quote.char, rfl, ?_⟩
    cases quote <;> decide
  | int n => exact hnumeral (decimal_ne_nil n) fun c => isNumeral_of_decimal
  | float x => exact hnumeral (lib.floatText_ne_nil x) fun c => isNumeral_of_floatText
  | bool capital b =>
    refine ⟨(boolText capital b).dropLast, cp 'e', ?_, by decide⟩
    cases capital <;> cases b <;> rfl
  | null capital =>
    cases capital with
    | false => exact absurd rfl hne
    | true => exact ⟨text "Non", cp 'e', rfl, by decide⟩
  | list items => exact ⟨_, cp ']', rfl, by decide⟩

/-! ## Agreement -/

def IsNullTest (op : Op) (l : Literal) : Prop := l = .null false ∧ (op = .eq ∨ op = .ne)

def nullSuffixes : List Text :=
  [text " is not null", text " != null", text " is null", text " == null"]

theorem not_suffix_of_end {s suffix : Text} (hend : s <:+ t)
    (h : ¬ suffix <:+ s ∧ ¬ s <:+ suffix) : ¬ suffix <:+ t := by
  intro hsuffix
  rcases List.suffix_or_suffix_of_suffix hsuffix hend with hle | hle
  · exact h.1 hle
  · exact h.2 hle

theorem no_suffix (h : ¬ IsNullTest op l) :
    ∀ suffix ∈ nullSuffixes, ¬ suffix <:+ lib.lower (printed lib path op l) := by
  intro suffix hmem hsuffix
  by_cases hnull : l = .null false
  · subst hnull
    have hother : (symbol op ++ text " null").all isAscii = true ∧
        nullSuffixes.all (fun suffix =>
          ¬ suffix <:+ (symbol op ++ text " null").map lowerAscii ∧
            ¬ (symbol op ++ text " null").map lowerAscii <:+ suffix) = true := by
      cases op
      case eq => exact absurd ⟨rfl, Or.inl rfl⟩ h
      case ne => exact absurd ⟨rfl, Or.inr rfl⟩ h
      all_goals decide
    have hend := @suffix_lower Ω lib (printed lib path op (.null false)) _ hother.1
      ⟨path ++ [cp ' '], List.append_assoc _ _ _⟩
    have hnot := of_decide_eq_true (List.all_eq_true.mp hother.2 suffix hmem)
    exact not_suffix_of_end hend hnot hsuffix
  · obtain ⟨init, c, hlast, hascii, hc⟩ := @last_print Ω lib l hnull
    have hend : [c] <:+ printed lib path op l := by
      rw [printed, hlast]
      exact ⟨path ++ cp ' ' :: (symbol op ++ cp ' ' :: init), by simp⟩
    have hlower := @suffix_lower Ω lib _ [c] (by rw [List.all_cons, hascii]; rfl) hend
    have hl : nullSuffixes.all (fun suffix => [cp 'l'] <:+ suffix) = true := by decide
    have hsuffix' := (of_decide_eq_true (List.all_eq_true.mp hl suffix hmem)).trans hsuffix
    obtain ⟨init', heq⟩ := hsuffix'
    obtain ⟨init'', heq'⟩ := hlower
    have hinj := List.append_inj_right' (heq.trans heq'.symm) rfl
    exact hc (List.cons.inj hinj).1.symm

/-- The expression is split where it was put together, and its sides are read as what they are. -/
structure Plain (lib : Builtins Ω) (path : Text) (op : Op) (l : Literal) : Prop where
  isPath : IsPath lib path
  before : ∀ e ∈ earlier op, ¬ e.1 <:+: haystack lib e.2 (printed lib path op l)
  first : TextSearch.find (token op) (haystack lib op (printed lib path op l)) =
    some (place path op)
  literal : Readable lib l

/-- An operator that is no word is read where it is printed if neither it occurs in the path nor one
that is tried before in the path or in the literal. -/
theorem plain_symbol_iff (h : op ≠ .notIn ∧ op ≠ .isIn) :
    Plain lib path op l ↔ IsPath lib path ∧ Readable lib l ∧ ¬ symbol op <:+: path ∧
      ∀ e ∈ earlier op, ¬ e.1 <:+: path ∧ ¬ e.1 <:+: l.print lib := by
  have hbefore : (∀ e ∈ earlier op, ¬ e.1 <:+: haystack lib e.2 (printed lib path op l)) ↔
      ∀ e ∈ earlier op, ¬ e.1 <:+: path ∧ ¬ e.1 <:+: l.print lib := by
    refine forall₂_congr fun e he => ?_
    obtain ⟨hblank, hsymbol, hother⟩ := earlier_symbol h e he
    obtain ⟨-, -, hhaystack, -⟩ := @symbol_spec Ω lib e.2 hother path (printed lib path op l)
    rw [hhaystack, printed, CodeText.infix_append_cons hblank,
      CodeText.infix_append_cons hblank, or_iff_right hsymbol, not_or]
  have hfirst : TextSearch.find (token op) (haystack lib op (printed lib path op l)) =
      some (place path op) ↔ ¬ symbol op <:+: path := by
    obtain ⟨htoken, hplace, hhaystack, hblank, hne⟩ :=
      @symbol_spec Ω lib op h path (printed lib path op l)
    rw [hhaystack, htoken, hplace, printed, TextSearch.find_behind_iff hne hblank]
  constructor
  · intro hplain
    exact ⟨hplain.isPath, hplain.literal, hfirst.mp hplain.first, hbefore.mp hplain.before⟩
  · rintro ⟨hpath, hliteral, hplace, hearlier⟩
    exact ⟨hpath, hbefore.mpr hearlier, hfirst.mpr hplace, hliteral⟩

/-- The expression comes apart into the path and the text of the literal, and these are read as the
field and the value in every context. -/
structure ReadAsWritten (lib : Builtins Ω) (path : Text) (op : Op) (l : Literal) : Prop where
  split : ∃ a b, splitExpression lib (strip (printed lib path op l)) = some (a, op, b) ∧
    strip a = path ∧ strip b = l.print lib
  field : ∀ context, parseLiteral lib context path = resolveField lib context path
  value : ∀ context, parseLiteral lib context (l.print lib) = l.value

theorem Plain.readAsWritten (h : Plain lib path op l) : ReadAsWritten lib path op l := by
  obtain ⟨a, b, hparts, hlength, ha, hb⟩ := @printed_parts Ω lib path h.isPath.solid op l
  refine ⟨⟨a, b, ?_, ha, hb⟩, h.isPath.parseLiteral_eq, fun context =>
    parseLiteral_print l h.literal⟩
  rw [(solid_printed h.isPath.solid).strip_eq, splitExpression_iff]
  refine ⟨h.before, _, h.first, ?_, ?_⟩
  · rw [← hlength, hparts, List.take_left]
  · rw [← hlength, hparts, ← List.append_assoc, ← List.length_append, List.drop_left]

/-- The expressions that are read as they are written are the plain ones. -/
theorem plain_iff_readAsWritten (hne : path ≠ []) :
    Plain lib path op l ↔ ReadAsWritten lib path op l := by
  constructor
  · exact Plain.readAsWritten
  · rintro ⟨⟨a, b, hsplit, ha, hb⟩, hfield, hvalue⟩
    have hsolid : Solid path := Solid.of_strip ha hne
    rw [(solid_printed hsolid).strip_eq, splitExpression_iff] at hsplit
    obtain ⟨hbefore, i, hfind, rfl, rfl⟩ := hsplit
    refine ⟨isPath_of_parse hsolid hfield, hbefore, ?_, readable_of_parse l (hvalue [])⟩
    rw [← place_of_split hfind ha hb]
    exact hfind

theorem evaluateExpression_plain (h : Plain lib path op l) (hnull : ¬ IsNullTest op l) :
    evaluateExpression lib (printed lib path op l) context =
      applyOperator lib op (resolveField lib context path) l.value := by
  have hsolid : Solid (printed lib path op l) := solid_printed h.isPath.solid
  have hsuffix := @no_suffix Ω lib path op l hnull
  obtain ⟨⟨a, b, hsplit, ha, hb⟩, hfield, hvalue⟩ := h.readAsWritten
  have hleft : parseLiteral lib context a = resolveField lib context path := by
    rw [parseLiteral_congr (ha.trans h.isPath.solid.strip_eq.symm), hfield]
  have hright : parseLiteral lib context b = l.value := by
    rw [parseLiteral_congr (hb.trans (solid_print l).strip_eq.symm), hvalue]
  rw [hsolid.strip_eq] at hsplit
  rw [evaluateExpression, if_neg hsolid.ne_nil, hsolid.strip_eq]
  dsimp only
  rw [if_neg (hsuffix _ (by decide)), if_neg (hsuffix _ (by decide)),
    if_neg (hsuffix _ (by decide)), if_neg (hsuffix _ (by decide)), hsplit]
  dsimp only
  rw [hleft, hright]

/-- No object of another class is equal to the null. -/
def NoneOnly (objects : Objects Ω) : Prop := ∀ o, objects.eq (.object o) .none = .ok false

theorem eqValue_none {objects : Objects Ω} (h : NoneOnly objects) (v : Value Ω) :
    PythonValue.eqValue objects v .none = .ok (isNone v) := by
  cases v with
  | object o =>
    rw [PythonValue.eqValue, h o]
    rfl
  | _ => rfl

theorem evaluateExpression_null (hpath : Solid path) (hobjects : NoneOnly lib.objects)
    (h : IsNullTest op l) : evaluateExpression lib (printed lib path op l) context =
      applyOperator lib op (resolveField lib context path) l.value := by
  obtain ⟨rfl, hop⟩ := h
  have hsolid : Solid (printed lib path op (.null false)) := solid_printed hpath
  have hend (s : Text) (hs : s.all isAscii = true)
      (hprinted : printed lib path op (.null false) = path ++ s) :
      s.map lowerAscii <:+ lib.lower (printed lib path op (.null false)) :=
    suffix_lower hs (hprinted ▸ List.suffix_append path s)
  have htake (s : Text) (hprinted : printed lib path op (.null false) = path ++ s) :
      strip ((printed lib path op (.null false)).take
        ((printed lib path op (.null false)).length - s.length)) = path := by
    rw [hprinted, List.length_append, Nat.add_sub_cancel, List.take_left, hpath.strip_eq]
  rw [evaluateExpression, if_neg hsolid.ne_nil, hsolid.strip_eq]
  dsimp only
  rcases hop with rfl | rfl
  · have hlower := hend (text " == null") (by decide) rfl
    have hequals : text " == null" <:+ lib.lower (printed lib path .eq (.null false)) := hlower
    rw [if_neg (not_suffix_of_end hlower (by decide)),
      if_neg (not_suffix_of_end hlower (by decide)),
      if_neg (not_suffix_of_end hlower (by decide)), if_pos hequals, htake (text " == null") rfl]
    change _ = orFalse (PythonValue.eqValue lib.objects _ .none)
    rw [eqValue_none hobjects]
    rfl
  · have hlower := hend (text " != null") (by decide) rfl
    have hdiffers : text " != null" <:+ lib.lower (printed lib path .ne (.null false)) := hlower
    rw [if_neg (not_suffix_of_end hlower (by decide)), if_pos hdiffers,
      htake (text " != null") rfl]
    change _ = orFalse ((PythonValue.eqValue lib.objects _ .none).map not)
    rw [eqValue_none hobjects]
    rfl

/-- A test for nothing is read apart from the other expressions. -/
def Faithful (lib : Builtins Ω) (path : Text) (op : Op) (l : Literal) : Prop :=
  (IsNullTest op l ∧ Solid path ∧ NoneOnly lib.objects) ∨ (¬ IsNullTest op l ∧ Plain lib path op l)

/-- The structured operators that are operators of expressions too. -/
def structured : Operator → Option Op
  | .eq => some .eq
  | .ne => some .ne
  | .gt => some .gt
  | .lt => some .lt
  | .contains => none
  | .exists => none

theorem evaluateCondition_structured {operator : Operator} (hpath : path ≠ [])
    (h : structured operator = some op) (v : Value Ω) :
    orFalse (evaluateCondition lib ⟨path, operator, v, none⟩ context) =
      applyOperator lib op (resolveField lib context path) v := by
  rw [evaluateCondition, Option.filter_none]
  dsimp only
  rw [if_neg hpath]
  cases operator <;> cases h <;> rfl

theorem evaluateExpression_faithful (h : Faithful lib path op l) :
    evaluateExpression lib (printed lib path op l) context =
      applyOperator lib op (resolveField lib context path) l.value := by
  rcases h with ⟨hnull, hpath, hobjects⟩ | ⟨hnull, hplain⟩
  · exact evaluateExpression_null hpath hobjects hnull
  · exact evaluateExpression_plain hplain hnull

/-- The plain expressions are those that are read as they are written. A faithful expression is, in
every context, the operator applied to the field and the literal, and the structured condition where
there is one. -/
theorem expression_agrees (hne : path ≠ []) :
    (Plain lib path op l ↔ ReadAsWritten lib path op l) ∧
      (Faithful lib path op l → ∀ context,
        evaluateExpression lib (printed lib path op l) context =
            applyOperator lib op (resolveField lib context path) l.value ∧
          ∀ operator, structured operator = some op →
            evaluateExpression lib (printed lib path op l) context =
              orFalse (evaluateCondition lib ⟨path, operator, l.value, none⟩ context)) := by
  refine ⟨plain_iff_readAsWritten hne, fun h context => ?_⟩
  refine ⟨evaluateExpression_faithful h, fun operator hoperator => ?_⟩
  rw [evaluateCondition_structured hne hoperator]
  exact evaluateExpression_faithful h

/-! ## Two expressions -/

/-- Reads the integers that are printed, and no floating-point numbers. -/
def readInt (t : Text) : Option ℤ :=
  let n : ℤ := if t.head? = some (cp '-') then -JsonParser.natOf t.tail else JsonParser.natOf t
  if decimal n = t ∧ n.natAbs < 10 ^ 4300 then some n else none

theorem readInt_decimal (n : ℤ) :
    readInt (decimal n) = if n.natAbs < 10 ^ 4300 then some n else none := by
  have hvalue : (if (decimal n).head? = some (cp '-') then -(JsonParser.natOf (decimal n).tail : ℤ)
      else JsonParser.natOf (decimal n)) = n := by
    rw [decimal]
    by_cases hn : n < 0
    · rw [if_pos hn, List.head?_cons, if_pos rfl, List.tail_cons, JsonRoundTrip.natOf_digits]
      omega
    · have hhead : (CodeText.digits n.natAbs).head? ≠ some (cp '-') := by
        intro hhead
        exact absurd (JsonRoundTrip.isDigit_of_mem_digits (List.mem_of_head? hhead)) (by decide)
      rw [if_neg hn, if_neg hhead, JsonRoundTrip.natOf_digits]
      omega
  simp only [readInt, hvalue, true_and]

def plainBuiltins : Builtins Empty where
  objects :=
    { str := fun
        | .str s => .ok s
        | _ => .ok []
      truthy := nofun
      items := nofun
      eq := fun _ _ => .ok false
      rich := fun _ _ _ => .ok false
      contains := nofun
      isSet := nofun }
  lower t := t.map lowerAscii
  lower_suffix t s _ := by
    rw [List.map_append]
    exact List.suffix_append _ _
  parseInt := readInt
  parseInt_decimal := readInt_decimal
  parseFloat _ := none
  floatText _ := text "inf"
  floatText_ne_nil _ := by decide
  floatText_subset _ := by decide
  parseFloat_floatText _ h := absurd h (by decide)
  objectFloat := nofun

def severityList : Literal := .list [.str .single (text "high"), .str .single (text "critical")]

/-- The severity of an alert, a text. -/
def alertContext (severity : Text) : Dict Empty :=
  [(.str (text "alert"), .dict [(.str (text "severity"), .str severity)])]

set_option maxRecDepth 10000 in
theorem faithful_severity : Faithful plainBuiltins (text "alert.severity") .isIn severityList := by
  refine Or.inr ⟨fun h => (nomatch h.1), ⟨?_, ?_, ?_, ?_⟩⟩
  · exact ⟨Solid.of_text (by decide) (by decide), ⟨by decide, by decide, by decide⟩, rfl⟩
  · decide
  · decide
  · exact ⟨⟨by decide, trivial⟩, ⟨by decide, trivial⟩, trivial⟩

theorem severity_agrees : evaluateExpression plainBuiltins
    (printed plainBuiltins (text "alert.severity") .isIn severityList)
      (alertContext (text "high")) = .ok true :=
  ((expression_agrees (by decide)).2 faithful_severity (alertContext (text "high"))).1.trans rfl

def inequality : Literal := .str .single (text "a == b")

def subjectContext : Dict Empty := [(.str (text "subject"), .str (text "a == b"))]

/-- The operator inside the literal is tried first. -/
theorem quoted_operator_disagrees :
    evaluateExpression plainBuiltins (printed plainBuiltins (text "subject") .ne inequality)
        subjectContext = .ok true ∧
      applyOperator plainBuiltins .ne (resolveField plainBuiltins subjectContext (text "subject"))
        inequality.value = .ok false := by
  constructor
  · have hsplit : splitExpression plainBuiltins
        (printed plainBuiltins (text "subject") .ne inequality) =
          some (text "subject != 'a ", .eq, text " b'") := by decide
    have hleft : parseLiteral plainBuiltins subjectContext (text "subject != 'a ") = .none :=
      (parseLiteral_eq _).trans rfl
    have hright : parseLiteral plainBuiltins subjectContext (text " b'") = .none :=
      (parseLiteral_eq _).trans rfl
    have hstrip : strip (printed plainBuiltins (text "subject") .ne inequality) =
        printed plainBuiltins (text "subject") .ne inequality := by decide
    rw [evaluateExpression, if_neg (by decide), hstrip]
    dsimp only
    rw [if_neg (by decide), if_neg (by decide), if_neg (by decide), if_neg (by decide), hsplit]
    dsimp only
    rw [hleft, hright]
    rfl
  · rfl

end ExpressionAgreement
