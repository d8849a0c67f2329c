import AiSOC.FederatedQuery
import AiSOC.JsonRoundTrip
import AiSOC.LiteralScan

/-! # Translators of a federated query

A query is rendered for three backends. What each text should be, stage by stage, is put together
from code, names and literals, and compared with how the text is read. -/
namespace FederatedTranslators

open CodeText (Text CodePoint cp text decimal digits)
open FederatedQuery (Library Operator Indicator UnifiedQuery Rejection parseUnifiedQuery)
open JsonText (Json)
open LiteralScan (Quoting Piece stages tokensOf textOf contained closed isPlain stages_tokensOf)

variable {F : Type}

/-! ## The texts -/

def join (separator : Text) (ts : List Text) : Text := separator.intercalate ts

def replaceChar (c : CodePoint) (by' : Text) (t : Text) : Text :=
  t.flatMap fun d => if d = c then by' else [d]

def escape (t : Text) : Text :=
  replaceChar (cp '"') (text "\\\"") (replaceChar (cp '\\') (text "\\\\") t)

def quote (lib : Library F) : Json F → Text
  | .bool true => text "true"
  | .bool false => text "false"
  | .int n => decimal n
  | .float x => lib.floatText x
  | v => text "\"" ++ escape (lib.str v) ++ text "\""

/-- The values of `in`. -/
def items : Json F → List (Json F)
  | .arr items => items
  | _ => []

def splQuote (lib : Library F) : Json F → Text := quote lib

def indicatorToSpl (lib : Library F) (i : Indicator F) : Text :=
  let compare (op : String) := i.field ++ text op ++ splQuote lib i.value
  let value := lib.str i.value
  match i.operator with
  | .eq => compare "="
  | .ne => text "NOT " ++ compare "="
  | .contains => i.field ++ text "=*" ++ value ++ text "*"
  | .startsWith => i.field ++ text "=" ++ value ++ text "*"
  | .endsWith => i.field ++ text "=*" ++ value
  | .gt => compare ">"
  | .gte => compare ">="
  | .lt => compare "<"
  | .lte => compare "<="
  | .isIn =>
    let joined := join (text " OR ") ((items i.value).map fun v =>
      i.field ++ text "=" ++ splQuote lib v)
    text "(" ++ joined ++ text ")"

def toSpl (lib : Library F) (index : Text) (q : UnifiedQuery F) : Text :=
  join (text " ")
    ([text "search index=" ++ index ++ text " earliest=-" ++ decimal q.sinceSeconds ++
        text "s latest=now"] ++
      (if q.freeText = [] then [] else [splQuote lib (.str q.freeText)]) ++
      q.indicators.map (indicatorToSpl lib) ++
      [text "| head " ++ decimal q.limit])

def kqlQuote (lib : Library F) : Json F → Text := quote lib

def indicatorToKql (lib : Library F) (i : Indicator F) : Text :=
  let compare (op : String) := i.field ++ text op ++ kqlQuote lib i.value
  match i.operator with
  | .eq => compare " == "
  | .ne => compare " != "
  | .contains => compare " contains "
  | .startsWith => compare " startswith "
  | .endsWith => compare " endswith "
  | .gt => compare " > "
  | .gte => compare " >= "
  | .lt => compare " < "
  | .lte => compare " <= "
  | .isIn =>
    let joined := join (text ", ") ((items i.value).map (kqlQuote lib))
    i.field ++ text " in (" ++ joined ++ text ")"

def toKql (lib : Library F) (table : Text) (q : UnifiedQuery F) : Text :=
  join (text "\n")
    ([table, text "| where TimeGenerated > ago(" ++ decimal q.sinceSeconds ++ text "s)"] ++
      (if q.freeText = [] then []
        else [text "| where * contains " ++ kqlQuote lib (.str q.freeText)]) ++
      q.indicators.map (fun i => text "| where " ++ indicatorToKql lib i) ++
      [text "| take " ++ decimal q.limit])

def esqlQuote (lib : Library F) : Json F → Text := quote lib

def indicatorToEsql (lib : Library F) (i : Indicator F) : Text :=
  let compare (op : String) := i.field ++ text op ++ esqlQuote lib i.value
  let value := lib.str i.value
  match i.operator with
  | .eq => compare " == "
  | .ne => compare " != "
  | .contains => i.field ++ text " LIKE \"%" ++ value ++ text "%\""
  | .startsWith => i.field ++ text " LIKE \"" ++ value ++ text "%\""
  | .endsWith => i.field ++ text " LIKE \"%" ++ value ++ text "\""
  | .gt => compare " > "
  | .gte => compare " >= "
  | .lt => compare " < "
  | .lte => compare " <= "
  | .isIn =>
    let joined := join (text ", ") ((items i.value).map (esqlQuote lib))
    i.field ++ text " IN (" ++ joined ++ text ")"

def toEsql (lib : Library F) (index : Text) (q : UnifiedQuery F) : Text :=
  join (text "\n")
    ([text "FROM " ++ index,
        text "| WHERE @timestamp > NOW() - " ++ decimal q.sinceSeconds ++ text " seconds"] ++
      (if q.freeText = [] then []
        else [text "| WHERE message LIKE \"%" ++ q.freeText ++ text "%\""]) ++
      q.indicators.map (fun i => text "| WHERE " ++ indicatorToEsql lib i) ++
      [text "| LIMIT " ++ decimal q.limit])

/-! ## The stages that are meant -/

/-- How the backends read string literals; one of them also has literals in apostrophes. -/
def splQuoting : Quoting CodePoint := ⟨cp '|', cp '\\', [cp '"']⟩

def kqlQuoting : Quoting CodePoint := ⟨cp '|', cp '\\', [cp '"', cp '\'']⟩

def esqlQuoting : Quoting CodePoint := splQuoting

/-- The text of a value that is a number or a boolean. -/
def scalarText (lib : Library F) : Json F → Option Text
  | .bool true => some (text "true")
  | .bool false => some (text "false")
  | .int n => some (decimal n)
  | .float x => some (lib.floatText x)
  | _ => none

def code (s : String) : Piece CodePoint := .plain (text s)

def literal (raw : Text) : Piece CodePoint := .literal (cp '"') raw

/-- Numbers and booleans stand for themselves, everything else is in a literal. -/
def valuePart (lib : Library F) (v : Json F) : Piece CodePoint :=
  match scalarText lib v with
  | some t => .plain t
  | none => literal (escape (lib.str v))

def valueParts (lib : Library F) (separator : String) (vs : List (Json F)) :
    List (Piece CodePoint) :=
  [code separator].intercalate (vs.map fun v => [valuePart lib v])

/-- What an operator has before and after the value in its pattern. -/
def wildcards (wildcard : String) : Operator → Option (Text × Text)
  | .contains => some (text wildcard, text wildcard)
  | .startsWith => some ([], text wildcard)
  | .endsWith => some (text wildcard, [])
  | _ => none

def pattern (lib : Library F) (around : Text × Text) (v : Json F) : Text :=
  around.1 ++ lib.str v ++ around.2

/-- Around a number or a boolean the wildcards need no literal. -/
def patternPart (lib : Library F) (around : Text × Text) (v : Json F) : Piece CodePoint :=
  match scalarText lib v with
  | some _ => .plain (pattern lib around v)
  | none => literal (pattern lib around v)

def splParts (lib : Library F) (i : Indicator F) : List (Piece CodePoint) :=
  let compare (op : String) := [.name i.field, code op, valuePart lib i.value]
  let matching (around : Text × Text) :=
    [.name i.field, code "=", patternPart lib around i.value]
  match i.operator with
  | .eq => compare "="
  | .ne => code "NOT " :: compare "="
  | .contains => matching (text "*", text "*")
  | .startsWith => matching ([], text "*")
  | .endsWith => matching (text "*", [])
  | .gt => compare ">"
  | .gte => compare ">="
  | .lt => compare "<"
  | .lte => compare "<="
  | .isIn =>
    let alternatives := (items i.value).map fun v => [.name i.field, code "=", valuePart lib v]
    code "(" :: [code " OR "].intercalate alternatives ++ [code ")"]

/-- The filters belong to the stage of the source. -/
def splStages (lib : Library F) (index : Text) (q : UnifiedQuery F) :
    List (List (Piece CodePoint)) :=
  [[code "search index=", .name index, code " earliest=-", .plain (decimal q.sinceSeconds),
      code "s latest=now"] ++
    (if q.freeText = [] then [] else [code " ", valuePart lib (.str q.freeText)]) ++
    q.indicators.flatMap (fun i => code " " :: splParts lib i) ++ [code " "],
    [code " head ", .plain (decimal q.limit)]]

def kqlParts (lib : Library F) (i : Indicator F) : List (Piece CodePoint) :=
  let compare (op : String) := [.name i.field, code op, valuePart lib i.value]
  match i.operator with
  | .eq => compare " == "
  | .ne => compare " != "
  | .contains => compare " contains "
  | .startsWith => compare " startswith "
  | .endsWith => compare " endswith "
  | .gt => compare " > "
  | .gte => compare " >= "
  | .lt => compare " < "
  | .lte => compare " <= "
  | .isIn => .name i.field :: code " in (" :: valueParts lib ", " (items i.value) ++ [code ")"]

def kqlStages (lib : Library F) (table : Text) (q : UnifiedQuery F) :
    List (List (Piece CodePoint)) :=
  [[.name table, code "\n"],
    [code " where TimeGenerated > ago(", .plain (decimal q.sinceSeconds), code "s)\n"]] ++
  (if q.freeText = [] then []
    else [[code " where * contains ", valuePart lib (.str q.freeText), code "\n"]]) ++
  q.indicators.map (fun i => code " where " :: kqlParts lib i ++ [code "\n"]) ++
  [[code " take ", .plain (decimal q.limit)]]

def esqlParts (lib : Library F) (i : Indicator F) : List (Piece CodePoint) :=
  let compare (op : String) := [.name i.field, code op, valuePart lib i.value]
  let matching (around : Text × Text) :=
    [.name i.field, code " LIKE ", literal (pattern lib around i.value)]
  match i.operator with
  | .eq => compare " == "
  | .ne => compare " != "
  | .contains => matching (text "%", text "%")
  | .startsWith => matching ([], text "%")
  | .endsWith => matching (text "%", [])
  | .gt => compare " > "
  | .gte => compare " >= "
  | .lt => compare " < "
  | .lte => compare " <= "
  | .isIn => .name i.field :: code " IN (" :: valueParts lib ", " (items i.value) ++ [code ")"]

def esqlStages (lib : Library F) (index : Text) (q : UnifiedQuery F) :
    List (List (Piece CodePoint)) :=
  [[code "FROM ", .name index, code "\n"],
    [code " WHERE @timestamp > NOW() - ", .plain (decimal q.sinceSeconds), code " seconds\n"]] ++
  (if q.freeText = [] then []
    else [[code " WHERE message LIKE ",
      literal (pattern lib (text "%", text "%") (.str q.freeText)), code "\n"]]) ++
  q.indicators.map (fun i => code " WHERE " :: esqlParts lib i ++ [code "\n"]) ++
  [[code " LIMIT ", .plain (decimal q.limit)]]

/-! ## Which pieces fit -/

variable {lib : Library F} {q : Quoting CodePoint} {t : Text} {v : Json F} {i : Indicator F}

/-- Pipes, backslashes and quotes mean what they mean to the backends. -/
structure Backend (q : Quoting CodePoint) : Prop where
  separator : q.separator = cp '|'
  escape : q.escape = cp '\\'
  quote : cp '"' ∈ q.delimiters
  delimiters : q.delimiters ⊆ [cp '"', cp '\'']

theorem backend_spl : Backend splQuoting := ⟨rfl, rfl, by decide, by decide⟩

theorem backend_kql : Backend kqlQuoting := ⟨rfl, rfl, by decide, by decide⟩

/-- The one with the most delimiters has the fewest plain characters. -/
theorem Backend.isPlain (hq : Backend q) {c : CodePoint} (h : isPlain kqlQuoting c = true) :
    isPlain q c = true := by
  rw [LiteralScan.isPlain, decide_eq_true_eq] at h ⊢
  exact ⟨hq.separator ▸ h.1, fun hc => h.2 (hq.delimiters hc)⟩

theorem Backend.plain (hq : Backend q) (h : t.all (LiteralScan.isPlain kqlQuoting) = true) :
    (Piece.plain t).Fits q := by
  rw [List.all_eq_true] at h
  exact List.all_eq_true.mpr fun c hc => hq.isPlain (h c hc)

theorem plain_digits (n : ℕ) : (digits n).all (isPlain kqlQuoting) = true := by
  rw [List.all_eq_true]
  intro c hc
  have hdigit := JsonRoundTrip.isDigit_of_mem_digits hc
  rw [isPlain, decide_eq_true_eq]
  constructor
  · rintro rfl
    exact absurd hdigit (by decide)
  · intro hmem
    rcases List.mem_pair.mp hmem with rfl | rfl
    · exact absurd hdigit (by decide)
    · exact absurd hdigit (by decide)

theorem plain_decimal (n : ℤ) : (decimal n).all (isPlain kqlQuoting) = true := by
  rw [decimal]
  split_ifs
  · rw [List.all_cons, plain_digits]
    decide
  · exact plain_digits _

theorem plain_floatText (x : F) : (lib.floatText x).all (isPlain kqlQuoting) = true := by
  have hall : (text "0123456789+-.einfa").all (isPlain kqlQuoting) = true := by decide
  rw [List.all_eq_true] at hall ⊢
  exact fun c hc => hall c (lib.floatText_subset x hc)

theorem plain_scalarText (h : scalarText lib v = some t) :
    t.all (isPlain kqlQuoting) = true := by
  match v with
  | .bool true => exact Option.some.inj h ▸ by decide
  | .bool false => exact Option.some.inj h ▸ by decide
  | .int n => exact Option.some.inj h ▸ plain_decimal n
  | .float x => exact Option.some.inj h ▸ plain_floatText x
  | .null | .str _ | .arr _ | .obj _ => cases h

/-- The text of a number or a boolean, as a pattern has it. -/
theorem plain_str (h : (scalarText lib v).isSome = true) :
    (lib.str v).all (isPlain kqlQuoting) = true := by
  match v with
  | .bool true => exact (by decide : (text "True").all (isPlain kqlQuoting) = true)
  | .bool false => exact (by decide : (text "False").all (isPlain kqlQuoting) = true)
  | .int n => exact plain_decimal n
  | .float x => exact plain_floatText x
  | .null | .str _ | .arr _ | .obj _ => cases h

theorem replaceChar_cons (c d : CodePoint) (by' t : Text) :
    replaceChar c by' (d :: t) = (if d = c then by' else [d]) ++ replaceChar c by' t := rfl

theorem replaceChar_append (c : CodePoint) (by' s t : Text) :
    replaceChar c by' (s ++ t) = replaceChar c by' s ++ replaceChar c by' t :=
  List.flatMap_append

theorem escape_cons (c : CodePoint) (t : Text) : escape (c :: t) =
    (if c = cp '\\' then text "\\\\" else if c = cp '"' then text "\\\"" else [c]) ++ escape t := by
  have hbackslash : replaceChar (cp '"') (text "\\\"") (text "\\\\") = text "\\\\" := by
    decide
  rw [escape, replaceChar_cons, replaceChar_append]
  split_ifs with hc hquote
  · rw [hbackslash]
    rfl
  · rw [replaceChar_cons, if_pos hquote]
    rfl
  · rw [replaceChar_cons, if_neg hquote]
    rfl

/-- An escaped text stays within its literal. -/
theorem closed_escape (hq : Backend q) (t : Text) : closed q (cp '"') (escape t) = true := by
  have hescaped : ∀ c u, closed q (cp '"') (cp '\\' :: c :: u) = closed q (cp '"') u := by
    intro c u
    rw [closed, LiteralScan.closedFrom, hq.escape, decide_eq_true (rfl : cp '\\' = cp '\\')]
    exact Bool.true_and _
  induction t with
  | nil => rfl
  | cons c t ih =>
    rw [escape_cons]
    split_ifs with hc hquote
    · exact (hescaped _ _).trans ih
    · exact (hescaped _ _).trans ih
    · have hnot : c ≠ q.escape := hq.escape ▸ hc
      rw [List.singleton_append, closed, LiteralScan.closedFrom, decide_eq_true hquote,
        decide_eq_false hnot, Bool.true_and]
      exact ih

theorem fits_literal (hq : Backend q) {raw : Text} :
    (literal raw).Fits q ↔ closed q (cp '"') raw = true := by
  have hne : cp '"' ≠ q.separator := hq.separator ▸ by decide
  exact and_iff_right ⟨hne, hq.quote⟩

theorem fits_valuePart (hq : Backend q) (v : Json F) : (valuePart lib v).Fits q := by
  rw [valuePart]
  cases h : scalarText lib v with
  | none => exact (fits_literal hq).mpr (closed_escape hq _)
  | some t => exact hq.plain (plain_scalarText h)

theorem fits_decimal (hq : Backend q) (n : ℤ) : (Piece.plain (decimal n)).Fits q :=
  hq.plain (plain_decimal n)

/-- All the pieces fit. -/
def AllFit (q : Quoting CodePoint) (parts : List (Piece CodePoint)) : Prop :=
  ∀ part ∈ parts, part.Fits q

@[simp] theorem allFit_nil : AllFit q [] := fun _ h => absurd h List.not_mem_nil

@[simp] theorem allFit_cons {part : Piece CodePoint} {parts : List (Piece CodePoint)} :
    AllFit q (part :: parts) ↔ part.Fits q ∧ AllFit q parts := List.forall_mem_cons

@[simp] theorem allFit_append {parts more : List (Piece CodePoint)} :
    AllFit q (parts ++ more) ↔ AllFit q parts ∧ AllFit q more := List.forall_mem_append

@[simp] theorem fits_name : (Piece.name t).Fits q ↔ contained q t = true := Iff.rfl

theorem allFit_intercalate {part : Piece CodePoint} {groups : List (List (Piece CodePoint))}
    (hpart : part.Fits q) :
    AllFit q ([part].intercalate groups) ↔ ∀ group ∈ groups, AllFit q group := by
  constructor
  · intro h group hgroup p hp
    exact h p ((LiteralScan.mem_intercalate part).2 group hgroup hp)
  · intro h p hp
    rcases (LiteralScan.mem_intercalate part).1 hp with rfl | ⟨group, hgroup, hin⟩
    · exact hpart
    · exact h group hgroup p hin

theorem allFit_valueParts (lib : Library F) (hq : Backend q) (separator : String)
    (vs : List (Json F)) (hseparator : (text separator).all (isPlain kqlQuoting) = true) :
    AllFit q (valueParts lib separator vs) := by
  refine (allFit_intercalate (hq.plain hseparator)).mpr ?_
  intro group hgroup
  obtain ⟨v, -, rfl⟩ := List.mem_map.mp hgroup
  exact allFit_cons.mpr ⟨fits_valuePart hq v, allFit_nil⟩

theorem allFit_compare (hq : Backend q) {op : String}
    (hop : (text op).all (isPlain kqlQuoting) = true) :
    AllFit q [.name t, code op, valuePart lib v] ↔ contained q t = true := by
  rw [allFit_cons, allFit_cons, allFit_cons]
  exact and_iff_left ⟨hq.plain hop, fits_valuePart hq v, allFit_nil⟩

theorem allFit_oneOf (hq : Backend q) {op : String} {vs : List (Json F)}
    (hop : (text op).all (isPlain kqlQuoting) = true) :
    AllFit q (.name t :: code op :: valueParts lib ", " vs ++ [code ")"]) ↔
      contained q t = true := by
  rw [List.cons_append, List.cons_append, allFit_cons, allFit_cons, allFit_append]
  have hvalues := allFit_valueParts lib hq ", " vs (by decide)
  have hend : AllFit q [code ")"] := allFit_cons.mpr ⟨hq.plain (by decide), allFit_nil⟩
  exact and_iff_left ⟨hq.plain hop, hvalues, hend⟩

theorem allFit_kqlParts (hq : Backend q) (i : Indicator F) :
    AllFit q (kqlParts lib i) ↔ contained q i.field = true := by
  rw [kqlParts]
  cases i.operator with
  | isIn => exact allFit_oneOf hq (by decide)
  | eq | ne | contains | startsWith | endsWith | gt | gte | lt | lte =>
    exact allFit_compare hq (by decide)

/-- Each pattern stays within its literal. -/
def ClosedPattern (lib : Library F) (i : Indicator F) : Prop :=
  ∀ around ∈ wildcards "%" i.operator,
    closed esqlQuoting (cp '"') (pattern lib around i.value) = true

theorem allFit_matching (hq : Backend q) {around : Text × Text} :
    AllFit q [.name t, code " LIKE ", literal (pattern lib around v)] ↔
      contained q t = true ∧ closed q (cp '"') (pattern lib around v) = true := by
  rw [allFit_cons, allFit_cons, allFit_cons, fits_literal hq]
  refine and_congr_right fun _ => ?_
  exact (and_iff_right (hq.plain (by decide))).trans (and_iff_left allFit_nil)

theorem allFit_esqlParts (i : Indicator F) : AllFit esqlQuoting (esqlParts lib i) ↔
    contained esqlQuoting i.field = true ∧ ClosedPattern lib i := by
  have hq : Backend esqlQuoting := backend_spl
  rw [esqlParts, ClosedPattern]
  have hnone : ∀ {P : Text × Text → Prop}, ∀ around ∈ (none : Option (Text × Text)), P around :=
    fun _ h => absurd h (by simp)
  cases i.operator with
  | isIn => exact (allFit_oneOf hq (by decide)).trans (and_iff_left hnone).symm
  | eq | ne | gt | gte | lt | lte =>
    exact (allFit_compare hq (by decide)).trans (and_iff_left hnone).symm
  | contains | startsWith | endsWith =>
    refine (allFit_matching hq).trans (and_congr_right fun _ => ?_)
    simp [wildcards]

/-- Patterns are only made of numbers and booleans. -/
def ScalarPattern (lib : Library F) (i : Indicator F) : Prop :=
  (wildcards "*" i.operator).isSome = true → (scalarText lib i.value).isSome = true

theorem allFit_patternPart (hq : Backend q) (h : (scalarText lib v).isSome = true)
    {around : Text × Text} (hbefore : around.1.all (isPlain kqlQuoting) = true)
    (hafter : around.2.all (isPlain kqlQuoting) = true) :
    AllFit q [.name t, code "=", patternPart lib around v] ↔ contained q t = true := by
  have hpattern : (patternPart lib around v).Fits q := by
    obtain ⟨s, hs⟩ := Option.isSome_iff_exists.mp h
    rw [patternPart, hs]
    apply hq.plain
    rw [pattern, List.all_append, List.all_append, hbefore, plain_str h, hafter]
    rfl
  rw [allFit_cons, allFit_cons, allFit_cons]
  exact and_iff_left ⟨hq.plain (by decide), hpattern, allFit_nil⟩

theorem items_ne_nil (h : i.operator = .isIn) : items i.value ≠ [] := by
  obtain ⟨vs, hvalue, hne⟩ := i.listed h
  rw [hvalue]
  exact hne

theorem allFit_splParts (h : ScalarPattern lib i) :
    AllFit splQuoting (splParts lib i) ↔ contained splQuoting i.field = true := by
  have hq := backend_spl
  rw [splParts]
  cases hop : i.operator with
  | eq | gt | gte | lt | lte => exact allFit_compare hq (by decide)
  | ne =>
    rw [allFit_cons, allFit_compare hq (by decide)]
    exact and_iff_right (hq.plain (by decide))
  | contains | startsWith | endsWith =>
    have hscalar := h (by rw [hop]; rfl)
    exact allFit_patternPart hq hscalar (by decide) (by decide)
  | isIn =>
    have hor : (code " OR ").Fits splQuoting := hq.plain (by decide)
    have hopen : (code "(").Fits splQuoting := hq.plain (by decide)
    have hclose : AllFit splQuoting [code ")"] :=
      allFit_cons.mpr ⟨hq.plain (by decide), allFit_nil⟩
    rw [List.cons_append, allFit_cons, allFit_append, allFit_intercalate hor, List.forall_mem_map]
    refine (and_iff_right hopen).trans ((and_iff_left hclose).trans ?_)
    have hcompare : ∀ v ∈ items i.value,
        AllFit splQuoting [.name i.field, code "=", valuePart lib v] ↔
          contained splQuoting i.field = true :=
      fun v _ => allFit_compare hq (by decide)
    rw [forall₂_congr hcompare]
    obtain ⟨v, hv⟩ := List.exists_mem_of_ne_nil _ (items_ne_nil hop)
    exact ⟨fun hall => hall v hv, fun hfield _ _ => hfield⟩

/-! ## What the pieces say -/

@[simp] theorem textOf_nil : textOf ([] : List (Piece CodePoint)) = [] := rfl

@[simp] theorem textOf_cons (part : Piece CodePoint) (parts : List (Piece CodePoint)) :
    textOf (part :: parts) = part.text ++ textOf parts := rfl

@[simp] theorem textOf_append (parts more : List (Piece CodePoint)) :
    textOf (parts ++ more) = textOf parts ++ textOf more := List.flatMap_append

theorem textOf_intercalate (separator : List (Piece CodePoint))
    (groups : List (List (Piece CodePoint))) :
    textOf (separator.intercalate groups) = (textOf separator).intercalate (groups.map textOf) :=
  LiteralScan.flatMap_intercalate Piece.text separator groups

@[simp] theorem text_code (s : String) : (code s).text = text s := rfl

@[simp] theorem text_name (t : Text) : (Piece.name t : Piece CodePoint).text = t := rfl

@[simp] theorem text_plain (t : Text) : (Piece.plain t : Piece CodePoint).text = t := rfl

@[simp] theorem text_valuePart (lib : Library F) (v : Json F) :
    (valuePart lib v).text = quote lib v := by
  match v with
  | .bool true | .bool false | .int _ | .float _ => rfl
  | .null | .str _ | .arr _ | .obj _ => rfl

theorem textOf_valueParts (separator : String) (vs : List (Json F)) :
    textOf (valueParts lib separator vs) = join (text separator) (vs.map (quote lib)) := by
  rw [valueParts, textOf_intercalate, List.map_map, join]
  simp [Function.comp_def]

theorem textOf_kqlParts (i : Indicator F) : textOf (kqlParts lib i) = indicatorToKql lib i := by
  rw [kqlParts, indicatorToKql]
  cases i.operator with
  | isIn => simp [textOf_valueParts, kqlQuote]
  | eq | ne | contains | startsWith | endsWith | gt | gte | lt | lte => simp [kqlQuote]

theorem text_literal (raw : Text) : (literal raw).text = text "\"" ++ raw ++ text "\"" := rfl

theorem textOf_esqlParts (i : Indicator F) : textOf (esqlParts lib i) = indicatorToEsql lib i := by
  have hopen : text " LIKE \"" = text " LIKE " ++ text "\"" := by decide
  have hopenAny : text " LIKE \"%" = text " LIKE " ++ (text "\"" ++ text "%") := by
    decide
  have hcloseAny : text "%\"" = text "%" ++ text "\"" := by decide
  rw [esqlParts, indicatorToEsql]
  cases i.operator with
  | isIn => simp [textOf_valueParts, esqlQuote]
  | eq | ne | gt | gte | lt | lte => simp [esqlQuote]
  | contains | startsWith | endsWith =>
    simp [text_literal, pattern, hopen, hopenAny, hcloseAny]

/-- A line that starts with the separator of stages ends the stage before it. -/
theorem intercalate_lines (c : CodePoint) (newline first last : Text) (rest : List Text) :
    [c].intercalate ((first ++ newline) :: rest.map (· ++ newline) ++ [last]) =
      join newline (first :: rest.map (c :: ·) ++ [c :: last]) := by
  have hrest : newline ++ (rest.map (· ++ newline) ++ [last]).flatMap ([c] ++ ·) =
      (rest.map (c :: ·) ++ [c :: last]).flatMap (newline ++ ·) := by
    induction rest with
    | nil => simp
    | cons t rest ih =>
      simp only [List.map_cons, List.cons_append, List.flatMap_cons, ← ih, List.append_assoc,
        List.nil_append]
  rw [join, List.cons_append, List.cons_append, LiteralScan.intercalate_cons,
    LiteralScan.intercalate_cons, ← hrest, List.append_assoc]

theorem text_kqlStages (lib : Library F) (table : Text) (query : UnifiedQuery F) :
    [cp '|'].intercalate ((kqlStages lib table query).map textOf) = toKql lib table query := by
  have hsince : text "s)\n" = text "s)" ++ text "\n" := by decide
  have hwindow : text "| where TimeGenerated > ago(" =
      cp '|' :: text " where TimeGenerated > ago(" := by decide
  have hfree : text "| where * contains " = cp '|' :: text " where * contains " := by
    decide
  have hwhere : text "| where " = cp '|' :: text " where " := by decide
  have htake : text "| take " = cp '|' :: text " take " := by decide
  have hlines := intercalate_lines (cp '|') (text "\n") table
    (text " take " ++ decimal query.limit)
    ((text " where TimeGenerated > ago(" ++ decimal query.sinceSeconds ++ text "s)") ::
      (if query.freeText = [] then []
        else [text " where * contains " ++ kqlQuote lib (.str query.freeText)]) ++
      query.indicators.map fun i => text " where " ++ indicatorToKql lib i)
  rw [toKql, hwindow, hfree, hwhere, htake]
  by_cases hempty : query.freeText = []
  · simp only [if_pos hempty] at hlines ⊢
    simpa [kqlStages, hempty, hsince, textOf_kqlParts, Function.comp_def] using hlines
  · simp only [if_neg hempty] at hlines ⊢
    simpa [kqlStages, hempty, hsince, textOf_kqlParts, Function.comp_def, kqlQuote] using hlines

theorem text_esqlStages (lib : Library F) (index : Text) (query : UnifiedQuery F) :
    [cp '|'].intercalate ((esqlStages lib index query).map textOf) = toEsql lib index query := by
  have hseconds : text " seconds\n" = text " seconds" ++ text "\n" := by decide
  have hwindow : text "| WHERE @timestamp > NOW() - " =
      cp '|' :: text " WHERE @timestamp > NOW() - " := by decide
  have hfree : text "| WHERE message LIKE \"%" =
      cp '|' :: (text " WHERE message LIKE " ++ (text "\"" ++ text "%")) := by decide
  have hclose : text "%\"" = text "%" ++ text "\"" := by decide
  have hwhere : text "| WHERE " = cp '|' :: text " WHERE " := by decide
  have hlimit : text "| LIMIT " = cp '|' :: text " LIMIT " := by decide
  have hlines := intercalate_lines (cp '|') (text "\n") (text "FROM " ++ index)
    (text " LIMIT " ++ decimal query.limit)
    ((text " WHERE @timestamp > NOW() - " ++ decimal query.sinceSeconds ++ text " seconds") ::
      (if query.freeText = [] then []
        else [text " WHERE message LIKE " ++
          (literal (pattern lib (text "%", text "%") (.str query.freeText))).text]) ++
      query.indicators.map fun i => text " WHERE " ++ indicatorToEsql lib i)
  rw [toEsql, hwindow, hfree, hwhere, hlimit, hclose]
  by_cases hempty : query.freeText = []
  · simp only [if_pos hempty] at hlines ⊢
    simpa [esqlStages, hempty, hseconds, textOf_esqlParts, Function.comp_def] using hlines
  · simp only [if_neg hempty] at hlines ⊢
    simpa [esqlStages, hempty, hseconds, textOf_esqlParts, Function.comp_def, text_literal,
      pattern, Library.str] using hlines

/-! ## Where the search text differs -/

theorem text_patternPart (h : (scalarText lib v).isSome = true) (around : Text × Text) :
    (patternPart lib around v).text = pattern lib around v := by
  obtain ⟨s, hs⟩ := Option.isSome_iff_exists.mp h
  rw [patternPart, hs]
  rfl

/-- A value that is not a number or a boolean should be in a literal. -/
theorem length_patternPart (h : ¬(scalarText lib v).isSome = true) (around : Text × Text) :
    (pattern lib around v).length < (patternPart lib around v).text.length := by
  rw [Bool.not_eq_true, Option.isSome_eq_false_iff, Option.isNone_iff_eq_none] at h
  have hquote : 0 < (text "\"").length := by decide
  rw [patternPart, h, text_literal, List.length_append, List.length_append]
  omega

theorem textOf_splParts (h : ScalarPattern lib i) :
    textOf (splParts lib i) = indicatorToSpl lib i := by
  have hboth : text "=*" = text "=" ++ text "*" := by decide
  rw [splParts, indicatorToSpl]
  cases hop : i.operator with
  | eq | ne | gt | gte | lt | lte => simp [splQuote]
  | isIn =>
    simp [textOf_intercalate, splQuote, join, Function.comp_def]
  | contains | startsWith | endsWith =>
    have hscalar := h (by rw [hop]; rfl)
    simp [text_patternPart hscalar, pattern, hboth]

theorem length_splParts (h : ¬ScalarPattern lib i) :
    (indicatorToSpl lib i).length < (textOf (splParts lib i)).length := by
  have hboth : text "=*" = text "=" ++ text "*" := by decide
  rw [ScalarPattern, Classical.not_imp] at h
  obtain ⟨hwildcards, hscalar⟩ := h
  have hlonger : ∀ around, (pattern lib around i.value).length <
      (patternPart lib around i.value).text.length := length_patternPart hscalar
  rw [splParts, indicatorToSpl]
  cases hop : i.operator with
  | eq | ne | gt | gte | lt | lte | isIn =>
    rw [hop] at hwildcards
    cases hwildcards
  | contains =>
    have hpattern := hlonger (text "*", text "*")
    simp [pattern, hboth] at hpattern ⊢
    omega
  | startsWith =>
    have hpattern := hlonger ([], text "*")
    simp [pattern] at hpattern ⊢
    omega
  | endsWith =>
    have hpattern := hlonger (text "*", [])
    simp [pattern, hboth] at hpattern ⊢
    omega

theorem length_splParts_le (lib : Library F) (i : Indicator F) :
    (indicatorToSpl lib i).length ≤ (textOf (splParts lib i)).length := by
  by_cases h : ScalarPattern lib i
  · exact Nat.le_of_eq (congrArg List.length (textOf_splParts h).symm)
  · exact Nat.le_of_lt (length_splParts h)

theorem length_filters_le (lib : Library F) (separator : Text) (indicators : List (Indicator F)) :
    (indicators.flatMap fun i => separator ++ indicatorToSpl lib i).length ≤
      (indicators.flatMap fun i => separator ++ textOf (splParts lib i)).length := by
  induction indicators with
  | nil => exact Nat.le_refl _
  | cons i indicators ih =>
    have hfirst := length_splParts_le lib i
    simp only [List.flatMap_cons, List.length_append]
    omega

/-- One literal that is missing makes the whole text shorter. -/
theorem filters_eq_iff (separator : Text) (indicators : List (Indicator F)) :
    (indicators.flatMap fun i => separator ++ textOf (splParts lib i)) =
        (indicators.flatMap fun i => separator ++ indicatorToSpl lib i) ↔
      ∀ i ∈ indicators, ScalarPattern lib i := by
  induction indicators with
  | nil => exact iff_of_true rfl fun _ h => absurd h List.not_mem_nil
  | cons i indicators ih =>
    rw [List.forall_mem_cons, List.flatMap_cons, List.flatMap_cons, List.append_assoc,
      List.append_assoc, List.append_right_inj]
    by_cases h : ScalarPattern lib i
    · rw [textOf_splParts h, List.append_right_inj, ih]
      exact (and_iff_right h).symm
    · refine iff_of_false ?_ fun hall => h hall.1
      intro heq
      have hlonger := length_splParts h
      have hrest := length_filters_le lib separator indicators
      have hlength := congrArg List.length heq
      rw [List.length_append, List.length_append] at hlength
      omega

theorem textOf_flatMap (f : Indicator F → List (Piece CodePoint))
    (indicators : List (Indicator F)) :
    textOf (indicators.flatMap f) = indicators.flatMap fun i => textOf (f i) :=
  List.flatMap_assoc

theorem text_splStages (lib : Library F) (index : Text) (query : UnifiedQuery F) :
    [cp '|'].intercalate ((splStages lib index query).map textOf) = toSpl lib index query ↔
      ∀ i ∈ query.indicators, ScalarPattern lib i := by
  have hhead : text "| head " = cp '|' :: text " head " := by decide
  let source := text "search index=" ++ index ++ text " earliest=-" ++
    decimal query.sinceSeconds ++ text "s latest=now" ++
    (if query.freeText = [] then [] else text " " ++ splQuote lib (.str query.freeText))
  let last := text " " ++ (cp '|' :: (text " head " ++ decimal query.limit))
  have hstages : [cp '|'].intercalate ((splStages lib index query).map textOf) = source ++
      (query.indicators.flatMap fun i => text " " ++ textOf (splParts lib i)) ++ last := by
    by_cases hempty : query.freeText = []
    · simp [splStages, hempty, source, last, textOf_flatMap]
    · simp [splStages, hempty, source, last, textOf_flatMap, splQuote]
  have hspl : toSpl lib index query = source ++
      (query.indicators.flatMap fun i => text " " ++ indicatorToSpl lib i) ++ last := by
    rw [toSpl, join, List.append_assoc, List.append_assoc, List.singleton_append,
      LiteralScan.intercalate_cons, hhead]
    by_cases hempty : query.freeText = []
    · simp [hempty, source, last, List.flatMap_map]
    · simp [hempty, source, last, List.flatMap_map]
  rw [hstages, hspl, List.append_left_inj, List.append_right_inj]
  exact filters_eq_iff (text " ") query.indicators

/-! ## No stage is added -/

/-- Every text is read as its stages. -/
structure Translated (lib : Library F) (splIndex kqlTable esqlIndex : Text)
    (query : UnifiedQuery F) : Prop where
  spl : stages splQuoting (toSpl lib splIndex query) =
    some ((splStages lib splIndex query).map (tokensOf splQuoting))
  kql : stages kqlQuoting (toKql lib kqlTable query) =
    some ((kqlStages lib kqlTable query).map (tokensOf kqlQuoting))
  esql : stages esqlQuoting (toEsql lib esqlIndex query) =
    some ((esqlStages lib esqlIndex query).map (tokensOf esqlQuoting))

/-- Every accepted body is translated as it is meant. -/
def AddsNoStage (lib : Library F) (splIndex kqlTable esqlIndex : Text) (body : Json F) : Prop :=
  ∀ query, parseUnifiedQuery lib body = .ok query →
    Translated lib splIndex kqlTable esqlIndex query

/-- The index and the fields, which are not checked, are names on their own. -/
structure NamesContained (q : Quoting CodePoint) (index : Text) (query : UnifiedQuery F) :
    Prop where
  index : contained q index = true
  fields : ∀ i ∈ query.indicators, contained q i.field = true

structure SplSafe (lib : Library F) (index : Text) (query : UnifiedQuery F) : Prop where
  names : NamesContained splQuoting index query
  patterns : ∀ i ∈ query.indicators, ScalarPattern lib i

structure EsqlSafe (lib : Library F) (index : Text) (query : UnifiedQuery F) : Prop where
  names : NamesContained esqlQuoting index query
  freeText : query.freeText ≠ [] → closed esqlQuoting (cp '"')
    (pattern lib (text "%", text "%") (.str query.freeText)) = true
  patterns : ∀ i ∈ query.indicators, ClosedPattern lib i

theorem allFit_stage (hq : Backend q) {first last : String} {parts : List (Piece CodePoint)}
    (hfirst : (text first).all (LiteralScan.isPlain kqlQuoting) = true)
    (hlast : (text last).all (LiteralScan.isPlain kqlQuoting) = true) :
    AllFit q (code first :: parts ++ [code last]) ↔ AllFit q parts := by
  rw [List.cons_append, allFit_cons, allFit_append, allFit_cons]
  exact (and_iff_right (hq.plain hfirst)).trans (and_iff_left ⟨hq.plain hlast, allFit_nil⟩)

theorem allFit_window (hq : Backend q) {first last : String} (n : ℤ)
    (hfirst : (text first).all (LiteralScan.isPlain kqlQuoting) = true)
    (hlast : (text last).all (LiteralScan.isPlain kqlQuoting) = true) :
    AllFit q [code first, .plain (decimal n), code last] :=
  (allFit_stage hq hfirst hlast).mpr (allFit_cons.mpr ⟨fits_decimal hq n, allFit_nil⟩)

theorem allFit_limit (hq : Backend q) {first : String} (n : ℤ)
    (hfirst : (text first).all (LiteralScan.isPlain kqlQuoting) = true) :
    AllFit q [code first, .plain (decimal n)] :=
  allFit_cons.mpr ⟨hq.plain hfirst, allFit_cons.mpr ⟨fits_decimal hq n, allFit_nil⟩⟩

theorem forall_mem_pair {P : List (Piece CodePoint) → Prop}
    {first second : List (Piece CodePoint)} :
    (∀ stage ∈ [first, second], P stage) ↔ P first ∧ P second := by
  rw [List.forall_mem_cons, List.forall_mem_singleton]

theorem fit_kqlStages (table : Text) (query : UnifiedQuery F) :
    (∀ stage ∈ kqlStages lib table query, AllFit kqlQuoting stage) ↔
      NamesContained kqlQuoting table query := by
  have hq := backend_kql
  have hfilter : ∀ i : Indicator F,
      AllFit kqlQuoting (code " where " :: kqlParts lib i ++ [code "\n"]) ↔
        contained kqlQuoting i.field = true := fun i =>
    (allFit_stage hq (by decide) (by decide)).trans (allFit_kqlParts hq i)
  rw [kqlStages, List.forall_mem_append, List.forall_mem_append, List.forall_mem_append,
    List.forall_mem_map, forall₂_congr fun i _ => hfilter i]
  constructor
  · rintro ⟨⟨⟨hsource, -⟩, hfields⟩, -⟩
    exact ⟨(allFit_cons.mp (hsource _ List.mem_cons_self)).1, hfields⟩
  · rintro ⟨htable, hfields⟩
    refine ⟨⟨⟨?_, ?_⟩, hfields⟩, ?_⟩
    · have hsource : AllFit kqlQuoting [.name table, code "\n"] :=
        allFit_cons.mpr ⟨htable, allFit_cons.mpr ⟨hq.plain (by decide), allFit_nil⟩⟩
      exact forall_mem_pair.mpr
        ⟨hsource, allFit_window hq _ (by decide) (by decide)⟩
    · by_cases hempty : query.freeText = []
      · rw [if_pos hempty]
        exact fun _ h => absurd h List.not_mem_nil
      · rw [if_neg hempty, List.forall_mem_singleton]
        exact (allFit_stage hq (by decide) (by decide)).mpr
          (allFit_cons.mpr ⟨fits_valuePart hq _, allFit_nil⟩)
    · rw [List.forall_mem_singleton]
      exact allFit_limit hq _ (by decide)

theorem fit_esqlStages (index : Text) (query : UnifiedQuery F) :
    (∀ stage ∈ esqlStages lib index query, AllFit esqlQuoting stage) ↔
      EsqlSafe lib index query := by
  have hq : Backend esqlQuoting := backend_spl
  have hfilter : ∀ i : Indicator F,
      AllFit esqlQuoting (code " WHERE " :: esqlParts lib i ++ [code "\n"]) ↔
        contained esqlQuoting i.field = true ∧ ClosedPattern lib i := fun i =>
    (allFit_stage hq (by decide) (by decide)).trans (allFit_esqlParts i)
  have hfree : ∀ raw,
      AllFit esqlQuoting (code " WHERE message LIKE " :: [literal raw] ++ [code "\n"]) ↔
        closed esqlQuoting (cp '"') raw = true := by
    intro raw
    rw [allFit_stage hq (by decide) (by decide), allFit_cons, fits_literal hq]
    exact and_iff_left allFit_nil
  rw [esqlStages, List.forall_mem_append, List.forall_mem_append, List.forall_mem_append,
    List.forall_mem_map, forall₂_congr fun i _ => hfilter i]
  constructor
  · rintro ⟨⟨⟨hsource, hmessage⟩, hfilters⟩, -⟩
    have hindex := (allFit_cons.mp (allFit_cons.mp (hsource _ List.mem_cons_self)).2).1
    refine ⟨⟨hindex, fun i hi => (hfilters i hi).1⟩, ?_, fun i hi => (hfilters i hi).2⟩
    intro hempty
    rw [if_neg hempty, List.forall_mem_singleton] at hmessage
    exact (hfree _).mp hmessage
  · rintro ⟨⟨hindex, hfields⟩, hmessage, hpatterns⟩
    refine ⟨⟨⟨?_, ?_⟩, fun i hi => ⟨hfields i hi, hpatterns i hi⟩⟩, ?_⟩
    · have hsource : AllFit esqlQuoting (code "FROM " :: [.name index] ++ [code "\n"]) := by
        rw [allFit_stage hq (by decide) (by decide)]
        exact allFit_cons.mpr ⟨hindex, allFit_nil⟩
      exact forall_mem_pair.mpr
        ⟨hsource, allFit_window hq _ (by decide) (by decide)⟩
    · by_cases hempty : query.freeText = []
      · rw [if_pos hempty]
        exact fun _ h => absurd h List.not_mem_nil
      · rw [if_neg hempty, List.forall_mem_singleton]
        exact (hfree _).mpr (hmessage hempty)
    · rw [List.forall_mem_singleton]
      exact allFit_limit hq _ (by decide)

theorem fit_splStages (index : Text) {query : UnifiedQuery F}
    (hpatterns : ∀ i ∈ query.indicators, ScalarPattern lib i) :
    (∀ stage ∈ splStages lib index query, AllFit splQuoting stage) ↔
      NamesContained splQuoting index query := by
  have hq := backend_spl
  have hfilter : ∀ i ∈ query.indicators,
      AllFit splQuoting (code " " :: splParts lib i) ↔ contained splQuoting i.field = true := by
    intro i hi
    rw [allFit_cons, allFit_splParts (hpatterns i hi)]
    exact and_iff_right (hq.plain (by decide))
  have hfilters : AllFit splQuoting (query.indicators.flatMap fun i => code " " :: splParts lib i) ↔
      ∀ i ∈ query.indicators, contained splQuoting i.field = true := by
    rw [AllFit, List.forall_mem_flatMap]
    exact forall₂_congr hfilter
  rw [splStages, forall_mem_pair, allFit_append, allFit_append, allFit_append, hfilters]
  constructor
  · rintro ⟨⟨⟨⟨hsource, -⟩, hfields⟩, -⟩, -⟩
    exact ⟨(allFit_cons.mp (allFit_cons.mp hsource).2).1, hfields⟩
  · rintro ⟨hindex, hfields⟩
    refine ⟨⟨⟨⟨?_, ?_⟩, hfields⟩, ?_⟩, ?_⟩
    · have hwindow : AllFit splQuoting [code " earliest=-", .plain (decimal query.sinceSeconds),
          code "s latest=now"] := allFit_window hq _ (by decide) (by decide)
      exact allFit_cons.mpr ⟨hq.plain (by decide), allFit_cons.mpr ⟨hindex, hwindow⟩⟩
    · by_cases hempty : query.freeText = []
      · rw [if_pos hempty]
        exact allFit_nil
      · rw [if_neg hempty, allFit_cons, allFit_cons]
        exact ⟨hq.plain (by decide), fits_valuePart hq _, allFit_nil⟩
    · exact allFit_cons.mpr ⟨hq.plain (by decide), allFit_nil⟩
    · exact allFit_limit hq _ (by decide)

theorem stages_toSpl (index : Text) (query : UnifiedQuery F) :
    stages splQuoting (toSpl lib index query) =
        some ((splStages lib index query).map (tokensOf splQuoting)) ↔
      SplSafe lib index query := by
  refine (stages_tokensOf (by simp [splStages])).trans ?_
  refine (and_congr_left' (text_splStages lib index query)).trans ?_
  constructor
  · rintro ⟨hpatterns, hfit⟩
    exact ⟨(fit_splStages index hpatterns).mp hfit, hpatterns⟩
  · rintro ⟨hnames, hpatterns⟩
    exact ⟨hpatterns, (fit_splStages index hpatterns).mpr hnames⟩

theorem stages_toKql (table : Text) (query : UnifiedQuery F) :
    stages kqlQuoting (toKql lib table query) =
        some ((kqlStages lib table query).map (tokensOf kqlQuoting)) ↔
      NamesContained kqlQuoting table query := by
  refine (stages_tokensOf (by simp [kqlStages])).trans ?_
  exact (and_iff_right (text_kqlStages lib table query)).trans (fit_kqlStages table query)

theorem stages_toEsql (index : Text) (query : UnifiedQuery F) :
    stages esqlQuoting (toEsql lib index query) =
        some ((esqlStages lib index query).map (tokensOf esqlQuoting)) ↔
      EsqlSafe lib index query := by
  refine (stages_tokensOf (by simp [esqlStages])).trans ?_
  exact (and_iff_right (text_esqlStages lib index query)).trans (fit_esqlStages index query)

/-- A library for bodies without floats and containers. -/
def sampleLibrary : Library Unit :=
  ⟨fun _ => [], fun _ => List.nil_subset _, fun _ => [], fun _ => none, fun _ => none,
    fun _ => false⟩

def pipeIndicator : Indicator Unit :=
  ⟨text "user", .contains, .str (text "x | delete"), by decide, nofun,
    fun _ => Bool.false_ne_true⟩

def pipeBody : Json Unit :=
  .obj [(text "indicators", .arr [.obj [(text "field", .str (text "user")),
    (text "operator", .str (text "contains")), (text "value", .str (text "x | delete"))]])]

def pipeQuery : UnifiedQuery Unit :=
  ⟨[], [pipeIndicator], 3600, 100, by decide, by decide, Or.inr (List.cons_ne_nil _ _)⟩

/-- There are three stages, not two. -/
example : (stages splQuoting (toSpl sampleLibrary (text "main") pipeQuery)).map List.length =
    some 3 := by decide

end FederatedTranslators
