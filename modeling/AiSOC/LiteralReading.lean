import AiSOC.JsonRoundTrip
import AiSOC.PlaybookExpression

/-! # Printed literals

What a side of an expression is read as, where it is the text of a literal or of a path. -/
namespace LiteralReading

open CodeText (Text CodePoint cp text strip decimal isSpace)
open PlaybookExpression
open PythonValue (Dict Objects Outcome Value)

/-! ## Literals -/

inductive Quote where
  | single | double
  deriving DecidableEq

def Quote.char : Quote → CodePoint
  | .single => cp '\''
  | .double => cp '"'

/-- Booleans and the null have a spelling with a capital letter too. -/
inductive Literal where
  | str (quote : Quote) (s : Text)
  | int (n : ℤ)
  | float (x : Float)
  | bool (capital b : Bool)
  | null (capital : Bool)
  | list (items : List Literal)

def boolText : Bool → Bool → Text
  | false, true => text "true"
  | true, true => text "True"
  | false, false => text "false"
  | true, false => text "False"

def nullText : Bool → Text
  | false => text "null"
  | true => text "None"

variable {Ω : Type} (lib : Builtins Ω)

mutual

def Literal.print : Literal → Text
  | .str quote s => quote.char :: s ++ [quote.char]
  | .int n => decimal n
  | .float x => lib.floatText x
  | .bool capital b => boolText capital b
  | .null capital => nullText capital
  | .list items => cp '[' :: List.intercalate (text ", ") (printAll items) ++ [cp ']']

def Literal.printAll : List Literal → List Text
  | [] => []
  | l :: ls => l.print :: Literal.printAll ls

end

mutual

def Literal.value : Literal → Value Ω
  | .str _ s => .str s
  | .int n => .int n
  | .float x => .float x
  | .bool _ b => .bool b
  | .null _ => .none
  | .list items => .list (values items)

def Literal.values : List Literal → List (Value Ω)
  | [] => []
  | l :: ls => l.value :: Literal.values ls

end

mutual

/-- The literals that the reader understands: no number without a point but an integer, and no
comma inside an item of a list. -/
def Readable : Literal → Prop
  | .int n => n.natAbs < 10 ^ 4300
  | .float x => cp '.' ∈ lib.floatText x
  | .list items => AllReadable items
  | _ => True

def AllReadable : List Literal → Prop
  | [] => True
  | l :: ls => (cp ',' ∉ l.print lib ∧ Readable l) ∧ AllReadable ls

end

/-! ## Texts without white space around them -/

/-- Neither the first nor the last character is white space. -/
structure Solid (t : Text) : Prop where
  first : ∃ c rest, t = c :: rest ∧ isSpace c = false
  last : ∃ init c, t = init ++ [c] ∧ isSpace c = false

theorem length_values (items : List Literal) :
    (Literal.values items : List (Value Ω)).length = items.length := by
  induction items with
  | nil => rfl
  | cons l ls ih => rw [Literal.values, List.length_cons, ih, List.length_cons]

variable {lib} {t u : Text} {c : CodePoint}

theorem Solid.ne_nil (h : Solid t) : t ≠ [] := by
  obtain ⟨c, rest, rfl, -⟩ := h.first
  exact List.cons_ne_nil c rest

theorem Solid.strip_eq (h : Solid t) : strip t = t := by
  obtain ⟨c, rest, hfirst, hc⟩ := h.first
  obtain ⟨init, d, hlast, hd⟩ := h.last
  have hleft : CodeText.lstrip t = t := by
    rw [CodeText.lstrip, hfirst, List.dropWhile_cons_of_neg (by rw [hc]; exact Bool.false_ne_true)]
  rw [strip, hleft, CodeText.rstrip, hlast,
    List.rdropWhile_concat_neg _ _ _ (by rw [hd]; exact Bool.false_ne_true)]

theorem Solid.strip_cons (h : Solid t) (hc : isSpace c = true) : strip (c :: t) = t := by
  have hleft : CodeText.lstrip (c :: t) = CodeText.lstrip t := by
    rw [CodeText.lstrip, List.dropWhile_cons_of_pos hc]
    rfl
  rw [strip, hleft]
  exact h.strip_eq

theorem Solid.strip_concat (h : Solid t) (hc : isSpace c = true) : strip (t ++ [c]) = t := by
  obtain ⟨d, rest, hfirst, hd⟩ := h.first
  have hleft : CodeText.lstrip (t ++ [c]) = t ++ [c] := by
    rw [CodeText.lstrip, hfirst, List.cons_append,
      List.dropWhile_cons_of_neg (by rw [hd]; exact Bool.false_ne_true)]
  have hright := h.strip_eq
  rw [strip, CodeText.lstrip, hfirst,
    List.dropWhile_cons_of_neg (by rw [hd]; exact Bool.false_ne_true), ← hfirst] at hright
  rw [strip, hleft, CodeText.rstrip, List.rdropWhile_concat_pos _ _ _ hc]
  exact hright

/-- What is left of a text when it is stripped. -/
theorem Solid.of_strip (h : strip u = t) (hne : t ≠ []) : Solid t := by
  constructor
  · obtain ⟨c, rest, rfl⟩ := List.exists_cons_of_ne_nil hne
    exact ⟨c, rest, rfl, CodeText.isSpace_of_strip h⟩
  · refine ⟨t.dropLast, t.getLast hne, (List.dropLast_append_getLast hne).symm, ?_⟩
    subst h
    have hlast := List.rdropWhile_last_not isSpace (CodeText.lstrip u) hne
    rwa [Bool.not_eq_true] at hlast

theorem Solid.append (ht : Solid t) (hu : Solid u) (m : Text) : Solid (t ++ m ++ u) := by
  obtain ⟨c, rest, hfirst, hc⟩ := ht.first
  obtain ⟨init, d, hlast, hd⟩ := hu.last
  refine ⟨⟨c, rest ++ m ++ u, ?_, hc⟩, ⟨t ++ m ++ init, d, ?_, hd⟩⟩
  · rw [hfirst]
    rfl
  · rw [hlast, List.append_assoc (t ++ m)]

theorem Solid.of_all (hne : t ≠ []) (h : ∀ c ∈ t, isSpace c = false) : Solid t := by
  constructor
  · obtain ⟨c, rest, rfl⟩ := List.exists_cons_of_ne_nil hne
    exact ⟨c, rest, rfl, h c List.mem_cons_self⟩
  · refine ⟨t.dropLast, t.getLast hne, (List.dropLast_append_getLast hne).symm, ?_⟩
    exact h _ (List.getLast_mem hne)

theorem Solid.of_text (hne : t ≠ []) (h : t.all (fun c => !isSpace c) = true) : Solid t := by
  refine Solid.of_all hne fun c hc => ?_
  have hc' := List.all_eq_true.mp h c hc
  rwa [Bool.not_eq_true'] at hc'

theorem Solid.of_ends {first last : CodePoint} (hfirst : isSpace first = false)
    (hlast : isSpace last = false) (m : Text) : Solid (first :: m ++ [last]) :=
  ⟨⟨first, m ++ [last], rfl, hfirst⟩, ⟨first :: m, last, rfl, hlast⟩⟩

/-! ## Numerals -/

def isNumeral (c : CodePoint) : Bool := JsonParser.isDigit c || c ∈ text "+-.einfa"

theorem isNumeral_of_digits {n : ℕ} (h : c ∈ CodeText.digits n) : isNumeral c = true := by
  rw [isNumeral, JsonRoundTrip.isDigit_of_mem_digits h, Bool.true_or]

theorem isNumeral_of_decimal {n : ℤ} (h : c ∈ decimal n) : isNumeral c = true := by
  rw [decimal] at h
  split_ifs at h
  · rcases List.mem_cons.mp h with rfl | hdigits
    · decide
    · exact isNumeral_of_digits hdigits
  · exact isNumeral_of_digits h

theorem isNumeral_of_floatText {x : Float} (h : c ∈ lib.floatText x) : isNumeral c = true := by
  have hall : (text "0123456789+-.einfa").all isNumeral = true := by decide
  exact List.all_eq_true.mp hall c (lib.floatText_subset x h)

theorem isSpace_of_isNumeral (h : isNumeral c = true) : isSpace c = false := by
  rw [isNumeral, Bool.or_eq_true] at h
  rcases h with hdigit | hmem
  · simp only [JsonParser.isDigit, CodeText.between, decide_eq_true_eq] at hdigit
    have hzero : '0'.toNat = 48 := rfl
    have hnine : '9'.toNat = 57 := rfl
    rw [Bool.eq_false_iff, Ne, isSpace, decide_eq_true_eq]
    omega
  · have hall : (text "+-.einfa").all (fun c => !isSpace c) = true := by decide
    have hc := List.all_eq_true.mp hall c (of_decide_eq_true hmem)
    rwa [Bool.not_eq_true'] at hc

theorem decimal_ne_nil (n : ℤ) : decimal n ≠ [] := by
  rw [decimal]
  split_ifs
  · exact List.cons_ne_nil _ _
  · exact JsonRoundTrip.digits_ne_nil _

theorem point_notMem_decimal (n : ℤ) : cp '.' ∉ decimal n := by
  rw [decimal]
  split_ifs
  · rw [List.mem_cons, not_or]
    exact ⟨by decide, fun h => absurd (JsonRoundTrip.isDigit_of_mem_digits h) (by decide)⟩
  · exact fun h => absurd (JsonRoundTrip.isDigit_of_mem_digits h) (by decide)

/-! ## Reading a literal -/

variable {context : Dict Ω}

/-- The items are read one by one. -/
theorem parseLiteral_eq (side : Text) : parseLiteral lib context side =
    if strip side = [] then .none
    else if strip side ∈ [text "null", text "None"] then .none
    else if strip side ∈ [text "true", text "True"] then .bool true
    else if strip side ∈ [text "false", text "False"] then .bool false
    else if isQuoted (strip side) then .str (inner (strip side))
    else if isBracketed (strip side) then
      if strip (inner (strip side)) = [] then .list []
      else .list (((strip (inner (strip side))).splitOn (cp ',')).map (parseLiteral lib context))
    else (parseNumber lib (strip side)).getD (resolveField lib context (strip side)) := by
  rw [parseLiteral]
  simp only [dite_eq_ite, List.map_attach_eq_pmap, List.pmap_eq_map]

theorem parseLiteral_congr (h : strip t = strip u) :
    parseLiteral lib context t = parseLiteral lib context u := by
  rw [parseLiteral_eq, parseLiteral_eq, h]

def keywords : List Text :=
  [text "null", text "None", text "true", text "True", text "false", text "False"]

/-- Nothing but a number or a path. -/
structure IsWord (t : Text) : Prop where
  notKeyword : t ∉ keywords
  notQuoted : isQuoted t = false
  notBracketed : isBracketed t = false

theorem parseLiteral_token (hsolid : Solid t) (h : t ∉ keywords) :
    parseLiteral lib context t =
      if isQuoted t then .str (inner t)
      else if isBracketed t then
        if strip (inner t) = [] then .list []
        else .list (((strip (inner t)).splitOn (cp ',')).map (parseLiteral lib context))
      else (parseNumber lib t).getD (resolveField lib context t) := by
  simp only [keywords, List.mem_cons, not_or] at h
  rw [parseLiteral_eq, hsolid.strip_eq, if_neg hsolid.ne_nil, if_neg (by simp [h]),
    if_neg (by simp [h]), if_neg (by simp [h])]

theorem parseLiteral_word (hsolid : Solid t) (h : IsWord t) :
    parseLiteral lib context t = (parseNumber lib t).getD (resolveField lib context t) := by
  rw [parseLiteral_token hsolid h.notKeyword, h.notQuoted, h.notBracketed]
  rfl

/-- No keyword begins with a quote or a bracket. -/
theorem notMem_keywords (h : c ∈ text "'\"[") : c :: t ∉ keywords := by
  intro hmem
  have hall : keywords.all (fun k => (text "'\"[").all fun d => k.head? ≠ some d) = true := by
    decide
  have hhead := List.all_eq_true.mp (List.all_eq_true.mp hall _ hmem) c h
  exact of_decide_eq_true hhead rfl

theorem isWord_numeral (h : ∀ c ∈ t, isNumeral c = true) : IsWord t := by
  have hall : t.all isNumeral = true := List.all_eq_true.mpr h
  have hhead (c : CodePoint) (hc : isNumeral c = false) : t.head? ≠ some c := by
    intro hhead
    rw [h c (List.mem_of_head? hhead)] at hc
    cases hc
  constructor
  · intro hmem
    have hnone : keywords.all (fun k => !k.all isNumeral) = true := by decide
    have hnot := List.all_eq_true.mp hnone t hmem
    rw [hall] at hnot
    cases hnot
  · rw [isQuoted, decide_eq_false_iff_not]
    rintro ⟨-, -, hquote | hquote⟩
    · exact hhead _ (by decide) hquote
    · exact hhead _ (by decide) hquote
  · rw [isBracketed, decide_eq_false_iff_not]
    rintro ⟨⟨rest, rfl⟩, -⟩
    exact hhead (cp '[') (by decide) rfl

theorem isQuoted_quote (quote : Quote) (s : Text) :
    isQuoted (quote.char :: s ++ [quote.char]) = true := by
  rw [isQuoted, decide_eq_true_eq, List.length_append, List.length_cons]
  refine ⟨by rw [List.length_singleton]; omega, ?_, ?_⟩
  · rw [List.getLast?_concat]
    rfl
  · cases quote
    · exact Or.inl rfl
    · exact Or.inr rfl

theorem inner_ends (a b : CodePoint) (s : Text) : inner (a :: s ++ [b]) = s := List.dropLast_concat

/-! ## Reading back -/

theorem isSpace_quote (quote : Quote) : isSpace quote.char = false := by
  cases quote <;> decide

/-- What a literal prints has no white space around it. -/
theorem solid_print (l : Literal) : Solid (l.print lib) := by
  cases l with
  | str quote s => exact Solid.of_ends (isSpace_quote quote) (isSpace_quote quote) s
  | int n =>
    exact Solid.of_all (decimal_ne_nil n) fun c hc => isSpace_of_isNumeral (isNumeral_of_decimal hc)
  | float x =>
    exact Solid.of_all (lib.floatText_ne_nil x) fun c hc =>
      isSpace_of_isNumeral (isNumeral_of_floatText hc)
  | bool capital b =>
    change Solid (boolText capital b)
    cases capital <;> cases b <;> exact Solid.of_text (by decide) (by decide)
  | null capital =>
    change Solid (nullText capital)
    cases capital <;> exact Solid.of_text (by decide) (by decide)
  | list items => exact Solid.of_ends (by decide) (by decide) _

theorem Solid.intercalate {pieces : List Text} (hne : pieces ≠ []) (h : ∀ t ∈ pieces, Solid t)
    (sep : Text) : Solid (sep.intercalate pieces) := by
  induction pieces with
  | nil => exact absurd rfl hne
  | cons first rest ih =>
    cases rest with
    | nil =>
      rw [List.intercalate_singleton]
      exact h first List.mem_cons_self
    | cons second rest =>
      rw [List.intercalate_cons_cons]
      refine (h first List.mem_cons_self).append (ih (List.cons_ne_nil _ _) fun t ht => ?_) sep
      exact h t (List.mem_cons_of_mem first ht)

theorem solid_printAll (items : List Literal) : ∀ t ∈ Literal.printAll lib items, Solid t := by
  induction items with
  | nil => nofun
  | cons l ls ih =>
    intro t ht
    rcases List.mem_cons.mp ht with rfl | hrest
    · exact solid_print l
    · exact ih t hrest

theorem AllReadable.noComma {items : List Literal} (h : AllReadable lib items) :
    ∀ t ∈ Literal.printAll lib items, cp ',' ∉ t := by
  induction items with
  | nil => nofun
  | cons l ls ih =>
    obtain ⟨⟨hcomma, -⟩, hls⟩ := h
    intro t ht
    rcases List.mem_cons.mp ht with rfl | hrest
    · exact hcomma
    · exact ih hls t hrest

/-- The items of a list as they are joined. -/
def joined (lib : Builtins Ω) (items : List Literal) : Text :=
  (text ", ").intercalate (Literal.printAll lib items)

theorem joined_cons (l : Literal) (ls : List Literal) : joined lib (l :: ls) =
    [cp ','].intercalate (l.print lib :: (Literal.printAll lib ls).map (cp ' ' :: ·)) :=
  TextSearch.intercalate_pair _ _ _ _

/-- The pieces between the commas are the items, with a blank before all but the first. -/
theorem splitOn_joined {l : Literal} {ls : List Literal}
    (h : ∀ t ∈ Literal.printAll lib (l :: ls), cp ',' ∉ t) :
    (joined lib (l :: ls)).splitOn (cp ',') =
      l.print lib :: (Literal.printAll lib ls).map (cp ' ' :: ·) := by
  rw [joined_cons]
  refine List.splitOn_intercalate (cp ',') ?_ (List.cons_ne_nil _ _)
  intro t ht
  rcases List.mem_cons.mp ht with rfl | hrest
  · exact h _ List.mem_cons_self
  · obtain ⟨u, hu, rfl⟩ := List.mem_map.mp hrest
    rw [List.mem_cons, not_or]
    exact ⟨by decide, h u (List.mem_cons_of_mem _ hu)⟩

/-- Where the text between the brackets comes apart into as many pieces as there are items, no item
has a comma in it. -/
theorem noComma_of_splitOn {l : Literal} {ls : List Literal}
    (h : ((joined lib (l :: ls)).splitOn (cp ',')).length = (l :: ls).length) :
    ∀ t ∈ Literal.printAll lib (l :: ls), cp ',' ∉ t := by
  have hlength (items : List Literal) : (Literal.printAll lib items).length = items.length := by
    induction items with
    | nil => rfl
    | cons l ls ih => rw [Literal.printAll, List.length_cons, ih, List.length_cons]
  rw [joined_cons] at h
  have hnot := TextSearch.notMem_of_splitOn_intercalate
    (h.trans (by rw [List.length_cons, List.length_cons, List.length_map, hlength])).le
  intro t ht
  rcases List.mem_cons.mp ht with rfl | hrest
  · exact hnot _ List.mem_cons_self
  · have hblank := hnot _ (List.mem_cons_of_mem _ (List.mem_map_of_mem hrest))
    exact fun hcomma => hblank (List.mem_cons_of_mem _ hcomma)

/-- The text between the brackets is split at every comma. -/
theorem parseLiteral_list (l : Literal) (ls : List Literal) :
    parseLiteral lib context (Literal.print lib (.list (l :: ls))) =
      .list (((joined lib (l :: ls)).splitOn (cp ',')).map (parseLiteral lib context)) := by
  have hkeyword : Literal.print lib (.list (l :: ls)) ∉ keywords := notMem_keywords (by decide)
  have hquoted : isQuoted (Literal.print lib (.list (l :: ls))) = false := by
    rw [isQuoted, decide_eq_false_iff_not]
    rintro ⟨-, -, hquote | hquote⟩
    · exact absurd (Option.some.inj hquote) (by decide)
    · exact absurd (Option.some.inj hquote) (by decide)
  have hbracketed : isBracketed (Literal.print lib (.list (l :: ls))) = true := by
    rw [isBracketed, decide_eq_true_eq]
    exact ⟨⟨_, rfl⟩, ⟨cp '[' :: _, rfl⟩⟩
  have hinner : inner (Literal.print lib (.list (l :: ls))) = joined lib (l :: ls) :=
    inner_ends _ _ _
  have hsolid : Solid (joined lib (l :: ls)) :=
    Solid.intercalate (List.cons_ne_nil _ _) (solid_printAll (l :: ls)) _
  rw [parseLiteral_token (solid_print _) hkeyword, hquoted, if_neg Bool.false_ne_true,
    if_pos hbracketed, hinner, hsolid.strip_eq, if_neg hsolid.ne_nil]

/-- The blank before an item is stripped. -/
theorem map_parseLiteral_blank (ls : List Literal) :
    ((Literal.printAll lib ls).map (cp ' ' :: ·)).map (parseLiteral lib context) =
      (Literal.printAll lib ls).map (parseLiteral lib context) := by
  rw [List.map_map]
  refine List.map_congr_left fun t ht => parseLiteral_congr ?_
  have hsolid := solid_printAll ls t ht
  rw [hsolid.strip_cons (by decide), hsolid.strip_eq]

theorem parseLiteral_empty :
    parseLiteral lib context (Literal.print lib (.list [])) = .list [] :=
  (parseLiteral_eq _).trans rfl

mutual

/-- A literal is read back from what it prints. -/
theorem parseLiteral_print (l : Literal) (h : Readable lib l) :
    parseLiteral lib context (l.print lib) = l.value := by
  have hsolid := @solid_print Ω lib l
  cases l with
  | str quote s =>
    have hquote : quote.char ∈ text "'\"[" := by
      cases quote <;> decide
    have hkeyword : quote.char :: s ++ [quote.char] ∉ keywords := notMem_keywords hquote
    refine (parseLiteral_token hsolid hkeyword).trans ?_
    rw [Literal.print, if_pos (isQuoted_quote quote s), inner_ends]
    rfl
  | int n =>
    have hnumeral : ∀ c ∈ decimal n, isNumeral c = true := fun c => isNumeral_of_decimal
    refine (parseLiteral_word hsolid (isWord_numeral hnumeral)).trans ?_
    have hshort : n.natAbs < 10 ^ 4300 := h
    rw [Literal.print, parseNumber, if_neg (point_notMem_decimal n), lib.parseInt_decimal n,
      if_pos hshort]
    rfl
  | float x =>
    have hnumeral : ∀ c ∈ lib.floatText x, isNumeral c = true := fun c => isNumeral_of_floatText
    refine (parseLiteral_word hsolid (isWord_numeral hnumeral)).trans ?_
    have hpoint : cp '.' ∈ lib.floatText x := h
    rw [Literal.print, parseNumber, if_pos hpoint, lib.parseFloat_floatText x hpoint]
    rfl
  | bool capital b =>
    rw [parseLiteral_eq, hsolid.strip_eq]
    cases capital <;> cases b <;> rfl
  | null capital =>
    rw [parseLiteral_eq, hsolid.strip_eq]
    cases capital <;> rfl
  | list items =>
    cases items with
    | nil => exact parseLiteral_empty
    | cons l ls =>
      rw [parseLiteral_list, splitOn_joined (AllReadable.noComma h), List.map_cons,
        map_parseLiteral_blank, parseLiteral_print l h.1.2, parseLiteral_printAll ls h.2]
      rfl

theorem parseLiteral_printAll (ls : List Literal) (h : AllReadable lib ls) :
    (Literal.printAll lib ls).map (parseLiteral lib context) = Literal.values ls := by
  cases ls with
  | nil => rfl
  | cons l ls =>
    rw [Literal.printAll, List.map_cons, parseLiteral_print l h.1.2, parseLiteral_printAll ls h.2]
    rfl

end

/-! ## What is read back -/

/-- There is a context in which a path leads to a value. -/
theorem exists_resolveField (hne : t ≠ []) (v : Value Ω) :
    ∃ context, resolveField lib context t = v := by
  have hnested (parts : List Text) : ∃ root, resolveParts lib root parts = v := by
    induction parts with
    | nil => exact ⟨v, rfl⟩
    | cons part parts ih =>
      obtain ⟨child, hchild⟩ := ih
      refine ⟨.dict [(.str part, child)], ?_⟩
      have hget : Dict.get [(.str part, child)] part = some child := by
        simp [Dict.get, PythonValue.isKey]
      rw [resolveParts, hget]
      exact hchild
  obtain ⟨part, parts, hparts⟩ := List.exists_cons_of_ne_nil (List.splitOn_ne_nil (cp '.') t)
  obtain ⟨child, hchild⟩ := hnested parts
  refine ⟨[(.str part, child)], ?_⟩
  have hget : Dict.get [(.str part, child)] part = some child := by
    simp [Dict.get, PythonValue.isKey]
  rw [resolveField, if_neg hne, hparts, resolveParts, hget]
  exact hchild

theorem resolveField_nil : resolveField lib [] t = .none := by
  rw [resolveField]
  split_ifs
  · rfl
  · obtain ⟨part, parts, hparts⟩ := List.exists_cons_of_ne_nil (List.splitOn_ne_nil (cp '.') t)
    rw [hparts, resolveParts]
    cases parts <;> rfl

/-- A field that is not read as a literal. -/
structure IsPath (lib : Builtins Ω) (path : Text) : Prop where
  solid : Solid path
  word : IsWord path
  notNumber : parseNumber lib path = none

theorem IsPath.parseLiteral_eq (h : IsPath lib t) (context : Dict Ω) :
    parseLiteral lib context t = resolveField lib context t := by
  rw [parseLiteral_word h.solid h.word, h.notNumber]
  rfl

/-- Two contexts tell a path from a literal. -/
theorem isPath_of_parse (hsolid : Solid t)
    (h : ∀ context, parseLiteral lib context t = resolveField lib context t) : IsPath lib t := by
  obtain ⟨yes, hyes⟩ := @exists_resolveField Ω lib t hsolid.ne_nil (.bool true)
  obtain ⟨no, hno⟩ := @exists_resolveField Ω lib t hsolid.ne_nil (.bool false)
  have htrue := (h yes).trans hyes
  have hfalse := (h no).trans hno
  have hkeyword : t ∉ keywords := by
    intro hmem
    have hconst : parseLiteral lib yes t = parseLiteral lib no t := by
      rw [LiteralReading.parseLiteral_eq, LiteralReading.parseLiteral_eq, hsolid.strip_eq]
      simp only [keywords, List.mem_cons, List.not_mem_nil, or_false] at hmem
      rcases hmem with rfl | rfl | rfl | rfl | rfl | rfl <;> rfl
    rw [htrue, hfalse] at hconst
    cases hconst
  rw [parseLiteral_token hsolid hkeyword] at htrue hfalse
  by_cases hquoted : isQuoted t = true
  · rw [if_pos hquoted] at htrue
    cases htrue
  · rw [if_neg hquoted] at htrue hfalse
    by_cases hbracketed : isBracketed t = true
    · rw [if_pos hbracketed] at htrue
      split_ifs at htrue
    · rw [if_neg hbracketed] at htrue hfalse
      have hword : IsWord t :=
        ⟨hkeyword, Bool.eq_false_iff.mpr hquoted, Bool.eq_false_iff.mpr hbracketed⟩
      refine ⟨hsolid, hword, ?_⟩
      cases hnumber : parseNumber lib t with
      | none => rfl
      | some v =>
        rw [hnumber] at htrue hfalse
        have hconst : Value.bool true = Value.bool false := htrue.symm.trans hfalse
        cases hconst

mutual

/-- Only a readable literal is read back from what it prints. -/
theorem readable_of_parse (l : Literal)
    (h : parseLiteral lib [] (l.print lib) = l.value) : Readable lib l := by
  have hsolid := @solid_print Ω lib l
  cases l with
  | int n =>
    have hnumeral : ∀ c ∈ decimal n, isNumeral c = true := fun c => isNumeral_of_decimal
    have hread := (parseLiteral_word hsolid (isWord_numeral hnumeral)).symm.trans h
    rw [Literal.print, parseNumber, if_neg (point_notMem_decimal n), lib.parseInt_decimal n,
      resolveField_nil] at hread
    by_contra hlong
    have hnot : ¬ n.natAbs < 10 ^ 4300 := hlong
    rw [if_neg hnot] at hread
    cases hread
  | float x =>
    have hnumeral : ∀ c ∈ lib.floatText x, isNumeral c = true := fun c => isNumeral_of_floatText
    have hread := (parseLiteral_word hsolid (isWord_numeral hnumeral)).symm.trans h
    by_contra hpoint
    have hnot : cp '.' ∉ lib.floatText x := hpoint
    rw [Literal.print, parseNumber, if_neg hnot, resolveField_nil] at hread
    cases hint : lib.parseInt (lib.floatText x) with
    | none =>
      rw [hint] at hread
      cases hread
    | some n =>
      rw [hint] at hread
      cases hread
  | list items =>
    cases items with
    | nil => trivial
    | cons l ls =>
      rw [parseLiteral_list] at h
      have hitems := Value.list.inj h
      have hlength := congrArg List.length hitems
      rw [List.length_map, length_values] at hlength
      have hcomma := noComma_of_splitOn hlength
      rw [splitOn_joined hcomma, List.map_cons, map_parseLiteral_blank] at hitems
      obtain ⟨hfirst, hrest⟩ := List.cons.inj hitems
      exact ⟨⟨hcomma _ List.mem_cons_self, readable_of_parse l hfirst⟩,
        allReadable_of_parse ls (fun t ht => hcomma t (List.mem_cons_of_mem _ ht)) hrest⟩
  | _ => trivial

theorem allReadable_of_parse (ls : List Literal)
    (hcomma : ∀ t ∈ Literal.printAll lib ls, cp ',' ∉ t)
    (h : (Literal.printAll lib ls).map (parseLiteral lib []) = Literal.values ls) :
    AllReadable lib ls := by
  cases ls with
  | nil => trivial
  | cons l ls =>
    obtain ⟨hfirst, hrest⟩ := List.cons.inj h
    exact ⟨⟨hcomma _ List.mem_cons_self, readable_of_parse l hfirst⟩,
      allReadable_of_parse ls (fun t ht => hcomma t (List.mem_cons_of_mem _ ht)) hrest⟩

end

end LiteralReading
