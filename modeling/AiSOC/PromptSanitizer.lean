import AiSOC.JsonWriter
import AiSOC.RegexSearch

/-! # The sanitiser of untrusted data in prompts

Each string of a value is stripped of injection patterns and cut, the value is rendered as JSON
and cut, and the result is put between two tags. -/
namespace PromptSanitizer

open CodeText JsonText JsonWriter RegexSearch

/-- A Python value, as far as the sanitiser tells values apart; tuples are lists, the keys of a
dictionary and the values of other types come as what `str` makes of them. -/
inductive Value where
  | none
  | bool (b : Bool)
  | int (n : ℤ)
  | float (x : FloatText)
  | str (s : Text)
  | list (items : List Value)
  | dict (members : List (Text × Value))
  | other (shown : Text)

def words (ss : List String) : Regex CodePoint := anyOf (ss.map ignoringCase)

/-- `\s+` -/
def someSpaces : Regex CodePoint := .run isSpace 1 none

/-- `[^\n]{0,40}` -/
def withinLine : Regex CodePoint := .run (fun c => c ≠ cp '\n') 0 (some 40)

def marker : Text := text "[REDACTED:INJECTION]"

def delimiters : List (Regex CodePoint) :=
  ["<|im_start|>", "<|im_end|>", "<|system|>", "<|user|>", "<|assistant|>", "[INST]",
      "[/INST]"].map ignoringCase ++
    [inOrder [exactly "<", spaces, optional (exactly "/"), spaces, ignoringCase "system", spaces,
      exactly ">"]]

def phrases (tables : Tables) : List (Regex CodePoint) :=
  let edge : Regex CodePoint := .boundary tables.isWord
  [inOrder [edge, words ["ignore", "disregard", "forget"], edge, withinLine, edge,
      words ["previous", "prior", "above", "earlier", "all"], edge, withinLine, edge,
      anyOf [inOrder [ignoringCase "instruction", optional (ignoringCase "s")],
        ignoringCase "prompt", inOrder [ignoringCase "rule", optional (ignoringCase "s")],
        ignoringCase "system"], edge],
    inOrder [edge, ignoringCase "you are", someSpaces,
      optional (inOrder [ignoringCase "now", someSpaces]),
      optional (inOrder [ignoringCase "in", someSpaces]),
      optional (anyOf [inOrder [ignoringCase "a", someSpaces],
        inOrder [ignoringCase "an", someSpaces], inOrder [ignoringCase "the", someSpaces]]),
      anyOf [ignoringCase "dan", inOrder [ignoringCase "developer", someSpaces,
        ignoringCase "mode"], ignoringCase "jailbroken", ignoringCase "unrestricted",
        inOrder [ignoringCase "no", optional (exactly "-"), ignoringCase "op"]], edge],
    inOrder [edge, words ["override", "reveal", "print", "exfiltrate", "leak"], edge, withinLine,
      edge, anyOf [ignoringCase "system prompt", ignoringCase "developer prompt",
        inOrder [ignoringCase "hidden instruction", optional (ignoringCase "s")]], edge]]

def isHex (c : CodePoint) : Bool := between '0' '9' c || between 'a' 'f' c || between 'A' 'F' c

/-- The pattern of an escaped control character. -/
def escapedControl : Regex CodePoint :=
  inOrder [exactly "\\u00", oneOf "01", .chars isHex]

def injectionPatterns (tables : Tables) : List (Regex CodePoint × Text) :=
  (delimiters ++ phrases tables).map (fun r => (r, marker)) ++
    [(escapedControl, text "[REDACTED:CTRL]")]

def isControl (c : CodePoint) : Bool :=
  c.val ≤ 0x08 ∨ c.val = 0x0b ∨ c.val = 0x0c ∨ (0x0e ≤ c.val ∧ c.val ≤ 0x1f) ∨
    (0x7f ≤ c.val ∧ c.val ≤ 0x9f)

def controlRe : Regex CodePoint := .chars isControl
def blanklinesRe : Regex CodePoint := .run (fun c => c = cp '\n') 3 none
def longSpacesRe : Regex CodePoint := .run (fun c => c = cp ' ') 4 none

def truncated : Text := text "…[truncated]"

/-- The cut of a text; a limit that is not positive is none. -/
def cut (maxLen : ℤ) (t : Text) : Text :=
  if 0 < maxLen ∧ maxLen < t.length then rstrip (t.take maxLen.toNat) ++ truncated else t

def sanitizeText (tables : Tables) (maxLen : ℤ) (t : Text) : Text :=
  if t = [] then []
  else
    let cleaned := sub controlRe [] t
    let cleaned := (injectionPatterns tables).foldl (fun c p => sub p.1 p.2 c) cleaned
    let cleaned := sub blanklinesRe (text "\n\n") cleaned
    let cleaned := sub longSpacesRe (text "   ") cleaned
    cut maxLen (strip cleaned)

structure Limits where
  maxFieldLen : ℤ
  maxListItems : ℤ

def maxDepth : ℕ := 6
def maxKeyLen : ℤ := 128

def sanitizeKey (tables : Tables) (k : Text) : Text :=
  let key := sanitizeText tables maxKeyLen k
  if key = [] then text "[redacted_key]" else key

/-- `out[key] = x`: an equal key keeps its place. -/
def assign (key : Text) (x : Json FloatText) :
    List (Text × Json FloatText) → List (Text × Json FloatText)
  | [] => [(key, x)]
  | (k, y) :: ms => if k = key then (k, x) :: ms else (k, y) :: assign key x ms

/-- How many items of a list are kept. -/
def keptItems (lim : Limits) (count : ℕ) : ℕ :=
  if 0 < lim.maxListItems then min lim.maxListItems.toNat count else count

def moreTruncated (count : ℕ) : List (Json FloatText) :=
  if count = 0 then [] else [.str (text "…[" ++ digits count ++ text " more truncated]")]

def capDepth (depth : ℕ) (x : Json FloatText) : Json FloatText :=
  if maxDepth < depth then .str (text "[REDACTED:DEPTH]") else x

mutual

def sanitizeValue (tables : Tables) (lim : Limits) (depth : ℕ) : Value → Json FloatText
  | .none => capDepth depth .null
  | .bool b => capDepth depth (.bool b)
  | .int n => capDepth depth (.int n)
  | .float x => capDepth depth (.float x)
  | .str s => capDepth depth (.str (sanitizeText tables lim.maxFieldLen s))
  | .list items => capDepth depth (.arr
      (sanitizeItems tables lim (depth + 1) (keptItems lim items.length) items ++
        moreTruncated (items.length - keptItems lim items.length)))
  | .dict members => capDepth depth (.obj (sanitizeMembers tables lim (depth + 1) members []))
  | .other shown => capDepth depth (.str (sanitizeText tables lim.maxFieldLen shown))

def sanitizeItems (tables : Tables) (lim : Limits) (depth : ℕ) :
    ℕ → List Value → List (Json FloatText)
  | _, [] => []
  | 0, _ :: _ => []
  | kept + 1, v :: vs => sanitizeValue tables lim depth v :: sanitizeItems tables lim depth kept vs

def sanitizeMembers (tables : Tables) (lim : Limits) (depth : ℕ) :
    List (Text × Value) → List (Text × Json FloatText) → List (Text × Json FloatText)
  | [], out => out
  | (k, v) :: ms, out => sanitizeMembers tables lim depth ms
      (assign (sanitizeKey tables k) (sanitizeValue tables lim depth v) out)

end

def isLabelChar (c : CodePoint) : Bool :=
  between 'a' 'z' c || between 'A' 'Z' c || between '0' '9' c || c = cp '_' || c = cp '-'

def cleanLabel (label : Text) : Text :=
  sub (.chars fun c => !isLabelChar c) (text "_") (if label = [] then text "untrusted" else label)

def safeLabel (label : Text) : Text :=
  if (cleanLabel label).take 32 = [] then text "untrusted" else (cleanLabel label).take 32

def openingTag (label : Text) : Text :=
  text "<UNTRUSTED_DATA source=\"" ++ safeLabel label ++ text "\">"

def closingTag : Text := text "</UNTRUSTED_DATA>"

def wrapUntrusted (label body : Text) : Text :=
  openingTag label ++ cp '\n' :: (body ++ cp '\n' :: closingTag)

/-- `none` is the `ValueError` of an integer that is too long to be written: the text that would
stand in for the JSON has to write it as well. -/
def sanitizeForPrompt (tables : Tables) (lim : Limits) (label : Text) (maxBlobLen : ℤ)
    (indent : Option ℤ) (value : Value) : Option Text :=
  (dumps indent (sanitizeValue tables lim 0 value)).map fun tokens =>
    wrapUntrusted label (cut maxBlobLen (flat tokens))

/-- The text is between the tags, and nowhere else is there an opening tag, of whatever label, or
a closing tag. -/
structure Wrapped (label out : Text) : Prop where
  opened : openingTag label <+: out
  closed : closingTag <:+ out
  openedOnce : ∀ l a b, out = a ++ openingTag l ++ b → a = []
  closedOnce : ∀ a b, out = a ++ closingTag ++ b → b = []

/-- A string or a key that is left of the value has the closing tag in it, at a place that the
cut of the blob leaves in. -/
def LeavesClosingTag (tables : Tables) (lim : Limits) (maxBlobLen : ℤ) (indent : Option ℤ)
    (value : Value) : Prop :=
  ∃ pre s post a b, render indent 0 (sanitizeValue tables lim 0 value) = pre ++ .quoted s :: post ∧
    s = a ++ closingTag ++ b ∧ (0 < maxBlobLen →
      ((flat pre).length + 1 + (encode a).length + closingTag.length : ℤ) ≤ maxBlobLen)

theorem cleanLabel_all (label : Text) : (cleanLabel label).all isLabelChar = true := by
  have hmap := sub_chars (fun c => !isLabelChar c) (cp '_')
    (if label = [] then text "untrusted" else label)
  have hclean : cleanLabel label = _ := hmap
  rw [hclean, List.all_map, List.all_eq_true]
  intro c _
  by_cases hc : isLabelChar c = true
  · simp [hc]
  · simp only [Function.comp_apply, hc, Bool.not_false, if_true]
    decide

theorem safeLabel_all (label : Text) : (safeLabel label).all isLabelChar = true := by
  rw [safeLabel]
  split
  · decide
  · rw [List.all_eq_true]
    intro c hc
    exact List.all_eq_true.mp (cleanLabel_all label) c (List.mem_of_mem_take hc)

theorem safeLabel_ne_nil (label : Text) : safeLabel label ≠ [] := by
  rw [safeLabel]
  split
  · decide
  · assumption

def openingTail (label : Text) : Text :=
  text "UNTRUSTED_DATA source=\"" ++ safeLabel label ++ text "\">"

theorem openingTag_eq (label : Text) : openingTag label = cp '<' :: openingTail label := rfl

/-- The characters of an opening tag after the first one. -/
theorem mem_openingTail {label : Text} {c : CodePoint} (h : c ∈ openingTail label) :
    isLabelChar c = true ∨ c ∈ text " =\">" := by
  have hstart : (text "UNTRUSTED_DATA source=\"").all
      (fun c => isLabelChar c || c ∈ text " =\">") = true := by decide
  have hend : (text "\">").all (fun c => isLabelChar c || c ∈ text " =\">") = true := by decide
  rw [openingTail, List.mem_append, List.mem_append] at h
  rcases h with (h | h) | h
  · simpa using List.all_eq_true.mp hstart c h
  · exact Or.inl (List.all_eq_true.mp (safeLabel_all label) c h)
  · simpa using List.all_eq_true.mp hend c h

theorem notMem_openingTail {label : Text} {c : CodePoint} (hlabel : isLabelChar c = false)
    (hother : c ∉ text " =\">") : c ∉ openingTail label := by
  intro h
  rcases mem_openingTail h with h | h
  · exact Bool.false_ne_true (hlabel.symm.trans h)
  · exact hother h

theorem openingTag_triple (label : Text) : ∃ x, isLabelChar x = true ∧
    [cp '=', cp '"', x] <:+: openingTag label := by
  obtain ⟨x, l, hl⟩ := List.exists_cons_of_ne_nil (safeLabel_ne_nil label)
  refine ⟨x, ?_, text "<UNTRUSTED_DATA source", l ++ text "\">", ?_⟩
  · have hall := safeLabel_all label
    rw [hl, List.all_cons, Bool.and_eq_true] at hall
    exact hall.1
  · have hsplit : text "<UNTRUSTED_DATA source=\"" =
        text "<UNTRUSTED_DATA source" ++ [cp '=', cp '"'] := by decide
    rw [openingTag, hl, hsplit]
    simp only [List.append_assoc, List.cons_append, List.nil_append]

theorem newline_notMem_openingTag (label : Text) : cp '\n' ∉ openingTag label := by
  intro h
  rcases List.mem_cons.mp h with h | h
  · exact absurd h (by decide)
  · exact notMem_openingTail (by decide) (by decide) h

theorem closingTag_not_infix_openingTag (label : Text) :
    ¬ closingTag <:+: openingTag label := by
  intro h
  have hslash : cp '/' ∈ openingTag label := h.subset (by decide)
  rcases List.mem_cons.mp hslash with h | h
  · exact absurd h (by decide)
  · exact notMem_openingTail (by decide) (by decide) h

theorem openingTag_not_infix_closingTag (label : Text) :
    ¬ openingTag label <:+: closingTag := by
  intro h
  have hquote : cp '"' ∈ openingTag label := by
    rw [openingTag, List.mem_append]
    exact Or.inr (by decide)
  exact absurd (h.subset hquote) (by decide)

/-- In an opening tag there is no other one. -/
theorem openingTag_at_start {label l a b : Text} (h : openingTag label = a ++ openingTag l ++ b) :
    a = [] := by
  cases a with
  | nil => rfl
  | cons c a =>
    rw [openingTag_eq, openingTag_eq] at h
    obtain ⟨-, htail⟩ := List.cons.inj h
    have hlt : cp '<' ∈ openingTail label := by
      rw [htail]
      exact List.mem_append_left b (List.mem_append_right a List.mem_cons_self)
    exact absurd hlt (notMem_openingTail (by decide) (by decide))

/-- What the tags of a wrapped text need of its body. -/
theorem wrapped_iff {label body : Text} (hopening : ∀ l, ¬ openingTag l <:+: body) :
    Wrapped label (wrapUntrusted label body) ↔ ¬ closingTag <:+: body := by
  constructor
  · rintro hwrapped ⟨u, v, rfl⟩
    have hnil := hwrapped.closedOnce (openingTag label ++ cp '\n' :: u)
      (v ++ cp '\n' :: closingTag) (by simp [wrapUntrusted])
    simp at hnil
  · intro hclosing
    refine ⟨List.prefix_append _ _, ?_, ?_, ?_⟩
    · refine ⟨openingTag label ++ cp '\n' :: (body ++ [cp '\n']), ?_⟩
      simp [wrapUntrusted]
    · intro l a b h
      rcases split_append_cons (newline_notMem_openingTag l) h with ⟨b', hb⟩ | ⟨a', ha⟩
      · exact openingTag_at_start hb
      · rcases split_append_cons (newline_notMem_openingTag l) ha with ⟨b', hb⟩ | ⟨a'', ha'⟩
        · exact absurd ⟨a', b', hb.symm⟩ (hopening l)
        · exact absurd ⟨a'', b, ha'.symm⟩ (openingTag_not_infix_closingTag l)
    · intro a b h
      have hnewline : cp '\n' ∉ closingTag := by decide
      rcases split_append_cons hnewline h with ⟨b', hb⟩ | ⟨a', ha⟩
      · exact absurd ⟨a, b', hb.symm⟩ (closingTag_not_infix_openingTag label)
      · rcases split_append_cons hnewline ha with ⟨b', hb⟩ | ⟨a'', ha'⟩
        · exact absurd ⟨a', b', hb.symm⟩ hclosing
        · have hlen := congrArg List.length ha'
          rw [List.length_append, List.length_append] at hlen
          exact List.length_eq_zero_iff.mp (by omega)

theorem mark_lt : Mark (cp '<') := ⟨by decide, by decide⟩
theorem mark_eq : Mark (cp '=') := ⟨by decide, by decide⟩

/-- No string of the value can make an opening tag: its quotes would have to be escaped. -/
theorem openingTag_not_infix_cut (label : Text) (maxLen : ℤ) {ts : List Token}
    (hts : WellFormed ts) : ¬ openingTag label <:+: cut maxLen (flat ts) := by
  intro h
  obtain ⟨x, hx, htriple⟩ := openingTag_triple label
  have hbreak : isBreak x = false := by
    have hbreaks : (text ",:]\x7d\n").all (fun c => !isLabelChar c) = true := by decide
    rw [Bool.eq_false_iff]
    intro hmem
    have hnot := List.all_eq_true.mp hbreaks x (of_decide_eq_true hmem)
    simp [hx] at hnot
  have hcut := htriple.trans h
  rw [cut] at hcut
  split at hcut
  · have hellipsis : cp '…' ∉ [cp '=', cp '"', x] := by
      simp only [List.mem_cons, List.not_mem_nil, or_false, not_or]
      refine ⟨by decide, by decide, ?_⟩
      rintro rfl
      exact absurd hx (by decide)
    rcases (infix_append_cons hellipsis).mp hcut with hleft | hright
    · apply no_quote_after_mark mark_eq hbreak hts
      exact (hleft.trans (List.rdropWhile_prefix isSpace _).isInfix).trans
        (List.take_prefix _ _).isInfix
    · have hmem : cp '=' ∈ text "[truncated]" := hright.subset List.mem_cons_self
      exact absurd hmem (by decide)
  · exact no_quote_after_mark mark_eq hbreak hts hcut

/-- How many characters of a text a cut leaves. -/
def keptChars (maxLen : ℤ) (t : Text) : ℕ := if 0 < maxLen then maxLen.toNat else t.length

theorem closingTag_infix_cut {maxLen : ℤ} {t : Text} :
    closingTag <:+: cut maxLen t ↔ closingTag <:+: t.take (keptChars maxLen t) := by
  rw [cut, keptChars]
  split
  · rename_i hcut
    have hspace : closingTag.all (fun c => !isSpace c) = true := by decide
    have hellipsis : cp '…' ∉ closingTag := by decide
    have htail : ¬ closingTag <:+: text "[truncated]" := by
      intro h
      exact absurd (h.subset (by decide : cp '<' ∈ closingTag)) (by decide)
    change closingTag <:+: rstrip _ ++ cp '…' :: text "[truncated]" ↔ _
    rw [infix_append_cons hellipsis, infix_rstrip, if_pos hcut.1, or_iff_left htail]
    intro c hc
    simpa using List.all_eq_true.mp hspace c hc
  · rename_i hcut
    split
    · rw [List.take_of_length_le (by omega)]
    · rw [List.take_length]

theorem leavesClosingTag_iff {tables : Tables} {lim : Limits} {maxBlobLen : ℤ}
    {indent : Option ℤ} {value : Value} :
    closingTag <:+: cut maxBlobLen (flat (render indent 0 (sanitizeValue tables lim 0 value))) ↔
      LeavesClosingTag tables lim maxBlobLen indent value := by
  have hwf := render_wellFormed indent 0 (sanitizeValue tables lim 0 value)
  have hplain : (text "/UNTRUSTED_DATA>").all isPlain = true := by decide
  have hclosing : closingTag = cp '<' :: text "/UNTRUSTED_DATA>" := rfl
  rw [closingTag_infix_cut, hclosing, infix_take_flat mark_lt hplain hwf, ← hclosing,
    LeavesClosingTag]
  constructor
  · rintro ⟨pre, s, post, a, b, hts, hs, hlen⟩
    refine ⟨pre, s, post, a, b, hts, hs, ?_⟩
    intro hpos
    rw [keptChars, if_pos hpos] at hlen
    omega
  · rintro ⟨pre, s, post, a, b, hts, hs, hlen⟩
    refine ⟨pre, s, post, a, b, hts, hs, ?_⟩
    rw [keptChars]
    split
    · rename_i hpos
      have hle := hlen hpos
      omega
    · have hencode : encode closingTag = closingTag := encode_of_plain (by decide)
      rw [hts, hs, flat_append, flat_quoted, encode_append, encode_append, hencode]
      simp only [List.length_append, List.length_cons]
      omega

/-- The result is properly wrapped exactly when nothing that is left of the value has the
closing tag in it. -/
theorem sanitized_wrapped_iff (tables : Tables) (lim : Limits) (label : Text) (maxBlobLen : ℤ)
    (indent : Option ℤ) (value : Value) :
    (∀ out, sanitizeForPrompt tables lim label maxBlobLen indent value = some out →
      Wrapped label out) ↔
    ¬ (writable (sanitizeValue tables lim 0 value) = true ∧
      LeavesClosingTag tables lim maxBlobLen indent value) := by
  rw [← leavesClosingTag_iff]
  simp only [sanitizeForPrompt, dumps]
  split
  · rename_i hwritable
    have hwf := render_wellFormed indent 0 (sanitizeValue tables lim 0 value)
    have hwrapped := @wrapped_iff label _ fun l => openingTag_not_infix_cut l maxBlobLen hwf
    simp [hwritable, hwrapped]
  · rename_i hwritable
    simp [hwritable]

def defaultLimits : Limits := ⟨2000, 50⟩
def defaultLabel : Text := text "untrusted"

/-- A string that is the closing tag goes through unchanged. -/
theorem closing_tag_not_wrapped : ¬ ∀ out,
    sanitizeForPrompt asciiTables defaultLimits defaultLabel 6000 (some 2) (.str closingTag) =
      some out → Wrapped defaultLabel out := by
  intro h
  have hout : sanitizeForPrompt asciiTables defaultLimits defaultLabel 6000 (some 2)
      (.str closingTag) =
        some (wrapUntrusted defaultLabel (cp '"' :: (closingTag ++ [cp '"']))) := by
    decide +kernel
  have hnil := (h _ hout).closedOnce (openingTag defaultLabel ++ [cp '\n', cp '"'])
    (cp '"' :: cp '\n' :: closingTag) (by simp [wrapUntrusted])
  cases hnil

end PromptSanitizer
