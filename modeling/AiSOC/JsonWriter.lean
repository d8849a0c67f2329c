import Mathlib.Data.List.Chain
import Mathlib.Data.List.Sort
import AiSOC.JsonText

/-! # Writing a JSON text

The encoder of the standard library: strings escaped to ASCII, members sorted by key, on one
line or indented. The text is built from tokens, which keep the strings apart from the rest:
that is what decides where a piece of the text can lie. -/
namespace JsonWriter

open CodeText JsonText

def maxIntDigits : ℕ := 4300

/-- The characters that stand outside strings. -/
def isBareChar (c : CodePoint) : Bool :=
  between '0' '9' c || between 'A' 'Z' c || between 'a' 'z' c || c ∈ text "[]\x7b\x7d,: \n+-."

/-- How a floating-point number is written, with `NaN` and the infinities. -/
structure FloatText where
  text : Text
  plain : text.all isBareChar = true

-- Found under this name wherever hexadecimal digits are written.
instance (priority := 1100) instNeZeroHexDigits : @NeZero ℕ Zero.ofOfNat0 16 := ⟨by decide⟩

def hexDigit (d : Fin 16) : CodePoint :=
  if d.val < 10 then Fin.ofNat 0x110000 ('0'.toNat + d.val)
  else Fin.ofNat 0x110000 ('a'.toNat + d.val - 10)

def hexEscape (n : ℕ) : Text :=
  [cp '\\', cp 'u', hexDigit (Fin.ofNat 16 (n / 4096)), hexDigit (Fin.ofNat 16 (n / 256)),
    hexDigit (Fin.ofNat 16 (n / 16)), hexDigit (Fin.ofNat 16 n)]

/-- Printable ASCII without the quote and the backslash stands for itself. -/
def isPlain (c : CodePoint) : Bool :=
  0x20 ≤ c.val ∧ c.val ≤ 0x7e ∧ c ≠ cp '"' ∧ c ≠ cp '\\'

/-- The escapes of two characters, by their second one. -/
def shortEscape (c : CodePoint) : Option CodePoint :=
  if c = cp '"' ∨ c = cp '\\' then some c
  else if c = cp '\n' then some (cp 'n')
  else if c = cp '\r' then some (cp 'r')
  else if c = cp '\t' then some (cp 't')
  else if c.val = 0x0c then some (cp 'f')
  else if c.val = 0x08 then some (cp 'b')
  else none

def escape (c : CodePoint) : Text :=
  match shortEscape c with
  | some d => [cp '\\', d]
  | none =>
    if c.val < 0x10000 then hexEscape c.val
    else hexEscape (0xd800 + (c.val - 0x10000) / 1024) ++
      hexEscape (0xdc00 + (c.val - 0x10000) % 1024)

def encodeChar (c : CodePoint) : Text := if isPlain c then [c] else escape c

def encode (s : Text) : Text := s.flatMap encodeChar

inductive Token where
  | quoted (s : Text)
  | bare (t : Text)
  deriving DecidableEq

def Token.text : Token → Text
  | .quoted s => cp '"' :: encode s ++ [cp '"']
  | .bare t => t

def flat (ts : List Token) : Text := ts.flatMap Token.text

def newline (indent : Option ℤ) (level : ℕ) : Text :=
  match indent with
  | none => []
  | some n => cp '\n' :: List.replicate (n.toNat * level) (cp ' ')

def itemSeparator (indent : Option ℤ) : Text :=
  match indent with
  | none => CodeText.text ", "
  | some _ => CodeText.text ","

/-- The parts of a container after the first one, and its closing bracket. -/
def containerEnd (closing : CodePoint) (indent : Option ℤ) (level : ℕ) :
    List (List Token) → List Token
  | [] => [.bare (newline indent level ++ [closing])]
  | part :: parts => .bare (itemSeparator indent ++ newline indent (level + 1)) ::
      (part ++ containerEnd closing indent level parts)

/-- The parts of a container, each on a line of its own if there is an indent. -/
def container (opening closing : CodePoint) (indent : Option ℤ) (level : ℕ) :
    List (List Token) → List Token
  | [] => [.bare [opening, closing]]
  | part :: parts => .bare (opening :: newline indent (level + 1)) ::
      (part ++ containerEnd closing indent level parts)

def sortByKey {β : Type} (members : List (Text × β)) : List (Text × β) :=
  members.insertionSort fun a b => a.1 ≤ b.1

def member (m : Text × List Token) : List Token :=
  .quoted m.1 :: .bare (CodeText.text ": ") :: m.2

mutual

def render (indent : Option ℤ) (level : ℕ) : Json FloatText → List Token
  | .null => [.bare (CodeText.text "null")]
  | .bool b => [.bare (if b then CodeText.text "true" else CodeText.text "false")]
  | .int n => [.bare (decimal n)]
  | .float x => [.bare x.text]
  | .str s => [.quoted s]
  | .arr items => container (cp '[') (cp ']') indent level (renderItems indent (level + 1) items)
  | .obj members => container (cp '{') (cp '}') indent level
      ((sortByKey (renderMembers indent (level + 1) members)).map member)

def renderItems (indent : Option ℤ) (level : ℕ) : List (Json FloatText) → List (List Token)
  | [] => []
  | x :: xs => render indent level x :: renderItems indent level xs

def renderMembers (indent : Option ℤ) (level : ℕ) :
    List (Text × Json FloatText) → List (Text × List Token)
  | [] => []
  | (k, x) :: ms => (k, render indent level x) :: renderMembers indent level ms

end

mutual

/-- No integer has more digits than the interpreter writes. -/
def writable : Json FloatText → Bool
  | .int n => n.natAbs < 10 ^ maxIntDigits
  | .arr items => writableItems items
  | .obj members => writableMembers members
  | _ => true

def writableItems : List (Json FloatText) → Bool
  | [] => true
  | x :: xs => writable x && writableItems xs

def writableMembers : List (Text × Json FloatText) → Bool
  | [] => true
  | (_, x) :: ms => writable x && writableMembers ms

end

/-- `none` is a `ValueError`. -/
def dumps (indent : Option ℤ) (x : Json FloatText) : Option (List Token) :=
  if writable x then some (render indent 0 x) else none

/-- What may follow a string. -/
def isBreak (c : CodePoint) : Bool := c ∈ CodeText.text ",:]\x7d\n"

def Token.startsWithBreak : Token → Bool
  | .quoted _ => false
  | .bare t => t.head?.any isBreak

def Follows (a b : Token) : Prop :=
  match a with
  | .quoted _ => b.startsWithBreak = true
  | .bare _ => True

def Token.Plain : Token → Prop
  | .quoted _ => True
  | .bare t => t.all isBareChar = true

/-- Outside the strings there are bare characters only, and after each string there is one that
separates. -/
structure WellFormed (ts : List Token) : Prop where
  plain : ∀ t ∈ ts, t.Plain
  follows : ts.IsChain Follows

theorem wellFormed_nil : WellFormed [] := ⟨by simp, List.isChain_nil⟩

theorem wellFormed_bare {t : Text} {ts : List Token} (ht : t.all isBareChar = true)
    (hts : WellFormed ts) : WellFormed (.bare t :: ts) := by
  constructor
  · intro u hu
    rcases List.mem_cons.mp hu with rfl | hu
    · exact ht
    · exact hts.plain u hu
  · rw [List.isChain_cons]
    exact ⟨fun _ _ => trivial, hts.follows⟩

theorem wellFormed_quoted {s : Text} {ts : List Token}
    (hhead : ∀ t ∈ ts.head?, t.startsWithBreak = true) (hts : WellFormed ts) :
    WellFormed (.quoted s :: ts) := by
  constructor
  · intro u hu
    rcases List.mem_cons.mp hu with rfl | hu
    · trivial
    · exact hts.plain u hu
  · rw [List.isChain_cons]
    exact ⟨hhead, hts.follows⟩

theorem wellFormed_append {ts us : List Token} (hts : WellFormed ts) (hus : WellFormed us)
    (hhead : ∀ t ∈ us.head?, t.startsWithBreak = true) : WellFormed (ts ++ us) := by
  constructor
  · intro u hu
    rcases List.mem_append.mp hu with hu | hu
    · exact hts.plain u hu
    · exact hus.plain u hu
  · rw [List.isChain_append]
    refine ⟨hts.follows, hus.follows, ?_⟩
    intro t _ u hu
    cases t with
    | quoted s => exact hhead u hu
    | bare s => trivial

theorem newline_bare (indent : Option ℤ) (level : ℕ) :
    (newline indent level).all isBareChar = true := by
  cases indent with
  | none => rfl
  | some n =>
    rw [newline, List.all_cons, Bool.and_eq_true, List.all_eq_true]
    refine ⟨by decide, ?_⟩
    intro c hc
    obtain ⟨-, rfl⟩ := List.mem_replicate.mp hc
    decide

theorem digits_bare (n : ℕ) : (digits n).all isBareChar = true := by
  rw [digits, List.all_map, List.all_eq_true]
  intro d hd
  have hdigit := Nat.isDigit_of_mem_toDigits (by decide) (by decide) hd
  have hbetween : between '0' '9' (cp d) = true := by
    rw [Char.isDigit, Bool.and_eq_true, decide_eq_true_eq, decide_eq_true_eq] at hdigit
    exact decide_eq_true hdigit
  simp only [Function.comp_apply, isBareChar, hbetween, Bool.true_or]

theorem decimal_bare (n : ℤ) : (decimal n).all isBareChar = true := by
  rw [decimal]
  split
  · rw [List.all_cons, digits_bare]
    rfl
  · exact digits_bare _

theorem itemSeparator_bare (indent : Option ℤ) : (itemSeparator indent).all isBareChar = true := by
  cases indent <;> rfl

/-- The end of a container, after its first part. -/
theorem containerEnd_wellFormed {closing : CodePoint} {indent : Option ℤ} {level : ℕ}
    (hclosing : isBareChar closing = true) (hbreak : isBreak closing = true)
    {parts : List (List Token)} (hparts : ∀ part ∈ parts, WellFormed part) :
    WellFormed (containerEnd closing indent level parts) ∧
      ∀ t ∈ (containerEnd closing indent level parts).head?, t.startsWithBreak = true := by
  induction parts with
  | nil =>
    refine ⟨wellFormed_bare ?_ wellFormed_nil, ?_⟩
    · rw [List.all_append, newline_bare, List.all_cons, hclosing]
      rfl
    · intro t ht
      cases ht
      cases indent with
      | none => exact hbreak
      | some n => rfl
  | cons q parts ih =>
    obtain ⟨hwf, hhead⟩ := ih fun r hr => hparts r (List.mem_cons_of_mem q hr)
    refine ⟨wellFormed_bare ?_ (wellFormed_append (hparts q List.mem_cons_self) hwf hhead), ?_⟩
    · rw [List.all_append, itemSeparator_bare, newline_bare]
      rfl
    · intro t ht
      cases ht
      cases indent <;> rfl

theorem container_wellFormed {opening closing : CodePoint} {indent : Option ℤ} {level : ℕ}
    (hopening : isBareChar opening = true) (hclosing : isBareChar closing = true)
    (hbreak : isBreak closing = true) {parts : List (List Token)}
    (hparts : ∀ part ∈ parts, WellFormed part) :
    WellFormed (container opening closing indent level parts) := by
  cases parts with
  | nil =>
    apply wellFormed_bare _ wellFormed_nil
    rw [List.all_cons, hopening, List.all_cons, hclosing]
    rfl
  | cons part parts =>
    obtain ⟨hwf, hhead⟩ := @containerEnd_wellFormed closing indent level
      hclosing hbreak parts fun q hq => hparts q (List.mem_cons_of_mem part hq)
    apply wellFormed_bare
    · rw [List.all_cons, hopening, newline_bare]
      rfl
    · exact wellFormed_append (hparts part List.mem_cons_self) hwf hhead

theorem member_wellFormed {k : Text} {ts : List Token} (h : WellFormed ts) :
    WellFormed (member (k, ts)) := by
  apply wellFormed_quoted
  · intro t ht
    cases ht
    rfl
  · exact wellFormed_bare (by decide) h

mutual

theorem render_wellFormed (indent : Option ℤ) (level : ℕ) (x : Json FloatText) :
    WellFormed (render indent level x) := by
  cases x with
  | null => exact wellFormed_bare (by decide) wellFormed_nil
  | bool b => exact wellFormed_bare (by cases b <;> decide) wellFormed_nil
  | int n => exact wellFormed_bare (decimal_bare n) wellFormed_nil
  | float x => exact wellFormed_bare x.plain wellFormed_nil
  | str s => exact wellFormed_quoted nofun wellFormed_nil
  | arr items =>
    apply container_wellFormed (by decide) (by decide) (by decide)
    exact renderItems_wellFormed indent (level + 1) items
  | obj members =>
    apply container_wellFormed (by decide) (by decide) (by decide)
    intro part hpart
    obtain ⟨m, hm, rfl⟩ := List.mem_map.mp hpart
    apply member_wellFormed
    exact renderMembers_wellFormed indent (level + 1) members m
      ((List.mem_insertionSort _).mp hm)

theorem renderItems_wellFormed (indent : Option ℤ) (level : ℕ) (items : List (Json FloatText)) :
    ∀ part ∈ renderItems indent level items, WellFormed part := by
  cases items with
  | nil => simp [renderItems]
  | cons x xs =>
    intro part hpart
    rcases List.mem_cons.mp hpart with rfl | hpart
    · exact render_wellFormed indent level x
    · exact renderItems_wellFormed indent level xs part hpart

theorem renderMembers_wellFormed (indent : Option ℤ) (level : ℕ)
    (members : List (Text × Json FloatText)) :
    ∀ m ∈ renderMembers indent level members, WellFormed m.2 := by
  cases members with
  | nil => simp [renderMembers]
  | cons m ms =>
    obtain ⟨k, x⟩ := m
    intro part hpart
    rcases List.mem_cons.mp hpart with rfl | hpart
    · exact render_wellFormed indent level x
    · exact renderMembers_wellFormed indent level ms part hpart

end

theorem hexDigit_bare : ∀ d, isBareChar (hexDigit d) = true := by decide

theorem hexEscape_mem {n : ℕ} {x : CodePoint} (h : x ∈ hexEscape n) :
    isPlain x = false ∨ isBareChar x = true := by
  simp only [hexEscape, List.mem_cons, List.not_mem_nil, or_false] at h
  rcases h with rfl | rfl | rfl | rfl | rfl | rfl
  · exact Or.inl (by decide)
  · exact Or.inr (by decide)
  · exact Or.inr (hexDigit_bare _)
  · exact Or.inr (hexDigit_bare _)
  · exact Or.inr (hexDigit_bare _)
  · exact Or.inr (hexDigit_bare _)

theorem shortEscape_mem {c d : CodePoint} (h : shortEscape c = some d) :
    isPlain d = false ∨ isBareChar d = true := by
  simp only [shortEscape] at h
  split at h
  · rename_i hc
    cases h
    rcases hc with rfl | rfl <;> exact Or.inl (by decide)
  · right
    split_ifs at h <;> cases h <;> decide

/-- An escape is written with backslashes, quotes and bare characters. -/
theorem escape_mem {c x : CodePoint} (h : x ∈ escape c) :
    isPlain x = false ∨ isBareChar x = true := by
  simp only [escape] at h
  split at h
  · rename_i d hd
    simp only [List.mem_cons, List.not_mem_nil, or_false] at h
    rcases h with rfl | rfl
    · exact Or.inl (by decide)
    · exact shortEscape_mem hd
  · split at h
    · exact hexEscape_mem h
    · rcases List.mem_append.mp h with h | h
      · exact hexEscape_mem h
      · exact hexEscape_mem h

/-- A printable character that the encoder writes nowhere of its own accord. -/
structure Mark (d : CodePoint) : Prop where
  plain : isPlain d = true
  notBare : isBareChar d = false

theorem Mark.notMem_bare {d : CodePoint} (h : Mark d) {t : Text}
    (ht : t.all isBareChar = true) : d ∉ t := by
  intro hd
  exact Bool.false_ne_true (h.notBare.symm.trans (List.all_eq_true.mp ht d hd))

theorem Mark.notMem_escape {d : CodePoint} (h : Mark d) (c : CodePoint) : d ∉ escape c := by
  intro hd
  rcases escape_mem hd with hx | hx
  · exact Bool.false_ne_true (hx.symm.trans h.plain)
  · exact Bool.false_ne_true (h.notBare.symm.trans hx)

theorem Mark.ne_quote {d : CodePoint} (h : Mark d) : cp '"' ≠ d := by
  rintro rfl
  exact absurd h.plain (by decide)

theorem escape_head (c : CodePoint) : ∃ e, escape c = cp '\\' :: e := by
  simp only [escape]
  split
  · exact ⟨_, rfl⟩
  · split
    · exact ⟨_, rfl⟩
    · exact ⟨_, rfl⟩

theorem encode_cons_plain {c : CodePoint} (h : isPlain c = true) (s : Text) :
    encode (c :: s) = c :: encode s := by
  simp only [encode, List.flatMap_cons, encodeChar, if_pos h, List.singleton_append]

theorem encode_cons_escape {c : CodePoint} (h : isPlain c = false) (s : Text) :
    encode (c :: s) = escape c ++ encode s := by
  simp only [encode, List.flatMap_cons, encodeChar, h, Bool.false_eq_true, if_false]

theorem not_prefix_take_nil {c : CodePoint} {p : Text} {t : Text} :
    ¬ c :: p <+: t.take 0 := by
  rw [List.take_zero, List.prefix_nil]
  exact List.cons_ne_nil c p

theorem prefix_encode {p : Text} (hp : p.all isPlain = true) {s : Text} {n : ℕ} :
    p <+: (encode s).take n ↔ p <+: s ∧ p.length ≤ n := by
  induction p generalizing s n with
  | nil => simp
  | cons c p ih =>
    rw [List.all_cons, Bool.and_eq_true] at hp
    cases s with
    | nil => simp [encode]
    | cons x s =>
      cases n with
      | zero =>
        apply iff_of_false not_prefix_take_nil
        intro h
        exact absurd h.2 (by simp)
      | succ n =>
        by_cases hx : isPlain x = true
        · rw [encode_cons_plain hx, List.take_succ_cons, List.cons_prefix_cons,
            List.cons_prefix_cons, ih hp.2, List.length_cons, Nat.succ_le_succ_iff, and_assoc]
        · rw [Bool.not_eq_true] at hx
          obtain ⟨e, he⟩ := escape_head x
          rw [encode_cons_escape hx, he, List.cons_append, List.take_succ_cons,
            List.cons_prefix_cons, List.cons_prefix_cons]
          apply iff_of_false
          · rintro ⟨rfl, -⟩
            exact absurd hp.1 (by decide)
          · rintro ⟨⟨rfl, -⟩, -⟩
            exact Bool.false_ne_true (hx.symm.trans hp.1)

/-- Escaping neither hides nor makes a piece of plain text that begins with a mark. -/
theorem infix_encode {d : CodePoint} {p : Text} (hd : Mark d) (hp : p.all isPlain = true)
    {s : Text} {n : ℕ} : d :: p <:+: (encode s).take n ↔
      ∃ a b, s = a ++ d :: p ++ b ∧ (encode a).length + (d :: p).length ≤ n := by
  induction s generalizing n with
  | nil =>
    apply iff_of_false
    · simp [encode]
    · rintro ⟨a, b, hs, -⟩
      simp at hs
  | cons c s ih =>
    by_cases hc : isPlain c = true
    · rw [encode_cons_plain hc]
      cases n with
      | zero =>
        apply iff_of_false
        · simp
        · rintro ⟨a, b, -, hlen⟩
          simp at hlen
      | succ n =>
        have hall : (d :: p).all isPlain = true := by
          rw [List.all_cons, hd.plain, hp]
          rfl
        rw [List.take_succ_cons, List.infix_cons_iff, ih]
        constructor
        · rintro (hpre | ⟨a, b, rfl, hlen⟩)
          · rw [← List.take_succ_cons, ← encode_cons_plain hc, prefix_encode hall] at hpre
            obtain ⟨⟨b, hb⟩, hlen⟩ := hpre
            refine ⟨[], b, hb.symm, ?_⟩
            simpa [encode] using hlen
          · refine ⟨c :: a, b, rfl, ?_⟩
            rw [encode_cons_plain hc, List.length_cons]
            omega
        · rintro ⟨a, b, hs, hlen⟩
          cases a with
          | nil =>
            left
            rw [← List.take_succ_cons, ← encode_cons_plain hc, prefix_encode hall]
            exact ⟨⟨b, hs.symm⟩, by simpa [encode] using hlen⟩
          | cons x a =>
            right
            obtain ⟨rfl, hrest⟩ := List.cons.inj hs
            rw [encode_cons_plain hc, List.length_cons] at hlen
            exact ⟨a, b, hrest, by omega⟩
    · rw [Bool.not_eq_true] at hc
      have hnot : d ∉ (escape c).take n := fun h => hd.notMem_escape c (List.mem_of_mem_take h)
      rw [encode_cons_escape hc, List.take_append, infix_append_of_notMem hnot, ih]
      constructor
      · rintro ⟨a, b, rfl, hlen⟩
        refine ⟨c :: a, b, rfl, ?_⟩
        rw [encode_cons_escape hc, List.length_append]
        rw [List.length_cons] at hlen ⊢
        omega
      · rintro ⟨a, b, hs, hlen⟩
        cases a with
        | nil =>
          obtain ⟨rfl, -⟩ := List.cons.inj hs
          exact absurd hd.plain (by rw [hc]; exact Bool.false_ne_true)
        | cons x a =>
          obtain ⟨rfl, hrest⟩ := List.cons.inj hs
          rw [encode_cons_escape hc, List.length_append] at hlen
          exact ⟨a, b, hrest, by omega⟩

theorem flat_bare (t : Text) (ts : List Token) : flat (.bare t :: ts) = t ++ flat ts := rfl

theorem flat_quoted (s : Text) (ts : List Token) :
    flat (.quoted s :: ts) = cp '"' :: (encode s ++ cp '"' :: flat ts) := by
  simp [flat, Token.text]

theorem flat_append (ts us : List Token) : flat (ts ++ us) = flat ts ++ flat us :=
  List.flatMap_append

theorem encode_append (s t : Text) : encode (s ++ t) = encode s ++ encode t :=
  List.flatMap_append

theorem encode_of_plain {s : Text} (h : s.all isPlain = true) : encode s = s := by
  induction s with
  | nil => rfl
  | cons c s ih =>
    rw [List.all_cons, Bool.and_eq_true] at h
    rw [encode_cons_plain h.1, ih h.2]

/-- A piece without quotes that begins with a mark lies in one of the strings. -/
theorem infix_flat {d : CodePoint} {p : Text} (hd : Mark d) (hquote : cp '"' ∉ d :: p)
    {ts : List Token} (hts : ∀ t ∈ ts, t.Plain) {n : ℕ} : d :: p <:+: (flat ts).take n ↔
      ∃ pre s post, ts = pre ++ .quoted s :: post ∧
        d :: p <:+: (encode s).take (n - (flat pre).length - 1) := by
  induction ts generalizing n with
  | nil =>
    apply iff_of_false
    · simp [flat]
    · rintro ⟨pre, s, post, h, -⟩
      simp at h
  | cons t ts ih =>
    have hrest : ∀ u ∈ ts, u.Plain := fun u hu => hts u (List.mem_cons_of_mem t hu)
    cases t with
    | bare t =>
      have hnot : d ∉ t.take n := fun h =>
        hd.notMem_bare (hts _ List.mem_cons_self) (List.mem_of_mem_take h)
      rw [flat_bare, List.take_append, infix_append_of_notMem hnot, ih hrest]
      constructor
      · rintro ⟨pre, s, post, rfl, h⟩
        refine ⟨.bare t :: pre, s, post, rfl, ?_⟩
        rwa [flat_bare, List.length_append, ← Nat.sub_sub]
      · rintro ⟨pre, s, post, heq, h⟩
        cases pre with
        | nil => cases heq
        | cons u pre =>
          obtain ⟨rfl, hpost⟩ := List.cons.inj heq
          rw [flat_bare, List.length_append, ← Nat.sub_sub] at h
          exact ⟨pre, s, post, hpost, h⟩
    | quoted s =>
      have hhead : d :: p <:+: (flat (.quoted s :: ts)).take n ↔
          d :: p <:+: (encode s).take (n - 1) ∨
            d :: p <:+: (flat ts).take (n - (encode s).length - 2) := by
        cases n with
        | zero => simp
        | succ k =>
          rw [flat_quoted, List.take_succ_cons, infix_cons_of_ne hd.ne_quote, List.take_append,
            Nat.add_sub_cancel]
          cases hk : k - (encode s).length with
          | zero =>
            have hzero : k + 1 - (encode s).length - 2 = 0 := by omega
            simp [hzero]
          | succ m =>
            have hm : k + 1 - (encode s).length - 2 = m := by omega
            rw [List.take_succ_cons, infix_append_cons hquote, hm]
      rw [hhead, ih hrest]
      constructor
      · rintro (h | ⟨pre, u, post, rfl, h⟩)
        · exact ⟨[], s, ts, rfl, h⟩
        · refine ⟨.quoted s :: pre, u, post, rfl, ?_⟩
          rw [flat_quoted, List.length_cons, List.length_append, List.length_cons]
          convert! h using 2
          omega
      · rintro ⟨pre, u, post, heq, h⟩
        cases pre with
        | nil =>
          cases heq
          exact Or.inl h
        | cons v pre =>
          obtain ⟨rfl, hpost⟩ := List.cons.inj heq
          right
          refine ⟨pre, u, post, hpost, ?_⟩
          rw [flat_quoted, List.length_cons, List.length_append, List.length_cons] at h
          convert! h using 2
          omega

/-- Where a piece of plain text lies in a text that was cut after `n` characters. -/
theorem infix_take_flat {d : CodePoint} {p : Text} (hd : Mark d) (hp : p.all isPlain = true)
    {ts : List Token} (hts : WellFormed ts) {n : ℕ} : d :: p <:+: (flat ts).take n ↔
      ∃ pre s post a b, ts = pre ++ .quoted s :: post ∧ s = a ++ d :: p ++ b ∧
        (flat pre).length + 1 + (encode a).length + (d :: p).length ≤ n := by
  have hquote : cp '"' ∉ d :: p := by
    intro h
    rcases List.mem_cons.mp h with h | h
    · exact hd.ne_quote h
    · exact absurd (List.all_eq_true.mp hp _ h) (by decide)
  rw [infix_flat hd hquote hts.plain]
  constructor
  · rintro ⟨pre, s, post, rfl, h⟩
    obtain ⟨a, b, rfl, hlen⟩ := (infix_encode hd hp).mp h
    refine ⟨pre, _, post, a, b, rfl, rfl, ?_⟩
    rw [List.length_cons] at hlen ⊢
    omega
  · rintro ⟨pre, s, post, a, b, rfl, rfl, hlen⟩
    exact ⟨pre, _, post, rfl, (infix_encode hd hp).mpr ⟨a, b, rfl, by omega⟩⟩

theorem WellFormed.tail {t : Token} {ts : List Token} (h : WellFormed (t :: ts)) :
    WellFormed ts :=
  ⟨fun u hu => h.plain u (List.mem_cons_of_mem t hu), (List.isChain_cons.mp h.follows).2⟩

/-- What a text that follows a string may begin with. -/
theorem head_flat {s : Text} {ts : List Token} (h : WellFormed (.quoted s :: ts)) {c : CodePoint}
    (hc : (flat ts).head? = some c) : isBreak c = true := by
  have hhead := (List.isChain_cons.mp h.follows).1
  cases ts with
  | nil => cases hc
  | cons t ts =>
    have hbreak : t.startsWithBreak = true := hhead t rfl
    cases t with
    | quoted u => cases hbreak
    | bare t =>
      cases t with
      | nil => cases hbreak
      | cons y t =>
        cases hc
        exact hbreak

theorem encode_head {s : Text} {F : Text} (h : (encode s ++ cp '"' :: F).head? = some (cp '"')) :
    s = [] := by
  cases s with
  | nil => rfl
  | cons c s =>
    by_cases hc : isPlain c = true
    · rw [encode_cons_plain hc] at h
      obtain rfl : c = cp '"' := Option.some.inj h
      exact absurd hc (by decide)
    · rw [Bool.not_eq_true] at hc
      obtain ⟨e, he⟩ := escape_head c
      rw [encode_cons_escape hc, he] at h
      exact absurd (Option.some.inj h) (by decide)

/-- Inside a string the quotes are escaped. -/
theorem quote_after_string {d x : CodePoint} (hd : Mark d) {s F : Text}
    (hF : F.head? ≠ some x) (h : [d, cp '"', x] <:+: encode s ++ cp '"' :: F) :
    [d, cp '"', x] <:+: F := by
  induction s with
  | nil => exact (infix_cons_of_ne hd.ne_quote).mp h
  | cons c s ih =>
    by_cases hc : isPlain c = true
    · rw [encode_cons_plain hc, List.cons_append, List.infix_cons_iff,
        List.cons_prefix_cons] at h
      rcases h with ⟨-, hpre⟩ | h
      · have hhead : (encode s ++ cp '"' :: F).head? = some (cp '"') := by
          obtain ⟨r, hr⟩ := hpre
          rw [← hr]
          rfl
        rw [encode_head hhead] at hpre
        obtain ⟨r, hr⟩ := (List.cons_prefix_cons.mp hpre).2
        exact absurd (hr ▸ rfl) hF
      · exact ih h
    · rw [Bool.not_eq_true] at hc
      rw [encode_cons_escape hc, List.append_assoc,
        infix_append_of_notMem (hd.notMem_escape c)] at h
      exact ih h

/-- A quote between a mark and a character that does not separate is one of a string that ends
there, and no such character comes after it. -/
theorem no_quote_after_mark {d x : CodePoint} (hd : Mark d) (hx : isBreak x = false)
    {ts : List Token} (hts : WellFormed ts) : ¬ [d, cp '"', x] <:+: flat ts := by
  induction ts with
  | nil => simp [flat]
  | cons t ts ih =>
    intro h
    cases t with
    | bare t =>
      rw [flat_bare, infix_append_of_notMem (hd.notMem_bare (hts.plain _ List.mem_cons_self))] at h
      exact ih hts.tail h
    | quoted s =>
      rw [flat_quoted, infix_cons_of_ne hd.ne_quote] at h
      apply ih hts.tail
      apply quote_after_string hd _ h
      intro hhead
      exact Bool.false_ne_true (hx.symm.trans (head_flat hts hhead))

end JsonWriter
