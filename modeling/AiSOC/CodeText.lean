import Mathlib.Data.List.DropRight
import Mathlib.Data.List.Infix

/-! # Text as code points

Strings as sequences of Unicode code points, lone surrogates among them, with the white space
of the strings that strip themselves and the facts about where a piece of a text can lie. -/
namespace CodeText

abbrev CodePoint := Fin 0x110000
abbrev Text := List CodePoint

-- Under names of their own, so that definitions find the same instance in every module.
instance (priority := 1100) instNeZeroCodePoint : @NeZero ℕ Zero.ofOfNat0 0x110000 := ⟨by decide⟩
instance (priority := 1100) instLawfulBEqCodePoint : LawfulBEq CodePoint := inferInstance
instance (priority := 1100) instLawfulBEqText : LawfulBEq Text := inferInstance

def cp (c : Char) : CodePoint := ⟨c.toNat, by
  have hvalid := c.valid
  simp only [UInt32.isValidChar, Nat.isValidChar] at hvalid
  have htoNat : c.toNat = c.val.toNat := rfl
  omega⟩

def text (s : String) : Text := s.toList.map cp

/-- The characters of a literal, without decoding it. -/
theorem text_ofList (l : List Char) : text (String.ofList l) = l.map cp := by
  rw [text, String.toList_ofList]

def isSpace (c : CodePoint) : Bool :=
  (0x09 ≤ c.val ∧ c.val ≤ 0x0d) ∨ (0x1c ≤ c.val ∧ c.val ≤ 0x20) ∨ c.val = 0x85 ∨ c.val = 0xa0 ∨
    c.val = 0x1680 ∨ (0x2000 ≤ c.val ∧ c.val ≤ 0x200a) ∨ c.val = 0x2028 ∨ c.val = 0x2029 ∨
    c.val = 0x202f ∨ c.val = 0x205f ∨ c.val = 0x3000

def between (low high : Char) (c : CodePoint) : Bool := low.toNat ≤ c.val ∧ c.val ≤ high.toNat

/-- The parts of the Unicode database that are too large to write down: the decimal digits, and
the letters and numbers of a word. -/
structure Tables where
  isDecimal : CodePoint → Bool
  isAlnum : CodePoint → Bool

/-- The tables on the ASCII range. -/
def asciiTables : Tables where
  isDecimal := between '0' '9'
  isAlnum c := between '0' '9' c || between 'A' 'Z' c || between 'a' 'z' c

def Tables.isWord (tables : Tables) (c : CodePoint) : Bool := tables.isAlnum c || c = cp '_'

/-- Equates the cases of ASCII letters, and with them the four other characters whose case is
that of an ASCII letter. -/
def foldCase (c : CodePoint) : CodePoint :=
  if between 'A' 'Z' c then c + 0x20
  else if c = 0x130 ∨ c = 0x131 then cp 'i'
  else if c = 0x17f then cp 's'
  else if c = 0x212a then cp 'k'
  else c

/-- For an ASCII character `c`. -/
def eqIgnoreCase (c d : CodePoint) : Bool := foldCase c = foldCase d

def lstrip (t : Text) : Text := t.dropWhile isSpace
def rstrip (t : Text) : Text := t.rdropWhile isSpace
def strip (t : Text) : Text := rstrip (lstrip t)

/-- The decimal digits of a natural number. -/
def digits (n : ℕ) : Text := (Nat.toDigits 10 n).map cp

def decimal (n : ℤ) : Text := if n < 0 then cp '-' :: digits n.natAbs else digits n.natAbs

variable {α : Type*} {p a b : List α} {c d : α}

/-- Two texts that agree up to the first `c` of each agree on both sides of it. -/
theorem append_cons_inj {u v : List α} (ha : c ∉ a) (hb : c ∉ b)
    (h : a ++ c :: u = b ++ c :: v) : a = b ∧ u = v := by
  induction a generalizing b with
  | nil =>
    cases b with
    | nil => exact ⟨rfl, (List.cons.inj h).2⟩
    | cons d b => exact absurd ((List.cons.inj h).1 ▸ List.mem_cons_self) hb
  | cons d a ih =>
    rw [List.mem_cons, not_or] at ha
    cases b with
    | nil => exact absurd (List.cons.inj h).1.symm ha.1
    | cons e b =>
      rw [List.mem_cons, not_or] at hb
      obtain ⟨rfl, hrest⟩ := List.cons.inj h
      obtain ⟨rfl, huv⟩ := ih ha.2 hb.2 hrest
      exact ⟨rfl, huv⟩

/-- Two texts that agree from the last `c` of each on agree on both sides of it. -/
theorem append_cons_inj_right {u v : List α} (hu : c ∉ u) (hv : c ∉ v)
    (h : a ++ c :: u = b ++ c :: v) : a = b ∧ u = v := by
  have hreverse := congrArg List.reverse h
  simp only [List.reverse_append, List.reverse_cons, List.append_assoc,
    List.singleton_append] at hreverse
  obtain ⟨huv, hab⟩ := append_cons_inj (mt List.mem_reverse.mp hu) (mt List.mem_reverse.mp hv)
    hreverse
  exact ⟨List.reverse_inj.mp hab, List.reverse_inj.mp huv⟩

theorem eq_nil_of_prefix_cons (h : c ∉ p) (hpre : p <+: c :: b) : p = [] := by
  rcases List.prefix_cons_iff.mp hpre with hnil | ⟨t, rfl, -⟩
  · exact hnil
  · exact absurd List.mem_cons_self h

/-- A piece without `c` lies on one side of it. -/
theorem infix_append_cons (h : c ∉ p) : p <:+: a ++ c :: b ↔ p <:+: a ∨ p <:+: b := by
  rw [List.infix_append_iff, List.infix_cons_iff]
  constructor
  · rintro (hleft | (hpre | hright) | ⟨l, m, rfl, hl, hm⟩)
    · exact Or.inl hleft
    · rw [eq_nil_of_prefix_cons h hpre]
      exact Or.inl List.nil_infix
    · exact Or.inr hright
    · rw [List.mem_append, not_or] at h
      rw [eq_nil_of_prefix_cons h.2 hm, List.append_nil]
      exact Or.inl hl.isInfix
  · rintro (hleft | hright)
    · exact Or.inl hleft
    · exact Or.inr (Or.inl (Or.inr hright))

/-- A piece without `c` that lies in a text around one `c` lies before or after it. -/
theorem split_append_cons {x y : List α} (hc : c ∉ p) (h : x ++ c :: y = a ++ p ++ b) :
    (∃ b', x = a ++ p ++ b') ∨ ∃ a', y = a' ++ p ++ b := by
  rcases List.append_eq_append_iff.mp h with ⟨u, hu, hy⟩ | ⟨u, hx, -⟩
  · cases u with
    | nil =>
      left
      exact ⟨[], by rw [List.append_nil, hu, List.append_nil]⟩
    | cons d u =>
      obtain ⟨rfl, rfl⟩ := List.cons.inj hy
      rcases List.append_eq_append_iff.mp hu with ⟨v, -, hp⟩ | ⟨v, -, hv⟩
      · exact absurd (hp ▸ List.mem_append_right v List.mem_cons_self) hc
      · cases v with
        | nil =>
          rw [List.nil_append] at hv
          exact absurd (hv ▸ List.mem_cons_self) hc
        | cons e v =>
          obtain ⟨-, rfl⟩ := List.cons.inj hv
          exact Or.inr ⟨v, rfl⟩
  · exact Or.inl ⟨u, hx⟩

theorem infix_of_infix_append (h : ∀ x ∈ b, x ∉ p) (hab : p <:+: a ++ b) : p <:+: a := by
  cases b with
  | nil => rwa [List.append_nil] at hab
  | cons c b =>
    rcases (infix_append_cons (h c List.mem_cons_self)).mp hab with ha | hb
    · exact ha
    · cases p with
      | nil => exact List.nil_infix
      | cons x p =>
        have hx : x ∈ b := hb.subset List.mem_cons_self
        exact absurd List.mem_cons_self (h x (List.mem_cons_of_mem c hx))

theorem infix_cons_of_ne (h : c ≠ d) : d :: p <:+: c :: b ↔ d :: p <:+: b := by
  rw [List.infix_cons_iff, List.prefix_cons_iff]
  constructor
  · rintro ((hnil | ⟨t, ht, -⟩) | hb)
    · cases hnil
    · exact absurd (List.cons.inj ht).1.symm h
    · exact hb
  · exact Or.inr

/-- A piece that begins with `d` does not begin in a text without `d`. -/
theorem infix_append_of_notMem (h : d ∉ a) : d :: p <:+: a ++ b ↔ d :: p <:+: b := by
  induction a with
  | nil => rfl
  | cons x a ih =>
    rw [List.mem_cons, not_or] at h
    rw [List.cons_append, infix_cons_of_ne (Ne.symm h.1), ih h.2]

/-- Stripping takes nothing from a piece without white space. -/
theorem infix_rstrip {p : Text} (h : ∀ c ∈ p, isSpace c = false) (t : Text) :
    p <:+: rstrip t ↔ p <:+: t := by
  constructor
  · intro hp
    exact hp.trans (List.rdropWhile_prefix isSpace t).isInfix
  · intro hp
    rw [← List.rdropWhile_append_rtakeWhile (p := isSpace) (l := t)] at hp
    apply infix_of_infix_append _ hp
    intro c hc hcp
    exact Bool.false_ne_true ((h c hcp).symm.trans (List.mem_rtakeWhile_imp hc))

theorem isSpace_of_strip {t rest : Text} {c : CodePoint} (h : strip t = c :: rest) :
    isSpace c = false := by
  obtain ⟨tail, htail⟩ := List.rdropWhile_prefix isSpace (lstrip t)
  have hstrip : t.dropWhile isSpace = c :: (rest ++ tail) := by
    rw [← List.cons_append, ← h]
    exact htail.symm
  have hhead := List.head?_dropWhile_not isSpace t
  rw [hstrip] at hhead
  exact hhead

end CodeText
