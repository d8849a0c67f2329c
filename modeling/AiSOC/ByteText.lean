import Mathlib.Data.List.Find
import Mathlib.Data.List.Infix

/-! # Text as bytes

Strings that are sequences of bytes, with the white space that is trimmed at their ends. A
character beyond ASCII is one of several bytes, so white space is a list of encodings. -/
namespace ByteText

abbrev Bytes := List UInt8

/-- An ASCII character. -/
def byte (c : Char) : UInt8 := UInt8.ofNat c.toNat

def bytes (s : String) : Bytes := s.toList.map byte

/-- The UTF-8 encodings of the white space characters. -/
def spaces : List Bytes :=
  [[0x09], [0x0a], [0x0b], [0x0c], [0x0d], [0x20], [0xc2, 0x85], [0xc2, 0xa0],
    [0xe1, 0x9a, 0x80], [0xe2, 0x80, 0x80], [0xe2, 0x80, 0x81], [0xe2, 0x80, 0x82],
    [0xe2, 0x80, 0x83], [0xe2, 0x80, 0x84], [0xe2, 0x80, 0x85], [0xe2, 0x80, 0x86],
    [0xe2, 0x80, 0x87], [0xe2, 0x80, 0x88], [0xe2, 0x80, 0x89], [0xe2, 0x80, 0x8a],
    [0xe2, 0x80, 0xa8], [0xe2, 0x80, 0xa9], [0xe2, 0x80, 0xaf], [0xe2, 0x81, 0x9f],
    [0xe3, 0x80, 0x80]]

/-- Drops the words `ws` from the beginning, at most `fuel` of them. -/
def dropWords (ws : List Bytes) : ℕ → Bytes → Bytes
  | 0, s => s
  | fuel + 1, s =>
    match ws.find? (·.isPrefixOf s) with
    | none => s
    | some w => dropWords ws fuel (s.drop w.length)

def trimLeft (s : Bytes) : Bytes := dropWords spaces s.length s

def trimRight (s : Bytes) : Bytes :=
  (dropWords (spaces.map List.reverse) s.length s.reverse).reverse

def trimSpace (s : Bytes) : Bytes := trimRight (trimLeft s)

variable {ws : List Bytes} {s t w : Bytes} {b : UInt8} {fuel fuel' : ℕ}

theorem dropWords_of_none (h : ws.find? (·.isPrefixOf s) = none) : dropWords ws fuel s = s := by
  cases fuel with
  | zero => rfl
  | succ fuel => rw [dropWords, h]

theorem dropWords_nil (hws : ∀ w ∈ ws, w ≠ []) : dropWords ws fuel [] = [] := by
  apply dropWords_of_none
  rw [List.find?_eq_none]
  intro w hw hpre
  exact hws w hw (List.prefix_nil.mp (List.isPrefixOf_iff_prefix.mp hpre))

/-- What is dropped consists of bytes of the words. -/
theorem dropWords_suffix (ws : List Bytes) (fuel : ℕ) (s : Bytes) :
    ∃ dropped, s = dropped ++ dropWords ws fuel s ∧ ∀ b ∈ dropped, ∃ w ∈ ws, b ∈ w := by
  induction fuel generalizing s with
  | zero => exact ⟨[], rfl, by simp⟩
  | succ fuel ih =>
    cases hw : ws.find? (·.isPrefixOf s) with
    | none => exact ⟨[], by rw [dropWords_of_none hw, List.nil_append], by simp⟩
    | some w =>
      have hpre := List.find?_some hw
      obtain ⟨rest, rfl⟩ := List.isPrefixOf_iff_prefix.mp hpre
      obtain ⟨dropped, hrest, hmem⟩ := ih rest
      refine ⟨w ++ dropped, ?_, ?_⟩
      · rw [dropWords, hw]
        dsimp only
        rw [List.drop_left, List.append_assoc, ← hrest]
      · intro b hb
        rcases List.mem_append.mp hb with hb | hb
        · exact ⟨w, List.mem_of_find?_eq_some hw, hb⟩
        · exact hmem b hb

theorem prefix_append_cons (h : b ∉ w) : w <+: s ++ b :: t ↔ w <+: s := by
  constructor
  · rintro ⟨u, hu⟩
    rcases List.append_eq_append_iff.mp hu with ⟨r, hs, -⟩ | ⟨r, hw, hr⟩
    · exact ⟨r, hs.symm⟩
    · cases r with
      | nil =>
        rw [hw, List.append_nil]
      | cons c r =>
        obtain ⟨rfl, -⟩ := List.cons.inj hr
        exact absurd (hw ▸ List.mem_append_right s List.mem_cons_self) h
  · exact fun hw => hw.trans (List.prefix_append s (b :: t))

/-- A byte of none of the words stops the dropping. -/
theorem dropWords_append_cons (hws : ∀ w ∈ ws, w ≠ []) (hb : ∀ w ∈ ws, b ∉ w)
    (hfuel : s.length ≤ fuel) (hfuel' : s.length ≤ fuel') :
    dropWords ws fuel (s ++ b :: t) = dropWords ws fuel' s ++ b :: t := by
  induction fuel generalizing s fuel' with
  | zero =>
    obtain rfl := List.length_eq_zero_iff.mp (Nat.le_zero.mp hfuel)
    cases fuel' with
    | zero => rfl
    | succ fuel' => rw [dropWords_nil hws, dropWords, List.nil_append]
  | succ fuel ih =>
    have hfind : ws.find? (·.isPrefixOf (s ++ b :: t)) = ws.find? (·.isPrefixOf s) := by
      apply List.find?_congr
      intro w hw
      rw [Bool.eq_iff_iff, List.isPrefixOf_iff_prefix, List.isPrefixOf_iff_prefix]
      exact prefix_append_cons (hb w hw)
    rw [dropWords, hfind]
    cases hw : ws.find? (·.isPrefixOf s) with
    | none => rw [dropWords_of_none hw]
    | some w =>
      have hpre := List.find?_some hw
      have hpos := List.length_pos_iff.mpr (hws w (List.mem_of_find?_eq_some hw))
      have hle := (List.isPrefixOf_iff_prefix.mp hpre).length_le
      dsimp only
      rw [List.drop_append_of_le_length hle]
      cases fuel' with
      | zero => omega
      | succ fuel' =>
        rw [dropWords, hw]
        apply ih
        · rw [List.length_drop]
          omega
        · rw [List.length_drop]
          omega

theorem spaces_ne_nil : ∀ w ∈ spaces, w ≠ [] := by decide

/-- Trimming at the end stops at a byte that is part of no white space. -/
theorem trimRight_append_cons (hb : ∀ w ∈ spaces, b ∉ w) :
    trimRight (s ++ b :: t) = s ++ b :: trimRight t := by
  have hne : ∀ w ∈ spaces.map List.reverse, w ≠ [] := by decide
  have hmem : ∀ w ∈ spaces.map List.reverse, b ∉ w := by
    intro w hw
    obtain ⟨v, hv, rfl⟩ := List.mem_map.mp hw
    exact fun h => hb v hv (List.mem_reverse.mp h)
  have hreverse : (s ++ b :: t).reverse = t.reverse ++ b :: s.reverse := by simp
  rw [trimRight, hreverse, dropWords_append_cons hne hmem _ t.length_reverse.le]
  · simp [trimRight]
  · simp
    omega

/-- What is trimmed at the end consists of bytes of white space. -/
theorem trimRight_prefix (s : Bytes) :
    ∃ trimmed, s = trimRight s ++ trimmed ∧ ∀ b ∈ trimmed, ∃ w ∈ spaces, b ∈ w := by
  obtain ⟨dropped, hs, hmem⟩ :=
    dropWords_suffix (spaces.map List.reverse) s.length s.reverse
  refine ⟨dropped.reverse, ?_, ?_⟩
  · rw [trimRight, ← List.reverse_append, ← hs, List.reverse_reverse]
  · intro b hb
    obtain ⟨w, hw, hbw⟩ := hmem b (List.mem_reverse.mp hb)
    obtain ⟨v, hv, rfl⟩ := List.mem_map.mp hw
    exact ⟨v, hv, List.mem_reverse.mp hbw⟩

theorem dropWords_eq_self (hws : ∀ w ∈ ws, w ≠ []) (hfuel : s.length ≤ fuel) :
    dropWords ws fuel s = s ↔ ∀ w ∈ ws, ¬w <+: s := by
  constructor
  · intro h w hw hpre
    cases hfind : ws.find? (·.isPrefixOf s) with
    | none =>
      exact List.find?_eq_none.mp hfind w hw (List.isPrefixOf_iff_prefix.mpr hpre)
    | some v =>
      have hv := List.find?_some hfind
      have hpos := List.length_pos_iff.mpr (hws v (List.mem_of_find?_eq_some hfind))
      have hle := (List.isPrefixOf_iff_prefix.mp hv).length_le
      cases fuel with
      | zero => omega
      | succ fuel =>
        rw [dropWords, hfind] at h
        dsimp only at h
        obtain ⟨dropped, hdropped, -⟩ := dropWords_suffix ws fuel (s.drop v.length)
        have hlength := congrArg List.length hdropped
        rw [List.length_append, h, List.length_drop] at hlength
        omega
  · intro h
    apply dropWords_of_none
    rw [List.find?_eq_none]
    intro w hw hpre
    exact h w hw (List.isPrefixOf_iff_prefix.mp hpre)

theorem trimRight_eq_self : trimRight s = s ↔ ∀ w ∈ spaces, ¬w <:+ s := by
  have hne : ∀ w ∈ spaces.map List.reverse, w ≠ [] := by decide
  have hiff := dropWords_eq_self hne s.length_reverse.le
  rw [List.forall_mem_map] at hiff
  simp only [List.reverse_prefix] at hiff
  rw [← hiff, trimRight]
  exact List.reverse_eq_iff

/-- A text that begins with a byte of no white space is not trimmed there. -/
theorem trimLeft_cons (hb : ∀ w ∈ spaces, b ∉ w) : trimLeft (b :: t) = b :: t := by
  have hdrop : dropWords spaces (b :: t).length ([] ++ b :: t) = dropWords spaces 0 [] ++ b :: t :=
    dropWords_append_cons spaces_ne_nil hb (Nat.zero_le _) le_rfl
  exact hdrop

end ByteText
