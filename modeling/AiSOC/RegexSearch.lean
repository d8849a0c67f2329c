import Mathlib.Data.List.Infix
import AiSOC.CodeText

/-! # Backtracking search for a regular expression

The matcher tries the alternatives in the order of a backtracking engine and gives every place
at which a match can end, the preferred one first. Repetition is of single characters, which
leaves no empty iterations. `Matches` says what a match is without an order. -/
namespace RegexSearch

inductive Regex (α : Type*) where
  | empty
  | chars (p : α → Bool)
  | run (p : α → Bool) (least : ℕ) (most : Option ℕ)
  | boundary (isWord : α → Bool)
  | seq (r s : Regex α)
  | alt (r s : Regex α)

variable {α : Type*}

/-- A text, up to `eq` on each character. -/
def word (eq : α → α → Bool) (t : List α) : Regex α :=
  t.foldr (fun c r => .seq (.chars (eq c)) r) .empty

def inOrder (rs : List (Regex α)) : Regex α := rs.foldr .seq .empty

def anyOf (rs : List (Regex α)) : Regex α := rs.foldr .alt (.chars fun _ => false)

def optional (r : Regex α) : Regex α := .alt r .empty

section Text

open CodeText

def exactly (s : String) : Regex CodePoint := word (fun c d => c = d) (text s)
def ignoringCase (s : String) : Regex CodePoint := word eqIgnoreCase (text s)
def oneOf (s : String) : Regex CodePoint := .chars fun c => c ∈ text s
def spaces : Regex CodePoint := .run isSpace 0 none

end Text

/-- A place in a text: the character before it and what is still to come. -/
structure Place (α : Type*) where
  before : Option α
  rest : List α
  deriving DecidableEq, Repr

def runEnds (p : α → Bool) : ℕ → Option ℕ → Option α → List α → List (Place α)
  | least, _, before, [] => if least = 0 then [⟨before, []⟩] else []
  | least, most, before, c :: rest =>
    (if p c ∧ most ≠ some 0 then runEnds p (least - 1) (most.map Nat.pred) (some c) rest else []) ++
      if least = 0 then [⟨before, c :: rest⟩] else []

def isBoundary (isWord : α → Bool) (before after : Option α) : Bool :=
  before.any isWord != after.any isWord

def ends : Regex α → Place α → List (Place α)
  | .empty, x => [x]
  | .chars p, x =>
    match x.rest with
    | [] => []
    | c :: rest => if p c then [⟨some c, rest⟩] else []
  | .run p least most, x => runEnds p least most x.before x.rest
  | .boundary isWord, x => if isBoundary isWord x.before x.rest.head? then [x] else []
  | .seq r s, x => (ends r x).flatMap (ends s)
  | .alt r s, x => ends r x ++ ends s x

/-- The character before the place that a piece leads to. -/
def lastOf (before : Option α) (m : List α) : Option α := m.foldl (fun _ c => some c) before

@[simp] theorem lastOf_nil (before : Option α) : lastOf before [] = before := rfl

@[simp] theorem lastOf_cons (before : Option α) (c : α) (m : List α) :
    lastOf before (c :: m) = lastOf (some c) m := rfl

theorem lastOf_append (before : Option α) (m n : List α) :
    lastOf before (m ++ n) = lastOf (lastOf before m) n := List.foldl_append

/-- The piece `m` between `before` and `after` is a match. -/
def Matches : Regex α → Option α → List α → List α → Prop
  | .empty, _, m, _ => m = []
  | .chars p, _, m, _ => ∃ c, m = [c] ∧ p c = true
  | .run p least most, _, m, _ =>
    (∀ c ∈ m, p c = true) ∧ least ≤ m.length ∧ ∀ n ∈ most, m.length ≤ n
  | .boundary isWord, before, m, after =>
    m = [] ∧ isBoundary isWord before after.head? = true
  | .seq r s, before, m, after => ∃ m₁ m₂, m = m₁ ++ m₂ ∧
    Matches r before m₁ (m₂ ++ after) ∧ Matches s (lastOf before m₁) m₂ after
  | .alt r s, before, m, after => Matches r before m after ∨ Matches s before m after

/-- `y` is reached from `x` over the piece `m`. -/
def Place.To (x : Place α) (m : List α) (y : Place α) : Prop :=
  x.rest = m ++ y.rest ∧ y.before = lastOf x.before m

theorem to_nil {x y : Place α} : x.To [] y ↔ y = x := by
  obtain ⟨before, rest⟩ := x
  obtain ⟨before', rest'⟩ := y
  simp [Place.To, eq_comm, and_comm]

theorem to_append {x y : Place α} {m n : List α} :
    x.To (m ++ n) y ↔ ∃ z, x.To m z ∧ z.To n y := by
  constructor
  · intro h
    refine ⟨⟨lastOf x.before m, n ++ y.rest⟩, ⟨?_, rfl⟩, rfl, ?_⟩
    · rw [h.1, List.append_assoc]
    · rw [h.2, lastOf_append]
  · rintro ⟨z, hm, hn⟩
    refine ⟨?_, ?_⟩
    · rw [hm.1, hn.1, List.append_assoc]
    · rw [hn.2, hm.2, lastOf_append]

theorem to_cons {before : Option α} {rest : List α} {c : α} {m : List α} {y : Place α} :
    Place.To ⟨before, c :: rest⟩ (c :: m) y ↔ Place.To ⟨some c, rest⟩ m y := by
  simp only [Place.To, List.cons_append, List.cons.injEq, true_and, lastOf_cons]

theorem mem_runEnds {p : α → Bool} {least : ℕ} {most : Option ℕ} {before : Option α}
    {rest : List α} {y : Place α} : y ∈ runEnds p least most before rest ↔
      ∃ m, Place.To ⟨before, rest⟩ m y ∧ (∀ c ∈ m, p c = true) ∧ least ≤ m.length ∧
        ∀ n ∈ most, m.length ≤ n := by
  induction rest generalizing least most before with
  | nil =>
    simp only [runEnds]
    constructor
    · intro hy
      split at hy
      · refine ⟨[], to_nil.mpr (List.mem_singleton.mp hy), by simp, by omega, by simp⟩
      · cases hy
    · rintro ⟨m, hto, -, hleast, -⟩
      obtain ⟨rfl, -⟩ := List.append_eq_nil_iff.mp hto.1.symm
      rw [if_pos (Nat.le_zero.mp hleast)]
      exact List.mem_singleton.mpr (to_nil.mp hto)
  | cons c rest ih =>
    simp only [runEnds, List.mem_append]
    constructor
    · rintro (hy | hy)
      · split at hy
        · rename_i hc
          obtain ⟨m, hto, hall, hleast, hmost⟩ := ih.mp hy
          refine ⟨c :: m, to_cons.mpr hto, ?_, ?_, ?_⟩
          · intro d hd
            rcases List.mem_cons.mp hd with rfl | hd
            · exact hc.1
            · exact hall d hd
          · rw [List.length_cons]
            omega
          · intro n hn
            have hpred := hmost (n - 1) (Option.map_eq_some_iff.mpr ⟨n, hn, rfl⟩)
            have hpos : n ≠ 0 := fun h0 => hc.2 (h0 ▸ hn)
            rw [List.length_cons]
            omega
        · cases hy
      · split at hy
        · exact ⟨[], to_nil.mpr (List.mem_singleton.mp hy), by simp, by omega, by simp⟩
        · cases hy
    · rintro ⟨m, hto, hall, hleast, hmost⟩
      cases m with
      | nil =>
        right
        rw [if_pos (Nat.le_zero.mp hleast)]
        exact List.mem_singleton.mpr (to_nil.mp hto)
      | cons d m =>
        left
        obtain ⟨rfl, -⟩ := List.cons.inj hto.1
        rw [List.length_cons] at hleast hmost
        have hsome : most ≠ some 0 := by
          intro h0
          exact absurd (hmost 0 h0) (by omega)
        rw [if_pos ⟨hall c List.mem_cons_self, hsome⟩, ih]
        refine ⟨m, to_cons.mp hto, fun d hd => hall d (List.mem_cons_of_mem c hd), by omega, ?_⟩
        intro n hn
        obtain ⟨k, hk, rfl⟩ := Option.map_eq_some_iff.mp hn
        have hle := hmost k hk
        rw [Nat.pred_eq_sub_one]
        omega

theorem mem_ends (r : Regex α) {x y : Place α} :
    y ∈ ends r x ↔ ∃ m, x.To m y ∧ Matches r x.before m y.rest := by
  induction r generalizing x y with
  | empty =>
    simp only [ends, Matches, List.mem_singleton]
    constructor
    · intro h
      exact ⟨[], to_nil.mpr h, rfl⟩
    · rintro ⟨m, hto, rfl⟩
      exact to_nil.mp hto
  | chars p =>
    obtain ⟨before, rest⟩ := x
    cases rest with
    | nil =>
      simp only [ends, Matches, List.not_mem_nil, false_iff]
      rintro ⟨m, hto, c, rfl, -⟩
      cases hto.1
    | cons d rest =>
      simp only [ends, Matches]
      constructor
      · intro hy
        split at hy
        · rename_i hd
          exact ⟨[d], to_cons.mpr (to_nil.mpr (List.mem_singleton.mp hy)), d, rfl, hd⟩
        · cases hy
      · rintro ⟨m, hto, c, rfl, hc⟩
        obtain ⟨rfl, -⟩ := List.cons.inj hto.1
        rw [if_pos hc]
        exact List.mem_singleton.mpr (to_nil.mp (to_cons.mp hto))
  | run p least most => exact mem_runEnds
  | boundary isWord =>
    simp only [ends, Matches]
    constructor
    · intro hy
      split at hy
      · rename_i hb
        obtain rfl := List.mem_singleton.mp hy
        exact ⟨[], to_nil.mpr rfl, rfl, hb⟩
      · cases hy
    · rintro ⟨m, hto, rfl, hb⟩
      obtain rfl := to_nil.mp hto
      rw [if_pos hb]
      exact List.mem_singleton_self _
  | seq r s ihr ihs =>
    simp only [ends, Matches, List.mem_flatMap]
    constructor
    · rintro ⟨z, hz, hy⟩
      obtain ⟨m, hxz, hm⟩ := ihr.mp hz
      obtain ⟨n, hzy, hn⟩ := ihs.mp hy
      refine ⟨m ++ n, to_append.mpr ⟨z, hxz, hzy⟩, m, n, rfl, ?_, ?_⟩
      · rwa [← hzy.1]
      · rwa [← hxz.2]
    · rintro ⟨_, hto, m, n, rfl, hm, hn⟩
      obtain ⟨z, hxz, hzy⟩ := to_append.mp hto
      refine ⟨z, ihr.mpr ⟨m, hxz, ?_⟩, ihs.mpr ⟨n, hzy, ?_⟩⟩
      · rwa [hzy.1]
      · rwa [hxz.2]
  | alt r s ihr ihs =>
    simp only [ends, Matches, List.mem_append, ihr, ihs, and_or_left, exists_or]

/-- All places of a text, from the left. -/
def places : Option α → List α → List (Place α)
  | before, [] => [⟨before, []⟩]
  | before, c :: rest => ⟨before, c :: rest⟩ :: places (some c) rest

/-- The length of the preferred match at a place. -/
def matchLength (r : Regex α) (x : Place α) : Option ℕ :=
  (ends r x).head?.map fun y => x.rest.length - y.rest.length

/-- The text of the leftmost match. -/
def search (r : Regex α) (t : List α) : Option (List α) :=
  (places none t).findSome? fun x => (matchLength r x).map fun n => x.rest.take n

/-- Replaces the matches from the left; `skip` characters still belong to the last one. For
expressions without an empty match. -/
def subFrom (r : Regex α) (replacement : List α) : Option α → ℕ → List α → List α
  | _, _, [] => []
  | _, skip + 1, c :: rest => subFrom r replacement (some c) skip rest
  | before, 0, c :: rest =>
    match matchLength r ⟨before, c :: rest⟩ with
    | some (n + 1) => replacement ++ subFrom r replacement (some c) n rest
    | _ => c :: subFrom r replacement (some c) 0 rest

def sub (r : Regex α) (replacement t : List α) : List α := subFrom r replacement none 0 t

theorem mem_places {before : Option α} {t : List α} {x : Place α} :
    x ∈ places before t ↔ ∃ m, Place.To ⟨before, t⟩ m x := by
  induction t generalizing before with
  | nil =>
    simp only [places, List.mem_singleton]
    constructor
    · intro hx
      exact ⟨[], to_nil.mpr hx⟩
    · rintro ⟨m, hto⟩
      obtain ⟨rfl, -⟩ := List.append_eq_nil_iff.mp hto.1.symm
      exact to_nil.mp hto
  | cons c t ih =>
    simp only [places, List.mem_cons]
    constructor
    · rintro (hx | hx)
      · exact ⟨[], to_nil.mpr hx⟩
      · obtain ⟨m, hto⟩ := ih.mp hx
        exact ⟨c :: m, to_cons.mpr hto⟩
    · rintro ⟨m, hto⟩
      cases m with
      | nil => exact Or.inl (to_nil.mp hto)
      | cons d m =>
        obtain ⟨rfl, -⟩ := List.cons.inj hto.1
        exact Or.inr (ih.mpr ⟨m, to_cons.mp hto⟩)

/-- The text holds a match, wherever it begins and however it goes on. -/
def Occurs (r : Regex α) (t : List α) : Prop :=
  ∃ pre m post, t = pre ++ m ++ post ∧ Matches r (lastOf none pre) m post

theorem matchLength_isSome {r : Regex α} {x : Place α} :
    (matchLength r x).isSome ↔ ∃ m y, x.To m y ∧ Matches r x.before m y.rest := by
  rw [matchLength, Option.isSome_map, List.isSome_head?]
  constructor
  · intro hne
    obtain ⟨y, hy⟩ := List.exists_mem_of_ne_nil _ hne
    obtain ⟨m, hm⟩ := (mem_ends r).mp hy
    exact ⟨m, y, hm⟩
  · rintro ⟨m, y, hm⟩
    exact List.ne_nil_of_mem ((mem_ends r).mpr ⟨m, hm⟩)

theorem search_isSome {r : Regex α} {t : List α} : (search r t).isSome ↔ Occurs r t := by
  simp only [search, List.isSome_findSome?, List.any_eq_true, Option.isSome_map, mem_places,
    matchLength_isSome]
  constructor
  · rintro ⟨x, ⟨pre, hpre⟩, m, y, hm, hmatch⟩
    refine ⟨pre, m, y.rest, ?_, ?_⟩
    · rw [List.append_assoc, ← hm.1]
      exact hpre.1
    · rwa [← hpre.2]
  · rintro ⟨pre, m, post, rfl, hmatch⟩
    refine ⟨⟨lastOf none pre, m ++ post⟩, ⟨pre, ?_, rfl⟩, m, ⟨_, post⟩, ⟨rfl, rfl⟩, hmatch⟩
    exact List.append_assoc pre m post

/-- Replacing single characters is a map. -/
theorem sub_chars (p : α → Bool) (d : α) (t : List α) :
    sub (.chars p) [d] t = t.map fun c => if p c then d else c := by
  have hfrom : ∀ before, subFrom (.chars p) [d] before 0 t = t.map fun c => if p c then d else c := by
    induction t with
    | nil => exact fun _ => rfl
    | cons c t ih =>
      intro before
      by_cases hc : p c = true
      · simp [subFrom, matchLength, ends, hc, ih]
      · simp [subFrom, matchLength, ends, hc, ih]
  exact hfrom none

/-- Expressions that look at nothing but the match. -/
def contextFree : Regex α → Bool
  | .empty | .chars _ | .run _ _ _ => true
  | .boundary _ => false
  | .seq r s | .alt r s => contextFree r && contextFree s

theorem matches_of_contextFree {r : Regex α} (h : contextFree r = true) {before before' : Option α}
    {m after after' : List α} (hm : Matches r before m after) : Matches r before' m after' := by
  induction r generalizing before before' m after after' with
  | empty => exact hm
  | chars p => exact hm
  | run p least most => exact hm
  | boundary isWord => cases h
  | seq r s ihr ihs =>
    simp only [contextFree, Bool.and_eq_true] at h
    obtain ⟨m₁, m₂, rfl, h₁, h₂⟩ := hm
    exact ⟨m₁, m₂, rfl, ihr h.1 h₁, ihs h.2 h₂⟩
  | alt r s ihr ihs =>
    simp only [contextFree, Bool.and_eq_true] at h
    rcases hm with hm | hm
    · exact Or.inl (ihr h.1 hm)
    · exact Or.inr (ihs h.2 hm)

/-- What occurs in the first `n` characters. -/
theorem occurs_take {r : Regex α} (h : contextFree r = true) {t : List α} {n : ℕ} :
    Occurs r (t.take n) ↔ ∃ pre m post, t = pre ++ m ++ post ∧
      Matches r (lastOf none pre) m post ∧ (pre ++ m).length ≤ n := by
  constructor
  · rintro ⟨pre, m, post, ht, hm⟩
    refine ⟨pre, m, post ++ t.drop n, ?_, matches_of_contextFree h hm, ?_⟩
    · rw [← List.append_assoc, ← ht, List.take_append_drop]
    · have hlen := congrArg List.length ht
      rw [List.length_append, List.length_take] at hlen
      omega
  · rintro ⟨pre, m, post, rfl, hm, hlen⟩
    refine ⟨pre, m, post.take (n - (pre ++ m).length), ?_, matches_of_contextFree h hm⟩
    rw [List.take_append, List.take_of_length_le hlen]

end RegexSearch
