import Mathlib.Data.List.Basic
import Mathlib.Tactic.ByContra
import Mathlib.Tactic.SplitIfs

/-! # Texts with string literals, split at a separator

A literal goes from a delimiter to the next one of its kind that is not escaped. A text that is
put together from pieces is read as those pieces when each of them is a whole one. -/
namespace LiteralScan

structure Quoting (α : Type*) where
  separator : α
  escape : α
  delimiters : List α

inductive Token (α : Type*) where
  | code (c : α)
  | separator
  | literal (delimiter : α) (raw : List α)
  deriving DecidableEq

inductive Mode (α : Type*) where
  | code
  | literal (delimiter : α) (raw : List α) (escaped : Bool)

variable {α : Type*} [DecidableEq α]

@[grind =]
def scanFrom (q : Quoting α) : Mode α → List α → Option (List (Token α))
  | .code, [] => some []
  | .literal .., [] => none
  | .code, c :: t =>
    if c = q.separator then (scanFrom q .code t).map (.separator :: ·)
    else if c ∈ q.delimiters then scanFrom q (.literal c [] false) t
    else (scanFrom q .code t).map (.code c :: ·)
  | .literal d raw true, c :: t => scanFrom q (.literal d (raw ++ [c]) false) t
  | .literal d raw false, c :: t =>
    if c = d then (scanFrom q .code t).map (.literal d raw :: ·)
    else scanFrom q (.literal d (raw ++ [c]) (c = q.escape)) t

/-- The tokens of a text that closes its literals. -/
@[grind =]
def scan (q : Quoting α) (t : List α) : Option (List (Token α)) := scanFrom q .code t

/-- The pieces between the separators outside literals. -/
def stages (q : Quoting α) (t : List α) : Option (List (List (Token α))) :=
  (scan q t).map fun ts => ts.splitOn .separator

@[grind =]
def Token.render (q : Quoting α) : Token α → List α
  | .code c => [c]
  | .separator => [q.separator]
  | .literal d raw => d :: raw ++ [d]

@[grind =]
def render (q : Quoting α) (ts : List (Token α)) : List α := ts.flatMap (Token.render q)

@[grind =]
def isPlain (q : Quoting α) (c : α) : Bool := c ≠ q.separator ∧ c ∉ q.delimiters

/-- No delimiter but escaped ones, and nothing escaped after the end. -/
@[grind =]
def closedFrom (q : Quoting α) (d : α) : Bool → List α → Bool
  | escaped, [] => !escaped
  | true, _ :: t => closedFrom q d false t
  | false, c :: t => c ≠ d && closedFrom q d (c = q.escape) t

@[grind =]
def closed (q : Quoting α) (d : α) (raw : List α) : Bool := closedFrom q d false raw

@[grind =]
def Token.IsWhole (q : Quoting α) : Token α → Prop
  | .code c => isPlain q c = true
  | .separator => True
  | .literal d raw => (d ≠ q.separator ∧ d ∈ q.delimiters) ∧ closed q d raw = true

variable {q : Quoting α} {d c : α} {raw r t : List α} {ts : List (Token α)} {escaped : Bool}

/-! ## Reading tokens -/

theorem scanFrom_literal (h : closedFrom q d escaped r = true) :
    scanFrom q (.literal d raw escaped) (r ++ d :: t) =
      (scanFrom q .code t).map (.literal d (raw ++ r) :: ·) := by
  induction r generalizing raw escaped with
  | nil =>
    cases escaped with
    | true => cases h
    | false => rw [List.nil_append, scanFrom, if_pos rfl, List.append_nil]
  | cons c r ih =>
    cases escaped with
    | true =>
      rw [List.cons_append, scanFrom, ih h, List.append_assoc]
      rfl
    | false =>
      rw [closedFrom, Bool.and_eq_true, decide_eq_true_eq] at h
      rw [List.cons_append, scanFrom, if_neg h.1, ih h.2, List.append_assoc]
      rfl

theorem scan_render_append (h : ∀ tok ∈ ts, tok.IsWhole q) :
    scan q (render q ts ++ t) = (scan q t).map (ts ++ ·) := by
  induction ts with
  | nil => exact Option.map_id'.symm
  | cons tok ts ih =>
    obtain ⟨htok, hts⟩ := List.forall_mem_cons.mp h
    have hrest := ih hts
    have hcons : render q (tok :: ts) ++ t = tok.render q ++ (render q ts ++ t) := by
      rw [render, List.flatMap_cons, List.append_assoc]
      rfl
    rw [scan] at hrest
    rw [hcons, scan]
    cases tok with
    | code c =>
      rw [Token.IsWhole, isPlain, decide_eq_true_eq] at htok
      rw [Token.render, List.singleton_append, scanFrom, if_neg htok.1, if_neg htok.2, hrest,
        Option.map_map]
      rfl
    | separator =>
      rw [Token.render, List.singleton_append, scanFrom, if_pos rfl, hrest, Option.map_map]
      rfl
    | literal d raw =>
      obtain ⟨⟨hseparator, hd⟩, hclosed⟩ := htok
      rw [Token.render, List.append_assoc, List.cons_append, List.singleton_append, scanFrom,
        if_neg hseparator, if_pos hd, scanFrom_literal hclosed, hrest, Option.map_map]
      rfl

/-- A literal that is closed ends at its delimiter. -/
theorem exists_of_scanFrom_literal (h : scanFrom q (.literal d raw escaped) t = some ts) :
    ∃ r rest later, t = r ++ d :: rest ∧ closedFrom q d escaped r = true ∧
      scanFrom q .code rest = some later ∧ ts = .literal d (raw ++ r) :: later := by
  induction t generalizing raw escaped with
  | nil => cases h
  | cons c t ih =>
    cases escaped with
    | true =>
      rw [scanFrom] at h
      obtain ⟨r, rest, later, rfl, hclosed, hrest, rfl⟩ := ih h
      exact ⟨c :: r, rest, later, rfl, hclosed, hrest, by rw [List.append_assoc]; rfl⟩
    | false =>
      rw [scanFrom] at h
      split_ifs at h with hc
      · obtain ⟨later, hlater, rfl⟩ := Option.map_eq_some_iff.mp h
        exact ⟨[], t, later, by rw [hc]; rfl, rfl, hlater, by rw [List.append_nil]⟩
      · obtain ⟨r, rest, later, rfl, hclosed, hrest, rfl⟩ := ih h
        refine ⟨c :: r, rest, later, rfl, ?_, hrest, by rw [List.append_assoc]; rfl⟩
        rw [closedFrom, hclosed, decide_eq_true hc]
        rfl

/-- Reading loses nothing and makes whole tokens. -/
theorem render_of_scan (h : scan q t = some ts) :
    render q ts = t ∧ ∀ tok ∈ ts, tok.IsWhole q := by
  have hall : ∀ n, ∀ t : List α, t.length ≤ n → ∀ ts, scanFrom q .code t = some ts →
      render q ts = t ∧ ∀ tok ∈ ts, tok.IsWhole q := by
    intro n
    induction n with
    | zero =>
      intro t ht ts h
      obtain rfl := List.length_eq_zero_iff.mp (Nat.le_zero.mp ht)
      obtain rfl := Option.some.inj h
      exact ⟨rfl, fun tok htok => absurd htok List.not_mem_nil⟩
    | succ n ih =>
      intro t ht ts h
      cases t with
      | nil =>
        obtain rfl := Option.some.inj h
        exact ⟨rfl, fun tok htok => absurd htok List.not_mem_nil⟩
      | cons c t =>
        have hlength : t.length ≤ n := Nat.le_of_succ_le_succ ht
        rw [scanFrom] at h
        split_ifs at h with hseparator hdelimiter
        · obtain ⟨later, hlater, rfl⟩ := Option.map_eq_some_iff.mp h
          obtain ⟨hrender, hwhole⟩ := ih t hlength later hlater
          refine ⟨?_, List.forall_mem_cons.mpr ⟨trivial, hwhole⟩⟩
          rw [hseparator, ← hrender]
          rfl
        · obtain ⟨r, rest, later, rfl, hclosed, hrest, rfl⟩ := exists_of_scanFrom_literal h
          rw [List.length_append, List.length_cons] at hlength
          obtain ⟨hrender, hwhole⟩ := ih rest (by omega) later hrest
          refine ⟨?_, List.forall_mem_cons.mpr ⟨⟨⟨hseparator, hdelimiter⟩, hclosed⟩, hwhole⟩⟩
          rw [← hrender, render, List.flatMap_cons, Token.render, List.nil_append,
            List.append_assoc]
          rfl
        · obtain ⟨later, hlater, rfl⟩ := Option.map_eq_some_iff.mp h
          obtain ⟨hrender, hwhole⟩ := ih t hlength later hlater
          refine ⟨?_, List.forall_mem_cons.mpr ⟨?_, hwhole⟩⟩
          · rw [← hrender]
            rfl
          · exact decide_eq_true ⟨hseparator, hdelimiter⟩
  exact hall t.length t (Nat.le_refl _) ts h

theorem scan_eq_some_iff :
    scan q t = some ts ↔ render q ts = t ∧ ∀ tok ∈ ts, tok.IsWhole q := by
  constructor
  · exact render_of_scan
  · rintro ⟨rfl, hwhole⟩
    have hscan := scan_render_append (t := []) hwhole
    rw [List.append_nil] at hscan
    rw [hscan]
    exact congrArg some (List.append_nil ts)

/-! ## Stages -/

omit [DecidableEq α] in
theorem notMem_of_mem_splitOn {β : Type*} [BEq β] [LawfulBEq β] {a : β} {xs l : List β}
    (h : l ∈ xs.splitOn a) : a ∉ l := by
  induction xs generalizing l with
  | nil =>
    rw [List.splitOn_nil, List.mem_singleton] at h
    exact h ▸ List.not_mem_nil
  | cons x xs ih =>
    rw [List.splitOn_cons_eq_if_modifyHead] at h
    split_ifs at h with hx
    · rcases List.mem_cons.mp h with rfl | hrest
      · exact List.not_mem_nil
      · exact ih hrest
    · obtain ⟨first, rest, heq⟩ := List.exists_cons_of_ne_nil (List.splitOn_ne_nil a xs)
      rw [heq, List.modifyHead_cons] at h
      rw [beq_iff_eq] at hx
      rcases List.mem_cons.mp h with rfl | hrest
      · rw [List.mem_cons, not_or]
        exact ⟨Ne.symm hx, ih (heq ▸ List.mem_cons_self)⟩
      · exact ih (heq ▸ List.mem_cons_of_mem _ hrest)

omit [DecidableEq α] in
theorem intercalate_cons {β : Type*} (sep first : List β) (rest : List (List β)) :
    sep.intercalate (first :: rest) = first ++ rest.flatMap (sep ++ ·) := by
  induction rest generalizing first with
  | nil => rw [List.intercalate_singleton, List.flatMap_nil, List.append_nil]
  | cons second rest ih =>
    rw [List.intercalate_cons_cons, ih, List.flatMap_cons, List.append_assoc, List.append_assoc]

omit [DecidableEq α] in
theorem flatMap_intercalate {β γ : Type*} (f : β → List γ) (sep : List β)
    (groups : List (List β)) : (sep.intercalate groups).flatMap f =
      (sep.flatMap f).intercalate (groups.map (List.flatMap f)) := by
  cases groups with
  | nil => rfl
  | cons first rest =>
    rw [intercalate_cons, List.flatMap_append, List.flatMap_assoc, List.map_cons, intercalate_cons,
      List.flatMap_map]
    simp only [List.flatMap_append]

omit [DecidableEq α] in
theorem mem_intercalate {β : Type*} (sep : β) {x : β} {groups : List (List β)} :
    (x ∈ [sep].intercalate groups → x = sep ∨ ∃ group ∈ groups, x ∈ group) ∧
      ∀ group ∈ groups, x ∈ group → x ∈ [sep].intercalate groups := by
  cases groups with
  | nil =>
    exact ⟨fun h => absurd h List.not_mem_nil, fun group h => absurd h List.not_mem_nil⟩
  | cons first rest =>
    rw [intercalate_cons, List.mem_append, List.mem_flatMap]
    constructor
    · rintro (hfirst | ⟨group, hgroup, hx⟩)
      · exact Or.inr ⟨first, List.mem_cons_self, hfirst⟩
      · rcases List.mem_cons.mp hx with hsep | hin
        · exact Or.inl hsep
        · exact Or.inr ⟨group, List.mem_cons_of_mem _ hgroup, hin⟩
    · intro group hgroup hx
      rcases List.mem_cons.mp hgroup with rfl | hgroup
      · exact Or.inl hx
      · exact Or.inr ⟨group, hgroup, List.mem_cons_of_mem _ hx⟩

omit [DecidableEq α] in
theorem render_append (us : List (Token α)) :
    render q (ts ++ us) = render q ts ++ render q us := by
  rw [render, List.flatMap_append]
  rfl

omit [DecidableEq α] in
theorem render_intercalate (groups : List (List (Token α))) :
    render q ([Token.separator].intercalate groups) =
      [q.separator].intercalate (groups.map (render q)) :=
  flatMap_intercalate (Token.render q) [Token.separator] groups

theorem stages_eq_some_iff {groups : List (List (Token α))} (hne : groups ≠ []) :
    stages q t = some groups ↔ [q.separator].intercalate (groups.map (render q)) = t ∧
      ∀ group ∈ groups, ∀ tok ∈ group, tok.IsWhole q ∧ tok ≠ .separator := by
  constructor
  · intro h
    obtain ⟨ts, hscan, rfl⟩ := Option.map_eq_some_iff.mp h
    obtain ⟨hrender, hwhole⟩ := render_of_scan hscan
    refine ⟨?_, ?_⟩
    · rw [← render_intercalate, List.intercalate_splitOn, hrender]
    · intro group hgroup tok htok
      refine ⟨hwhole tok ?_, ?_⟩
      · have hin := (mem_intercalate Token.separator).2 group hgroup htok
        rwa [List.intercalate_splitOn] at hin
      · rintro rfl
        exact notMem_of_mem_splitOn hgroup htok
  · rintro ⟨hrender, hgroups⟩
    have hscan : scan q t = some ([Token.separator].intercalate groups) := by
      refine scan_eq_some_iff.mpr ⟨?_, ?_⟩
      · rw [render_intercalate, hrender]
      · intro tok htok
        rcases (mem_intercalate Token.separator).1 htok with rfl | ⟨group, hgroup, hin⟩
        · trivial
        · exact (hgroups group hgroup tok hin).1
    rw [stages, hscan, Option.map_some, List.splitOn_intercalate _ _ hne]
    intro group hgroup hseparator
    exact (hgroups group hgroup _ hseparator).2 rfl

/-! ## Texts put together from pieces -/

/-- Code, a name that is to be read on its own, or a literal. -/
inductive Piece (α : Type*) where
  | plain (t : List α)
  | name (t : List α)
  | literal (delimiter : α) (raw : List α)

def Piece.text : Piece α → List α
  | .plain t | .name t => t
  | .literal d raw => d :: raw ++ [d]

/-- The tokens of a name are those it has on its own, if it closes its literals. -/
def Piece.tokens (q : Quoting α) : Piece α → List (Token α)
  | .plain t => t.map .code
  | .name t => (scan q t).getD (t.map .code)
  | .literal d raw => [.literal d raw]

/-- The name closes its literals and has no separator outside them. -/
def contained (q : Quoting α) (t : List α) : Bool :=
  (scan q t).any fun ts => decide (.separator ∉ ts)

def Piece.Fits (q : Quoting α) : Piece α → Prop
  | .plain t => t.all (isPlain q) = true
  | .name t => contained q t = true
  | .literal d raw => (d ≠ q.separator ∧ d ∈ q.delimiters) ∧ closed q d raw = true

omit [DecidableEq α] in
theorem render_code (t : List α) : render q (t.map .code) = t := by
  induction t with
  | nil => rfl
  | cons c t ih => exact congrArg (c :: ·) ih

theorem whole_code : (∀ tok ∈ t.map Token.code, tok.IsWhole q ∧ tok ≠ .separator) ↔
    t.all (isPlain q) = true := by
  rw [List.forall_mem_map, List.all_eq_true]
  exact forall₂_congr fun c _ => and_iff_left nofun

theorem render_tokens (part : Piece α) : render q (part.tokens q) = part.text := by
  cases part with
  | plain t => exact render_code t
  | name t =>
    rw [Piece.tokens]
    cases h : scan q t with
    | none => exact render_code t
    | some ts => exact (render_of_scan h).1
  | literal d raw => exact List.append_nil _

theorem fits_iff (part : Piece α) :
    (∀ tok ∈ part.tokens q, tok.IsWhole q ∧ tok ≠ .separator) ↔ part.Fits q := by
  cases part with
  | plain t => exact whole_code
  | name t =>
    rw [Piece.tokens, Piece.Fits, contained]
    cases h : scan q t with
    | none =>
      refine iff_of_false ?_ Bool.false_ne_true
      intro hwhole
      have hscan : scan q t = some (t.map .code) :=
        scan_eq_some_iff.mpr ⟨render_code t, fun tok htok => (hwhole tok htok).1⟩
      rw [h] at hscan
      cases hscan
    | some ts =>
      rw [Option.getD_some, Option.any_some, decide_eq_true_eq]
      have hwhole := (render_of_scan h).2
      constructor
      · intro hall hmem
        exact (hall _ hmem).2 rfl
      · intro hnot tok htok
        refine ⟨hwhole tok htok, ?_⟩
        rintro rfl
        exact hnot htok
  | literal d raw =>
    rw [Piece.tokens, List.forall_mem_singleton]
    exact and_iff_left nofun

def textOf (parts : List (Piece α)) : List α := parts.flatMap Piece.text

def tokensOf (q : Quoting α) (parts : List (Piece α)) : List (Token α) :=
  parts.flatMap (Piece.tokens q)

theorem render_tokensOf (parts : List (Piece α)) : render q (tokensOf q parts) = textOf parts := by
  induction parts with
  | nil => rfl
  | cons part parts ih =>
    rw [tokensOf, List.flatMap_cons, render_append, render_tokens]
    exact congrArg (part.text ++ ·) ih

/-- A text has the stages of its pieces exactly when it is those pieces and each of them fits. -/
theorem stages_tokensOf {groups : List (List (Piece α))} (hne : groups ≠ []) :
    stages q t = some (groups.map (tokensOf q)) ↔
      [q.separator].intercalate (groups.map textOf) = t ∧
        ∀ group ∈ groups, ∀ part ∈ group, part.Fits q := by
  rw [stages_eq_some_iff (mt List.map_eq_nil_iff.mp hne), List.map_map]
  have hrender : (render q ∘ tokensOf q) = textOf := funext render_tokensOf
  rw [hrender, List.forall_mem_map]
  refine and_congr_right fun _ => forall₂_congr fun group _ => ?_
  simp only [tokensOf, List.mem_flatMap, forall_exists_index, and_imp]
  rw [forall_comm]
  refine forall_congr' fun part => ?_
  rw [forall_comm]
  exact forall_congr' fun _ => fits_iff part

end LiteralScan
