import Mathlib.Data.List.Forall2
import AiSOC.EventPayload
import AiSOC.JsonRoundTrip
import AiSOC.LlmContract

/-! # Alert data as lines of a prompt

Nested data is flattened to lines of a path and a value, up to a depth and a number of lines. What
is stored under a key of the contract is not looked at. -/
namespace PromptSerialization

open CodeText EventPayload LlmContract

/-- What `repr` makes of a floating-point number. -/
structure FloatRepr where
  text : Text
  oneLine : cp '\n' ∉ text

/-- A value of another class comes as what `str` makes of it. -/
inductive Scalar where
  | none
  | bool (b : Bool)
  | int (n : ℤ)
  | float (x : FloatRepr)
  | str (s : Text)
  | other (shown : Text)

/-- Tuples are lists. The keys of a dictionary come as what `str` makes of them; two of them can
have one text. -/
inductive Node where
  | scalar (x : Scalar)
  | list (items : List Node)
  | dict (entries : List (Text × Node))

abbrev Entries := List (Text × Node)

def flattened (s : Text) : Text := s.map fun c => if c = cp '\r' ∨ c = cp '\n' then cp ' ' else c

/-- `none` is the `ValueError` of an integer that is too long to be written. -/
def formatPrimitive : Scalar → Option Text
  | .none => some (text "(null)")
  | .bool b => some (if b then text "true" else text "false")
  | .int n => intText n
  | .float x => some x.text
  | .str s | .other s =>
    some (if 400 < s.length then (flattened s).take 400 ++ text "…" else flattened s)

/-- By the texts of the keys. -/
def sortedByKey (entries : Entries) : Entries := entries.mergeSort fun e f => e.1 ≤ f.1

def visible (entries : Entries) : Entries := entries.filter fun e => !blocklisted e.1

/-! ## Nested data -/

/-- The lines so far; further ones are dropped. -/
def add (maxLines : ℤ) (line : Text) (out : List Text) : List Text :=
  if (out.length : ℤ) < maxLines then out ++ [line] else out

def subPath (path k : Text) : Text := if path = [] then k else path ++ cp '.' :: k
def itemPath (path : Text) (i : ℕ) : Text := path ++ cp '[' :: (digits i ++ [cp ']'])

/-- What visits a value at a path, one level deeper. -/
abbrev Visit := Node → Text → List Text → Option (List Text)

/-- The first items of a list. -/
def visitItems (maxLines : ℤ) (deeper : Visit) (cap : ℕ) (items : List Node) (path : Text)
    (out : List Text) : Option (List Text) := do
  let out ← (items.take cap).zipIdx.foldlM
    (fun out item => deeper item.1 (itemPath path item.2) out) out
  return if cap < items.length then
    add maxLines (path ++ text ": … " ++ digits (items.length - cap) ++
      text " more items omitted") out
  else out

/-- `deepest` is whether the entries may not be visited in turn. After a full line buffer the loop
over the entries ends. -/
def visitEntry (maxLines : ℤ) (deepest : Bool) (deeper : Visit) (path : Text) (out : List Text)
    (entry : Text × Node) : Option (List Text) :=
  if maxLines ≤ out.length then some out
  else
    let sub := subPath path entry.1
    match entry.2 with
    | .dict entries =>
      let nk := (visible entries).length
      let out := add maxLines (sub ++ text ": dict(" ++ digits nk ++ text " keys)") out
      if !deepest ∧ nk ≤ 12 then deeper entry.2 sub out else some out
    | .list items =>
      let out := add maxLines (sub ++ text ": list[" ++ digits items.length ++ text " items]") out
      if deepest then some out else visitItems maxLines deeper 5 items sub out
    | .scalar x => (formatPrimitive x).map fun shown =>
      add maxLines (sub ++ text ": " ++ shown) out

/-- `left` is how many levels are allowed from here on. -/
def visit (maxLines : ℤ) : (left : ℕ) → Visit
  | 0, _, path, out =>
    if maxLines ≤ out.length then some out
    else some (add maxLines (path ++ text ": <nested, depth cap>") out)
  | left + 1, node, path, out =>
    if maxLines ≤ out.length then some out
    else match node with
      | .dict entries =>
        if (visible entries).isEmpty then
          some (add maxLines (path ++ text ": <dict (keys redacted)>") out)
        else ((sortedByKey (visible entries)).take 30).foldlM
          (visitEntry maxLines (left = 0) (visit maxLines left) path) out
      | .list items =>
        let out := add maxLines (path ++ text ": list[" ++ digits items.length ++ text "]") out
        if left = 0 then some out else visitItems maxLines (visit maxLines left) 6 items path out
      | .scalar x => (formatPrimitive x).map fun shown =>
        add maxLines (path ++ text ": " ++ shown) out

def summarizeStructureForLlm (label : Text) (maxLines maxDepth : ℤ) (obj : Node) : Option Text :=
  (visit maxLines (maxDepth + 1).toNat obj label []).map fun out =>
    if out.isEmpty then text "(empty)" else [cp '\n'].intercalate out

/-! ## Extra fields -/

def extraLine (maxDepth : ℤ) (entry : Text × Node) : Option Text :=
  if blocklisted entry.1 then some (entry.1 ++ text ": <redacted: contract key>")
  else match entry.2 with
    | .scalar x => (formatPrimitive x).map fun shown => entry.1 ++ text ": " ++ shown
    | node => (summarizeStructureForLlm entry.1 10 maxDepth node).map fun shown =>
      entry.1 ++ text ":\n" ++ shown

/-- Each key makes one item of `lines`, so that the loop ends after `maxKeys` of them. -/
def formatExtraFieldsForLlm (maxKeys maxDepth : ℤ) (extra : Entries) : Option Text :=
  if extra.isEmpty then some (text "(none)")
  else do
    let lines ← ((sortedByKey extra).take maxKeys.toNat).mapM (extraLine maxDepth)
    let omitted := extra.length - lines.length
    return [cp '\n'].intercalate (lines ++ if 0 < omitted then
      [text "… and " ++ digits omitted ++ text " more keys omitted"] else [])

/-! ## Values that differ under blocklisted keys -/

/-- The values differ only in what is stored under blocklisted keys. -/
inductive SameVisible : Node → Node → Prop where
  | scalar (x : Scalar) : SameVisible (.scalar x) (.scalar x)
  | list {vs ws : List Node} (hlength : vs.length = ws.length)
      (hitems : ∀ p ∈ vs.zip ws, SameVisible p.1 p.2) : SameVisible (.list vs) (.list ws)
  | dict {es fs : Entries} (hkeys : es.map Prod.fst = fs.map Prod.fst)
      (hvalues : ∀ p ∈ es.zip fs, blocklisted p.1.1 = false → SameVisible p.1.2 p.2.2) :
      SameVisible (.dict es) (.dict fs)

variable {maxLines maxDepth : ℤ} {es fs : Entries} {v w : Node}

/-- Entries of one key, with values that may differ only if the key is blocklisted. -/
def SameEntry (e f : Text × Node) : Prop :=
  e.1 = f.1 ∧ (blocklisted e.1 = false → SameVisible e.2 f.2)

theorem sameEntries_of_zip (hkeys : es.map Prod.fst = fs.map Prod.fst)
    (hvalues : ∀ p ∈ es.zip fs, blocklisted p.1.1 = false → SameVisible p.1.2 p.2.2) :
    List.Forall₂ SameEntry es fs := by
  induction es generalizing fs with
  | nil =>
    obtain rfl := List.map_eq_nil_iff.mp hkeys.symm
    exact .nil
  | cons e es ih =>
    cases fs with
    | nil => cases hkeys
    | cons f fs =>
      obtain ⟨hkey, hkeys⟩ := List.cons.inj hkeys
      rw [List.zip_cons_cons, List.forall_mem_cons] at hvalues
      exact .cons ⟨hkey, hvalues.1⟩ (ih hkeys hvalues.2)

theorem sameEntries_visible (h : List.Forall₂ SameEntry es fs) :
    List.Forall₂ SameEntry (visible es) (visible fs) := by
  apply List.rel_filter _ h
  intro e f hef
  dsimp only
  rw [hef.1]

/-- The order is one of the keys. -/
theorem sameEntries_sortedByKey (h : List.Forall₂ SameEntry es fs) :
    List.Forall₂ SameEntry (sortedByKey es) (sortedByKey fs) := by
  obtain ⟨hlength, hzip⟩ := List.forall₂_iff_zip.mp h
  have hfst := List.map_fst_zip hlength.le
  have hsnd := List.map_snd_zip hlength.ge
  have hsorted : ∀ p ∈ (es.zip fs).mergeSort fun p q => p.1.1 ≤ q.1.1, SameEntry p.1 p.2 :=
    fun p hp => hzip ((List.mergeSort_perm _ _).mem_iff.mp hp)
  have hleft : ((es.zip fs).mergeSort fun p q => p.1.1 ≤ q.1.1).map Prod.fst = sortedByKey es := by
    have hkeys : ∀ p ∈ es.zip fs, ∀ q ∈ es.zip fs,
        decide (p.1.1 ≤ q.1.1) = decide (p.1.1 ≤ q.1.1) := fun p _ q _ => rfl
    rw [@List.map_mergeSort _ _ _ (fun e f => decide (e.1 ≤ f.1)) Prod.fst _ hkeys, hfst]
    rfl
  have hright : ((es.zip fs).mergeSort fun p q => p.1.1 ≤ q.1.1).map Prod.snd = sortedByKey fs := by
    have hkeys : ∀ p ∈ es.zip fs, ∀ q ∈ es.zip fs,
        decide (p.1.1 ≤ q.1.1) = decide (p.2.1 ≤ q.2.1) := by
      intro p hp q hq
      rw [(hzip hp).1, (hzip hq).1]
    rw [@List.map_mergeSort _ _ _ (fun e f => decide (e.1 ≤ f.1)) Prod.snd _ hkeys, hsnd]
    rfl
  rw [← hleft, ← hright, List.forall₂_map_left_iff, List.forall₂_map_right_iff, List.forall₂_same]
  exact hsorted

theorem foldlM_congr {α β : Type} {R : α → α → Prop} {xs ys : List α}
    {step step' : β → α → Option β} (h : List.Forall₂ R xs ys)
    (hstep : ∀ out x y, x ∈ xs → R x y → step out x = step' out y) (out : β) :
    xs.foldlM step out = ys.foldlM step' out := by
  induction h generalizing out with
  | nil => rfl
  | @cons x y xs ys hxy _ ih =>
    rw [List.foldlM_cons, List.foldlM_cons, hstep out x y List.mem_cons_self hxy]
    refine bind_congr fun out => ih (fun out x y hx => ?_) out
    exact hstep out x y (List.mem_cons_of_mem _ hx)

theorem visitItems_same {deeper : Visit} {cap : ℕ} {vs ws : List Node}
    (hdeeper : ∀ v w path out, SameVisible v w → deeper v path out = deeper w path out)
    (h : List.Forall₂ SameVisible vs ws) (path : Text) (out : List Text) :
    visitItems maxLines deeper cap vs path out = visitItems maxLines deeper cap ws path out := by
  have hzip : ∀ n (vs ws : List Node), List.Forall₂ SameVisible vs ws →
      List.Forall₂ (fun v w : Node × ℕ => SameVisible v.1 w.1 ∧ v.2 = w.2) (vs.zipIdx n)
        (ws.zipIdx n) := by
    intro n vs ws h
    induction h generalizing n with
    | nil => exact .nil
    | cons hvw _ ih => exact .cons ⟨hvw, rfl⟩ (ih (n + 1))
  rw [visitItems, visitItems, h.length_eq, foldlM_congr (hzip 0 _ _ (List.forall₂_take cap h))]
  rintro out v w - ⟨hvw, hindex⟩
  rw [hindex]
  exact hdeeper _ _ _ _ hvw

theorem visitEntry_same {deepest : Bool} {deeper : Visit} {e f : Text × Node}
    (hdeeper : ∀ v w path out, SameVisible v w → deeper v path out = deeper w path out)
    (hkey : e.1 = f.1) (h : SameVisible e.2 f.2) (path : Text) (out : List Text) :
    visitEntry maxLines deepest deeper path out e =
      visitEntry maxLines deepest deeper path out f := by
  obtain ⟨k, v⟩ := e
  obtain ⟨k', w⟩ := f
  dsimp only at hkey h
  subst hkey
  cases h with
  | scalar x => rfl
  | list hlength hitems =>
    have hsame := List.forall₂_iff_zip.mpr ⟨hlength, fun {v w} hp => hitems (v, w) hp⟩
    simp only [visitEntry, hlength, visitItems_same hdeeper hsame]
  | dict hkeys hvalues =>
    have hcount := (sameEntries_visible (sameEntries_of_zip hkeys hvalues)).length_eq
    simp only [visitEntry, hcount, hdeeper _ _ _ _ (.dict hkeys hvalues)]

/-- By induction on the levels that are left. -/
theorem visit_same {left : ℕ} (h : SameVisible v w) (path : Text) (out : List Text) :
    visit maxLines left v path out = visit maxLines left w path out := by
  induction left generalizing v w path out with
  | zero => rfl
  | succ left ih =>
    have hdeeper : ∀ v w path out, SameVisible v w →
        visit maxLines left v path out = visit maxLines left w path out :=
      fun v w path out h => ih h path out
    cases h with
    | scalar x => rfl
    | list hlength hitems =>
      have hsame := List.forall₂_iff_zip.mpr ⟨hlength, fun {v w} hp => hitems (v, w) hp⟩
      simp only [visit, hlength, visitItems_same hdeeper hsame]
    | @dict es fs hkeys hvalues =>
      have hsame := sameEntries_visible (sameEntries_of_zip hkeys hvalues)
      have hempty : (visible es).isEmpty = (visible fs).isEmpty := by
        rw [Bool.eq_iff_iff, List.isEmpty_iff_length_eq_zero, List.isEmpty_iff_length_eq_zero,
          hsame.length_eq]
      simp only [visit, hempty]
      split_ifs
      · rfl
      · rfl
      · refine foldlM_congr (List.forall₂_take 30 (sameEntries_sortedByKey hsame)) ?_ out
        intro out e f he hef
        have hvisible := (List.mergeSort_perm _ _).mem_iff.mp (List.mem_of_mem_take he)
        have hblocked := (Bool.not_eq_true' _).mp (List.mem_filter.mp hvisible).2
        exact visitEntry_same hdeeper hef.1 (hef.2 hblocked) path out

theorem summarize_same (h : SameVisible v w) (label : Text) :
    summarizeStructureForLlm label maxLines maxDepth v =
      summarizeStructureForLlm label maxLines maxDepth w := by
  rw [summarizeStructureForLlm, summarizeStructureForLlm, visit_same h]

theorem extraLine_same {e f : Text × Node} (h : SameEntry e f) :
    extraLine maxDepth e = extraLine maxDepth f := by
  obtain ⟨k, v⟩ := e
  obtain ⟨k', w⟩ := f
  obtain ⟨hkey, hsame⟩ := h
  dsimp only at hkey hsame
  subst hkey
  cases hblocked : blocklisted k with
  | true => simp only [extraLine, hblocked, if_true]
  | false =>
    have hvw := hsame hblocked
    have hsummary := @summarize_same 10 maxDepth _ _ hvw k
    cases hvw with
    | scalar x => rfl
    | list => simp only [extraLine, hsummary]
    | dict => simp only [extraLine, hsummary]

theorem formatExtraFields_same (h : List.Forall₂ SameEntry es fs) (maxKeys : ℤ) :
    formatExtraFieldsForLlm maxKeys maxDepth es = formatExtraFieldsForLlm maxKeys maxDepth fs := by
  have hempty : es.isEmpty = fs.isEmpty := by
    rw [Bool.eq_iff_iff, List.isEmpty_iff_length_eq_zero, List.isEmpty_iff_length_eq_zero,
      h.length_eq]
  have hlines : ∀ {es fs : Entries}, List.Forall₂ SameEntry es fs →
      es.mapM (extraLine maxDepth) = fs.mapM (extraLine maxDepth) := by
    intro es fs h
    induction h with
    | nil => rfl
    | cons hef _ ih => rw [List.mapM_cons, List.mapM_cons, extraLine_same hef, ih]
  rw [formatExtraFieldsForLlm, formatExtraFieldsForLlm, hempty, h.length_eq,
    hlines (List.forall₂_take _ (sameEntries_sortedByKey h))]

/-! ## The number of lines -/

/-- No key, at any depth, has a line break. -/
inductive KeysOnOneLine : Node → Prop where
  | scalar (x : Scalar) : KeysOnOneLine (.scalar x)
  | list {items : List Node} (h : ∀ v ∈ items, KeysOnOneLine v) : KeysOnOneLine (.list items)
  | dict {entries : Entries} (hkeys : ∀ e ∈ entries, cp '\n' ∉ e.1)
      (hvalues : ∀ e ∈ entries, KeysOnOneLine e.2) : KeysOnOneLine (.dict entries)

def lineCount (t : Text) : ℕ := t.count (cp '\n') + 1

/-- The lines are no more than allowed, and each is one. -/
structure Lines (maxLines : ℤ) (out : List Text) : Prop where
  count : out.length ≤ maxLines.toNat
  oneLine : ∀ line ∈ out, cp '\n' ∉ line

variable {out out' : List Text} {path line : Text}

theorem lines_add (h : Lines maxLines out) (hline : cp '\n' ∉ line) :
    Lines maxLines (add maxLines line out) := by
  rw [add]
  split_ifs with hfull
  · constructor
    · rw [List.length_append, List.length_singleton]
      omega
    · intro l hl
      rcases List.mem_append.mp hl with hl | hl
      · exact h.oneLine l hl
      · rwa [List.mem_singleton.mp hl]
  · exact h

theorem lineBreak_notMem_digits (n : ℕ) : cp '\n' ∉ digits n := by
  intro hbreak
  exact absurd (JsonRoundTrip.isDigit_of_mem_digits hbreak) (by decide)

theorem lineBreak_notMem_flattened (s : Text) : cp '\n' ∉ flattened s := by
  intro hbreak
  obtain ⟨c, -, hc⟩ := List.mem_map.mp hbreak
  split_ifs at hc with hline
  · exact absurd hc (by decide)
  · exact hline (Or.inr hc)

theorem oneLine_formatPrimitive {x : Scalar} {shown : Text} (h : formatPrimitive x = some shown) :
    cp '\n' ∉ shown := by
  have hflat : ∀ s : Text, cp '\n' ∉
      if 400 < s.length then (flattened s).take 400 ++ text "…" else flattened s := by
    intro s hbreak
    split_ifs at hbreak
    · rcases List.mem_append.mp hbreak with hbreak | hbreak
      · exact lineBreak_notMem_flattened s (List.mem_of_mem_take hbreak)
      · exact absurd hbreak (by decide)
    · exact lineBreak_notMem_flattened s hbreak
  cases x with
  | none =>
    obtain rfl := Option.some.inj h
    decide
  | bool b =>
    obtain rfl := Option.some.inj h
    cases b
    · decide
    · decide
  | int n =>
    rw [formatPrimitive, intText] at h
    split_ifs at h
    obtain rfl := Option.some.inj h
    rw [decimal]
    split_ifs
    · rw [List.mem_cons, not_or]
      exact ⟨by decide, lineBreak_notMem_digits _⟩
    · exact lineBreak_notMem_digits _
  | float x =>
    obtain rfl := Option.some.inj h
    exact x.oneLine
  | str s =>
    obtain rfl := Option.some.inj h
    exact hflat s
  | other s =>
    obtain rfl := Option.some.inj h
    exact hflat s

theorem oneLine_append {a b : Text} (ha : cp '\n' ∉ a) (hb : cp '\n' ∉ b) : cp '\n' ∉ a ++ b := by
  rw [List.mem_append, not_or]
  exact ⟨ha, hb⟩

theorem oneLine_subPath {k : Text} (hpath : cp '\n' ∉ path) (hk : cp '\n' ∉ k) :
    cp '\n' ∉ subPath path k := by
  rw [subPath]
  split_ifs
  · exact hk
  · apply oneLine_append hpath
    rw [List.mem_cons, not_or]
    exact ⟨by decide, hk⟩

theorem oneLine_itemPath (hpath : cp '\n' ∉ path) (i : ℕ) : cp '\n' ∉ itemPath path i := by
  apply oneLine_append hpath
  rw [List.mem_cons, not_or]
  exact ⟨by decide, oneLine_append (lineBreak_notMem_digits i) (by decide)⟩

theorem lines_foldlM {α : Type} {xs : List α} {step : List Text → α → Option (List Text)}
    (hstep : ∀ x ∈ xs, ∀ out out', Lines maxLines out → step out x = some out' →
      Lines maxLines out') (hout : Lines maxLines out) (h : xs.foldlM step out = some out') :
    Lines maxLines out' := by
  induction xs generalizing out with
  | nil =>
    obtain rfl := Option.some.inj h
    exact hout
  | cons x xs ih =>
    rw [List.foldlM_cons] at h
    obtain ⟨out₁, hx, hrest⟩ := Option.bind_eq_some_iff.mp h
    have hout₁ := hstep x List.mem_cons_self out out₁ hout hx
    exact ih (fun y hy => hstep y (List.mem_cons_of_mem x hy)) hout₁ hrest

/-- Visits keep to lines. -/
def KeepsLines (maxLines : ℤ) (deeper : Visit) : Prop :=
  ∀ v path out out', KeysOnOneLine v → cp '\n' ∉ path → Lines maxLines out →
    deeper v path out = some out' → Lines maxLines out'

theorem lines_visitItems {deeper : Visit} {cap : ℕ} {items : List Node}
    (hdeeper : KeepsLines maxLines deeper) (hitems : ∀ v ∈ items, KeysOnOneLine v)
    (hpath : cp '\n' ∉ path) (hout : Lines maxLines out)
    (h : visitItems maxLines deeper cap items path out = some out') : Lines maxLines out' := by
  obtain ⟨out₁, hloop, hlast⟩ := Option.bind_eq_some_iff.mp h
  have hout₁ : Lines maxLines out₁ := by
    refine lines_foldlM (fun item hitem out out' hout hvisit => ?_) hout hloop
    have hmem := List.mem_of_mem_take (List.fst_mem_of_mem_zipIdx hitem)
    exact hdeeper _ _ _ _ (hitems _ hmem) (oneLine_itemPath hpath _) hout hvisit
  obtain rfl := Option.some.inj hlast
  split_ifs
  · refine lines_add hout₁ (oneLine_append (oneLine_append (oneLine_append hpath ?_) ?_) ?_)
    · decide
    · exact lineBreak_notMem_digits _
    · decide
  · exact hout₁

theorem lines_visitEntry {deepest : Bool} {deeper : Visit} {entry : Text × Node}
    (hdeeper : KeepsLines maxLines deeper) (hkey : cp '\n' ∉ entry.1)
    (hvalue : KeysOnOneLine entry.2) (hpath : cp '\n' ∉ path) (hout : Lines maxLines out)
    (h : visitEntry maxLines deepest deeper path out entry = some out') : Lines maxLines out' := by
  obtain ⟨k, v⟩ := entry
  have hsub := oneLine_subPath hpath hkey
  rw [visitEntry] at h
  by_cases hfull : maxLines ≤ out.length
  · rw [if_pos hfull] at h
    obtain rfl := Option.some.inj h
    exact hout
  rw [if_neg hfull] at h
  cases v with
  | scalar x =>
    obtain ⟨shown, hshown, rfl⟩ := Option.map_eq_some_iff.mp h
    have hline := oneLine_append hsub (show cp '\n' ∉ text ": " by decide)
    exact lines_add hout (oneLine_append hline (oneLine_formatPrimitive hshown))
  | list items =>
    have hline := oneLine_append hsub (show cp '\n' ∉ text ": list[" by decide)
    have hadd := lines_add hout (oneLine_append (oneLine_append hline
      (lineBreak_notMem_digits items.length)) (show cp '\n' ∉ text " items]" by decide))
    dsimp only at h
    split_ifs at h
    · obtain rfl := Option.some.inj h
      exact hadd
    · cases hvalue with
      | list hitems => exact lines_visitItems hdeeper hitems hsub hadd h
  | dict entries =>
    have hline := oneLine_append hsub (show cp '\n' ∉ text ": dict(" by decide)
    have hadd := lines_add hout (oneLine_append (oneLine_append hline
      (lineBreak_notMem_digits (visible entries).length)) (show cp '\n' ∉ text " keys)" by decide))
    dsimp only at h
    split_ifs at h
    · exact hdeeper _ _ _ _ hvalue hsub hadd h
    · obtain rfl := Option.some.inj h
      exact hadd

/-- By induction on the levels that are left. -/
theorem lines_visit {left : ℕ} : KeepsLines maxLines (visit maxLines left) := by
  induction left with
  | zero =>
    intro v path out out' hv hpath hout h
    unfold visit at h
    split_ifs at h
    · obtain rfl := Option.some.inj h
      exact hout
    · obtain rfl := Option.some.inj h
      exact lines_add hout (oneLine_append hpath (by decide))
  | succ left ih =>
    intro v path out out' hv hpath hout h
    unfold visit at h
    by_cases hfull : maxLines ≤ out.length
    · rw [if_pos hfull] at h
      obtain rfl := Option.some.inj h
      exact hout
    rw [if_neg hfull] at h
    cases hv with
    | scalar x =>
      obtain ⟨shown, hshown, rfl⟩ := Option.map_eq_some_iff.mp h
      have hline := oneLine_append hpath (show cp '\n' ∉ text ": " by decide)
      exact lines_add hout (oneLine_append hline (oneLine_formatPrimitive hshown))
    | @list items hitems =>
      have hline := oneLine_append hpath (show cp '\n' ∉ text ": list[" by decide)
      have hadd := lines_add hout (oneLine_append (oneLine_append hline
        (lineBreak_notMem_digits items.length)) (show cp '\n' ∉ text "]" by decide))
      dsimp only at h
      split_ifs at h
      · obtain rfl := Option.some.inj h
        exact hadd
      · exact lines_visitItems ih hitems hpath hadd h
    | @dict entries hkeys hvalues =>
      dsimp only at h
      split_ifs at h
      · obtain rfl := Option.some.inj h
        exact lines_add hout (oneLine_append hpath (by decide))
      · refine lines_foldlM (fun entry he out out' hout hvisit => ?_) hout h
        have hvisible := (List.mergeSort_perm _ _).mem_iff.mp (List.mem_of_mem_take he)
        have hmem := (List.mem_filter.mp hvisible).1
        exact lines_visitEntry ih (hkeys _ hmem) (hvalues _ hmem) hpath hout hvisit

theorem lineCount_intercalate (h : ∀ line ∈ out, cp '\n' ∉ line) (hne : out ≠ []) :
    lineCount ([cp '\n'].intercalate out) = out.length := by
  induction out with
  | nil => exact absurd rfl hne
  | cons line rest ih =>
    obtain ⟨hline, hrest⟩ := List.forall_mem_cons.mp h
    cases rest with
    | nil =>
      rw [List.intercalate_singleton, lineCount, List.count_eq_zero_of_not_mem hline]
      rfl
    | cons second rest =>
      have hcount := ih hrest (List.cons_ne_nil _ _)
      rw [lineCount] at hcount ⊢
      rw [List.intercalate_cons_cons, List.count_append, List.count_append,
        List.count_eq_zero_of_not_mem hline, List.count_singleton_self, List.length_cons]
      omega

theorem lineCount_summarize {label t : Text} (hv : KeysOnOneLine v) (hlabel : cp '\n' ∉ label)
    (h : summarizeStructureForLlm label maxLines maxDepth v = some t) :
    (lineCount t : ℤ) ≤ max 1 maxLines := by
  obtain ⟨out, hvisit, rfl⟩ := Option.map_eq_some_iff.mp h
  have hlines := lines_visit v label [] out hv hlabel ⟨Nat.zero_le _, List.forall_mem_nil _⟩ hvisit
  by_cases hempty : out = []
  · subst hempty
    have hone : lineCount (text "(empty)") = 1 := by decide
    rw [List.isEmpty_nil, if_pos rfl, hone]
    exact le_max_left _ _
  · have hcount := hlines.count
    rw [if_neg (by rw [List.isEmpty_iff]; exact hempty),
      lineCount_intercalate hlines.oneLine hempty]
    omega

/-- What is stored under blocklisted keys has no influence on the texts, and a summary has no more
lines than allowed, except that it has one line at least. -/
theorem serialization_noninterfering :
    (∀ v w, SameVisible v w → ∀ label maxLines maxDepth,
      summarizeStructureForLlm label maxLines maxDepth v =
        summarizeStructureForLlm label maxLines maxDepth w) ∧
    (∀ es fs, SameVisible (.dict es) (.dict fs) → ∀ maxKeys maxDepth,
      formatExtraFieldsForLlm maxKeys maxDepth es = formatExtraFieldsForLlm maxKeys maxDepth fs) ∧
    ∀ v label maxLines maxDepth t, KeysOnOneLine v → cp '\n' ∉ label →
      summarizeStructureForLlm label maxLines maxDepth v = some t →
      (lineCount t : ℤ) ≤ max 1 maxLines := by
  refine ⟨fun v w h label maxLines maxDepth => summarize_same h label, ?_, ?_⟩
  · intro es fs h maxKeys maxDepth
    cases h with
    | dict hkeys hvalues => exact formatExtraFields_same (sameEntries_of_zip hkeys hvalues) maxKeys
  · intro v label maxLines maxDepth t hv hlabel h
    exact lineCount_summarize hv hlabel h

def event (raw : String) : Node :=
  .dict [(text "raw_data", .scalar (.str (text raw))), (text "user", .scalar (.str (text "eve")))]

theorem raw_data_without_influence :
    summarizeStructureForLlm (text "alert") 40 2 (.list [event "one", event "x"]) =
      summarizeStructureForLlm (text "alert") 40 2 (.list [event "two", event "y"]) := by
  have hevent : ∀ raw raw', SameVisible (event raw) (event raw') := by
    intro raw raw'
    have hraw : blocklisted (text "raw_data") = true := by decide
    refine .dict rfl fun p hp hkey => ?_
    rcases List.mem_cons.mp hp with rfl | hp
    · rw [hraw] at hkey
      cases hkey
    · rw [List.mem_singleton.mp hp]
      exact .scalar _
  have hsame : SameVisible (.list [event "one", event "x"]) (.list [event "two", event "y"]) := by
    refine .list rfl fun p hp => ?_
    rcases List.mem_cons.mp hp with rfl | hp
    · exact hevent "one" "two"
    · rw [List.mem_singleton.mp hp]
      exact hevent "x" "y"
  exact serialization_noninterfering.1 _ _ hsame _ _ _

/-- Where no line is allowed there is still one, and a line break of the label makes another. -/
theorem one_line_at_least : (¬∀ v maxLines maxDepth t, KeysOnOneLine v →
      summarizeStructureForLlm (text "data") maxLines maxDepth v = some t →
      (lineCount t : ℤ) ≤ maxLines) ∧
    ¬∀ v label maxDepth t, KeysOnOneLine v →
      summarizeStructureForLlm label 1 maxDepth v = some t → lineCount t ≤ 1 := by
  constructor
  · intro h
    have hle := h (.scalar .none) 0 2 (text "(empty)") (.scalar _) rfl
    exact absurd hle (by decide)
  · intro h
    have hle := h (.scalar .none) (text "a\nb") 2 (text "a\nb: (null)") (.scalar _) rfl
    exact absurd hle (by decide)

end PromptSerialization
