import Mathlib.Data.List.Forall2
import AiSOC.RegexSearch

/-! # What replacing the matches of a regular expression leaves

A replacement that cannot overlap a match makes no new ones, so that the matches of a fixed
sequence of character classes are gone for good; long runs are gone after they were shortened. The
end of a match can be told apart from a text that is appended. -/
namespace RegexReplace

open RegexSearch

variable {α : Type*} {r l : Regex α} {t s s' w x y a b m repl : List α} {before : Option α}
  {ps : List (α → Bool)} {p : α → Bool}

/-! ## Texts without a match -/

theorem matchLength_some {place : Place α} {n : ℕ} (h : matchLength r place = some n) :
    ∃ m post, place.rest = m ++ post ∧ Matches r place.before m post ∧ m.length = n := by
  obtain ⟨y, hy, rfl⟩ := Option.map_eq_some_iff.mp h
  obtain ⟨m, hto, hm⟩ := (mem_ends r).mp (List.mem_of_mem_head? hy)
  refine ⟨m, y.rest, hto.1, hm, ?_⟩
  rw [hto.1, List.length_append]
  omega

theorem subFrom_of_not_occurs {seen : List α} (h : ¬Occurs r (seen ++ t)) :
    subFrom r repl (lastOf none seen) 0 t = t := by
  induction t generalizing seen with
  | nil => rfl
  | cons c t ih =>
    have hrest : subFrom r repl (lastOf none (seen ++ [c])) 0 t = t := by
      apply ih
      rwa [List.append_assoc]
    rw [lastOf_append] at hrest
    rw [subFrom]
    split
    · rename_i n hlength
      obtain ⟨m, post, htext, hm, -⟩ := matchLength_some hlength
      refine absurd ⟨seen, m, post, ?_, hm⟩ h
      rw [List.append_assoc, ← htext]
    · exact congrArg (c :: ·) hrest

theorem sub_of_not_occurs (h : ¬Occurs r t) : sub r repl t = t :=
  @subFrom_of_not_occurs _ r t repl [] h

theorem sub_chars_nil (p : α → Bool) (t : List α) :
    sub (.chars p) [] t = t.filter fun c => !p c := by
  have hfrom : ∀ before, subFrom (.chars p) [] before 0 t = t.filter fun c => !p c := by
    induction t with
    | nil => exact fun _ => rfl
    | cons c t ih =>
      intro before
      by_cases hc : p c = true
      · simp [subFrom, matchLength, ends, hc, ih]
      · simp [subFrom, matchLength, ends, hc, ih]
  exact hfrom none

/-! ## Texts with replaced pieces -/

/-- How a replacement goes through a text: a character is kept where no match begins. -/
inductive Replaced (r : Regex α) (repl : List α) : Option α → List α → List α → Prop where
  | nil {before : Option α} : Replaced r repl before [] []
  | keep {before : Option α} {u u' : List α} (c : α)
      (hno : ∀ n, matchLength r ⟨before, c :: u⟩ ≠ some (n + 1)) :
      Replaced r repl (some c) u u' → Replaced r repl before (c :: u) (c :: u')
  | swap {before : Option α} {u u' : List α} (m : List α) (hm : Matches r before m u)
      (hne : m ≠ []) : Replaced r repl (lastOf before m) u u' →
      Replaced r repl before (m ++ u) (repl ++ u')

theorem replaced_subFrom {skip : ℕ} : Replaced r repl (lastOf before (t.take skip)) (t.drop skip)
    (subFrom r repl before skip t) := by
  induction t generalizing before skip with
  | nil =>
    rw [List.drop_nil, subFrom]
    exact .nil
  | cons c t ih =>
    cases skip with
    | succ skip =>
      rw [List.drop_succ_cons, List.take_succ_cons, lastOf_cons, subFrom]
      exact ih
    | zero =>
      rw [List.drop_zero, List.take_zero, lastOf_nil, subFrom]
      split
      · rename_i n hlength
        obtain ⟨m, post, htext, hm, hmlength⟩ := matchLength_some hlength
        have hsplit : c :: t = (c :: t.take n) ++ t.drop n := by
          rw [List.cons_append, List.take_append_drop]
        have hpieces : (c :: t.take n) ++ t.drop n = m ++ post := hsplit.symm.trans htext
        have hle : n ≤ t.length := by
          have hlen := congrArg List.length htext
          simp only [List.length_cons, List.length_append] at hlen
          omega
        have hlengths : (c :: t.take n).length = m.length := by
          rw [List.length_cons, List.length_take_of_le hle, hmlength]
        obtain ⟨rfl, rfl⟩ := List.append_inj hpieces hlengths
        rw [hsplit]
        exact .swap _ hm (List.cons_ne_nil c _) ih
      · rename_i hnone
        exact .keep c hnone (@ih (some c) 0)

theorem replaced_sub (r : Regex α) (repl t : List α) : Replaced r repl none t (sub r repl t) :=
  @replaced_subFrom _ r t repl none 0

/-- Some pieces, none of them empty, were replaced. -/
inductive Patched (repl : List α) : List α → List α → Prop where
  | nil : Patched repl [] []
  | keep {u u' : List α} (c : α) : Patched repl u u' → Patched repl (c :: u) (c :: u')
  | swap {u u' : List α} (m : List α) (hm : m ≠ []) : Patched repl u u' →
      Patched repl (m ++ u) (repl ++ u')

theorem patched_of_replaced (h : Replaced r repl before s s') : Patched repl s s' := by
  induction h with
  | nil => exact .nil
  | keep c _ _ ih => exact .keep c ih
  | swap m _ hne _ ih => exact .swap m hne ih

theorem patched_sub (r : Regex α) (repl t : List α) : Patched repl t (sub r repl t) :=
  patched_of_replaced (replaced_sub r repl t)

theorem mem_of_patched (h : Patched repl s s') {c : α} (hc : c ∈ s') : c ∈ s ∨ c ∈ repl := by
  induction h with
  | nil => cases hc
  | keep d _ ih =>
    rcases List.mem_cons.mp hc with rfl | hc
    · exact Or.inl List.mem_cons_self
    · exact (ih hc).imp_left (List.mem_cons_of_mem d)
  | swap m _ _ ih =>
    rcases List.mem_append.mp hc with hc | hc
    · exact Or.inr hc
    · exact (ih hc).imp_left (List.mem_append_right m)

/-- The shorter of two beginnings of a text begins the other. -/
theorem exists_append_of_le (h : x ++ y = a ++ b) (hle : x.length ≤ a.length) :
    ∃ z, a = x ++ z ∧ y = z ++ b := by
  rcases List.append_eq_append_iff.mp h with ⟨z, ha, hy⟩ | ⟨z, hx, hb⟩
  · exact ⟨z, ha, hy⟩
  · rw [hx, List.length_append] at hle
    have hz : z = [] := List.length_eq_zero_iff.mp (by omega)
    subst hz
    exact ⟨[], by rw [hx, List.append_nil, List.append_nil], hb.symm⟩

/-- No occurrence of `w` touches the replacement. -/
def Separates (repl w : List α) : Prop :=
  ∀ a b, w <:+: a ++ repl ++ b → w <:+: a ∨ w <:+: b

/-- `x` are the characters before that were kept. -/
theorem part_of_patched_append (hw : Separates repl w) (h : Patched repl s s') :
    w <:+: x ++ s' → w <:+: x ++ s := by
  induction h generalizing x with
  | nil => exact id
  | keep c _ ih =>
    intro hinside
    rw [List.append_cons] at hinside ⊢
    exact ih hinside
  | @swap u u' m _ _ ih =>
    intro hinside
    rw [← List.append_assoc] at hinside
    rcases hw x u' hinside with hx | hs
    · exact hx.trans (List.prefix_append x _).isInfix
    · have hs' := @ih [] hs
      exact hs'.trans ((List.suffix_append m u).trans (List.suffix_append x _)).isInfix

/-- No match of the expression touches the replacement. -/
def Apart (r : Regex α) (repl : List α) : Prop := ∀ w, Matches r none w [] → Separates repl w

theorem occurs_iff_part (hr : contextFree r = true) :
    Occurs r t ↔ ∃ w, Matches r none w [] ∧ w <:+: t := by
  constructor
  · rintro ⟨pre, m, post, rfl, hm⟩
    exact ⟨m, matches_of_contextFree hr hm, pre, post, rfl⟩
  · rintro ⟨w, hw, pre, post, rfl⟩
    exact ⟨pre, w, post, rfl, matches_of_contextFree hr hw⟩

theorem occurs_of_part (hr : contextFree r = true) (hinside : s <:+: t) (h : Occurs r s) :
    Occurs r t := by
  obtain ⟨w, hw, hinsidew⟩ := (occurs_iff_part hr).mp h
  exact (occurs_iff_part hr).mpr ⟨w, hw, hinsidew.trans hinside⟩

/-- A replacement that matches do not touch makes none. -/
theorem occurs_of_patched (hr : contextFree r = true) (hapart : Apart r repl)
    (hpatched : Patched repl s s') (hoccurs : Occurs r s') : Occurs r s := by
  obtain ⟨w, hw, hinside⟩ := (occurs_iff_part hr).mp hoccurs
  have hinside' := @part_of_patched_append _ s s' w [] repl (hapart w hw) hpatched hinside
  exact (occurs_iff_part hr).mpr ⟨w, hw, hinside'⟩

/-! ## Fixed sequences of character classes -/

def Fits (ps : List (α → Bool)) (w : List α) : Prop := List.Forall₂ (fun p c => p c = true) ps w

/-- The classes of an expression that matches one character after the other. -/
def classes : Regex α → Option (List (α → Bool))
  | .empty => some []
  | .chars p => some [p]
  | .seq r s => (classes r).bind fun ps => (classes s).map (ps ++ ·)
  | _ => none

theorem matches_iff_fits {after : List α} (h : classes r = some ps) :
    Matches r before m after ↔ Fits ps m := by
  induction r generalizing ps before m after with
  | empty =>
    obtain rfl := Option.some.inj h
    exact ⟨fun hm => hm ▸ List.Forall₂.nil, fun hm => List.forall₂_nil_left_iff.mp hm⟩
  | chars p =>
    obtain rfl := Option.some.inj h
    rw [Fits, List.forall₂_cons_left_iff]
    constructor
    · rintro ⟨c, rfl, hc⟩
      exact ⟨c, [], hc, List.Forall₂.nil, rfl⟩
    · rintro ⟨c, rest, hc, hrest, rfl⟩
      rw [List.forall₂_nil_left_iff.mp hrest]
      exact ⟨c, rfl, hc⟩
  | run p least most => cases h
  | boundary isWord => cases h
  | seq r s ihr ihs =>
    obtain ⟨ps₁, h₁, h⟩ := Option.bind_eq_some_iff.mp h
    obtain ⟨ps₂, h₂, rfl⟩ := Option.map_eq_some_iff.mp h
    constructor
    · rintro ⟨m₁, m₂, rfl, hm₁, hm₂⟩
      exact List.rel_append ((ihr h₁).mp hm₁) ((ihs h₂).mp hm₂)
    · intro hm
      refine ⟨m.take ps₁.length, m.drop ps₁.length, (List.take_append_drop _ _).symm,
        (ihr h₁).mpr ?_, (ihs h₂).mpr ?_⟩
      · have htake := List.forall₂_take ps₁.length hm
        rwa [List.take_left] at htake
      · have hdrop := List.forall₂_drop ps₁.length hm
        rwa [List.drop_left] at hdrop
  | alt r s ihr ihs => cases h

/-- The classes and the text differ somewhere at their beginnings. -/
def clashes (ps : List (α → Bool)) (t : List α) : Bool := (ps.zip t).any fun pc => !pc.1 pc.2

/-- Wherever the classes overlap the text, they differ from it. -/
def noOverlap (ps : List (α → Bool)) (repl : List α) : Bool :=
  (List.range ps.length).all (fun k => clashes (ps.drop k) repl) &&
    (List.range (repl.length - 1)).all fun j => clashes ps (repl.drop (j + 1))

theorem clashes_of_common (hw : Fits ps w) (h : w ++ y = repl ++ b) : clashes ps repl = false := by
  induction hw generalizing repl with
  | nil => rfl
  | @cons p c ps w hp _ ih =>
    cases repl with
    | nil => rfl
    | cons d repl =>
      obtain ⟨rfl, hrest⟩ := List.cons.inj h
      rw [clashes, List.zip_cons_cons, List.any_cons]
      dsimp only
      rw [hp]
      exact ih hrest

/-- An occurrence ends before the replacement, begins after it, or overlaps it. -/
theorem separates_of_not_overlapping (h : ∀ a b x y, x ++ (w ++ y) = a ++ (repl ++ b) →
    a.length < x.length + w.length → ¬x.length < a.length + repl.length) : Separates repl w := by
  rintro a b ⟨x, y, htext⟩
  have hflat : x ++ (w ++ y) = a ++ (repl ++ b) := by
    rw [← List.append_assoc, ← List.append_assoc]
    exact htext
  by_cases hbefore : (x ++ w).length ≤ a.length
  · left
    rw [List.append_assoc a] at htext
    obtain ⟨z, rfl, -⟩ := exists_append_of_le htext hbefore
    exact (List.suffix_append x w).isInfix.trans (List.prefix_append _ z).isInfix
  by_cases hafter : (a ++ repl).length ≤ x.length
  · right
    rw [List.append_assoc x] at htext
    obtain ⟨z, rfl, rfl⟩ := exists_append_of_le htext.symm hafter
    exact ⟨z, y, List.append_assoc z w y⟩
  rw [List.length_append] at hbefore hafter
  exact absurd (not_le.mp hafter) (h a b x y hflat (not_le.mp hbefore))

theorem separates_of_noOverlap (h : noOverlap ps repl = true) (hw : Fits ps w) :
    Separates repl w := by
  rw [noOverlap, Bool.and_eq_true, List.all_eq_true, List.all_eq_true] at h
  obtain ⟨hfront, hback⟩ := h
  have hlength : ps.length = w.length := hw.length_eq
  apply separates_of_not_overlapping
  intro a b x y htext hbefore hafter
  by_cases hle : x.length ≤ a.length
  · -- the replacement begins in the occurrence
    obtain ⟨z, rfl, hrest⟩ := exists_append_of_le htext hle
    rw [List.length_append] at hbefore
    have hz : z.length < w.length := by omega
    have hdrop := congrArg (List.drop z.length) hrest
    rw [List.drop_append_of_le_length hz.le, List.drop_left] at hdrop
    have hclash := hfront z.length (List.mem_range.mpr (by omega))
    rw [clashes_of_common (List.forall₂_drop z.length hw) hdrop] at hclash
    cases hclash
  · -- the occurrence begins in the replacement
    obtain ⟨z, rfl, hrest⟩ := exists_append_of_le htext.symm (not_le.mp hle).le
    rw [List.length_append] at hafter hle
    have hdrop := congrArg (List.drop z.length) hrest.symm
    rw [List.drop_left, List.drop_append_of_le_length (by omega)] at hdrop
    have hclash := hback (z.length - 1) (List.mem_range.mpr (by omega))
    rw [Nat.sub_add_cancel (by omega), clashes_of_common hw hdrop] at hclash
    cases hclash

theorem apart_of_noOverlap (hr : classes r = some ps) (h : noOverlap ps repl = true) :
    Apart r repl :=
  fun _ hw => separates_of_noOverlap h ((matches_iff_fits hr).mp hw)

theorem not_matches_nil (hr : classes r = some ps) (hps : ps ≠ []) {after : List α} :
    ¬Matches r before [] after := by
  rw [matches_iff_fits hr]
  exact fun hfits => hps (List.forall₂_nil_right_iff.mp hfits)

theorem contextFree_of_classes (h : classes r = some ps) : contextFree r = true := by
  induction r generalizing ps with
  | empty => rfl
  | chars p => rfl
  | run p least most => rfl
  | boundary isWord => cases h
  | seq r s ihr ihs =>
    obtain ⟨ps₁, h₁, h⟩ := Option.bind_eq_some_iff.mp h
    obtain ⟨ps₂, h₂, -⟩ := Option.map_eq_some_iff.mp h
    rw [contextFree, ihr h₁, ihs h₂]
    rfl
  | alt r s ihr ihs => cases h

theorem getElem?_middle {i : ℕ} (h : x.length ≤ i) (hi : i < x.length + w.length) (y : List α) :
    (x ++ (w ++ y))[i]? = w[i - x.length]? := by
  rw [List.getElem?_append_right h, List.getElem?_append_left (by omega)]

/-- The first and the last character of the word are none of the replacement, which has a
character that is none of the word. -/
theorem separates_of_ends {c d e : α} {v : List α} (hc : c ∉ repl) (hd : d ∉ repl) (he : e ∈ repl)
    (hew : e ∉ c :: v ++ [d]) : Separates repl (c :: v ++ [d]) := by
  apply separates_of_not_overlapping
  intro a b x y htext hbefore hafter
  have hlength : (c :: v ++ [d]).length = v.length + 2 := by
    rw [List.length_append, List.length_cons, List.length_singleton]
  have hplace : ∀ i, x.length ≤ i → i < x.length + (v.length + 2) → a.length ≤ i →
      i < a.length + repl.length → (c :: v ++ [d])[i - x.length]? = repl[i - a.length]? := by
    intro i h₁ h₂ h₃ h₄
    rw [← getElem?_middle h₁ (by omega) y, htext, getElem?_middle h₃ h₄]
  by_cases hstart : a.length ≤ x.length
  · have hget := hplace x.length le_rfl (by omega) hstart (by omega)
    rw [Nat.sub_self, List.cons_append, List.getElem?_cons_zero] at hget
    exact hc (List.mem_of_getElem? hget.symm)
  by_cases hend : x.length + v.length + 1 < a.length + repl.length
  · have hget := hplace (x.length + v.length + 1) (by omega) (by omega) (by omega) hend
    rw [show x.length + v.length + 1 - x.length = (c :: v).length by rw [List.length_cons]; omega,
      List.getElem?_append_right le_rfl, Nat.sub_self, List.getElem?_cons_zero] at hget
    exact hd (List.mem_of_getElem? hget.symm)
  · obtain ⟨k, hk, rfl⟩ := List.mem_iff_getElem.mp he
    have hget := hplace (a.length + k) (by omega) (by omega) (by omega) (by omega)
    rw [Nat.add_sub_cancel_left, List.getElem?_eq_getElem hk] at hget
    exact hew (List.mem_of_getElem? hget)

/-! ## An expression is gone after its replacement -/

/-- No kept character begins a match. -/
inductive Swept (r : Regex α) (repl : List α) : List α → List α → Prop where
  | nil : Swept r repl [] []
  | keep {u u' : List α} (c : α) (hno : ∀ w, Matches r none w [] → ¬w <+: c :: u) :
      Swept r repl u u' → Swept r repl (c :: u) (c :: u')
  | swap {u u' : List α} (m : List α) : Swept r repl u u' → Swept r repl (m ++ u) (repl ++ u')

theorem swept_of_replaced (hr : contextFree r = true)
    (hne : ∀ before after, ¬Matches r before [] after) (h : Replaced r repl before s s') :
    Swept r repl s s' := by
  induction h with
  | nil => exact .nil
  | swap m _ _ _ ih => exact .swap m ih
  | @keep before u u' c hno _ ih =>
    refine .keep c ?_ ih
    rintro w hw ⟨post, hpost⟩
    have hsome : (matchLength r ⟨before, c :: u⟩).isSome = true :=
      matchLength_isSome.mpr ⟨w, ⟨_, post⟩, ⟨hpost.symm, rfl⟩, matches_of_contextFree hr hw⟩
    obtain ⟨n, hn⟩ := Option.isSome_iff_exists.mp hsome
    obtain ⟨m, after, -, hm, hlength⟩ := matchLength_some hn
    cases n with
    | zero =>
      rw [List.length_eq_zero_iff.mp hlength] at hm
      exact hne _ _ hm
    | succ k => exact hno k hn

theorem not_part_of_starts {u : List α} (hne : w ≠ [])
    (h : ∀ v, v <:+ x → v ≠ [] → ¬w <+: v ++ u) : ¬w <:+: x := by
  intro hinside
  obtain ⟨v, hbegins, hsuffix⟩ := List.infix_iff_prefix_suffix.mp hinside
  refine h v hsuffix ?_ (hbegins.trans (List.prefix_append v u))
  rintro rfl
  exact hne (List.prefix_nil.mp hbegins)

theorem suffix_append_singleton {c : α} {v : List α} (h : v <:+ x ++ [c]) (hv : v ≠ []) :
    ∃ v', v = v' ++ [c] ∧ v' <:+ x := by
  obtain ⟨z, hz⟩ := h
  have hlast : v = v.dropLast ++ [v.getLast hv] := (List.dropLast_append_getLast hv).symm
  rw [hlast, ← List.append_assoc] at hz
  obtain ⟨hx, hc⟩ := List.append_inj' hz rfl
  exact ⟨v.dropLast, by rw [← hc]; exact hlast, z, hx⟩

/-- `x` are the characters before that were kept; no match begins in them. -/
theorem not_part_of_swept (hw : Matches r none w []) (hsep : Separates repl w) (hne : w ≠ [])
    (h : Swept r repl s s') (hx : ∀ v, v <:+ x → v ≠ [] → ¬w <+: v ++ s) :
    ¬w <:+: x ++ s' := by
  induction h generalizing x with
  | nil =>
    rw [List.append_nil]
    exact not_part_of_starts hne hx
  | @keep u u' c hno _ ih =>
    rw [List.append_cons]
    refine ih fun v hv hvne => ?_
    obtain ⟨v', rfl, hv'⟩ := suffix_append_singleton hv hvne
    rw [List.append_assoc, List.singleton_append]
    by_cases hnil : v' = []
    · rw [hnil]
      exact hno w hw
    · exact hx v' hv' hnil
  | @swap u u' m _ ih =>
    rw [← List.append_assoc]
    intro hinside
    rcases hsep x u' hinside with hinx | hinu
    · exact not_part_of_starts hne hx hinx
    · refine @ih [] (fun v hv hvne => ?_) hinu
      exact absurd (List.suffix_nil.mp hv) hvne

/-- Nothing is left of an expression whose matches do not touch the replacement. -/
theorem not_occurs_sub (hr : contextFree r = true)
    (hnil : ∀ before after, ¬Matches r before [] after) (hapart : Apart r repl) (t : List α) :
    ¬Occurs r (sub r repl t) := by
  rw [occurs_iff_part hr]
  rintro ⟨w, hw, hinside⟩
  have hswept := swept_of_replaced hr hnil (replaced_sub r repl t)
  have hne : w ≠ [] := by
    rintro rfl
    exact hnil _ _ hw
  refine @not_part_of_swept _ r t _ w [] repl hw (hapart w hw) hne hswept ?_ hinside
  intro v hv hvne
  exact absurd (List.suffix_nil.mp hv) hvne

/-! ## Runs -/

/-- How many characters of a class a text begins with. -/
def lead (p : α → Bool) (t : List α) : ℕ := (t.takeWhile p).length

theorem lead_cons (c : α) (t : List α) : lead p (c :: t) = if p c then lead p t + 1 else 0 := by
  rw [lead, List.takeWhile_cons]
  split_ifs
  · rfl
  · rfl

/-- No run of the class is longer. -/
def NoRun (p : α → Bool) (n : ℕ) (t : List α) : Prop := ∀ v, v <:+ t → lead p v ≤ n

theorem noRun_cons {n : ℕ} {c : α} : NoRun p n (c :: t) ↔ lead p (c :: t) ≤ n ∧ NoRun p n t := by
  constructor
  · exact fun h => ⟨h _ (List.suffix_refl _), fun v hv => h v (hv.trans (List.suffix_cons c t))⟩
  · rintro ⟨hlead, hrest⟩ v hv
    rcases List.suffix_cons_iff.mp hv with rfl | hv
    · exact hlead
    · exact hrest v hv

theorem head?_runEnds {least : ℕ} : (runEnds p least none before t).head?.map Place.rest =
    if least ≤ lead p t then some (t.drop (lead p t)) else none := by
  induction t generalizing least before with
  | nil =>
    rw [runEnds, lead, List.takeWhile_nil, List.length_nil]
    by_cases hleast : least = 0
    · rw [if_pos hleast, if_pos hleast.le]
      rfl
    · rw [if_neg hleast, if_neg (by omega)]
      rfl
  | cons c t ih =>
    have hrest := @ih (some c) (least - 1)
    rw [runEnds, lead_cons]
    by_cases hc : p c = true
    · rw [if_pos ⟨hc, by decide⟩, if_pos hc, Option.map_none, List.head?_append, List.drop_succ_cons]
      by_cases hle : least ≤ lead p t + 1
      · rw [if_pos (show least - 1 ≤ lead p t by omega)] at hrest
        obtain ⟨y, hy, hyrest⟩ := Option.map_eq_some_iff.mp hrest
        rw [if_pos hle, hy, Option.some_or, Option.map_some, hyrest]
      · rw [if_neg (show ¬least - 1 ≤ lead p t by omega)] at hrest
        rw [if_neg hle, Option.map_eq_none_iff.mp hrest, if_neg (by omega)]
        rfl
    · rw [if_neg (fun h => hc h.1), if_neg hc, List.nil_append]
      by_cases hleast : least = 0
      · rw [if_pos hleast, if_pos hleast.le]
        rfl
      · rw [if_neg hleast, if_neg (by omega)]
        rfl

theorem lead_le_length (p : α → Bool) (t : List α) : lead p t ≤ t.length :=
  (List.takeWhile_prefix p).length_le

theorem matchLength_run {least : ℕ} : matchLength (.run p least none) ⟨before, t⟩ =
    if least ≤ lead p t then some (lead p t) else none := by
  have hhead := @head?_runEnds _ t before p least
  rw [matchLength, ends]
  split_ifs at hhead ⊢ with hle
  · obtain ⟨y, hy, hrest⟩ := Option.map_eq_some_iff.mp hhead
    have hlength := lead_le_length p t
    rw [hy, Option.map_some, hrest, List.length_drop]
    congr 1
    dsimp only
    omega
  · rw [Option.map_eq_none_iff.mp hhead]
    rfl

theorem occurs_run {n : ℕ} : Occurs (.run p n none) t → n = 0 ∨ ∃ v, v <:+ t ∧ n ≤ lead p v := by
  rintro ⟨pre, m, post, rfl, hall, hn, -⟩
  refine Or.inr ⟨m ++ post, ⟨pre, by rw [List.append_assoc]⟩, hn.trans ?_⟩
  rw [lead, List.takeWhile_append_of_pos hall, List.length_append]
  exact Nat.le_add_right _ _

theorem not_occurs_of_noRun {n : ℕ} (h : NoRun p n t) : ¬Occurs (.run p (n + 1) none) t := by
  intro hoccurs
  rcases occurs_run hoccurs with h0 | ⟨v, hv, hlead⟩
  · cases h0
  · have := h v hv
    omega

theorem lead_drop_lead (p : α → Bool) (t : List α) : lead p (t.drop (lead p t)) = 0 := by
  induction t with
  | nil => rfl
  | cons c t ih =>
    rw [lead_cons]
    split_ifs with hc
    · exact ih
    · rw [List.drop_zero, lead_cons, if_neg hc]

theorem lead_append {u : List α} (hall : ∀ c ∈ u, p c = true) :
    lead p (u ++ t) = u.length + lead p t := by
  rw [lead, List.takeWhile_append_of_pos hall, List.length_append, lead]

theorem noRun_append {n : ℕ} {u : List α} (hall : ∀ c ∈ u, p c = true) (hn : u.length ≤ n)
    (ht : NoRun p n t) (hlead : lead p t = 0) : NoRun p n (u ++ t) := by
  induction u with
  | nil => exact ht
  | cons c u ih =>
    rw [List.length_cons] at hn
    have hrest := fun d hd => hall d (List.mem_cons_of_mem c hd)
    rw [List.cons_append, noRun_cons]
    refine ⟨?_, ih hrest (by omega)⟩
    rw [← List.cons_append, lead_append hall, hlead, List.length_cons]
    omega

/-- What is left of the runs at the beginning, and everywhere. -/
theorem subFrom_run {n skip : ℕ} (hall : ∀ c ∈ repl, p c = true) (hlength : repl.length = n) :
    let out := subFrom (.run p (n + 1) none) repl before skip t
    lead p out = min (lead p (t.drop skip)) n ∧ NoRun p n out := by
  induction t generalizing before skip with
  | nil =>
    rw [List.drop_nil, subFrom]
    refine ⟨(Nat.zero_min n).symm, fun v hv => ?_⟩
    rw [List.suffix_nil.mp hv]
    exact Nat.zero_le n
  | cons c t ih =>
    cases skip with
    | succ skip => exact ih
    | zero =>
      rw [List.drop_zero, subFrom, matchLength_run]
      by_cases hlong : n + 1 ≤ lead p (c :: t)
      · obtain ⟨k, hk⟩ := Nat.exists_eq_succ_of_ne_zero (show lead p (c :: t) ≠ 0 by omega)
        obtain ⟨hlead, hrun⟩ := @ih (some c) k
        have hdrop := lead_drop_lead p (c :: t)
        rw [hk, List.drop_succ_cons] at hdrop
        rw [hdrop, Nat.zero_min] at hlead
        rw [if_pos hlong, hk]
        refine ⟨?_, noRun_append hall hlength.le hrun hlead⟩
        rw [lead_append hall, hlead, hlength]
        omega
      · obtain ⟨hlead, hrun⟩ := @ih (some c) 0
        rw [List.drop_zero] at hlead
        rw [if_neg hlong]
        dsimp only
        rw [lead_cons] at hlong
        rw [noRun_cons, lead_cons, lead_cons, hlead]
        split_ifs at hlong ⊢
        · exact ⟨by omega, by omega, hrun⟩
        · exact ⟨by omega, Nat.zero_le n, hrun⟩

theorem noRun_sub {n : ℕ} (hall : ∀ c ∈ repl, p c = true) (hlength : repl.length = n)
    (t : List α) : NoRun p n (sub (.run p (n + 1) none) repl t) :=
  (@subFrom_run _ t repl none p n 0 hall hlength).2

/-- A replacement of other characters makes no runs. -/
theorem noRun_of_patched {n : ℕ} (hne : repl ≠ []) (hrepl : ∀ c ∈ repl, p c = false)
    (h : Patched repl s s') (hs : NoRun p n s) : NoRun p n s' ∧ lead p s' ≤ lead p s := by
  induction h with
  | nil => exact ⟨hs, le_rfl⟩
  | keep c _ ih =>
    obtain ⟨hlead, hrest⟩ := noRun_cons.mp hs
    obtain ⟨hrun, hle⟩ := ih hrest
    rw [noRun_cons]
    rw [lead_cons] at hlead
    rw [lead_cons, lead_cons]
    split_ifs at hlead ⊢
    · exact ⟨⟨by omega, hrun⟩, by omega⟩
    · exact ⟨⟨Nat.zero_le n, hrun⟩, le_rfl⟩
  | @swap u u' m _ _ ih =>
    obtain ⟨hrun, -⟩ := ih fun v hv => hs v (hv.trans (List.suffix_append m u))
    clear ih hs
    obtain ⟨c, rest, rfl⟩ := List.exists_cons_of_ne_nil hne
    have hc : ¬p c = true := by rw [hrepl c List.mem_cons_self]; exact Bool.false_ne_true
    refine ⟨?_, by rw [List.cons_append, lead_cons, if_neg hc]; exact Nat.zero_le _⟩
    clear hc
    generalize c :: rest = repl at hrepl
    induction repl with
    | nil => exact hrun
    | cons d repl ihrepl =>
      rw [List.cons_append, noRun_cons, lead_cons,
        if_neg (by rw [hrepl d List.mem_cons_self]; exact Bool.false_ne_true)]
      exact ⟨Nat.zero_le n, ihrepl fun e he => hrepl e (List.mem_cons_of_mem d he)⟩

theorem lead_append_le (t u : List α) : lead p t ≤ lead p (t ++ u) := by
  induction t with
  | nil => exact Nat.zero_le _
  | cons c t ih =>
    rw [List.cons_append, lead_cons, lead_cons]
    split_ifs
    · omega
    · exact le_rfl

theorem noRun_of_part {n : ℕ} (h : NoRun p n t) (hinside : s <:+: t) : NoRun p n s := by
  obtain ⟨a, b, rfl⟩ := hinside
  intro v hv
  obtain ⟨z, rfl⟩ := hv
  refine (lead_append_le v b).trans (h (v ++ b) ⟨a ++ z, ?_⟩)
  simp only [List.append_assoc]

theorem noRun_append_of_none {n : ℕ} (ht : NoRun p n t) (hs : ∀ c ∈ s, p c = false) :
    NoRun p n (t ++ s) ∧ lead p (t ++ s) = lead p t := by
  induction t with
  | nil =>
    have hlead : ∀ v : List α, (∀ c ∈ v, p c = false) → lead p v = 0 := by
      intro v hv
      cases v with
      | nil => rfl
      | cons c v =>
        rw [lead_cons, if_neg (by rw [hv c List.mem_cons_self]; exact Bool.false_ne_true)]
    refine ⟨fun v hv => ?_, hlead s hs⟩
    rw [hlead v fun c hc => hs c (hv.subset hc)]
    exact Nat.zero_le n
  | cons c t ih =>
    obtain ⟨hlead, hrest⟩ := noRun_cons.mp ht
    obtain ⟨hrun, heq⟩ := ih hrest
    have hcons : lead p (c :: (t ++ s)) = lead p (c :: t) := by rw [lead_cons, lead_cons, heq]
    rw [List.cons_append, noRun_cons, hcons]
    exact ⟨⟨hlead, hrun⟩, rfl⟩

/-! ## White space of another length -/

/-- Pieces of the class were replaced by others, by none where there were none. -/
inductive Stretched (p : α → Bool) : List α → List α → Prop where
  | nil : Stretched p [] []
  | keep {u u' : List α} {c : α} (hc : p c = false) : Stretched p u u' →
      Stretched p (c :: u) (c :: u')
  | piece {u u' : List α} {m m' : List α} (hm : ∀ c ∈ m, p c = true) (hm' : ∀ c ∈ m', p c = true)
      (hnil : m = [] → m' = []) : Stretched p u u' → Stretched p (m ++ u) (m' ++ u')

theorem stretched_of_replaced (hr : ∀ before m after, Matches r before m after →
    ∀ c ∈ m, p c = true) (hrepl : ∀ c ∈ repl, p c = true) (hne : repl ≠ [])
    (h : Replaced r repl before s s') : Stretched p s' s := by
  induction h with
  | nil => exact .nil
  | swap m hm _ _ ih => exact .piece hrepl (hr _ m _ hm) (fun h => absurd h hne) ih
  | keep c _ _ ih =>
    cases hc : p c with
    | false => exact .keep hc ih
    | true =>
      have hall : ∀ d ∈ [c], p d = true := fun d hd => List.mem_singleton.mp hd ▸ hc
      exact .piece hall hall id ih

theorem stretched_append {t₁ t₂ u : List α} (h : Stretched p (t₁ ++ t₂) u) :
    ∃ u₁ u₂, u = u₁ ++ u₂ ∧ Stretched p t₁ u₁ ∧ Stretched p t₂ u₂ := by
  generalize ht : t₁ ++ t₂ = t at h
  induction h generalizing t₁ with
  | nil =>
    obtain ⟨rfl, rfl⟩ := List.append_eq_nil_iff.mp ht
    exact ⟨[], [], rfl, .nil, .nil⟩
  | @keep u u' c hc hrest ih =>
    rcases List.append_eq_cons_iff.mp ht with ⟨rfl, rfl⟩ | ⟨t₁, rfl, rfl⟩
    · exact ⟨[], c :: u', rfl, .nil, .keep hc hrest⟩
    · obtain ⟨u₁, u₂, rfl, h₁, h₂⟩ := ih rfl
      exact ⟨c :: u₁, u₂, rfl, .keep hc h₁, h₂⟩
  | @piece u u' m m' hm hm' hnil hrest ih =>
    rcases List.append_eq_append_iff.mp ht with ⟨x, rfl, rfl⟩ | ⟨x, rfl, rfl⟩
    · by_cases h₁ : t₁ = []
      · subst h₁
        exact ⟨[], m' ++ u', rfl, .nil, .piece hm hm' hnil hrest⟩
      · have hrest₂ := Stretched.piece (fun c hc => hm c (List.mem_append_right t₁ hc))
          (List.forall_mem_nil _) (fun _ => rfl) hrest
        have hfirst := Stretched.piece (fun c hc => hm c (List.mem_append_left x hc)) hm'
          (fun h => absurd h h₁) .nil
        rw [List.append_nil, List.append_nil] at hfirst
        exact ⟨m', u', rfl, hfirst, hrest₂⟩
    · obtain ⟨u₁, u₂, rfl, h₁, h₂⟩ := ih rfl
      exact ⟨m' ++ u₁, u₂, by rw [List.append_assoc], .piece hm hm' hnil h₁, h₂⟩

theorem stretched_of_none {u : List α} (ht : ∀ c ∈ t, p c = false) (h : Stretched p t u) :
    u = t := by
  induction h with
  | nil => rfl
  | keep hc _ ih => rw [ih fun d hd => ht d (List.mem_cons_of_mem _ hd)]
  | @piece u u' m m' hm _ hnil _ ih =>
    have hm0 : m = [] := by
      rw [List.eq_nil_iff_forall_not_mem]
      intro c hc
      have hclash := hm c hc
      rw [ht c (List.mem_append_left u hc)] at hclash
      cases hclash
    subst hm0
    rw [hnil rfl, ih ht]

theorem stretched_all {u : List α} (ht : ∀ c ∈ t, p c = true) (h : Stretched p t u) :
    ∀ c ∈ u, p c = true := by
  induction h with
  | nil => exact ht
  | keep hc _ _ =>
    rw [ht _ List.mem_cons_self] at hc
    cases hc
  | piece _ hm' _ _ ih =>
    exact List.forall_mem_append.mpr
      ⟨hm', ih fun c hc => ht c (List.mem_append_right _ hc)⟩

/-- The expression takes the class in runs of any length, and nowhere else. -/
def TakesRuns (p : α → Bool) : Regex α → Prop
  | .empty => True
  | .chars q => ∀ c, q c = true → p c = false
  | .run q least most => q = p ∧ least = 0 ∧ most = none
  | .boundary _ => False
  | .seq r s | .alt r s => TakesRuns p r ∧ TakesRuns p s

theorem matches_stretched {m' after after' : List α} {before' : Option α} (hr : TakesRuns p r)
    (h : Stretched p m m') (hm : Matches r before m after) : Matches r before' m' after' := by
  induction r generalizing before before' m m' after after' with
  | empty =>
    obtain rfl : m = [] := hm
    exact stretched_of_none (List.forall_mem_nil _) h
  | chars q =>
    obtain ⟨c, rfl, hc⟩ := hm
    refine ⟨c, stretched_of_none (fun d hd => ?_) h, hc⟩
    rw [List.mem_singleton.mp hd]
    exact hr c hc
  | run q least most =>
    obtain ⟨rfl, rfl, rfl⟩ := hr
    exact ⟨stretched_all hm.1 h, Nat.zero_le _, nofun⟩
  | boundary isWord => exact hr.elim
  | seq r s ihr ihs =>
    obtain ⟨m₁, m₂, rfl, h₁, h₂⟩ := hm
    obtain ⟨u₁, u₂, rfl, hu₁, hu₂⟩ := stretched_append h
    exact ⟨u₁, u₂, rfl, ihr hr.1 hu₁ h₁, ihs hr.2 hu₂ h₂⟩
  | alt r s ihr ihs => exact hm.imp (ihr hr.1 h) (ihs hr.2 h)

theorem occurs_stretched (hr : TakesRuns p r) (h : Stretched p s s') (hoccurs : Occurs r s) :
    Occurs r s' := by
  obtain ⟨pre, m, post, rfl, hm⟩ := hoccurs
  obtain ⟨u, post', rfl, hu, -⟩ := stretched_append h
  obtain ⟨pre', m', rfl, -, hm'⟩ := stretched_append hu
  exact ⟨pre', m', post', rfl, matches_stretched hr hm' hm⟩

/-- Shorter or longer white space between the parts of a match makes no match. -/
theorem occurs_of_sub (hr : TakesRuns p r) (hl : ∀ before m after, Matches l before m after →
    ∀ c ∈ m, p c = true) (hrepl : ∀ c ∈ repl, p c = true) (hne : repl ≠ [])
    (h : Occurs r (sub l repl t)) : Occurs r t :=
  occurs_stretched hr (stretched_of_replaced hl hrepl hne (replaced_sub l repl t)) h

/-! ## A text that is appended -/

/-- Some class of the expression has the character. -/
def accepts (c : α) : Regex α → Bool
  | .empty => false
  | .chars p => p c
  | .run p _ _ => p c
  | .boundary _ => false
  | .seq r s => accepts c r || accepts c s
  | .alt r s => accepts c r || accepts c s

theorem accepts_of_mem {after : List α} {c : α} (h : Matches r before m after) (hc : c ∈ m) :
    accepts c r = true := by
  induction r generalizing before m after with
  | empty =>
    rw [show m = [] from h] at hc
    cases hc
  | chars p =>
    obtain ⟨d, rfl, hd⟩ := h
    rw [List.mem_singleton.mp hc]
    exact hd
  | run p least most => exact h.1 c hc
  | boundary isWord =>
    rw [h.1] at hc
    cases hc
  | seq r s ihr ihs =>
    obtain ⟨m₁, m₂, rfl, h₁, h₂⟩ := h
    rw [accepts, Bool.or_eq_true]
    exact (List.mem_append.mp hc).imp (ihr h₁) (ihs h₂)
  | alt r s ihr ihs =>
    rw [accepts, Bool.or_eq_true]
    exact h.imp (fun h => ihr h hc) fun h => ihs h hc

/-- What the expression takes for parts of words where it looks for an edge. -/
def edges : Regex α → List (α → Bool)
  | .boundary isWord => [isWord]
  | .seq r s => edges r ++ edges s
  | .alt r s => edges r ++ edges s
  | _ => []

theorem matches_append_edge {post rest : List α} {c : α}
    (h : ∀ isWord ∈ edges r, isWord c = false) :
    Matches r before m (post ++ c :: rest) ↔ Matches r before m post := by
  induction r generalizing before m post with
  | empty => exact Iff.rfl
  | chars p => exact Iff.rfl
  | run p least most => exact Iff.rfl
  | boundary isWord =>
    cases post with
    | nil =>
      have hc := h isWord (List.mem_singleton_self _)
      simp [Matches, isBoundary, hc]
    | cons d post => exact Iff.rfl
  | seq r s ihr ihs =>
    obtain ⟨hr, hs⟩ := List.forall_mem_append.mp h
    simp only [Matches, ← List.append_assoc, ihr hr, ihs hs]
  | alt r s ihr ihs =>
    obtain ⟨hr, hs⟩ := List.forall_mem_append.mp h
    exact or_congr (ihr hr) (ihs hs)

/-- Every match ends with one of `l`. -/
def EndsWith (r l : Regex α) : Prop :=
  ∀ before m after, Matches r before m after →
    ∃ m₁ m₂ before' after', m = m₁ ++ m₂ ∧ Matches l before' m₂ after'

theorem endsWith_inOrder (rs : List (Regex α)) (hr : EndsWith r l) :
    EndsWith (inOrder (rs ++ [r])) l := by
  induction rs with
  | nil =>
    rintro before m after ⟨m₁, m₂, rfl, hm, rfl⟩
    rw [List.append_nil]
    exact hr _ _ _ hm
  | cons q rs ih =>
    rintro before m after ⟨m₁, m₂, rfl, -, hm⟩
    obtain ⟨n₁, n₂, before', after', rfl, hn⟩ := ih _ _ _ hm
    exact ⟨m₁ ++ n₁, n₂, before', after', (List.append_assoc _ _ _).symm, hn⟩

theorem endsWith_boundary (l : Regex α) (isWord : α → Bool) (rs : List (Regex α)) :
    EndsWith (inOrder (rs ++ [l, .boundary isWord])) l := by
  induction rs with
  | nil =>
    rintro before m after ⟨m₁, m₂, rfl, hm, n₁, n₂, rfl, ⟨rfl, -⟩, rfl⟩
    exact ⟨[], m₁, before, _, by rw [List.append_nil, List.append_nil, List.nil_append], hm⟩
  | cons q rs ih =>
    rintro before m after ⟨m₁, m₂, rfl, -, hm⟩
    obtain ⟨n₁, n₂, before', after', rfl, hn⟩ := ih _ _ _ hm
    exact ⟨m₁ ++ n₁, n₂, before', after', (List.append_assoc _ _ _).symm, hn⟩

theorem endsWith_refl (r : Regex α) : EndsWith r r := fun before m after hm =>
  ⟨[], m, before, after, rfl, hm⟩

/-- A text after a character that no ending has brings no match, unless an ending lies in it. -/
theorem occurs_append_iff {c : α} (hedges : ∀ isWord ∈ edges r, isWord c = false)
    (hends : EndsWith r l) (hfree : contextFree l = true) (haccepts : accepts c l = false)
    (hrest : ¬Occurs l y) : Occurs r (x ++ c :: y) ↔ Occurs r x := by
  constructor
  · rintro ⟨pre, m, post, htext, hm⟩
    by_cases hin : (pre ++ m).length ≤ x.length
    · obtain ⟨post', rfl, rfl⟩ := exists_append_of_le htext.symm hin
      exact ⟨pre, m, post', rfl, (matches_append_edge hedges).mp hm⟩
    exfalso
    obtain ⟨m₁, m₂, before', after', rfl, hm₂⟩ := hends _ _ _ hm
    rw [← List.append_assoc] at hin htext
    rw [List.append_assoc] at htext
    by_cases hstart : (pre ++ m₁).length ≤ x.length
    · -- the ending would have to contain the character
      obtain ⟨z, rfl, htail⟩ := exists_append_of_le htext.symm hstart
      rw [List.length_append, @List.length_append _ (pre ++ m₁)] at hin
      have hz : z.length < m₂.length := by omega
      have hget := congrArg (fun t => t[z.length]?) htail
      rw [List.getElem?_append_right le_rfl, Nat.sub_self, List.getElem?_cons_zero,
        List.getElem?_append_left hz] at hget
      rw [accepts_of_mem hm₂ (List.mem_of_getElem? hget)] at haccepts
      cases haccepts
    · -- the ending lies behind it
      rw [List.append_cons] at htext
      have hlength : (x ++ [c]).length ≤ (pre ++ m₁).length := by
        rw [List.length_append, List.length_singleton]
        omega
      obtain ⟨z, -, rfl⟩ := exists_append_of_le htext hlength
      refine hrest ⟨z, m₂, post, ?_, matches_of_contextFree hfree hm₂⟩
      rw [List.append_assoc]
  · rintro ⟨pre, m, post, rfl, hm⟩
    refine ⟨pre, m, post ++ c :: y, ?_, (matches_append_edge hedges).mpr hm⟩
    rw [List.append_assoc]

end RegexReplace
