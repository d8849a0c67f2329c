import Mathlib.Data.Prod.Lex
import AiSOC.Pagination

/-! # Stable sorting

Sorted rows with equal keys keep the order they came in, so a sort refines the order of its
input. The first rows of an ordered answer are the same in all answers if no tie begins among
them. -/
namespace Pagination

variable {α K L : Type*} [LinearOrder K] [LinearOrder L] {key : α → K} {rank : α → L}
  {rows answer : List α} {a : α}

theorem filter_sortRows (k : K) :
    (sortRows key rows).filter (fun a => key a = k) = rows.filter fun a => key a = k := by
  have hsub : (rows.filter fun a => key a = k).Sublist (sortRows key rows) := by
    apply List.sublist_mergeSort
    · intro a b c hab hbc
      rw [decide_eq_true_eq] at hab hbc ⊢
      exact le_trans hab hbc
    · intro a b
      simpa using le_total (key a) (key b)
    · rw [List.pairwise_filter]
      refine List.pairwise_of_forall fun a b ha hb => ?_
      rw [decide_eq_true_eq] at ha hb ⊢
      rw [ha, hb]
    · exact List.filter_sublist
  have hfilter := hsub.filter fun a => decide (key a = k)
  rw [List.filter_filter] at hfilter
  simp only [Bool.and_self] at hfilter
  have hanswer : Answer key rows (sortRows key rows) := answer_sortRows rows
  have hlength := (hanswer.perm.filter fun a => decide (key a = k)).length_eq
  exact (hfilter.eq_of_length hlength.symm).symm

/-- A sort does not change which of the rows with a key comes first. -/
theorem find?_sortRows {p : α → Bool} {k : K} (hp : ∀ a, p a = true → key a = k) :
    (sortRows key rows).find? p = rows.find? p := by
  have hfilter (xs : List α) : (xs.filter fun a => key a = k).find? p = xs.find? p := by
    rw [List.find?_filter]
    congr 1
    funext a
    rw [Bool.eq_iff_iff, decide_eq_true_iff, decide_eq_true_iff]
    exact ⟨And.right, fun ha => ⟨hp a ha, ha⟩⟩
  rw [← hfilter, filter_sortRows, hfilter]

/-- Rows in the order of their ranks are sorted by key, then by rank. -/
theorem answer_lex (h : rows.Pairwise fun a b => rank a ≤ rank b) :
    Answer (fun a => toLex (key a, rank a)) rows (sortRows key rows) := by
  have hanswer : Answer key rows (sortRows key rows) := answer_sortRows rows
  refine ⟨hanswer.perm, ?_⟩
  rw [List.pairwise_iff_forall_sublist]
  intro a b hab
  have hkey := List.pairwise_iff_forall_sublist.mp hanswer.sorted hab
  rw [Prod.Lex.toLex_le_toLex]
  rcases lt_or_eq_of_le hkey with hlt | heq
  · exact Or.inl hlt
  · -- tied rows stand as they stood before
    have htied := hab.filter fun c => decide (key c = key b)
    rw [filter_sortRows, List.filter_cons_of_pos (by simpa using heq),
      List.filter_cons_of_pos (by simp), List.filter_nil] at htied
    exact Or.inr ⟨heq, List.pairwise_iff_forall_sublist.mp h (htied.trans List.filter_sublist)⟩

/-- Two answers begin alike up to the first tie. -/
theorem Answer.take_eq {first second : List α} (hfirst : Answer key rows first)
    (hsecond : Answer key rows second) {n : ℕ}
    (hties : ∀ a ∈ rows, ∀ b ∈ rows, a ≠ b → key a = key b → n ≤ before key rows a) :
    first.take n = second.take n := by
  have hlength : first.length = second.length := (hfirst.perm.trans hsecond.perm.symm).length_eq
  apply List.ext_getElem
  · rw [List.length_take, List.length_take, hlength]
  · intro i hi hi'
    rw [List.length_take] at hi hi'
    rw [List.getElem_take, List.getElem_take]
    have hsplit (xs : List α) (h : i < xs.length) :
        xs = xs.take i ++ xs[i] :: xs.drop (i + 1) := by
      rw [← List.drop_eq_getElem_cons, List.take_append_drop]
    have hi₁ : i < first.length := by omega
    have hi₂ : i < second.length := by omega
    have hposition := (hsplit first hi₁ ▸ hfirst).position
    rw [List.length_take_of_le hi₁.le] at hposition
    have hlen := List.length_take_of_le hi₂.le
    have htied : key second[i] = key first[i] :=
      (hsplit second hi₂ ▸ hsecond).tied (by omega) (by omega)
    by_contra hne
    have := hties _ (hfirst.perm.subset (List.getElem_mem hi₁)) _
      (hsecond.perm.subset (List.getElem_mem hi₂)) hne htied.symm
    omega

/-- Where a tie begins stands the first of its rows. -/
theorem Answer.getElem_before (h : Answer key rows answer) (ha : a ∈ rows) :
    answer[before key rows a]? = answer.find? fun b => key b = key a := by
  obtain ⟨xs, ys, hsplit⟩ := List.append_of_mem (h.perm.mem_iff.mpr ha)
  have hposition := (hsplit ▸ h).position
  have hbefore : before key rows a < answer.length := by
    rw [hsplit, List.length_append, List.length_cons]
    omega
  have hwhole : answer = answer.take (before key rows a) ++ answer[before key rows a] ::
      answer.drop (before key rows a + 1) := by
    rw [← List.drop_eq_getElem_cons, List.take_append_drop]
  have hlen := List.length_take_of_le hbefore.le
  have htied : key answer[before key rows a] = key a :=
    (hwhole ▸ h).tied (by omega) (by omega)
  rw [List.getElem?_eq_getElem hbefore, eq_comm, List.find?_eq_some_iff_append]
  refine ⟨by simpa using htied, _, _, hwhole, ?_⟩
  intro b hb
  obtain ⟨us, vs, hleft⟩ := List.append_of_mem hb
  have hb' : answer = us ++ b :: (vs ++ answer.drop (before key rows a)) := by
    rw [← List.cons_append, ← List.append_assoc, ← hleft, List.take_append_drop]
  have hposition := (hb' ▸ h).position
  have hlength := congrArg List.length hleft
  rw [List.length_append, List.length_cons] at hlength
  simp only [Bool.not_eq_true', decide_eq_false_iff_not]
  intro hkey
  rw [before, hkey, ← before] at hposition
  omega

end Pagination
