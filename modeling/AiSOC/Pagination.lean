import Mathlib.Data.List.Basic
import Mathlib.Data.Nat.Basic
import Mathlib.Order.Lattice

/-! # Pages of an ordered query

Every page is a query of its own, and every query may put rows with equal keys in an order of
its own. The pages together are the rows exactly if no page ends between rows that are tied. -/
namespace Pagination

variable {α K : Type*} [LinearOrder K] (key : α → K)

/-- One of the orders in which a query may return the rows. -/
structure Answer (rows answer : List α) : Prop where
  perm : answer.Perm rows
  sorted : answer.Pairwise fun a b => key a ≤ key b

/-- Pages count from one. -/
def page (size p : ℕ) (answer : List α) : List α := (answer.drop ((p - 1) * size)).take size

/-- The first pages, each out of the answer to its own query. -/
def firstPages (size count : ℕ) (answers : ℕ → List α) : List α :=
  (List.range' 1 count).flatMap fun p => page size p (answers p)

def before (rows : List α) (a : α) : ℕ := rows.countP fun b => key b < key a

def upTo (rows : List α) (a : α) : ℕ := rows.countP fun b => key b ≤ key a

/-- The rows tied with `a` stand on both sides of a position. -/
def Straddles (rows : List α) (m : ℕ) (a : α) : Prop :=
  before key rows a < m ∧ m < upTo key rows a

variable {key} {rows answer : List α} {a : α}

theorem Answer.before_eq (h : Answer key rows answer) (a : α) :
    before key rows a = before key answer a := (h.perm.countP_eq _).symm

theorem Answer.upTo_eq (h : Answer key rows answer) (a : α) :
    upTo key rows a = upTo key answer a := (h.perm.countP_eq _).symm

/-- A row stands after the rows before it and among those up to it. -/
theorem Answer.position {xs ys : List α} (h : Answer key rows (xs ++ a :: ys)) :
    before key rows a ≤ xs.length ∧ xs.length < upTo key rows a := by
  obtain ⟨hxs, hys, hcross⟩ := List.pairwise_append.mp h.sorted
  have hafter := (List.pairwise_cons.mp hys).1
  constructor
  · have hnone : List.countP (fun b => decide (key b < key a)) (a :: ys) = 0 := by
      rw [List.countP_eq_zero]
      intro b hb
      rcases List.mem_cons.mp hb with rfl | hb
      · simp
      · simpa using hafter b hb
    rw [h.before_eq, before, List.countP_append, hnone, Nat.add_zero]
    exact List.countP_le_length
  · have hall : List.countP (fun b => decide (key b ≤ key a)) xs = xs.length := by
      rw [List.countP_eq_length]
      intro b hb
      simpa using hcross b hb a List.mem_cons_self
    rw [h.upTo_eq, upTo, List.countP_append, List.countP_cons_of_pos (by simp), hall]
    omega

/-- What stands among the rows tied with `a` is tied with it. -/
theorem Answer.tied {xs ys : List α} {b : α} (h : Answer key rows (xs ++ b :: ys))
    (hbefore : before key rows a ≤ xs.length) (hupTo : xs.length < upTo key rows a) :
    key b = key a := by
  obtain ⟨hxs, hys, hcross⟩ := List.pairwise_append.mp h.sorted
  have hafter := (List.pairwise_cons.mp hys).1
  rcases lt_trichotomy (key b) (key a) with hlt | heq | hgt
  · have hall : List.countP (fun c => decide (key c < key a)) xs = xs.length := by
      rw [List.countP_eq_length]
      intro c hc
      simpa using lt_of_le_of_lt (hcross c hc b List.mem_cons_self) hlt
    rw [h.before_eq, before, List.countP_append, List.countP_cons_of_pos (by simpa using hlt),
      hall] at hbefore
    omega
  · exact heq
  · have hnone : List.countP (fun c => decide (key c ≤ key a)) (b :: ys) = 0 := by
      rw [List.countP_eq_zero]
      intro c hc
      rcases List.mem_cons.mp hc with rfl | hc
      · simpa using hgt
      · simpa using lt_of_lt_of_le hgt (hafter c hc)
    rw [h.upTo_eq, upTo, List.countP_append, hnone, Nat.add_zero] at hupTo
    exact absurd hupTo (Nat.not_lt.mpr List.countP_le_length)

/-- Where no tie straddles it, a position cuts every answer into the same rows. -/
theorem Answer.take_eq_filter (h : Answer key rows answer) {m : ℕ}
    (hties : ∀ a ∈ rows, ¬ Straddles key rows m a) :
    answer.take m = answer.filter fun a => upTo key rows a ≤ m := by
  have hleft : ∀ a ∈ answer.take m, (decide (upTo key rows a ≤ m)) = true := by
    intro a ha
    obtain ⟨xs, ys, hsplit⟩ := List.append_of_mem ha
    have hwhole : answer = xs ++ a :: (ys ++ answer.drop m) := by
      rw [← List.cons_append, ← List.append_assoc, ← hsplit, List.take_append_drop]
    have hposition := (hwhole ▸ h).position
    have hlength := congrArg List.length hsplit
    rw [List.length_take, List.length_append, List.length_cons] at hlength
    have hmem : a ∈ rows := h.perm.subset (List.take_subset m answer ha)
    have := not_and.mp (hties a hmem) (by omega)
    simpa using this
  have hright : ∀ a ∈ answer.drop m, ¬ (decide (upTo key rows a ≤ m)) = true := by
    intro a ha
    obtain ⟨xs, ys, hsplit⟩ := List.append_of_mem ha
    have hwhole : answer = (answer.take m ++ xs) ++ a :: ys := by
      rw [List.append_assoc, ← hsplit, List.take_append_drop]
    have hposition := (hwhole ▸ h).position
    have hlength := congrArg List.length hsplit
    rw [List.length_drop, List.length_append, List.length_cons] at hlength
    rw [List.length_append, List.length_take] at hposition
    simp only [decide_eq_true_eq]
    omega
  calc answer.take m = (answer.take m).filter (fun a => upTo key rows a ≤ m) ++
        (answer.drop m).filter fun a => upTo key rows a ≤ m := by
        rw [List.filter_eq_self.mpr hleft, List.filter_eq_nil_iff.mpr hright, List.append_nil]
    _ = answer.filter fun a => upTo key rows a ≤ m := by
        rw [← List.filter_append, List.take_append_drop]

theorem take_page {size q : ℕ} (answer : List α) : answer.take ((q + 1) * size) =
    answer.take (q * size) ++ page size (q + 1) answer := by
  rw [page, Nat.add_sub_cancel, Nat.succ_mul, List.take_add]

theorem firstPages_succ (size q : ℕ) (answers : ℕ → List α) : firstPages size (q + 1) answers =
    firstPages size q answers ++ page size (q + 1) (answers (q + 1)) := by
  rw [firstPages, List.range'_1_concat, List.flatMap_append, List.flatMap_singleton,
    Nat.add_comm 1]
  rfl

/-- The first pages are the rows that stand before their end in every answer. -/
theorem firstPages_perm {size : ℕ} {answers : ℕ → List α}
    (hanswers : ∀ p, Answer key rows (answers p))
    (hties : ∀ a ∈ rows, ∀ q, ¬ Straddles key rows (q * size) a) (count : ℕ) :
    (firstPages size count answers).Perm (rows.filter fun a => upTo key rows a ≤ count * size) := by
  induction count with
  | zero =>
    have hcut := (hanswers 0).take_eq_filter fun a ha => hties a ha 0
    rw [Nat.zero_mul, List.take_zero] at hcut
    have hfilter := (hanswers 0).perm.filter fun a => upTo key rows a ≤ 0
    rw [← hcut] at hfilter
    rw [Nat.zero_mul]
    exact hfilter
  | succ q ih =>
    have hcut (m : ℕ) := (hanswers (q + 1)).take_eq_filter (m := m * size) fun a ha => hties a ha m
    have hfilter (m : ℕ) := (hanswers (q + 1)).perm.filter fun a => upTo key rows a ≤ m * size
    have hprevious : (firstPages size q answers).Perm ((answers (q + 1)).take (q * size)) := by
      rw [hcut q]
      exact ih.trans (hfilter q).symm
    rw [firstPages_succ]
    apply ((hprevious.append_right _).trans _).trans (hfilter (q + 1))
    rw [← take_page, hcut (q + 1)]

theorem upTo_le_length (a : α) : upTo key rows a ≤ rows.length := List.countP_le_length

/-- All pages together are the rows. -/
theorem pages_perm {size count : ℕ} {answers : ℕ → List α}
    (hanswers : ∀ p, Answer key rows (answers p))
    (hties : ∀ a ∈ rows, ∀ q, ¬ Straddles key rows (q * size) a)
    (hcount : rows.length ≤ count * size) : (firstPages size count answers).Perm rows := by
  have hall : (rows.filter fun a => decide (upTo key rows a ≤ count * size)) = rows := by
    rw [List.filter_eq_self]
    intro a _
    exact decide_eq_true (le_trans (upTo_le_length a) hcount)
  have hperm := firstPages_perm hanswers hties count
  rwa [hall] at hperm

variable (key) in
/-- The rows in an order of their keys. -/
def sortRows (rows : List α) : List α := rows.mergeSort fun a b => key a ≤ key b

theorem answer_sortRows (rows : List α) : Answer key rows (sortRows key rows) where
  perm := List.mergeSort_perm _ _
  sorted := by
    have hsorted : (sortRows key rows).Pairwise fun a b => decide (key a ≤ key b) = true := by
      apply List.pairwise_mergeSort
      · intro a b c hab hbc
        rw [decide_eq_true_eq] at hab hbc ⊢
        exact le_trans hab hbc
      · intro a b
        simpa using le_total (key a) (key b)
    exact hsorted.imp of_decide_eq_true

/-- Without ties there is one order. -/
theorem Answer.eq_of_injective {first second : List α} (hfirst : Answer key rows first)
    (hsecond : Answer key rows second) (hkey : ∀ a ∈ rows, ∀ b ∈ rows, key a = key b → a = b) :
    first = second := by
  refine (hfirst.perm.trans hsecond.perm.symm).eq_of_pairwise ?_ hfirst.sorted hsecond.sorted
  intro a b ha hb hle hge
  exact hkey a (hfirst.perm.mem_iff.mp ha) b (hsecond.perm.mem_iff.mp hb) (le_antisymm hle hge)

/-- Tied neighbours can change places. -/
theorem Answer.swap {xs ys : List α} {b : α} (h : Answer key rows (xs ++ a :: b :: ys))
    (htied : key a = key b) : Answer key rows (xs ++ b :: a :: ys) := by
  refine ⟨(List.Perm.append_left xs (List.Perm.swap a b ys)).trans h.perm, ?_⟩
  obtain ⟨hxs, hsuffix, hcross⟩ := List.pairwise_append.mp h.sorted
  obtain ⟨ha, hsuffix⟩ := List.pairwise_cons.mp hsuffix
  obtain ⟨hb, hys⟩ := List.pairwise_cons.mp hsuffix
  rw [List.pairwise_append, List.pairwise_cons, List.pairwise_cons]
  refine ⟨hxs, ⟨?_, ?_, hys⟩, ?_⟩
  · exact List.forall_mem_cons.mpr ⟨htied.ge, hb⟩
  · exact fun c hc => ha c (List.mem_cons_of_mem b hc)
  · intro c hc d hd
    exact hcross c hc d ((List.Perm.swap a b ys).mem_iff.mp hd)

theorem flatMap_congr_of_ne {first second : List α} {size p : ℕ} {ps : List ℕ} (h : p ∉ ps) :
    (ps.flatMap fun r => page size r (if r = p then second else first)) =
      ps.flatMap fun r => page size r first := by
  apply List.flatMap_congr
  intro r hr
  rw [if_neg (ne_of_mem_of_not_mem hr h)]

/-- If the pages are the rows whatever the answers are, two answers differ on no page. -/
theorem page_perm_of_exact {size count : ℕ}
    (hexact : ∀ answers : ℕ → List α, (∀ p, Answer key rows (answers p)) →
      (firstPages size count answers).Perm rows)
    {first second : List α} (hfirst : Answer key rows first) (hsecond : Answer key rows second)
    {p : ℕ} (hp : 1 ≤ p) (hcount : p ≤ count) :
    (page size p first).Perm (page size p second) := by
  have hsplit : List.range' 1 count =
      List.range' 1 (p - 1) ++ p :: List.range' (p + 1) (count - p) := by
    have hp' : 1 + (p - 1) = p := by omega
    have hlength : count = p - 1 + (count - p + 1) := by omega
    rw [← List.range'_succ, hlength, ← List.range'_append_1, hp']
    congr 2
    omega
  have hsame := hexact (fun _ => first) fun _ => hfirst
  have hchanged := hexact (fun r => if r = p then second else first) fun r => by
    by_cases hr : r = p
    · rwa [if_pos hr]
    · rwa [if_neg hr]
  have hleft : p ∉ List.range' 1 (p - 1) := by
    rw [List.mem_range'_1]
    omega
  have hright : p ∉ List.range' (p + 1) (count - p) := by
    rw [List.mem_range'_1]
    omega
  rw [firstPages, hsplit, List.flatMap_append, List.flatMap_cons] at hsame hchanged
  rw [flatMap_congr_of_ne hleft, flatMap_congr_of_ne hright, if_pos rfl] at hchanged
  have hboth := hsame.trans hchanged.symm
  rw [List.perm_append_left_iff, List.perm_append_right_iff] at hboth
  exact hboth

/-- Otherwise some answer has two tied rows the other way round, across the end of a page. -/
theorem ties_of_exact {size count : ℕ} (hnodup : rows.Nodup) (hsize : 0 < size)
    (hcount : rows.length ≤ count * size)
    (hexact : ∀ answers : ℕ → List α, (∀ p, Answer key rows (answers p)) →
      (firstPages size count answers).Perm rows) :
    ∀ a ∈ rows, ∀ q, ¬ Straddles key rows (q * size) a := by
  rintro a - q ⟨hbefore, hupTo⟩
  have hanswer : Answer key rows (sortRows key rows) := answer_sortRows rows
  have hlength : (sortRows key rows).length = rows.length := hanswer.perm.length_eq
  have hinside : q * size < rows.length := lt_of_lt_of_le hupTo (upTo_le_length a)
  obtain ⟨m, hm⟩ : ∃ m, q * size = m + 1 := Nat.exists_eq_succ_of_ne_zero (by omega)
  -- the last row of page `q` and the first one after it
  have hlast : m < (sortRows key rows).length := by omega
  have hnext : m + 1 < (sortRows key rows).length := by omega
  obtain ⟨xs, ys, u, v, hrows, hxs⟩ : ∃ xs ys u v,
      sortRows key rows = xs ++ u :: v :: ys ∧ xs.length = m :=
    ⟨(sortRows key rows).take m, (sortRows key rows).drop (m + 2), (sortRows key rows)[m],
      (sortRows key rows)[m + 1], by
        rw [← List.drop_eq_getElem_cons hnext, ← List.drop_eq_getElem_cons hlast,
          List.take_append_drop],
      List.length_take_of_le hlast.le⟩
  rw [hrows] at hanswer
  have hu : key u = key a := hanswer.tied (by omega) (by omega)
  have hv : key v = key a := by
    have hmoved : Answer key rows ((xs ++ [u]) ++ v :: ys) := by
      rwa [List.append_assoc, List.singleton_append]
    apply hmoved.tied
    · rw [List.length_append, List.length_singleton]
      omega
    · rw [List.length_append, List.length_singleton]
      omega
  have hswapped := hanswer.swap (hu.trans hv.symm)
  have hq : 1 ≤ q := by
    rcases Nat.eq_zero_or_pos q with rfl | hq
    · omega
    · exact hq
  have hqcount : q ≤ count := by
    by_contra hover
    have := Nat.mul_le_mul_right size (Nat.le_of_not_le hover)
    omega
  have hpage := page_perm_of_exact hexact hanswer hswapped hq hqcount
  have hends (w z : α) (zs : List α) : page size q (xs ++ w :: z :: zs) =
      xs.drop ((q - 1) * size) ++ [w] := by
    have hstart : (q - 1) * size + size = m + 1 := by
      rw [← Nat.succ_mul, Nat.succ_eq_add_one, Nat.sub_add_cancel hq, hm]
    have hrest : (xs.drop ((q - 1) * size)).length = size - 1 := by
      rw [List.length_drop]
      omega
    have hone : size - (size - 1) = 1 := by omega
    rw [page, List.drop_append_of_le_length (by omega), List.take_append, hrest, hone,
      List.take_of_length_le (by omega)]
    rfl
  rw [hends, hends, List.perm_append_left_iff, List.singleton_perm_singleton] at hpage
  have hdistinct := hanswer.perm.nodup_iff.mpr hnodup
  rw [hpage, List.nodup_append] at hdistinct
  exact absurd List.mem_cons_self (List.nodup_cons.mp hdistinct.2.1).1

/-- The pages are the rows, whatever the answers are, if and only if no page ends inside a tie. -/
theorem exact_iff {size count : ℕ} (hnodup : rows.Nodup) (hsize : 0 < size)
    (hcount : rows.length ≤ count * size) :
    (∀ answers : ℕ → List α, (∀ p, Answer key rows (answers p)) →
      (firstPages size count answers).Perm rows) ↔
        ∀ a ∈ rows, ∀ q, ¬ Straddles key rows (q * size) a :=
  ⟨ties_of_exact hnodup hsize hcount, fun hties _ hanswers => pages_perm hanswers hties hcount⟩

end Pagination
