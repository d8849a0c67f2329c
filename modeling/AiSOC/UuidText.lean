import Mathlib.Data.Nat.Digits.Defs
import Mathlib.Data.Nat.Digits.Lemmas

/-! # The text of a UUID

Thirty-two hexadecimal digits in five groups. A number of more than 128 bits is given a longer
last group, so that the text tells the number in any case. -/
namespace UuidText

/-- The digits, the highest first. -/
def hexDigits (n : ℕ) : List ℕ :=
  (Nat.digits 16 n ++ List.replicate (32 - (Nat.digits 16 n).length) 0).reverse

def dashed (cs : List Char) : List Char :=
  cs.take 8 ++ '-' :: (cs.drop 8).take 4 ++ '-' :: (cs.drop 12).take 4 ++
    '-' :: (cs.drop 16).take 4 ++ '-' :: cs.drop 20

def uuidText (n : ℕ) : String := String.ofList (dashed ((hexDigits n).map Nat.digitChar))

variable {n m : ℕ} {cs : List Char} {c : Char}

theorem lt_of_mem_hexDigits {d : ℕ} (h : d ∈ hexDigits n) : d < 16 := by
  rw [hexDigits, List.mem_reverse, List.mem_append] at h
  rcases h with h | h
  · exact Nat.digits_lt_base (by decide) h
  · rw [List.eq_of_mem_replicate h]
    decide

theorem ofDigits_hexDigits (n : ℕ) : Nat.ofDigits 16 (hexDigits n).reverse = n := by
  rw [hexDigits, List.reverse_reverse, Nat.ofDigits_append, Nat.ofDigits_replicate_zero, mul_zero,
    add_zero, Nat.ofDigits_digits]

theorem hexDigits_injective : Function.Injective hexDigits := by
  intro n m h
  rw [← ofDigits_hexDigits n, h, ofDigits_hexDigits]

/-- Without the dashes the groups are the digits again. -/
theorem filter_dashed (h : '-' ∉ cs) : (dashed cs).filter (· ≠ '-') = cs := by
  have hself : ∀ l : List Char, (∀ c ∈ l, c ∈ cs) → l.filter (· ≠ '-') = l := by
    intro l hl
    rw [List.filter_eq_self]
    intro c hc
    exact decide_eq_true fun heq => h (heq ▸ hl c hc)
  have hpart : ∀ n k, ∀ c ∈ (cs.drop n).take k, c ∈ cs := by
    intro n k c hc
    exact List.mem_of_mem_drop (List.mem_of_mem_take hc)
  have hjoin : ∀ n k, (cs.drop n).take k ++ cs.drop (n + k) = cs.drop n := by
    intro n k
    rw [← List.drop_drop, List.take_append_drop]
  have hdash : ∀ l : List Char, ('-' :: l).filter (· ≠ '-') = l.filter (· ≠ '-') :=
    fun l => List.filter_cons_of_neg (by decide)
  simp only [dashed, List.filter_append, hdash]
  rw [hself (cs.take 8) (hpart 0 8), hself _ (hpart 8 4), hself _ (hpart 12 4),
    hself _ (hpart 16 4), hself _ fun c hc => List.mem_of_mem_drop hc, List.append_assoc, List.append_assoc,
    List.append_assoc, hjoin 16 4, hjoin 12 4, hjoin 8 4]
  exact List.take_append_drop 8 cs

theorem mem_dashed (h : c ∈ dashed cs) : c = '-' ∨ c ∈ cs := by
  by_cases hc : c = '-'
  · exact Or.inl hc
  · right
    simp only [dashed, List.mem_append, List.mem_cons, hc, false_or] at h
    rcases h with (((h | h) | h) | h) | h
    · exact List.mem_of_mem_take h
    · exact List.mem_of_mem_drop (List.mem_of_mem_take h)
    · exact List.mem_of_mem_drop (List.mem_of_mem_take h)
    · exact List.mem_of_mem_drop (List.mem_of_mem_take h)
    · exact List.mem_of_mem_drop h

theorem mem_uuidText (h : c ∈ (uuidText n).toList) : c = '-' ∨ ∃ d < 16, c = Nat.digitChar d := by
  rw [uuidText, String.toList_ofList] at h
  rcases mem_dashed h with h | h
  · exact Or.inl h
  · obtain ⟨d, hd, rfl⟩ := List.mem_map.mp h
    exact Or.inr ⟨d, lt_of_mem_hexDigits hd, rfl⟩

theorem colon_notMem_uuidText (n : ℕ) : ':' ∉ (uuidText n).toList := by
  have hdigit : ∀ d < 16, ':' ≠ Nat.digitChar d := by decide
  intro h
  rcases mem_uuidText h with h | ⟨d, hd, h⟩
  · exact absurd h (by decide)
  · exact hdigit d hd h

def digitValue (c : Char) : ℕ := if c ≤ '9' then c.toNat - 48 else c.toNat - 87

theorem map_digitValue : ((hexDigits n).map Nat.digitChar).map digitValue = hexDigits n := by
  have hdigit : ∀ d < 16, digitValue (Nat.digitChar d) = d := by decide
  rw [List.map_map]
  conv_rhs => rw [← List.map_id (hexDigits n)]
  apply List.map_congr_left
  intro d hd
  exact hdigit d (lt_of_mem_hexDigits hd)

theorem uuidText_injective : Function.Injective uuidText := by
  have hdash : ∀ n, '-' ∉ (hexDigits n).map Nat.digitChar := by
    have hdigit : ∀ d < 16, Nat.digitChar d ≠ '-' := by decide
    intro n h
    obtain ⟨d, hd, h⟩ := List.mem_map.mp h
    exact hdigit d (lt_of_mem_hexDigits hd) h
  intro n m h
  rw [uuidText, uuidText, String.ofList_inj] at h
  have hfilter := congrArg (List.filter (· ≠ '-')) h
  rw [filter_dashed (hdash n), filter_dashed (hdash m)] at hfilter
  have hdigits := congrArg (List.map digitValue) hfilter
  rw [map_digitValue, map_digitValue] at hdigits
  exact hexDigits_injective hdigits

end UuidText
