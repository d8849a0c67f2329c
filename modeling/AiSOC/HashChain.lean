import Mathlib.Data.List.Induction

/-! # Hash chains

Blocks that record the hash of their predecessor and their own hash, over a digest that is
injective and never yields the text used where there is no predecessor. Under that
assumption the last hash of a linked chain determines the whole chain. -/
namespace HashChain

/-- `empty` stands for a missing predecessor. -/
structure Digest (H B : Type*) where
  empty : H
  digest : H → B → H
  injective : ∀ {h k b c}, digest h b = digest k c → h = k ∧ b = c
  digest_ne_empty : ∀ h b, digest h b ≠ empty

structure Block (H B : Type*) where
  body : B
  prev : Option H
  hash : H
  deriving DecidableEq

variable {H B : Type*} (F : Digest H B)

@[grind =]
def Digest.entry (prev : Option H) (b : B) : H := F.digest (prev.getD F.empty) b

/-- The running hash after a chain that starts behind `p`. -/
@[grind =]
def tip (p : Option H) (bs : List (Block H B)) : Option H :=
  match bs.getLast? with
  | some b => some b.hash
  | none => p

/-- Every block records its predecessor's hash and its own. -/
@[grind =]
def Linked : Option H → List (Block H B) → Prop
  | _, [] => True
  | p, b :: bs => b.prev = p ∧ b.hash = F.entry p b.body ∧ Linked (some b.hash) bs

@[simp] theorem tip_nil (p : Option H) : tip p ([] : List (Block H B)) = p := rfl

@[simp] theorem tip_concat (p : Option H) (bs : List (Block H B)) (b : Block H B) :
    tip p (bs ++ [b]) = some b.hash := by simp [tip]

theorem tip_cons (p : Option H) (b : Block H B) (bs : List (Block H B)) :
    tip p (b :: bs) = tip (some b.hash) bs := by
  rcases List.eq_nil_or_concat bs with rfl | ⟨cs, c, rfl⟩
  · simp [tip]
  · rw [List.concat_eq_append, ← List.cons_append, tip_concat, tip_concat]

variable {F}

theorem linked_append {p : Option H} {bs cs : List (Block H B)} :
    Linked F p (bs ++ cs) ↔ Linked F p bs ∧ Linked F (tip p bs) cs := by
  induction bs generalizing p with
  | nil => simp [Linked]
  | cons b bs ih => simp [Linked, ih, tip_cons, and_assoc]

/-- Extending a linked chain by a block built on its tip. -/
theorem linked_concat {p : Option H} {bs : List (Block H B)} {b : Block H B} :
    Linked F p (bs ++ [b]) ↔
      Linked F p bs ∧ b.prev = tip p bs ∧ b.hash = F.entry (tip p bs) b.body := by
  simp [linked_append, Linked]

theorem entry_ne_empty (p : Option H) (b : B) : F.entry p b ≠ F.empty :=
  F.digest_ne_empty _ b

/-- The tip of a linked chain is never the stand-in for a missing predecessor. -/
theorem tip_ne_empty {bs : List (Block H B)} (h : Linked F none bs) :
    tip none bs ≠ some F.empty := by
  rcases List.eq_nil_or_concat bs with rfl | ⟨cs, c, rfl⟩
  · simp
  · rw [List.concat_eq_append] at h ⊢
    rw [tip_concat, (linked_concat.mp h).2.2]
    exact fun he => entry_ne_empty _ _ (Option.some.inj he)

/-- Hashing a missing predecessor as the empty text loses nothing along linked chains. -/
theorem entry_injective {p q : Option H} {b c : B} (hp : p ≠ some F.empty)
    (hq : q ≠ some F.empty) (h : F.entry p b = F.entry q c) : p = q ∧ b = c := by
  obtain ⟨hpq, hbc⟩ := F.injective h
  refine ⟨?_, hbc⟩
  rcases p with _ | p <;> rcases q with _ | q
  · rfl
  · exact (hq (congrArg some hpq.symm)).elim
  · exact (hp (congrArg some hpq)).elim
  · exact congrArg some hpq

/-- Two linked chains with one last hash are the same chain. -/
theorem eq_of_tip_eq {bs cs : List (Block H B)} (hb : Linked F none bs) (hc : Linked F none cs)
    (ht : tip none bs = tip none cs) : bs = cs := by
  induction bs using List.reverseRecOn generalizing cs with
  | nil =>
    rcases List.eq_nil_or_concat cs with rfl | ⟨ds, d, rfl⟩
    · rfl
    · rw [List.concat_eq_append, tip_nil, tip_concat] at ht
      cases ht
  | append_singleton bs b ih =>
    rcases List.eq_nil_or_concat cs with rfl | ⟨ds, d, rfl⟩
    · rw [tip_nil, tip_concat] at ht
      cases ht
    rw [List.concat_eq_append] at hc ht ⊢
    rw [tip_concat, tip_concat] at ht
    obtain ⟨hb, hbp, hbh⟩ := linked_concat.mp hb
    obtain ⟨hd, hdp, hdh⟩ := linked_concat.mp hc
    have hhash : b.hash = d.hash := Option.some.inj ht
    obtain ⟨htip, hbody⟩ := entry_injective (tip_ne_empty hb) (tip_ne_empty hd)
      (hbh.symm.trans (hhash.trans hdh))
    have hbd : b = d := by
      cases b; cases d
      simp_all
    rw [ih hb hd htip, hbd]

/-- Hashes as terms: the ideal digest. -/
inductive Term (B : Type*) where
  | empty
  | node (prev : Term B) (body : B)
  deriving DecidableEq, Repr

def ideal (B : Type*) : Digest (Term B) B where
  empty := .empty
  digest := .node
  injective h := by injection h with hp hb; exact ⟨hp, hb⟩
  digest_ne_empty _ _ := nofun

end HashChain
