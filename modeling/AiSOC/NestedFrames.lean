import AiSOC.NestedMaps

/-! # What writes at paths leave alone

The way to a path is private if the maps on it were made for its keys. Then a write at the path is
read back there, and it changes nothing at a path apart from it. -/
namespace NestedFrames

open NestedMaps

variable {B K A : Type}

/-- The map is that one or was made in it, or in one that was. -/
def Below (a : Addr B K) : Addr B K → Prop
  | .base b => a = .base b
  | .made p k n => a = .made p k n ∨ Below a p

def depth : Addr B K → ℕ
  | .base _ => 0
  | .made p _ _ => depth p + 1

/-- The cell of the key, or one in a map that was made for it. -/
def Under (a : Addr B K) (k : K) (x : Addr B K × K) : Prop :=
  x = (a, k) ∨ ∃ n, Below (.made a k n) x.1

/-- The cells of a map that differ are those of some keys, and what is below. -/
def ChangedUnder (a : Addr B K) (ks : List K) (h h' : Heap B K A) : Prop :=
  ∀ x, (∀ k ∈ ks, ¬Under a k x) → h' x = h x

/-- The maps on the way were made for the keys of the path. -/
def Private (h : Heap B K A) : Addr B K → List K → Prop
  | a, k :: j :: ks => ∀ b, (h (a, k)).value = some (.ref b) →
      (∃ n, b = .made a k n) ∧ Private h b (j :: ks)
  | _, _ => True

variable {h h' h'' : Heap B K A} {a b c : Addr B K} {i j k : K} {n : ℕ} {s t ks ks' : List K}
  {v : Value B K A} {x : Addr B K × K}

/-! ## Maps below others -/

theorem below_refl (a : Addr B K) : Below a a := by
  cases a with
  | base b => rfl
  | made p k n => exact Or.inl rfl

theorem below_made (h : Below a b) : Below a (.made b k n) := Or.inr h

theorem Below.trans (hab : Below a b) (hbc : Below b c) : Below a c := by
  induction c with
  | base d =>
    obtain rfl : b = .base d := hbc
    exact hab
  | made p k n ih =>
    rcases hbc with rfl | hbc
    · exact hab
    · exact below_made (ih hbc)

theorem Below.depth_le (h : Below a b) : depth a ≤ depth b := by
  induction b with
  | base d =>
    obtain rfl : a = .base d := h
    exact le_rfl
  | made p k n ih =>
    rcases h with rfl | h
    · exact le_rfl
    · exact (ih h).trans (Nat.le_succ _)

/-- At each depth there is one map that a map is below. -/
theorem Below.eq_of_depth (hac : Below a c) (hbc : Below b c) (hdepth : depth a = depth b) :
    a = b := by
  induction c with
  | base d =>
    obtain rfl : a = .base d := hac
    exact Eq.symm hbc
  | made p k n ih =>
    rcases hac with rfl | hac
    · rcases hbc with rfl | hbc
      · rfl
      · have hle := hbc.depth_le
        rw [← hdepth, depth] at hle
        omega
    · rcases hbc with rfl | hbc
      · have hle := hac.depth_le
        rw [hdepth, depth] at hle
        omega
      · exact ih hac hbc

theorem not_below_made : ¬Below (.made a k n) a := by
  intro h
  have hle := h.depth_le
  rw [depth] at hle
  omega

theorem under_self : Under a k (a, k) := Or.inl rfl

theorem under_of_below (h : Below (.made a k n) x.1) : Under a k x := Or.inr ⟨n, h⟩

theorem Under.below (hx : Under a k x) : Below a x.1 := by
  rcases hx with rfl | ⟨n, hx⟩
  · exact below_refl a
  · exact (below_made (below_refl a)).trans hx

/-- No cell is under two keys of a map. -/
theorem Under.unique (hj : Under a j x) (hk : Under a k x) : j = k := by
  rcases hj with rfl | ⟨n, hj⟩
  · rcases hk with heq | ⟨m, hk⟩
    · exact (Prod.mk.inj heq).2
    · exact absurd hk not_below_made
  · rcases hk with rfl | ⟨m, hk⟩
    · exact absurd hj not_below_made
    · exact (Addr.made.inj (hj.eq_of_depth hk rfl)).2.1

/-- What is under a key of a map made for another key is under that one. -/
theorem Under.up (hx : Under (.made a k n) j x) : Under a k x := under_of_below hx.below

/-! ## Frames -/

theorem ChangedUnder.trans (hc : ChangedUnder a ks h h') (hc' : ChangedUnder a ks' h' h'') :
    ChangedUnder a (ks ++ ks') h h'' := by
  intro x hx
  obtain ⟨hks, hks'⟩ := List.forall_mem_append.mp hx
  rw [hc' x hks', hc x hks]

theorem ChangedUnder.again (hc : ChangedUnder a ks h h') (hc' : ChangedUnder a ks h' h'') :
    ChangedUnder a ks h h'' := by
  intro x hx
  rw [hc' x hx, hc x hx]

theorem ChangedUnder.cell_eq (hc : ChangedUnder a ks h h') (hk : k ∉ ks) : h' (a, k) = h (a, k) :=
  hc (a, k) fun _ hj hunder => hk (hunder.unique under_self ▸ hj)

theorem private_of_empty (hempty : ∀ k, (h (a, k)).value = none) : Private h a t := by
  match t with
  | [] => trivial
  | [k] => trivial
  | k :: j :: ks =>
    intro b hb
    rw [hempty k] at hb
    cases hb

/-- Where a cell is as before, and so is what is read from the map made for it. -/
theorem private_cons_congr (hcell : h' (a, k) = h (a, k))
    (hbelow : ∀ n, Private h (.made a k n) t →
      lookup h' (.ref (.made a k n)) t = lookup h (.ref (.made a k n)) t ∧
        Private h' (.made a k n) t)
    (hp : Private h a (k :: t)) :
    lookup h' (.ref a) (k :: t) = lookup h (.ref a) (k :: t) ∧ Private h' a (k :: t) := by
  rw [lookup, lookup, hcell]
  cases t with
  | nil =>
    refine ⟨?_, trivial⟩
    cases (h (a, k)).value with
    | none => rfl
    | some u => cases u <;> rfl
  | cons j t =>
    have hrest : ∀ b, (h (a, k)).value = some (.ref b) → (∃ n, b = .made a k n) ∧
        lookup h' (.ref b) (j :: t) = lookup h (.ref b) (j :: t) ∧ Private h' b (j :: t) := by
      intro b hb
      obtain ⟨⟨n, rfl⟩, hrest⟩ := hp b hb
      exact ⟨⟨n, rfl⟩, hbelow n hrest⟩
    refine ⟨?_, fun b hb => ?_⟩
    · cases hvalue : (h (a, k)).value with
      | none => rfl
      | some u =>
        cases u with
        | leaf y => rfl
        | ref b => exact (hrest b hvalue).2.1
    · rw [hcell] at hb
      exact ⟨(hrest b hb).1, (hrest b hb).2.2⟩

/-- What is read on a private way depends on the map and those below. -/
theorem private_congr (hsame : ∀ x, Below a x.1 → h' x = h x) (hp : Private h a t) :
    lookup h' (.ref a) t = lookup h (.ref a) t ∧ Private h' a t := by
  induction t generalizing a with
  | nil => exact ⟨rfl, trivial⟩
  | cons k t ih =>
    refine private_cons_congr (hsame (a, k) (below_refl a)) (fun n => ih fun x hx => ?_) hp
    exact hsame x ((below_made (below_refl a)).trans hx)

/-- A path with another key in front is read as before. -/
theorem ChangedUnder.lookup_eq (hc : ChangedUnder a ks h h') (hk : k ∉ ks)
    (hp : Private h a (k :: t)) :
    lookup h' (.ref a) (k :: t) = lookup h (.ref a) (k :: t) ∧ Private h' a (k :: t) := by
  have hsame : ∀ x, Under a k x → h' x = h x := by
    intro x hx
    exact hc x fun j hj hunder => hk (hunder.unique hx ▸ hj)
  exact private_cons_congr (hsame (a, k) under_self)
    (fun n => private_congr fun x hx => hsame x (under_of_below hx)) hp

theorem lookup_through (hcell : (h (a, k)).value = some (.ref b)) :
    lookup h (.ref a) (k :: t) = lookup h (.ref b) t := by
  rw [lookup, hcell]
  rfl

theorem private_through (hcell : (h (a, k)).value = some (.ref (.made a k n)))
    (hp : Private h (.made a k n) t) : Private h a (k :: t) := by
  cases t with
  | nil => trivial
  | cons j t =>
    intro b hb
    rw [hcell] at hb
    obtain rfl := Value.ref.inj (Option.some.inj hb)
    exact ⟨⟨n, rfl⟩, hp⟩

/-! ## Writes -/

variable [DecidableEq B] [DecidableEq K]

theorem changedUnder_put : ChangedUnder a [k] h (put h a k v) := by
  intro x hx
  refine modify_other fun heq => ?_
  exact hx k List.mem_cons_self (heq ▸ under_self)

theorem changedUnder_put_made : ChangedUnder a [k] h (put h (.made a k n) j v) := by
  intro x hx
  refine modify_other fun heq => ?_
  exact hx k List.mem_cons_self (heq ▸ under_of_below (below_refl _))

theorem changedUnder_make : ChangedUnder a [k] h (make h a k) := by
  intro x hx
  refine modify_other fun heq => ?_
  exact hx k List.mem_cons_self (heq ▸ under_self)

/-- The map of a key is there or has been made, and nothing else is different. -/
structure Entered (h : Heap B K A) (a : Addr B K) (k : K) (g : Heap B K A) (n : ℕ) : Prop where
  wellFormed : WellFormed g
  old : Old g (.made a k n)
  cell : (g (a, k)).value = some (.ref (.made a k n))
  changed : ChangedUnder a [k] h g
  read : ∀ s, s ≠ [] → Private h a (k :: s) →
    lookup g (.ref (.made a k n)) s = lookup h (.ref a) (k :: s) ∧ Private g (.made a k n) s

/-- A write goes on in the map of its first key. -/
theorem exists_entered (hw : WellFormed h) (ha : Old h a) (hp : Private h a (k :: j :: t))
    (v : Value B K A) : ∃ g n, Entered h a k g n ∧
      setNested h a (k :: j :: t) v = setNested g (.made a k n) (j :: t) v := by
  rw [setNested]
  have hmade : (∀ b, (h (a, k)).value ≠ some (.ref b)) →
      Entered h a k (make h a k) (h (a, k)).count := by
    intro hno
    have hempty : ∀ i, (make h a k (fresh h a k, i)).value = none := make_fresh hw ha
    refine ⟨hw.make ha, old_fresh ha, ?_, changedUnder_make, fun s hs hp => ⟨?_, ?_⟩⟩
    · rw [make, modify_same]
    · obtain ⟨i, s, rfl⟩ := List.exists_cons_of_ne_nil hs
      rw [lookup, lookup]
      change ((make h a k (fresh h a k, i)).value.bind _) = _
      rw [hempty i]
      cases hvalue : (h (a, k)).value with
      | none => rfl
      | some u =>
        cases u with
        | leaf y => rfl
        | ref b => exact absurd hvalue (hno b)
    · exact private_of_empty hempty
  cases hvalue : (h (a, k)).value with
  | none => exact ⟨_, _, hmade (by rw [hvalue]; rintro b ⟨⟩), rfl⟩
  | some u =>
    cases u with
    | leaf y => exact ⟨_, _, hmade (by rw [hvalue]; rintro b ⟨⟩), rfl⟩
    | ref b =>
      obtain ⟨⟨n, rfl⟩, -⟩ := hp b hvalue
      refine ⟨h, n, ⟨hw, hw.old _ _ hvalue, hvalue, fun _ _ => rfl, fun s hs hprivate => ?_⟩, rfl⟩
      obtain ⟨i, s, rfl⟩ := List.exists_cons_of_ne_nil hs
      exact ⟨(lookup_through hvalue).symm, (hprivate _ hvalue).2⟩

/-- A write changes nothing but what is under the key that its path begins with. -/
theorem changedUnder_setNested (hw : WellFormed h) (ha : Old h a) (hp : Private h a (k :: t)) :
    ChangedUnder a [k] h (setNested h a (k :: t) v) := by
  induction t generalizing h a k with
  | nil => exact changedUnder_put
  | cons j t ih =>
    obtain ⟨g, n, hg, heq⟩ := exists_entered hw ha hp v
    have hprivate := (hg.read (j :: t) (List.cons_ne_nil j t) hp).2
    intro x hx
    rw [heq, ih hg.wellFormed hg.old hprivate x fun i _ hunder =>
      hx k List.mem_cons_self hunder.up, hg.changed x hx]

/-- A write in the map of a key leaves the cell of the key. -/
theorem Entered.cell_setNested {g : Heap B K A} (hg : Entered h a k g n)
    (hp : Private g (.made a k n) (j :: t)) :
    (setNested g (.made a k n) (j :: t) v (a, k)).value = some (.ref (.made a k n)) := by
  have hcell := changedUnder_setNested (v := v) hg.wellFormed hg.old hp (a, k)
    fun i _ hunder => not_below_made hunder.below
  rw [hcell, hg.cell]

/-- What a write leaves at its path, and that the way is still private. -/
theorem lookup_setNested (hw : WellFormed h) (ha : Old h a) (hp : Private h a (k :: t)) :
    lookup (setNested h a (k :: t) v) (.ref a) (k :: t) = some v ∧
      Private (setNested h a (k :: t) v) a (k :: t) := by
  induction t generalizing h a k with
  | nil =>
    refine ⟨?_, trivial⟩
    rw [setNested, put, lookup, modify_same]
    cases v <;> rfl
  | cons j t ih =>
    obtain ⟨g, n, hg, heq⟩ := exists_entered hw ha hp v
    have hprivate := (hg.read (j :: t) (List.cons_ne_nil j t) hp).2
    obtain ⟨hlookup, hafter⟩ := ih hg.wellFormed hg.old hprivate
    rw [heq, lookup_through (hg.cell_setNested hprivate)]
    exact ⟨hlookup, private_through (hg.cell_setNested hprivate) hafter⟩

/-- A path apart from that of a write is read as before. -/
theorem lookup_setNested_apart (hw : WellFormed h) (ha : Old h a) (hp : Private h a t)
    (hs : Private h a s) (hapart : Apart s t) :
    lookup (setNested h a t v) (.ref a) s = lookup h (.ref a) s ∧
      Private (setNested h a t v) a s := by
  induction t generalizing h a s with
  | nil => exact absurd List.nil_prefix hapart.2
  | cons k t ih =>
    cases s with
    | nil => exact absurd List.nil_prefix hapart.1
    | cons i s =>
      by_cases hkey : i = k
      · subst hkey
        have hrest := apart_cons.mp hapart
        have hne : s ≠ [] := fun h => hrest.1 (h ▸ List.nil_prefix)
        cases t with
        | nil => exact absurd List.nil_prefix hrest.2
        | cons j t =>
          obtain ⟨g, n, hg, heq⟩ := exists_entered hw ha hp v
          have hprivate := (hg.read (j :: t) (List.cons_ne_nil j t) hp).2
          obtain ⟨hread, hprivate'⟩ := hg.read s hne hs
          obtain ⟨hlookup, hafter⟩ := ih hg.wellFormed hg.old hprivate hprivate' hrest
          rw [heq, lookup_through (hg.cell_setNested hprivate), hlookup, hread]
          exact ⟨rfl, private_through (hg.cell_setNested hprivate) hafter⟩
      · exact (changedUnder_setNested hw ha hp).lookup_eq (by simpa using hkey) hs

end NestedFrames
