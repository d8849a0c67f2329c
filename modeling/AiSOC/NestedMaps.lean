import Mathlib.Data.List.Basic
import Mathlib.Data.List.Infix
import Mathlib.Logic.Function.Basic

/-! # Maps that hold maps

Maps are held by reference, so one map can be reached on several paths. A write at a path follows
the maps that are there and makes the missing ones. Two writes commute if, wherever they meet,
neither one's path from there continues the other's. -/
namespace NestedMaps

/-- A map that is there from the start, or one of those that were made for a key of a map. -/
inductive Addr (B K : Type) where
  | base (b : B)
  | made (parent : Addr B K) (key : K) (n : ℕ)
  deriving DecidableEq

inductive Value (B K A : Type) where
  | leaf (x : A)
  | ref (a : Addr B K)
  deriving DecidableEq

/-- What a key holds, and how many maps have been made for it so far. -/
structure Cell (B K A : Type) where
  value : Option (Value B K A)
  count : ℕ

abbrev Heap (B K A : Type) := Addr B K × K → Cell B K A

section
variable {B K A : Type} [DecidableEq B] [DecidableEq K]

@[grind =]
def modify (h : Heap B K A) (x : Addr B K × K) (f : Cell B K A → Cell B K A) : Heap B K A :=
  Function.update h x (f (h x))

@[grind =]
def put (h : Heap B K A) (a : Addr B K) (k : K) (v : Value B K A) : Heap B K A :=
  modify h (a, k) fun c => ⟨some v, c.count⟩

@[grind =]
def fresh (h : Heap B K A) (a : Addr B K) (k : K) : Addr B K := .made a k (h (a, k)).count

/-- Makes an empty map for a key. -/
@[grind =]
def make (h : Heap B K A) (a : Addr B K) (k : K) : Heap B K A :=
  modify h (a, k) fun c => ⟨some (.ref (.made a k c.count)), c.count + 1⟩

@[grind =]
def setNested (h : Heap B K A) (a : Addr B K) : List K → Value B K A → Heap B K A
  | [], _ => h
  | [k], v => put h a k v
  | k :: k' :: ks, v =>
    match (h (a, k)).value with
    | some (.ref b) => setNested h b (k' :: ks) v
    | _ => setNested (make h a k) (fresh h a k) (k' :: ks) v

@[grind =]
def lookup (h : Heap B K A) : Value B K A → List K → Option (Value B K A)
  | v, [] => some v
  | .ref a, k :: ks => (h (a, k)).value.bind (lookup h · ks)
  | .leaf _, _ :: _ => none

/-- A leaf, or that there is a map. -/
inductive Shape (A : Type) where
  | leaf (x : A)
  | map
  deriving DecidableEq

def Value.shape : Value B K A → Shape A
  | .leaf x => .leaf x
  | .ref _ => .map

/-- What is seen at a path: addresses are not. -/
def observe (h : Heap B K A) (a : Addr B K) (path : List K) : Option (Shape A) :=
  (lookup h (.ref a) path).map Value.shape

/-- The maps on the way to a path, each with the path that is left from there. -/
@[grind =]
def trace (h : Heap B K A) (a : Addr B K) : List K → List (Addr B K × List K)
  | [] => []
  | [k] => [(a, [k])]
  | k :: k' :: ks =>
    match (h (a, k)).value with
    | some (.ref b) => (a, k :: k' :: ks) :: trace h b (k' :: ks)
    | _ => [(a, k :: k' :: ks)]

/-- The last of them. -/
@[grind =]
def place (h : Heap B K A) (a : Addr B K) : List K → Addr B K × List K
  | [] => (a, [])
  | [k] => (a, [k])
  | k :: k' :: ks =>
    match (h (a, k)).value with
    | some (.ref b) => place h b (k' :: ks)
    | _ => (a, k :: k' :: ks)

/-- Writes at a path of which no map is there. -/
@[grind =]
def graft (h : Heap B K A) (a : Addr B K) : List K → Value B K A → Heap B K A
  | [], _ => h
  | [k], v => put h a k v
  | k :: k' :: ks, v => graft (make h a k) (fresh h a k) (k' :: ks) v

end

/-- Neither path continues the other. -/
def Apart {K : Type} (p q : List K) : Prop := ¬p <+: q ∧ ¬q <+: p

/-- The map has been made. -/
def Old {B K A : Type} (h : Heap B K A) : Addr B K → Prop
  | .base _ => True
  | .made a k n => n < (h (a, k)).count ∧ Old h a

/-- References are to maps that have been made, and only these hold anything. -/
structure WellFormed {B K A : Type} (h : Heap B K A) : Prop where
  old : ∀ x b, (h x).value = some (.ref b) → Old h b
  empty : ∀ x, ¬Old h x.1 → (h x).value = none

def OldValue {B K A : Type} (h : Heap B K A) : Value B K A → Prop
  | .leaf _ => True
  | .ref a => Old h a

/-- Wherever the two ways meet, the paths from there are apart. -/
def NonConflict {B K A : Type} (h : Heap B K A) (a : Addr B K) (t : List K) (a' : Addr B K)
    (t' : List K) : Prop :=
  ∀ b r r', (b, r) ∈ trace h a t → (b, r') ∈ trace h a' t' → Apart r r'

variable {B K A : Type} {h h' : Heap B K A} {a a' b : Addr B K} {k k' : K} {t t' ks : List K}
  {v v' : Value B K A} {x y : Addr B K × K} {f g : Cell B K A → Cell B K A}

theorem Apart.symm (hp : Apart t t') : Apart t' t := ⟨hp.2, hp.1⟩

theorem apart_cons : Apart (k :: t) (k :: t') ↔ Apart t t' := by
  simp only [Apart, List.cons_prefix_cons, true_and]

theorem apart_append_left (p : List K) : Apart (p ++ t) (p ++ t') ↔ Apart t t' := by
  simp only [Apart, List.prefix_append_right_inj]

theorem NonConflict.symm (hn : NonConflict h a t a' t') : NonConflict h a' t' a t :=
  fun b r r' hr hr' => (hn b r' r hr' hr).symm

theorem old_of_count (hcount : ∀ y, (h y).count ≤ (h' y).count) (ha : Old h a) : Old h' a := by
  induction a with
  | base b => trivial
  | made a k n ih => exact ⟨lt_of_lt_of_le ha.1 (hcount _), ih ha.2⟩

theorem not_old_fresh : ¬Old h (fresh h a k) := fun hold => lt_irrefl _ hold.1

/-! ## The way to a path -/

theorem place_mem_trace (ht : t ≠ []) : place h a t ∈ trace h a t := by
  fun_induction place h a t with
  | case1 => exact absurd rfl ht
  | case2 a k => exact List.mem_singleton_self _
  | case3 a k k' ks b hb ih =>
    rw [trace, hb]
    exact List.mem_cons_of_mem _ (ih (List.cons_ne_nil _ _))
  | case4 a k k' ks hb =>
    rw [trace]
    split
    · exact List.mem_cons_self
    · exact List.mem_cons_self

theorem place_stop {r : List K} (hplace : place h a t = (b, k :: r)) :
    r = [] ∨ ∀ c, (h (b, k)).value ≠ some (.ref c) := by
  fun_induction place h a t with
  | case1 => cases hplace
  | case2 a j =>
    cases hplace
    exact Or.inl rfl
  | case3 a j k' ks c hc ih => exact ih hplace
  | case4 a j k' ks hc =>
    cases hplace
    exact Or.inr hc

theorem length_place_le : (place h a t).2.length ≤ t.length := by
  fun_induction place h a t with
  | case1 => exact le_rfl
  | case2 => exact le_rfl
  | case3 a j k' ks c hc ih => exact ih.trans (Nat.le_succ _)
  | case4 => exact le_rfl

/-- What holds of the start and is kept from each map to the next holds all the way. -/
theorem trace_invariant {P : Addr B K → List K → Prop} {r : List K}
    (hnext : ∀ a k j ks b, P a (k :: j :: ks) → (h (a, k)).value = some (.ref b) → P b (j :: ks))
    (hstart : P a t) (hmem : (b, r) ∈ trace h a t) : P b r := by
  fun_induction trace h a t with
  | case1 => cases hmem
  | case2 a k =>
    cases List.mem_singleton.mp hmem
    exact hstart
  | case3 a k j ks c hc ih =>
    rcases List.mem_cons.mp hmem with heq | hmem
    · cases heq
      exact hstart
    · exact ih (hnext a k j ks c hstart hc) hmem
  | case4 a k j ks hc =>
    cases List.mem_singleton.mp hmem
    exact hstart

theorem ne_nil_of_mem_trace {r : List K} (ht : t ≠ []) (hmem : (b, r) ∈ trace h a t) : r ≠ [] :=
  trace_invariant (P := fun _ r => r ≠ []) (fun _ _ _ _ _ _ _ => List.cons_ne_nil _ _) ht hmem

theorem old_of_mem_trace {r : List K} (hw : WellFormed h) (ha : Old h a)
    (hmem : (b, r) ∈ trace h a t) : Old h b :=
  trace_invariant (P := fun a _ => Old h a) (fun _ _ _ _ _ _ hb => hw.old _ _ hb) ha hmem

theorem trace_of_empty (ht : t ≠ []) (hempty : ∀ k, (h (a, k)).value = none) :
    trace h a t = [(a, t)] := by
  match t with
  | [k] => rfl
  | k :: j :: ks => rw [trace, hempty k]

/-! ## Writing -/

section
variable [DecidableEq B] [DecidableEq K]

theorem modify_same : modify h x f x = f (h x) := Function.update_self x _ h

theorem modify_other (hxy : y ≠ x) : modify h x f y = h y := Function.update_of_ne hxy _ h

theorem modify_comm (hxy : x ≠ y) :
    modify (modify h x f) y g = modify (modify h y g) x f := by
  rw [modify, modify_other hxy.symm, modify, modify, modify_other hxy, modify,
    Function.update_comm hxy]

theorem count_put (y : Addr B K × K) : (put h a k v y).count = (h y).count := by
  by_cases hy : y = (a, k)
  · rw [hy, put, modify_same]
  · rw [put, modify_other hy]

theorem count_make (y : Addr B K × K) : (h y).count ≤ (make h a k y).count := by
  by_cases hy : y = (a, k)
  · rw [hy, make, modify_same]
    exact Nat.le_succ _
  · rw [make, modify_other hy]

theorem Old.put (ha : Old h a) : Old (put h b k v) a := old_of_count (fun y => (count_put y).ge) ha

theorem Old.make (ha : Old h a) : Old (make h b k) a := old_of_count count_make ha

theorem old_fresh (ha : Old h a) : Old (make h a k) (fresh h a k) := by
  refine ⟨?_, ha.make⟩
  rw [make, modify_same]
  exact Nat.lt_succ_self _

theorem OldValue.make (hv : OldValue h v) : OldValue (make h b k) v := by
  cases v with
  | leaf x => trivial
  | ref a => exact Old.make hv

theorem WellFormed.put (hw : WellFormed h) (ha : Old h a) (hv : OldValue h v) :
    WellFormed (put h a k v) := by
  constructor
  · intro x b hb
    apply Old.put
    by_cases hx : x = (a, k)
    · rw [hx, NestedMaps.put, modify_same] at hb
      obtain rfl := Option.some.inj hb
      exact hv
    · rw [NestedMaps.put, modify_other hx] at hb
      exact hw.old x b hb
  · intro x hx
    have hne : x ≠ (a, k) := by
      rintro rfl
      exact hx ha.put
    rw [NestedMaps.put, modify_other hne]
    exact hw.empty x fun hold => hx hold.put

theorem WellFormed.make (hw : WellFormed h) (ha : Old h a) : WellFormed (make h a k) := by
  constructor
  · intro x b hb
    by_cases hx : x = (a, k)
    · rw [hx, NestedMaps.make, modify_same] at hb
      obtain rfl := Value.ref.inj (Option.some.inj hb)
      exact old_fresh ha
    · rw [NestedMaps.make, modify_other hx] at hb
      exact (hw.old x b hb).make
  · intro x hx
    have hne : x ≠ (a, k) := by
      rintro rfl
      exact hx ha.make
    rw [NestedMaps.make, modify_other hne]
    exact hw.empty x fun hold => hx hold.make

theorem WellFormed.setNested (hw : WellFormed h) (ha : Old h a) (hv : OldValue h v) :
    WellFormed (setNested h a t v) := by
  fun_induction NestedMaps.setNested h a t v with
  | case1 => exact hw
  | case2 h a k v => exact hw.put ha hv
  | case3 h a k j ks v b hb ih => exact ih hw (hw.old _ b hb) hv
  | case4 h a k j ks v hb ih => exact ih (hw.make ha) (old_fresh ha) hv.make

/-- A map that was just made is empty. -/
theorem make_fresh (hw : WellFormed h) (ha : Old h a) (j : K) :
    (make h a k (fresh h a k, j)).value = none := by
  have hne : (fresh h a k, j) ≠ (a, k) := by
    intro heq
    exact not_old_fresh ((Prod.mk.inj heq).1 ▸ ha)
  rw [make, modify_other hne]
  exact hw.empty _ not_old_fresh

/-! ## Writes that meet no map -/

theorem graft_other (hx : Old h x.1) (hne : x ≠ (a, k)) : graft h a (k :: ks) v x = h x := by
  induction ks generalizing h a k with
  | nil =>
    rw [graft, put]
    exact modify_other hne
  | cons j ks ih =>
    have hfresh : x ≠ (fresh h a k, j) := by
      rintro rfl
      exact not_old_fresh hx
    rw [graft, ih hx.make hfresh]
    exact modify_other hne

theorem graft_modify (hx : Old h x.1) (hne : x ≠ (a, k)) :
    graft (modify h x f) a (k :: ks) v = modify (graft h a (k :: ks) v) x f := by
  induction ks generalizing h a k with
  | nil =>
    rw [graft, put, graft, put]
    exact modify_comm hne
  | cons j ks ih =>
    have hfresh : x ≠ (fresh h a k, j) := by
      rintro rfl
      exact not_old_fresh hx
    have hsame : fresh (modify h x f) a k = fresh h a k := by
      rw [fresh, modify_other hne.symm, fresh]
    have hmake : make (modify h x f) a k = modify (make h a k) x f := modify_comm hne
    rw [graft, hsame, hmake, ih hx.make hfresh]
    rfl

theorem graft_graft (ha : Old h a) (ha' : Old h a') (hne : (a, k) ≠ (a', k')) :
    graft (graft h a (k :: t) v) a' (k' :: t') v' =
      graft (graft h a' (k' :: t') v') a (k :: t) v := by
  induction t generalizing h a k with
  | nil =>
    rw [graft, put, graft, put]
    exact graft_modify ha hne
  | cons j t ih =>
    have hfresh : (fresh h a k, j) ≠ (a', k') := by
      intro heq
      exact not_old_fresh ((Prod.mk.inj heq).1 ▸ ha')
    have hsame : fresh (graft h a' (k' :: t') v') a k = fresh h a k := by
      rw [fresh, graft_other ha hne, fresh]
    have hmake : make (graft h a' (k' :: t') v') a k = graft (make h a k) a' (k' :: t') v' :=
      (graft_modify ha hne).symm
    rw [graft, ih (old_fresh ha) ha'.make hfresh, graft, hsame, hmake]

theorem old_graft (hb : Old h b) : Old (graft h a t v) b := by
  fun_induction graft h a t v with
  | case1 => exact hb
  | case2 => exact hb.put
  | case3 h a k j ks v ih => exact ih hb.make

theorem setNested_of_empty (hw : WellFormed h) (ha : Old h a)
    (hempty : ∀ k, (h (a, k)).value = none) : setNested h a t v = graft h a t v := by
  fun_induction graft h a t v with
  | case1 => rfl
  | case2 => rfl
  | case3 h a k j ks v ih =>
    rw [setNested, hempty k]
    exact ih (hw.make ha) (old_fresh ha) (make_fresh hw ha)

theorem setNested_of_stop (hw : WellFormed h) (ha : Old h a)
    (hstop : ks = [] ∨ ∀ b, (h (a, k)).value ≠ some (.ref b)) :
    setNested h a (k :: ks) v = graft h a (k :: ks) v := by
  cases ks with
  | nil => rfl
  | cons j ks =>
    have hno := hstop.resolve_left (List.cons_ne_nil j ks)
    rw [setNested, graft]
    split
    · rename_i b hb
      exact absurd hb (hno b)
    · exact setNested_of_empty (hw.make ha) (old_fresh ha) (make_fresh hw ha)

/-- A heap that has the same references on the way leads to the same place. -/
theorem setNested_of_agree {h₂ : Heap B K A}
    (hagree : ∀ b k r c, (b, k :: r) ∈ trace h a t → r ≠ [] → (h (b, k)).value = some (.ref c) →
      (h₂ (b, k)).value = some (.ref c)) :
    setNested h₂ a t v = setNested h₂ (place h a t).1 (place h a t).2 v := by
  fun_induction place h a t with
  | case1 => rfl
  | case2 => rfl
  | case3 a k j ks c hc ih =>
    have hcons : trace h a (k :: j :: ks) = (a, k :: j :: ks) :: trace h c (j :: ks) := by
      rw [trace, hc]
    rw [hcons] at hagree
    have hc₂ := hagree a k (j :: ks) c List.mem_cons_self (List.cons_ne_nil _ _) hc
    rw [setNested, hc₂]
    apply ih
    intro b k r d hmem
    exact hagree b k r d (List.mem_cons_of_mem _ hmem)
  | case4 => rfl

theorem setNested_eq_graft (hw : WellFormed h) (ha : Old h a) :
    setNested h a t v = graft h (place h a t).1 (place h a t).2 v := by
  have hagree : setNested h a t v = setNested h (place h a t).1 (place h a t).2 v :=
    setNested_of_agree fun b k r c hmem hr hb => hb
  rw [hagree]
  rcases hplace : place h a t with ⟨c, u⟩
  cases u with
  | nil => rfl
  | cons k r =>
    have ht : t ≠ [] := by
      rintro rfl
      cases hplace
    have hmem : (c, k :: r) ∈ trace h a t := hplace ▸ place_mem_trace ht
    exact setNested_of_stop hw (old_of_mem_trace hw ha hmem) (place_stop hplace)

/-- A write leaves the way of another one up to its place alone. -/
theorem agree_of_nonConflict {q : List K} (hw : WellFormed h) (ha' : Old h a')
    (hn : NonConflict h a t a' t') (hplace : place h a t = (b, k :: q)) {c : Addr B K} {j : K}
    {r : List K} {d : Addr B K} (hmem : (c, j :: r) ∈ trace h a' t')
    (href : (h (c, j)).value = some (.ref d)) :
    (graft h b (k :: q) v (c, j)).value = some (.ref d) := by
  have ht : t ≠ [] := by
    rintro rfl
    cases hplace
  have hmem' : (b, k :: q) ∈ trace h a t := hplace ▸ place_mem_trace ht
  have hne : (c, j) ≠ (b, k) := by
    intro heq
    obtain ⟨rfl, rfl⟩ := Prod.mk.inj heq
    rcases place_stop hplace with rfl | hno
    · exact (hn c [j] (j :: r) hmem' hmem).1 (List.prefix_append [j] r)
    · exact hno d href
  rw [graft_other (old_of_mem_trace hw ha' hmem) hne, href]

/-- After a write, another one goes on from its own place. -/
theorem setNested_graft {q q' : List K} {c c' : Addr B K} (hw : WellFormed h) (ha' : Old h a')
    (hn : NonConflict h a t a' t') (hplace : place h a t = (c, k :: q))
    (hplace' : place h a' t' = (c', k' :: q')) :
    setNested (graft h c (k :: q) v) a' t' v' =
      setNested (graft h c (k :: q) v) c' (k' :: q') v' := by
  have hagree : setNested (graft h c (k :: q) v) a' t' v' =
      setNested (graft h c (k :: q) v) (place h a' t').1 (place h a' t').2 v' := by
    apply setNested_of_agree
    intro b i r d hmem hr href
    exact agree_of_nonConflict hw ha' hn hplace hmem href
  rw [hagree, hplace']

/-- The second of two writes that make the same map goes on in the map that the first one made. -/
theorem setNested_graft_same {q q' : List K} (hw : WellFormed h) (ha : Old h a) (hq : q ≠ [])
    (hq' : q' ≠ []) : setNested (graft h a (k :: q) v) a (k :: q') v' =
      setNested (setNested (make h a k) (fresh h a k) q v) (fresh h a k) q' v' := by
  obtain ⟨j, r, rfl⟩ := List.exists_cons_of_ne_nil hq
  obtain ⟨j', r', rfl⟩ := List.exists_cons_of_ne_nil hq'
  have hne : (a, k) ≠ (fresh h a k, j) := by
    intro heq
    exact not_old_fresh ((Prod.mk.inj heq).1 ▸ ha)
  have hcell : (graft h a (k :: j :: r) v (a, k)).value = some (.ref (fresh h a k)) := by
    rw [graft, graft_other ha.make hne, make, modify_same]
    rfl
  rw [setNested, hcell, graft,
    setNested_of_empty (hw.make ha) (old_fresh ha) (make_fresh hw ha)]

/-- Writes that do not conflict commute. The induction is on the length of a path: two writes that
make the same map go on inside it. -/
theorem setNested_comm (hw : WellFormed h) (ha : Old h a) (ha' : Old h a') (hv : OldValue h v)
    (hv' : OldValue h v') (ht : t ≠ []) (ht' : t' ≠ []) (hn : NonConflict h a t a' t') :
    setNested (setNested h a t v) a' t' v' = setNested (setNested h a' t' v') a t v := by
  induction hlength : t.length using Nat.strong_induction_on generalizing h a t a' t' with
  | _ n ih =>
    have hfirst : setNested h a t v = graft h (place h a t).1 (place h a t).2 v :=
      setNested_eq_graft hw ha
    have hfirst' : setNested h a' t' v' = graft h (place h a' t').1 (place h a' t').2 v' :=
      setNested_eq_graft hw ha'
    have hmem : place h a t ∈ trace h a t := place_mem_trace ht
    have hmem' : place h a' t' ∈ trace h a' t' := place_mem_trace ht'
    have hle : (place h a t).2.length ≤ t.length := length_place_le
    rcases hplace : place h a t with ⟨c, u⟩
    rcases hplace' : place h a' t' with ⟨c', u'⟩
    rw [hplace] at hfirst hmem hle
    rw [hplace'] at hfirst' hmem'
    obtain ⟨k, q, rfl⟩ := List.exists_cons_of_ne_nil (ne_nil_of_mem_trace ht hmem)
    obtain ⟨k', q', rfl⟩ := List.exists_cons_of_ne_nil (ne_nil_of_mem_trace ht' hmem')
    have hc : Old h c := old_of_mem_trace hw ha hmem
    have hc' : Old h c' := old_of_mem_trace hw ha' hmem'
    have hw₁ : WellFormed (graft h c (k :: q) v) := by
      rw [← hfirst]
      exact hw.setNested ha hv
    have hw₂ : WellFormed (graft h c' (k' :: q') v') := by
      rw [← hfirst']
      exact hw.setNested ha' hv'
    rw [hfirst, hfirst', setNested_graft hw ha' hn hplace hplace',
      setNested_graft hw ha hn.symm hplace' hplace]
    by_cases hcell : (c, k) = (c', k')
    · obtain ⟨rfl, rfl⟩ := Prod.mk.inj hcell
      have hapart : Apart q q' := apart_cons.mp (hn c _ _ hmem hmem')
      have hq : q ≠ [] := by
        rintro rfl
        exact hapart.1 List.nil_prefix
      have hq' : q' ≠ [] := by
        rintro rfl
        exact hapart.2 List.nil_prefix
      have hempty := make_fresh (k := k) hw hc
      rw [setNested_graft_same hw hc hq hq', setNested_graft_same hw hc hq' hq]
      refine ih q.length ?_ (hw.make hc) (old_fresh hc) (old_fresh hc) hv.make hv'.make hq hq' ?_
        rfl
      · rw [List.length_cons] at hle
        omega
      · intro b r r' hr hr'
        rw [trace_of_empty hq hempty] at hr
        rw [trace_of_empty hq' hempty] at hr'
        obtain ⟨-, rfl⟩ := Prod.mk.inj (List.mem_singleton.mp hr)
        obtain ⟨-, rfl⟩ := Prod.mk.inj (List.mem_singleton.mp hr')
        exact hapart
    · have hstop : q = [] ∨ ∀ b, (graft h c' (k' :: q') v' (c, k)).value ≠ some (.ref b) := by
        rw [graft_other hc hcell]
        exact place_stop hplace
      have hstop' : q' = [] ∨ ∀ b, (graft h c (k :: q) v (c', k')).value ≠ some (.ref b) := by
        rw [graft_other hc' (Ne.symm hcell)]
        exact place_stop hplace'
      have hold : Old (graft h c (k :: q) v) c' := old_graft hc'
      have hold' : Old (graft h c' (k' :: q') v') c := old_graft hc
      rw [setNested_of_stop hw₁ hold hstop', setNested_of_stop hw₂ hold' hstop,
        graft_graft hc hc' hcell]

/-- What a write leaves in a cell: what was there, on the way a map that was made for it, or at
the end of the path the value. -/
theorem setNested_cell {P : Addr B K → List K → Prop}
    (hnext : ∀ a k j ks b, P a (k :: j :: ks) → (h (a, k)).value = some (.ref b) → P b (j :: ks))
    (hmade : ∀ a k j ks n, P a (k :: j :: ks) → P (.made a k n) (j :: ks)) (hstart : P a t)
    (x : Addr B K × K) : (setNested h a t v x).value = (h x).value ∨
      (∃ n ks, (setNested h a t v x).value = some (.ref (.made x.1 x.2 n)) ∧ P x.1 (x.2 :: ks)) ∨
      ((setNested h a t v x).value = some v ∧ P x.1 [x.2]) := by
  fun_induction setNested h a t v with
  | case1 => exact Or.inl rfl
  | case2 h a k v =>
    by_cases hx : x = (a, k)
    · right
      right
      rw [hx, put, modify_same]
      exact ⟨rfl, hstart⟩
    · left
      rw [put, modify_other hx]
  | case3 h a k j ks v b hb ih => exact ih hnext (hnext a k j ks b hstart hb)
  | case4 h a k j ks v hb ih =>
    have hnext' : ∀ b i j ks d, P b (i :: j :: ks) →
        (make h a k (b, i)).value = some (.ref d) → P d (j :: ks) := by
      intro b i j ks d hP hd
      by_cases hx : (b, i) = (a, k)
      · obtain ⟨rfl, rfl⟩ := Prod.mk.inj hx
        rw [make, modify_same] at hd
        obtain rfl := Value.ref.inj (Option.some.inj hd)
        exact hmade b i j ks _ hP
      · rw [make, modify_other hx] at hd
        exact hnext b i j ks d hP hd
    rcases ih hnext' (hmade a k j ks _ hstart) with heq | hcase
    · by_cases hx : x = (a, k)
      · right
        left
        rw [heq, hx, make, modify_same]
        exact ⟨_, j :: ks, rfl, hstart⟩
      · left
        rw [heq, make, modify_other hx]
    · exact Or.inr hcase

/-! ## A map that no reference leads to -/

def Unreferenced (h : Heap B K A) (a : Addr B K) : Prop := ∀ x, (h x).value ≠ some (.ref a)

theorem Unreferenced.put {c : Addr B K} (hu : Unreferenced h c) (hv : v ≠ .ref c) :
    Unreferenced (put h a k v) c := by
  intro x
  by_cases hx : x = (a, k)
  · rw [hx, NestedMaps.put, modify_same]
    exact fun heq => hv (Option.some.inj heq)
  · rw [NestedMaps.put, modify_other hx]
    exact hu x

theorem Unreferenced.make {root : B} (hu : Unreferenced h (.base root)) :
    Unreferenced (make h a k) (.base root) := by
  intro x
  by_cases hx : x = (a, k)
  · rw [hx, NestedMaps.make, modify_same]
    exact nofun
  · rw [NestedMaps.make, modify_other hx]
    exact hu x

theorem Unreferenced.setNested {root : B} (hu : Unreferenced h (.base root))
    (hv : v ≠ .ref (.base root)) :
    Unreferenced (setNested h a t v) (.base root) := by
  fun_induction NestedMaps.setNested h a t v with
  | case1 => exact hu
  | case2 => exact hu.put hv
  | case3 h a k k' ks v c hc ih => exact ih hu hv
  | case4 h a k k' ks v hc ih => exact ih hu.make hv

/-- It is written only under the key that a path from it begins with. -/
theorem setNested_unreferenced {root : B} (hu : Unreferenced h (.base root))
    (ha : a ≠ .base root ∨ t.head? ≠ some k) :
    setNested h a t v (.base root, k) = h (.base root, k) := by
  fun_induction setNested h a t v with
  | case1 => rfl
  | case2 h a j v =>
    apply modify_other
    rintro heq
    obtain ⟨rfl, rfl⟩ := Prod.mk.inj heq
    exact ha.elim (fun hne => hne rfl) fun hne => hne rfl
  | case3 h a j k' ks v c hc ih =>
    apply ih hu
    left
    rintro rfl
    exact hu _ hc
  | case4 h a j k' ks v hc ih =>
    rw [ih hu.make (Or.inl nofun)]
    apply modify_other
    rintro heq
    obtain ⟨rfl, rfl⟩ := Prod.mk.inj heq
    exact ha.elim (fun hne => hne rfl) fun hne => hne rfl

end

/-- Steps that commute wherever the invariant holds can be taken in any order. -/
theorem foldl_perm {σ ω : Type} {step : σ → ω → σ} {Inv : σ → Prop} {ws ws' : List ω}
    (hperm : ws.Perm ws') (hinv : ∀ s, Inv s → ∀ w ∈ ws, Inv (step s w))
    (hcomm : ∀ s, Inv s → ∀ w ∈ ws, ∀ w' ∈ ws, step (step s w) w' = step (step s w') w)
    {s : σ} (hs : Inv s) : ws.foldl step s = ws'.foldl step s := by
  induction hperm generalizing s with
  | nil => rfl
  | cons w hperm ih =>
    apply ih
    · intro s hs x hx
      exact hinv s hs x (List.mem_cons_of_mem w hx)
    · intro s hs x hx y hy
      exact hcomm s hs x (List.mem_cons_of_mem w hx) y (List.mem_cons_of_mem w hy)
    · exact hinv s hs w List.mem_cons_self
  | swap w w' l =>
    rw [List.foldl_cons, List.foldl_cons, List.foldl_cons, List.foldl_cons,
      hcomm s hs w' (by simp) w (by simp)]
  | trans hperm hperm' ih ih' =>
    rw [ih hinv hcomm hs]
    apply ih' _ _ hs
    · intro s hs x hx
      exact hinv s hs x (hperm.mem_iff.mpr hx)
    · intro s hs x hx y hy
      exact hcomm s hs x (hperm.mem_iff.mpr hx) y (hperm.mem_iff.mpr hy)

theorem foldl_invariant {σ ω : Type} {step : σ → ω → σ} {Inv : σ → Prop} {ws : List ω}
    (hinv : ∀ s, Inv s → ∀ w ∈ ws, Inv (step s w)) {s : σ} (hs : Inv s) :
    Inv (ws.foldl step s) := by
  induction ws generalizing s with
  | nil => exact hs
  | cons w ws ih =>
    apply ih
    · intro s hs x hx
      exact hinv s hs x (List.mem_cons_of_mem w hx)
    · exact hinv s hs w List.mem_cons_self

/-- A map that no reference leads to is not found on any way, unless the way began there. -/
theorem lookup_unreferenced {c : Addr B K} (hu : Unreferenced h c) (hv : v ≠ .ref c ∨ t ≠ []) :
    lookup h v t ≠ some (.ref c) := by
  fun_induction lookup h v t with
  | case1 v =>
    intro heq
    exact hv.elim (fun hne => hne (Option.some.inj heq)) fun hne => hne rfl
  | case2 a k ks ih =>
    intro heq
    obtain ⟨w, hw, hrest⟩ := Option.bind_eq_some_iff.mp heq
    refine ih w (Or.inl ?_) hrest
    rintro rfl
    exact hu _ hw
  | case3 => exact nofun

end NestedMaps
