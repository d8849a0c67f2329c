import AiSOC.InboxTemplate

/-! # When the order of the maps does not matter

Two copied fields have destinations of which neither continues the other, and so have two
constants. A constant below the destination of a copied map is written into the event's own map,
so there the places in the event count as well. -/
namespace InboxTemplate

open ByteText NestedMaps

section
variable {A T : Type}

/-- What the event has for a field, unless it is `nil`. -/
def source (payload : List (Bytes × Tree A)) (path : Bytes) : Option (Tree A) :=
  if path = [] then none
  else
    match treeAt (.map payload) (splitPath path) with
    | some (.leaf .nil) => none
    | x => x

/-- A place in the event where a constant is written, if the field map has put a map of the event
above its destination. -/
def EventPlace (t : Template A) (payload : List (Bytes × Tree A)) (constant : Bytes × Tree A)
    (place : List Bytes) : Prop :=
  ∃ entry ∈ t.fieldMap.entries, (∃ members, source payload entry.1 = some (.map members)) ∧
    ∃ rest, rest ≠ [] ∧ splitPath constant.1 = splitPath entry.2 ++ rest ∧
      place = splitPath entry.1 ++ rest

/-- No two writes of one loop meet, except that two fields may bring the same leaf to one place. -/
structure OrderFree (t : Template A) (payload : List (Bytes × Tree A)) : Prop where
  fields : ∀ e ∈ t.fieldMap.entries, ∀ e' ∈ t.fieldMap.entries, e ≠ e' →
    ∀ x ∈ source payload e.1, ∀ x' ∈ source payload e'.1,
      Apart (splitPath e.2) (splitPath e'.2) ∨
        splitPath e.2 = splitPath e'.2 ∧ ∃ y, x = .leaf y ∧ x' = .leaf y
  constants : ∀ c ∈ t.constants.entries, ∀ c' ∈ t.constants.entries, c ≠ c' →
    Apart (splitPath c.1) (splitPath c'.1)
  shared : ∀ c ∈ t.constants.entries, ∀ c' ∈ t.constants.entries, c ≠ c' →
    ∀ p p', EventPlace t payload c p → EventPlace t payload c' p' → Apart p p'

inductive Space where
  | output | event | constant
  deriving DecidableEq

/-- Where a map lies, as far as nothing is overwritten. -/
def locate : Addr Root Bytes → Space × List Bytes
  | .base .output => (.output, [])
  | .base (.event path) => (.event, path)
  | .base (.constant _ path) => (.constant, path)
  | .made a k _ => ((locate a).1, (locate a).2 ++ [k])

/-- The path `r` from the map `a` on is the rest of the way to a copied field's destination. -/
def FieldWay (entry : Bytes × Bytes) (a : Addr Root Bytes) (r : List Bytes) : Prop :=
  (locate a).1 = .output ∧ (locate a).2 ++ r = splitPath entry.2

/-- The same for a constant, whose way can go on in the event. -/
def ConstantWay (t : Template A) (payload : List (Bytes × Tree A)) (constant : Bytes × Tree A)
    (a : Addr Root Bytes) (r : List Bytes) : Prop :=
  (locate a).1 = .output ∧ (locate a).2 ++ r = splitPath constant.1 ∨
    (locate a).1 = .event ∧ EventPlace t payload constant ((locate a).2 ++ r)

/-- How a map comes to lie under the key `k` of the map `a`. -/
inductive Link (t : Template A) (payload : List (Bytes × Tree A))
    (stamped : List (Bytes × Tree A)) (a : Addr Root Bytes) (k : Bytes) : Addr Root Bytes → Prop
  | made (n : ℕ) : Link t payload stamped a k (.made a k n)
  | event (h : (locate a).1 = .event) :
      Link t payload stamped a k (.base (.event ((locate a).2 ++ [k])))
  | constant (h : (locate a).1 = .constant) (key : Bytes) (path : List Bytes) :
      Link t payload stamped a k (.base (.constant key path))
  | copied {entry : Bytes × Bytes} {members : List (Bytes × Tree A)}
      (hentry : entry ∈ t.fieldMap.entries)
      (hsource : source payload entry.1 = some (.map members)) (hway : FieldWay entry a [k]) :
      Link t payload stamped a k (.base (.event (splitPath entry.1)))
  | stamped {c : Bytes × Tree A} (hc : c ∈ stamped) (hway : ConstantWay t payload c a [k]) :
      Link t payload stamped a k (.base (.constant c.1 []))

/-- What holds before and in both loops. -/
structure Linked (t : Template A) (payload : List (Bytes × Tree A))
    (stamped : List (Bytes × Tree A)) (h : Maps A) : Prop where
  wellFormed : WellFormed h
  link : ∀ a k b, (h (a, k)).value = some (.ref b) → Link t payload stamped a k b

/-- The event is as it came. -/
def Kept (t : Template A) (payload : List (Bytes × Tree A)) (h : Maps A) : Prop :=
  ∀ path k, (h (.base (.event path), k)).value = (start t payload (.base (.event path), k)).value

variable {t : Template A} {payload : List (Bytes × Tree A)} {stamped : List (Bytes × Tree A)}
  {h : Maps A} {a b : Addr Root Bytes} {k : Bytes} {x : Leaf A} {e e' : Bytes × Bytes}
  {c c' : Bytes × Tree A}

theorem splitPath_ne_nil (path : Bytes) : splitPath path ≠ [] := List.splitOn_ne_nil _ _

theorem treeAt_concat (x : Tree A) (ks : List Bytes) (k : Bytes) :
    treeAt x (ks ++ [k]) = (treeAt x ks).bind (child · k) := by
  induction ks generalizing x with
  | nil =>
    rw [List.nil_append, treeAt, treeAt, Option.bind_some]
    cases child x k <;> rfl
  | cons j ks ih =>
    rw [List.cons_append, treeAt, treeAt]
    cases child x j with
    | none => rfl
    | some y => exact ih y

/-- An unchanged event is read as it came. -/
theorem lookup_event (hkept : Kept t payload h) {x : Tree A} {path : List Bytes}
    (hx : treeAt (.map payload) path = some x) (ks : List Bytes) :
    lookup h (anyOf .event path x) ks = (treeAt x ks).map (anyOf .event (path ++ ks)) := by
  induction ks generalizing x path with
  | nil =>
    rw [List.append_nil]
    cases x <;> rfl
  | cons k ks ih =>
    cases x with
    | leaf y => rfl
    | map members =>
      have hchild : treeAt (.map payload) (path ++ [k]) = child (.map members) k := by
        rw [treeAt_concat, hx, Option.bind_some]
      have hcell : (h (.base (.event path), k)).value =
          (child (.map members) k).map (anyOf .event (path ++ [k])) := by
        rw [hkept, start, hchild]
      rw [anyOf, lookup, hcell, treeAt]
      cases hy : child (.map members) k with
      | none => rfl
      | some y =>
        rw [Option.map_some, Option.bind_some, Option.bind_some, ih (hchild.trans hy),
          List.append_assoc, List.singleton_append]

theorem getNested_kept (hkept : Kept t payload h) (path : Bytes) :
    getNested h path = (source payload path).map (anyOf .event (splitPath path)) := by
  have hroot : treeAt (.map payload) [] = some (.map payload) := rfl
  have hlookup : lookup h (.ref event) (splitPath path) =
      (treeAt (.map payload) (splitPath path)).map (anyOf .event (splitPath path)) :=
    lookup_event hkept hroot (splitPath path)
  rw [getNested, source, hlookup]
  split_ifs
  · rfl
  · cases treeAt (.map payload) (splitPath path) with
    | none => rfl
    | some y =>
      cases y with
      | map members => rfl
      | leaf z => cases z <;> rfl

/-! ## What single writes keep -/

theorem Linked.mono {stamped' : List (Bytes × Tree A)} (hl : Linked t payload stamped h)
    (hsub : stamped ⊆ stamped') : Linked t payload stamped' h := by
  refine ⟨hl.wellFormed, ?_⟩
  intro a k b hb
  cases hl.link a k b hb with
  | made n => exact .made n
  | event hevent => exact .event hevent
  | constant hconstant key path => exact .constant hconstant key path
  | copied hentry hsource hway => exact .copied hentry hsource hway
  | stamped hc hway => exact .stamped (hsub hc) hway

theorem Linked.put (hl : Linked t payload stamped h) (ha : Old h a) :
    Linked t payload stamped (put h a k (.leaf x)) := by
  refine ⟨hl.wellFormed.put ha trivial, ?_⟩
  intro a' k' b hb
  by_cases hx : (a', k') = (a, k)
  · rw [hx, NestedMaps.put, modify_same] at hb
    cases hb
  · rw [NestedMaps.put, modify_other hx] at hb
    exact hl.link a' k' b hb

theorem Linked.make (hl : Linked t payload stamped h) (ha : Old h a) :
    Linked t payload stamped (make h a k) := by
  refine ⟨hl.wellFormed.make ha, ?_⟩
  intro a' k' b hb
  by_cases hx : (a', k') = (a, k)
  · rw [hx, NestedMaps.make, modify_same] at hb
    obtain ⟨rfl, rfl⟩ := Prod.mk.inj hx
    obtain rfl := Value.ref.inj (Option.some.inj hb)
    exact .made _
  · rw [NestedMaps.make, modify_other hx] at hb
    exact hl.link a' k' b hb

theorem Kept.modify {f : Cell Root Bytes (Leaf A) → Cell Root Bytes (Leaf A)}
    (hkept : Kept t payload h) (ha : (locate a).1 = .output) :
    Kept t payload (modify h (a, k) f) := by
  intro path j
  have hne : (Addr.base (.event path), j) ≠ (a, k) := by
    intro heq
    rw [← (Prod.mk.inj heq).1] at ha
    cases ha
  rw [modify_other hne, hkept]

theorem linked_start (t : Template A) (payload : List (Bytes × Tree A)) :
    Linked t payload [] (start t payload) := by
  have href : ∀ a k b, (start t payload (a, k)).value = some (.ref b) →
      Link t payload [] a k b ∧ Old (start t payload) b := by
    intro a k b hb
    match a with
    | .made _ _ _ => cases hb
    | .base .output => cases hb
    | .base (.event path) =>
      obtain ⟨y, -, hy⟩ := Option.map_eq_some_iff.mp hb
      cases y with
      | leaf z => cases hy
      | map members =>
        cases hy
        exact ⟨.event rfl, trivial⟩
    | .base (.constant key path) =>
      obtain ⟨y, -, hy⟩ := Option.map_eq_some_iff.mp hb
      cases y with
      | leaf z => cases hy
      | map members =>
        cases hy
        exact ⟨.constant rfl key _, trivial⟩
  refine ⟨⟨fun x b hb => (href x.1 x.2 b hb).2, ?_⟩, fun a k b hb => (href a k b hb).1⟩
  rintro ⟨a, k⟩ hx
  match a with
  | .made _ _ _ => rfl
  | .base _ => exact absurd trivial hx

/-- A map of the output that is already there. -/
def Ready (h : Maps A) (a : Addr Root Bytes) : Prop := Old h a ∧ (locate a).1 = .output

/-- The invariant of the first loop. -/
def Fresh (t : Template A) (payload : List (Bytes × Tree A)) (h : Maps A) : Prop :=
  Linked t payload [] h ∧ Kept t payload h

theorem Fresh.put (hf : Fresh t payload h) (ha : Ready h a) :
    Fresh t payload (put h a k (.leaf x)) :=
  ⟨hf.1.put ha.1, hf.2.modify ha.2⟩

theorem Fresh.make (hf : Fresh t payload h) (ha : Ready h a) : Fresh t payload (make h a k) :=
  ⟨hf.1.make ha.1, hf.2.modify ha.2⟩

theorem Ready.put (ha : Ready h a) : Ready (put h b k (.leaf x)) a := ⟨ha.1.put, ha.2⟩

theorem Ready.make (ha : Ready h a) : Ready (make h b k) a := ⟨ha.1.make, ha.2⟩

theorem Ready.fresh (ha : Ready h a) : Ready (NestedMaps.make h a k) (NestedMaps.fresh h a k) :=
  ⟨old_fresh ha.1, ha.2⟩

theorem ready_ocsf : Ready h ocsf := ⟨trivial, rfl⟩

theorem Fresh.assign (hf : Fresh t payload h) (key : String) : Fresh t payload (assign h key x) :=
  hf.put ready_ocsf

theorem Linked.assign (hl : Linked t payload stamped h) (key : String) :
    Linked t payload stamped (assign h key x) :=
  hl.put trivial

theorem fresh_assignClass (hf : Fresh t payload h) : Fresh t payload (assignClass t h) := by
  have hname : Fresh t payload (assign (assign h "class_uid" (.int t.classUID)) "class_name"
      (.str t.className)) := (hf.assign _).assign _
  rw [assignClass]
  apply Fresh.assign
  split_ifs
  · exact hname.assign _
  · exact hname

theorem fresh_assignMetadata {lib : Library T} {request : Request A T}
    (hf : Fresh t payload h) : Fresh t payload (assignMetadata lib t request h) := by
  have hmade : Fresh t payload (make h ocsf (bytes "metadata")) := hf.make ready_ocsf
  have hmetadata : Ready (make h ocsf (bytes "metadata")) (fresh h ocsf (bytes "metadata")) :=
    ready_ocsf.fresh
  rw [assignMetadata]
  apply Fresh.put _ hmetadata.put.put.put.fresh.put
  apply Fresh.put _ hmetadata.put.put.put.fresh
  apply Fresh.make _ hmetadata.put.put.put
  exact ((hmade.put hmetadata).put hmetadata.put).put hmetadata.put.put

theorem fresh_seed (lib : Library T) (t : Template A) (request : Request A T) :
    Fresh t request.payload (seed lib t request) := by
  have hstart : Fresh t request.payload (start t request.payload) :=
    ⟨linked_start t request.payload, fun _ _ => rfl⟩
  exact fresh_assignMetadata (((fresh_assignClass hstart).assign _).assign _)

theorem linked_assignRest (lib : Library T) (hl : Linked t payload stamped h) :
    Linked t payload stamped (assignRest lib t h) := by
  have hseverity : Linked t payload stamped (assignSeverity lib t h) := by
    rw [assignSeverity]
    split_ifs
    · split
      · exact (hl.assign _).assign _
      · exact (hl.assign _).assign _
    · exact (hl.assign _).assign _
    · exact hl
  rw [assignRest, assignMessage]
  split_ifs
  · exact hseverity.assign _
  · exact hseverity

/-! ## The way of a write -/

theorem locate_made (n : ℕ) : locate (.made a k n) = ((locate a).1, (locate a).2 ++ [k]) := rfl

theorem append_ne_cons_cons {p : List Bytes} {j : Bytes} {ks : List Bytes} :
    p ++ [k] ≠ p ++ k :: j :: ks := by
  intro heq
  have hlength := congrArg List.length heq
  simp only [List.length_append, List.length_cons, List.length_nil] at hlength
  omega

theorem prefix_cons_cons (p : List Bytes) (k : Bytes) (ks : List Bytes) :
    p ++ [k] <+: p ++ k :: ks :=
  (List.prefix_append_right_inj p).mpr (List.prefix_append [k] ks)

/-- A copied field is written in the output alone. -/
theorem fieldWay_next (hfree : OrderFree t payload) (hl : Linked t payload [] h)
    (he : e ∈ t.fieldMap.entries) {y : Tree A} (hsource : source payload e.1 = some y) {j : Bytes}
    {ks : List Bytes} (hway : FieldWay e a (k :: j :: ks))
    (hb : (h (a, k)).value = some (.ref b)) : FieldWay e b (j :: ks) := by
  obtain ⟨hspace, hpath⟩ := hway
  have himpossible : ∀ s, s ≠ Space.output → (locate a).1 ≠ s := by
    intro s hs heq
    exact hs (heq.symm.trans hspace)
  cases hl.link a k b hb with
  | made n =>
    refine ⟨hspace, ?_⟩
    rw [locate_made, ← hpath, List.append_assoc, List.singleton_append]
  | event hevent => exact absurd hevent (himpossible _ (by decide))
  | constant hconstant => exact absurd hconstant (himpossible _ (by decide))
  | @copied e' members he' hsource' hway' =>
    obtain ⟨-, hpath'⟩ := hway'
    have hprefix' : splitPath e'.2 <+: splitPath e.2 := by
      rw [← hpath, ← hpath']
      exact prefix_cons_cons _ k _
    by_cases heq : e = e'
    · rw [← heq, ← hpath] at hpath'
      exact absurd hpath' append_ne_cons_cons
    · rcases hfree.fields e he e' he' heq y hsource _ hsource' with hapart | ⟨-, z, -, hz⟩
      · exact absurd hprefix' hapart.2
      · cases hz
  | stamped hc => cases hc

/-- The way of a constant does not depend on which of two copied maps it leads through. -/
theorem eventPlace_unique (hfree : OrderFree t payload) {p q : List Bytes}
    (hp : EventPlace t payload c p) (hq : EventPlace t payload c q) : p = q := by
  obtain ⟨e, he, ⟨ms, hms⟩, r, -, hr, rfl⟩ := hp
  obtain ⟨e', he', ⟨ms', hms'⟩, r', -, hr', rfl⟩ := hq
  have hsplit : splitPath e.2 ++ r = splitPath e'.2 ++ r' := hr.symm.trans hr'
  by_cases heq : e = e'
  · subst heq
    rw [List.append_cancel_left hsplit]
  · rcases hfree.fields e he e' he' heq _ hms _ hms' with hapart | ⟨-, z, hz, -⟩
    · have hprefix' : splitPath e'.2 <+: splitPath e.2 ++ r := ⟨r', hsplit.symm⟩
      rcases List.prefix_or_prefix_of_prefix (List.prefix_append _ r) hprefix' with hpre | hpre
      · exact absurd hpre hapart.1
      · exact absurd hpre hapart.2
    · cases hz

theorem constantWay_next (hfree : OrderFree t payload)
    (hl : Linked t payload t.constants.entries h) (hc : c ∈ t.constants.entries) {j : Bytes}
    {ks : List Bytes} (hway : ConstantWay t payload c a (k :: j :: ks))
    (hb : (h (a, k)).value = some (.ref b)) : ConstantWay t payload c b (j :: ks) := by
  have happend : ∀ p, p ++ k :: j :: ks = (p ++ [k]) ++ j :: ks := by
    intro p
    rw [List.append_assoc, List.singleton_append]
  cases hl.link a k b hb with
  | made n =>
    rw [ConstantWay, happend] at hway
    exact hway
  | event hevent =>
    rcases hway with ⟨hspace, -⟩ | ⟨-, hplace⟩
    · rw [hspace] at hevent
      cases hevent
    · rw [happend] at hplace
      exact Or.inr ⟨rfl, hplace⟩
  | constant hconstant =>
    rcases hway with ⟨hspace, -⟩ | ⟨hspace, -⟩
    · rw [hspace] at hconstant
      cases hconstant
    · rw [hspace] at hconstant
      cases hconstant
  | @copied e members he hsource hway' =>
    obtain ⟨hspace', hpath'⟩ := hway'
    rcases hway with ⟨-, hpath⟩ | ⟨hspace, -⟩
    · right
      refine ⟨rfl, e, he, ⟨members, hsource⟩, j :: ks, List.cons_ne_nil _ _, ?_, rfl⟩
      rw [← hpath, ← hpath', happend]
    · rw [hspace] at hspace'
      cases hspace'
  | @stamped c' hc' hway' =>
    exfalso
    rcases hway with ⟨hspace, hpath⟩ | ⟨hspace, hplace⟩
    · rcases hway' with ⟨-, hpath'⟩ | ⟨hspace', -⟩
      · by_cases heq : c = c'
        · rw [← heq, ← hpath] at hpath'
          exact append_ne_cons_cons hpath'
        · have hapart := hfree.constants c hc c' hc' heq
          rw [← hpath, ← hpath'] at hapart
          exact hapart.2 (prefix_cons_cons _ k _)
      · rw [hspace] at hspace'
        cases hspace'
    · rcases hway' with ⟨hspace', -⟩ | ⟨-, hplace'⟩
      · rw [hspace] at hspace'
        cases hspace'
      · by_cases heq : c = c'
        · subst heq
          exact append_ne_cons_cons (eventPlace_unique hfree hplace' hplace)
        · exact (hfree.shared c hc c' hc' heq _ _ hplace hplace').2 (prefix_cons_cons _ k _)

/-! ## The loops -/

theorem copyField_eq (hkept : Kept t payload h) (e : Bytes × Bytes) :
    copyField h e = match source payload e.1 with
      | some y => setOcsf h e.2 (anyOf .event (splitPath e.1) y)
      | none => h := by
  rw [copyField, getNested_kept hkept]
  cases source payload e.1 <;> rfl

theorem oldValue_anyOf (root : List Bytes → Root) (path : List Bytes) (y : Tree A) :
    OldValue h (anyOf root path y) := by
  cases y <;> trivial

theorem anyOf_eq_ref {root : List Bytes → Root} {path : List Bytes} {y : Tree A}
    (hy : anyOf root path y = .ref b) : (∃ members, y = .map members) ∧ b = .base (root path) := by
  cases y with
  | leaf z => cases hy
  | map members =>
    cases hy
    exact ⟨⟨members, rfl⟩, rfl⟩

theorem fieldWay_made (n : ℕ) {j : Bytes} {ks : List Bytes} (hway : FieldWay e a (k :: j :: ks)) :
    FieldWay e (.made a k n) (j :: ks) := by
  refine ⟨hway.1, ?_⟩
  rw [locate_made, ← hway.2, List.append_assoc, List.singleton_append]

theorem constantWay_made (n : ℕ) {j : Bytes} {ks : List Bytes}
    (hway : ConstantWay t payload c a (k :: j :: ks)) :
    ConstantWay t payload c (.made a k n) (j :: ks) := by
  rw [ConstantWay, locate_made, List.append_assoc, List.singleton_append]
  exact hway

theorem fresh_copyField (hfree : OrderFree t payload) (hf : Fresh t payload h)
    (he : e ∈ t.fieldMap.entries) : Fresh t payload (copyField h e) := by
  rw [copyField_eq hf.2]
  cases hsource : source payload e.1 with
  | none => exact hf
  | some y =>
    have hstart : FieldWay e ocsf (splitPath e.2) := ⟨rfl, rfl⟩
    have hcell := setNested_cell (v := anyOf .event (splitPath e.1) y)
      (fun a k j ks b hway hb => fieldWay_next hfree hf.1 he hsource hway hb)
      (fun a k j ks n hway => fieldWay_made n hway) hstart
    constructor
    · refine ⟨hf.1.wellFormed.setNested trivial (oldValue_anyOf _ _ y), ?_⟩
      intro a k b hb
      rcases hcell (a, k) with heq | ⟨n, ks, heq, -⟩ | ⟨heq, hway⟩
      · exact hf.1.link a k b (heq.symm.trans hb)
      · obtain rfl := Value.ref.inj (Option.some.inj (heq.symm.trans hb))
        exact .made n
      · obtain ⟨⟨members, rfl⟩, rfl⟩ := anyOf_eq_ref (Option.some.inj (heq.symm.trans hb))
        exact .copied he hsource hway
    · intro path j
      rcases hcell (.base (.event path), j) with heq | ⟨n, ks, -, hway⟩ | ⟨-, hway⟩
      · exact heq.trans (hf.2 path j)
      · cases hway.1
      · cases hway.1

theorem linked_stampConstant (hfree : OrderFree t payload)
    (hl : Linked t payload t.constants.entries h) (hc : c ∈ t.constants.entries) :
    Linked t payload t.constants.entries (stampConstant h c) := by
  have hstart : ConstantWay t payload c ocsf (splitPath c.1) := Or.inl ⟨rfl, rfl⟩
  have hcell := setNested_cell (v := anyOf (.constant c.1) [] c.2)
    (fun a k j ks b hway hb => constantWay_next hfree hl hc hway hb)
    (fun a k j ks n hway => constantWay_made n hway) hstart
  refine ⟨hl.wellFormed.setNested trivial (oldValue_anyOf _ _ c.2), ?_⟩
  intro a k b hb
  rcases hcell (a, k) with heq | ⟨n, ks, heq, -⟩ | ⟨heq, hway⟩
  · exact hl.link a k b (heq.symm.trans hb)
  · obtain rfl := Value.ref.inj (Option.some.inj (heq.symm.trans hb))
    exact .made n
  · obtain ⟨-, rfl⟩ := anyOf_eq_ref (Option.some.inj (heq.symm.trans hb))
    exact .stamped hc hway

theorem fields_nonConflict (hfree : OrderFree t payload) (hl : Linked t payload [] h)
    (he : e ∈ t.fieldMap.entries) (he' : e' ∈ t.fieldMap.entries) {y y' : Tree A}
    (hy : source payload e.1 = some y) (hy' : source payload e'.1 = some y')
    (hapart : Apart (splitPath e.2) (splitPath e'.2)) :
    NonConflict h ocsf (splitPath e.2) ocsf (splitPath e'.2) := by
  intro b r r' hr hr'
  have hway : FieldWay e b r := trace_invariant
    (fun a k j ks b hway hb => fieldWay_next hfree hl he hy hway hb) ⟨rfl, rfl⟩ hr
  have hway' : FieldWay e' b r' := trace_invariant
    (fun a k j ks b hway hb => fieldWay_next hfree hl he' hy' hway hb) ⟨rfl, rfl⟩ hr'
  rw [← hway.2, ← hway'.2] at hapart
  exact (apart_append_left _).mp hapart

theorem constants_nonConflict (hfree : OrderFree t payload)
    (hl : Linked t payload t.constants.entries h) (hc : c ∈ t.constants.entries)
    (hc' : c' ∈ t.constants.entries) (hne : c ≠ c') :
    NonConflict h ocsf (splitPath c.1) ocsf (splitPath c'.1) := by
  intro b r r' hr hr'
  have hway : ConstantWay t payload c b r := trace_invariant
    (fun a k j ks b hway hb => constantWay_next hfree hl hc hway hb) (Or.inl ⟨rfl, rfl⟩) hr
  have hway' : ConstantWay t payload c' b r' := trace_invariant
    (fun a k j ks b hway hb => constantWay_next hfree hl hc' hway hb) (Or.inl ⟨rfl, rfl⟩) hr'
  rcases hway with ⟨hspace, hpath⟩ | ⟨hspace, hplace⟩
  · rcases hway' with ⟨-, hpath'⟩ | ⟨hspace', -⟩
    · have hapart := hfree.constants c hc c' hc' hne
      rw [← hpath, ← hpath'] at hapart
      exact (apart_append_left _).mp hapart
    · rw [hspace] at hspace'
      cases hspace'
  · rcases hway' with ⟨hspace', -⟩ | ⟨-, hplace'⟩
    · rw [hspace] at hspace'
      cases hspace'
    · exact (apart_append_left _).mp (hfree.shared c hc c' hc' hne _ _ hplace hplace')

theorem copyField_comm (hfree : OrderFree t payload) (hf : Fresh t payload h)
    (he : e ∈ t.fieldMap.entries) (he' : e' ∈ t.fieldMap.entries) :
    copyField (copyField h e) e' = copyField (copyField h e') e := by
  have hf₁ := fresh_copyField hfree hf he
  have hf₂ := fresh_copyField hfree hf he'
  rw [copyField_eq hf₁.2, copyField_eq hf₂.2, copyField_eq hf.2, copyField_eq hf.2]
  cases hy : source payload e.1 with
  | none => rfl
  | some y =>
    cases hy' : source payload e'.1 with
    | none => rfl
    | some y' =>
      by_cases hne : e = e'
      · subst hne
        obtain rfl := Option.some.inj (hy.symm.trans hy')
        rfl
      · dsimp only
        rcases hfree.fields e he e' he' hne y hy y' hy' with hapart | ⟨hpath, z, rfl, rfl⟩
        · exact setNested_comm hf.1.wellFormed trivial trivial (oldValue_anyOf _ _ y)
            (oldValue_anyOf _ _ y') (splitPath_ne_nil _) (splitPath_ne_nil _)
            (fields_nonConflict hfree hf.1 he he' hy hy' hapart)
        · rw [setOcsf, setOcsf, setOcsf, setOcsf, hpath]
          rfl

theorem stampConstant_comm (hfree : OrderFree t payload)
    (hl : Linked t payload t.constants.entries h) (hc : c ∈ t.constants.entries)
    (hc' : c' ∈ t.constants.entries) :
    stampConstant (stampConstant h c) c' = stampConstant (stampConstant h c') c := by
  by_cases hne : c = c'
  · rw [hne]
  · exact setNested_comm hl.wellFormed trivial trivial (oldValue_anyOf _ _ c.2)
      (oldValue_anyOf _ _ c'.2) (splitPath_ne_nil _) (splitPath_ne_nil _)
      (constants_nonConflict hfree hl hc hc' hne)

/-- Every order leaves the same maps. -/
theorem apply_order (lib : Library T) {request : Request A T}
    (hfree : OrderFree t request.payload) (order order' : Order t) :
    apply lib t request order = apply lib t request order' := by
  have hseed : Fresh t request.payload (seed lib t request) := fresh_seed lib t request
  have hfields : ∀ o : Order t, ∀ e ∈ o.fieldMap, e ∈ t.fieldMap.entries := by
    intro o e he
    exact o.fieldMap_perm.mem_iff.mp he
  have hconstants : ∀ o : Order t, ∀ c ∈ o.constants, c ∈ t.constants.entries := by
    intro o c hc
    exact o.constants_perm.mem_iff.mp hc
  have hcopied : order.fieldMap.foldl copyField (seed lib t request) =
      order'.fieldMap.foldl copyField (seed lib t request) :=
    foldl_perm (order.fieldMap_perm.trans order'.fieldMap_perm.symm)
      (fun h hf e he => fresh_copyField hfree hf (hfields order e he))
      (fun h hf e he e' he' =>
        copyField_comm hfree hf (hfields order e he) (hfields order e' he')) hseed
  have hfresh : Fresh t request.payload (order'.fieldMap.foldl copyField (seed lib t request)) :=
    foldl_invariant (fun h hf e he => fresh_copyField hfree hf (hfields order' e he)) hseed
  have hlinked : Linked t request.payload t.constants.entries
      (assignRest lib t (order'.fieldMap.foldl copyField (seed lib t request))) :=
    linked_assignRest lib (hfresh.1.mono (List.nil_subset _))
  have hstamped := foldl_perm (order.constants_perm.trans order'.constants_perm.symm)
    (fun h hl c hc => linked_stampConstant hfree hl (hconstants order c hc))
    (fun h hl c hc c' hc' =>
      stampConstant_comm hfree hl (hconstants order c hc) (hconstants order c' hc')) hlinked
  rw [apply, apply, hcopied, hstamped]

end

/-- The template for alerts without one of their own. -/
def genericJson : Template Unit where
  vendorName := bytes "Generic"
  productName := bytes "Generic JSON"
  classUID := 2001
  className := bytes "Security Finding"
  activityID := 1
  fieldMap := ⟨[(bytes "title", bytes "finding.title"), (bytes "message", bytes "message"),
    (bytes "description", bytes "finding.description"), (bytes "source", bytes "source"),
    (bytes "url", bytes "url"), (bytes "alert_id", bytes "finding.uid"),
    (bytes "id", bytes "finding.uid")], by decide⟩
  severityMap := ⟨[(bytes "info", 1), (bytes "informational", 1), (bytes "low", 2),
    (bytes "medium", 3), (bytes "warning", 3), (bytes "high", 4), (bytes "critical", 5),
    (bytes "fatal", 6)], by decide⟩
  severityField := bytes "severity"
  timeField := bytes "timestamp"
  messageField := bytes "message"
  constants := ⟨[(bytes "source_type", .leaf (.str (bytes "generic-json")))], by decide⟩

/-- An alert with an id of its own and one of its finding. -/
def twoIds : Request Unit Unit where
  payload := [(bytes "alert_id", .leaf (.str (bytes "A-1"))),
    (bytes "id", .leaf (.str (bytes "B-2")))]
  tenantID := bytes "t-1"
  connectorRef := bytes "inbox:abc"
  receivedAt := bytes "2026-05-08T12:30:01Z"
  now := ()
  nowMetadata := ()

def fixedClock : Library Unit where
  toLower s := s
  parse _ _ := none
  formatUTC _ _ := bytes "2026-05-08T12:30:01Z"

def asWritten : Order genericJson := ⟨_, _, .refl _, .refl _⟩

def backwards : Order genericJson := ⟨_, _, List.reverse_perm _, .refl _⟩

/-- A template that stamps a type on the actor that it copies. -/
def actorTemplate : Template Unit where
  vendorName := bytes "Acme"
  productName := bytes "Acme Audit"
  classUID := 3002
  className := bytes "Authentication"
  activityID := 0
  fieldMap := ⟨[(bytes "user", bytes "actor"), (bytes "src", bytes "src_endpoint.ip")],
    by decide⟩
  severityMap := ⟨[], List.nodup_nil⟩
  severityField := []
  timeField := []
  messageField := []
  constants := ⟨[(bytes "actor.type", .leaf (.str (bytes "User"))),
    (bytes "source_type", .leaf (.str (bytes "acme")))], by decide⟩

def actorEvent : Request Unit Unit where
  payload := [(bytes "user", .map [(bytes "name", .leaf (.str (bytes "bob")))]),
    (bytes "src", .leaf (.str (bytes "10.0.0.1")))]
  tenantID := bytes "t-1"
  connectorRef := bytes "inbox:abc"
  receivedAt := bytes "2026-05-08T12:30:01Z"
  now := ()
  nowMetadata := ()

end InboxTemplate
