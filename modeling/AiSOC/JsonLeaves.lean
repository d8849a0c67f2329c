import AiSOC.JsonText

/-! # The strings of a JSON value

Where they stand, what holds of all of them, and how two values of one shape relate string by
string. -/
namespace JsonLeaves

open CodeText JsonText

/-- The key nearest above a string, and whether no list stands between them. -/
structure Place where
  key : Option Text
  direct : Bool

variable {F : Type}

mutual

def All (P : Place → Text → Prop) (place : Place) : Json F → Prop
  | .str s => P place s
  | .arr items => AllItems P { place with direct := false } items
  | .obj members => AllMembers P members
  | _ => True

def AllItems (P : Place → Text → Prop) (place : Place) : List (Json F) → Prop
  | [] => True
  | x :: xs => All P place x ∧ AllItems P place xs

def AllMembers (P : Place → Text → Prop) : List (Text × Json F) → Prop
  | [] => True
  | (k, x) :: ms => All P ⟨some k, true⟩ x ∧ AllMembers P ms

end

mutual

/-- The values differ in their strings at most, and those at one place are related. -/
def Related (R : Place → Text → Text → Prop) (place : Place) : Json F → Json F → Prop
  | .str s, .str t => R place s t
  | .arr xs, .arr ys => RelatedItems R { place with direct := false } xs ys
  | .obj ms, .obj ns => RelatedMembers R ms ns
  | .null, .null => True
  | .bool a, .bool b => a = b
  | .int a, .int b => a = b
  | .float a, .float b => a = b
  | _, _ => False

def RelatedItems (R : Place → Text → Text → Prop) (place : Place) :
    List (Json F) → List (Json F) → Prop
  | [], [] => True
  | x :: xs, y :: ys => Related R place x y ∧ RelatedItems R place xs ys
  | _, _ => False

def RelatedMembers (R : Place → Text → Text → Prop) :
    List (Text × Json F) → List (Text × Json F) → Prop
  | [], [] => True
  | (k, x) :: ms, (l, y) :: ns => k = l ∧ Related R ⟨some k, true⟩ x y ∧ RelatedMembers R ms ns
  | _, _ => False

end

variable {P Q : Place → Text → Prop} {R R' : Place → Text → Text → Prop}

mutual

/-- What a relation gives of the strings on the right. -/
theorem Related.all (h : ∀ place s t, R place s t → P place t) {place : Place} {x y : Json F}
    (hxy : Related R place x y) : All P place y := by
  match x, y, hxy with
  | .str s, .str t, hst => exact h place s t hst
  | .arr xs, .arr ys, hxs => exact RelatedItems.all h hxs
  | .obj ms, .obj ns, hms => exact RelatedMembers.all h hms
  | .null, .null, _ => trivial
  | .bool _, .bool _, _ => trivial
  | .int _, .int _, _ => trivial
  | .float _, .float _, _ => trivial

theorem RelatedItems.all (h : ∀ place s t, R place s t → P place t) {place : Place}
    {xs ys : List (Json F)} (hxs : RelatedItems R place xs ys) : AllItems P place ys := by
  match xs, ys, hxs with
  | [], [], _ => trivial
  | x :: xs, y :: ys, ⟨hx, hxs⟩ => exact ⟨Related.all h hx, RelatedItems.all h hxs⟩

theorem RelatedMembers.all (h : ∀ place s t, R place s t → P place t)
    {ms ns : List (Text × Json F)} (hms : RelatedMembers R ms ns) : AllMembers P ns := by
  match ms, ns, hms with
  | [], [], _ => trivial
  | (k, x) :: ms, (_, y) :: ns, ⟨rfl, hx, hms⟩ =>
    exact ⟨Related.all h hx, RelatedMembers.all h hms⟩

end

mutual

theorem Related.mono (h : ∀ place s t, R place s t → R' place s t) {place : Place}
    {x y : Json F} (hxy : Related R place x y) : Related R' place x y := by
  match x, y, hxy with
  | .str s, .str t, hst => exact h place s t hst
  | .arr xs, .arr ys, hxs => exact RelatedItems.mono h hxs
  | .obj ms, .obj ns, hms => exact RelatedMembers.mono h hms
  | .null, .null, _ => trivial
  | .bool _, .bool _, heq => exact heq
  | .int _, .int _, heq => exact heq
  | .float _, .float _, heq => exact heq

theorem RelatedItems.mono (h : ∀ place s t, R place s t → R' place s t) {place : Place}
    {xs ys : List (Json F)} (hxs : RelatedItems R place xs ys) : RelatedItems R' place xs ys := by
  match xs, ys, hxs with
  | [], [], _ => trivial
  | x :: xs, y :: ys, ⟨hx, hxs⟩ => exact ⟨Related.mono h hx, RelatedItems.mono h hxs⟩

theorem RelatedMembers.mono (h : ∀ place s t, R place s t → R' place s t)
    {ms ns : List (Text × Json F)} (hms : RelatedMembers R ms ns) : RelatedMembers R' ms ns := by
  match ms, ns, hms with
  | [], [], _ => trivial
  | (k, x) :: ms, (_, y) :: ns, ⟨rfl, hx, hms⟩ =>
    exact ⟨rfl, Related.mono h hx, RelatedMembers.mono h hms⟩

end

mutual

theorem All.mono (h : ∀ place s, P place s → Q place s) {place : Place} {x : Json F}
    (hx : All P place x) : All Q place x := by
  match x, hx with
  | .str s, hs => exact h place s hs
  | .arr xs, hxs => exact AllItems.mono h hxs
  | .obj ms, hms => exact AllMembers.mono h hms
  | .null, _ | .bool _, _ | .int _, _ | .float _, _ => trivial

theorem AllItems.mono (h : ∀ place s, P place s → Q place s) {place : Place}
    {xs : List (Json F)} (hxs : AllItems P place xs) : AllItems Q place xs := by
  match xs, hxs with
  | [], _ => trivial
  | x :: xs, ⟨hx, hxs⟩ => exact ⟨All.mono h hx, AllItems.mono h hxs⟩

theorem AllMembers.mono (h : ∀ place s, P place s → Q place s) {ms : List (Text × Json F)}
    (hms : AllMembers P ms) : AllMembers Q ms := by
  match ms, hms with
  | [], _ => trivial
  | (k, x) :: ms, ⟨hx, hms⟩ => exact ⟨All.mono h hx, AllMembers.mono h hms⟩

end

end JsonLeaves
