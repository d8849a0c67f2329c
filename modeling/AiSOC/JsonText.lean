import AiSOC.CodeText

/-! # JSON values

Objects are lists of members in their order; nothing keeps two of them from having the same
key. -/
namespace JsonText

open CodeText

/-- `F` are the floating-point numbers. -/
inductive Json (F : Type) where
  | null
  | bool (b : Bool)
  | int (n : ℤ)
  | float (x : F)
  | str (s : Text)
  | arr (items : List (Json F))
  | obj (members : List (Text × Json F))

variable {F : Type}

def isContainer : Json F → Bool
  | .arr _ | .obj _ => true
  | _ => false

/-- The truth of a value in the interpreter, where `nonzero` is the truth of a float. -/
def truthy (nonzero : F → Bool) : Json F → Bool
  | .null => false
  | .bool b => b
  | .int n => n ≠ 0
  | .float x => nonzero x
  | .str s => s ≠ []
  | .arr items => !items.isEmpty
  | .obj members => !members.isEmpty

/-- The last of two members with one key counts. -/
def member (members : List (Text × Json F)) (key : Text) : Option (Json F) :=
  members.reverse.lookup key

mutual

/-- An object somewhere in the value has a key of the set. -/
def hasKey (keys : Text → Bool) : Json F → Bool
  | .arr items => hasKeyItems keys items
  | .obj members => hasKeyMembers keys members
  | _ => false

def hasKeyItems (keys : Text → Bool) : List (Json F) → Bool
  | [] => false
  | x :: xs => hasKey keys x || hasKeyItems keys xs

def hasKeyMembers (keys : Text → Bool) : List (Text × Json F) → Bool
  | [] => false
  | (k, x) :: ms => keys k || hasKey keys x || hasKeyMembers keys ms

end

theorem hasKeyItems_iff {keys : Text → Bool} {items : List (Json F)} :
    hasKeyItems keys items = true ↔ ∃ x ∈ items, hasKey keys x = true := by
  induction items with
  | nil => simp [hasKeyItems]
  | cons x xs ih => simp [hasKeyItems, ih]

theorem hasKeyMembers_iff {keys : Text → Bool} {members : List (Text × Json F)} :
    hasKeyMembers keys members = true ↔
      ∃ m ∈ members, keys m.1 = true ∨ hasKey keys m.2 = true := by
  induction members with
  | nil => simp [hasKeyMembers]
  | cons m ms ih => simp [hasKeyMembers, ih]

end JsonText
