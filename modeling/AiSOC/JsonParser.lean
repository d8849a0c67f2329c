import AiSOC.JsonText

/-! # Reading a JSON text

The decoder of the standard library: one value with white space around it, strings without raw
control characters, `NaN` and the infinities among the numbers. Containers nest as deep as the
interpreter's recursion allows. A float is kept as it is written; an object keeps all members
that are written. -/
namespace JsonParser

open CodeText JsonText

/-- `decode` is a `ValueError`: the text is no JSON or has an integer that is too long.
`recursion` is a `RecursionError`. -/
inductive LoadError where
  | decode
  | recursion
  deriving DecidableEq, Repr

/-- What is left of the text after the part that was read. -/
abbrev Scan (β : Type) := Except LoadError (β × Text)

def maxIntDigits : ℕ := 4300

def isJsonSpace (c : CodePoint) : Bool :=
  c = cp ' ' ∨ c = cp '\t' ∨ c = cp '\n' ∨ c = cp '\r'

def skip (t : Text) : Text := t.dropWhile isJsonSpace

def isDigit (c : CodePoint) : Bool := between '0' '9' c

def hexValue (c : CodePoint) : Option ℕ :=
  if isDigit c then some (c.val - '0'.toNat)
  else if between 'a' 'f' c then some (c.val - 'a'.toNat + 10)
  else if between 'A' 'F' c then some (c.val - 'A'.toNat + 10)
  else none

/-- The value of the four digits that a text begins with, and the text after them. -/
def hexUnit : Text → Option (ℕ × Text)
  | a :: b :: c :: d :: t =>
    match hexValue a, hexValue b, hexValue c, hexValue d with
    | some a, some b, some c, some d => some (a * 4096 + b * 256 + c * 16 + d, t)
    | _, _, _, _ => none
  | _ => none

/-- The second half of a surrogate pair, if an escape for one follows. -/
def lowSurrogate : Text → Option (ℕ × Text)
  | a :: b :: t =>
    if a = cp '\\' ∧ b = cp 'u' then
      match hexUnit t with
      | some (n, t) => if 0xdc00 ≤ n ∧ n ≤ 0xdfff then some (n, t) else none
      | none => none
    else none
  | _ => none

def simpleEscape (c : CodePoint) : Option CodePoint :=
  if c = cp '"' ∨ c = cp '\\' ∨ c = cp '/' then some c
  else if c = cp 'b' then some 0x08
  else if c = cp 'f' then some 0x0c
  else if c = cp 'n' then some (cp '\n')
  else if c = cp 'r' then some (cp '\r')
  else if c = cp 't' then some (cp '\t')
  else none

/-- The code point of four digits, or of two escapes that make a surrogate pair. -/
def unicodeEscape (t : Text) : Option (CodePoint × Text) :=
  (hexUnit t).map fun (n, t) =>
    match if 0xd800 ≤ n ∧ n ≤ 0xdbff then lowSurrogate t else none with
    | some (low, t) =>
      (Fin.ofNat 0x110000 (0x10000 + (n - 0xd800) * 1024 + (low - 0xdc00)), t)
    | none => (Fin.ofNat 0x110000 n, t)

/-- What an escape after its backslash stands for. -/
def unescape : Text → Option (CodePoint × Text)
  | [] => none
  | c :: t =>
    match simpleEscape c with
    | some d => some (d, t)
    | none => if c = cp 'u' then unicodeEscape t else none

/-- The rest of a string after its opening quote. The number bounds the characters. -/
def scanString : ℕ → Text → Scan Text
  | 0, _ => .error .decode
  | _ + 1, [] => .error .decode
  | n + 1, c :: t =>
    if c = cp '"' then .ok ([], t)
    else if c = cp '\\' then
      match unescape t with
      | none => .error .decode
      | some (d, t) => (scanString n t).bind fun (s, t) => .ok (d :: s, t)
    else if c.val < 0x20 then .error .decode
    else (scanString n t).bind fun (s, t) => .ok (c :: s, t)

/-- The integer part of a number without its sign. -/
def integerPart : Text → Option (Text × Text)
  | [] => none
  | c :: t =>
    if c = cp '0' then some ([c], t)
    else if isDigit c then some (c :: t.takeWhile isDigit, t.dropWhile isDigit)
    else none

/-- A part of a number that begins with one of two characters: its digits are there or the part
is not. -/
def digitsAfter (lead : Text) (t : Text) : Text × Text :=
  match t.takeWhile isDigit with
  | [] => ([], lead ++ t)
  | ds => (lead ++ ds, t.dropWhile isDigit)

def fraction : Text → Text × Text
  | [] => ([], [])
  | c :: t => if c = cp '.' then digitsAfter [c] t else ([], c :: t)

def exponent : Text → Text × Text
  | [] => ([], [])
  | [c] => ([], [c])
  | c :: d :: t =>
    if c = cp 'e' ∨ c = cp 'E' then
      if d = cp '+' ∨ d = cp '-' then digitsAfter [c, d] t else digitsAfter [c] (d :: t)
    else ([], c :: d :: t)

def natOf (ds : Text) : ℕ := ds.foldl (fun n c => 10 * n + (c.val - '0'.toNat)) 0

def scanNumber (negative : Bool) (t : Text) : Scan (Json Text) :=
  match integerPart t with
  | none => .error .decode
  | some (ds, t) =>
    let (frac, t) := fraction t
    let (exp, t) := exponent t
    if frac = [] ∧ exp = [] then
      if maxIntDigits < ds.length then .error .decode
      else .ok (.int (if negative then -(natOf ds : ℤ) else natOf ds), t)
    else .ok (.float ((if negative then [cp '-'] else []) ++ ds ++ frac ++ exp), t)

def constants : List (Text × Json Text) :=
  [(text "null", .null), (text "true", .bool true), (text "false", .bool false),
    (text "NaN", .float (text "NaN")), (text "Infinity", .float (text "Infinity")),
    (text "-Infinity", .float (text "-Infinity"))]

/-- The constants and the numbers. -/
def scanAtom (t : Text) : Scan (Json Text) :=
  match constants.find? (fun k => k.1 <+: t) with
  | some (word, x) => .ok (x, t.drop word.length)
  | none =>
    match t with
    | [] => .error .decode
    | c :: t => if c = cp '-' then scanNumber true t else scanNumber false (c :: t)

/-- What a container holds, separated by commas, up to its closing bracket. The number bounds
the members. -/
def scanSeq {β : Type} (close : CodePoint) (scan : Text → Scan β) : ℕ → Text → Scan (List β)
  | 0, _ => .error .decode
  | n + 1, t => (scan t).bind fun (x, t) =>
    match skip t with
    | [] => .error .decode
    | c :: t =>
      if c = close then .ok ([x], t)
      else if c = cp ',' then
        (scanSeq close scan n (skip t)).bind fun (xs, t) => .ok (x :: xs, t)
      else .error .decode

/-- One member of an object, and the text after it. -/
def scanMember (scan : Text → Scan (Json Text)) (t : Text) : Scan (Text × Json Text) :=
  match t with
  | [] => .error .decode
  | c :: t =>
    if c = cp '"' then (scanString t.length t).bind fun (k, t) =>
      match skip t with
      | [] => .error .decode
      | c :: t =>
        if c = cp ':' then (scan (skip t)).bind fun (x, t) => .ok ((k, x), t)
        else .error .decode
    else .error .decode

/-- A container after its opening bracket. -/
def scanContainer {β : Type} (close : CodePoint) (scan : Text → Scan β) (t : Text) :
    Scan (List β) :=
  match skip t with
  | [] => .error .decode
  | c :: t => if c = close then .ok ([], t) else scanSeq close scan (c :: t).length (c :: t)

def scanArray (scan : Text → Scan (Json Text)) (t : Text) : Scan (Json Text) :=
  (scanContainer (cp ']') scan t).bind fun (xs, t) => .ok (.arr xs, t)

def scanObject (scan : Text → Scan (Json Text)) (t : Text) : Scan (Json Text) :=
  (scanContainer (cp '}') (scanMember scan) t).bind fun (ms, t) => .ok (.obj ms, t)

/-- A value, with the scanner for the values inside a container; `none` is one that the
recursion does not allow. -/
def scanValue (inner : Option (Text → Scan (Json Text))) (t : Text) : Scan (Json Text) :=
  match t with
  | [] => .error .decode
  | c :: t =>
    if c = cp '"' then (scanString t.length t).bind fun (s, t) => .ok (.str s, t)
    else if c = cp '[' then
      match inner with
      | none => .error .recursion
      | some scan => scanArray scan t
    else if c = cp '{' then
      match inner with
      | none => .error .recursion
      | some scan => scanObject scan t
    else scanAtom (c :: t)

/-- `depth` is how deep containers may nest. -/
def scanOnce : ℕ → Text → Scan (Json Text)
  | 0 => scanValue none
  | depth + 1 => scanValue (some (scanOnce depth))

def loads (depth : ℕ) (t : Text) : Except LoadError (Json Text) :=
  if t.head? = some 0xfeff then .error .decode
  else (scanOnce depth (skip t)).bind fun (x, rest) =>
    if skip rest = [] then .ok x else .error .decode

/-- What is left is shorter than what was there. -/
def Progress {β : Type} (scan : Text → Scan β) : Prop :=
  ∀ t x rest, scan t = .ok (x, rest) → rest.length < t.length

theorem bind_ok {ε β γ : Type} {x : Except ε β} {f : β → Except ε γ} {y : γ}
    (h : x.bind f = .ok y) : ∃ z, x = .ok z ∧ f z = .ok y := by
  cases x with
  | error e => cases h
  | ok z => exact ⟨z, rfl, h⟩

theorem skip_length_le (t : Text) : (skip t).length ≤ t.length :=
  List.length_dropWhile_le isJsonSpace t

theorem hexUnit_length {t rest : Text} {n : ℕ} (h : hexUnit t = some (n, rest)) :
    rest.length < t.length := by
  unfold hexUnit at h
  split at h
  · split at h
    · cases h
      simp only [List.length_cons]
      omega
    · cases h
  · cases h

theorem lowSurrogate_length {t rest : Text} {n : ℕ} (h : lowSurrogate t = some (n, rest)) :
    rest.length < t.length := by
  unfold lowSurrogate at h
  split at h
  · split at h
    · split at h
      · rename_i hunit
        split at h
        · cases h
          have hlen := hexUnit_length hunit
          simp only [List.length_cons]
          omega
        · cases h
      · cases h
    · cases h
  · cases h

theorem unicodeEscape_length {t rest : Text} {c : CodePoint}
    (h : unicodeEscape t = some (c, rest)) : rest.length < t.length := by
  obtain ⟨⟨n, u⟩, hunit, h⟩ := Option.map_eq_some_iff.mp h
  have hlen := hexUnit_length hunit
  simp only at h
  split at h
  · rename_i low v hlow
    split at hlow
    · have hlow := lowSurrogate_length hlow
      rw [← (Prod.mk.inj h).2]
      omega
    · cases hlow
  · rw [← (Prod.mk.inj h).2]
    exact hlen

theorem unescape_length {t rest : Text} {c : CodePoint} (h : unescape t = some (c, rest)) :
    rest.length < t.length := by
  cases t with
  | nil => cases h
  | cons d t =>
    simp only [unescape] at h
    rw [List.length_cons]
    split at h
    · cases h
      omega
    · split at h
      · have hlen := unicodeEscape_length h
        omega
      · cases h

theorem scanString_progress (n : ℕ) : Progress (scanString n) := by
  induction n with
  | zero =>
    intro t s rest h
    cases h
  | succ n ih =>
    intro t s rest h
    cases t with
    | nil => cases h
    | cons c t =>
      simp only [scanString] at h
      rw [List.length_cons]
      split at h
      · cases h
        omega
      · split at h
        · split at h
          · cases h
          · rename_i hescape
            obtain ⟨⟨s', rest'⟩, hscan, heq⟩ := bind_ok h
            cases heq
            have hlen := ih _ _ _ hscan
            have hlen' := unescape_length hescape
            simp only
            omega
        · split at h
          · cases h
          · obtain ⟨⟨s', rest'⟩, hscan, heq⟩ := bind_ok h
            cases heq
            have hlen := ih _ _ _ hscan
            simp only
            omega

/-- More than one step for each character changes nothing. -/
theorem scanString_enough {n m : ℕ} {t : Text} (hn : t.length ≤ n) (hm : t.length ≤ m) :
    scanString n t = scanString m t := by
  induction n generalizing m t with
  | zero =>
    obtain rfl := List.length_eq_zero_iff.mp (Nat.le_zero.mp hn)
    cases m <;> rfl
  | succ n ih =>
    cases t with
    | nil => cases m <;> rfl
    | cons c t =>
      rw [List.length_cons] at hn hm
      obtain ⟨m, rfl⟩ : ∃ k, m = k + 1 := ⟨m - 1, by omega⟩
      simp only [scanString]
      rw [ih (t := t) (m := m) (by omega) (by omega)]
      split
      · rfl
      · split
        · split
          · rfl
          · rename_i hescape
            have hlen := unescape_length hescape
            rw [ih (m := m) (by omega) (by omega)]
        · rfl

theorem scanSeq_progress {β : Type} {close : CodePoint} {scan : Text → Scan β}
    (hscan : Progress scan) (n : ℕ) : Progress (scanSeq close scan n) := by
  induction n with
  | zero =>
    intro t xs rest h
    cases h
  | succ n ih =>
    intro t xs rest h
    obtain ⟨⟨x, u⟩, hx, h⟩ := bind_ok h
    have hlen := hscan _ _ _ hx
    have hskip := skip_length_le u
    simp only at h
    split at h
    · cases h
    · rename_i c v hv
      rw [hv, List.length_cons] at hskip
      split at h
      · cases h
        omega
      · split at h
        · obtain ⟨⟨ys, w⟩, hys, heq⟩ := bind_ok h
          cases heq
          have hrest := ih _ _ _ hys
          have hskip' := skip_length_le v
          simp only
          omega
        · cases h

/-- As for strings: one step for each character is enough. -/
theorem scanSeq_enough {β : Type} {close : CodePoint} {scan : Text → Scan β}
    (hscan : Progress scan) (hnil : scan [] = .error .decode) {n m : ℕ} {t : Text}
    (hn : t.length ≤ n) (hm : t.length ≤ m) : scanSeq close scan n t = scanSeq close scan m t := by
  have hend : ∀ k, scanSeq close scan k [] = .error .decode := by
    intro k
    cases k with
    | zero => rfl
    | succ k => simp only [scanSeq, hnil, Except.bind]
  induction n generalizing m t with
  | zero =>
    obtain rfl := List.length_eq_zero_iff.mp (Nat.le_zero.mp hn)
    rw [hend, hend]
  | succ n ih =>
    cases t with
    | nil => rw [hend, hend]
    | cons c t =>
      obtain ⟨m, rfl⟩ : ∃ k, m = k + 1 := ⟨m - 1, by rw [List.length_cons] at hm; omega⟩
      simp only [scanSeq]
      cases hx : scan (c :: t) with
      | error e => rfl
      | ok r =>
        obtain ⟨x, u⟩ := r
        have hlen := hscan _ _ _ hx
        have hskip := skip_length_le u
        simp only [Except.bind]
        split
        · rfl
        · rename_i d v hv
          have hskip' := skip_length_le v
          rw [hv, List.length_cons] at hskip
          rw [ih (t := skip v) (m := m) (by omega) (by omega)]

theorem digitsAfter_length_le (lead t : Text) :
    (digitsAfter lead t).2.length ≤ lead.length + t.length := by
  simp only [digitsAfter]
  split
  · rw [List.length_append]
  · have hlen := List.length_dropWhile_le isDigit t
    simp only
    omega

theorem fraction_length_le (t : Text) : (fraction t).2.length ≤ t.length := by
  cases t with
  | nil => exact le_refl _
  | cons c t =>
    simp only [fraction]
    split
    · have hlen := digitsAfter_length_le [c] t
      simp only [List.length_cons, List.length_nil] at hlen ⊢
      omega
    · exact le_refl _

theorem exponent_length_le (t : Text) : (exponent t).2.length ≤ t.length := by
  match t with
  | [] => exact le_refl _
  | [c] => exact le_refl _
  | c :: d :: t =>
    simp only [exponent]
    split
    · split
      · have hlen := digitsAfter_length_le [c, d] t
        simp only [List.length_cons, List.length_nil] at hlen ⊢
        omega
      · have hlen := digitsAfter_length_le [c] (d :: t)
        simp only [List.length_cons, List.length_nil] at hlen ⊢
        omega
    · exact le_refl _

theorem integerPart_length {t ds rest : Text} (h : integerPart t = some (ds, rest)) :
    rest.length < t.length := by
  cases t with
  | nil => cases h
  | cons c t =>
    simp only [integerPart] at h
    rw [List.length_cons]
    split at h
    · cases h
      omega
    · split at h
      · cases h
        have hlen := List.length_dropWhile_le isDigit t
        omega
      · cases h

theorem scanNumber_progress (negative : Bool) : Progress (scanNumber negative) := by
  intro t x rest h
  simp only [scanNumber] at h
  split at h
  · cases h
  · rename_i ds u hint
    have hlen := integerPart_length hint
    have hfraction := fraction_length_le u
    have hexponent := exponent_length_le (fraction u).2
    split at h
    · split at h
      · cases h
      · cases h
        omega
    · cases h
      omega

theorem constants_pos : ∀ k ∈ constants, 0 < k.1.length := by
  intro k hk
  simp only [constants, List.mem_cons, List.not_mem_nil, or_false] at hk
  rcases hk with rfl | rfl | rfl | rfl | rfl | rfl <;> decide

theorem scanAtom_progress : Progress scanAtom := by
  intro t x rest h
  simp only [scanAtom] at h
  split at h
  · rename_i word y hword
    have hpre := List.find?_some hword
    have hpos := constants_pos _ (List.mem_of_find?_eq_some hword)
    simp only [decide_eq_true_eq] at hpre hpos
    have hlen := hpre.length_le
    cases h
    rw [List.length_drop]
    omega
  · cases t with
    | nil => cases h
    | cons c t =>
      simp only at h
      split at h
      · have hlen := scanNumber_progress true _ _ _ h
        rw [List.length_cons]
        omega
      · exact scanNumber_progress false _ _ _ h

theorem scanMember_progress {scan : Text → Scan (Json Text)} (hscan : Progress scan) :
    Progress (scanMember scan) := by
  intro t m rest h
  cases t with
  | nil => cases h
  | cons c t =>
    simp only [scanMember] at h
    rw [List.length_cons]
    split at h
    · obtain ⟨⟨k, u⟩, hkey, h⟩ := bind_ok h
      have hlen := scanString_progress _ _ _ _ hkey
      have hskip := skip_length_le u
      simp only at h
      split at h
      · cases h
      · rename_i d v hv
        rw [hv, List.length_cons] at hskip
        split at h
        · obtain ⟨⟨x, w⟩, hx, heq⟩ := bind_ok h
          cases heq
          have hrest := hscan _ _ _ hx
          have hskip' := skip_length_le v
          simp only
          omega
        · cases h
    · cases h

theorem scanContainer_progress {β : Type} {close : CodePoint} {scan : Text → Scan β}
    (hscan : Progress scan) : Progress (scanContainer close scan) := by
  intro t xs rest h
  have hskip := skip_length_le t
  simp only [scanContainer] at h
  split at h
  · cases h
  · rename_i c u hu
    rw [hu, List.length_cons] at hskip
    split at h
    · cases h
      omega
    · have hlen := scanSeq_progress hscan _ _ _ _ h
      rw [List.length_cons] at hlen
      omega

theorem scanArray_progress {scan : Text → Scan (Json Text)} (hscan : Progress scan) :
    Progress (scanArray scan) := by
  intro t x rest h
  obtain ⟨⟨xs, u⟩, hxs, heq⟩ := bind_ok h
  cases heq
  exact scanContainer_progress hscan _ _ _ hxs

theorem scanObject_progress {scan : Text → Scan (Json Text)} (hscan : Progress scan) :
    Progress (scanObject scan) := by
  intro t x rest h
  obtain ⟨⟨ms, u⟩, hms, heq⟩ := bind_ok h
  cases heq
  exact scanContainer_progress (scanMember_progress hscan) _ _ _ hms

theorem scanValue_progress {inner : Option (Text → Scan (Json Text))}
    (hinner : ∀ scan ∈ inner, Progress scan) : Progress (scanValue inner) := by
  intro t x rest h
  cases t with
  | nil => cases h
  | cons c t =>
    simp only [scanValue] at h
    rw [List.length_cons]
    split at h
    · obtain ⟨⟨s, u⟩, hs, heq⟩ := bind_ok h
      cases heq
      have hlen := scanString_progress _ _ _ _ hs
      simp only
      omega
    · split at h
      · cases inner with
        | none => cases h
        | some scan =>
          have hlen := scanArray_progress (hinner scan rfl) _ _ _ h
          omega
      · split at h
        · cases inner with
          | none => cases h
          | some scan =>
            have hlen := scanObject_progress (hinner scan rfl) _ _ _ h
            omega
        · have hlen := scanAtom_progress _ _ _ h
          rwa [List.length_cons] at hlen

/-- Reading a value always takes something from the text, however deep it is. -/
theorem scanOnce_progress (depth : ℕ) : Progress (scanOnce depth) := by
  induction depth with
  | zero =>
    apply scanValue_progress
    intro scan hscan
    cases hscan
  | succ depth ih =>
    apply scanValue_progress
    intro scan hscan
    cases hscan
    exact ih

theorem scanOnce_nil (depth : ℕ) : scanOnce depth [] = .error .decode := by
  cases depth <;> rfl

/-- The bounds on the loops are never reached: any larger ones give the same. -/
theorem containers_enough (depth : ℕ) {n : ℕ} {t : Text} (hn : t.length ≤ n) :
    scanSeq (cp ']') (scanOnce depth) n t = scanSeq (cp ']') (scanOnce depth) t.length t ∧
    scanSeq (cp '}') (scanMember (scanOnce depth)) n t =
      scanSeq (cp '}') (scanMember (scanOnce depth)) t.length t := by
  have hscan := scanOnce_progress depth
  exact ⟨scanSeq_enough hscan (scanOnce_nil depth) hn (le_refl _),
    scanSeq_enough (scanMember_progress hscan) rfl hn (le_refl _)⟩

theorem loads_nil (depth : ℕ) : loads depth [] = .error .decode := by
  simp only [loads, List.head?_nil, reduceCtorEq, if_false]
  change (scanOnce depth []).bind _ = _
  rw [scanOnce_nil]
  rfl

theorem scanNumber_not_container {negative : Bool} {t rest : Text} {x : Json Text}
    (h : scanNumber negative t = .ok (x, rest)) : isContainer x = false := by
  simp only [scanNumber] at h
  split at h
  · cases h
  · split at h
    · split at h
      · cases h
      · cases h
        rfl
    · cases h
      rfl

theorem scanAtom_not_container {t rest : Text} {x : Json Text}
    (h : scanAtom t = .ok (x, rest)) : isContainer x = false := by
  simp only [scanAtom] at h
  split at h
  · rename_i word y hword
    have hall : constants.all (fun k => !isContainer k.2) = true := rfl
    have hy := List.all_eq_true.mp hall _ (List.mem_of_find?_eq_some hword)
    cases h
    rwa [Bool.not_eq_true'] at hy
  · cases t with
    | nil => cases h
    | cons c t =>
      simp only at h
      split at h
      · exact scanNumber_not_container h
      · exact scanNumber_not_container h

/-- A container begins with its bracket. -/
theorem loads_container {depth : ℕ} {c : CodePoint} {t : Text} {x : Json Text}
    (h : loads depth (c :: t) = .ok x) (hspace : isJsonSpace c = false)
    (hx : isContainer x = true) : c = cp '[' ∨ c = cp '{' := by
  simp only [loads] at h
  split at h
  · cases h
  · have hskip : skip (c :: t) = c :: t := by
      simp only [skip, List.dropWhile_cons, hspace, Bool.false_eq_true, if_false]
    rw [hskip] at h
    obtain ⟨⟨y, rest⟩, hscan, h⟩ := bind_ok h
    simp only at h
    split at h
    · cases h
      have hvalue : ∃ inner, scanValue inner (c :: t) = .ok (x, rest) := by
        cases depth with
        | zero => exact ⟨_, hscan⟩
        | succ depth => exact ⟨_, hscan⟩
      obtain ⟨inner, hvalue⟩ := hvalue
      simp only [scanValue] at hvalue
      split at hvalue
      · obtain ⟨⟨s, u⟩, -, heq⟩ := bind_ok hvalue
        cases heq
        cases hx
      · split at hvalue
        · rename_i hc
          exact Or.inl hc
        · split at hvalue
          · rename_i hc
            exact Or.inr hc
          · rw [scanAtom_not_container hvalue] at hx
            cases hx
    · cases h

end JsonParser
