import Mathlib.Algebra.Group.Nat.Defs
import Mathlib.Tactic.SplitIfs
import AiSOC.JsonParser
import AiSOC.JsonWriter

/-! # Reading back what was written

The decoder finds a string behind its opening quote as it was before it was escaped, unless the
string has a surrogate: two of them would be joined. Integers come back as well. -/
namespace JsonRoundTrip

open CodeText JsonText JsonParser JsonWriter

def IsSurrogate (c : CodePoint) : Prop := 0xd800 ≤ c.val ∧ c.val ≤ 0xdfff

variable {c d : CodePoint} {s rest : Text} {n : ℕ}

theorem hexValue_hexDigit : ∀ d : Fin 16, hexValue (hexDigit d) = some d.val := by decide

theorem hexUnit_hexEscape (h : n < 0x10000) (rest : Text) :
    ∃ digits, hexEscape n ++ rest = cp '\\' :: cp 'u' :: digits ∧
      hexUnit digits = some (n, rest) := by
  refine ⟨hexDigit (Fin.ofNat 16 (n / 4096)) :: hexDigit (Fin.ofNat 16 (n / 256)) ::
    hexDigit (Fin.ofNat 16 (n / 16)) :: hexDigit (Fin.ofNat 16 n) :: rest, rfl, ?_⟩
  simp only [hexUnit, hexValue_hexDigit, Option.some.injEq, Prod.mk.injEq, and_true, Fin.ofNat]
  omega

theorem simpleEscape_shortEscape (h : shortEscape c = some d) : simpleEscape d = some c := by
  rw [shortEscape] at h
  split_ifs at h with hself hnewline hreturn htab hform hback
  · obtain rfl := Option.some.inj h
    exact if_pos (hself.imp_right Or.inl)
  · obtain rfl := Option.some.inj h
    rw [hnewline]
    rfl
  · obtain rfl := Option.some.inj h
    rw [hreturn]
    rfl
  · obtain rfl := Option.some.inj h
    rw [htab]
    rfl
  · obtain rfl := Option.some.inj h
    rw [show c = 0x0c from Fin.ext hform]
    rfl
  · obtain rfl := Option.some.inj h
    rw [show c = 0x08 from Fin.ext hback]
    rfl

theorem surrogates_join (h : ¬c.val < 0x10000) :
    Fin.ofNat 0x110000 (0x10000 + (0xd800 + (c.val - 0x10000) / 1024 - 0xd800) * 1024 +
      (0xdc00 + (c.val - 0x10000) % 1024 - 0xdc00)) = c := by
  have hval : 0x10000 + (0xd800 + (c.val - 0x10000) / 1024 - 0xd800) * 1024 +
      (0xdc00 + (c.val - 0x10000) % 1024 - 0xdc00) = c.val := by omega
  rw [hval, Fin.ofNat_val_eq_self]

/-- Two escapes that make a surrogate pair. -/
theorem unescape_pair {high low : ℕ} (hhigh : 0xd800 ≤ high ∧ high ≤ 0xdbff)
    (hlow : 0xdc00 ≤ low ∧ low ≤ 0xdfff) (rest : Text) :
    ∃ t, hexEscape high ++ hexEscape low ++ rest = cp '\\' :: t ∧ unescape t =
      some (Fin.ofNat 0x110000 (0x10000 + (high - 0xd800) * 1024 + (low - 0xdc00)), rest) := by
  have hu : simpleEscape (cp 'u') = none := by decide
  obtain ⟨lowDigits, hlowDigits, hlowUnit⟩ := hexUnit_hexEscape (n := low) (by omega) rest
  obtain ⟨digits, hdigits, hunit⟩ :=
    hexUnit_hexEscape (n := high) (by omega) (cp '\\' :: cp 'u' :: lowDigits)
  refine ⟨cp 'u' :: digits, ?_, ?_⟩
  · rw [List.append_assoc, hlowDigits, hdigits]
  · rw [unescape, hu]
    dsimp only
    rw [if_pos rfl, unicodeEscape, hunit, Option.map_some]
    dsimp only
    rw [if_pos hhigh, lowSurrogate, if_pos ⟨rfl, rfl⟩, hlowUnit]
    dsimp only
    rw [if_pos hlow]

/-- An escape stands for the character that was escaped. -/
theorem unescape_escape (hc : ¬IsSurrogate c) (rest : Text) :
    ∃ t, escape c ++ rest = cp '\\' :: t ∧ unescape t = some (c, rest) := by
  have hu : simpleEscape (cp 'u') = none := by decide
  have hlt := c.isLt
  rw [escape]
  cases hshort : shortEscape c with
  | some d =>
    refine ⟨d :: rest, rfl, ?_⟩
    rw [unescape, simpleEscape_shortEscape hshort]
  | none =>
    dsimp only
    split_ifs with hbmp
    · obtain ⟨digits, hdigits, hunit⟩ := hexUnit_hexEscape hbmp rest
      refine ⟨cp 'u' :: digits, hdigits, ?_⟩
      have hhigh : ¬(0xd800 ≤ c.val ∧ c.val ≤ 0xdbff) := by
        rintro ⟨hlow, hle⟩
        exact hc ⟨hlow, by omega⟩
      rw [unescape, hu]
      dsimp only
      rw [if_pos rfl, unicodeEscape, hunit, Option.map_some]
      dsimp only
      rw [if_neg hhigh]
      rw [Fin.ofNat_val_eq_self]
    · obtain ⟨t, ht, hunescape⟩ := @unescape_pair (0xd800 + (c.val - 0x10000) / 1024)
        (0xdc00 + (c.val - 0x10000) % 1024) ⟨by omega, by omega⟩ ⟨by omega, by omega⟩ rest
      exact ⟨t, ht, by rw [hunescape, surrogates_join hbmp]⟩

/-- A string is read back, with anything after its closing quote. -/
theorem scanString_encode (hs : ∀ c ∈ s, ¬IsSurrogate c) (hn : s.length < n) (rest : Text) :
    scanString n (encode s ++ cp '"' :: rest) = .ok (s, rest) := by
  induction s generalizing n with
  | nil =>
    obtain ⟨n, rfl⟩ := Nat.exists_eq_succ_of_ne_zero (Nat.ne_of_gt hn)
    rw [encode, List.flatMap_nil, List.nil_append, scanString, if_pos rfl]
  | cons c s ih =>
    obtain ⟨hc, hrest⟩ := List.forall_mem_cons.mp hs
    obtain ⟨n, rfl⟩ := Nat.exists_eq_succ_of_ne_zero (Nat.ne_of_gt (Nat.zero_lt_of_lt hn))
    have hscan := ih hrest (Nat.lt_of_succ_lt_succ hn)
    have hcons : encode (c :: s) = encodeChar c ++ encode s := List.flatMap_cons
    rw [hcons, List.append_assoc, encodeChar]
    split_ifs with hplain
    · rw [isPlain, decide_eq_true_iff] at hplain
      have hcontrol : ¬c.val < 0x20 := Nat.not_lt.mpr hplain.1
      rw [List.singleton_append, scanString, if_neg hplain.2.2.1, if_neg hplain.2.2.2,
        if_neg hcontrol, hscan]
      rfl
    · obtain ⟨t, ht, hunescape⟩ := unescape_escape hc (encode s ++ cp '"' :: rest)
      have hquote : cp '\\' ≠ cp '"' := by decide
      rw [ht, scanString, if_neg hquote, if_pos rfl, hunescape]
      dsimp only
      rw [hscan]
      rfl

theorem isDigit_of_mem_digits (hc : c ∈ digits n) : isDigit c = true := by
  obtain ⟨d, hd, rfl⟩ := List.mem_map.mp hc
  have hdigit := Nat.isDigit_of_mem_toDigits (by decide) (by decide) hd
  rw [Char.isDigit, Bool.and_eq_true, decide_eq_true_eq, decide_eq_true_eq] at hdigit
  exact decide_eq_true hdigit

theorem digits_ne_nil (n : ℕ) : digits n ≠ [] := by
  rw [digits, Ne, List.map_eq_nil_iff]
  exact Nat.toDigits_ne_nil

theorem natOf_digits (n : ℕ) : natOf (digits n) = n := by
  rw [natOf, digits, List.foldl_map]
  exact Nat.ofDigitChars_ten_toDigits

theorem decimal_inj {y z : ℤ} (h : decimal y = decimal z) : y = z := by
  have hminus : ∀ n m : ℕ, cp '-' :: digits n ≠ digits m := by
    intro n m heq
    have hmem : cp '-' ∈ digits m := heq ▸ List.mem_cons_self
    exact absurd (isDigit_of_mem_digits hmem) (by decide)
  have hdigits : ∀ n m : ℕ, digits n = digits m → n = m := by
    intro n m heq
    rw [← natOf_digits n, heq, natOf_digits]
  rw [decimal, decimal] at h
  split_ifs at h with hy hz hz
  · have habs := hdigits _ _ (List.cons.inj h).2
    omega
  · exact absurd h (hminus _ _)
  · exact absurd h.symm (hminus _ _)
  · have habs := hdigits _ _ h
    omega

/-- Only zero begins with a zero. -/
theorem digits_head (hn : n ≠ 0) {ds : Text} (h : digits n = c :: ds) : c ≠ cp '0' := by
  induction n using Nat.strong_induction_on generalizing c ds with
  | _ n ih =>
    rw [digits, Nat.toDigits_eq_if (by decide)] at h
    split_ifs at h with hlt
    · have hall : ∀ m : Fin 10, m.val ≠ 0 → cp (Nat.digitChar m.val) ≠ cp '0' := by decide
      rw [← (List.cons.inj h).1]
      exact hall ⟨n, hlt⟩ hn
    · rw [List.map_append, ← digits] at h
      obtain ⟨d, rest, hrest⟩ := List.exists_cons_of_ne_nil (digits_ne_nil (n / 10))
      rw [hrest, List.cons_append] at h
      rw [← (List.cons.inj h).1]
      exact ih (n / 10) (by omega) (by omega) hrest

theorem integerPart_digits (hc : isDigit c = false) :
    integerPart (digits n ++ c :: rest) = some (digits n, c :: rest) := by
  by_cases hn : n = 0
  · subst hn
    rfl
  · obtain ⟨d, ds, hds⟩ := List.exists_cons_of_ne_nil (digits_ne_nil n)
    have hall : ∀ x ∈ d :: ds, isDigit x = true := fun x hx => isDigit_of_mem_digits (hds ▸ hx)
    obtain ⟨hd, hrest⟩ := List.forall_mem_cons.mp hall
    have hstop : ¬isDigit c = true := by rw [hc]; decide
    rw [hds, List.cons_append, integerPart, if_neg (digits_head hn hds), if_pos hd,
      List.takeWhile_append_of_pos hrest, List.dropWhile_append_of_pos hrest,
      List.takeWhile_cons_of_neg hstop, List.dropWhile_cons_of_neg hstop, List.append_nil]

/-- What follows a value in a container. -/
def IsDelimiter (c : CodePoint) : Prop := c = cp ',' ∨ c = cp '}'

theorem scanNumber_digits (negative : Bool) (hc : IsDelimiter c)
    (hn : n < 10 ^ JsonParser.maxIntDigits) :
    scanNumber negative (digits n ++ c :: rest) =
      .ok (.int (if negative then -(n : ℤ) else n), c :: rest) := by
  have hlength : ¬JsonParser.maxIntDigits < (digits n).length := by
    rw [digits, List.length_map, Nat.not_lt,
      Nat.length_toDigits_le_iff (by decide) (by decide)]
    exact hn
  have hdigit : isDigit c = false := by rcases hc with rfl | rfl <;> decide
  have hpoint : c ≠ cp '.' := by rcases hc with rfl | rfl <;> decide
  have hexponent : ¬(c = cp 'e' ∨ c = cp 'E') := by rcases hc with rfl | rfl <;> decide
  have hfraction : fraction (c :: rest) = ([], c :: rest) := if_neg hpoint
  have hexp : exponent (c :: rest) = ([], c :: rest) := by
    cases rest with
    | nil => rfl
    | cons d rest => exact if_neg hexponent
  rw [scanNumber, integerPart_digits hdigit]
  dsimp only
  rw [hfraction]
  dsimp only
  rw [hexp]
  dsimp only
  rw [if_pos ⟨rfl, rfl⟩, if_neg hlength, natOf_digits]

/-- No constant begins with a digit, nor with a minus sign before a digit. -/
theorem find?_constants {t : Text} (hd : isDigit d = true) :
    (constants.find? fun k => k.1 <+: d :: t) = none ∧
      (constants.find? fun k => k.1 <+: cp '-' :: d :: t) = none := by
  have hall : ∀ k ∈ constants, (k.1.head?.all fun x => !isDigit x) = true ∧
      (k.1.head? ≠ some (cp '-') ∨ (k.1.tail.head?.all fun x => !isDigit x) = true) ∧
      2 ≤ k.1.length := by
    decide
  constructor
  · rw [List.find?_eq_none]
    intro k hk hpre
    rw [decide_eq_true_iff] at hpre
    obtain ⟨hhead, -, hlength⟩ := hall k hk
    have hpos : 0 < k.1.length := by omega
    obtain ⟨x, p, hp⟩ := List.exists_cons_of_ne_nil (List.ne_nil_of_length_pos hpos)
    rw [hp, List.cons_prefix_cons] at hpre
    rw [hp, hpre.1] at hhead
    simp [hd] at hhead
  · rw [List.find?_eq_none]
    intro k hk hpre
    rw [decide_eq_true_iff] at hpre
    obtain ⟨-, htail, hlength⟩ := hall k hk
    have hpos : 0 < k.1.length := by omega
    obtain ⟨x, p, hp⟩ := List.exists_cons_of_ne_nil (List.ne_nil_of_length_pos hpos)
    rw [hp, List.length_cons] at hlength
    have hpos' : 0 < p.length := by omega
    obtain ⟨y, q, rfl⟩ := List.exists_cons_of_ne_nil (List.ne_nil_of_length_pos hpos')
    rw [hp, List.cons_prefix_cons, List.cons_prefix_cons] at hpre
    rw [hp, hpre.1, hpre.2.1] at htail
    simp [hd] at htail

theorem scanAtom_decimal (z : ℤ) (hc : IsDelimiter c)
    (hz : z.natAbs < 10 ^ JsonParser.maxIntDigits) :
    scanAtom (decimal z ++ c :: rest) = .ok (.int z, c :: rest) := by
  obtain ⟨d, ds, hds⟩ := List.exists_cons_of_ne_nil (digits_ne_nil z.natAbs)
  have hd : isDigit d = true := isDigit_of_mem_digits (hds ▸ List.mem_cons_self)
  obtain ⟨hplain, hminus⟩ := @find?_constants d (ds ++ c :: rest) hd
  have hsign : d ≠ cp '-' := by
    rintro rfl
    exact absurd hd (by decide)
  rw [decimal]
  split_ifs with hneg
  · have hscan : scanNumber true (digits z.natAbs ++ c :: rest) = _ :=
      scanNumber_digits true hc hz
    rw [hds, List.cons_append] at hscan
    rw [hds, List.cons_append, List.cons_append, scanAtom, hminus]
    dsimp only
    rw [if_pos rfl, hscan, if_pos rfl]
    have hz' : -(z.natAbs : ℤ) = z := by omega
    rw [hz']
  · have hscan : scanNumber false (digits z.natAbs ++ c :: rest) = _ :=
      scanNumber_digits false hc hz
    rw [hds, List.cons_append] at hscan
    rw [hds, List.cons_append, scanAtom, hplain]
    dsimp only
    rw [if_neg hsign, hscan, if_neg Bool.false_ne_true]
    have hz' : (z.natAbs : ℤ) = z := by omega
    rw [hz']

/-- A member of a flat object. -/
inductive Scalar where
  | str (s : Text)
  | int (z : ℤ)

def Scalar.json : Scalar → Json Text
  | .str s => .str s
  | .int z => .int z

/-- The bounds under which a scalar comes back. -/
def Scalar.Readable : Scalar → Prop
  | .str s => ∀ c ∈ s, ¬IsSurrogate c
  | .int z => z.natAbs < 10 ^ JsonParser.maxIntDigits

def quote (s : Text) : Text := cp '"' :: (encode s ++ [cp '"'])

@[grind =]
def writeScalar : Scalar → Text
  | .str s => quote s
  | .int z => decimal z

def writeMember (m : Text × Scalar) : Text := quote m.1 ++ cp ':' :: writeScalar m.2

@[grind =]
def writeMembers : List (Text × Scalar) → Text
  | [] => [cp '}']
  | [m] => writeMember m ++ [cp '}']
  | m :: ms => writeMember m ++ cp ',' :: writeMembers ms

/-- `json.dumps` of an object on one line, without spaces. -/
def writeObject (ms : List (Text × Scalar)) : Text := cp '{' :: writeMembers ms

theorem length_le_encode (s : Text) : s.length ≤ (encode s).length := by
  induction s with
  | nil => exact le_refl _
  | cons c s ih =>
    have hpos : 0 < (encodeChar c).length := by
      rw [encodeChar]
      split_ifs with hplain
      · exact Nat.zero_lt_one
      · rw [escape]
        cases shortEscape c with
        | some d => exact Nat.zero_lt_two
        | none =>
          dsimp only
          split_ifs <;> exact Nat.succ_pos _
    have hcons : encode (c :: s) = encodeChar c ++ encode s := List.flatMap_cons
    rw [hcons, List.length_cons, List.length_append]
    omega

/-- As the decoder bounds the characters of a string. -/
theorem scanString_quote (hs : ∀ c ∈ s, ¬IsSurrogate c) (rest : Text) :
    quote s ++ rest = cp '"' :: (encode s ++ cp '"' :: rest) ∧
      scanString (encode s ++ cp '"' :: rest).length (encode s ++ cp '"' :: rest) =
        .ok (s, rest) := by
  constructor
  · rw [quote, List.cons_append, List.append_assoc, List.singleton_append]
  · apply scanString_encode hs
    have hle := length_le_encode s
    rw [List.length_append, List.length_cons]
    omega

/-- A decimal begins with its sign or a digit. -/
theorem decimal_head (z : ℤ) :
    ∃ d ds, decimal z = d :: ds ∧ (d = cp '-' ∨ isDigit d = true) := by
  rw [decimal]
  split_ifs with hneg
  · exact ⟨cp '-', digits z.natAbs, rfl, Or.inl rfl⟩
  · obtain ⟨d, ds, hds⟩ := List.exists_cons_of_ne_nil (digits_ne_nil z.natAbs)
    exact ⟨d, ds, hds, Or.inr (isDigit_of_mem_digits (hds ▸ List.mem_cons_self))⟩

theorem not_structural (hd : d = cp '-' ∨ isDigit d = true) :
    d ≠ cp '"' ∧ d ≠ cp '[' ∧ d ≠ cp '{' ∧ isJsonSpace d = false := by
  rcases hd with rfl | hd
  · decide
  · rw [isDigit, between, decide_eq_true_iff] at hd
    have hne : ∀ x : CodePoint, x.val < '0'.toNat ∨ '9'.toNat < x.val → d ≠ x := by
      rintro x hx rfl
      omega
    refine ⟨hne _ (by decide), hne _ (by decide), hne _ (by decide), ?_⟩
    rw [isJsonSpace, decide_eq_false_iff_not]
    rintro (h | h | h | h)
    · exact hne _ (by decide) h
    · exact hne _ (by decide) h
    · exact hne _ (by decide) h
    · exact hne _ (by decide) h

theorem skip_cons (h : isJsonSpace c = false) : skip (c :: rest) = c :: rest :=
  List.dropWhile_cons_of_neg (by rw [h]; exact Bool.false_ne_true)

theorem skip_writeScalar (x : Scalar) (rest : Text) :
    skip (writeScalar x ++ rest) = writeScalar x ++ rest := by
  cases x with
  | str s => exact skip_cons (by decide)
  | int z =>
    obtain ⟨d, ds, hds, hd⟩ := decimal_head z
    rw [writeScalar, hds]
    exact skip_cons (not_structural hd).2.2.2

theorem scanValue_writeScalar {inner : Option (Text → Scan (Json Text))} {x : Scalar}
    (hx : x.Readable) (hc : IsDelimiter c) :
    scanValue inner (writeScalar x ++ c :: rest) = .ok (x.json, c :: rest) := by
  cases x with
  | str s =>
    obtain ⟨hquote, hscan⟩ := scanString_quote hx (c :: rest)
    rw [writeScalar, hquote, scanValue.eq_def]
    dsimp only
    rw [if_pos rfl, hscan]
    rfl
  | int z =>
    have hatom : scanAtom (decimal z ++ c :: rest) = _ := scanAtom_decimal z hc hx
    obtain ⟨d, ds, hds, hd⟩ := decimal_head z
    obtain ⟨hquote, harray, hobject, -⟩ := not_structural hd
    rw [hds, List.cons_append] at hatom
    rw [writeScalar, hds, List.cons_append, scanValue.eq_def]
    dsimp only
    rw [if_neg hquote, if_neg harray, if_neg hobject, hatom]
    rfl

theorem scanOnce_writeScalar (depth : ℕ) {x : Scalar} (hx : x.Readable) (hc : IsDelimiter c) :
    scanOnce depth (writeScalar x ++ c :: rest) = .ok (x.json, c :: rest) := by
  cases depth with
  | zero => exact scanValue_writeScalar hx hc
  | succ depth => exact scanValue_writeScalar hx hc

def Readable (m : Text × Scalar) : Prop := (∀ c ∈ m.1, ¬IsSurrogate c) ∧ m.2.Readable

def jsonMember (m : Text × Scalar) : Text × Json Text := (m.1, m.2.json)

theorem scanMember_writeMember (depth : ℕ) {m : Text × Scalar} (hm : Readable m)
    (hc : IsDelimiter c) :
    scanMember (scanOnce depth) (writeMember m ++ c :: rest) = .ok (jsonMember m, c :: rest) := by
  obtain ⟨hquote, hkey⟩ := scanString_quote hm.1 (cp ':' :: (writeScalar m.2 ++ c :: rest))
  have hcolon : isJsonSpace (cp ':') = false := by decide
  rw [writeMember, List.append_assoc, List.cons_append, hquote, scanMember, if_pos rfl, hkey]
  dsimp only [Except.bind]
  rw [skip_cons hcolon]
  dsimp only
  rw [if_pos rfl, skip_writeScalar, scanOnce_writeScalar depth hm.2 hc]
  rfl

theorem skip_writeMembers (ms : List (Text × Scalar)) (rest : Text) :
    skip (writeMembers ms ++ rest) = writeMembers ms ++ rest := by
  match ms with
  | [] => exact skip_cons (by decide)
  | [m] => exact skip_cons (by decide)
  | m :: m' :: ms => exact skip_cons (by decide)

/-- The members are read one by one up to the closing brace. -/
theorem scanSeq_writeMembers (depth : ℕ) {m : Text × Scalar} {ms : List (Text × Scalar)}
    (hm : ∀ x ∈ m :: ms, Readable x) (hn : ms.length < n) (rest : Text) :
    scanSeq (cp '}') (scanMember (scanOnce depth)) n (writeMembers (m :: ms) ++ rest) =
      .ok ((m :: ms).map jsonMember, rest) := by
  have hbrace : isJsonSpace (cp '}') = false := by decide
  have hcomma : isJsonSpace (cp ',') = false := by decide
  have hne : cp ',' ≠ cp '}' := by decide
  induction ms generalizing m n with
  | nil =>
    obtain ⟨n, rfl⟩ := Nat.exists_eq_succ_of_ne_zero (Nat.ne_of_gt hn)
    have hmember := @scanMember_writeMember (cp '}') rest depth m (hm m (by simp)) (Or.inr rfl)
    rw [writeMembers, List.append_assoc, List.singleton_append, scanSeq, hmember]
    dsimp only [Except.bind]
    rw [skip_cons hbrace]
    exact if_pos rfl
  | cons m' ms ih =>
    obtain ⟨hhead, htail⟩ := List.forall_mem_cons.mp hm
    obtain ⟨n, rfl⟩ := Nat.exists_eq_succ_of_ne_zero (Nat.ne_of_gt (Nat.zero_lt_of_lt hn))
    have hmember := @scanMember_writeMember (cp ',') (writeMembers (m' :: ms) ++ rest) depth m
      hhead (Or.inl rfl)
    have hrest := ih htail (Nat.lt_of_succ_lt_succ hn)
    rw [writeMembers, List.append_assoc, List.cons_append, scanSeq, hmember]
    · dsimp only [Except.bind]
      rw [skip_cons hcomma]
      dsimp only
      rw [if_neg hne, if_pos rfl, skip_writeMembers, hrest]
      rfl
    · rintro ⟨⟩

theorem length_le_writeMembers (ms : List (Text × Scalar)) :
    ms.length ≤ (writeMembers ms).length := by
  fun_induction writeMembers ms with
  | case1 => exact Nat.zero_le _
  | case2 m =>
    rw [List.length_append]
    exact Nat.le_add_left _ _
  | case3 m ms hms ih =>
    rw [List.length_cons, List.length_append, List.length_cons]
    omega

/-- A flat object is read back, its members in their order. -/
theorem loads_writeObject (depth : ℕ) {ms : List (Text × Scalar)} (hms : ∀ m ∈ ms, Readable m) :
    loads (depth + 1) (writeObject ms) = .ok (.obj (ms.map jsonMember)) := by
  have hopen : isJsonSpace (cp '{') = false := by decide
  have hclose : isJsonSpace (cp '}') = false := by decide
  have hmark : (writeObject ms).head? ≠ some 0xfeff := by
    rw [writeObject, List.head?_cons]
    decide
  have hquote : cp '{' ≠ cp '"' := by decide
  have harray : cp '{' ≠ cp '[' := by decide
  have hmembers : scanContainer (cp '}') (scanMember (scanOnce depth)) (writeMembers ms) =
      .ok (ms.map jsonMember, []) := by
    cases ms with
    | nil =>
      rw [scanContainer, writeMembers, skip_cons hclose]
      exact if_pos rfl
    | cons m ms =>
      have hskip := skip_writeMembers (m :: ms) []
      have hscan := @scanSeq_writeMembers (writeMembers (m :: ms)).length depth m ms hms
        (length_le_writeMembers (m :: ms)) []
      have hhead : ∃ t, writeMembers (m :: ms) = cp '"' :: t := by
        cases ms with
        | nil => exact ⟨_, rfl⟩
        | cons m' ms => exact ⟨_, rfl⟩
      obtain ⟨t, ht⟩ := hhead
      have hne : cp '"' ≠ cp '}' := by decide
      rw [List.append_nil] at hskip hscan
      rw [scanContainer, hskip]
      rw [ht] at hscan ⊢
      dsimp only
      rw [if_neg hne, hscan]
  rw [loads, if_neg hmark, writeObject, skip_cons hopen, scanOnce, scanValue.eq_def]
  dsimp only
  rw [if_neg hquote, if_neg harray, if_pos rfl, scanObject, hmembers]
  rfl

/-- What is written is ASCII without zero characters. -/
def IsAscii (c : CodePoint) : Prop := c.val < 0x80 ∧ c.val ≠ 0

instance (c : CodePoint) : Decidable (IsAscii c) := inferInstanceAs (Decidable (_ ∧ _))

theorem isAscii_hexEscape (hc : c ∈ hexEscape n) : IsAscii c := by
  have hdigit : ∀ d, IsAscii (hexDigit d) := by decide
  simp only [hexEscape, List.mem_cons, List.not_mem_nil, or_false] at hc
  rcases hc with rfl | rfl | rfl | rfl | rfl | rfl
  · decide
  · decide
  · exact hdigit _
  · exact hdigit _
  · exact hdigit _
  · exact hdigit _

theorem isAscii_encodeChar (hd : d ∈ encodeChar c) : IsAscii d := by
  rw [encodeChar] at hd
  split_ifs at hd with hplain
  · obtain rfl := List.mem_singleton.mp hd
    rw [isPlain, decide_eq_true_iff] at hplain
    exact ⟨by omega, by omega⟩
  · rw [escape] at hd
    cases hshort : shortEscape c with
    | some e =>
      rw [hshort] at hd
      rcases List.mem_cons.mp hd with rfl | hd
      · decide
      · obtain rfl := List.mem_singleton.mp hd
        rw [shortEscape] at hshort
        split_ifs at hshort with hself
        · obtain rfl := Option.some.inj hshort
          rcases hself with rfl | rfl <;> decide
        all_goals
          obtain rfl := Option.some.inj hshort
          decide
    | none =>
      rw [hshort] at hd
      dsimp only at hd
      split_ifs at hd
      · exact isAscii_hexEscape hd
      · rcases List.mem_append.mp hd with hd | hd <;> exact isAscii_hexEscape hd

theorem isAscii_quote (s : Text) : ∀ c ∈ quote s, IsAscii c := by
  intro c hc
  rcases List.mem_cons.mp hc with rfl | hc
  · decide
  · rcases List.mem_append.mp hc with hc | hc
    · obtain ⟨d, -, hd⟩ := List.mem_flatMap.mp hc
      exact isAscii_encodeChar hd
    · obtain rfl := List.mem_singleton.mp hc
      decide

theorem isAscii_digits (n : ℕ) : ∀ c ∈ digits n, IsAscii c := by
  intro c hc
  have hdigit := isDigit_of_mem_digits hc
  rw [isDigit, between, decide_eq_true_iff] at hdigit
  have hlow : '0'.toNat = 48 := rfl
  have hhigh : '9'.toNat = 57 := rfl
  exact ⟨by omega, by omega⟩

theorem isAscii_writeScalar (x : Scalar) : ∀ c ∈ writeScalar x, IsAscii c := by
  cases x with
  | str s => exact isAscii_quote s
  | int z =>
    rw [writeScalar, decimal]
    split_ifs
    · exact List.forall_mem_cons.mpr ⟨by decide, isAscii_digits _⟩
    · exact isAscii_digits _

theorem isAscii_writeMember (m : Text × Scalar) : ∀ c ∈ writeMember m, IsAscii c :=
  List.forall_mem_append.mpr ⟨isAscii_quote m.1,
    List.forall_mem_cons.mpr ⟨by decide, isAscii_writeScalar m.2⟩⟩

theorem isAscii_writeObject (ms : List (Text × Scalar)) : ∀ c ∈ writeObject ms, IsAscii c := by
  have hbrace : ∀ c ∈ [cp '}'], IsAscii c := List.forall_mem_singleton.mpr (by decide)
  have hmembers : ∀ c ∈ writeMembers ms, IsAscii c := by
    fun_induction writeMembers ms with
    | case1 => exact hbrace
    | case2 m => exact List.forall_mem_append.mpr ⟨isAscii_writeMember m, hbrace⟩
    | case3 m ms hms ih =>
      exact List.forall_mem_append.mpr
        ⟨isAscii_writeMember m, List.forall_mem_cons.mpr ⟨by decide, ih⟩⟩
  exact List.forall_mem_cons.mpr ⟨by decide, hmembers⟩

end JsonRoundTrip
