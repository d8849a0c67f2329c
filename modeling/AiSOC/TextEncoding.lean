import Mathlib.Tactic.SplitIfs
import AiSOC.ByteText
import AiSOC.CodeText

/-! # Text from bytes

How the standard library's JSON decoder reads bytes: the encoding is recognised by its mark or
by the zero bytes among the first four, and surrogates pass. Strings are encoded without them. -/
namespace TextEncoding

open ByteText CodeText

def codePoint (n : ℕ) : Option CodePoint := if h : n < 0x110000 then some ⟨n, h⟩ else none

/-- What a first byte begins: how many bytes follow it, the bits that it has, and the least number
that needs so many bytes. -/
def leadByte (b : ℕ) : Option (ℕ × ℕ × ℕ) :=
  if 0xc2 ≤ b ∧ b ≤ 0xdf then some (1, b - 0xc0, 0x80)
  else if 0xe0 ≤ b ∧ b ≤ 0xef then some (2, b - 0xe0, 0x800)
  else if 0xf0 ≤ b ∧ b ≤ 0xf4 then some (3, b - 0xf0, 0x10000)
  else none

/-- `need` bytes are still to come of a character that has the bits `bits` so far. -/
def utf8From (need bits low : ℕ) : Bytes → Option Text
  | [] => if need = 0 then some [] else none
  | b :: rest =>
    match need with
    | 0 =>
      if b.toNat < 0x80 then (utf8From 0 0 0 rest).map (Fin.ofNat 0x110000 b.toNat :: ·)
      else (leadByte b.toNat).bind fun (need, bits, low) => utf8From need bits low rest
    | need + 1 =>
      if 0x80 ≤ b.toNat ∧ b.toNat < 0xc0 then
        let bits := bits * 64 + (b.toNat - 0x80)
        if need = 0 then
          if low ≤ bits then (codePoint bits).bind fun c => (utf8From 0 0 0 rest).map (c :: ·)
          else none
        else utf8From need bits low rest
      else none

def utf8 (data : Bytes) : Option Text := utf8From 0 0 0 data

/-- The bytes of a character; the last six bits of each that follows the first are its own. -/
def encodeChar (c : CodePoint) : Option Bytes :=
  let next (n : ℕ) := UInt8.ofNat (0x80 + n % 64)
  if c.val < 0x80 then some [UInt8.ofNat c.val]
  else if c.val < 0x800 then some [UInt8.ofNat (0xc0 + c.val / 64), next c.val]
  else if 0xd800 ≤ c.val ∧ c.val ≤ 0xdfff then none
  else if c.val < 0x10000 then
    some [UInt8.ofNat (0xe0 + c.val / 4096), next (c.val / 64), next c.val]
  else
    some [UInt8.ofNat (0xf0 + c.val / 262144), next (c.val / 4096), next (c.val / 64), next c.val]

/-- A text with a lone surrogate is not encoded. -/
def encodeUtf8 (t : Text) : Option Bytes := (t.mapM encodeChar).map List.flatten

def isSurrogate (c : CodePoint) : Bool := 0xd800 ≤ c.val ∧ c.val ≤ 0xdfff

/-- Without the surrogates that the lenient decoder lets pass. -/
def decodeUtf8 (data : Bytes) : Option Text := (utf8 data).filter fun t => !t.any isSurrogate

/-- The numbers that two bytes make. -/
def units (bigEndian : Bool) : Bytes → Option (List ℕ)
  | [] => some []
  | [_] => none
  | a :: b :: rest => (units bigEndian rest).map
      ((if bigEndian then a.toNat * 256 + b.toNat else b.toNat * 256 + a.toNat) :: ·)

/-- Two surrogates that belong together are one character. -/
def joinSurrogates : List ℕ → List ℕ
  | [] => []
  | [n] => [n]
  | n :: m :: rest =>
    if (0xd800 ≤ n ∧ n ≤ 0xdbff) ∧ 0xdc00 ≤ m ∧ m ≤ 0xdfff then
      (0x10000 + (n - 0xd800) * 1024 + (m - 0xdc00)) :: joinSurrogates rest
    else n :: joinSurrogates (m :: rest)

def utf16 (bigEndian : Bool) (data : Bytes) : Option Text :=
  (units bigEndian data).bind fun ns => (joinSurrogates ns).mapM codePoint

def utf32 (bigEndian : Bool) : Bytes → Option Text
  | [] => some []
  | a :: b :: c :: d :: rest =>
    let n := if bigEndian then ((a.toNat * 256 + b.toNat) * 256 + c.toNat) * 256 + d.toNat
      else ((d.toNat * 256 + c.toNat) * 256 + b.toNat) * 256 + a.toNat
    (codePoint n).bind fun point => (utf32 bigEndian rest).map (point :: ·)
  | _ => none

/-- Without a mark: by the zero bytes at the beginning. -/
def decodeUnmarked : Bytes → Option Text
  | a :: b :: c :: d :: rest =>
    let data := a :: b :: c :: d :: rest
    if a = 0 then (if b ≠ 0 then utf16 true data else utf32 true data)
    else if b = 0 then (if c ≠ 0 ∨ d ≠ 0 then utf16 false data else utf32 false data)
    else utf8 data
  | [a, b] =>
    if a = 0 then utf16 true [a, b] else if b = 0 then utf16 false [a, b] else utf8 [a, b]
  | data => utf8 data

def decode (data : Bytes) : Option Text :=
  if [0x00, 0x00, 0xfe, 0xff] <+: data then utf32 true (data.drop 4)
  else if [0xff, 0xfe, 0x00, 0x00] <+: data then utf32 false (data.drop 4)
  else if [0xfe, 0xff] <+: data then utf16 true (data.drop 2)
  else if [0xff, 0xfe] <+: data then utf16 false (data.drop 2)
  else if [0xef, 0xbb, 0xbf] <+: data then utf8 (data.drop 3)
  else decodeUnmarked data

/-- The bytes of a text of ASCII characters. -/
def asciiBytes (t : Text) : Bytes := t.map fun c => UInt8.ofNat c.val

variable {t : Text}

theorem toNat_ofNat_ascii {n : ℕ} (h : n < 0x80) : (UInt8.ofNat n).toNat = n := by
  rw [UInt8.toNat_ofNat']
  omega

theorem utf8_asciiBytes (h : ∀ c ∈ t, c.val < 0x80) : utf8 (asciiBytes t) = some t := by
  induction t with
  | nil => rfl
  | cons c t ih =>
    obtain ⟨hc, ht⟩ := List.forall_mem_cons.mp h
    have hpoint : Fin.ofNat 0x110000 c.val = c := Fin.ext (Nat.mod_eq_of_lt c.isLt)
    have hrest : utf8From 0 0 0 (asciiBytes t) = some t := ih ht
    have hcons : asciiBytes (c :: t) = UInt8.ofNat c.val :: asciiBytes t := rfl
    rw [utf8, hcons, utf8From, toNat_ofNat_ascii hc, if_pos hc, hrest, hpoint]
    rfl

theorem decodeUnmarked_of_ne_zero {data : Bytes} (h : ∀ b ∈ data, b ≠ 0) :
    decodeUnmarked data = utf8 data := by
  match data with
  | [] | [_] | [_, _, _] => rfl
  | [a, b] =>
    have ha := h a (by simp)
    have hb := h b (by simp)
    rw [decodeUnmarked, if_neg ha, if_neg hb]
  | a :: b :: c :: d :: rest =>
    have ha := h a (by simp)
    have hb := h b (by simp)
    rw [decodeUnmarked]
    rw [if_neg ha, if_neg hb]

/-- A mark has a byte beyond ASCII. -/
theorem not_marked {mark data : Bytes} {b : UInt8} (hb : b ∈ mark) (hbyte : 0x80 ≤ b.toNat)
    (h : ∀ b ∈ data, b.toNat < 0x80) : ¬mark <+: data := by
  intro hmark
  have hlt := h b (hmark.subset hb)
  omega

/-- ASCII text without zero bytes is read as it is. -/
theorem decode_asciiBytes (h : ∀ c ∈ t, c.val < 0x80 ∧ c.val ≠ 0) :
    decode (asciiBytes t) = some t := by
  have hascii : ∀ b ∈ asciiBytes t, b.toNat < 0x80 := by
    intro b hb
    obtain ⟨c, hc, rfl⟩ := List.mem_map.mp hb
    rw [toNat_ofNat_ascii (h c hc).1]
    exact (h c hc).1
  have hzero : ∀ b ∈ asciiBytes t, b ≠ 0 := by
    intro b hb heq
    obtain ⟨c, hc, rfl⟩ := List.mem_map.mp hb
    apply (h c hc).2
    rw [← toNat_ofNat_ascii (h c hc).1, heq]
    rfl
  rw [decode, if_neg (not_marked (b := 0xfe) (by simp) (by decide) hascii),
    if_neg (not_marked (b := 0xff) (by simp) (by decide) hascii),
    if_neg (not_marked (b := 0xfe) (by simp) (by decide) hascii),
    if_neg (not_marked (b := 0xff) (by simp) (by decide) hascii),
    if_neg (not_marked (b := 0xef) (by simp) (by decide) hascii),
    decodeUnmarked_of_ne_zero hzero, utf8_asciiBytes fun c hc => (h c hc).1]

/-! ## Decoding what was encoded -/

variable {c : CodePoint} {data : Bytes}

theorem codePoint_val (c : CodePoint) : codePoint c.val = some c := dif_pos c.isLt

theorem toNat_next (n : ℕ) : (UInt8.ofNat (0x80 + n % 64)).toNat = 0x80 + n % 64 := by
  rw [UInt8.toNat_ofNat']
  omega

theorem toNat_lead {n high : ℕ} (h : high + n < 256) :
    (UInt8.ofNat (high + n)).toNat = high + n := by
  rw [UInt8.toNat_ofNat']
  omega

/-- The last byte of a character. -/
theorem utf8From_last {n bits low : ℕ} {c : CodePoint} {rest : Bytes}
    (hbits : bits * 64 + n % 64 = c.val) (hlow : low ≤ c.val) :
    utf8From 1 bits low (UInt8.ofNat (0x80 + n % 64) :: rest) =
      (utf8From 0 0 0 rest).map (c :: ·) := by
  have hmod : n % 64 < 64 := Nat.mod_lt n (by decide)
  rw [utf8From]
  dsimp only
  rw [toNat_next, if_pos ⟨by omega, by omega⟩, if_pos rfl]
  have hsub : 0x80 + n % 64 - 0x80 = n % 64 := by omega
  rw [hsub, hbits, if_pos hlow, codePoint_val, Option.bind_some]

theorem utf8From_next {n need bits low : ℕ} {rest : Bytes} (hneed : need ≠ 0) :
    utf8From (need + 1) bits low (UInt8.ofNat (0x80 + n % 64) :: rest) =
      utf8From need (bits * 64 + n % 64) low rest := by
  have hmod : n % 64 < 64 := Nat.mod_lt n (by decide)
  rw [utf8From]
  dsimp only
  rw [toNat_next, if_pos ⟨by omega, by omega⟩, if_neg hneed]
  have hsub : 0x80 + n % 64 - 0x80 = n % 64 := by omega
  rw [hsub]

theorem utf8From_lead {b : UInt8} {need bits low : ℕ} {rest : Bytes}
    (hlead : leadByte b.toNat = some (need, bits, low)) (hb : 0x80 ≤ b.toNat) :
    utf8From 0 0 0 (b :: rest) = utf8From need bits low rest := by
  rw [utf8From]
  dsimp only
  rw [if_neg (by omega), hlead, Option.bind_some]

theorem utf8From_encodeChar (h : encodeChar c = some data) (rest : Bytes) :
    utf8From 0 0 0 (data ++ rest) = (utf8From 0 0 0 rest).map (c :: ·) := by
  have hlt := c.isLt
  rw [encodeChar] at h
  dsimp only at h
  split_ifs at h with h1 h2 h3 h4
  · obtain rfl := Option.some.inj h
    have hpoint : Fin.ofNat 0x110000 c.val = c := Fin.ext (Nat.mod_eq_of_lt c.isLt)
    rw [List.singleton_append, utf8From, toNat_ofNat_ascii h1, if_pos h1, hpoint]
  · obtain rfl := Option.some.inj h
    rw [List.cons_append, List.singleton_append]
    have hlead : (UInt8.ofNat (0xc0 + c.val / 64)).toNat = 0xc0 + c.val / 64 :=
      toNat_lead (by omega)
    rw [@utf8From_lead _ 1 (c.val / 64) 0x80]
    · exact utf8From_last (by omega) (by omega)
    · rw [hlead, leadByte, if_pos ⟨by omega, by omega⟩, Nat.add_sub_cancel_left]
    · omega
  · obtain rfl := Option.some.inj h
    rw [List.cons_append, List.cons_append, List.singleton_append]
    have hlead : (UInt8.ofNat (0xe0 + c.val / 4096)).toNat = 0xe0 + c.val / 4096 :=
      toNat_lead (by omega)
    rw [@utf8From_lead _ 2 (c.val / 4096) 0x800,
      utf8From_next (by decide)]
    · exact utf8From_last (by omega) (by omega)
    · rw [hlead, leadByte, if_neg (by omega), if_pos ⟨by omega, by omega⟩,
        Nat.add_sub_cancel_left]
    · omega
  · obtain rfl := Option.some.inj h
    rw [List.cons_append, List.cons_append, List.cons_append, List.singleton_append]
    have hlead : (UInt8.ofNat (0xf0 + c.val / 262144)).toNat = 0xf0 + c.val / 262144 :=
      toNat_lead (by omega)
    rw [@utf8From_lead _ 3 (c.val / 262144) 0x10000,
      utf8From_next (by decide), utf8From_next (by decide)]
    · exact utf8From_last (by omega) (by omega)
    · rw [hlead, leadByte, if_neg (by omega), if_neg (by omega), if_pos ⟨by omega, by omega⟩,
        Nat.add_sub_cancel_left]
    · omega

theorem encodeChar_isSome : (encodeChar c).isSome = !isSurrogate c := by
  have hlt := c.isLt
  rw [encodeChar, isSurrogate]
  dsimp only
  split_ifs with h1 h2 h3 h4
  · simp only [Option.isSome_some]
    rw [eq_comm, Bool.not_eq_true', decide_eq_false_iff_not]
    omega
  · simp only [Option.isSome_some]
    rw [eq_comm, Bool.not_eq_true', decide_eq_false_iff_not]
    omega
  · rw [decide_eq_true h3]
    rfl
  · rw [decide_eq_false h3]
    rfl
  · rw [decide_eq_false h3]
    rfl

theorem encodeUtf8_cons (c : CodePoint) (t : Text) :
    encodeUtf8 (c :: t) = (encodeChar c).bind fun b => (encodeUtf8 t).map (b ++ ·) := by
  rw [encodeUtf8, encodeUtf8, List.mapM_cons]
  rcases encodeChar c with - | b
  · rfl
  · rcases t.mapM encodeChar with - | bs <;> rfl

/-- Exactly the texts without surrogates are encoded. -/
theorem encodeUtf8_isSome : (encodeUtf8 t).isSome = !t.any isSurrogate := by
  induction t with
  | nil => rfl
  | cons c t ih =>
    rw [encodeUtf8_cons, List.any_cons, Bool.not_or, ← ih, ← encodeChar_isSome]
    rcases encodeChar c with - | b
    · rfl
    · rw [Option.bind_some, Option.isSome_map, Option.isSome_some, Bool.true_and]

theorem utf8_encodeUtf8 (h : encodeUtf8 t = some data) : utf8 data = some t := by
  induction t generalizing data with
  | nil =>
    obtain rfl := Option.some.inj h
    rfl
  | cons c t ih =>
    rw [encodeUtf8_cons] at h
    obtain ⟨b, hb, h⟩ := Option.bind_eq_some_iff.mp h
    obtain ⟨bs, hbs, rfl⟩ := Option.map_eq_some_iff.mp h
    have hrest : utf8From 0 0 0 bs = some t := ih hbs
    rw [utf8, utf8From_encodeChar hb, hrest, Option.map_some]

theorem decodeUtf8_encodeUtf8 (h : encodeUtf8 t = some data) : decodeUtf8 data = some t := by
  rw [decodeUtf8, utf8_encodeUtf8 h, Option.filter_some, ← encodeUtf8_isSome, h]
  rfl

end TextEncoding
