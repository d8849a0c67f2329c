import Mathlib.Data.List.DropRight
import Mathlib.Tactic.SplitIfs
import AiSOC.ByteText
import AiSOC.CodeText

/-! # Base64 for URLs

The standard library's encoder without padding, and its decoder, which takes both alphabets,
skips every other character and stops at the padding of a group. -/
namespace Base64

open ByteText CodeText

/-- The character for a number below 64. -/
@[grind =]
def sextetChar (n : ℕ) : CodePoint :=
  if n < 26 then Fin.ofNat 0x110000 ('A'.toNat + n)
  else if n < 52 then Fin.ofNat 0x110000 ('a'.toNat + (n - 26))
  else if n < 62 then Fin.ofNat 0x110000 ('0'.toNat + (n - 52))
  else if n = 62 then cp '-'
  else cp '_'

def pad : CodePoint := cp '='

/-- Groups of three bytes; the last one is padded. -/
@[grind =]
def encodePadded : Bytes → Text
  | [] => []
  | [a] => [sextetChar (a.toNat / 4), sextetChar (a.toNat % 4 * 16), pad, pad]
  | [a, b] => [sextetChar (a.toNat / 4), sextetChar (a.toNat % 4 * 16 + b.toNat / 16),
      sextetChar (b.toNat % 16 * 4), pad]
  | a :: b :: c :: rest =>
    sextetChar (a.toNat / 4) :: sextetChar (a.toNat % 4 * 16 + b.toNat / 16) ::
      sextetChar (b.toNat % 16 * 4 + c.toNat / 64) :: sextetChar (c.toNat % 64) ::
      encodePadded rest

def encode (data : Bytes) : Text := (encodePadded data).rdropWhile (· = pad)

/-- The number of a character of the alphabet, or of the other alphabet. -/
@[grind =]
def sextet (c : CodePoint) : Option ℕ :=
  if between 'A' 'Z' c then some (c.val - 'A'.toNat)
  else if between 'a' 'z' c then some (c.val - 'a'.toNat + 26)
  else if between '0' '9' c then some (c.val - '0'.toNat + 52)
  else if c = cp '-' ∨ c = cp '+' then some 62
  else if c = cp '_' ∨ c = cp '/' then some 63
  else none

/-- What a character adds to its group: the byte that it completes, and what is left over. -/
@[grind =]
def addSextet (position left v : ℕ) : Bytes × ℕ :=
  match position with
  | 0 => ([], v)
  | 1 => ([UInt8.ofNat (left * 4 + v / 16)], v % 16)
  | 2 => ([UInt8.ofNat (left * 16 + v / 4)], v % 4)
  | _ => ([UInt8.ofNat (left * 64 + v)], 0)

/-- `position` is the place in the group of four and `left` what is left over of its last
character; `pads` are the padding characters since then. -/
@[grind =]
def decodeFrom (position left pads : ℕ) : Text → Option Bytes
  | [] => if position = 0 then some [] else none
  | c :: rest =>
    if c = pad then
      if 2 ≤ position then
        if 4 ≤ position + (pads + 1) then some [] else decodeFrom position left (pads + 1) rest
      else decodeFrom position left pads rest
    else
      match sextet c with
      | none => decodeFrom position left pads rest
      | some v =>
        (decodeFrom ((position + 1) % 4) (addSextet position left v).2 0 rest).map
          ((addSextet position left v).1 ++ ·)

/-- The token is padded before it is decoded; it has to be ASCII. -/
@[grind =]
def decode (token : Text) : Option Bytes :=
  if token.all (·.val < 0x80) then
    decodeFrom 0 0 0 (token ++ List.replicate ((4 - token.length % 4) % 4) pad)
  else none

variable {data : Bytes} {n : ℕ} {rest : Text}

theorem sextet_sextetChar (h : n < 64) : sextet (sextetChar n) = some n := by
  have hall : ∀ m : Fin 64, sextet (sextetChar m) = some m.val := by decide
  exact hall ⟨n, h⟩

theorem sextetChar_ne_pad (h : n < 64) : sextetChar n ≠ pad := by
  have hall : ∀ m : Fin 64, sextetChar m ≠ pad := by decide
  exact hall ⟨n, h⟩

theorem sextetChar_ascii (h : n < 64) : (sextetChar n).val < 0x80 := by
  have hall : ∀ m : Fin 64, (sextetChar m).val < 0x80 := by decide
  exact hall ⟨n, h⟩

theorem decodeFrom_sextet {position left pads : ℕ} (h : n < 64) :
    decodeFrom position left pads (sextetChar n :: rest) =
      (decodeFrom ((position + 1) % 4) (addSextet position left n).2 0 rest).map
        ((addSextet position left n).1 ++ ·) := by
  rw [decodeFrom, if_neg (sextetChar_ne_pad h), sextet_sextetChar h]

theorem decodeFrom_zero {left pads : ℕ} (h : n < 64) :
    decodeFrom 0 left pads (sextetChar n :: rest) = decodeFrom 1 n 0 rest := by
  rw [decodeFrom_sextet h]
  exact Option.map_id'

theorem decodeFrom_one {left pads : ℕ} {b : UInt8} (h : n < 64)
    (hb : left * 4 + n / 16 = b.toNat) :
    decodeFrom 1 left pads (sextetChar n :: rest) =
      (decodeFrom 2 (n % 16) 0 rest).map (b :: ·) := by
  rw [decodeFrom_sextet h, addSextet, hb, UInt8.ofNat_toNat]
  rfl

theorem decodeFrom_two {left pads : ℕ} {b : UInt8} (h : n < 64)
    (hb : left * 16 + n / 4 = b.toNat) :
    decodeFrom 2 left pads (sextetChar n :: rest) =
      (decodeFrom 3 (n % 4) 0 rest).map (b :: ·) := by
  rw [decodeFrom_sextet h, addSextet, hb, UInt8.ofNat_toNat]
  rfl

theorem decodeFrom_three {left pads : ℕ} {b : UInt8} (h : n < 64)
    (hb : left * 64 + n = b.toNat) :
    decodeFrom 3 left pads (sextetChar n :: rest) = (decodeFrom 0 0 0 rest).map (b :: ·) := by
  rw [decodeFrom_sextet h]
  simp only [addSextet, hb, UInt8.ofNat_toNat]
  rfl

/-- The padding that the encoder writes. -/
@[grind =]
def padding (data : Bytes) : ℕ := (3 - data.length % 3) % 3

def IsCore (core : Text) : Prop := ∀ c ∈ core, c ≠ pad ∧ c.val < 0x80

theorem isCore_sextets {ns : List ℕ} (h : ∀ n ∈ ns, n < 64) : IsCore (ns.map sextetChar) := by
  intro c hc
  obtain ⟨n, hn, rfl⟩ := List.mem_map.mp hc
  exact ⟨sextetChar_ne_pad (h n hn), sextetChar_ascii (h n hn)⟩

/-- The encoding is characters of the alphabet, then padding up to groups of four. -/
theorem encodePadded_eq (data : Bytes) :
    ∃ core, encodePadded data = core ++ List.replicate (padding data) pad ∧ IsCore core ∧
      (4 - core.length % 4) % 4 = padding data := by
  fun_induction encodePadded data with
  | case1 => exact ⟨[], rfl, nofun, rfl⟩
  | case2 a =>
    have ha := a.toNat_lt
    refine ⟨[a.toNat / 4, a.toNat % 4 * 16].map sextetChar, rfl, isCore_sextets ?_, rfl⟩
    simp only [List.forall_mem_cons, List.not_mem_nil, false_imp_iff, implies_true, and_true]
    omega
  | case3 a b =>
    have ha := a.toNat_lt
    have hb := b.toNat_lt
    refine ⟨[a.toNat / 4, a.toNat % 4 * 16 + b.toNat / 16, b.toNat % 16 * 4].map sextetChar, rfl,
      isCore_sextets ?_, rfl⟩
    simp only [List.forall_mem_cons, List.not_mem_nil, false_imp_iff, implies_true, and_true]
    omega
  | case4 a b c rest ih =>
    have ha := a.toNat_lt
    have hb := b.toNat_lt
    have hc := c.toNat_lt
    obtain ⟨core, hcore, hchars, hpads⟩ := ih
    have hpadding : padding (a :: b :: c :: rest) = padding rest := by
      simp only [padding, List.length_cons]
      omega
    refine ⟨[a.toNat / 4, a.toNat % 4 * 16 + b.toNat / 16, b.toNat % 16 * 4 + c.toNat / 64,
      c.toNat % 64].map sextetChar ++ core, ?_, ?_, ?_⟩
    · rw [hcore, hpadding, List.append_assoc]
      rfl
    · intro x hx
      rcases List.mem_append.mp hx with hx | hx
      · refine isCore_sextets ?_ x hx
        simp only [List.forall_mem_cons, List.not_mem_nil, false_imp_iff, implies_true, and_true]
        omega
      · exact hchars x hx
    · rw [hpadding, ← hpads]
      simp only [List.length_append, List.length_map, List.length_cons, List.length_nil]
      omega

theorem decodeFrom_encodePadded (data : Bytes) :
    decodeFrom 0 0 0 (encodePadded data) = some data := by
  fun_induction encodePadded data with
  | case1 => rfl
  | case2 a =>
    have ha := a.toNat_lt
    rw [decodeFrom_zero (by omega), decodeFrom_one (b := a) (by omega) (by omega)]
    rfl
  | case3 a b =>
    have ha := a.toNat_lt
    have hb := b.toNat_lt
    rw [decodeFrom_zero (by omega), decodeFrom_one (b := a) (by omega) (by omega),
      decodeFrom_two (b := b) (by omega) (by omega)]
    rfl
  | case4 a b c rest ih =>
    have ha := a.toNat_lt
    have hb := b.toNat_lt
    have hc := c.toNat_lt
    rw [decodeFrom_zero (by omega), decodeFrom_one (b := a) (by omega) (by omega),
      decodeFrom_two (b := b) (by omega) (by omega),
      decodeFrom_three (b := c) (by omega) (by omega), ih]
    rfl

theorem rdropWhile_core {core : Text} (h : IsCore core) (n : ℕ) :
    (core ++ List.replicate n pad).rdropWhile (· = pad) = core := by
  induction n with
  | zero =>
    rw [List.replicate_zero, List.append_nil, List.rdropWhile_eq_self_iff]
    intro hne hlast
    exact (h _ (List.getLast_mem hne)).1 (of_decide_eq_true hlast)
  | succ n ih =>
    rw [List.replicate_succ', ← List.append_assoc, List.rdropWhile_concat_pos _ _ _ (by simp), ih]

/-- Decoding what was encoded gives the data back. -/
theorem decode_encode (data : Bytes) : decode (encode data) = some data := by
  obtain ⟨core, hcore, hchars, hpads⟩ := encodePadded_eq data
  have hencode : encode data = core := by
    rw [encode, hcore, rdropWhile_core hchars]
  have hascii : core.all (·.val < 0x80) = true := by
    rw [List.all_eq_true]
    intro c hc
    exact decide_eq_true (hchars c hc).2
  rw [decode, hencode, if_pos hascii, hpads, ← hcore, decodeFrom_encodePadded]

end Base64
