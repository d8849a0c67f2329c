import Mathlib.Tactic.SplitIfs
import AiSOC.CefParser

/-! # Reading the extension of a CEF line back

What a sender writes for keys and values, and that the parser finds the same pairs in it. A value
ends before a space that a key follows; every equals sign of an escaped value stands behind a
backslash, so that no key ends there. -/
namespace CefParser

open ByteText

def escapeByte (c : UInt8) : Bytes :=
  if c = backslash ∨ c = equals then [backslash, c]
  else if c = byte '\n' then [backslash, byte 'n']
  else [c]

@[grind =]
def escapeValue (value : Bytes) : Bytes := value.flatMap escapeByte

@[grind =]
def encodePair (pair : Bytes × Bytes) : Bytes := pair.1 ++ equals :: escapeValue pair.2

/-- The pairs with a space before each of them. -/
@[grind =]
def encodeNext (pairs : List (Bytes × Bytes)) : Bytes :=
  pairs.flatMap fun pair => space :: encodePair pair

def encodeExtension (pairs : List (Bytes × Bytes)) : Bytes := (encodeNext pairs).tail

/-- A letter with letters, digits, dots, underscores and hyphens after it. -/
def IsKey : Bytes → Prop
  | [] => False
  | c :: rest => isLetter c = true ∧ ∀ d ∈ rest, isCEFKeyChar d = true

instance : DecidablePred IsKey
  | [] => isFalse id
  | c :: rest =>
    decidable_of_iff (isLetter c = true ∧ rest.all isCEFKeyChar = true)
      (and_congr_right fun _ => List.all_eq_true)

variable {c : UInt8} {s t key value : Bytes} {pairs : List (Bytes × Bytes)}

theorem backslash_ne_equals : backslash ≠ equals := by decide

/-- What a backslash stands before is not white space. -/
def Marker (c : UInt8) : Prop := c = backslash ∨ c = equals ∨ c = byte 'n'

instance : DecidablePred Marker := fun c =>
  inferInstanceAs (Decidable (c = backslash ∨ c = equals ∨ c = byte 'n'))

theorem spaces_not_marker {w : Bytes} (hw : w ∈ spaces) {c : UInt8} (hc : c ∈ w) : ¬Marker c := by
  have hall : (spaces.all fun w => w.all fun c => decide (¬Marker c)) = true := by decide
  simp only [List.all_eq_true, decide_eq_true_eq] at hall
  exact hall w hw c hc

theorem escapeByte_cases (c : UInt8) :
    (∃ d, escapeByte c = [backslash, d] ∧ escaped d = some c ∧ Marker d) ∨
      escapeByte c = [c] ∧ c ≠ backslash ∧ c ≠ equals := by
  by_cases hslash : c = backslash ∨ c = equals
  · left
    refine ⟨c, if_pos hslash, ?_, hslash.imp_right Or.inl⟩
    rcases hslash with rfl | rfl
    · rfl
    · rfl
  · obtain ⟨hbackslash, hequals⟩ := not_or.mp hslash
    by_cases hnewline : c = byte '\n'
    · left
      subst hnewline
      exact ⟨byte 'n', rfl, rfl, Or.inr (Or.inr rfl)⟩
    · right
      exact ⟨by rw [escapeByte, if_neg hslash, if_neg hnewline], hbackslash, hequals⟩

theorem escapeValue_cons (c : UInt8) (value : Bytes) :
    (∃ d, escapeValue (c :: value) = backslash :: d :: escapeValue value ∧
        escaped d = some c) ∨
      escapeValue (c :: value) = c :: escapeValue value ∧ c ≠ backslash ∧ c ≠ equals := by
  have hcons : escapeValue (c :: value) = escapeByte c ++ escapeValue value := List.flatMap_cons
  rw [hcons]
  rcases escapeByte_cases c with ⟨d, hc, hd, -⟩ | ⟨hc, hne⟩
  · exact Or.inl ⟨d, by rw [hc]; rfl, hd⟩
  · exact Or.inr ⟨by rw [hc]; rfl, hne⟩

/-- What ends an escaped value and holds no marker ends the value. -/
theorem escapeValue_eq_append {trimmed : Bytes} (htrimmed : ∀ c ∈ trimmed, ¬Marker c)
    (h : escapeValue value = t ++ trimmed) :
    ∃ rest, value = rest ++ trimmed ∧ escapeValue rest = t := by
  induction trimmed using List.reverseRecOn generalizing value with
  | nil => exact ⟨value, (List.append_nil value).symm, by rw [h, List.append_nil]⟩
  | append_singleton trimmed b ih =>
    rcases List.eq_nil_or_concat value with rfl | ⟨front, c, rfl⟩
    · have hnil := congrArg List.length h
      simp [escapeValue] at hnil
    · have happend : escapeValue (front ++ [c]) = escapeValue front ++ escapeByte c := by
        simp [escapeValue]
      rw [List.concat_eq_append, happend, ← List.append_assoc] at h
      rcases escapeByte_cases c with ⟨d, hc, -, hmarker⟩ | ⟨hc, -⟩
      · have hsplit : escapeValue front ++ [backslash] ++ [d] = t ++ trimmed ++ [b] := by
          rw [← h, hc, List.append_assoc]
          rfl
        obtain ⟨-, hlast⟩ := List.append_inj' hsplit rfl
        obtain rfl := List.singleton_injective hlast
        exact absurd hmarker (htrimmed d (List.mem_append_right _ List.mem_cons_self))
      · rw [hc] at h
        obtain ⟨hfront, hlast⟩ := List.append_inj' h rfl
        obtain rfl := List.singleton_injective hlast
        obtain ⟨rest, rfl, ht⟩ := ih (fun c hc => htrimmed c (List.mem_append_left _ hc)) hfront
        exact ⟨rest, by simp, ht⟩

/-- An escaped value does not begin with an equals sign. -/
theorem head?_escapeValue (ht : t.head? ≠ some equals) :
    (escapeValue value ++ t).head? ≠ some equals := by
  cases value with
  | nil => exact ht
  | cons c value =>
    rcases escapeValue_cons c value with ⟨d, hc, -⟩ | ⟨hc, -, hequals⟩
    · rw [hc]
      exact fun h => absurd (Option.some.inj h) backslash_ne_equals
    · rw [hc]
      exact fun h => hequals (Option.some.inj h)

theorem unescapeCEF_cons (hc : c ≠ backslash) : unescapeCEF (c :: s) = c :: unescapeCEF s := by
  cases s with
  | nil => rfl
  | cons d s => rw [unescapeCEF, if_neg hc]

theorem unescapeCEF_escapeValue (value : Bytes) : unescapeCEF (escapeValue value) = value := by
  induction value with
  | nil => rfl
  | cons c value ih =>
    rcases escapeValue_cons c value with ⟨d, hc, hd⟩ | ⟨hc, hslash, -⟩
    · rw [hc, unescapeCEF, if_pos rfl, hd]
      dsimp only
      rw [ih]
    · rw [hc, unescapeCEF_cons hslash, ih]

theorem isCEFKeyChar_of_isLetter (h : isLetter c = true) : isCEFKeyChar c = true := by
  simp [isCEFKeyChar, h]

theorem IsKey.forall_mem (h : IsKey key) : ∀ c ∈ key, isCEFKeyChar c = true := by
  cases key with
  | nil => exact h.elim
  | cons c rest =>
    rw [List.forall_mem_cons]
    exact ⟨isCEFKeyChar_of_isLetter h.1, h.2⟩

theorem IsKey.ne_nil (h : IsKey key) : key ≠ [] := by
  rintro rfl
  exact h

/-- The key characters before an equals sign are the key. -/
theorem span_key (h : ∀ c ∈ key, isCEFKeyChar c = true) (s : Bytes) :
    (key ++ equals :: s).takeWhile isCEFKeyChar = key ∧
      (key ++ equals :: s).dropWhile isCEFKeyChar = equals :: s := by
  have hequals : isCEFKeyChar equals = false := by decide
  constructor
  · rw [List.takeWhile_append_of_pos h, List.takeWhile_cons_of_neg (by rw [hequals]; decide),
      List.append_nil]
  · rw [List.dropWhile_append_of_pos h, List.dropWhile_cons_of_neg (by rw [hequals]; decide)]

theorem isCEFKeyStart_encodePair {pair : Bytes × Bytes} (h : IsKey pair.1) (s : Bytes) :
    isCEFKeyStart (encodePair pair ++ s) = true := by
  obtain ⟨key, value⟩ := pair
  cases key with
  | nil => exact h.elim
  | cons c key =>
    have hkey := (span_key h.2 (escapeValue value ++ s)).2
    rw [encodePair, List.cons_append, List.cons_append, List.append_assoc, List.cons_append,
      isCEFKeyStart, hkey, h.1]
    rfl

theorem head?_of_isCEFKeyStart (h : isCEFKeyStart s = true) :
    (s.dropWhile isCEFKeyChar).head? = some equals := by
  cases s with
  | nil => cases h
  | cons c s =>
    rw [isCEFKeyStart, decide_eq_true_iff] at h
    rw [List.dropWhile_cons_of_pos (isCEFKeyChar_of_isLetter h.1)]
    exact h.2

/-- What may follow a value: nothing, or a space and a key. -/
def EndsValue (t : Bytes) : Prop := t = [] ∨ ∃ next, t = space :: next ∧ isCEFKeyStart next = true

theorem endsValue_encodeNext (h : ∀ pair ∈ pairs, IsKey pair.1) :
    EndsValue (encodeNext pairs) := by
  cases pairs with
  | nil => exact Or.inl rfl
  | cons pair pairs =>
    right
    exact ⟨encodePair pair ++ encodeNext pairs, rfl,
      isCEFKeyStart_encodePair (h pair List.mem_cons_self) _⟩

/-- No key begins within an escaped value. -/
theorem not_isCEFKeyStart_escapeValue (ht : EndsValue t) :
    isCEFKeyStart (escapeValue value ++ t) = false := by
  apply Bool.eq_false_of_not_eq_true
  intro hstart
  have hhead := head?_of_isCEFKeyStart hstart
  clear hstart
  induction value with
  | nil =>
    rcases ht with rfl | ⟨next, rfl, -⟩
    · cases hhead
    · rw [escapeValue, List.flatMap_nil, List.nil_append,
        List.dropWhile_cons_of_neg (by decide)] at hhead
      exact absurd (Option.some.inj hhead) (by decide)
  | cons c value ih =>
    rcases escapeValue_cons c value with ⟨d, hc, -⟩ | ⟨hc, -, hequals⟩
    · rw [hc, List.cons_append, List.dropWhile_cons_of_neg (by decide)] at hhead
      exact absurd (Option.some.inj hhead) backslash_ne_equals
    · rw [hc, List.cons_append] at hhead
      by_cases hkey : isCEFKeyChar c = true
      · rw [List.dropWhile_cons_of_pos hkey] at hhead
        exact ih hhead
      · rw [List.dropWhile_cons_of_neg hkey] at hhead
        exact hequals (Option.some.inj hhead)

theorem scanValue_cons (hc : c ≠ backslash) (hs : c = space → isCEFKeyStart s = false) :
    scanValue (c :: s) = (c :: (scanValue s).1, (scanValue s).2) := by
  cases s with
  | nil => rfl
  | cons d s =>
    have hstop : ¬(c = space ∧ isCEFKeyStart (d :: s) = true) := by
      rintro ⟨hspace, hstart⟩
      rw [hs hspace] at hstart
      cases hstart
    rw [scanValue, if_neg hstop, if_neg hc]

theorem scanValue_escapeValue (ht : EndsValue t) (value : Bytes) :
    scanValue (escapeValue value ++ t) = (escapeValue value, t) := by
  induction value with
  | nil =>
    rcases ht with rfl | ⟨next, rfl, hnext⟩
    · rfl
    · cases next with
      | nil => cases hnext
      | cons d next =>
        have hstop : space = space ∧ isCEFKeyStart (d :: next) = true := ⟨rfl, hnext⟩
        rw [escapeValue, List.flatMap_nil, List.nil_append, scanValue, if_pos hstop]
  | cons c value ih =>
    rcases escapeValue_cons c value with ⟨d, hc, -⟩ | ⟨hc, hslash, -⟩
    · have hspace : ¬(backslash = space ∧
          isCEFKeyStart (d :: (escapeValue value ++ t)) = true) := fun h => absurd h.1 (by decide)
      rw [hc, List.cons_append, List.cons_append, scanValue, if_neg hspace, if_pos rfl, ih]
    · rw [hc, List.cons_append,
        scanValue_cons hslash fun _ => not_isCEFKeyStart_escapeValue ht, ih]

/-- The keys with the values as they are escaped. -/
@[grind =]
def rawSpans (pairs : List (Bytes × Bytes)) : List (Bytes × Bytes) :=
  pairs.map fun pair => (pair.1, escapeValue pair.2)

/-- A round skips a space first. -/
theorem spans_space {fuel : ℕ} : spans (fuel + 1) (space :: s) = spans (fuel + 1) s := by
  have hdrop : (space :: s).dropWhile (fun c => c = space ∨ c = byte '\t') =
      s.dropWhile fun c => c = space ∨ c = byte '\t' :=
    List.dropWhile_cons_of_pos (by decide)
  rw [spans, spans, hdrop]

theorem not_blank_of_isKey (h : IsKey key) :
    (key ++ s).dropWhile (fun c => c = space ∨ c = byte '\t') = key ++ s := by
  cases key with
  | nil => exact h.elim
  | cons c key =>
    apply List.dropWhile_cons_of_neg
    rw [decide_eq_true_iff]
    rintro (rfl | rfl)
    · exact absurd h.1 (by decide)
    · exact absurd h.1 (by decide)

/-- A round for each pair finds them all. -/
theorem spans_encodeNext {fuel : ℕ} (hkeys : ∀ pair ∈ pairs, IsKey pair.1)
    (hfuel : pairs.length ≤ fuel) : spans fuel (encodeNext pairs) = rawSpans pairs := by
  induction pairs generalizing fuel with
  | nil =>
    cases fuel with
    | zero => rfl
    | succ fuel => rfl
  | cons pair pairs ih =>
    obtain ⟨hkey, hrest⟩ := List.forall_mem_cons.mp hkeys
    cases fuel with
    | zero => exact absurd hfuel (Nat.not_succ_le_zero _)
    | succ fuel =>
      have hnext : encodeNext (pair :: pairs) =
          space :: (pair.1 ++ equals :: (escapeValue pair.2 ++ encodeNext pairs)) := by
        simp [encodeNext, encodePair]
      obtain ⟨htake, hdrop⟩ :=
        span_key hkey.forall_mem (escapeValue pair.2 ++ encodeNext pairs)
      have hfound : pair.1 ≠ [] ∧ equals = equals := ⟨hkey.ne_nil, rfl⟩
      rw [hnext, spans_space, spans, not_blank_of_isKey hkey, htake, hdrop]
      dsimp only
      rw [if_pos hfound, scanValue_escapeValue (endsValue_encodeNext hrest),
        ih hrest (Nat.le_of_succ_le_succ hfuel)]
      rfl

theorem length_le_encodeNext (pairs : List (Bytes × Bytes)) :
    pairs.length ≤ (encodeNext pairs).length := by
  induction pairs with
  | nil => exact le_rfl
  | cons pair pairs ih =>
    simp only [encodeNext, List.flatMap_cons, List.length_append, List.length_cons] at ih ⊢
    omega

theorem spans_encodeExtension (hkeys : ∀ pair ∈ pairs, IsKey pair.1) :
    spans (encodeExtension pairs).length (encodeExtension pairs) = rawSpans pairs := by
  cases pairs with
  | nil => rfl
  | cons pair pairs =>
    have hcons : encodeNext (pair :: pairs) = space :: encodeExtension (pair :: pairs) := rfl
    have hlength : (pair :: pairs).length ≤ (encodeExtension (pair :: pairs)).length := by
      have hle := length_le_encodeNext pairs
      simp only [encodeExtension, encodeNext, List.flatMap_cons, List.cons_append,
        List.tail_cons, encodePair, List.length_append, List.length_cons] at hle ⊢
      omega
    cases hfuel : (encodeExtension (pair :: pairs)).length with
    | zero =>
      rw [hfuel] at hlength
      exact absurd hlength (Nat.not_succ_le_zero _)
    | succ fuel =>
      rw [← spans_space, ← hcons]
      exact spans_encodeNext hkeys (hfuel ▸ hlength)

/-- Only a space itself is a space when it is escaped. -/
theorem getLast?_escapeValue (h : value.getLast? ≠ some space) :
    (escapeValue value).getLast? ≠ some space := by
  intro hlast
  obtain ⟨front, hfront⟩ := List.getLast?_eq_some_iff.mp hlast
  have hmarker : ∀ c ∈ [space], ¬Marker c := List.forall_mem_singleton.mpr (by decide)
  obtain ⟨rest, hrest, -⟩ := escapeValue_eq_append hmarker hfront
  apply h
  rw [hrest, List.getLast?_concat]

theorem values_rawSpans (h : ∀ pair ∈ pairs.dropLast, pair.2.getLast? ≠ some space) :
    values (rawSpans pairs) = pairs := by
  induction pairs with
  | nil => rfl
  | cons pair pairs ih =>
    cases pairs with
    | nil => rw [rawSpans, List.map_singleton, values, unescapeCEF_escapeValue]
    | cons next pairs =>
      rw [List.dropLast_cons_cons, List.forall_mem_cons] at h
      have htrim : (escapeValue pair.2).rdropWhile (· = space) = escapeValue pair.2 := by
        rw [List.rdropWhile_eq_self_iff]
        intro hne hlast
        apply getLast?_escapeValue h.1
        rw [List.getLast?_eq_getLast_of_ne_nil hne, of_decide_eq_true hlast]
      have hvalues := ih h.2
      rw [rawSpans, List.map_cons] at hvalues
      rw [rawSpans, List.map_cons, List.map_cons, values, htrim, unescapeCEF_escapeValue,
        hvalues]
      exact List.cons_ne_nil _ _

/-- The parser finds the pairs. The last value may end in a space. -/
theorem parseCEFExtension_encode (hkeys : ∀ pair ∈ pairs, IsKey pair.1)
    (hvalues : ∀ pair ∈ pairs.dropLast, pair.2.getLast? ≠ some space) :
    parseCEFExtension (encodeExtension pairs) = pairs := by
  rw [parseCEFExtension, spans_encodeExtension hkeys, values_rawSpans hvalues]

/-- The equals signs that end a key. -/
@[grind =]
def bareEquals : Bytes → ℕ
  | c :: d :: rest => (if isCEFKeyChar c ∧ d = equals then 1 else 0) + bareEquals (d :: rest)
  | _ => 0

theorem bareEquals_le_cons (c : UInt8) (s : Bytes) : bareEquals s ≤ bareEquals (c :: s) := by
  cases s with
  | nil => exact le_rfl
  | cons d s => exact Nat.le_add_left _ _

theorem bareEquals_le_of_suffix (h : s <:+ t) : bareEquals s ≤ bareEquals t := by
  obtain ⟨front, rfl⟩ := h
  induction front with
  | nil => exact le_rfl
  | cons c front ih => exact ih.trans (bareEquals_le_cons c (front ++ s))

theorem bareEquals_cons (h : isCEFKeyChar c = false ∨ s.head? ≠ some equals) :
    bareEquals (c :: s) = bareEquals s := by
  cases s with
  | nil => rfl
  | cons d s =>
    have hbare : ¬(isCEFKeyChar c = true ∧ d = equals) := by
      rintro ⟨hc, rfl⟩
      rcases h with h | h
      · rw [h] at hc
        cases hc
      · exact h rfl
    rw [bareEquals, if_neg hbare, Nat.zero_add]

theorem bareEquals_key (hkey : key ≠ []) (h : ∀ c ∈ key, isCEFKeyChar c = true) (s : Bytes) :
    bareEquals (key ++ equals :: s) = bareEquals s + 1 := by
  have hequals : isCEFKeyChar equals = false := by decide
  induction key with
  | nil => exact absurd rfl hkey
  | cons c key ih =>
    obtain ⟨hc, hrest⟩ := List.forall_mem_cons.mp h
    cases key with
    | nil =>
      rw [List.cons_append, List.nil_append, bareEquals, if_pos ⟨hc, rfl⟩,
        bareEquals_cons (Or.inl hequals), Nat.add_comm]
    | cons d key =>
      have hd : d ≠ equals := by
        rintro rfl
        rw [hrest equals List.mem_cons_self] at hequals
        cases hequals
      rw [List.cons_append, bareEquals_cons, ih (List.cons_ne_nil d key) hrest]
      exact Or.inr fun hhead => hd (Option.some.inj hhead)

/-- No key ends within an escaped value. -/
theorem bareEquals_escapeValue (ht : t.head? ≠ some equals) :
    bareEquals (escapeValue value ++ t) = bareEquals t := by
  have hslash : isCEFKeyChar backslash = false := by decide
  induction value with
  | nil => rfl
  | cons c value ih =>
    rcases escapeValue_cons c value with ⟨d, hc, -⟩ | ⟨hc, -⟩
    · rw [hc, List.cons_append, List.cons_append, bareEquals_cons (Or.inl hslash),
        bareEquals_cons (Or.inr (head?_escapeValue ht)), ih]
    · rw [hc, List.cons_append, bareEquals_cons (Or.inr (head?_escapeValue ht)), ih]

theorem bareEquals_encodeNext (hkeys : ∀ pair ∈ pairs, IsKey pair.1) :
    bareEquals (encodeNext pairs) = pairs.length := by
  induction pairs with
  | nil => rfl
  | cons pair pairs ih =>
    obtain ⟨hkey, hrest⟩ := List.forall_mem_cons.mp hkeys
    have hspace : isCEFKeyChar space = false := by decide
    have hnext : encodeNext (pair :: pairs) =
        space :: (pair.1 ++ equals :: (escapeValue pair.2 ++ encodeNext pairs)) := by
      simp [encodeNext, encodePair]
    have hhead : (encodeNext pairs).head? ≠ some equals := by
      cases pairs with
      | nil => exact nofun
      | cons next pairs => exact fun h => absurd (Option.some.inj h) (by decide)
    rw [hnext, bareEquals_cons (Or.inl hspace), bareEquals_key hkey.ne_nil hkey.forall_mem,
      bareEquals_escapeValue hhead, ih hrest, List.length_cons]

theorem scanValue_suffix (s : Bytes) : (scanValue s).2 <:+ s := by
  fun_induction scanValue s with
  | case1 => exact List.suffix_rfl
  | case2 c => exact List.nil_suffix
  | case3 c d rest h => exact List.suffix_rfl
  | case4 d rest h ih => exact ih.trans ⟨[backslash, d], rfl⟩
  | case5 c d rest hstop hslash ih => exact ih.trans (List.suffix_cons c _)

/-- Every round that finds a pair passes the equals sign of its key. -/
theorem length_spans_le (fuel : ℕ) (ext : Bytes) : (spans fuel ext).length ≤ bareEquals ext := by
  induction fuel generalizing ext with
  | zero => exact Nat.zero_le _
  | succ fuel ih =>
    rw [spans]
    obtain ⟨s, hs⟩ : ∃ s, s = ext.dropWhile fun c => c = space ∨ c = byte '\t' := ⟨_, rfl⟩
    have hsuffix : s <:+ ext := hs ▸ List.dropWhile_suffix _
    rw [← hs]
    have hsplit : s.takeWhile isCEFKeyChar ++ s.dropWhile isCEFKeyChar = s :=
      List.takeWhile_append_dropWhile
    apply le_trans _ (bareEquals_le_of_suffix hsuffix)
    cases hrest : s.dropWhile isCEFKeyChar with
    | nil => exact Nat.zero_le _
    | cons c rest =>
      dsimp only
      split_ifs with hfound
      · obtain ⟨hkey, rfl⟩ := hfound
        have hscan := bareEquals_le_of_suffix (scanValue_suffix rest)
        have hchars : ∀ c ∈ s.takeWhile isCEFKeyChar, isCEFKeyChar c = true :=
          fun c hc => List.mem_takeWhile_imp hc
        have hbare : bareEquals s = bareEquals rest + 1 := by
          rw [← bareEquals_key hkey hchars, ← hrest, hsplit]
        rw [hbare, List.length_cons]
        exact Nat.succ_le_succ ((ih _).trans hscan)
      · apply (ih _).trans
        apply bareEquals_le_of_suffix
        apply (List.dropWhile_suffix _).trans
        rw [← hrest]
        exact List.dropWhile_suffix _

theorem length_values (pairs : List (Bytes × Bytes)) : (values pairs).length = pairs.length := by
  fun_induction values pairs with
  | case1 => rfl
  | case2 span => rfl
  | case3 span rest h ih => rw [List.length_cons, List.length_cons, ih]

/-- A piece of the extension that begins anywhere holds no more pairs than were written. -/
theorem length_parseCEFExtension_le (hkeys : ∀ pair ∈ pairs, IsKey pair.1)
    (h : s <:+ encodeExtension pairs) : (parseCEFExtension s).length ≤ pairs.length := by
  have hnext : s <:+ encodeNext pairs := h.trans (List.tail_suffix _)
  rw [parseCEFExtension, length_values, ← bareEquals_encodeNext hkeys]
  exact (length_spans_le _ s).trans (bareEquals_le_of_suffix hnext)

end CefParser
