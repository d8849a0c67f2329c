import AiSOC.PromptSanitizer
import AiSOC.RegexReplace

/-! # What the sanitiser leaves of a text

The delimiters and the escapes are gone for good. The phrases can match what the later passes make:
a marker in place of an escape makes the edge of a word, shorter gaps bring the words of a phrase
together, and the cut can end in a word. -/
namespace SanitizerFixedPoint

open CodeText PromptSanitizer RegexSearch RegexReplace

/-- `<\s*/?\s*system\s*>` -/
def systemTag : Regex CodePoint :=
  inOrder [exactly "<", spaces, optional (exactly "/"), spaces, ignoringCase "system", spaces,
    exactly ">"]

/-- The patterns without a part of variable length. -/
def fixedPatterns : List (Regex CodePoint) :=
  ["<|im_start|>", "<|im_end|>", "<|system|>", "<|user|>", "<|assistant|>", "[INST]",
    "[/INST]"].map ignoringCase ++ [escapedControl]

/-- The patterns that are no phrases. -/
def literalPatterns : List (Regex CodePoint) := systemTag :: fixedPatterns

def controlMarker : Text := text "[REDACTED:CTRL]"

/-- Without control characters, and with the markers. -/
def replaced (tables : Tables) (t : Text) : Text :=
  (injectionPatterns tables).foldl (fun c p => sub p.1 p.2 c) (sub controlRe [] t)

/-- The text before the cut. -/
def condensed (tables : Tables) (t : Text) : Text :=
  strip (sub longSpacesRe (text "   ") (sub blanklinesRe (text "\n\n") (replaced tables t)))

/-- What the cut leaves of a text. -/
def kept (maxLen : ℤ) (t : Text) : Text :=
  if 0 < maxLen ∧ maxLen < t.length then rstrip (t.take maxLen.toNat) else t

/-- How many blanks at the place of the cut are gone with what is behind it. -/
def lost (maxLen : ℤ) (t : Text) : ℕ :=
  if 0 < maxLen ∧ maxLen < t.length then maxLen.toNat - (kept maxLen t).length else 0

/-- No pattern finds anything in the result, and the sanitiser leaves the result as it is. -/
structure CleanFixedPoint (tables : Tables) (maxLen : ℤ) (t : Text) : Prop where
  clean : ∀ p ∈ injectionPatterns tables, search p.1 (sanitizeText tables maxLen t) = none
  fixed : sanitizeText tables maxLen (sanitizeText tables maxLen t) = sanitizeText tables maxLen t

variable {tables : Tables} {maxLen : ℤ} {t u : Text} {r : Regex CodePoint}

theorem sanitizeText_eq (tables : Tables) (maxLen : ℤ) (t : Text) :
    sanitizeText tables maxLen t = cut maxLen (condensed tables t) := by
  rw [sanitizeText]
  split_ifs with h
  · rw [h]
    have hempty : condensed tables [] = [] := by
      have hfold : ∀ ps : List (Regex CodePoint × Text),
          ps.foldl (fun c p => sub p.1 p.2 c) [] = [] := by
        intro ps
        induction ps with
        | nil => rfl
        | cons p ps ih => exact ih
      have hreplaced : replaced tables [] = [] := hfold _
      rw [condensed, hreplaced]
      rfl
    rw [hempty, cut, if_neg]
    rintro ⟨hpos, hlt⟩
    rw [List.length_nil] at hlt
    omega
  · rfl

theorem mem_injectionPatterns {p : Regex CodePoint × Text} (h : p ∈ injectionPatterns tables) :
    (p.1 ∈ literalPatterns ∨ p.1 ∈ phrases tables) ∧ (p.2 = marker ∨ p.2 = controlMarker) := by
  rw [injectionPatterns, List.mem_append] at h
  rcases h with h | h
  · obtain ⟨r, hr, rfl⟩ := List.mem_map.mp h
    refine ⟨?_, Or.inl rfl⟩
    rcases List.mem_append.mp hr with hr | hr
    · rcases List.mem_append.mp hr with hr | hr
      · exact Or.inl (List.mem_cons_of_mem _ (List.mem_append_left _ hr))
      · exact Or.inl (List.mem_cons.mpr (Or.inl (List.mem_singleton.mp hr)))
    · exact Or.inr hr
  · obtain rfl := List.mem_singleton.mp h
    exact ⟨Or.inl (List.mem_cons_of_mem _ (List.mem_append_right _ (List.mem_singleton_self _))),
      Or.inr rfl⟩

theorem mem_injectionPatterns_of_literal (h : r ∈ literalPatterns) :
    ∃ p ∈ injectionPatterns tables, p.1 = r := by
  rcases List.mem_cons.mp h with rfl | h
  · exact ⟨(systemTag, marker), List.mem_append_left _ (List.mem_map_of_mem
      (List.mem_append_left _ (List.mem_append_right _ (List.mem_singleton_self _)))), rfl⟩
  rcases List.mem_append.mp h with h | h
  · exact ⟨(r, marker), List.mem_append_left _ (List.mem_map_of_mem
      (List.mem_append_left _ (List.mem_append_left _ h))), rfl⟩
  · exact ⟨(r, controlMarker), List.mem_append_right _ (by
      rw [List.mem_singleton.mp h]
      exact List.mem_singleton_self _), rfl⟩

theorem mem_injectionPatterns_of_phrase (h : r ∈ phrases tables) :
    (r, marker) ∈ injectionPatterns tables :=
  List.mem_append_left _ (List.mem_map_of_mem (List.mem_append_right _ h))

/-! ## Patterns that are gone for good -/

theorem all_of_mem {p : CodePoint → Bool} {c : CodePoint} (h : t.all p = true) (hc : c ∈ t) :
    p c = true :=
  List.all_eq_true.mp h c hc

theorem strip_part (t : Text) : strip t <:+: t :=
  (List.rdropWhile_prefix isSpace _).isInfix.trans (List.dropWhile_suffix isSpace).isInfix

def markers : List Text := [marker, controlMarker]

/-- What the passes put into a text. -/
def insertions : List Text := markers ++ [text "\n\n", text "   "]

/-- No match touches a marker, and white space of another length makes no match. -/
structure GoneForGood (r : Regex CodePoint) : Prop where
  free : contextFree r = true
  notNil : ∀ before after, ¬Matches r before [] after
  apart : ∀ repl ∈ markers, Apart r repl
  lines : ∀ t, Occurs r (sub blanklinesRe (text "\n\n") t) → Occurs r t
  blanks : ∀ t, Occurs r (sub longSpacesRe (text "   ") t) → Occurs r t

/-- The classes of a fixed pattern clash with all that the passes put in. -/
def separated (r : Regex CodePoint) : Bool :=
  (classes r).any fun ps => !ps.isEmpty && insertions.all (noOverlap ps)

theorem goneForGood_fixed (h : r ∈ fixedPatterns) : GoneForGood r := by
  have hall : fixedPatterns.all separated = true := by decide
  have hseparated := List.all_eq_true.mp hall r h
  rw [separated, Option.any_eq_true] at hseparated
  obtain ⟨ps, hps, hcheck⟩ := hseparated
  rw [Bool.and_eq_true, List.all_eq_true, Bool.not_eq_true', List.isEmpty_eq_false_iff] at hcheck
  obtain ⟨hne, hoverlap⟩ := hcheck
  have hapart := fun repl hrepl => apart_of_noOverlap hps (hoverlap repl hrepl)
  have hfree := contextFree_of_classes hps
  constructor
  · exact hfree
  · exact fun before after => not_matches_nil hps hne
  · exact fun repl hrepl => hapart repl (List.mem_append_left _ hrepl)
  · exact fun t => occurs_of_patched hfree (hapart _ (by decide)) (patched_sub _ _ t)
  · exact fun t => occurs_of_patched hfree (hapart _ (by decide)) (patched_sub _ _ t)

theorem foldCase_space {c : CodePoint} (h : isSpace c = true) : foldCase c = c := by
  have hspace := of_decide_eq_true h
  have hupper : between 'A' 'Z' c = false := by
    rw [between, decide_eq_false_iff_not]
    rintro ⟨hlow, hhigh⟩
    change 65 ≤ c.val at hlow
    change c.val ≤ 90 at hhigh
    omega
  rw [foldCase, hupper, if_neg Bool.false_ne_true, if_neg, if_neg, if_neg]
  · rintro rfl
    cases h
  · rintro rfl
    cases h
  · rintro (rfl | rfl)
    · cases h
    · cases h

theorem takesRuns_word {eq : CodePoint → CodePoint → Bool} {w : Text}
    (h : ∀ d ∈ w, ∀ c, eq d c = true → isSpace c = false) : TakesRuns isSpace (word eq w) := by
  induction w with
  | nil => trivial
  | cons d w ih =>
    obtain ⟨hd, hrest⟩ := List.forall_mem_cons.mp h
    exact ⟨hd, ih hrest⟩

theorem takesRuns_exactly {s : String} (h : (text s).all (fun d => !isSpace d) = true) :
    TakesRuns isSpace (exactly s) := by
  refine takesRuns_word fun d hd c heq => ?_
  rw [← of_decide_eq_true heq]
  exact (Bool.not_eq_true' _).mp (all_of_mem h hd)

theorem takesRuns_ignoringCase {s : String}
    (h : (text s).all (fun d => !isSpace (foldCase d)) = true) :
    TakesRuns isSpace (ignoringCase s) := by
  refine takesRuns_word fun d hd c heq => Bool.eq_false_of_not_eq_true fun hc => ?_
  have hclash := (Bool.not_eq_true' _).mp (all_of_mem h hd)
  rw [of_decide_eq_true heq, foldCase_space hc, hc] at hclash
  cases hclash

theorem takesRuns_systemTag : TakesRuns isSpace systemTag :=
  ⟨takesRuns_exactly (by decide), ⟨rfl, rfl, rfl⟩, ⟨takesRuns_exactly (by decide), trivial⟩,
    ⟨rfl, rfl, rfl⟩, takesRuns_ignoringCase (by decide), ⟨rfl, rfl, rfl⟩,
    takesRuns_exactly (by decide), trivial⟩

/-- A tag begins and ends with a bracket. -/
theorem matches_systemTag {w : Text} (h : Matches systemTag none w []) :
    ∃ v, w = cp '<' :: v ++ [cp '>'] := by
  obtain ⟨m₁, rest, rfl, hopen, m₂, rest₂, rfl, -, m₃, rest₃, rfl, -, m₄, rest₄, rfl, -, m₅, rest₅,
    rfl, -, m₆, rest₆, rfl, -, m₇, rest₇, rfl, hclose, rfl⟩ := h
  obtain ⟨a, b, rfl, ⟨c, rfl, hc⟩, rfl⟩ := hopen
  obtain ⟨a', b', rfl, ⟨d, rfl, hd⟩, rfl⟩ := hclose
  refine ⟨m₂ ++ (m₃ ++ (m₄ ++ (m₅ ++ m₆))), ?_⟩
  have hopen : cp '<' = c := of_decide_eq_true hc
  have hclose : cp '>' = d := of_decide_eq_true hd
  rw [hopen, hclose]
  simp only [List.append_assoc, List.append_nil, List.cons_append, List.nil_append]

theorem goneForGood_systemTag : GoneForGood systemTag := by
  have hfree : contextFree systemTag = true := by decide
  constructor
  · exact hfree
  · intro before after h
    obtain ⟨v, hv⟩ := matches_systemTag (matches_of_contextFree hfree h)
    cases hv
  · intro repl hrepl w hw
    obtain ⟨v, rfl⟩ := matches_systemTag hw
    have hall : markers.all (fun repl => !repl.contains (cp '<') && !repl.contains (cp '>') &&
      repl.contains (cp '[')) = true := by decide
    have hrepl := List.all_eq_true.mp hall repl hrepl
    simp only [Bool.and_eq_true, Bool.not_eq_true', List.contains_eq_mem, decide_eq_true_eq,
      decide_eq_false_iff_not] at hrepl
    refine separates_of_ends hrepl.1.1 hrepl.1.2 hrepl.2 fun hmem => ?_
    have haccepts : accepts (cp '[') systemTag = false := by decide
    rw [accepts_of_mem hw hmem] at haccepts
    cases haccepts
  · have hall : (text "\n\n").all isSpace = true := by decide
    refine fun t => occurs_of_sub takesRuns_systemTag (fun before m after hm c hc => ?_)
      (fun c hc => all_of_mem hall hc) (by decide)
    rw [of_decide_eq_true (hm.1 c hc)]
    decide
  · have hall : (text "   ").all isSpace = true := by decide
    refine fun t => occurs_of_sub takesRuns_systemTag (fun before m after hm c hc => ?_)
      (fun c hc => all_of_mem hall hc) (by decide)
    rw [of_decide_eq_true (hm.1 c hc)]
    decide

theorem goneForGood (h : r ∈ literalPatterns) : GoneForGood r := by
  rcases List.mem_cons.mp h with rfl | h
  · exact goneForGood_systemTag
  · exact goneForGood_fixed h

theorem marker_mem {p : Regex CodePoint × Text} (h : p ∈ injectionPatterns tables) :
    p.2 ∈ markers := by
  rcases (mem_injectionPatterns h).2 with h | h
  · exact h ▸ List.mem_cons_self
  · exact h ▸ List.mem_cons_of_mem _ List.mem_cons_self

theorem not_occurs_foldl (hr : GoneForGood r) {ps : List (Regex CodePoint × Text)}
    (hps : ∀ p ∈ ps, p.2 ∈ markers) (ht : ¬Occurs r t) :
    ¬Occurs r (ps.foldl (fun c p => sub p.1 p.2 c) t) := by
  induction ps generalizing t with
  | nil => exact ht
  | cons p ps ih =>
    obtain ⟨hp, hrest⟩ := List.forall_mem_cons.mp hps
    apply ih hrest
    exact fun hoccurs =>
      ht (occurs_of_patched hr.free (hr.apart p.2 hp) (patched_sub _ _ _) hoccurs)

/-- After its own pass the pattern is gone, and the later passes do not bring it back. -/
theorem not_occurs_condensed (hr : r ∈ literalPatterns) : ¬Occurs r (condensed tables t) := by
  have hgone := goneForGood hr
  obtain ⟨p, hp, rfl⟩ := @mem_injectionPatterns_of_literal tables r hr
  have hmarkers := fun p hp => @marker_mem tables p hp
  have hreplaced : ¬Occurs p.1 (replaced tables t) := by
    obtain ⟨before, after, hsplit⟩ := List.append_of_mem hp
    rw [replaced, hsplit, List.foldl_append, List.foldl_cons]
    apply not_occurs_foldl hgone
    · intro q hq
      apply hmarkers
      rw [hsplit]
      exact List.mem_append_right _ (List.mem_cons_of_mem p hq)
    · exact not_occurs_sub hgone.free hgone.notNil (hgone.apart p.2 (hmarkers p hp)) _
  intro hoccurs
  exact hreplaced (hgone.lines _ (hgone.blanks _
    (occurs_of_part hgone.free (strip_part _) hoccurs)))

/-! ## White space at the ends -/

theorem rstrip_of_getLast {c : CodePoint} (h : isSpace c = false) (t : Text) :
    rstrip (t ++ [c]) = t ++ [c] := by
  rw [rstrip, List.rdropWhile_concat_neg _ _ _ (by rw [h]; exact Bool.false_ne_true)]

theorem rstrip_eq_self_or (t : Text) :
    rstrip t = [] ∨ ∃ init c, rstrip t = init ++ [c] ∧ isSpace c = false := by
  by_cases h : rstrip t = []
  · exact Or.inl h
  · refine Or.inr ⟨(rstrip t).dropLast, (rstrip t).getLast h,
      (List.dropLast_append_getLast h).symm, ?_⟩
    exact Bool.eq_false_of_not_eq_true (List.rdropWhile_last_not isSpace t h)

theorem lstrip_of_head {c : CodePoint} (h : isSpace c = false) (t : Text) :
    lstrip (c :: t) = c :: t := by
  rw [lstrip, List.dropWhile_cons_of_neg (by rw [h]; exact Bool.false_ne_true)]

/-- The first and the last character are no white space. -/
def Trimmed (t : Text) : Prop :=
  (∀ c, t.head? = some c → isSpace c = false) ∧ ∀ c, t.getLast? = some c → isSpace c = false

theorem strip_of_trimmed (h : Trimmed t) : strip t = t := by
  cases t with
  | nil => rfl
  | cons c t =>
    have hlast := h.2 _ (List.getLast?_eq_some_getLast (List.cons_ne_nil c t))
    rw [strip, lstrip_of_head (h.1 c rfl)]
    conv_lhs => rw [← List.dropLast_append_getLast (List.cons_ne_nil c t)]
    rw [rstrip_of_getLast hlast, List.dropLast_append_getLast]

theorem head?_rstrip {c : CodePoint} (h : (rstrip t).head? = some c) : t.head? = some c := by
  obtain ⟨rest, hrest⟩ := List.rdropWhile_prefix isSpace t
  rw [← rstrip] at hrest
  rw [← hrest, List.head?_append, h]
  rfl

theorem trimmed_rstrip (h : ∀ c, t.head? = some c → isSpace c = false) : Trimmed (rstrip t) := by
  refine ⟨fun c hc => h c (head?_rstrip hc), fun c hc => ?_⟩
  rcases rstrip_eq_self_or t with hnil | ⟨init, d, hinit, hd⟩
  · rw [hnil] at hc
    cases hc
  · rw [hinit, List.getLast?_concat] at hc
    rwa [← Option.some.inj hc]

theorem trimmed_strip (t : Text) : Trimmed (strip t) := by
  refine trimmed_rstrip fun c hc => ?_
  have hnot := List.head?_dropWhile_not isSpace t
  rw [← lstrip, hc] at hnot
  exact hnot

/-! ## What the passes leave -/

def isNewline (c : CodePoint) : Bool := c = cp '\n'
def isBlank (c : CodePoint) : Bool := c = cp ' '

/-- What the passes find nothing to do in, but for the phrases. -/
structure Settled (t : Text) : Prop where
  control : ∀ c ∈ t, isControl c = false
  lines : NoRun isNewline 2 t
  blanks : NoRun isBlank 3 t
  trimmed : Trimmed t
  literal : ∀ r ∈ literalPatterns, ¬Occurs r t

theorem insertions_printable :
    insertions.all (fun repl => repl.all fun c => !isControl c) = true := by
  decide

theorem control_patched {repl : Text} (hrepl : repl ∈ insertions) (h : Patched repl t u)
    (ht : ∀ c ∈ t, isControl c = false) : ∀ c ∈ u, isControl c = false := by
  intro c hc
  rcases mem_of_patched h hc with hc | hc
  · exact ht c hc
  · have hall := List.all_eq_true.mp insertions_printable repl hrepl
    exact (Bool.not_eq_true' _).mp (all_of_mem hall hc)

theorem control_replaced : ∀ c ∈ replaced tables t, isControl c = false := by
  have hfold : ∀ (ps : List (Regex CodePoint × Text)) (t : Text), (∀ p ∈ ps, p.2 ∈ insertions) →
      (∀ c ∈ t, isControl c = false) →
      ∀ c ∈ ps.foldl (fun c p => sub p.1 p.2 c) t, isControl c = false := by
    intro ps
    induction ps with
    | nil => exact fun t _ ht => ht
    | cons p ps ih =>
      intro t hps ht
      obtain ⟨hp, hrest⟩ := List.forall_mem_cons.mp hps
      exact ih _ hrest (control_patched hp (patched_sub _ _ _) ht)
  refine hfold _ _ (fun p hp => List.mem_append_left _ (marker_mem hp)) ?_
  rw [controlRe, sub_chars_nil]
  intro c hc
  exact (Bool.not_eq_true' _).mp (List.mem_filter.mp hc).2

theorem settled_condensed (tables : Tables) (t : Text) : Settled (condensed tables t) := by
  have hnewlines : text "\n\n" ∈ insertions := by decide
  have hblanks : text "   " ∈ insertions := by decide
  have hlines := patched_sub blanklinesRe (text "\n\n") (replaced tables t)
  have hspaces := patched_sub longSpacesRe (text "   ")
    (sub blanklinesRe (text "\n\n") (replaced tables t))
  have hinside := strip_part (sub longSpacesRe (text "   ")
    (sub blanklinesRe (text "\n\n") (replaced tables t)))
  constructor
  · intro c hc
    exact control_patched hblanks hspaces (control_patched hnewlines hlines control_replaced) c
      (hinside.subset hc)
  · refine noRun_of_part (noRun_of_patched (by decide) (fun c hc => ?_) hspaces ?_).1 hinside
    · have hall : (text "   ").all (fun c => !isNewline c) = true := by decide
      exact (Bool.not_eq_true' _).mp (all_of_mem hall hc)
    · have hall : (text "\n\n").all isNewline = true := by decide
      exact noRun_sub (fun c hc => all_of_mem hall hc) (by decide) _
  · have hall : (text "   ").all isBlank = true := by decide
    exact noRun_of_part (noRun_sub (fun c hc => all_of_mem hall hc) (by decide) _) hinside
  · exact trimmed_strip _
  · exact fun r hr => not_occurs_condensed hr

/-- A settled text without a match goes through all passes as it is. -/
theorem condensed_of_settled (h : Settled t)
    (hclean : ∀ p ∈ injectionPatterns tables, ¬Occurs p.1 t) : condensed tables t = t := by
  have hfold : ∀ ps : List (Regex CodePoint × Text), (∀ p ∈ ps, ¬Occurs p.1 t) →
      ps.foldl (fun c p => sub p.1 p.2 c) t = t := by
    intro ps
    induction ps with
    | nil => exact fun _ => rfl
    | cons p ps ih =>
      intro hps
      obtain ⟨hp, hrest⟩ := List.forall_mem_cons.mp hps
      rw [List.foldl_cons, sub_of_not_occurs hp]
      exact ih hrest
  have hcontrol : sub controlRe [] t = t := by
    rw [controlRe, sub_chars_nil, List.filter_eq_self]
    exact fun c hc => (Bool.not_eq_true' _).mpr (h.control c hc)
  rw [condensed, replaced, hcontrol, hfold _ hclean]
  have hlines : ¬Occurs blanklinesRe t := not_occurs_of_noRun h.lines
  have hspaces : ¬Occurs longSpacesRe t := not_occurs_of_noRun h.blanks
  rw [sub_of_not_occurs hlines, sub_of_not_occurs hspaces, strip_of_trimmed h.trimmed]

/-! ## The cut -/

def truncatedTail : Text := text "[truncated]"

theorem truncated_eq : truncated = cp '…' :: truncatedTail := rfl

theorem kept_part : kept maxLen t <:+: t := by
  rw [kept]
  split_ifs
  · exact (List.rdropWhile_prefix isSpace _).isInfix.trans (List.take_prefix _ t).isInfix
  · exact List.infix_refl t

theorem cut_cases (maxLen : ℤ) (t : Text) :
    (cut maxLen t = t ∧ kept maxLen t = t ∧ lost maxLen t = 0 ∧
      ¬(0 < maxLen ∧ maxLen < t.length)) ∨
    (cut maxLen t = kept maxLen t ++ truncated ∧ 0 < maxLen ∧
      kept maxLen t = rstrip (t.take maxLen.toNat) ∧
      lost maxLen t = maxLen.toNat - (kept maxLen t).length ∧
      (kept maxLen t).length ≤ maxLen.toNat) := by
  by_cases h : 0 < maxLen ∧ maxLen < t.length
  · right
    have hkept : kept maxLen t = rstrip (t.take maxLen.toNat) := by rw [kept, if_pos h]
    refine ⟨by rw [cut, if_pos h, hkept], h.1, hkept, by rw [lost, if_pos h], ?_⟩
    rw [hkept]
    exact (List.rdropWhile_prefix isSpace _).length_le.trans (List.length_take_le _ _)
  · left
    exact ⟨by rw [cut, if_neg h], by rw [kept, if_neg h], by rw [lost, if_neg h], h⟩

/-- The second cut is that of the first, unless it finds a part of its own mark before it. -/
theorem cut_cut : cut maxLen (cut maxLen t) = cut maxLen t ↔
    lost maxLen t = 0 ∨ 12 ≤ lost maxLen t := by
  have hmark : truncated.length = 12 := by decide
  have hsolid : truncated.all (fun c => !isSpace c) = true := by decide
  rcases cut_cases maxLen t with ⟨hcut, -, hlost, -⟩ | ⟨hcut, hpos, hkept, hlost, hle⟩
  · rw [hcut, hcut]
    exact iff_of_true rfl (Or.inl hlost)
  obtain ⟨n, hn⟩ := Int.eq_ofNat_of_zero_le hpos.le
  subst hn
  rw [Int.toNat_natCast] at hkept hlost hle
  rw [hcut]
  by_cases hshort : lost n t < 12
  swap
  · have hlength : ¬(0 < (n : ℤ) ∧ (n : ℤ) < (kept n t ++ truncated).length) := by
      rw [List.length_append, hmark]
      omega
    rw [cut, if_neg hlength]
    exact iff_of_true rfl (Or.inr (by omega))
  have hlength : 0 < (n : ℤ) ∧ (n : ℤ) < (kept n t ++ truncated).length := by
    rw [List.length_append, hmark]
    omega
  have htake : (kept n t ++ truncated).take n = kept n t ++ truncated.take (lost n t) := by
    rw [List.take_append, List.take_of_length_le hle, hlost]
  rw [cut, if_pos hlength, Int.toNat_natCast, htake]
  cases hk : lost n t with
  | zero =>
    have hidem : rstrip (kept n t) = kept n t := by
      rw [hkept]
      exact List.rdropWhile_idempotent isSpace _
    rw [List.take_zero, List.append_nil, hidem]
    exact iff_of_true rfl (Or.inl rfl)
  | succ k =>
    refine iff_of_false (fun h => ?_) (by omega)
    have hne : truncated.take (k + 1) ≠ [] := by
      rw [truncated_eq, List.take_succ_cons]
      exact List.cons_ne_nil _ _
    have hlast := all_of_mem hsolid (List.mem_of_mem_take (List.getLast_mem hne))
    have hstrip : rstrip (kept n t ++ truncated.take (k + 1)) =
        kept n t ++ truncated.take (k + 1) := by
      rw [← List.dropLast_append_getLast hne, ← List.append_assoc]
      exact rstrip_of_getLast ((Bool.not_eq_true' _).mp hlast) _
    rw [hstrip, List.append_assoc] at h
    have hlengths := congrArg List.length (List.append_cancel_left h)
    rw [List.length_append, List.length_take, hmark] at hlengths
    omega

/-- No match of the ending touches the mark of the cut. -/
def endsBefore (l : Regex CodePoint) : Bool :=
  contextFree l && !accepts (cp '…') l && (search l truncatedTail).isNone

theorem occurs_cut_iff {l : Regex CodePoint} (hedges : ∀ isWord ∈ edges r, isWord (cp '…') = false)
    (hends : EndsWith r l) (hl : endsBefore l = true) :
    Occurs r (cut maxLen t) ↔ Occurs r (kept maxLen t) := by
  rw [endsBefore, Bool.and_eq_true, Bool.and_eq_true, Bool.not_eq_true', Option.isNone_iff_eq_none]
    at hl
  obtain ⟨⟨hfree, haccepts⟩, hsearch⟩ := hl
  rcases cut_cases maxLen t with ⟨hcut, hkept, -⟩ | ⟨hcut, -⟩
  · rw [hcut, hkept]
  · rw [hcut, truncated_eq]
    refine occurs_append_iff hedges hends hfree haccepts fun hoccurs => ?_
    rw [← search_isSome, hsearch] at hoccurs
    cases hoccurs

theorem occurs_cut_literal (hr : r ∈ literalPatterns) (h : Occurs r (cut maxLen t)) :
    Occurs r t := by
  have hends : fixedPatterns.all endsBefore = true := by decide
  have hplain : literalPatterns.all (fun r => (edges r).isEmpty) = true := by decide
  have hnone := List.isEmpty_iff.mp (List.all_eq_true.mp hplain r hr)
  have hedges : ∀ isWord ∈ edges r, isWord (cp '…') = false := by
    rw [hnone]
    exact List.forall_mem_nil _
  refine occurs_of_part (goneForGood hr).free (@kept_part maxLen t) ?_
  rcases List.mem_cons.mp hr with rfl | hr
  · exact (occurs_cut_iff hedges (endsWith_inOrder [exactly "<", spaces, optional (exactly "/"),
      spaces, ignoringCase "system", spaces] (endsWith_refl _)) (by decide)).mp h
  · exact (occurs_cut_iff hedges (endsWith_refl r) (List.all_eq_true.mp hends r hr)).mp h

theorem occurs_cut_phrase (hellipsis : tables.isAlnum (cp '…') = false) (hr : r ∈ phrases tables) :
    Occurs r (cut maxLen t) ↔ Occurs r (kept maxLen t) := by
  have hword : tables.isWord (cp '…') = false := by
    rw [Tables.isWord, hellipsis]
    decide
  have hedge : ∀ n, ∀ isWord ∈ List.replicate n tables.isWord, isWord (cp '…') = false := by
    intro n isWord hmem
    rw [List.eq_of_mem_replicate hmem]
    exact hword
  simp only [phrases, List.mem_cons, List.not_mem_nil, or_false] at hr
  rcases hr with rfl | rfl | rfl
  · exact occurs_cut_iff (hedge 6) (endsWith_boundary _ _ [_, _, _, _, _, _, _, _, _])
      (by decide)
  · exact occurs_cut_iff (hedge 2) (endsWith_boundary _ _ [_, _, _, _, _, _]) (by decide)
  · exact occurs_cut_iff (hedge 4) (endsWith_boundary _ _ [_, _, _, _, _]) (by decide)

theorem settled_cut (h : Settled t) : Settled (cut maxLen t) := by
  rcases cut_cases maxLen t with ⟨hcut, -⟩ | ⟨hcut, hpos, hkept, -, -⟩
  · rwa [hcut]
  have hinside : kept maxLen t <:+: t := kept_part
  rw [hcut]
  constructor
  · intro c hc
    rcases List.mem_append.mp hc with hc | hc
    · exact h.control c (hinside.subset hc)
    · have hall : truncated.all (fun c => !isControl c) = true := by decide
      exact (Bool.not_eq_true' _).mp (all_of_mem hall hc)
  · refine (noRun_append_of_none (noRun_of_part h.lines hinside) fun c hc => ?_).1
    have hall : truncated.all (fun c => !isNewline c) = true := by decide
    exact (Bool.not_eq_true' _).mp (all_of_mem hall hc)
  · refine (noRun_append_of_none (noRun_of_part h.blanks hinside) fun c hc => ?_).1
    have hall : truncated.all (fun c => !isBlank c) = true := by decide
    exact (Bool.not_eq_true' _).mp (all_of_mem hall hc)
  · have hsolid : truncated.all (fun c => !isSpace c) = true := by decide
    constructor
    · intro c hc
      rw [List.head?_append] at hc
      cases hhead : (kept maxLen t).head? with
      | none =>
        rw [hhead, Option.none_or] at hc
        exact (Bool.not_eq_true' _).mp (all_of_mem hsolid (List.mem_of_mem_head? hc))
      | some d =>
        rw [hhead, Option.some_or] at hc
        obtain rfl := Option.some.inj hc
        rw [hkept] at hhead
        have htake := head?_rstrip hhead
        refine h.trimmed.1 d ?_
        rw [List.head?_take] at htake
        split_ifs at htake
        exact htake
    · intro c hc
      rw [List.getLast?_append_of_ne_nil _ (by decide)] at hc
      exact (Bool.not_eq_true' _).mp (all_of_mem hsolid (List.mem_of_getLast? hc))
  · intro r hr hoccurs
    rw [← hcut] at hoccurs
    exact h.literal r hr (occurs_cut_literal hr hoccurs)

end SanitizerFixedPoint
