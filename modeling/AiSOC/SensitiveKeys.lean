import AiSOC.AuditRedaction

/-! # The two classifications of keys

The audit log and the submitted events each have their own list of words for secret keys. A
pattern of words occurs in a key exactly if one of its spellings is a piece of the key in lower
case. -/
namespace SensitiveKeys

open CodeText RegexSearch EventSanitiser AuditRedaction

/-- With nothing, an underscore or a hyphen between the words. -/
def spellings : List String → List Text
  | [] => [[]]
  | [w] => [text w]
  | w :: v :: words => (spellings (v :: words)).flatMap fun rest =>
      [text w ++ rest, text w ++ cp '_' :: rest, text w ++ cp '-' :: rest]

def Mentions (words : List String) (key : Text) : Prop :=
  ∃ spelled ∈ spellings words, spelled <:+: key.map foldCase

/-- A line break may follow. -/
def IsWord (word : String) (key : Text) : Prop :=
  key.map foldCase = text word ∨ key.map foldCase = text word ++ text "\n"

/-- The words of the event sanitiser. -/
def eventWords : List (List String) :=
  [["password"], ["passwd"], ["secret"], ["token"], ["api", "key"], ["apikey"],
    ["private", "key"], ["client", "secret"], ["authorization"], ["auth", "header"], ["bearer"],
    ["session", "id"], ["sessionid"], ["cookie"], ["set", "cookie"], ["refresh", "token"],
    ["access", "token"], ["id", "token"], ["jwt"], ["otp"], ["mfa", "code"], ["2fa"],
    ["aws", "secret", "access", "key"], ["aws", "access", "key", "id"]]

/-- The words of the audit log that the event sanitiser lacks, and the others. -/
def auditOnlyWords : List (List String) :=
  [["credential"], ["recovery", "code"], ["signing", "key"]]

def auditWords : List (List String) :=
  [["password"], ["passwd"], ["secret"], ["token"], ["api", "key"], ["private", "key"],
    ["authorization"], ["client", "secret"], ["refresh", "token"], ["access", "token"],
    ["session", "id"], ["cookie"], ["otp"], ["mfa", "code"], ["webhook", "secret"]]

def MentionsAny (list : List (List String)) (key : Text) : Prop :=
  ∃ words ∈ list, Mentions words key

/-! ## Patterns and spellings -/

variable {before : Option CodePoint} {m after key : Text} {words : List String}

theorem matches_word (w : Text) : Matches (word eqIgnoreCase w) before m after ↔
    m.map foldCase = w.map foldCase := by
  induction w generalizing before m with
  | nil =>
    change m = [] ↔ _
    rw [List.map_nil, List.map_eq_nil_iff]
  | cons c w ih =>
    change (∃ m₁ m₂, m = m₁ ++ m₂ ∧ (∃ d, m₁ = [d] ∧ eqIgnoreCase c d = true) ∧
      Matches (word eqIgnoreCase w) _ m₂ after) ↔ _
    rw [List.map_cons]
    constructor
    · rintro ⟨_, m₂, rfl, ⟨d, rfl, hd⟩, hrest⟩
      rw [List.singleton_append, List.map_cons, ih.mp hrest, of_decide_eq_true hd]
    · intro h
      obtain ⟨d, m₂, rfl, hd, hrest⟩ := List.map_eq_cons_iff.mp h
      exact ⟨[d], m₂, rfl, ⟨d, rfl, decide_eq_true hd.symm⟩, ih.mpr hrest⟩

/-- A character that is no letter is nothing else in lower case. -/
theorem foldCase_eq_iff {c d : CodePoint} (hd : d = cp '_' ∨ d = cp '-' ∨ d = cp '\n') :
    foldCase c = d ↔ c = d := by
  have hlow : d.val < 97 ∧ (d.val < 65 ∨ 90 < d.val) := by
    rcases hd with rfl | rfl | rfl <;> decide
  have hne : ∀ {a b : CodePoint}, 97 ≤ a.val → 97 ≤ b.val → (a = d ↔ b = d) := by
    intro a b ha hb
    constructor
    · rintro rfl
      omega
    · rintro rfl
      omega
  rw [foldCase]
  split_ifs with hupper hi hs hk
  · have hrange : 65 ≤ c.val ∧ c.val ≤ 90 := of_decide_eq_true hupper
    have hval : (c + 0x20 : CodePoint).val = c.val + 32 := by
      rw [Fin.val_add]
      exact Nat.mod_eq_of_lt (by change c.val + 32 < 0x110000; omega)
    constructor
    · rintro rfl
      omega
    · rintro rfl
      omega
  · apply hne (by decide)
    rcases hi with rfl | rfl <;> decide
  · subst hs
    exact hne (by decide) (by decide)
  · subst hk
    exact hne (by decide) (by decide)
  · exact Iff.rfl

theorem matches_ignoringCase (w : String) : Matches (ignoringCase w) before m after ↔
    m.map foldCase = (text w).map foldCase := matches_word (text w)

theorem matches_hyphen : Matches hyphen before m after ↔
    m.map foldCase = [] ∨ m.map foldCase = [cp '_'] ∨ m.map foldCase = [cp '-'] := by
  change (∃ c, m = [c] ∧ decide (c ∈ text "_-") = true) ∨ m = [] ↔ _
  rw [List.map_eq_nil_iff, or_comm]
  refine or_congr_right ?_
  constructor
  · rintro ⟨c, rfl, hc⟩
    rcases List.mem_cons.mp (of_decide_eq_true hc) with rfl | hc
    · exact Or.inl rfl
    · obtain rfl := List.mem_singleton.mp hc
      exact Or.inr rfl
  · rintro (h | h)
    · obtain ⟨c, rest, rfl, hc, hrest⟩ := List.map_eq_cons_iff.mp h
      obtain rfl := List.map_eq_nil_iff.mp hrest
      obtain rfl := (foldCase_eq_iff (Or.inl rfl)).mp hc
      exact ⟨_, rfl, by decide⟩
    · obtain ⟨c, rest, rfl, hc, hrest⟩ := List.map_eq_cons_iff.mp h
      obtain rfl := List.map_eq_nil_iff.mp hrest
      obtain rfl := (foldCase_eq_iff (Or.inr (Or.inl rfl))).mp hc
      exact ⟨_, rfl, by decide⟩

/-- The words are written in lower case. -/
def Lower (words : List String) : Prop := ∀ w ∈ words, (text w).map foldCase = text w

instance (words : List String) : Decidable (Lower words) :=
  inferInstanceAs (Decidable (∀ w ∈ words, _))

theorem matches_hyphenated (h : Lower words) : Matches (hyphenated words) before m after ↔
    m.map foldCase ∈ spellings words := by
  induction words generalizing before m with
  | nil =>
    change m = [] ↔ _
    rw [spellings, List.mem_singleton, List.map_eq_nil_iff]
  | cons w words ih =>
    obtain ⟨hw, hwords⟩ := List.forall_mem_cons.mp h
    cases words with
    | nil =>
      change (∃ m₁ m₂, m = m₁ ++ m₂ ∧ Matches (ignoringCase w) _ m₁ _ ∧ m₂ = []) ↔ _
      rw [spellings, List.mem_singleton]
      constructor
      · rintro ⟨m₁, _, rfl, hm, rfl⟩
        rw [List.append_nil, (matches_ignoringCase w).mp hm, hw]
      · intro hm
        refine ⟨m, [], (List.append_nil m).symm, ?_, rfl⟩
        exact (matches_ignoringCase w).mpr (hm.trans hw.symm)
    | cons v words =>
      change (∃ m₁ m', m = m₁ ++ m' ∧ Matches (ignoringCase w) _ m₁ _ ∧
        ∃ m₂ m₃, m' = m₂ ++ m₃ ∧ Matches hyphen _ m₂ _ ∧
          Matches (hyphenated (v :: words)) _ m₃ after) ↔ _
      rw [spellings, List.mem_flatMap]
      simp only [List.mem_cons, List.not_mem_nil, or_false]
      constructor
      · rintro ⟨m₁, _, rfl, hm₁, m₂, m₃, rfl, hm₂, hm₃⟩
        refine ⟨m₃.map foldCase, (ih hwords).mp hm₃, ?_⟩
        rw [List.map_append, List.map_append, (matches_ignoringCase w).mp hm₁, hw]
        rcases matches_hyphen.mp hm₂ with hm₂ | hm₂ | hm₂
        · exact Or.inl (by rw [hm₂, List.nil_append])
        · exact Or.inr (Or.inl (by rw [hm₂, List.singleton_append]))
        · exact Or.inr (Or.inr (by rw [hm₂, List.singleton_append]))
      · rintro ⟨rest, hrest, hm⟩
        have hsplit : ∃ sep, m.map foldCase = text w ++ (sep ++ rest) ∧
            (sep = [] ∨ sep = [cp '_'] ∨ sep = [cp '-']) := by
          rcases hm with hm | hm | hm
          · exact ⟨[], hm, Or.inl rfl⟩
          · exact ⟨[cp '_'], hm, Or.inr (Or.inl rfl)⟩
          · exact ⟨[cp '-'], hm, Or.inr (Or.inr rfl)⟩
        obtain ⟨sep, hm, hsep⟩ := hsplit
        obtain ⟨m₁, m', rfl, hm₁, hm'⟩ := List.map_eq_append_iff.mp hm
        obtain ⟨m₂, m₃, rfl, rfl, rfl⟩ := List.map_eq_append_iff.mp hm'
        exact ⟨m₁, _, rfl, (matches_ignoringCase w).mpr (hm₁.trans hw.symm), m₂, m₃, rfl,
          matches_hyphen.mpr hsep, (ih hwords).mpr hrest⟩

/-- The search for a pattern is the search for its spellings in lower case. -/
theorem search_hyphenated (h : Lower words) :
    (search (hyphenated words) key).isSome ↔ Mentions words key := by
  rw [search_isSome]
  constructor
  · rintro ⟨pre, m, post, rfl, hm⟩
    refine ⟨m.map foldCase, (matches_hyphenated h).mp hm, pre.map foldCase, post.map foldCase, ?_⟩
    rw [List.map_append, List.map_append]
  · rintro ⟨spelled, hspelled, pre, post, hkey⟩
    obtain ⟨l, post, rfl, hl, rfl⟩ := List.map_eq_append_iff.mp hkey.symm
    obtain ⟨pre, m, rfl, rfl, rfl⟩ := List.map_eq_append_iff.mp hl
    exact ⟨pre, m, post, rfl, (matches_hyphenated h).mpr hspelled⟩

theorem found_whole {w : String} (h : (text w).map foldCase = text w) :
    (KeyPattern.whole w).found key = true ↔ IsWord w key := by
  rw [KeyPattern.found, List.any_eq_true]
  have hbreak : ∀ {rest : Text}, rest.map foldCase = text "\n" ↔ rest = text "\n" := by
    intro rest
    constructor
    · intro hrest
      obtain ⟨c, tail, rfl, hc, htail⟩ := List.map_eq_cons_iff.mp hrest
      obtain rfl := List.map_eq_nil_iff.mp htail
      obtain rfl := (foldCase_eq_iff (Or.inr (Or.inr rfl))).mp hc
      rfl
    · rintro rfl
      decide
  constructor
  · rintro ⟨place, hplace, hrest⟩
    obtain ⟨m, hto, hm⟩ := (mem_ends _).mp hplace
    have hkey : key = m ++ place.rest := hto.1
    rw [matches_ignoringCase, h] at hm
    rcases of_decide_eq_true hrest with hrest | hrest
    · left
      rw [hkey, hrest, List.append_nil, hm]
    · right
      rw [hkey, List.map_append, hm, hbreak.mpr hrest]
  · rintro (hkey | hkey)
    · refine ⟨⟨lastOf none key, []⟩, (mem_ends _).mpr ⟨key, ⟨(List.append_nil _).symm, rfl⟩, ?_⟩,
        decide_eq_true (Or.inl rfl)⟩
      exact (matches_ignoringCase w).mpr (hkey.trans h.symm)
    · obtain ⟨m, rest, rfl, hm, hrest⟩ := List.map_eq_append_iff.mp hkey
      refine ⟨⟨lastOf none m, rest⟩, (mem_ends _).mpr ⟨m, ⟨rfl, rfl⟩, ?_⟩,
        decide_eq_true (Or.inr (hbreak.mp hrest))⟩
      exact (matches_ignoringCase w).mpr (hm.trans h.symm)

/-! ## The two lists -/

theorem event_sensitive_iff :
    EventSanitiser.isSensitiveKey (.str key) = true ↔ MentionsAny eventWords key := by
  have hlower : ∀ words ∈ eventWords, Lower words := by decide
  have hpatterns : EventSanitiser.sensitiveKeyPatterns = eventWords.map hyphenated := rfl
  rw [EventSanitiser.isSensitiveKey, hpatterns, List.any_map, List.any_eq_true]
  constructor
  · rintro ⟨words, hmem, hfound⟩
    exact ⟨words, hmem, (search_hyphenated (hlower words hmem)).mp hfound⟩
  · rintro ⟨words, hmem, hmention⟩
    exact ⟨words, hmem, (search_hyphenated (hlower words hmem)).mpr hmention⟩

theorem audit_sensitive_iff : AuditRedaction.isSensitiveKey key = true ↔
    MentionsAny auditWords key ∨ MentionsAny auditOnlyWords key ∨ IsWord "auth" key := by
  have hlower : ∀ words ∈ auditWords ++ auditOnlyWords, Lower words := by decide
  have hlisted : ∀ pattern ∈ AuditRedaction.sensitiveKeyPatterns,
      (∃ words ∈ auditWords ++ auditOnlyWords, KeyPattern.anywhere words = pattern) ∨
        pattern = .whole "auth" := by decide
  have hanywhere : ∀ words ∈ auditWords ++ auditOnlyWords,
      .anywhere words ∈ AuditRedaction.sensitiveKeyPatterns := by decide
  have hauth : KeyPattern.found key (.whole "auth") = true ↔ IsWord "auth" key :=
    found_whole (by decide)
  rw [AuditRedaction.isSensitiveKey, List.any_eq_true, ← or_assoc, ← hauth]
  constructor
  · rintro ⟨pattern, hmem, hfound⟩
    rcases hlisted pattern hmem with ⟨words, hwords, rfl⟩ | rfl
    · have hmention := (search_hyphenated (hlower words hwords)).mp hfound
      rcases List.mem_append.mp hwords with hwords | hwords
      · exact Or.inl (Or.inl ⟨words, hwords, hmention⟩)
      · exact Or.inl (Or.inr ⟨words, hwords, hmention⟩)
    · exact Or.inr hfound
  · have hsearch : ∀ words ∈ auditWords ++ auditOnlyWords, Mentions words key →
        ∃ pattern ∈ AuditRedaction.sensitiveKeyPatterns, pattern.found key = true := by
      intro words hwords hmention
      exact ⟨.anywhere words, hanywhere words hwords,
        (search_hyphenated (hlower words hwords)).mpr hmention⟩
    rintro ((⟨words, hwords, hmention⟩ | ⟨words, hwords, hmention⟩) | hfound)
    · exact hsearch words (List.mem_append_left _ hwords) hmention
    · exact hsearch words (List.mem_append_right _ hwords) hmention
    · exact ⟨.whole "auth", by decide, hfound⟩

/-- The words that the two lists have in common cover each other. -/
theorem mentions_event (h : MentionsAny auditWords key) : MentionsAny eventWords key := by
  obtain ⟨words, hwords, hmention⟩ := h
  have hcommon : ∀ words ∈ auditWords, words ∈ eventWords ∨ words = ["webhook", "secret"] := by
    decide
  rcases hcommon words hwords with hcommon | rfl
  · exact ⟨words, hcommon, hmention⟩
  · obtain ⟨spelled, hspelled, hpiece⟩ := hmention
    have hsecret : ∀ spelled ∈ spellings ["webhook", "secret"], text "secret" <:+: spelled := by
      decide
    exact ⟨["secret"], by decide, text "secret", by decide, (hsecret spelled hspelled).trans hpiece⟩

theorem auth_not_event (h : IsWord "auth" key) : ¬ MentionsAny eventWords key := by
  have hnone : ∀ words ∈ eventWords, ∀ spelled ∈ spellings words,
      ¬ spelled <:+: text "auth" ∧ ¬ spelled <:+: text "auth" ++ text "\n" := by decide
  rintro ⟨words, hwords, spelled, hspelled, hpiece⟩
  rcases h with hkey | hkey
  · rw [hkey] at hpiece
    exact (hnone words hwords spelled hspelled).1 hpiece
  · rw [hkey] at hpiece
    exact (hnone words hwords spelled hspelled).2 hpiece

/-- The event sanitiser takes a key of the audit log for a secret one exactly if it is not
`auth`, and mentions a word of its own if it mentions one of those that it lacks. -/
theorem redactors_agree_iff (key : Text) :
    (AuditRedaction.isSensitiveKey key = true → EventSanitiser.isSensitiveKey (.str key) = true) ↔
      ¬ IsWord "auth" key ∧ (MentionsAny auditOnlyWords key → MentionsAny eventWords key) := by
  rw [audit_sensitive_iff, event_sensitive_iff]
  constructor
  · intro h
    refine ⟨?_, ?_⟩
    · intro hauth
      exact auth_not_event hauth (h (Or.inr (Or.inr hauth)))
    · intro honly
      exact h (Or.inr (Or.inl honly))
  · rintro ⟨hauth, honly⟩ (hmention | hmention | hword)
    · exact mentions_event hmention
    · exact honly hmention
    · exact absurd hword hauth

theorem credential_shown : AuditRedaction.isSensitiveKey (text "aws_credentials") = true ∧
    EventSanitiser.isSensitiveKey (.str (text "aws_credentials")) = false := by decide

end SensitiveKeys
