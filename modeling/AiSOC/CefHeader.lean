import AiSOC.CefExtension

/-! # Reading the header of a CEF line back

What a sender writes for the header, with a backslash before every backslash and bar of a field.
The parser splits at the bars that no backslash stands before, and unescapes only the bars. -/
namespace CefParser

open ByteText

def escapeHeader (field : Bytes) : Bytes :=
  field.flatMap fun c => if c = backslash ∨ c = bar then [backslash, c] else [c]

/-- The fields with a bar after each of them. -/
def encodeHeader (fields : List Bytes) : Bytes :=
  fields.flatMap fun field => escapeHeader field ++ [bar]

variable {c prev : UInt8} {cur s field : Bytes} {fields : List Bytes} {n : ℕ}

theorem escapeHeader_cons (c : UInt8) (field : Bytes) :
    escapeHeader (c :: field) = backslash :: c :: escapeHeader field ∧ (c = backslash ∨ c = bar) ∨
      escapeHeader (c :: field) = c :: escapeHeader field ∧ c ≠ backslash ∧ c ≠ bar := by
  rw [escapeHeader, List.flatMap_cons, ← escapeHeader]
  by_cases hc : c = backslash ∨ c = bar
  · left
    rw [if_pos hc]
    exact ⟨rfl, hc⟩
  · right
    rw [if_neg hc]
    exact ⟨rfl, not_or.mp hc⟩

theorem escapeHeader_eq_self (hslash : backslash ∉ field) (hbar : bar ∉ field) :
    escapeHeader field = field := by
  induction field with
  | nil => rfl
  | cons c field ih =>
    rw [List.mem_cons, not_or] at hslash hbar
    rcases escapeHeader_cons c field with ⟨-, hc⟩ | ⟨hc, -⟩
    · rcases hc with rfl | rfl
      · exact absurd rfl hslash.1
      · exact absurd rfl hbar.1
    · rw [hc, ih hslash.2 hbar.2]

theorem length_escapeHeader (field : Bytes) :
    (escapeHeader field).length = field.length + field.count bar + field.count backslash := by
  have hne : backslash ≠ bar := by decide
  induction field with
  | nil => rfl
  | cons c field ih =>
    rcases escapeHeader_cons c field with ⟨hcons, hc⟩ | ⟨hcons, hslash, hbar⟩
    · rcases hc with rfl | rfl
      · rw [hcons, List.count_cons_self, List.count_cons_of_ne hne]
        simp only [List.length_cons, ih]
        omega
      · rw [hcons, List.count_cons_self, List.count_cons_of_ne hne.symm]
        simp only [List.length_cons, ih]
        omega
    · rw [hcons, List.count_cons_of_ne hslash, List.count_cons_of_ne hbar]
      simp only [List.length_cons, ih]
      omega

theorem count_bar_escapeHeader (field : Bytes) :
    (escapeHeader field).count bar = field.count bar := by
  have hne : backslash ≠ bar := by decide
  induction field with
  | nil => rfl
  | cons c field ih =>
    rcases escapeHeader_cons c field with ⟨hcons, -⟩ | ⟨hcons, -⟩
    · rw [hcons, List.count_cons_of_ne hne, List.count_cons, ih, List.count_cons]
    · rw [hcons, List.count_cons, ih, List.count_cons]

theorem unescapePipe_cons (hc : c ≠ backslash) : unescapePipe (c :: s) = c :: unescapePipe s := by
  cases s with
  | nil => rfl
  | cons d s => rw [unescapePipe, if_neg fun h => hc h.1]

theorem unescapePipe_escapeHeader (h : backslash ∉ field) :
    unescapePipe (escapeHeader field) = field := by
  induction field with
  | nil => rfl
  | cons c field ih =>
    rw [List.mem_cons, not_or] at h
    rcases escapeHeader_cons c field with ⟨hcons, hc⟩ | ⟨hcons, hslash, -⟩
    · obtain rfl := hc.resolve_left (Ne.symm h.1)
      rw [hcons, unescapePipe, if_pos ⟨rfl, rfl⟩, ih h.2]
    · rw [hcons, unescapePipe_cons hslash, ih h.2]

/-- Unescaping takes away one byte at most for each bar. -/
theorem length_le_unescapePipe (s : Bytes) : s.length ≤ (unescapePipe s).length + s.count bar := by
  fun_induction unescapePipe s with
  | case1 => exact Nat.zero_le _
  | case2 c => exact Nat.le_add_right _ _
  | case3 c d rest h ih =>
    obtain ⟨rfl, rfl⟩ := h
    have hne : backslash ≠ bar := by decide
    rw [List.count_cons_of_ne hne, List.count_cons_self]
    simp only [List.length_cons]
    omega
  | case4 c d rest h ih =>
    have hcount : (d :: rest).count bar ≤ (c :: d :: rest).count bar :=
      (List.sublist_cons_self c _).count_le bar
    simp only [List.length_cons] at ih ⊢
    omega

/-- A backslash that was escaped is still there, whatever follows. -/
theorem unescapePipe_ne (h : backslash ∈ field) (more : Bytes) :
    unescapePipe (escapeHeader field ++ more) ≠ field := by
  intro heq
  have hle := length_le_unescapePipe (escapeHeader field ++ more)
  have hpos := List.count_pos_iff.mpr h
  have hmore := List.count_le_length (a := bar) (l := more)
  rw [heq, List.count_append, List.length_append, length_escapeHeader,
    count_bar_escapeHeader] at hle
  omega

theorem escapeHeader_append_ne (h : backslash ∈ field ∨ bar ∈ field) (more : Bytes) :
    escapeHeader field ++ more ≠ field := by
  intro heq
  have hlength := congrArg List.length heq
  rw [List.length_append, length_escapeHeader] at hlength
  rcases h with h | h
  · have hpos := List.count_pos_iff.mpr h
    omega
  · have hpos := List.count_pos_iff.mpr h
    omega

/-- Every bar of an escaped field stands behind a backslash, so that the field is not split. -/
theorem splitFrom_escapeHeader (field : Bytes) (prev : UInt8) (cur s : Bytes) :
    splitFrom bar prev cur (escapeHeader field ++ s) =
      splitFrom bar (field.getLastD prev) (cur ++ escapeHeader field) s := by
  induction field generalizing prev cur with
  | nil => rw [escapeHeader, List.flatMap_nil, List.nil_append, List.append_nil, List.getLastD_nil]
  | cons c field ih =>
    rw [List.getLastD_cons]
    rcases escapeHeader_cons c field with ⟨hcons, -⟩ | ⟨hcons, -, hbar⟩
    · have hslash : ¬(backslash = bar ∧ prev ≠ backslash) := fun h => absurd h.1 (by decide)
      have hescaped : ¬(c = bar ∧ backslash ≠ backslash) := fun h => h.2 rfl
      rw [hcons, List.cons_append, List.cons_append, splitFrom, if_neg hslash, splitFrom,
        if_neg hescaped, ih]
      simp only [List.append_assoc, List.cons_append, List.nil_append]
    · rw [hcons, List.cons_append, splitFrom, if_neg fun h => hbar h.1, ih]
      simp only [List.append_assoc, List.singleton_append]

theorem getLastD_ne_backslash (h : backslash ∉ field) (hprev : prev ≠ backslash) :
    field.getLastD prev ≠ backslash := by
  induction field generalizing prev with
  | nil => exact hprev
  | cons c field ih =>
    rw [List.mem_cons, not_or] at h
    rw [List.getLastD_cons]
    exact ih h.2 (Ne.symm h.1)

/-- A separator ends the part unless a backslash stands before it. -/
theorem splitFrom_bar : splitFrom bar prev cur (bar :: s) =
    if prev = backslash then splitFrom bar bar (cur ++ [bar]) s
    else cur :: splitFrom bar bar [] s := by
  by_cases hprev : prev = backslash
  · simp [splitFrom, hprev]
  · simp [splitFrom, hprev]

/-- The part that is being read is the beginning of the first part. -/
theorem splitFrom_head (prev : UInt8) (cur s : Bytes) :
    ∃ more parts, splitFrom bar prev cur s = (cur ++ more) :: parts := by
  induction s generalizing prev cur with
  | nil => exact ⟨[], [], by rw [splitFrom, List.append_nil]⟩
  | cons c s ih =>
    rw [splitFrom]
    split_ifs with hsplit
    · exact ⟨[], _, by rw [List.append_nil]⟩
    · obtain ⟨more, parts, hparts⟩ := ih c (cur ++ [c])
      exact ⟨c :: more, parts, by rw [hparts, List.append_assoc]; rfl⟩

theorem join_cons {part : Bytes} {parts : List Bytes} (h : parts ≠ []) :
    join bar (part :: parts) = part ++ bar :: join bar parts := by
  cases parts with
  | nil => exact absurd rfl h
  | cons next parts => rfl

theorem splitFrom_ne_nil (prev : UInt8) (cur s : Bytes) : splitFrom bar prev cur s ≠ [] := by
  obtain ⟨more, parts, hparts⟩ := splitFrom_head prev cur s
  rw [hparts]
  exact List.cons_ne_nil _ _

theorem join_splitFrom (prev : UInt8) (cur s : Bytes) :
    join bar (splitFrom bar prev cur s) = cur ++ s := by
  induction s generalizing prev cur with
  | nil => rw [splitFrom, join, List.append_nil]
  | cons c s ih =>
    rw [splitFrom]
    split_ifs with hsplit
    · rw [join_cons (splitFrom_ne_nil _ _ _), ih, List.nil_append, hsplit.1]
    · rw [ih, List.append_assoc]
      rfl

/-- What follows the first parts is a piece of the end of the text. -/
theorem join_drop_suffix (n : ℕ) (prev : UInt8) (cur s : Bytes) :
    join bar ((splitFrom bar prev cur s).drop (n + 1)) <:+ s := by
  induction s generalizing n prev cur with
  | nil =>
    rw [splitFrom, List.drop_succ_cons, List.drop_nil]
    exact List.nil_suffix
  | cons c s ih =>
    rw [splitFrom]
    split_ifs with hsplit
    · rw [List.drop_succ_cons]
      cases n with
      | zero =>
        rw [List.drop_zero, join_splitFrom]
        exact List.suffix_cons c s
      | succ n => exact (ih n c []).trans (List.suffix_cons c s)
    · exact (ih n c _).trans (List.suffix_cons c s)

theorem encodeHeader_cons (field : Bytes) (fields : List Bytes) (s : Bytes) :
    encodeHeader (field :: fields) ++ s =
      escapeHeader field ++ bar :: (encodeHeader fields ++ s) := by
  simp [encodeHeader]

/-- After as many parts as there are fields, the header is over. -/
theorem join_drop_header (hn : fields.length ≤ n) (hpos : 0 < n) (prev : UInt8) (cur s : Bytes) :
    join bar ((splitFrom bar prev cur (encodeHeader fields ++ s)).drop n) <:+ s := by
  induction fields generalizing n prev cur with
  | nil =>
    obtain ⟨n, rfl⟩ := Nat.exists_eq_succ_of_ne_zero hpos.ne'
    exact join_drop_suffix n prev cur s
  | cons field fields ih =>
    rw [List.length_cons] at hn
    rw [encodeHeader_cons, splitFrom_escapeHeader, splitFrom_bar]
    split_ifs with hprev
    · exact ih (Nat.le_of_succ_le hn) hpos bar _
    · obtain ⟨n, rfl⟩ := Nat.exists_eq_succ_of_ne_zero hpos.ne'
      rw [Nat.succ_eq_add_one, List.drop_succ_cons]
      cases n with
      | zero =>
        obtain rfl := List.length_eq_zero_iff.mp (Nat.le_zero.mp (Nat.le_of_succ_le_succ hn))
        rw [List.drop_zero, join_splitFrom]
        exact List.suffix_rfl
      | succ n => exact ih (Nat.le_of_succ_le_succ hn) (Nat.succ_pos n) bar []

/-- A field without backslashes is a part of its own. -/
theorem splitFrom_field (h : backslash ∉ field) (hprev : prev ≠ backslash)
    (fields : List Bytes) (cur s : Bytes) :
    splitFrom bar prev cur (encodeHeader (field :: fields) ++ s) =
      (cur ++ escapeHeader field) :: splitFrom bar bar [] (encodeHeader fields ++ s) := by
  rw [encodeHeader_cons, splitFrom_escapeHeader, splitFrom_bar,
    if_neg (getLastD_ne_backslash h hprev)]

/-- The first part holds at least the first field. -/
theorem splitFrom_first (field : Bytes) (fields : List Bytes) (prev : UInt8) (cur s : Bytes) :
    ∃ more parts, splitFrom bar prev cur (encodeHeader (field :: fields) ++ s) =
      (cur ++ (escapeHeader field ++ more)) :: parts := by
  rw [encodeHeader_cons, splitFrom_escapeHeader]
  obtain ⟨more, parts, hparts⟩ := splitFrom_head (field.getLastD prev) (cur ++ escapeHeader field)
    (bar :: (encodeHeader fields ++ s))
  exact ⟨more, parts, by rw [hparts, List.append_assoc]⟩

theorem splitFrom_header (h : ∀ field ∈ fields, backslash ∉ field) (s : Bytes) :
    splitFrom bar bar [] (encodeHeader fields ++ s) =
      fields.map escapeHeader ++ splitFrom bar bar [] s := by
  induction fields with
  | nil => rfl
  | cons field fields ih =>
    obtain ⟨hfield, hrest⟩ := List.forall_mem_cons.mp h
    rw [splitFrom_field hfield (by decide), ih hrest, List.nil_append]
    rfl

/-- The parts are unescaped to the fields if no field has a backslash, and only then. -/
theorem map_unescapePipe_iff (fields : List Bytes) (s : Bytes) :
    ((splitFrom bar bar [] (encodeHeader fields ++ s)).take fields.length).map unescapePipe =
      fields ↔ ∀ field ∈ fields, backslash ∉ field := by
  induction fields with
  | nil => simp
  | cons field fields ih =>
    rw [List.forall_mem_cons]
    by_cases hfield : backslash ∈ field
    · obtain ⟨more, parts, hparts⟩ := splitFrom_first field fields bar [] s
      rw [hparts, List.length_cons, List.take_succ_cons, List.map_cons, List.nil_append]
      constructor
      · intro heq
        exact absurd (List.cons.inj heq).1 (unescapePipe_ne hfield more)
      · intro h
        exact absurd hfield h.1
    · rw [splitFrom_field hfield (by decide), List.length_cons, List.take_succ_cons,
        List.map_cons, List.nil_append, unescapePipe_escapeHeader hfield, List.cons_inj_right, ih]
      exact (and_iff_right hfield).symm

end CefParser
