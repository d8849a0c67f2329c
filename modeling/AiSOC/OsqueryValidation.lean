import AiSOC.OsqueryAllowlist
import AiSOC.WordSplit

/-! # Checking a query against the templates

A text passes if it is, up to white space, what a template gives with its defaults. -/
namespace OsqueryValidation

open CodeText OsqueryAllowlist WordSplit

def defaultParams (templateId : Text) : Params :=
  OrderedDict.ofList ((defaults.lookup templateId).getD [])

/-- One space between two words. -/
def normalise (sql : Text) : Text := joined isSpace (cp ' ') sql

def rejected : Text :=
  text "SQL does not match any approved template. " ++
    text "Use render_query() with an approved template ID."

/-- The query of the template without parameters. -/
def matchesDefault (sql templateId : Text) : Bool :=
  match renderQuery templateId (defaultParams templateId) with
  | .ok rendered => normalise sql = normalise rendered
  | .error _ => false

def validateRawSql (sql : Text) : Except Text Unit :=
  if (templates.map Prod.fst).any (matchesDefault sql) then .ok () else .error rejected

/-- Up to white space, the query of some template with some parameters. -/
def IsRendering (sql : Text) : Prop :=
  ∃ templateId params rendered, renderQuery templateId params = .ok rendered ∧
    normalise sql = normalise rendered

/-- What of a value is seen up to white space: nothing of the space in front of a number, nor of
that behind it if a space follows. -/
def shown (name value : Text) : Text :=
  if name = directory then value else if name = limit then lstrip value else strip value

/-- The values of the placeholders are the defaults. -/
def AreDefaults (templateId : Text) (params : Params) : Prop :=
  ∀ name ∈ (template templateId).filterMap Part.placeholder,
    shown name (valueOf (merged templateId params) name) =
      valueOf (defaultParams templateId) name

def Agrees (sql : Text) : Prop := validateRawSql sql = .ok () ↔ IsRendering sql

variable {templateId templateId' sql rendered start : Text} {params : Params} {v w d : Text}

/-! ## Words of renderings -/

theorem normalise_eq_iff : normalise v = normalise w ↔ words isSpace v = words isSpace w :=
  joined_eq_iff (by decide)

theorem words_statement (hd : IsWord isSpace d) :
    words isSpace (d ++ text ";") = [d ++ text ";"] := by
  have hmark : isSpace (cp ';') = false := by decide
  refine (words_append_mark hd hmark).mpr (List.dropWhile_eq_self_iff.mpr fun hpos => ?_)
  simpa using hd.2 _ (List.getElem_mem hpos)

/-- A value before the end of the statement. -/
theorem words_limit (hd : IsWord isSpace d) :
    words isSpace (v ++ text ";") = words isSpace (d ++ text ";") ↔ lstrip v = d := by
  rw [words_statement hd]
  exact words_append_mark hd (by decide)

/-- A value between two spaces. -/
theorem words_spaced (hd : IsWord isSpace d) :
    words isSpace v = words isSpace d ↔ strip v = d := by
  rw [hd.words, words_eq_singleton_iff_strip hd, strip, rstrip, lstrip]

theorem words_quoted (hd : ∀ c ∈ d, isSpace c = false) :
    words isSpace (SqlTokens.apostrophe :: v ++ [SqlTokens.apostrophe]) =
      [SqlTokens.apostrophe :: d ++ [SqlTokens.apostrophe]] ↔ v = d := by
  have hmark : isSpace SqlTokens.apostrophe = false := by decide
  have hword : IsWord isSpace (SqlTokens.apostrophe :: d) :=
    ⟨List.cons_ne_nil _ _, List.forall_mem_cons.mpr ⟨hmark, hd⟩⟩
  rw [words_append_mark hword hmark, List.dropWhile_cons_of_neg (by simp [hmark])]
  exact ⟨fun h => (List.cons.inj h).2, fun h => by rw [h]⟩

/-- Two words around others that neither begin with the first nor end with the second. -/
theorem eq_around {α : Type} {x y w : List α} {a b u l : α} (hhead : w.head? = some u)
    (hlast : w.getLast? = some l) (hu : u ≠ a) (hl : l ≠ b)
    (h : x ++ (w ++ y) = a :: (w ++ [b])) : x = [a] ∧ y = [b] := by
  cases x with
  | nil =>
    cases w with
    | nil => cases hhead
    | cons c w =>
      obtain rfl := Option.some.inj hhead
      exact absurd (List.cons.inj h).1 hu
  | cons c x =>
    obtain ⟨rfl, hrest⟩ : c = a ∧ x ++ (w ++ y) = w ++ [b] := List.cons.inj h
    have hlength := congrArg List.length hrest
    simp only [List.length_append, List.length_singleton] at hlength
    cases y with
    | nil =>
      have hend := congrArg List.getLast? hrest
      simp only [List.append_nil, List.getLast?_append, hlast, Option.some_or,
        List.getLast?_singleton] at hend
      exact absurd (Option.some.inj hend) hl
    | cons d y =>
      rw [List.length_cons] at hlength
      have hx : x = [] := List.length_eq_zero_iff.mp (by omega)
      subst hx
      exact ⟨rfl, List.append_cancel_left hrest⟩

/-! ## One template -/

/-- What stands between the two numbers of the process tree. -/
structure Between (middle : Text) : Prop where
  starts : text "   UNION " <+: middle
  ends : text " < " <:+ middle

theorem Between.head {middle : Text} (h : Between middle) : middle.head? = some (cp ' ') := by
  obtain ⟨t, rfl⟩ := h.starts
  rfl

theorem Between.last {middle : Text} (h : Between middle) : middle.getLast? = some (cp ' ') := by
  obtain ⟨t, rfl⟩ := h.ends
  rw [List.getLast?_append]
  rfl

theorem Between.first {middle : Text} (h : Between middle) :
    (words isSpace middle).head? = some (text "UNION") := by
  have hword : words isSpace (text "   UNION ") = [text "UNION"] := by
    rw [text_ofList, text_ofList]
    decide
  obtain ⟨t, rfl⟩ := h.starts
  rw [@words_append_of_last _ _ (cp ' ') _ _ rfl (by decide), hword]
  rfl

theorem Between.final {middle : Text} (h : Between middle) :
    (words isSpace middle).getLast? = some (text "<") := by
  have hword : words isSpace (text " < ") = [text "<"] := by
    rw [text_ofList, text_ofList]
    decide
  obtain ⟨t, rfl⟩ := h.ends
  rw [@words_append_of_head _ _ (cp ' ') _ _ rfl (by decide), hword, List.getLast?_append]
  rfl

/-- What follows the opening of a template. -/
inductive Tail : List Part → Prop where
  | limit : Tail [.value limit, .text (text ";")]
  | directory : Tail [.quoted directory, .text (text " LIMIT "), .value limit, .text (text ";")]
  | tree {middle behind : Text} (hmiddle : Between middle)
      (hbehind : behind.head? = some (cp ' ')) :
      Tail [.value pid, .text middle, .value maxDepth, .text behind]

/-- Defaults are words, and none of the two around what stands between. -/
def Plain (tail : List Part) (values : Params) : Prop :=
  ∀ name ∈ tail.filterMap Part.placeholder, IsWord isSpace (valueOf values name) ∧
    valueOf values name ≠ text "UNION" ∧ valueOf values name ≠ text "<"

theorem words_ne_nil {c : CodePoint} (hc : isSpace c = false) (h : c ∈ v) :
    words isSpace v ≠ [] := by
  intro hnil
  have hspace := words_eq_nil.mp hnil c h
  rw [hc] at hspace
  cases hspace

theorem words_tail_directory {values values' : Params}
    (hd : ∀ c ∈ valueOf values' directory, isSpace c = false)
    (hl : IsWord isSpace (valueOf values' limit)) :
    words isSpace ((SqlTokens.apostrophe :: valueOf values directory ++ [SqlTokens.apostrophe]) ++
        (text " LIMIT " ++ (valueOf values limit ++ text ";"))) =
      words isSpace ((SqlTokens.apostrophe :: valueOf values' directory ++
        [SqlTokens.apostrophe]) ++ (text " LIMIT " ++ (valueOf values' limit ++ text ";"))) ↔
    valueOf values directory = valueOf values' directory ∧
      lstrip (valueOf values limit) = valueOf values' limit := by
  have hsplit : ∀ x y, words isSpace (x ++ (text " LIMIT " ++ y)) =
      words isSpace x ++ (text "LIMIT" :: words isSpace y) := by
    intro x y
    have hword : IsWord isSpace (text "LIMIT") := by
      rw [text_ofList]
      decide
    have hspaced : words isSpace (text " LIMIT ") = words isSpace (text "LIMIT") := by
      rw [text_ofList, text_ofList]
      decide
    rw [@words_append_of_head _ _ (cp ' ') _ _ rfl (by decide),
      @words_append_of_last _ _ (cp ' ') _ _ rfl (by decide), hspaced, hword.words,
      List.singleton_append]
  have hquoted : words isSpace (SqlTokens.apostrophe :: valueOf values' directory ++
      [SqlTokens.apostrophe]) = [SqlTokens.apostrophe :: valueOf values' directory ++
        [SqlTokens.apostrophe]] :=
    (words_quoted hd).mpr rfl
  have hlimit := @words_limit (valueOf values limit) _ hl
  rw [hsplit, hsplit, hquoted, ← words_quoted hd, ← hlimit]
  constructor
  · intro h
    rw [words_statement hl] at h ⊢
    have hx : words isSpace (SqlTokens.apostrophe :: valueOf values directory ++
        [SqlTokens.apostrophe]) ≠ [] := words_ne_nil (by decide) List.mem_cons_self
    have hy : words isSpace (valueOf values limit ++ text ";") ≠ [] :=
      @words_ne_nil _ (cp ';') (by decide) (List.mem_append_right _ List.mem_cons_self)
    have hlength := congrArg List.length h
    simp only [List.length_append, List.length_cons, List.length_nil] at hlength
    have hxpos := List.length_pos_iff.mpr hx
    have hypos := List.length_pos_iff.mpr hy
    obtain ⟨hxs, hys⟩ := List.append_inj h (by rw [List.length_singleton]; omega)
    exact ⟨hxs, (List.cons.inj hys).2⟩
  · rintro ⟨hx, hy⟩
    rw [hx, hy]

theorem words_tail_tree {values values' : Params} {middle behind : Text}
    (hmiddle : Between middle) (hbehind : behind.head? = some (cp ' '))
    (hp : IsWord isSpace (valueOf values' pid)) (hm : IsWord isSpace (valueOf values' maxDepth))
    (hpid : valueOf values' pid ≠ text "UNION") (hdepth : valueOf values' maxDepth ≠ text "<") :
    words isSpace (valueOf values pid ++ (middle ++ (valueOf values maxDepth ++ behind))) =
      words isSpace (valueOf values' pid ++ (middle ++ (valueOf values' maxDepth ++ behind))) ↔
    strip (valueOf values pid) = valueOf values' pid ∧
      strip (valueOf values maxDepth) = valueOf values' maxDepth := by
  have hspace : isSpace (cp ' ') = true := by decide
  have hsplit : ∀ x y, words isSpace (x ++ (middle ++ (y ++ behind))) =
      words isSpace x ++ (words isSpace middle ++ words isSpace y) ++ words isSpace behind := by
    intro x y
    have hhead : (middle ++ (y ++ behind)).head? = some (cp ' ') := by
      rw [List.head?_append, hmiddle.head, Option.some_or]
    rw [words_append_of_head hhead hspace, words_append_of_last hmiddle.last hspace,
      words_append_of_head hbehind hspace, List.append_assoc, List.append_assoc]
  rw [hsplit, hsplit, List.append_left_inj, ← words_spaced hp, ← words_spaced hm, hp.words,
    hm.words]
  constructor
  · exact eq_around hmiddle.first hmiddle.final hpid.symm hdepth.symm
  · rintro ⟨hx, hy⟩
    rw [hx, hy]

theorem words_tail {tail : List Part} {values values' : Params} (h : Tail tail)
    (hplain : Plain tail values') :
    words isSpace (tail.flatMap (Part.render values)) =
        words isSpace (tail.flatMap (Part.render values')) ↔
      ∀ name ∈ tail.filterMap Part.placeholder,
        shown name (valueOf values name) = valueOf values' name := by
  cases h with
  | limit =>
    have hl : IsWord isSpace (valueOf values' limit) := (hplain limit List.mem_cons_self).1
    refine (words_limit hl).trans ?_
    simp [Part.placeholder, Part.render, shown, show limit ≠ directory by decide]
  | directory =>
    have hd : IsWord isSpace (valueOf values' directory) :=
      (hplain directory List.mem_cons_self).1
    have hl : IsWord isSpace (valueOf values' limit) :=
      (hplain limit (List.mem_cons_of_mem _ List.mem_cons_self)).1
    refine (words_tail_directory hd.2 hl).trans ?_
    simp [Part.placeholder, shown, show limit ≠ directory by decide]
  | @tree middle behind hmiddle hbehind =>
    have hrender : ∀ values, [Part.value pid, .text middle, .value maxDepth,
        .text behind].flatMap (Part.render values) =
        valueOf values pid ++ (middle ++ (valueOf values maxDepth ++ behind)) := by
      intro values
      simp [Part.render]
    rw [hrender, hrender]
    obtain ⟨hp, hpid, -⟩ := hplain pid List.mem_cons_self
    obtain ⟨hm, -, hdepth⟩ := hplain maxDepth (List.mem_cons_of_mem _ List.mem_cons_self)
    refine (words_tail_tree hmiddle hbehind hp hm hpid hdepth).trans ?_
    simp [Part.placeholder, shown, show pid ≠ directory by decide, show pid ≠ limit by decide,
      show maxDepth ≠ directory by decide, show maxDepth ≠ limit by decide]

/-! ## Every template -/

/-- The text up to the third word of the query. -/
def headings : List (Text × Text) :=
  [(text "running_processes", text "SELECT pid, name, "),
    (text "active_connections", text "SELECT pid, fd, "),
    (text "logged_in_users", text "SELECT type, user, "),
    (text "recent_files", text "SELECT path, directory, "),
    (text "process_tree", text "WITH RECURSIVE proctree(pid, "),
    (text "package_inventory", text "SELECT name, version, ")]

/-- A template is text with its heading in front and a space behind, and its tail. -/
structure Begins (heading : Text) (parts : List Part) (opening : Text) (tail : List Part) :
    Prop where
  eq : parts = .text opening :: tail
  heading : heading <+: opening
  space : [cp ' '] <:+ opening
  tail : Tail tail

theorem begins_limit {heading opening : Text} (hheading : heading <+: opening)
    (hspace : [cp ' '] <:+ opening) : Begins heading
      [.text opening, .value limit, .text (text ";")] opening [.value limit, .text (text ";")] :=
  ⟨rfl, hheading, hspace, .limit⟩

theorem templates_begin : ∀ t ∈ templates, ∃ heading opening tail,
    (t.1, heading) ∈ headings ∧ Begins heading t.2 opening tail := by
  simp only [templates, List.forall_mem_cons]
  refine ⟨⟨_, _, _, .head _, begins_limit ?_ ?_⟩, ⟨_, _, _, .tail _ (.head _), begins_limit ?_ ?_⟩,
    ⟨_, _, _, .tail _ (.tail _ (.head _)), begins_limit ?_ ?_⟩,
    ⟨_, _, _, .tail _ (.tail _ (.tail _ (.head _))), rfl, ?_, ?_, .directory⟩,
    ⟨_, _, _, .tail _ (.tail _ (.tail _ (.tail _ (.head _)))), rfl, ?_, ?_, .tree ⟨?_, ?_⟩ rfl⟩,
    ⟨_, _, _, .tail _ (.tail _ (.tail _ (.tail _ (.tail _ (.head _))))), begins_limit ?_ ?_⟩,
    List.forall_mem_nil _⟩
  all_goals
    repeat rw [text_ofList]
    decide

theorem headings_length : ∀ h ∈ headings, (words isSpace h.2).length = 3 := by
  rw [headings]
  repeat rw [text_ofList]
  decide

/-- The first three words tell the templates apart. -/
theorem headings_inj : ∀ h ∈ headings, ∀ h' ∈ headings,
    words isSpace h.2 = words isSpace h'.2 → h.1 = h'.1 := by
  rw [headings]
  repeat rw [text_ofList]
  decide

theorem names_nodup : (templates.map Prod.fst).Nodup := by
  simp only [templates, List.map_cons, List.map_nil]
  repeat rw [text_ofList]
  decide

theorem headings_space : ∀ h ∈ headings, h.2.getLast? = some (cp ' ') := by
  rw [headings]
  repeat rw [text_ofList]
  decide

theorem defaults_plain : ∀ t ∈ templates, Plain t.2.tail (defaultParams t.1) := by
  simp only [templates, List.forall_mem_cons, Plain]
  refine ⟨?_, ?_, ?_, ?_, ?_, ?_, List.forall_mem_nil _⟩
  all_goals
    repeat rw [text_ofList]
    decide

theorem defaults_render : ∀ templateId ∈ templates.map Prod.fst,
    ((renderQuery templateId (defaultParams templateId)).toOption).isSome = true := by
  simp only [templates, List.map_cons, List.map_nil, List.forall_mem_cons]
  refine ⟨rfl, rfl, rfl, rfl, rfl, rfl, List.forall_mem_nil _⟩

theorem template_of_mem {t : Text × List Part} (ht : t ∈ templates) : template t.1 = t.2 := by
  have hlookup : templates.lookup t.1 = some t.2 := by
    rw [List.lookup_eq_some_iff]
    obtain ⟨before, after, hsplit⟩ := List.append_of_mem ht
    have hnodup := names_nodup
    rw [hsplit, List.map_append, List.nodup_append] at hnodup
    exact ⟨before, after, hsplit, fun e he => bne_iff_ne.mpr fun heq =>
      hnodup.2.2 e.1 (List.mem_map_of_mem he) t.1 List.mem_cons_self heq.symm⟩
  rw [template, hlookup, Option.getD_some]

/-- What is known of a template: its heading, its opening, its tail and its defaults. -/
structure Known (templateId heading opening : Text) (tail : List Part) : Prop where
  mem : (templateId, heading) ∈ headings
  begins : Begins heading (template templateId) opening tail
  plain : Plain tail (defaultParams templateId)

theorem exists_known (h : templateId ∈ templates.map Prod.fst) :
    ∃ heading opening tail, Known templateId heading opening tail := by
  obtain ⟨t, ht, rfl⟩ := List.mem_map.mp h
  obtain ⟨heading, opening, tail, hmem, hbegins⟩ := templates_begin t ht
  have hplain := defaults_plain t ht
  rw [hbegins.eq] at hplain
  exact ⟨heading, opening, tail, hmem, template_of_mem ht ▸ hbegins, hplain⟩

theorem mem_of_ok (h : renderQuery templateId params = .ok rendered) :
    templateId ∈ templates.map Prod.fst := by
  rw [renderQuery] at h
  by_cases hnone : (templates.lookup templateId).isNone = true
  · rw [if_pos hnone] at h
    cases h
  · rw [Bool.not_eq_true, Option.isNone_eq_false_iff] at hnone
    obtain ⟨parts, hparts⟩ := Option.isSome_iff_exists.mp hnone
    obtain ⟨before, after, hsplit, -⟩ := List.lookup_eq_some_iff.mp hparts
    rw [hsplit, List.map_append]
    exact List.mem_append_right _ List.mem_cons_self

theorem Known.words_rendered {heading opening : Text} {tail : List Part}
    (hk : Known templateId heading opening tail)
    (h : renderQuery templateId params = .ok rendered) :
    words isSpace rendered = words isSpace opening ++
      words isSpace (tail.flatMap (Part.render (merged templateId params))) := by
  obtain ⟨start, hstart⟩ := hk.begins.space
  have hlast : opening.getLast? = some (cp ' ') := by
    rw [← hstart, List.getLast?_append]
    rfl
  rw [rendered_of_ok h, hk.begins.eq, List.flatMap_cons, Part.render,
    words_append_of_last hlast (by decide)]

/-- The first three words of what a template gives are those of its heading. -/
theorem Known.take_words {heading opening : Text} {tail : List Part}
    (hk : Known templateId heading opening tail)
    (h : renderQuery templateId params = .ok rendered) :
    (words isSpace rendered).take 3 = words isSpace heading := by
  obtain ⟨more, hmore⟩ := hk.begins.heading
  rw [hk.words_rendered h, ← hmore,
    words_append_of_last (headings_space _ hk.mem) (by decide), List.append_assoc,
    ← headings_length _ hk.mem, List.take_left]

theorem same_template {params' : Params} {rendered' : Text}
    (h : renderQuery templateId params = .ok rendered)
    (h' : renderQuery templateId' params' = .ok rendered')
    (hwords : words isSpace rendered = words isSpace rendered') : templateId = templateId' := by
  obtain ⟨heading, opening, tail, hk⟩ := exists_known (mem_of_ok h)
  obtain ⟨heading', opening', tail', hk'⟩ := exists_known (mem_of_ok h')
  refine headings_inj _ hk.mem _ hk'.mem ?_
  rw [← hk.take_words h, ← hk'.take_words h', hwords]

theorem valueOf_merged_default (templateId name : Text) :
    valueOf (merged templateId (defaultParams templateId)) name =
      valueOf (defaultParams templateId) name := by
  rw [valueOf, valueOf, merged, OrderedDict.get_update, ← defaultParams, Option.or_self]

/-- What a template gives has the words of the default exactly if the values are the defaults. -/
theorem words_default_iff {default : Text} (h : renderQuery templateId params = .ok rendered)
    (hdefault : renderQuery templateId (defaultParams templateId) = .ok default) :
    words isSpace rendered = words isSpace default ↔ AreDefaults templateId params := by
  obtain ⟨heading, opening, tail, hk⟩ := exists_known (mem_of_ok h)
  have hplain : Plain tail (merged templateId (defaultParams templateId)) := by
    intro name hname
    rw [valueOf_merged_default]
    exact hk.plain name hname
  rw [hk.words_rendered h, hk.words_rendered hdefault, List.append_right_inj,
    words_tail hk.begins.tail hplain, AreDefaults, hk.begins.eq]
  simp only [valueOf_merged_default]
  rfl

/-! ## The check -/

theorem accepted_iff : validateRawSql sql = .ok () ↔ ∃ templateId default,
    renderQuery templateId (defaultParams templateId) = .ok default ∧
      normalise sql = normalise default := by
  have hmatches : ∀ templateId, matchesDefault sql templateId = true ↔ ∃ default,
      renderQuery templateId (defaultParams templateId) = .ok default ∧
        normalise sql = normalise default := by
    intro templateId
    rw [matchesDefault]
    cases renderQuery templateId (defaultParams templateId) with
    | error e => simp
    | ok default => simp
  rw [validateRawSql]
  split_ifs with hany
  · obtain ⟨templateId, -, hmatch⟩ := List.any_eq_true.mp hany
    exact iff_of_true rfl ⟨templateId, (hmatches templateId).mp hmatch⟩
  · refine iff_of_false nofun ?_
    rintro ⟨templateId, default, hrender, hsame⟩
    exact hany (List.any_eq_true.mpr ⟨templateId, mem_of_ok hrender,
      (hmatches templateId).mpr ⟨default, hrender, hsame⟩⟩)

theorem areDefaults_of_accepted (h : validateRawSql sql = .ok ())
    (hrender : renderQuery templateId params = .ok rendered)
    (hsame : normalise sql = normalise rendered) : AreDefaults templateId params := by
  obtain ⟨templateId', default, hdefault, hsame'⟩ := accepted_iff.mp h
  have hwords := normalise_eq_iff.mp (hsame.symm.trans hsame')
  obtain rfl := same_template hrender hdefault hwords
  exact (words_default_iff hrender hdefault).mp hwords

/-- The check and the templates agree on a text exactly if it is no query of a template with other
values than the defaults. -/
theorem validation_agrees_iff (sql : Text) : Agrees sql ↔
    ∀ templateId params rendered, renderQuery templateId params = .ok rendered →
      normalise sql = normalise rendered → AreDefaults templateId params := by
  constructor
  · intro h templateId params rendered hrender hsame
    exact areDefaults_of_accepted (h.mpr ⟨templateId, params, rendered, hrender, hsame⟩)
      hrender hsame
  · intro h
    constructor
    · intro haccepted
      obtain ⟨templateId, default, hdefault, hsame⟩ := accepted_iff.mp haccepted
      exact ⟨templateId, _, default, hdefault, hsame⟩
    · rintro ⟨templateId, params, rendered, hrender, hsame⟩
      obtain ⟨default, hdefault⟩ : ∃ default,
          renderQuery templateId (defaultParams templateId) = .ok default := by
        have hsome := defaults_render templateId (mem_of_ok hrender)
        cases hcase : renderQuery templateId (defaultParams templateId) with
        | error e =>
          rw [hcase] at hsome
          cases hsome
        | ok default => exact ⟨default, rfl⟩
      have hwords := (words_default_iff hrender hdefault).mpr (h _ _ _ hrender hsame)
      exact accepted_iff.mpr ⟨templateId, default, hdefault,
        hsame.trans (normalise_eq_iff.mpr hwords)⟩

def tenProcesses : Params := OrderedDict.ofList [(limit, text "10")]

/-- The query for ten processes is refused: the default asks for two hundred. -/
theorem other_limit_refused : ¬∀ sql, Agrees sql := by
  intro h
  obtain ⟨rendered, hrender⟩ : ∃ rendered,
      renderQuery (text "running_processes") tenProcesses = .ok rendered := ⟨_, rfl⟩
  have haccepted := (h rendered).mpr ⟨_, _, rendered, hrender, rfl⟩
  have hlimit := areDefaults_of_accepted haccepted hrender rfl limit List.mem_cons_self
  have hten : valueOf (merged (text "running_processes") tenProcesses) limit = text "10" := rfl
  have hdefault : valueOf (defaultParams (text "running_processes")) limit = text "200" := rfl
  rw [hten, hdefault, text_ofList, text_ofList] at hlimit
  revert hlimit
  decide +kernel

end OsqueryValidation
