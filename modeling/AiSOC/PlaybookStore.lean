import AiSOC.PlaybookModel
import AiSOC.RecordRebuild
import AiSOC.TransitionSystem

/-! # The playbook store

Playbooks in memory, saved to one index file after each change. A store is loaded from the bundled
fixtures first and the index after them, and nothing remembers what was deleted. Updates write to a
playbook without a check, and the check on loading ends at the first entry that fails. -/
namespace PlaybookStore

open CodeText PlaybookModel
open RecordRebuild (addMissing setWhileReadable)
open TransitionSystem (System GuardedTrace runTrace)

variable {F : Type}

/-- `fixtures` are the files of the runtime directory and then those of the pack, each with what it
parses to. -/
structure Store (F : Type) where
  fixtures : List (Option (Value F))
  index : Option (Value F)
  playbooks : OrderedDict Text (Playbook F)

/-- Anything but a list ends the loading at once. -/
def indexEntries : Option (Value F) → List (Value F)
  | some (.list entries) => entries
  | _ => []

/-- `draw` are the ids that this load generates, file by file and then entry by entry. -/
def load (lax : Coercions F) (draw : ℕ → Generated) (fixtures : List (Option (Value F)))
    (index : Option (Value F)) : OrderedDict Text (Playbook F) :=
  setWhileReadable Playbook.key
    (addMissing Playbook.key .empty
      (fixtures.zipIdx.map fun (fixture, i) => fixture.bind (Playbook.validate lax (draw i))))
    (((indexEntries index).zipIdx fixtures.length).map fun (entry, i) =>
      Playbook.validate lax (draw i) entry)

def Store.save (s : Store F) : Store F :=
  { s with index := some (.list (s.playbooks.values.map Playbook.dump)) }

def modelCopy (pb : Playbook F) (update : PlaybookField → Option (Value F)) : Playbook F := fun f =>
  (update f).getD (pb f)

/-- `playbook` has been validated. -/
def Store.create (s : Store F) (playbook : Playbook F) (uuid now : Text) : Store F :=
  let playbook := if playbook.key = [] then
    modelCopy playbook fun f => if f = .id then some (.str uuid) else none else playbook
  let playbook := modelCopy playbook fun f =>
    if f = .createdAt ∨ f = .updatedAt then some (.str now) else none
  { s with playbooks := s.playbooks.set playbook.key playbook }.save

def updateFields (data : Dict F) (now : Text) (f : PlaybookField) : Option (Value F) :=
  if f = .updatedAt then some (.str now) else data (text f.label)

def Store.update (s : Store F) (playbookId : Text) (data : Dict F) (now : Text) : Store F :=
  match s.playbooks.get playbookId with
  | none => s
  | some pb =>
    { s with playbooks := s.playbooks.set playbookId (modelCopy pb (updateFields data now)) }.save

def Store.delete (s : Store F) (playbookId : Text) : Store F :=
  if playbookId ∈ s.playbooks.keys then
    { s with playbooks := s.playbooks.erase playbookId }.save
  else s

/-- The requests that change the store. The body of a creation is validated before. -/
inductive Event (F : Type) where
  | create (body : Value F) (generated : Generated) (uuid now : Text)
  | update (playbookId : Text) (data : Dict F) (now : Text)
  | delete (playbookId : Text)

def step (lax : Coercions F) (s : Store F) : Event F → Store F
  | .create body generated uuid now =>
    match Playbook.validate lax generated body with
    | some playbook => s.create playbook uuid now
    | none => s
  | .update playbookId data now => s.update playbookId data now
  | .delete playbookId => s.delete playbookId

/-- The value names the ids of the playbook and of its steps, so that none is drawn. -/
def NamesIds (lax : Coercions F) (v : Value F) : Prop :=
  ∀ generated generated', Playbook.validate lax generated v = Playbook.validate lax generated' v

/-- A store that has just been loaded. -/
structure Loaded (lax : Coercions F) (s : Store F) : Prop where
  fixtures : ∀ v, some v ∈ s.fixtures → NamesIds lax v
  index : ∀ v ∈ indexEntries s.index, NamesIds lax v
  playbooks : ∃ draw, s.playbooks = load lax draw s.fixtures s.index

def system (lax : Coercions F) : System (Store F) (Event F) where
  start := Loaded lax
  next s e := some (step lax s e)

/-- A new store of the same directory has the same playbooks. -/
def Reloads (lax : Coercions F) (s : Store F) : Prop :=
  ∀ draw id, (load lax draw s.fixtures s.index).get id = s.playbooks.get id

/-- A bundled file has the playbook. -/
def Bundled (lax : Coercions F) (s : Store F) (id : Text) : Prop :=
  ∃ v, some v ∈ s.fixtures ∧ ∃ generated pb, Playbook.validate lax generated v = some pb ∧
    pb.key = id

/-- An update gives fields only values that pass their checks as they are and leaves the id, and
no bundled playbook is deleted. -/
def Guard (lax : Coercions F) (s : Store F) : Event F → Prop
  | .create .. => True
  | .update playbookId data _ => playbookId ∈ s.playbooks.keys →
    (∀ f v, f ≠ .updatedAt → data (text f.label) = some v → Stable lax f v) ∧
      ∀ v, data (text "id") = some v → v = .str playbookId
  | .delete playbookId => ¬ Bundled lax s playbookId

/-! ## Stores that load again -/

variable {lax : Coercions F} {s : Store F} {pb : Playbook F} {id : Text} {draw : ℕ → Generated}
  {fixtures : List (Option (Value F))} {index : Option (Value F)}

/-- Every playbook passes its checks as it is and is under its id, and those that are bundled are
there. -/
structure Sound (lax : Coercions F) (s : Store F) : Prop where
  stable : ∀ e ∈ s.playbooks.entries, ∀ f, Stable lax f (e.2 f)
  keyed : ∀ e ∈ s.playbooks.entries, e.2 .id = .str e.1
  bundled : ∀ id, Bundled lax s id → id ∈ s.playbooks.keys

theorem key_of_id (h : pb .id = .str id) : pb.key = id := by
  rw [Playbook.key, h]
  rfl

theorem id_of_stable (h : ∀ f, Stable lax f (pb f)) : pb .id = .str pb.key := by
  obtain ⟨id, hid⟩ := exists_text_of_stable (h .id)
  rw [key_of_id hid, hid]

theorem forall_load {P : Text → Playbook F → Prop}
    (h : ∀ v generated pb, Playbook.validate lax generated v = some pb → P pb.key pb) :
    ∀ e ∈ (load lax draw fixtures index).entries, P e.1 e.2 := by
  have hempty : ∀ e ∈ (OrderedDict.empty : OrderedDict Text (Playbook F)).entries, P e.1 e.2 :=
    fun _ he => absurd he List.not_mem_nil
  apply RecordRebuild.forall_setWhileReadable
  · apply RecordRebuild.forall_addMissing hempty
    intro pb hpb
    obtain ⟨⟨fixture, i⟩, -, hread⟩ := List.mem_map.mp hpb
    obtain ⟨v, -, hv⟩ := Option.bind_eq_some_iff.mp hread
    exact h v _ pb hv
  · intro pb hpb
    obtain ⟨⟨entry, i⟩, -, hread⟩ := List.mem_map.mp hpb
    exact h entry _ pb hread

/-- What a load finds has been validated. -/
theorem load_stable : ∀ e ∈ (load lax draw fixtures index).entries,
    (∀ f, Stable lax f (e.2 f)) ∧ e.2 .id = .str e.1 := by
  refine forall_load (P := fun k pb => (∀ f, Stable lax f (pb f)) ∧ pb .id = .str k) ?_
  intro v generated pb hpb
  have hstable : ∀ f, Stable lax f (pb f) := fun f => stable_of_validate hpb f
  exact ⟨hstable, id_of_stable hstable⟩

theorem mem_keys_fixtures (hnames : ∀ v, some v ∈ fixtures → NamesIds lax v) :
    id ∈ (addMissing Playbook.key .empty (fixtures.zipIdx.map fun (fixture, i) =>
        fixture.bind (Playbook.validate lax (draw i)))).keys ↔
      ∃ v, some v ∈ fixtures ∧ ∃ generated pb, Playbook.validate lax generated v = some pb ∧
        pb.key = id := by
  rw [RecordRebuild.mem_keys_addMissing]
  constructor
  · rintro (hempty | ⟨pb, hpb, hkey⟩)
    · cases hempty
    · obtain ⟨⟨fixture, i⟩, hmem, hread⟩ := List.mem_map.mp hpb
      obtain ⟨v, rfl, hv⟩ := Option.bind_eq_some_iff.mp hread
      exact ⟨v, List.fst_mem_of_mem_zipIdx hmem, _, pb, hv, hkey⟩
  · rintro ⟨v, hv, generated, pb, hpb, hkey⟩
    obtain ⟨i, hi, hget⟩ := List.mem_iff_getElem.mp hv
    refine Or.inr ⟨pb, List.mem_map.mpr ⟨(some v, i), ?_, ?_⟩, hkey⟩
    · rw [List.mk_mem_zipIdx_iff_getElem?, List.getElem?_eq_getElem hi, hget]
    · exact (hnames v hv (draw i) generated).trans hpb

theorem bundled_mem_load (hnames : ∀ v, some v ∈ s.fixtures → NamesIds lax v)
    (h : Bundled lax s id) : id ∈ (load lax draw s.fixtures index).keys :=
  RecordRebuild.mem_keys_setWhileReadable ((mem_keys_fixtures hnames).mpr h)

theorem map_zipIdx_namesIds {entries : List (Value F)} (h : ∀ v ∈ entries, NamesIds lax v)
    (draw draw' : ℕ → Generated) (n : ℕ) :
    ((entries.zipIdx n).map fun (entry, i) => Playbook.validate lax (draw i) entry) =
      (entries.zipIdx n).map fun (entry, i) => Playbook.validate lax (draw' i) entry :=
  List.map_congr_left fun e he => h e.1 (List.fst_mem_of_mem_zipIdx he) _ _

/-- Loads do not differ where nothing is drawn. -/
theorem load_eq (hfixtures : ∀ v, some v ∈ fixtures → NamesIds lax v)
    (hindex : ∀ v ∈ indexEntries index, NamesIds lax v) (draw draw' : ℕ → Generated) :
    load lax draw fixtures index = load lax draw' fixtures index := by
  have hreads : (fixtures.zipIdx.map fun (fixture, i) =>
      fixture.bind (Playbook.validate lax (draw i))) =
      fixtures.zipIdx.map fun (fixture, i) => fixture.bind (Playbook.validate lax (draw' i)) := by
    apply List.map_congr_left
    rintro ⟨fixture, i⟩ he
    cases fixture with
    | none => rfl
    | some v => exact hfixtures v (List.fst_mem_of_mem_zipIdx he) _ _
  rw [load, hreads, map_zipIdx_namesIds hindex draw draw', load]

theorem map_validate_dump {pbs : List (Playbook F)} (h : ∀ pb ∈ pbs, ∀ f, Stable lax f (pb f))
    (draw : ℕ → Generated) (n : ℕ) :
    (((pbs.map Playbook.dump).zipIdx n).map fun (entry, i) =>
      Playbook.validate lax (draw i) entry) = pbs.map some := by
  induction pbs generalizing n with
  | nil => rfl
  | cons pb pbs ih =>
    obtain ⟨hpb, hpbs⟩ := List.forall_mem_cons.mp h
    rw [List.map_cons, List.zipIdx_cons, List.map_cons, ih hpbs]
    exact congrArg (· :: _) (validate_dump_of_stable hpb (draw n))

/-- Of the saved stores, exactly the sound ones load again. -/
theorem reloads_iff_sound (hnames : ∀ v, some v ∈ s.fixtures → NamesIds lax v)
    (hindex : s.index = some (.list (s.playbooks.values.map Playbook.dump))) :
    Reloads lax s ↔ Sound lax s := by
  constructor
  · intro h
    let draw : ℕ → Generated := fun _ => ⟨[], fun _ => []⟩
    have hmem : ∀ e ∈ s.playbooks.entries,
        e ∈ (load lax draw s.fixtures s.index).entries := by
      rintro ⟨k, pb⟩ he
      rw [← OrderedDict.get_eq_some, h draw k]
      exact OrderedDict.get_eq_some.mpr he
    refine ⟨fun e he => (load_stable e (hmem e he)).1,
      fun e he => (load_stable e (hmem e he)).2, ?_⟩
    intro id hid
    rw [← OrderedDict.get_isSome, ← h draw id, OrderedDict.get_isSome]
    exact bundled_mem_load hnames hid
  · intro hs draw id
    have hstable : ∀ pb ∈ s.playbooks.values, ∀ f, Stable lax f (pb f) := by
      intro pb hpb
      obtain ⟨e, he, rfl⟩ := List.mem_map.mp hpb
      exact hs.stable e he
    rw [hindex, load, indexEntries, map_validate_dump hstable]
    apply RecordRebuild.get_setWhileReadable_values
    · exact fun e he => key_of_id (hs.keyed e he)
    · exact fun k hk => hs.bundled k ((mem_keys_fixtures hnames).mp hk)

/-! ## What the requests do -/

structure Invariant (lax : Coercions F) (s : Store F) : Prop where
  fixtures : ∀ v, some v ∈ s.fixtures → NamesIds lax v
  sound : Sound lax s
  reloads : Reloads lax s

theorem Loaded.invariant (h : Loaded lax s) : Invariant lax s := by
  obtain ⟨draw, hplaybooks⟩ := h.playbooks
  refine ⟨h.fixtures, ⟨?_, ?_, ?_⟩, ?_⟩
  · rw [hplaybooks]
    exact fun e he => (load_stable e he).1
  · rw [hplaybooks]
    exact fun e he => (load_stable e he).2
  · rw [hplaybooks]
    exact fun id hid => bundled_mem_load h.fixtures hid
  · intro draw' id
    rw [hplaybooks, load_eq h.fixtures h.index draw' draw]

/-- What was set is sound if it was checked and has its own key. -/
theorem sound_set (hs : Sound lax s) {index : Option (Value F)} :
    Sound lax ⟨s.fixtures, index, s.playbooks.set id pb⟩ ↔
      (∀ f, Stable lax f (pb f)) ∧ pb .id = .str id := by
  constructor
  · intro h
    have hmem : (id, pb) ∈ (s.playbooks.set id pb).entries := by
      rw [← OrderedDict.get_eq_some, OrderedDict.get_set, if_pos rfl]
    exact ⟨h.stable _ hmem, h.keyed _ hmem⟩
  · rintro ⟨hstable, hid⟩
    refine ⟨?_, ?_, ?_⟩
    · exact OrderedDict.forall_set (P := fun _ (pb : Playbook F) => ∀ f, Stable lax f (pb f))
        hs.stable hstable
    · exact OrderedDict.forall_set (P := fun k (pb : Playbook F) => pb .id = .str k) hs.keyed hid
    · exact fun k hk => OrderedDict.mem_keys_set.mpr (Or.inr (hs.bundled k hk))

/-- What was erased is missed exactly if it is bundled. -/
theorem sound_erase (hs : Sound lax s) {index : Option (Value F)} :
    Sound lax ⟨s.fixtures, index, s.playbooks.erase id⟩ ↔ ¬ Bundled lax s id := by
  have hmem : ∀ k, k ∈ (s.playbooks.erase id).keys ↔ k ≠ id ∧ k ∈ s.playbooks.keys := by
    intro k
    rw [← OrderedDict.get_isSome, OrderedDict.get_erase, ← OrderedDict.get_isSome]
    by_cases hk : k = id
    · simp [hk]
    · simp [hk]
  have hentries : ∀ e ∈ (s.playbooks.erase id).entries, e ∈ s.playbooks.entries :=
    fun e he => (List.mem_filter.mp he).1
  constructor
  · intro h hbundled
    exact ((hmem id).mp (h.bundled id hbundled)).1 rfl
  · intro hid
    refine ⟨fun e he => hs.stable e (hentries e he), fun e he => hs.keyed e (hentries e he), ?_⟩
    intro k hk
    refine (hmem k).mpr ⟨?_, hs.bundled k hk⟩
    rintro rfl
    exact hid hk

theorem stable_str {f : PlaybookField} (hf : f = .id ∨ f = .createdAt ∨ f = .updatedAt)
    (t : Text) : Stable lax f (.str t) := by
  rcases hf with rfl | rfl | rfl
  · exact fun _ => rfl
  · exact fun _ => rfl
  · exact fun _ => rfl

theorem stable_modelCopy {update : PlaybookField → Option (Value F)}
    (hpb : ∀ f, Stable lax f (pb f)) (hupdate : ∀ f, ∀ v ∈ update f, Stable lax f v) :
    ∀ f, Stable lax f (modelCopy pb update f) := by
  intro f
  rw [modelCopy]
  cases hv : update f with
  | none => exact hpb f
  | some v => exact hupdate f v hv

/-- Texts that the store writes itself pass their checks. -/
theorem stable_written {p : PlaybookField → Prop} [DecidablePred p]
    (hp : ∀ f, p f → f = .id ∨ f = .createdAt ∨ f = .updatedAt) (t : Text) (f : PlaybookField) :
    ∀ v ∈ (if p f then some (.str t) else none : Option (Value F)), Stable lax f v := by
  intro v hv
  split_ifs at hv with hf
  · rw [← Option.some.inj hv]
    exact stable_str (hp f hf) t
  · cases hv

/-- A playbook that was validated can be created. -/
theorem sound_create (hs : Sound lax s) (hpb : ∀ f, Stable lax f (pb f)) (uuid now : Text) :
    Sound lax (s.create pb uuid now) := by
  have hnamed : ∀ f, Stable lax f ((if pb.key = [] then
      modelCopy pb fun f => if f = .id then some (.str uuid) else none else pb) f) := by
    split_ifs
    · exact stable_modelCopy hpb (stable_written (fun f => Or.inl) uuid)
    · exact hpb
  have hstamped := stable_modelCopy hnamed
    (stable_written (p := fun f => f = .createdAt ∨ f = .updatedAt) (fun f => Or.inr) now)
  exact (sound_set hs).mpr ⟨hstamped, id_of_stable hstamped⟩

theorem sound_update (hs : Sound lax s) (hpb : s.playbooks.get id = some pb) {data : Dict F}
    {now : Text} : Sound lax (s.update id data now) ↔
      (∀ f v, f ≠ .updatedAt → data (text f.label) = some v → Stable lax f v) ∧
        ∀ v, data (text "id") = some v → v = .str id := by
  have hmem := OrderedDict.get_eq_some.mp hpb
  have hid : modelCopy pb (updateFields data now) .id = .str id ↔
      ∀ v, data (text "id") = some v → v = .str id := by
    have hfield : updateFields data now .id = data (text "id") := rfl
    rw [modelCopy, hfield]
    cases data (text "id") with
    | none => exact iff_of_true (hs.keyed _ hmem) fun v hv => by cases hv
    | some v => exact ⟨fun h w hw => Option.some.inj hw ▸ h, fun h => h v rfl⟩
  have hstable : (∀ f, Stable lax f (modelCopy pb (updateFields data now) f)) ↔
      ∀ f v, f ≠ .updatedAt → data (text f.label) = some v → Stable lax f v := by
    constructor
    · intro h f v hf hv
      have := h f
      rwa [modelCopy, updateFields, if_neg hf, hv] at this
    · intro h
      apply stable_modelCopy (hs.stable _ hmem)
      intro f v hv
      rw [updateFields] at hv
      split_ifs at hv with hf
      · rw [← Option.some.inj hv]
        exact stable_str (Or.inr (Or.inr hf)) now
      · exact h f v hf hv
  have hupdate : s.update id data now = ⟨s.fixtures, (s.update id data now).index,
      s.playbooks.set id (modelCopy pb (updateFields data now))⟩ := by
    simp only [Store.update, hpb, Store.save]
  rw [hupdate, sound_set hs, hstable, hid]

/-- A request leaves the store alone or saves it. -/
theorem step_cases (lax : Coercions F) (s : Store F) (e : Event F) : step lax s e = s ∨
    (step lax s e).fixtures = s.fixtures ∧
      (step lax s e).index = some (.list ((step lax s e).playbooks.values.map Playbook.dump)) := by
  cases e with
  | create body generated uuid now =>
    rw [step]
    cases Playbook.validate lax generated body with
    | none => exact Or.inl rfl
    | some pb => exact Or.inr ⟨rfl, rfl⟩
  | update id data now =>
    rw [step, Store.update]
    cases s.playbooks.get id with
    | none => exact Or.inl rfl
    | some pb => exact Or.inr ⟨rfl, rfl⟩
  | delete id =>
    rw [step, Store.delete]
    split_ifs
    · exact Or.inr ⟨rfl, rfl⟩
    · exact Or.inl rfl

theorem step_reloads_iff_sound (hi : Invariant lax s) (e : Event F) :
    Reloads lax (step lax s e) ↔ Sound lax (step lax s e) := by
  rcases step_cases lax s e with hsame | ⟨hfixtures, hindex⟩
  · rw [hsame]
    exact iff_of_true hi.reloads hi.sound
  · exact reloads_iff_sound (hfixtures ▸ hi.fixtures) hindex

theorem step_sound_iff (hi : Invariant lax s) (e : Event F) :
    Sound lax (step lax s e) ↔ Guard lax s e := by
  cases e with
  | create body generated uuid now =>
    refine iff_of_true ?_ trivial
    rw [step]
    cases hbody : Playbook.validate lax generated body with
    | none => exact hi.sound
    | some pb => exact sound_create hi.sound (fun f => stable_of_validate hbody f) uuid now
  | update id data now =>
    rw [step, Guard, ← OrderedDict.get_isSome]
    cases hpb : s.playbooks.get id with
    | none =>
      rw [Store.update, hpb]
      exact iff_of_true hi.sound fun h => by cases h
    | some pb => rw [sound_update hi.sound hpb, Option.isSome_some, imp_iff_right rfl]
  | delete id =>
    rw [step, Guard, Store.delete]
    split_ifs with hid
    · exact sound_erase hi.sound
    · exact iff_of_true hi.sound fun h => hid (hi.sound.bundled id h)

/-- A request that meets the guard, and no other, leaves a store that loads again. -/
theorem step_reloads_iff (hi : Invariant lax s) (e : Event F) :
    Reloads lax (step lax s e) ↔ Guard lax s e :=
  (step_reloads_iff_sound hi e).trans (step_sound_iff hi e)

theorem Invariant.step (hi : Invariant lax s) {e : Event F} (h : Reloads lax (step lax s e)) :
    Invariant lax (step lax s e) := by
  have hfixtures : (PlaybookStore.step lax s e).fixtures = s.fixtures := by
    rcases step_cases lax s e with hsame | ⟨hfixtures, -⟩
    · rw [hsame]
    · exact hfixtures
  exact ⟨hfixtures ▸ hi.fixtures, (step_reloads_iff_sound hi e).mp h, h⟩

/-- A store that was loaded loads again, and it does so after every request of a run exactly if
they all meet the guard. -/
theorem reloads_iff (hs : Loaded lax s) (es : List (Event F)) : Reloads lax s ∧
    (GuardedTrace (system lax) (fun s e => Reloads lax (step lax s e)) s es ↔
      GuardedTrace (system lax) (Guard lax) s es) := by
  refine ⟨hs.invariant.reloads, ?_⟩
  refine TransitionSystem.guardedTrace_congr (I := Invariant lax) ?_
    (fun s e hi => step_reloads_iff hi e) hs.invariant
  intro s e t hi h hnext
  obtain rfl := Option.some.inj hnext
  exact hi.step h

/-! ## A deletion and an update that do not last -/

/-- Nothing is coerced. -/
def strict : Coercions Unit := ⟨fun _ => none, fun _ => none⟩

def triage : Value Unit :=
  .dict (dictOf [("id", .str (text "triage")), ("name", .str (text "Triage"))])

def named (id : String) : Value Unit :=
  .dict (dictOf [("id", .str (text id)), ("name", .str (text id))])

/-- A directory with one bundled playbook. -/
def bundledStore : Store Unit where
  fixtures := [some triage]
  index := none
  playbooks := load strict (fun _ => ⟨[], fun _ => []⟩) [some triage] none

def create (id : String) : Event Unit := .create (named id) ⟨[], fun _ => []⟩ [] []

theorem triage_id (generated : Generated) {pb : Playbook Unit}
    (h : Playbook.validate strict generated triage = some pb) : pb.key = text "triage" := by
  have hid := validate_dict.mp h .id
  apply key_of_id
  simp only [PlaybookField.read, PlaybookField.label, dictOf_cons, if_true] at hid
  exact (Option.some.inj hid).symm

theorem triage_namesIds : NamesIds strict triage := by
  intro generated generated'
  have hread : ∀ f : PlaybookField, f.read strict generated
      (dictOf [("id", .str (text "triage")), ("name", .str (text "Triage"))]) =
      f.read strict generated'
        (dictOf [("id", .str (text "triage")), ("name", .str (text "Triage"))]) := by
    intro f
    cases f with
    | id =>
      simp only [PlaybookField.read, PlaybookField.label, dictOf_cons, if_true]
      rfl
    | _ => rfl
  apply Option.ext
  intro pb
  rw [triage, validate_dict, validate_dict]
  exact forall_congr' fun f => by rw [hread]

theorem bundledStore_loaded : Loaded strict bundledStore where
  fixtures v hv := by
    obtain rfl := Option.some.inj (List.mem_singleton.mp hv)
    exact triage_namesIds
  index v hv := absurd hv List.not_mem_nil
  playbooks := ⟨fun _ => ⟨[], fun _ => []⟩, rfl⟩

/-- A playbook that was deleted is there again, and one whose version was set to a number takes
the next one with it. -/
theorem deleted_returns : (∃ t, runTrace (system strict) bundledStore [.delete (text "triage")] =
      some t ∧ (t.playbooks.get (text "triage")).isNone ∧
      ∀ draw, ((load strict draw t.fixtures t.index).get (text "triage")).isSome) ∧
    ∃ t, runTrace (system strict) bundledStore [create "first", create "second",
        .update (text "first") (dictOf [("version", .int 2)]) []] = some t ∧
      (t.playbooks.get (text "second")).isSome ∧
      ∀ draw, ((load strict draw t.fixtures t.index).get (text "second")).isNone := by
  refine ⟨⟨_, rfl, by decide +kernel, fun draw => ?_⟩, ⟨_, rfl, by decide +kernel, fun draw => ?_⟩⟩
  · rfl
  · rfl

def cleanRun : List (Event Unit) :=
  [create "first", create "second",
    .update (text "first") (dictOf [("version", .str (text "2"))]) [], .delete (text "second")]

theorem cleanRun_reloads :
    GuardedTrace (system strict) (fun s e => Reloads strict (step strict s e)) bundledStore
      cleanRun := by
  refine (reloads_iff bundledStore_loaded cleanRun).2.mpr ?_
  refine TransitionSystem.guardedTrace_cons trivial rfl ?_
  refine TransitionSystem.guardedTrace_cons trivial rfl ?_
  refine TransitionSystem.guardedTrace_cons ?_ rfl ?_
  · intro _
    constructor
    · intro f v _ hv
      rw [dictOf_cons] at hv
      split_ifs at hv with hf
      · cases f with
        | version =>
          rw [← Option.some.inj hv]
          exact fun _ => rfl
        | _ => exact absurd hf (by decide)
      · cases hv
    · intro v hv
      rw [dictOf_cons, if_neg (by decide)] at hv
      cases hv
  · refine TransitionSystem.guardedTrace_cons ?_ rfl trivial
    rintro ⟨v, hv, generated, pb, hpb, hkey⟩
    obtain rfl := Option.some.inj (List.mem_singleton.mp hv)
    rw [triage_id generated hpb, text_inj] at hkey
    exact absurd hkey (by decide)

end PlaybookStore
