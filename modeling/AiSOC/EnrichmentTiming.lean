import AiSOC.EnrichmentMerge

/-! # Enrichment and the timing of the providers

The merge chooses between the results in the order they came in. When the choices do not
matter. -/
namespace EnrichmentTiming

open EnrichmentMerge
open FirstMaximum (IsTop TopsAgree CarriesTop carry firstMax)
open FloatOrder (Rank rank)

variable {l l' : List EnrichmentResult} {it : Iteration} {iocType : IOCType} {value : String}
  {now : Time}

/-- Equal, the lists up to their order and the risk as a number. -/
structure SameUpToOrder (a b : EnrichmentResult) : Prop where
  iocType : a.iocType = b.iocType
  value : a.value = b.value
  riskScore : rank a.riskScore = rank b.riskScore
  confidence : a.confidence = b.confidence
  votes : votes a = votes b
  sets : ∀ field : SetField, (field.of a).Perm (field.of b)
  reputation : a.reputation = b.reputation
  threatCategory : a.threatCategory = b.threatCategory
  geoLocation : a.geoLocation = b.geoLocation
  openPorts : a.openPorts.Perm b.openPorts
  whois : a.whois = b.whois
  dnsRecords : a.dnsRecords.Perm b.dnsRecords
  communityScore : a.communityScore = b.communityScore
  flags : (a.isBot, a.isTOR, a.isVPN, a.isDatacenter) = (b.isBot, b.isTOR, b.isVPN, b.isDatacenter)
  lastSeen : a.lastSeen = b.lastSeen
  firstSeen : a.firstSeen = b.firstSeen
  darkWeb : a.darkWeb = b.darkWeb
  vulnerabilities : a.vulnerabilities.Perm b.vulnerabilities
  brandRisk : a.brandRisk = b.brandRisk
  sources : a.sources.Perm b.sources
  enrichmentErrors : a.enrichmentErrors.Perm b.enrichmentErrors
  enrichedAt : a.enrichedAt = b.enrichedAt

/-- From a result that has it and that no other with it exceeds in risk, and there whenever
there is such a result. -/
def FromHighest {β : Type} (f : EnrichmentResult → Option β) (l : List EnrichmentResult)
    (out : Option β) : Prop :=
  match out with
  | none => ∀ r ∈ l, f r = none
  | some v => ∃ r ∈ l, f r = some v ∧ ∀ b ∈ l, (f b).isSome → ¬ r.riskScore < b.riskScore

structure TimingIndependent (iocType : IOCType) (value : String) (now : Time)
    (tasks : List FanOutTask) : Prop where
  same : ∀ (it it' : Iteration) (completed completed' : List FanOutTask),
    completed.Perm tasks → completed'.Perm tasks →
      SameUpToOrder (mergeResults it iocType value now (runFanOut completed))
        (mergeResults it' iocType value now (runFanOut completed'))
  geoLocation : ∀ (it : Iteration) (completed : List FanOutTask), completed.Perm tasks →
    FromHighest EnrichmentResult.geoLocation (runFanOut tasks)
      (mergeResults it iocType value now (runFanOut completed)).geoLocation
  whois : ∀ (it : Iteration) (completed : List FanOutTask), completed.Perm tasks →
    FromHighest whoisOf (runFanOut tasks)
      (whoisOf (mergeResults it iocType value now (runFanOut completed)))

/-- Every choice between the results falls on equal data, and the riskiest of them bring the
location and the registration if anybody does. -/
structure OrderFree (l : List EnrichmentResult) : Prop where
  geoLocation : CarriesTop riskKey EnrichmentResult.geoLocation l
  whois : CarriesTop riskKey whoisOf l
  votes : TopsAgree votesKey EnrichmentMerge.votes l
  threatCategory : FirstMaximum.Agree categoryOf l
  communityScore : FirstMaximum.Agree EnrichmentResult.communityScore l
  lastSeen : TopsAgree (partKey EnrichmentResult.lastSeen Time.instant)
    EnrichmentResult.lastSeen l
  firstSeen : TopsAgree
    (partKey EnrichmentResult.firstSeen fun t => OrderDual.toDual t.instant)
    EnrichmentResult.firstSeen l
  darkWeb : TopsAgree (partKey EnrichmentResult.darkWeb DarkWebContext.mentions)
    EnrichmentResult.darkWeb l
  brandRisk : TopsAgree (partKey EnrichmentResult.brandRisk BrandRisk.score)
    EnrichmentResult.brandRisk l
  vulnerabilities : ∀ cve, FirstMaximum.Agree (firstVulnerability cve) l

/-! ## What the order cannot change -/

theorem foldl_any (f : EnrichmentResult → Bool) (s : Bool) (l : List EnrichmentResult) :
    l.foldl (fun s r => s || f r) s = (s || l.any f) := by
  induction l generalizing s with
  | nil => exact (Bool.or_false s).symm
  | cons r l ih => rw [List.foldl_cons, ih, List.any_cons, Bool.or_assoc]

theorem mergeAll_flag (get : EnrichmentResult → Bool)
    (hstart : get (Merging.start iocType value now).merged = false)
    (hget : ∀ s r, get (mergeOne s r).merged = (get s.merged || get r))
    (l : List EnrichmentResult) : get (mergeAll iocType value now l).merged = l.any get := by
  refine (mergeAll_part (p := fun s => get s.merged) (g := fun s r => s || get r)
    (fun s r => (hget s r).symm) l).trans ?_
  rw [hstart, foldl_any, Bool.false_or]

theorem mergeAll_flag_perm (get : EnrichmentResult → Bool)
    (hstart : get (Merging.start iocType value now).merged = false)
    (hget : ∀ s r, get (mergeOne s r).merged = (get s.merged || get r)) (h : l.Perm l') :
    get (mergeAll iocType value now l).merged = get (mergeAll iocType value now l').merged := by
  rw [mergeAll_flag get hstart hget, mergeAll_flag get hstart hget, Bool.eq_iff_iff,
    List.any_eq_true, List.any_eq_true]
  exact exists_congr fun r => and_congr_left fun _ => h.mem_iff

theorem mergeAll_concat {α : Type} (get : EnrichmentResult → List α)
    (hstart : get (Merging.start iocType value now).merged = [])
    (hget : ∀ s r, get (mergeOne s r).merged = get s.merged ++ get r)
    (l : List EnrichmentResult) : get (mergeAll iocType value now l).merged = l.flatMap get := by
  refine (mergeAll_part (p := fun s => get s.merged) (g := fun s r => s ++ get r)
    (fun s r => (hget s r).symm) l).trans ?_
  rw [hstart, List.foldl_append_eq_append, List.nil_append, List.flatMap_def]

theorem mergeAll_concat_perm {α : Type} (get : EnrichmentResult → List α)
    (hstart : get (Merging.start iocType value now).merged = [])
    (hget : ∀ s r, get (mergeOne s r).merged = get s.merged ++ get r) (h : l.Perm l') :
    (get (mergeAll iocType value now l).merged).Perm
      (get (mergeAll iocType value now l').merged) := by
  rw [mergeAll_concat get hstart hget, mergeAll_concat get hstart hget]
  exact h.flatMap_right get

theorem mergeAll_sets (field : SetField) (l : List EnrichmentResult) :
    ((mergeAll iocType value now l).sets field).Nodup ∧
      ∀ k, k ∈ (mergeAll iocType value now l).sets field ↔ ∃ r ∈ l, k ∈ field.of r := by
  have hsets := foldl_sets field (Merging.start iocType value now) List.nodup_nil l
  refine ⟨hsets.1, ?_⟩
  intro k
  refine (hsets.2 k).trans (or_iff_right ?_)
  exact List.not_mem_nil

theorem sets_perm (field : SetField) (h : l.Perm l') :
    ((mergeAll iocType value now l).sets field).Perm
      ((mergeAll iocType value now l').sets field) := by
  obtain ⟨hnodup, hmem⟩ := @mergeAll_sets iocType value now field l
  obtain ⟨hnodup', hmem'⟩ := @mergeAll_sets iocType value now field l'
  rw [List.perm_ext_iff_of_nodup hnodup hnodup']
  intro k
  rw [hmem, hmem']
  exact exists_congr fun r => and_congr_left fun _ => h.mem_iff

theorem mergeAll_vulnerabilities (l : List EnrichmentResult) :
    ((mergeAll iocType value now l).merged.vulnerabilities.map VulnerabilityRef.cve).Nodup ∧
      ∀ cve, (mergeAll iocType value now l).merged.vulnerabilities.find?
        (fun v => v.cve == cve) = l.findSome? (firstVulnerability cve) := by
  have hstart : Deduplicated ([], []) := ⟨fun _ => Iff.rfl, List.nodup_nil⟩
  obtain ⟨hdedup, hfind⟩ := hstart.foldl (l.flatMap EnrichmentResult.vulnerabilities)
  have hall := foldl_vulnerabilities (Merging.start iocType value now) l
  have hlist : (mergeAll iocType value now l).merged.vulnerabilities =
      ((l.flatMap EnrichmentResult.vulnerabilities).foldl addVulnerability ([], [])).2 :=
    congrArg Prod.snd hall
  rw [hlist]
  refine ⟨hdedup.nodup, ?_⟩
  intro cve
  rw [hfind cve, List.nil_append, List.find?_flatMap]
  rfl

theorem mergeAll_maxRisk (l : List EnrichmentResult) :
    (mergeAll iocType value now l).maxRisk =
      (firstMax riskKey l).elim 0 EnrichmentResult.riskScore := by
  rw [← FirstMaximum.carry_fst (f := EnrichmentResult.geoLocation)]
  exact congrArg Prod.fst (mergeAll_riskiest l)

theorem rank_maxRisk_perm (h : l.Perm l') :
    rank (mergeAll iocType value now l).maxRisk =
      rank (mergeAll iocType value now l').maxRisk := by
  have htops : TopsAgree riskKey (fun r => rank r.riskScore) l' := by
    intro a b ha hb
    obtain ⟨x, hx, hkey⟩ := riskKey_eq (riskKey_pos.mp ha.pos)
    obtain ⟨y, hy, hkey'⟩ := riskKey_eq (riskKey_pos.mp hb.pos)
    have heq : (x : WithBot Rank) = y := by rw [← hkey, ← hkey', ha.key_eq hb]
    change rank a.riskScore = rank b.riskScore
    rw [Option.mem_def.mp hx, Option.mem_def.mp hy, WithBot.coe_inj.mp heq]
  rw [mergeAll_maxRisk, mergeAll_maxRisk]
  have hview := @FirstMaximum.forall_perm_iff _ _ _ _ riskKey l'
    (fun best => rank (best.elim 0 EnrichmentResult.riskScore))
  exact hview.mpr htops l l' h (List.Perm.refl l')

/-- The fields that are only set at the start. -/
theorem mergeAll_fixed (l : List EnrichmentResult) :
    let m := (mergeAll iocType value now l).merged
    (m.iocType, m.value, m.reputation, m.dnsRecords, m.enrichedAt) =
      (iocType, value, 0, [], now) := by
  refine (mergeAll_part (p := fun s => (s.merged.iocType, s.merged.value, s.merged.reputation,
    s.merged.dnsRecords, s.merged.enrichedAt)) (g := fun s _ => s) (fun _ _ => rfl) l).trans ?_
  exact List.foldl_fixed l

/-! ## What it can change -/

theorem geoLocation_iff : CarriesTop riskKey EnrichmentResult.geoLocation l ↔
    (∀ l₁ l₂ : List EnrichmentResult, l₁.Perm l → l₂.Perm l →
      (mergeAll iocType value now l₁).merged.geoLocation =
        (mergeAll iocType value now l₂).merged.geoLocation) ∧
      ∀ l₁ : List EnrichmentResult, l₁.Perm l →
        (mergeAll iocType value now l₁).merged.geoLocation = none →
          ∀ r ∈ l, r.geoLocation = none := by
  simp only [mergeAll_geoLocation]
  exact FirstMaximum.carriesTop_iff

theorem whoisOf_iff : CarriesTop riskKey whoisOf l ↔
    (∀ l₁ l₂ : List EnrichmentResult, l₁.Perm l → l₂.Perm l →
      whoisOf (mergeAll iocType value now l₁).merged =
        whoisOf (mergeAll iocType value now l₂).merged) ∧
      ∀ l₁ : List EnrichmentResult, l₁.Perm l →
        whoisOf (mergeAll iocType value now l₁).merged = none → ∀ r ∈ l, whoisOf r = none := by
  simp only [mergeAll_whois]
  exact FirstMaximum.carriesTop_iff

theorem votes_iff : (∀ l₁ l₂ : List EnrichmentResult, l₁.Perm l → l₂.Perm l →
      votes (mergeAll iocType value now l₁).merged =
        votes (mergeAll iocType value now l₂).merged) ↔ TopsAgree votesKey votes l := by
  simp only [mergeAll_votes]
  exact FirstMaximum.forall_perm_iff (fun best => best.elim (0, 0, 0) votes)

theorem preferred_iff {α L : Type} [LinearOrder L] {beats : α → α → Bool} {number : α → L}
    (hbeats : ∀ a b, beats a b = true ↔ number b < number a)
    (get : EnrichmentResult → Option α)
    (hstart : get (Merging.start iocType value now).merged = none)
    (hget : ∀ s r, get (mergeOne s r).merged = preferred beats (get s.merged) (get r)) :
    (∀ l₁ l₂ : List EnrichmentResult, l₁.Perm l → l₂.Perm l →
      get (mergeAll iocType value now l₁).merged = get (mergeAll iocType value now l₂).merged) ↔
      TopsAgree (partKey get number) get l := by
  simp only [mergeAll_preferred hbeats get hstart hget]
  exact FirstMaximum.forall_perm_iff (fun best => best.bind get)

theorem lastSeen_iff : (∀ l₁ l₂ : List EnrichmentResult, l₁.Perm l → l₂.Perm l →
      (mergeAll iocType value now l₁).merged.lastSeen =
        (mergeAll iocType value now l₂).merged.lastSeen) ↔
    TopsAgree (partKey EnrichmentResult.lastSeen Time.instant) EnrichmentResult.lastSeen l :=
  preferred_iff (fun _ _ => decide_eq_true_iff) EnrichmentResult.lastSeen rfl (fun _ _ => rfl)

theorem firstSeen_iff : (∀ l₁ l₂ : List EnrichmentResult, l₁.Perm l → l₂.Perm l →
      (mergeAll iocType value now l₁).merged.firstSeen =
        (mergeAll iocType value now l₂).merged.firstSeen) ↔
    TopsAgree (partKey EnrichmentResult.firstSeen fun t => OrderDual.toDual t.instant)
      EnrichmentResult.firstSeen l :=
  preferred_iff (fun _ _ => decide_eq_true_iff) EnrichmentResult.firstSeen rfl (fun _ _ => rfl)

theorem darkWeb_iff : (∀ l₁ l₂ : List EnrichmentResult, l₁.Perm l → l₂.Perm l →
      (mergeAll iocType value now l₁).merged.darkWeb =
        (mergeAll iocType value now l₂).merged.darkWeb) ↔
    TopsAgree (partKey EnrichmentResult.darkWeb DarkWebContext.mentions)
      EnrichmentResult.darkWeb l :=
  preferred_iff (fun _ _ => decide_eq_true_iff) EnrichmentResult.darkWeb rfl (fun _ _ => rfl)

theorem brandRisk_iff : (∀ l₁ l₂ : List EnrichmentResult, l₁.Perm l → l₂.Perm l →
      (mergeAll iocType value now l₁).merged.brandRisk =
        (mergeAll iocType value now l₂).merged.brandRisk) ↔
    TopsAgree (partKey EnrichmentResult.brandRisk BrandRisk.score) EnrichmentResult.brandRisk l :=
  preferred_iff (fun _ _ => decide_eq_true_iff) EnrichmentResult.brandRisk rfl (fun _ _ => rfl)

theorem findSome?_categoryOf (l : List EnrichmentResult) :
    l.findSome? categoryOf =
      if (l.findSome? categoryOf).getD "" ≠ "" then some ((l.findSome? categoryOf).getD "")
      else none := by
  rcases h : l.findSome? categoryOf with - | v
  · rfl
  · obtain ⟨r, -, hr⟩ := List.exists_of_findSome?_eq_some h
    rw [categoryOf] at hr
    split_ifs at hr with hne
    obtain rfl := Option.some.inj hr
    rw [Option.getD_some, if_pos hne]

theorem threatCategory_iff : (∀ l₁ l₂ : List EnrichmentResult, l₁.Perm l → l₂.Perm l →
      (mergeAll iocType value now l₁).merged.threatCategory =
        (mergeAll iocType value now l₂).merged.threatCategory) ↔
    FirstMaximum.Agree categoryOf l := by
  rw [← FirstMaximum.findSome?_forall_perm_iff]
  refine forall₂_congr fun l₁ l₂ => imp_congr_right fun _ => imp_congr_right fun _ => ?_
  rw [mergeAll_threatCategory, mergeAll_threatCategory]
  constructor
  · intro h
    rw [findSome?_categoryOf l₁, findSome?_categoryOf l₂, h]
  · intro h
    rw [h]

theorem communityScore_iff : (∀ l₁ l₂ : List EnrichmentResult, l₁.Perm l → l₂.Perm l →
      (mergeAll iocType value now l₁).merged.communityScore =
        (mergeAll iocType value now l₂).merged.communityScore) ↔
    FirstMaximum.Agree EnrichmentResult.communityScore l := by
  simp only [mergeAll_communityScore]
  exact FirstMaximum.findSome?_forall_perm_iff

theorem vulnerabilities_iff : (∀ l₁ l₂ : List EnrichmentResult, l₁.Perm l → l₂.Perm l →
      (mergeAll iocType value now l₁).merged.vulnerabilities.Perm
        (mergeAll iocType value now l₂).merged.vulnerabilities) ↔
    ∀ cve, FirstMaximum.Agree (firstVulnerability cve) l := by
  have hperm : ∀ l₁ l₂, (mergeAll iocType value now l₁).merged.vulnerabilities.Perm
      (mergeAll iocType value now l₂).merged.vulnerabilities ↔
        ∀ cve, l₁.findSome? (firstVulnerability cve) = l₂.findSome? (firstVulnerability cve) := by
    intro l₁ l₂
    obtain ⟨hnodup, hfind⟩ := @mergeAll_vulnerabilities iocType value now l₁
    obtain ⟨hnodup', hfind'⟩ := @mergeAll_vulnerabilities iocType value now l₂
    rw [perm_iff_find? hnodup hnodup']
    simp only [hfind, hfind']
  simp only [hperm, ← FirstMaximum.findSome?_forall_perm_iff]
  constructor
  · intro h cve l₁ l₂ h₁ h₂
    exact h l₁ l₂ h₁ h₂ cve
  · intro h l₁ l₂ h₁ h₂ cve
    exact h cve l₁ l₂ h₁ h₂

theorem whoisOf_inj {a b : EnrichmentResult} : whoisOf a = whoisOf b ↔ a.whois = b.whois := by
  constructor
  · intro h
    have hentries : a.whois.entries = b.whois.entries := by
      rw [whoisOf, whoisOf] at h
      split_ifs at h with ha hb hb
      · rw [Option.some.inj h]
      · rw [not_not.mp ha, not_not.mp hb]
    exact Whois.ext hentries
  · intro h
    rw [whoisOf, whoisOf, h]

/-- The riskiest bring it, so that no other that has it is riskier. -/
theorem fromHighest_of_carriesTop {β : Type} {f : EnrichmentResult → Option β}
    (h : CarriesTop riskKey f l) (hperm : l'.Perm l) :
    FromHighest f l (carry riskKey f l').2 := by
  rcases h.carry hperm with ⟨hnone, hout⟩ | ⟨a, v, ha, hv, hout⟩
  · rw [hout]
    exact hnone
  · rw [hout]
    refine ⟨a, ha.mem, hv, ?_⟩
    intro b hb _ hlt
    have hkey := (riskKey_lt (riskKey_pos.mp ha.pos)).mpr hlt
    exact absurd (ha.le b hb) (not_le_of_gt hkey)

theorem OrderFree.sameUpToOrder (h : OrderFree l) (htwo : 2 ≤ l.length) (it it' : Iteration)
    {l₁ l₂ : List EnrichmentResult} (h₁ : l₁.Perm l) (h₂ : l₂.Perm l) :
    SameUpToOrder (mergeResults it iocType value now l₁)
      (mergeResults it' iocType value now l₂) := by
  have hlength : l₁.length = l₂.length := (h₁.trans h₂.symm).length_eq
  have hperm : l₁.Perm l₂ := h₁.trans h₂.symm
  rw [mergeResults_of_two_le (h₁.length_eq ▸ htwo), mergeResults_of_two_le (h₂.length_eq ▸ htwo)]
  have hfixed₁ := @mergeAll_fixed iocType value now l₁
  have hfixed₂ := @mergeAll_fixed iocType value now l₂
  simp only [Prod.mk.injEq] at hfixed₁ hfixed₂
  obtain ⟨htype₁, hvalue₁, hrep₁, hdns₁, hnow₁⟩ := hfixed₁
  obtain ⟨htype₂, hvalue₂, hrep₂, hdns₂, hnow₂⟩ := hfixed₂
  exact {
    iocType := htype₁.trans htype₂.symm
    value := hvalue₁.trans hvalue₂.symm
    riskScore := rank_maxRisk_perm hperm
    confidence := congrArg confidenceOf hlength
    votes := votes_iff.mpr h.votes l₁ l₂ h₁ h₂
    sets := by
      intro field
      have hset : (it.keys field ((mergeAll iocType value now l₁).sets field)).Perm
          (it'.keys field ((mergeAll iocType value now l₂).sets field)) :=
        ((it.perm field _).trans (sets_perm field hperm)).trans (it'.perm field _).symm
      cases field <;> exact hset
    reputation := hrep₁.trans hrep₂.symm
    threatCategory := threatCategory_iff.mpr h.threatCategory l₁ l₂ h₁ h₂
    geoLocation := (geoLocation_iff.mp h.geoLocation).1 l₁ l₂ h₁ h₂
    openPorts := mergeAll_concat_perm EnrichmentResult.openPorts rfl (fun _ _ => rfl) hperm
    whois := whoisOf_inj.mp ((whoisOf_iff.mp h.whois).1 l₁ l₂ h₁ h₂)
    dnsRecords := by
      change (mergeAll _ _ _ l₁).merged.dnsRecords.Perm (mergeAll _ _ _ l₂).merged.dnsRecords
      rw [hdns₁, hdns₂]
    communityScore := communityScore_iff.mpr h.communityScore l₁ l₂ h₁ h₂
    flags := by
      have hbot := @mergeAll_flag_perm l₁ l₂ iocType value now EnrichmentResult.isBot rfl
        (fun _ _ => rfl) hperm
      have htor := @mergeAll_flag_perm l₁ l₂ iocType value now EnrichmentResult.isTOR rfl
        (fun _ _ => rfl) hperm
      have hvpn := @mergeAll_flag_perm l₁ l₂ iocType value now EnrichmentResult.isVPN rfl
        (fun _ _ => rfl) hperm
      have hcenter := @mergeAll_flag_perm l₁ l₂ iocType value now EnrichmentResult.isDatacenter rfl
        (fun _ _ => rfl) hperm
      exact Prod.ext hbot (Prod.ext htor (Prod.ext hvpn hcenter))
    lastSeen := lastSeen_iff.mpr h.lastSeen l₁ l₂ h₁ h₂
    firstSeen := firstSeen_iff.mpr h.firstSeen l₁ l₂ h₁ h₂
    darkWeb := darkWeb_iff.mpr h.darkWeb l₁ l₂ h₁ h₂
    vulnerabilities := vulnerabilities_iff.mpr h.vulnerabilities l₁ l₂ h₁ h₂
    brandRisk := brandRisk_iff.mpr h.brandRisk l₁ l₂ h₁ h₂
    sources := mergeAll_concat_perm EnrichmentResult.sources rfl (fun _ _ => rfl) hperm
    enrichmentErrors :=
      mergeAll_concat_perm EnrichmentResult.enrichmentErrors rfl (fun _ _ => rfl) hperm
    enrichedAt := hnow₁.trans hnow₂.symm }

/-- The keys in the order they were added. -/
def Iteration.inserted : Iteration := ⟨fun _ set => set, fun _ set => List.Perm.refl set⟩

variable (iocType value now) in
theorem orderFree_of_same (htwo : 2 ≤ l.length)
    (hsame : ∀ l₁ l₂ : List EnrichmentResult, l₁.Perm l → l₂.Perm l →
      SameUpToOrder (mergeResults Iteration.inserted iocType value now l₁)
        (mergeResults Iteration.inserted iocType value now l₂))
    (hgeo : ∀ l₁ : List EnrichmentResult, l₁.Perm l →
      FromHighest EnrichmentResult.geoLocation l
        (mergeResults Iteration.inserted iocType value now l₁).geoLocation)
    (hwhois : ∀ l₁ : List EnrichmentResult, l₁.Perm l →
      FromHighest whoisOf l
        (whoisOf (mergeResults Iteration.inserted iocType value now l₁))) : OrderFree l := by
  have hmerge : ∀ {l₁ : List EnrichmentResult}, l₁.Perm l →
      mergeResults Iteration.inserted iocType value now l₁ =
        finish Iteration.inserted (mergeAll iocType value now l₁) l₁.length :=
    fun h₁ => mergeResults_of_two_le (h₁.length_eq ▸ htwo)
  have hall : ∀ l₁ l₂ : List EnrichmentResult, l₁.Perm l → l₂.Perm l →
      SameUpToOrder
        (finish Iteration.inserted (mergeAll iocType value now l₁) l₁.length)
        (finish Iteration.inserted (mergeAll iocType value now l₂) l₂.length) := by
    intro l₁ l₂ h₁ h₂
    rw [← hmerge h₁, ← hmerge h₂]
    exact hsame l₁ l₂ h₁ h₂
  exact {
    geoLocation := by
      refine geoLocation_iff.mpr ⟨fun l₁ l₂ h₁ h₂ => (hall l₁ l₂ h₁ h₂).geoLocation, ?_⟩
      intro l₁ h₁ hnone
      have hhigh := hgeo l₁ h₁
      rw [hmerge h₁] at hhigh
      change FromHighest _ l (mergeAll iocType value now l₁).merged.geoLocation at hhigh
      rw [hnone] at hhigh
      exact hhigh
    whois := by
      refine whoisOf_iff.mpr
        ⟨fun l₁ l₂ h₁ h₂ => whoisOf_inj.mpr (hall l₁ l₂ h₁ h₂).whois, ?_⟩
      intro l₁ h₁ hnone
      have hhigh := hwhois l₁ h₁
      rw [hmerge h₁] at hhigh
      change FromHighest _ l (whoisOf (mergeAll iocType value now l₁).merged) at hhigh
      rw [hnone] at hhigh
      exact hhigh
    votes := votes_iff.mp fun l₁ l₂ h₁ h₂ => (hall l₁ l₂ h₁ h₂).votes
    threatCategory := threatCategory_iff.mp fun l₁ l₂ h₁ h₂ => (hall l₁ l₂ h₁ h₂).threatCategory
    communityScore := communityScore_iff.mp fun l₁ l₂ h₁ h₂ => (hall l₁ l₂ h₁ h₂).communityScore
    lastSeen := lastSeen_iff.mp fun l₁ l₂ h₁ h₂ => (hall l₁ l₂ h₁ h₂).lastSeen
    firstSeen := firstSeen_iff.mp fun l₁ l₂ h₁ h₂ => (hall l₁ l₂ h₁ h₂).firstSeen
    darkWeb := darkWeb_iff.mp fun l₁ l₂ h₁ h₂ => (hall l₁ l₂ h₁ h₂).darkWeb
    brandRisk := brandRisk_iff.mp fun l₁ l₂ h₁ h₂ => (hall l₁ l₂ h₁ h₂).brandRisk
    vulnerabilities :=
      vulnerabilities_iff.mp fun l₁ l₂ h₁ h₂ => (hall l₁ l₂ h₁ h₂).vulnerabilities }

/-! ## The orders of completion -/

theorem runFanOut_perm {completed tasks : List FanOutTask} (h : completed.Perm tasks) :
    (runFanOut completed).Perm (runFanOut tasks) :=
  h.filterMap _

/-- Every order of the results comes from an order of completion. -/
theorem exists_completed (tasks : List FanOutTask) (h : l.Perm (runFanOut tasks)) :
    ∃ completed, completed.Perm tasks ∧ runFanOut completed = l := by
  induction l generalizing tasks with
  | nil =>
    refine ⟨tasks, List.Perm.refl tasks, ?_⟩
    exact List.nil_perm.mp h
  | cons r l ih =>
    obtain ⟨t, ht, hr⟩ := List.mem_filterMap.mp (h.mem_iff.mp List.mem_cons_self)
    obtain ⟨before, after, rfl⟩ := List.append_of_mem ht
    have hmiddle : (t :: (before ++ after)).Perm (before ++ t :: after) := List.perm_middle.symm
    have hcons : runFanOut (t :: (before ++ after)) = r :: runFanOut (before ++ after) :=
      List.filterMap_cons_some hr
    have hrest : l.Perm (runFanOut (before ++ after)) := by
      have hall := h.trans (runFanOut_perm hmiddle).symm
      rw [hcons] at hall
      exact hall.cons_inv
    obtain ⟨completed, hcompleted, heq⟩ := ih (before ++ after) hrest
    refine ⟨t :: completed, (hcompleted.cons t).trans hmiddle, ?_⟩
    rw [← heq]
    exact List.filterMap_cons_some hr

theorem SameUpToOrder.refl (a : EnrichmentResult) : SameUpToOrder a a := by
  constructor
  all_goals first | rfl | exact fun _ => List.Perm.refl _

theorem fromHighest_singleton {β : Type} (f : EnrichmentResult → Option β)
    (r : EnrichmentResult) : FromHighest f [r] (f r) := by
  rcases hf : f r with - | v
  · exact List.forall_mem_singleton.mpr hf
  · refine ⟨r, List.mem_singleton_self r, hf, ?_⟩
    rw [List.forall_mem_singleton]
    exact fun _ hlt => FloatOrder.not_lt_of_le (FloatOrder.le_of_lt hlt) hlt

/-- Nothing is chosen where at most one provider answers. -/
theorem timingIndependent_of_length_le {tasks : List FanOutTask}
    (h : (runFanOut tasks).length ≤ 1) : TimingIndependent iocType value now tasks := by
  have hshort : runFanOut tasks = [] ∨ ∃ r, runFanOut tasks = [r] := by
    rcases hlist : runFanOut tasks with - | ⟨r, - | ⟨r', rest⟩⟩
    · exact Or.inl rfl
    · exact Or.inr ⟨r, rfl⟩
    · rw [hlist] at h
      exact absurd h (by simp)
  have heq : ∀ completed : List FanOutTask, completed.Perm tasks →
      runFanOut completed = runFanOut tasks := by
    intro completed hcompleted
    have hperm := runFanOut_perm hcompleted
    rcases hshort with hnil | ⟨r, hone⟩
    · rw [hnil] at hperm ⊢
      exact List.perm_nil.mp hperm
    · rw [hone] at hperm ⊢
      exact List.perm_singleton.mp hperm
  refine ⟨?_, ?_, ?_⟩
  · intro it it' completed completed' h₁ h₂
    rw [heq completed h₁, heq completed' h₂]
    rcases hshort with hnil | ⟨r, hone⟩
    · rw [hnil]
      exact SameUpToOrder.refl _
    · rw [hone]
      exact SameUpToOrder.refl _
  · intro it completed h₁
    rw [heq completed h₁]
    rcases hshort with hnil | ⟨r, hone⟩
    · rw [hnil]
      exact fun _ hr => absurd hr List.not_mem_nil
    · rw [hone]
      exact fromHighest_singleton EnrichmentResult.geoLocation r
  · intro it completed h₁
    rw [heq completed h₁]
    rcases hshort with hnil | ⟨r, hone⟩
    · rw [hnil]
      exact fun _ hr => absurd hr List.not_mem_nil
    · rw [hone]
      exact fromHighest_singleton whoisOf r

theorem timingIndependent_iff (iocType : IOCType) (value : String) (now : Time)
    (tasks : List FanOutTask) : TimingIndependent iocType value now tasks ↔
      (runFanOut tasks).length ≤ 1 ∨ OrderFree (runFanOut tasks) := by
  constructor
  · intro h
    by_cases hone : (runFanOut tasks).length ≤ 1
    · exact Or.inl hone
    · refine Or.inr (orderFree_of_same iocType value now (by omega) ?_ ?_ ?_)
      · intro l₁ l₂ h₁ h₂
        obtain ⟨completed, hcompleted, rfl⟩ := exists_completed tasks h₁
        obtain ⟨completed', hcompleted', rfl⟩ := exists_completed tasks h₂
        exact h.same _ _ completed completed' hcompleted hcompleted'
      · intro l₁ h₁
        obtain ⟨completed, hcompleted, rfl⟩ := exists_completed tasks h₁
        exact h.geoLocation _ completed hcompleted
      · intro l₁ h₁
        obtain ⟨completed, hcompleted, rfl⟩ := exists_completed tasks h₁
        exact h.whois _ completed hcompleted
  · rintro (hone | hfree)
    · exact timingIndependent_of_length_le hone
    · by_cases hone : (runFanOut tasks).length ≤ 1
      · exact timingIndependent_of_length_le hone
      · have htwo : 2 ≤ (runFanOut tasks).length := by omega
        refine ⟨?_, ?_, ?_⟩
        · intro it it' completed completed' h₁ h₂
          exact hfree.sameUpToOrder htwo it it' (runFanOut_perm h₁) (runFanOut_perm h₂)
        · intro it completed h₁
          have hperm := runFanOut_perm h₁
          rw [mergeResults_of_two_le (hperm.length_eq ▸ htwo)]
          have hgeo := fromHighest_of_carriesTop hfree.geoLocation hperm
          rw [← @mergeAll_geoLocation iocType value now] at hgeo
          exact hgeo
        · intro it completed h₁
          have hperm := runFanOut_perm h₁
          rw [mergeResults_of_two_le (hperm.length_eq ▸ htwo)]
          have hwhois := fromHighest_of_carriesTop hfree.whois hperm
          rw [← @mergeAll_whois iocType value now] at hwhois
          exact hwhois

/-- An address that nobody reports: one provider knows where it is, the other has only seen it. -/
def abuseipdb : EnrichmentResult := {
  iocType := .ip
  value := "203.0.113.7"
  geoLocation := some {
    country := "", countryCode := "FR", city := "", region := "", latitude := 0, longitude := 0,
    asn := 0, asOrg := "", isp := "Example Telecom" }
  sources := [⟨"abuseipdb", "", ⟨100, 0⟩, false⟩]
  enrichedAt := ⟨100, 0⟩ }

def greynoise : EnrichmentResult := {
  iocType := .ip
  value := "203.0.113.7"
  threatCategory := "unknown"
  communityScore := some 0
  sources := [⟨"greynoise", "", ⟨100, 0⟩, false⟩]
  enrichedAt := ⟨100, 0⟩ }

/-- The location is lost, in every order. -/
theorem location_lost_without_risk : ¬ TimingIndependent .ip "203.0.113.7" ⟨101, 0⟩
    [⟨"abuseipdb", .ok (some abuseipdb)⟩, ⟨"greynoise", .ok (some greynoise)⟩] := by
  intro h
  have hgeo := h.geoLocation Iteration.inserted _ (List.Perm.refl _)
  have hzero : ¬ (0 : Float) < 0 := fun hlt =>
    FloatOrder.not_lt_of_le (FloatOrder.le_of_lt hlt) hlt
  have hkeys : ∀ r ∈ [abuseipdb, greynoise], riskKey r = ⊥ := by
    intro r hr
    rcases List.mem_pair.mp hr with rfl | rfl
    · exact if_neg hzero
    · exact if_neg hzero
  have hnone : (mergeAll .ip "203.0.113.7" ⟨101, 0⟩ [abuseipdb, greynoise]).merged.geoLocation =
      none := by
    rw [mergeAll_geoLocation]
    exact FirstMaximum.carry_of_no_key hkeys
  have hresults : runFanOut [⟨"abuseipdb", .ok (some abuseipdb)⟩,
      ⟨"greynoise", .ok (some greynoise)⟩] = [abuseipdb, greynoise] := rfl
  have hlocation : ∀ s n, (finish Iteration.inserted s n).geoLocation = s.merged.geoLocation :=
    fun _ _ => rfl
  have htwo : 2 ≤ [abuseipdb, greynoise].length := Nat.le_refl 2
  rw [hresults, mergeResults_of_two_le htwo, hlocation, hnone] at hgeo
  exact Option.some_ne_none _ (hgeo abuseipdb List.mem_cons_self)

end EnrichmentTiming
