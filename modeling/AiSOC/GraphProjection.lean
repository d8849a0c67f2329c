import AiSOC.GraphExtractor

/-! # What the extractors emit

One walk over the extractors: no node carries a property of the name its key is stored under,
and the edges lead from nodes to nodes of the same event, the accesses of Kubernetes service
accounts apart. -/
namespace GraphProjection

open GraphExtractor

variable {ev : Event} {ocsf : Object} {label : NodeLabel} {key : String}

/-- The event has a node of the label and key. -/
def HasEntity (ev : Event) (label : NodeLabel) (key : String) : Prop :=
  ∃ n ∈ ev.nodes, n.label = label ∧ n.naturalKey = key

/-- Both ends of every edge are among the nodes. -/
def Closed (ev : Event) : Prop :=
  ∀ e ∈ ev.edges, HasEntity ev e.fromLabel e.fromKey ∧ HasEntity ev e.toLabel e.toKey

def Keyless (properties : Object) : Prop := "natural_key" ∉ properties.map Prod.fst

def Plain (ev : Event) : Prop := ∀ n ∈ ev.nodes, Keyless n.properties

structure Projected (ev : Event) : Prop where
  plain : Plain ev
  closed : Closed ev

/-- A service account that accesses a resource in a Kubernetes audit event. -/
def ServiceAccountAccess (rt : Runtime) (connectorType : String) (ocsf : Object) : Prop :=
  rt.toLower connectorType = "kubernetes_audit" ∧
    hasPrefix (getString ocsf ["actor", "user", "name"]) "system:serviceaccount:" = true ∧
    getString ocsf ["resource", "name"] ≠ ""

theorem HasEntity.addNode {l : NodeLabel} {k : String} {properties : Object}
    (h : HasEntity ev label key) : HasEntity (ev.addNode l k properties) label key := by
  obtain ⟨n, hn, hnode⟩ := h
  exact ⟨n, List.mem_append_left _ hn, hnode⟩

theorem hasEntity_addNode (ev : Event) (label : NodeLabel) (key : String) (properties : Object) :
    HasEntity (ev.addNode label key properties) label key :=
  ⟨_, List.mem_append_right _ List.mem_cons_self, rfl, rfl⟩

theorem HasEntity.addEdge {e : Edge} (h : HasEntity ev label key) :
    HasEntity (ev.addEdge e) label key := h

theorem HasEntity.ite {p : Prop} [Decidable p] {a b : Event} (ha : HasEntity a label key)
    (hb : ¬ p → HasEntity b label key) : HasEntity (if p then a else b) label key := by
  split
  · exact ha
  · rename_i hp
    exact hb hp

theorem Plain.addNode {l : NodeLabel} {k : String} {properties : Object} (h : Plain ev)
    (hp : Keyless properties) : Plain (ev.addNode l k properties) := by
  intro n hn
  rcases List.mem_append.mp hn with hn | hn
  · exact h n hn
  · cases List.mem_singleton.mp hn
    exact hp

theorem Projected.addNode {l : NodeLabel} {k : String} {properties : Object}
    (h : Projected ev) (hp : Keyless properties) : Projected (ev.addNode l k properties) where
  plain := h.plain.addNode hp
  closed e he := ⟨(h.closed e he).1.addNode, (h.closed e he).2.addNode⟩

theorem Projected.addEdge {e : Edge} (h : Projected ev)
    (hfrom : HasEntity ev e.fromLabel e.fromKey) (hto : HasEntity ev e.toLabel e.toKey) :
    Projected (ev.addEdge e) where
  plain := h.plain
  closed d hd := by
    rcases List.mem_append.mp hd with hd | hd
    · exact h.closed d hd
    · cases List.mem_singleton.mp hd
      exact ⟨hfrom, hto⟩

theorem Projected.ite {p : Prop} [Decidable p] {a b : Event} (ha : Projected a)
    (hb : ¬ p → Projected b) : Projected (if p then a else b) := by
  split
  · exact ha
  · rename_i hp
    exact hb hp

/-- A node that is added unless its name is empty is there whenever its key is not empty. -/
theorem hasEntity_named {name k : String} {properties : Object}
    (hk : (if name = "" then "" else k) ≠ "") :
    HasEntity (if name = "" then ev else ev.addNode label (if name = "" then "" else k) properties)
      label (if name = "" then "" else k) := by
  by_cases hname : name = ""
  · simp [hname] at hk
  · rw [if_neg hname, if_neg hname]
    exact hasEntity_addNode ..

theorem extractGeneric_projected (h : Projected ev) (ocsf : Object) :
    Projected (extractGeneric ev ocsf) := by
  unfold extractGeneric
  extract_lets name ev₁ dev ev₂ srcIP ev₃ dstIP
  have h₁ : Projected ev₁ := h.ite fun _ => h.addNode (by simp [Keyless])
  have h₂ : Projected ev₂ := h₁.ite fun _ => h₁.addNode (by simp [Keyless])
  have h₃ : Projected ev₃ := h₂.ite fun _ => h₂.addNode (by simp [Keyless])
  exact h₃.ite fun _ => h₃.addNode (by simp [Keyless])

/-- An element of the findings; the actor's node stays where it is. -/
theorem extractAWSResource_projected {actorKey : String} (h : Projected ev)
    (hactor : actorKey ≠ "" → HasEntity ev .user actorKey) (ocsf : Object) (r : Value) :
    Projected (extractAWSResource ocsf actorKey ev r) ∧
      (actorKey ≠ "" → HasEntity (extractAWSResource ocsf actorKey ev r) .user actorKey) := by
  cases r with
  | map rmap =>
    unfold extractAWSResource
    dsimp -zeta only
    extract_lets arn key ev₁ ev₂ alertID alertKey
    have h₁ : Projected ev₁ := h.addNode (by simp [Keyless])
    have hactor₁ : actorKey ≠ "" → HasEntity ev₁ .user actorKey := fun hne => (hactor hne).addNode
    have hkey₁ : HasEntity ev₁ .resource key := hasEntity_addNode ..
    have h₂ : Projected ev₂ := h₁.ite fun hne => h₁.addEdge (hactor₁ hne) hkey₁
    have hactor₂ : actorKey ≠ "" → HasEntity ev₂ .user actorKey :=
      fun hne => (hactor₁ hne).ite fun _ => (hactor₁ hne).addEdge
    have hkey₂ : HasEntity ev₂ .resource key := hkey₁.ite fun _ => hkey₁.addEdge
    refine ⟨h.ite fun _ => h₂.ite fun _ => ?_, fun hne => ?_⟩
    · exact (h₂.addNode (by simp [Keyless])).addEdge (hasEntity_addNode ..) hkey₂.addNode
    · exact (hactor hne).ite fun _ => (hactor₂ hne).ite fun _ => (hactor₂ hne).addNode.addEdge
  | _ => exact ⟨h, hactor⟩

theorem extractFromAWS_projected (h : Projected ev) (ocsf : Object) :
    Projected (extractFromAWS ev ocsf) := by
  unfold extractFromAWS
  split
  · rename_i r rs _
    extract_lets actor actorKey ev₁
    have h₁ : Projected ev₁ := h.ite fun _ => h.addNode (by simp [Keyless])
    have hactor₁ : actorKey ≠ "" → HasEntity ev₁ .user actorKey := fun hne => hasEntity_named hne
    have fold : ∀ (l : List Value) e, Projected e →
        (actorKey ≠ "" → HasEntity e .user actorKey) →
        Projected (l.foldl (extractAWSResource ocsf actorKey) e) := by
      intro l
      induction l with
      | nil => exact fun _ he _ => he
      | cons x l ih =>
        intro e he hactor
        obtain ⟨hstep, hactor⟩ := extractAWSResource_projected he hactor ocsf x
        exact ih _ hstep hactor
    exact fold (r :: rs) ev₁ h₁ hactor₁
  · exact extractGeneric_projected h ocsf

theorem extractFromGitHub_projected (rt : Runtime) (h : Projected ev) (ocsf : Object) :
    Projected (extractFromGitHub rt ev ocsf) := by
  unfold extractFromGitHub
  extract_lets actor repo action actorKey ev₁ repoKey ev₂ rel
  have h₁ : Projected ev₁ := h.ite fun _ => h.addNode (by simp [Keyless])
  have hactor₁ : actorKey ≠ "" → HasEntity ev₁ .user actorKey := fun hne => hasEntity_named hne
  have h₂ : Projected ev₂ := h₁.addNode (by simp [Keyless])
  exact h₁.ite fun _ => h₂.ite fun hne =>
    h₂.addEdge (hactor₁ hne).addNode (hasEntity_addNode ..)

theorem extractFromOkta_projected (h : Projected ev) (ocsf : Object) :
    Projected (extractFromOkta ev ocsf) := by
  unfold extractFromOkta
  extract_lets email identityID userName idKey ev₁ userKey ev₂ ev₃ srcIP key ev₄ ev₅ app appKey ev₆
  have h₁ : Projected ev₁ := h.ite fun _ => h.addNode (by simp [Keyless])
  have hid₁ : idKey ≠ "" → HasEntity ev₁ .identity idKey := fun hne => hasEntity_named hne
  have h₂ : Projected ev₂ := h₁.ite fun _ => h₁.addNode (by simp [Keyless])
  have hid₂ : idKey ≠ "" → HasEntity ev₂ .identity idKey :=
    fun hne => (hid₁ hne).ite fun _ => (hid₁ hne).addNode
  have huser₂ : userKey ≠ "" → HasEntity ev₂ .user userKey := fun hne => hasEntity_named hne
  have h₃ : Projected ev₃ := h₂.ite fun hne =>
    h₂.addEdge (hid₂ fun heq => hne (Or.inl heq)) (huser₂ fun heq => hne (Or.inr heq))
  have huser₃ : userKey ≠ "" → HasEntity ev₃ .user userKey :=
    fun hne => (huser₂ hne).ite fun _ => (huser₂ hne).addEdge
  have h₄ : Projected ev₄ := h₃.addNode (by simp [Keyless])
  have huser₄ : userKey ≠ "" → HasEntity ev₄ .user userKey := fun hne => (huser₃ hne).addNode
  have h₅ : Projected ev₅ := h₃.ite fun _ => h₄.ite fun hne =>
    h₄.addEdge (huser₄ hne) (hasEntity_addNode ..)
  have huser₅ : userKey ≠ "" → HasEntity ev₅ .user userKey := fun hne =>
    (huser₃ hne).ite fun _ => (huser₄ hne).ite fun _ => (huser₄ hne).addEdge
  have h₆ : Projected ev₆ := h₅.addNode (by simp [Keyless])
  exact h₅.ite fun _ => h₆.ite fun hne =>
    h₆.addEdge (huser₅ hne).addNode (hasEntity_addNode ..)

theorem Plain.ite {p : Prop} [Decidable p] {a b : Event} (ha : Plain a) (hb : ¬ p → Plain b) :
    Plain (if p then a else b) := by
  split
  · exact ha
  · rename_i hp
    exact hb hp

theorem Plain.addEdge {e : Edge} (h : Plain ev) : Plain (ev.addEdge e) := h

theorem extractFromKubernetes_plain (h : Plain ev) (ocsf : Object) :
    Plain (extractFromKubernetes ev ocsf) := by
  unfold extractFromKubernetes
  extract_lets user verb resource resType ns userKey label ev₁ key ev₂ ev₃ srcIP
  have h₁ : Plain ev₁ := h.ite fun _ => h.addNode (by simp [Keyless])
  have h₂ : Plain ev₂ := h₁.addNode (by simp [Keyless])
  have h₃ : Plain ev₃ := h₁.ite fun _ => h₂.ite fun _ => h₂.addEdge
  exact h₃.ite fun _ => h₃.addNode (by simp [Keyless])

/-- Users other than service accounts are nodes under the label that their edges leave. -/
theorem extractFromKubernetes_projected (h : Projected ev)
    (hplain : hasPrefix (getString ocsf ["actor", "user", "name"]) "system:serviceaccount:" = true →
      getString ocsf ["resource", "name"] = "") :
    Projected (extractFromKubernetes ev ocsf) := by
  unfold extractFromKubernetes
  extract_lets user verb resource resType ns userKey label ev₁ key ev₂ ev₃ srcIP
  have h₁ : Projected ev₁ := h.ite fun _ => h.addNode (by simp [Keyless])
  have h₂ : Projected ev₂ := h₁.addNode (by simp [Keyless])
  have h₃ : Projected ev₃ := by
    refine h₁.ite fun hresource => h₂.ite fun hne => h₂.addEdge ?_ (hasEntity_addNode ..)
    have hlabel : label = .user := if_neg fun haccount => hresource (hplain haccount)
    have huser : HasEntity ev₁ label userKey := hasEntity_named hne
    rw [hlabel] at huser
    exact huser.addNode
  exact h₃.ite fun _ => h₃.addNode (by simp [Keyless])

/-- An edge leaves a user, and there is none. -/
def Dangling (ev : Event) : Prop :=
  (∃ e ∈ ev.edges, e.fromLabel = .user) ∧ ∀ n ∈ ev.nodes, n.label ≠ .user

theorem Dangling.not_closed (h : Dangling ev) : ¬ Closed ev := by
  obtain ⟨⟨e, he, hlabel⟩, hnone⟩ := h
  intro hclosed
  obtain ⟨n, hn, hsame, -⟩ := (hclosed e he).1
  exact hnone n hn (hsame.trans hlabel)

theorem no_user_addNode {l : NodeLabel} {k : String} {properties : Object}
    (h : ∀ n ∈ ev.nodes, n.label ≠ .user) (hl : l ≠ .user) :
    ∀ n ∈ (ev.addNode l k properties).nodes, n.label ≠ .user := by
  intro n hn
  rcases List.mem_append.mp hn with hn | hn
  · exact h n hn
  · cases List.mem_singleton.mp hn
    exact hl

theorem Dangling.addNode {l : NodeLabel} {k : String} {properties : Object} (h : Dangling ev)
    (hl : l ≠ .user) : Dangling (ev.addNode l k properties) :=
  ⟨h.1, no_user_addNode h.2 hl⟩

theorem Dangling.addEdge {e : Edge} (h : Dangling ev) : Dangling (ev.addEdge e) := by
  obtain ⟨⟨d, hd, hlabel⟩, hnone⟩ := h
  exact ⟨⟨d, List.mem_append_left _ hd, hlabel⟩, hnone⟩

theorem Dangling.ite {p : Prop} [Decidable p] {a b : Event} (ha : Dangling a)
    (hb : ¬ p → Dangling b) : Dangling (if p then a else b) := by
  split
  · exact ha
  · rename_i hp
    exact hb hp

theorem tenantKey_user_ne_empty (tenant name : String) : tenantKey "user" tenant name ≠ "" := by
  intro h
  have hlength := congrArg String.length h
  simp [tenantKey, String.length_append] at hlength

theorem extractFromKubernetes_dangling (h : ∀ n ∈ ev.nodes, n.label ≠ .user)
    (haccount : hasPrefix (getString ocsf ["actor", "user", "name"])
      "system:serviceaccount:" = true)
    (hresource : getString ocsf ["resource", "name"] ≠ "") :
    Dangling (extractFromKubernetes ev ocsf) := by
  unfold extractFromKubernetes
  extract_lets user verb resource resType ns userKey label ev₁ key ev₂ ev₃ srcIP
  have huser : user ≠ "" := by
    intro hempty
    rw [show getString ocsf ["actor", "user", "name"] = "" from hempty] at haccount
    exact absurd haccount (by decide)
  have hkey : userKey ≠ "" := by
    simp only [userKey, if_neg huser]
    exact tenantKey_user_ne_empty _ _
  have hresource : resource ≠ "" := hresource
  have hlabel : label = .serviceAccount := if_pos haccount
  have h₁ : ∀ n ∈ ev₁.nodes, n.label ≠ .user := by
    simp only [ev₁, if_neg huser, hlabel]
    exact no_user_addNode h (by decide)
  have h₂ : ∀ n ∈ ev₂.nodes, n.label ≠ .user := no_user_addNode h₁ (by decide)
  have h₃ : Dangling ev₃ := by
    simp only [ev₃, if_neg hresource, if_neg hkey]
    exact ⟨⟨_, List.mem_append_right _ List.mem_cons_self, rfl⟩, h₂⟩
  exact h₃.ite fun _ => h₃.addNode (by decide)

theorem hasEntity_mitreSource {l : NodeLabel} {k : String}
    (h : mitreSource ev.nodes = some (l, k)) : HasEntity ev l k := by
  obtain ⟨n, hn, heq⟩ := Option.map_eq_some_iff.mp h
  cases heq
  refine ⟨n, ?_, rfl, rfl⟩
  rcases Option.or_eq_some_iff.mp hn with hn | ⟨-, hn⟩ <;>
    exact List.mem_of_find?_eq_some (Option.filter_eq_some_iff.mp hn).1

theorem extractTechnique_plain (h : Plain ev) (source : Option (NodeLabel × String))
    (tmap : Object) : Plain (extractTechnique source ev tmap) := by
  unfold extractTechnique
  extract_lets tid key ev₁
  have h₁ : Plain ev₁ := h.addNode (by simp [Keyless])
  refine h.ite fun _ => ?_
  split
  · exact h₁.addEdge
  · exact h₁

theorem extractTechnique_projected {source : Option (NodeLabel × String)} (h : Projected ev)
    (hsource : ∀ l k, source = some (l, k) → HasEntity ev l k) (tmap : Object) :
    Projected (extractTechnique source ev tmap) ∧
      ∀ l k, source = some (l, k) → HasEntity (extractTechnique source ev tmap) l k := by
  unfold extractTechnique
  extract_lets tid key ev₁
  have h₁ : Projected ev₁ := h.addNode (by simp [Keyless])
  have hsource₁ : ∀ l k, source = some (l, k) → HasEntity ev₁ l k :=
    fun l k heq => (hsource l k heq).addNode
  constructor
  · refine h.ite fun _ => ?_
    split
    · rename_i l k
      exact h₁.addEdge (hsource₁ l k rfl) (hasEntity_addNode ..)
    · exact h₁
  · intro l k heq
    refine (hsource l k heq).ite fun _ => ?_
    split
    · exact (hsource₁ l k heq).addEdge
    · exact hsource₁ l k heq

theorem extractTechnique_dangling (h : Dangling ev) (source : Option (NodeLabel × String))
    (tmap : Object) : Dangling (extractTechnique source ev tmap) := by
  unfold extractTechnique
  extract_lets tid key ev₁
  have h₁ : Dangling ev₁ := h.addNode (by decide)
  refine h.ite fun _ => ?_
  split
  · exact h₁.addEdge
  · exact h₁

theorem extractMITRE_plain (h : Plain ev) (ocsf : Object) : Plain (extractMITRE ev ocsf) := by
  unfold extractMITRE
  generalize mitreSource ev.nodes = source
  induction techniques ocsf generalizing ev with
  | nil => exact h
  | cons t l ih => exact ih (extractTechnique_plain h source t)

theorem extractMITRE_dangling (h : Dangling ev) (ocsf : Object) :
    Dangling (extractMITRE ev ocsf) := by
  unfold extractMITRE
  generalize mitreSource ev.nodes = source
  induction techniques ocsf generalizing ev with
  | nil => exact h
  | cons t l ih => exact ih (extractTechnique_dangling h source t)

theorem extractMITRE_projected (h : Projected ev) (ocsf : Object) :
    Projected (extractMITRE ev ocsf) := by
  unfold extractMITRE
  have hsource : ∀ l k, mitreSource ev.nodes = some (l, k) → HasEntity ev l k :=
    fun _ _ => hasEntity_mitreSource
  generalize mitreSource ev.nodes = source at hsource ⊢
  induction techniques ocsf generalizing ev with
  | nil => exact h
  | cons t l ih =>
    obtain ⟨hstep, hsource⟩ := extractTechnique_projected h hsource t
    exact ih hstep hsource

theorem projected_empty (eventID tenantID : String) (ts : Int) :
    Projected ⟨eventID, tenantID, ts, [], [], ""⟩ where
  plain _ hn := by cases hn
  closed _ he := by cases he

section Connector

variable {rt : Runtime} {now : Int} {eventID tenantID connectorType : String}

theorem extractConnector_plain (h : Projected ev) :
    Plain (extractConnector rt connectorType ev ocsf) := by
  unfold extractConnector
  split
  · exact (extractFromAWS_projected h ocsf).plain
  · exact (extractFromGitHub_projected rt h ocsf).plain
  · exact (extractFromOkta_projected h ocsf).plain
  · exact extractFromKubernetes_plain h.plain ocsf
  · exact (extractGeneric_projected h ocsf).plain

theorem extractConnector_projected (h : Projected ev)
    (hno : ¬ ServiceAccountAccess rt connectorType ocsf) :
    Projected (extractConnector rt connectorType ev ocsf) := by
  unfold extractConnector
  split
  · exact extractFromAWS_projected h ocsf
  · exact extractFromGitHub_projected rt h ocsf
  · exact extractFromOkta_projected h ocsf
  · rename_i hconnector
    exact extractFromKubernetes_projected h fun haccount =>
      by_contra fun hresource => hno ⟨hconnector, haccount, hresource⟩
  · exact extractGeneric_projected h ocsf

theorem extractConnector_dangling (h : ∀ n ∈ ev.nodes, n.label ≠ .user)
    (hsa : ServiceAccountAccess rt connectorType ocsf) :
    Dangling (extractConnector rt connectorType ev ocsf) := by
  obtain ⟨hconnector, haccount, hresource⟩ := hsa
  unfold extractConnector
  rw [hconnector]
  exact extractFromKubernetes_dangling h haccount hresource

/-- No extracted node carries a property of the name its key is stored under. -/
theorem extractFromOCSF_plain {ocsf : Option Object}
    (h : extractFromOCSF rt now eventID tenantID connectorType ocsf = some ev) : Plain ev := by
  obtain ⟨o, -, h⟩ := Option.bind_eq_some_iff.mp h
  simp only [Option.ite_none_left_eq_some, Option.some.injEq] at h
  obtain ⟨-, rfl⟩ := h
  exact extractMITRE_plain (extractConnector_plain (projected_empty _ _ _)) o

/-- The edges of an extracted event lead from nodes to nodes of it unless it is a service
account's access. -/
theorem extractFromOCSF_closed_iff
    (h : extractFromOCSF rt now eventID tenantID connectorType (some ocsf) = some ev) :
    Closed ev ↔ ¬ ServiceAccountAccess rt connectorType ocsf := by
  obtain ⟨o, ho, h⟩ := Option.bind_eq_some_iff.mp h
  cases ho
  simp only [Option.ite_none_left_eq_some, Option.some.injEq] at h
  obtain ⟨-, rfl⟩ := h
  constructor
  · intro hclosed hsa
    exact (extractMITRE_dangling (extractConnector_dangling (fun _ hn => by cases hn) hsa)
      ocsf).not_closed hclosed
  · intro hno
    exact (extractMITRE_projected (extractConnector_projected (projected_empty _ _ _) hno)
      ocsf).closed

end Connector

end GraphProjection
