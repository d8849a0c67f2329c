import Mathlib.Data.Nat.Notation
import Mathlib.Tactic.SplitIfs
import AiSOC.CodeText
import AiSOC.TransitionSystem

/-! # Role-based permissions

What a user may do is read off three tables, or off a static map where the tables grant nothing at
all. The endpoints that take something away are functions of the tables. -/
namespace Rbac

open CodeText (Text text cp)
open TransitionSystem (System GuardedTrace Reachable runTrace)

def ROLE_PERMISSIONS : List (Text × List Text) := [
  (text "platform_admin", [text "*"]),
  (text "admin", [text "*"]),
  (text "tenant_admin", [text "alerts:read", text "alerts:write", text "alerts:delete",
    text "cases:read", text "cases:write", text "cases:delete", text "playbooks:read",
    text "playbooks:write", text "playbooks:execute", text "connectors:read",
    text "connectors:write", text "connectors:delete", text "users:read", text "users:write",
    text "rules:read", text "rules:write", text "reports:read", text "reports:write",
    text "threat_intel:read", text "threat_intel:write", text "settings:read",
    text "settings:write", text "lake:query", text "lake:read_schema"]),
  (text "soc_lead", [text "alerts:read", text "alerts:write", text "cases:read",
    text "cases:write", text "playbooks:read", text "playbooks:execute", text "connectors:read",
    text "users:read", text "rules:read", text "rules:write", text "reports:read",
    text "reports:write", text "threat_intel:read", text "threat_intel:write", text "lake:query",
    text "lake:read_schema"]),
  (text "soc_analyst", [text "alerts:read", text "alerts:write", text "cases:read",
    text "cases:write", text "playbooks:read", text "playbooks:execute", text "connectors:read",
    text "threat_intel:read", text "reports:read", text "lake:query", text "lake:read_schema"]),
  (text "threat_hunter", [text "alerts:read", text "cases:read", text "cases:write",
    text "threat_intel:read", text "threat_intel:write", text "rules:read", text "rules:write",
    text "reports:read", text "lake:query", text "lake:read_schema"]),
  (text "viewer", [text "alerts:read", text "cases:read", text "reports:read",
    text "threat_intel:read"]),
  (text "api_service", [text "alerts:read", text "alerts:write", text "cases:read",
    text "cases:write", text "threat_intel:read"])]

/-- The part before the first colon, with a wildcard for the rest. -/
def wildcard (permission : Text) : Text := permission.takeWhile (· ≠ cp ':') ++ text ":*"

def grants (granted : List Text) (permission : Text) : Bool :=
  granted.contains (text "*") || granted.contains permission ||
    granted.contains (wildcard permission)

def hasPermission (role permission : Text) : Bool :=
  grants ((ROLE_PERMISSIONS.lookup role).getD []) permission

structure Role where
  id : String
  tenantID : String
  name : Text
  description : Option Text
  isSystem : Bool

structure Permission where
  id : String
  name : Text

structure RolePermission where
  roleID : String
  permissionID : String
  deriving DecidableEq

structure UserRole where
  userID : String
  roleID : String
  deriving DecidableEq

/-- The tables, with their primary keys. -/
structure Db where
  roles : List Role
  permissions : List Permission
  rolePermissions : List RolePermission
  userRoles : List UserRole
  roles_nodup : (roles.map Role.id).Nodup
  permissions_nodup : (permissions.map Permission.id).Nodup

/-- `scopes` are those of an API key. -/
structure CurrentUser where
  userID : String
  tenantID : String
  role : Text
  scopes : Option (List Text)

/-- The names of the permissions that the roles of the user have, joined over the tables. -/
def dbPerms (db : Db) (user : CurrentUser) : List Text :=
  (db.userRoles.filter fun ur => ur.userID = user.userID).flatMap fun ur =>
    (db.roles.filter fun r => r.id = ur.roleID ∧ r.tenantID = user.tenantID).flatMap fun r =>
      (db.rolePermissions.filter fun rp => rp.roleID = r.id).flatMap fun rp =>
        (db.permissions.filter fun p => p.id = rp.permissionID).map Permission.name

def hasPermissionDb (db : Db) (user : CurrentUser) (permission : Text) : Bool :=
  match user.scopes with
  | some scopes => grants scopes permission
  | none =>
    match dbPerms db user with
    | [] => hasPermission user.role permission
    | granted => grants granted permission

/-! ## The endpoints that take something away -/

/-- Who calls, and the tenant that the session is confined to. -/
structure Session where
  tenantID : String
  scope : Option String

/-- The policy on `roles`. -/
def Session.sees (session : Session) (r : Role) : Bool :=
  session.scope.isNone || session.scope = some r.tenantID

/-- `raised` is an error of the database, without a handler. -/
inductive Failure where
  | http (status : ℕ) (detail : Text)
  | raised

def getRoleOr404 (db : Db) (session : Session) (roleID : String) : Except Failure Role :=
  match db.roles.find? fun r => r.id = roleID ∧ r.tenantID = session.tenantID ∧ session.sees r with
  | some r => .ok r
  | none => .error (.http 404 (text "Role not found"))

def resolvePermissions (db : Db) (ids : List String) : Except Failure (List Permission) :=
  if ids = [] then .ok []
  else
    let found := db.permissions.filter fun p => p.id ∈ ids
    if found.length = ids.length then .ok found
    else .error (.http 400 (text "One or more permission IDs are invalid"))

structure RoleUpdate where
  name : Option Text
  description : Option Text
  permissionIDs : Option (List String)

def RoleUpdate.apply (body : RoleUpdate) (r : Role) : Role :=
  { r with name := body.name.getD r.name, description := body.description.or r.description }

/-- A name that is too long for its column, or that another role of the tenant has. -/
def nameRefused (db : Db) (role : Role) (name : Text) : Bool :=
  100 < name.length || db.roles.any fun r =>
    r.tenantID = role.tenantID ∧ r.name = name ∧ r.id ≠ role.id

/-- The rows of `role_permissions` after an update. -/
def replacePermissions (db : Db) (roleID : String) :
    Option (List String) → Except Failure (List RolePermission)
  | none => .ok db.rolePermissions
  | some ids => (resolvePermissions db ids).map fun found =>
    db.rolePermissions.filter (fun rp => rp.roleID ≠ roleID) ++
      found.map fun p => ⟨roleID, p.id⟩

theorem map_apply_nodup {rs : List Role} (h : (rs.map Role.id).Nodup) (body : RoleUpdate)
    (id : String) :
    ((rs.map fun r => if r.id = id then body.apply r else r).map Role.id).Nodup := by
  have hid : Role.id ∘ (fun r => if r.id = id then body.apply r else r) = Role.id := by
    funext r
    dsimp only [Function.comp_apply]
    split_ifs
    · rfl
    · rfl
  rwa [List.map_map, hid]

def updateRole (db : Db) (session : Session) (roleID : String) (body : RoleUpdate) :
    Except Failure Db :=
  match getRoleOr404 db session roleID with
  | .error e => .error e
  | .ok role =>
    if role.isSystem then .error (.http 403 (text "System roles cannot be modified"))
    else if body.name.any (nameRefused db role) then .error .raised
    else (replacePermissions db role.id body.permissionIDs).map fun rolePermissions =>
      { db with
        roles := db.roles.map fun r => if r.id = role.id then body.apply r else r
        rolePermissions := rolePermissions
        roles_nodup := map_apply_nodup db.roles_nodup body role.id }

/-- The rows that refer to the role go with it. -/
def deleteRole (db : Db) (session : Session) (roleID : String) : Except Failure Db :=
  match getRoleOr404 db session roleID with
  | .error e => .error e
  | .ok role =>
    if role.isSystem then .error (.http 403 (text "System roles cannot be deleted"))
    else .ok { db with
      roles := db.roles.filter fun r => r.id ≠ role.id
      rolePermissions := db.rolePermissions.filter fun rp => rp.roleID ≠ role.id
      userRoles := db.userRoles.filter fun ur => ur.roleID ≠ role.id
      roles_nodup := db.roles_nodup.sublist (List.filter_sublist.map Role.id) }

/-- The policy on `user_roles` hides the rows of roles that the session does not see. -/
def revokeRole (db : Db) (session : Session) (userID roleID : String) : Db :=
  let visible := db.roles.any fun r => r.id = roleID ∧ session.sees r
  { db with userRoles := db.userRoles.filter fun ur =>
    !(visible && ur.userID = userID && ur.roleID = roleID) }

inductive Call where
  | revokeRole (session : Session) (userID roleID : String)
  | deleteRole (session : Session) (roleID : String)
  | updateRole (session : Session) (roleID : String) (body : RoleUpdate)

/-- A call that fails leaves the tables as they are. -/
def Db.next (db : Db) : Call → Db
  | .revokeRole session userID roleID => revokeRole db session userID roleID
  | .deleteRole session roleID => (deleteRole db session roleID).toOption.getD db
  | .updateRole session roleID body => (updateRole db session roleID body).toOption.getD db

/-- An update that names permissions names some that the role has. -/
def Shrinks (db : Db) : Call → Prop
  | .updateRole _ roleID body => ∀ ids ∈ body.permissionIDs, ∀ id ∈ ids,
    ⟨roleID, id⟩ ∈ db.rolePermissions
  | _ => True

def system : System Db Call where
  start _ := True
  next db call := some (db.next call)

/-! ## What is taken away -/

variable {db s t u : Db} {user : CurrentUser} {permission name : Text} {session : Session}
  {roleID : String}

theorem mem_dbPerms : name ∈ dbPerms db user ↔
    ∃ ur ∈ db.userRoles, ur.userID = user.userID ∧
      ∃ r ∈ db.roles, (r.id = ur.roleID ∧ r.tenantID = user.tenantID) ∧
        ∃ rp ∈ db.rolePermissions, rp.roleID = r.id ∧
          ∃ p ∈ db.permissions, p.id = rp.permissionID ∧ p.name = name := by
  simp only [dbPerms, List.mem_flatMap, List.mem_map, List.mem_filter, decide_eq_true_eq,
    and_assoc]

/-- Nothing is granted in the second tables that is not granted in the first. -/
structure Removes (s t : Db) : Prop where
  userRoles : t.userRoles ⊆ s.userRoles
  rolePermissions : t.rolePermissions ⊆ s.rolePermissions
  roles : ∀ r ∈ t.roles, ∃ r' ∈ s.roles, r'.id = r.id ∧ r'.tenantID = r.tenantID
  permissions : t.permissions = s.permissions

theorem Removes.refl (s : Db) : Removes s s :=
  ⟨List.Subset.refl _, List.Subset.refl _, fun r hr => ⟨r, hr, rfl, rfl⟩, rfl⟩

theorem Removes.trans (h : Removes s t) (h' : Removes t u) : Removes s u where
  userRoles := List.Subset.trans h'.userRoles h.userRoles
  rolePermissions := List.Subset.trans h'.rolePermissions h.rolePermissions
  roles r hr := by
    obtain ⟨r', hr', hid, htenant⟩ := h'.roles r hr
    obtain ⟨r'', hr'', hid', htenant'⟩ := h.roles r' hr'
    exact ⟨r'', hr'', hid'.trans hid, htenant'.trans htenant⟩
  permissions := h'.permissions.trans h.permissions

theorem Removes.dbPerms_subset (h : Removes s t) : dbPerms t user ⊆ dbPerms s user := by
  intro name hname
  rw [mem_dbPerms] at hname ⊢
  obtain ⟨ur, hur, huser, r, hr, ⟨hrole, htenant⟩, rp, hrp, hrpid, p, hp, hperm⟩ := hname
  obtain ⟨r', hr', hid', htenant'⟩ := h.roles r hr
  rw [h.permissions] at hp
  exact ⟨ur, h.userRoles hur, huser, r', hr', ⟨hid'.trans hrole, htenant'.trans htenant⟩, rp,
    h.rolePermissions hrp, hrpid.trans hid'.symm, p, hp, hperm⟩

theorem grants_mono {few many : List Text} (hsub : few ⊆ many)
    (h : grants few permission = true) : grants many permission = true := by
  simp only [grants, Bool.or_eq_true, List.contains_iff_mem] at h ⊢
  exact h.imp (Or.imp (@hsub _) (@hsub _)) (@hsub _)

theorem revokeRole_removes (db : Db) (session : Session) (userID roleID : String) :
    Removes db (revokeRole db session userID roleID) :=
  { Removes.refl db with userRoles := List.filter_subset_self _ }

theorem deleteRole_removes (h : deleteRole db session roleID = .ok t) : Removes db t := by
  rw [deleteRole] at h
  split at h
  · cases h
  · split_ifs at h
    obtain rfl := Except.ok.inj h
    exact ⟨List.filter_subset_self _, List.filter_subset_self _,
      fun r hr => ⟨r, List.mem_of_mem_filter hr, rfl, rfl⟩, rfl⟩

theorem getRoleOr404_id {role : Role} (h : getRoleOr404 db session roleID = .ok role) :
    role.id = roleID := by
  rw [getRoleOr404] at h
  split at h
  · rename_i r hfind
    obtain rfl := Except.ok.inj h
    have hrole := List.find?_some hfind
    exact (of_decide_eq_true hrole).1
  · cases h

theorem resolvePermissions_mem {ids : List String} {found : List Permission} {p : Permission}
    (h : resolvePermissions db ids = .ok found) (hp : p ∈ found) : p.id ∈ ids := by
  rw [resolvePermissions] at h
  dsimp only at h
  split_ifs at h
  · obtain rfl := Except.ok.inj h
    exact absurd hp List.not_mem_nil
  · obtain rfl := Except.ok.inj h
    exact of_decide_eq_true (List.mem_filter.mp hp).2

/-- An update that shrinks leaves no row that was not there. -/
theorem replacePermissions_subset {ids : Option (List String)} {rows : List RolePermission}
    (h : replacePermissions db roleID ids = .ok rows)
    (hshrinks : ∀ xs ∈ ids, ∀ id ∈ xs, ⟨roleID, id⟩ ∈ db.rolePermissions) :
    rows ⊆ db.rolePermissions := by
  cases ids with
  | none =>
    obtain rfl := Except.ok.inj h
    exact List.Subset.refl _
  | some ids =>
    rw [replacePermissions] at h
    rcases hresolve : resolvePermissions db ids with e | found
    · rw [hresolve] at h
      cases h
    · rw [hresolve] at h
      obtain rfl := Except.ok.inj h
      rw [List.append_subset]
      refine ⟨List.filter_subset_self _, ?_⟩
      intro rp hrp
      obtain ⟨p, hp, rfl⟩ := List.mem_map.mp hrp
      exact hshrinks ids rfl p.id (resolvePermissions_mem hresolve hp)

theorem updateRole_removes {body : RoleUpdate} (h : updateRole db session roleID body = .ok t)
    (hshrinks : Shrinks db (.updateRole session roleID body)) : Removes db t := by
  rw [updateRole] at h
  split at h
  · cases h
  · rename_i role hrole
    obtain rfl := getRoleOr404_id hrole
    split_ifs at h
    rcases hrows : replacePermissions db role.id body.permissionIDs with e | rows
    · rw [hrows] at h
      cases h
    · rw [hrows] at h
      obtain rfl := Except.ok.inj h
      refine ⟨List.Subset.refl _, replacePermissions_subset hrows hshrinks, ?_, rfl⟩
      intro r hr
      obtain ⟨r', hr', rfl⟩ := List.mem_map.mp hr
      refine ⟨r', hr', ?_⟩
      split_ifs
      · exact ⟨rfl, rfl⟩
      · exact ⟨rfl, rfl⟩

theorem next_removes {call : Call} (hshrinks : Shrinks s call) : Removes s (s.next call) := by
  cases call with
  | revokeRole session userID roleID => exact revokeRole_removes s session userID roleID
  | deleteRole session roleID =>
    rw [Db.next]
    rcases hdelete : deleteRole s session roleID with e | t
    · exact Removes.refl s
    · exact deleteRole_removes hdelete
  | updateRole session roleID body =>
    rw [Db.next]
    rcases hupdate : updateRole s session roleID body with e | t
    · exact Removes.refl s
    · exact updateRole_removes hupdate hshrinks

/-- What a run of such calls leaves is part of what was there. -/
theorem run_removes {calls : List Call} (hg : GuardedTrace system Shrinks s calls)
    (hr : runTrace system s calls = some t) : Removes s t := by
  induction calls generalizing s with
  | nil => exact Option.some.inj hr ▸ Removes.refl s
  | cons call calls ih =>
    exact (next_removes hg.1).trans (ih (hg.2 _ rfl) hr)

theorem hasPermissionDb_of_scopes_none (h : user.scopes = none) :
    hasPermissionDb db user permission =
      if dbPerms db user = [] then hasPermission user.role permission
      else grants (dbPerms db user) permission := by
  rw [hasPermissionDb, h]
  dsimp only
  split
  · rename_i hnil
    rw [if_pos hnil]
  · rename_i hne
    rw [if_neg hne]

theorem dbPerms_of_no_rows (h : ∀ ur ∈ db.userRoles, ur.userID ≠ user.userID) :
    dbPerms db user = [] := by
  apply List.eq_nil_iff_forall_not_mem.mpr
  intro name hname
  obtain ⟨ur, hur, huser, -⟩ := mem_dbPerms.mp hname
  exact h ur hur huser

/-- Taking roles or permissions away grants nothing to a user who keeps some permission through a
role, or to whom the static map denies it too; a user who is left without any role has what the
static map grants. -/
theorem denial_survives {calls : List Call} (hjwt : user.scopes = none)
    (hdenied : hasPermissionDb s user permission = false)
    (hshrinks : GuardedTrace system Shrinks s calls) (hr : runTrace system s calls = some t) :
    (dbPerms t user ≠ [] ∨ hasPermission user.role permission = false →
      hasPermissionDb t user permission = false) ∧
    ((∀ ur ∈ t.userRoles, ur.userID ≠ user.userID) →
      hasPermissionDb t user permission = hasPermission user.role permission) := by
  have hsub : dbPerms t user ⊆ dbPerms s user := (run_removes hshrinks hr).dbPerms_subset
  have hnil : dbPerms s user = [] → dbPerms t user = [] :=
    fun h => List.subset_nil.mp (h ▸ hsub)
  rw [hasPermissionDb_of_scopes_none hjwt] at hdenied ⊢
  constructor
  · intro h
    split_ifs at hdenied with hs
    · rw [if_pos (hnil hs)]
      exact hdenied
    · split_ifs with ht
      · exact h.resolve_left (fun hne => hne ht)
      · by_contra hgranted
        rw [Bool.not_eq_false] at hgranted
        exact absurd (hdenied.symm.trans (grants_mono hsub hgranted)) Bool.false_ne_true
  · exact fun h => if_pos (dbPerms_of_no_rows h)

def ada : CurrentUser := ⟨"ada", "acme", text "admin", none⟩

def acmeSession : Session := ⟨"acme", some "acme"⟩

/-- One role, which lets Ada read cases. -/
def oneRole : Db where
  roles := [⟨"r1", "acme", text "reader", none, false⟩]
  permissions := [⟨"p1", text "cases:read"⟩]
  rolePermissions := [⟨"r1", "p1"⟩]
  userRoles := [⟨"ada", "r1"⟩]
  roles_nodup := List.pairwise_singleton _ _
  permissions_nodup := List.pairwise_singleton _ _

/-- Ada, an admin by her token, may write cases once her only role is revoked. -/
theorem revoking_grants : ada.scopes = none ∧
    hasPermissionDb oneRole ada (text "cases:write") = false ∧
    ∃ t, runTrace system oneRole [.revokeRole acmeSession "ada" "r1"] = some t ∧
      hasPermissionDb t ada (text "cases:write") = true :=
  ⟨rfl, by decide +kernel, _, rfl, by decide +kernel⟩

def twoRoles : Db where
  roles := [⟨"r1", "acme", text "reader", none, false⟩, ⟨"r2", "acme", text "guest", none, false⟩]
  permissions := oneRole.permissions
  rolePermissions := [⟨"r1", "p1"⟩, ⟨"r2", "p1"⟩]
  userRoles := [⟨"ada", "r1"⟩, ⟨"ada", "r2"⟩]
  roles_nodup := by decide
  permissions_nodup := oneRole.permissions_nodup

/-- With a second role, the denial survives the deletion of the first. -/
theorem second_role_keeps_denying : ∃ t,
    runTrace system twoRoles [.deleteRole acmeSession "r1"] = some t ∧
      hasPermissionDb t ada (text "cases:write") = false := by
  have hdenied : hasPermissionDb twoRoles ada (text "cases:write") = false := by decide +kernel
  have hshrinks : GuardedTrace system Shrinks twoRoles [.deleteRole acmeSession "r1"] :=
    ⟨trivial, fun _ _ => trivial⟩
  exact ⟨_, rfl, (denial_survives rfl hdenied hshrinks rfl).1 (Or.inl (by decide +kernel))⟩

end Rbac
