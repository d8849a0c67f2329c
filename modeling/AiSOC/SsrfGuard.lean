import Mathlib.Data.List.ReduceOption
import AiSOC.AddressRanges
import AiSOC.OAuthRedirects

/-! # The guard of outbound URLs

A URL of a playbook step is accepted when its host is an allowed address, or a name all of whose
addresses are. An address of version 4 may stand in one of version 6; the guard sees through every
such address but a 6to4 one, which it takes for an ordinary private address. -/
namespace SsrfGuard

open AddressRanges
open CodeText (Text cp text strip)
open IpAddress (Address Version parseAddress)
open UrlText (Library before urlsplit)

/-- The variables of the environment, empty when they are not set. -/
structure Environment where
  allowedSchemes : Text
  extraBlockedHosts : Text
  allowPrivate : Text

inductive SsrfError where
  | emptyUrl
  | unparsable
  | scheme (scheme : Text)
  | userinfo
  | noHostname
  | blockedHost (host : Text)
  | blockedLiteral (host : Text) (reason : String)
  | unresolved (host : Text)
  | noUsableAddress (host : Text)
  | blockedAddress (host : Text) (ip : Address) (reason : String)
  | resolverRaised
  deriving DecidableEq

/-- What `getaddrinfo` does: an `OSError`, another error, or the addresses as texts. -/
inductive Resolution where
  | osError
  | raised
  | infos (addresses : List Text)

def defaultBlockedHosts : List Text :=
  [text "169.254.169.254", text "metadata.google.internal", text "metadata",
    text "metadata.azure.com", text "100.100.100.200", text "169.254.169.254.nip.io"]

def defaultAllowedSchemes : List Text := [text "http", text "https"]

variable (lib : Library) (env : Environment) (resolve : Text → Resolution)

def envSet (raw : Text) : List Text :=
  ((raw.splitOn (cp ',')).filter (strip · ≠ [])).map fun part => lib.lower (strip part)

def allowedSchemes : List Text :=
  let extra := envSet lib env.allowedSchemes
  if extra = [] then defaultAllowedSchemes else extra

def blockedHosts : List Text := defaultBlockedHosts ++ envSet lib env.extraBlockedHosts

def allowPrivateByDefault : Bool :=
  lib.lower (strip env.allowPrivate) ∈ [text "1", text "true", text "yes"]

/-- The reasons that hold whether private addresses are permitted or not. -/
def alwaysBlocked (ip : Address) : Option String :=
  if isLoopback ip then some "loopback address"
  else if isLinkLocal ip then some "link-local address (cloud metadata range)"
  else if isUnspecified ip then some "unspecified address"
  else if isMulticast ip then some "multicast address"
  else if isReserved ip then some "reserved address"
  else none

def privateBlocked (permitted : Bool) (ip : Address) : Option String :=
  if !permitted && isPrivate ip then some "private/RFC1918 address" else none

/-- A mapped address is judged as what it stands for, which is of version 4. -/
def isDisallowedAddress (permitted : Bool) (ip : Address) : Option String :=
  (alwaysBlocked ip).or
    (match ipv4Mapped ip with
    | some m => (alwaysBlocked m).or (privateBlocked permitted m)
    | none => privateBlocked permitted ip)

/-- An address is tried once, without its zone. -/
def usableAddresses (seen : List Text) : List Text → List Address
  | [] => []
  | sockaddr :: rest =>
    let address := before (cp '%') sockaddr
    if address = [] ∨ address ∈ seen then usableAddresses seen rest
    else
      match parseAddress address with
      | some ip => ip :: usableAddresses (address :: seen) rest
      | none => usableAddresses (address :: seen) rest

def resolveHostAddresses (host : Text) : Except SsrfError (List Address) :=
  match resolve host with
  | .osError => .error (.unresolved host)
  | .raised => .error .resolverRaised
  | .infos addresses =>
    match usableAddresses [] addresses with
    | [] => .error (.noUsableAddress host)
    | ips => .ok ips

def checkAll (permitted : Bool) (error : Address → String → SsrfError) :
    List Address → Except SsrfError Unit
  | [] => .ok ()
  | ip :: ips =>
    match isDisallowedAddress permitted ip with
    | some reason => .error (error ip reason)
    | none => checkAll permitted error ips

/-- The host of a URL that passes the checks before the addresses. -/
def guardedHost (url : Text) : Except SsrfError Text :=
  if strip url = [] then .error .emptyUrl
  else
    match urlsplit lib (strip url) with
    | none => .error .unparsable
    | some parts =>
      let scheme := lib.lower parts.scheme
      if scheme ∉ allowedSchemes lib env then .error (.scheme scheme)
      else if parts.username.any (· ≠ []) ∨ parts.password.any (· ≠ []) then .error .userinfo
      else
        let host := lib.lower (strip ((parts.hostname lib).getD []))
        if host = [] then .error .noHostname
        else if host ∈ blockedHosts lib env then .error (.blockedHost host)
        else .ok host

def permits (allowPrivate : Option Bool) : Bool :=
  allowPrivate.getD (allowPrivateByDefault lib env)

def validateOutboundUrl (url : Text) (allowPrivate : Option Bool) :
    Except SsrfError Text := do
  let host ← guardedHost lib env url
  let permitted := permits lib env allowPrivate
  match parseAddress host with
  | some ip => checkAll permitted (fun _ reason => .blockedLiteral host reason) [ip]
  | none =>
    let addresses ← resolveHostAddresses resolve host
    checkAll permitted (.blockedAddress host) addresses
  return url

/-! ## What the guard is for -/

/-- An address that a request to the URL may go to. -/
def Destination (url : Text) (ip : Address) : Prop :=
  ∃ host, guardedHost lib env url = .ok host ∧
    (parseAddress host = some ip ∨ parseAddress host = none ∧
      ∃ addresses, resolve host = .infos addresses ∧
        ∃ sockaddr ∈ addresses, parseAddress (before (cp '%') sockaddr) = some ip)

/-- No request may go there. -/
def Forbidden (permitted : Bool) (ip : Address) : Prop :=
  isLoopback ip = true ∨ isLinkLocal ip = true ∨ isUnspecified ip = true ∨
    isMulticast ip = true ∨ permitted = false ∧ isPrivate ip = true

/-- Neither an address nor one that stands in it is forbidden. -/
def Sound (url : Text) (allowPrivate : Option Bool) : Prop :=
  ∀ ip, Destination lib env resolve url ip → ∀ e ∈ ip :: embedded ip,
    ¬ Forbidden (permits lib env allowPrivate) e

/-! ## One address -/

variable {lib env resolve} {url r host : Text} {allowPrivate : Option Bool} {permitted : Bool}
  {ip e : Address}

theorem alwaysBlocked_eq_none : alwaysBlocked ip = none ↔ isLoopback ip = false ∧
    isLinkLocal ip = false ∧ isUnspecified ip = false ∧ isMulticast ip = false ∧
      isReserved ip = false := by
  unfold alwaysBlocked
  cases isLoopback ip <;> cases isLinkLocal ip <;> cases isUnspecified ip <;>
    cases isMulticast ip <;> cases isReserved ip <;> decide

theorem privateBlocked_eq_none :
    privateBlocked permitted ip = none ↔ ¬ (permitted = false ∧ isPrivate ip = true) := by
  unfold privateBlocked
  cases permitted <;> cases isPrivate ip <;> decide

theorem not_mapped (h : isReserved ip = false) : ipv4Mapped ip = none := by
  rw [ipv4Mapped, if_neg]
  rintro ⟨hversion, hshift⟩
  rw [Nat.shiftRight_eq_div_pow] at hshift
  have hbehind : behindPrefix ip 0xffff = some ⟨.v4, ip.value % 2 ^ 32⟩ :=
    if_pos ⟨hversion, hshift⟩
  rw [behindPrefix_reserved (by decide) hbehind] at h
  cases h

/-- Of the addresses that stand in an address that is not reserved, only a 6to4 one is left. -/
theorem mem_embedded (h : isReserved ip = false) : e ∈ embedded ip ↔ sixToFour ip = some e := by
  have hnone {high : ℕ} (hhigh : high < 2 ^ 88) : behindPrefix ip high ≠ some e := by
    intro hbehind
    rw [behindPrefix_reserved hhigh hbehind] at h
    cases h
  rw [embedded, List.reduceOption_mem_iff]
  simp only [List.mem_cons, List.not_mem_nil, or_false]
  constructor
  · rintro (hmapped | hcompatible | hsix | hnat)
    · exact absurd hmapped.symm (hnone (by decide))
    · exact absurd hcompatible.symm (hnone (by decide))
    · exact hsix.symm
    · exact absurd hnat.symm (hnone (by decide))
  · intro hsix
    exact Or.inr (Or.inr (Or.inl hsix.symm))

theorem address_sound_iff (h : isDisallowedAddress permitted ip = none) :
    (∀ e ∈ ip :: embedded ip, ¬ Forbidden permitted e) ↔
      permitted = false ∨ ∀ e ∈ sixToFour ip, ¬ Forbidden true e := by
  obtain ⟨halways, hrest⟩ := Option.or_eq_none_iff.mp h
  obtain ⟨hloop, hlink, hunspecified, hmulticast, hreserved⟩ := alwaysBlocked_eq_none.mp halways
  rw [not_mapped hreserved] at hrest
  have hprivate := privateBlocked_eq_none.mp hrest
  have hself : ¬ Forbidden permitted ip := by
    rintro (hf | hf | hf | hf | hf)
    · exact absurd (hloop.symm.trans hf) Bool.false_ne_true
    · exact absurd (hlink.symm.trans hf) Bool.false_ne_true
    · exact absurd (hunspecified.symm.trans hf) Bool.false_ne_true
    · exact absurd (hmulticast.symm.trans hf) Bool.false_ne_true
    · exact hprivate hf
  rw [List.forall_mem_cons, and_iff_right hself]
  simp only [mem_embedded hreserved]
  cases permitted with
  | false =>
    refine iff_of_true ?_ (Or.inl rfl)
    intro e hsix
    exact absurd ⟨rfl, sixToFour_private hsix⟩ hprivate
  | true => simp only [Bool.true_eq_false, false_or, Option.mem_def]

/-! ## All addresses -/

theorem checkAll_ok {error : Address → String → SsrfError} {ips : List Address} {u : Unit}
    (h : checkAll permitted error ips = .ok u) :
    ∀ ip ∈ ips, isDisallowedAddress permitted ip = none := by
  induction ips with
  | nil => exact nofun
  | cons ip ips ih =>
    unfold checkAll at h
    cases hip : isDisallowedAddress permitted ip with
    | some reason =>
      rw [hip] at h
      cases h
    | none =>
      rw [hip] at h
      exact List.forall_mem_cons.mpr ⟨hip, ih h⟩

theorem mem_usableAddresses {seen addresses : List Text} {sockaddr : Text}
    (hmem : sockaddr ∈ addresses) (hseen : before (cp '%') sockaddr ∉ seen)
    (hip : parseAddress (before (cp '%') sockaddr) = some ip) :
    ip ∈ usableAddresses seen addresses := by
  induction addresses generalizing seen with
  | nil => cases hmem
  | cons first rest ih =>
    have hempty : before (cp '%') sockaddr ≠ [] := by
      intro heq
      have hnil : parseAddress [] = none := by decide
      rw [heq, hnil] at hip
      cases hip
    unfold usableAddresses
    dsimp only
    by_cases hsame : before (cp '%') first = before (cp '%') sockaddr
    · rw [hsame, if_neg (not_or.mpr ⟨hempty, hseen⟩), hip]
      exact List.mem_cons_self
    · have hrest : sockaddr ∈ rest := by
        rcases List.mem_cons.mp hmem with rfl | hrest
        · exact absurd rfl hsame
        · exact hrest
      have hseen' : before (cp '%') sockaddr ∉ before (cp '%') first :: seen := by
        rw [List.mem_cons, not_or]
        exact ⟨fun heq => hsame heq.symm, hseen⟩
      split_ifs
      · exact ih hrest hseen
      · split
        · exact List.mem_cons_of_mem _ (ih hrest hseen')
        · exact ih hrest hseen'

/-- Every destination of an accepted URL was checked. -/
theorem validate_checked (h : validateOutboundUrl lib env resolve url allowPrivate = .ok r)
    (hip : Destination lib env resolve url ip) :
    isDisallowedAddress (permits lib env allowPrivate) ip = none := by
  obtain ⟨host, hhost, hdestination⟩ := hip
  unfold validateOutboundUrl at h
  rw [hhost] at h
  simp only [bind, Except.bind] at h
  rcases hdestination with hliteral | ⟨hname, addresses, hresolve, sockaddr, hmem, haddress⟩
  · rw [hliteral] at h
    dsimp only at h
    cases hcheck : checkAll (permits lib env allowPrivate)
        (fun _ reason => SsrfError.blockedLiteral host reason) [ip] with
    | error e =>
      rw [hcheck] at h
      cases h
    | ok u => exact checkAll_ok hcheck ip (List.mem_singleton_self ip)
  · have husable := mem_usableAddresses hmem List.not_mem_nil haddress
    rw [hname] at h
    unfold resolveHostAddresses at h
    rw [hresolve] at h
    dsimp only at h
    cases hips : usableAddresses [] addresses with
    | nil =>
      rw [hips] at husable
      cases husable
    | cons first rest =>
      rw [hips] at h husable
      dsimp only at h
      cases hcheck : checkAll (permits lib env allowPrivate) (.blockedAddress host)
          (first :: rest) with
      | error e =>
        rw [hcheck] at h
        cases h
      | ok u => exact checkAll_ok hcheck ip husable

/-- An accepted URL leads to no forbidden address exactly when private addresses are not permitted
or no 6to4 address carries a forbidden one. -/
theorem validate_sound_iff (h : validateOutboundUrl lib env resolve url allowPrivate = .ok r) :
    Sound lib env resolve url allowPrivate ↔ permits lib env allowPrivate = false ∨
      ∀ ip, Destination lib env resolve url ip → ∀ e ∈ sixToFour ip, ¬ Forbidden true e := by
  constructor
  · intro hsound
    by_cases hpermitted : permits lib env allowPrivate = false
    · exact Or.inl hpermitted
    · right
      intro ip hip
      have haddress := (address_sound_iff (validate_checked h hip)).mp (hsound ip hip)
      exact haddress.resolve_left hpermitted
  · rintro hcondition ip hip
    apply (address_sound_iff (validate_checked h hip)).mpr
    rcases hcondition with hpermitted | hall
    · exact Or.inl hpermitted
    · exact Or.inr (hall ip hip)

def noEnvironment : Environment := ⟨[], [], []⟩

def hook : Text := text "https://hook.io/a"

def resolvesTo (address : String) (_ : Text) : Resolution := .infos [text address]

/-- A name with a public address. -/
theorem publicName_sound : Sound OAuthRedirects.asciiLibrary noEnvironment (resolvesTo "8.8.8.8")
    hook (some false) := by
  have haccepted : validateOutboundUrl OAuthRedirects.asciiLibrary noEnvironment
      (resolvesTo "8.8.8.8") hook (some false) = .ok hook := by
    rfl
  exact (validate_sound_iff haccepted).mpr (Or.inl rfl)

/-- Where private addresses are permitted, a name may resolve to the 6to4 address of the
loopback. -/
theorem tunnelledLoopback_accepted :
    validateOutboundUrl OAuthRedirects.asciiLibrary noEnvironment (resolvesTo "2002:7f00:1::") hook
        (some true) = .ok hook ∧
      ¬ Sound OAuthRedirects.asciiLibrary noEnvironment (resolvesTo "2002:7f00:1::") hook
        (some true) := by
  refine ⟨by rfl, ?_⟩
  intro hsound
  have hdestination : Destination OAuthRedirects.asciiLibrary noEnvironment
      (resolvesTo "2002:7f00:1::") hook ⟨.v6, 0x20027f000001 * 2 ^ 80⟩ := by
    refine ⟨text "hook.io", by rfl, Or.inr ⟨by rfl, _, rfl, _, List.mem_singleton_self _, ?_⟩⟩
    rfl
  have hloopback : (⟨.v4, 0x7f000001⟩ : Address) ∈ embedded ⟨.v6, 0x20027f000001 * 2 ^ 80⟩ := by
    decide
  exact hsound _ hdestination _ (List.mem_cons_of_mem _ hloopback) (Or.inl (by decide))

end SsrfGuard
