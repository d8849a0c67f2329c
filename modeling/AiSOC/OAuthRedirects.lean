import AiSOC.UrlText

/-! # Where the OAuth flow sends a browser

The check of the provider's URLs, which returns them as they are, and the check of `return_to`,
which rebuilds it from its parts. A browser reads the results by a grammar of its own. -/
namespace OAuthRedirects

open CodeText (Text CodePoint cp text)
open UrlText

/-! ## The URLs of a provider -/

def oauthProviderHostSuffixes : List Text :=
  [text "auth.atlassian.com", text ".auth0.com", text "login.microsoftonline.com",
    text "login.microsoft.com", text "dash.cloudflare.com", text "accounts.google.com",
    text "oauth2.googleapis.com", text "github.com", text ".okta.com", text ".oktapreview.com",
    text "login.salesforce.com", text "test.salesforce.com", text ".my.salesforce.com",
    text "slack.com", text "login.tailscale.com"]

def isAllowedOauthHost (lib : Library) (host : Text) : Bool :=
  if host = [] then false
  else
    oauthProviderHostSuffixes.any fun suffix =>
      if (lib.lower suffix).head? = some (cp '.') then
        (lib.lower suffix).isSuffixOf (lib.lower host) &&
          (lib.lower suffix).length < (lib.lower host).length
      else lib.lower host = lib.lower suffix

inductive Refusal where
  | valueError
  | badRequest (detail : Text)
  deriving DecidableEq

def validatedProviderUrl (lib : Library) (url kind : Text) : Except Refusal Text :=
  match urlsplit lib url with
  | none => .error .valueError
  | some parsed =>
    let host := (parsed.hostname lib).getD []
    let noUserinfo := parsed.username.getD [] = [] && parsed.password.getD [] = []
    if parsed.scheme = text "https" && host ≠ [] && noUserinfo &&
        isAllowedOauthHost lib host then
      .ok url
    else
      .error (.badRequest (text "Refusing to use OAuth " ++ kind ++ text (" URL: host is not on " ++
        "the allow-list of trusted OAuth providers. Update the OAuth app row to point at the " ++
        "documented provider endpoint.")))

/-- The column of the app before the hint of the catalog. -/
def resolveUrl (lib : Library) (missing kind : Text) (override hint : Option Text) :
    Except Refusal Text :=
  let url := CodeText.strip (((override.filter (· ≠ [])).or hint).getD [])
  if url = [] then .error (.badRequest missing) else validatedProviderUrl lib url kind

def resolveAuthorizeUrl (lib : Library) (authorizeUrl hint : Option Text) : Except Refusal Text :=
  resolveUrl lib (text ("Connector schema does not advertise an authorize_url and tenant did not " ++
    "override it. Edit the OAuth app row to supply authorize_url.")) (text "authorize")
    authorizeUrl hint

def resolveTokenUrl (lib : Library) (tokenUrl hint : Option Text) : Except Refusal Text :=
  resolveUrl lib (text ("Connector schema does not advertise a token_url and tenant did not " ++
    "override it.")) (text "token") tokenUrl hint

/-! ## `return_to` -/

def resolveConsoleBase (consolePublicBaseUrl : Text) : Text :=
  consolePublicBaseUrl.rdropWhile (· = cp '/')

def default : Text := text "/onboarding"

/-- One slash in front, not two. -/
def isOnePath (path : Text) : Bool := path.head? = some (cp '/') && path.take 2 ≠ text "//"

def isLocal (parsed : SplitResult) : Bool :=
  parsed.scheme = [] && parsed.netloc = [] && isOnePath parsed.path

def sameOrigin (parsed base : SplitResult) : Bool :=
  parsed.scheme = base.scheme && parsed.netloc = base.netloc &&
    (parsed.path = [] || isOnePath parsed.path)

/-- The path, query and fragment behind a scheme and a location; `none` where one of them has a
lone surrogate. -/
def rebuilt (scheme netloc path : Text) (parsed : SplitResult) : Option Text :=
  (quote (text "/-._~") path).bind fun safePath =>
    (quote (text "=&-._~") parsed.query).bind fun safeQuery =>
      (quote (text "-._~") parsed.fragment).map fun safeFragment =>
        urlunsplit ⟨scheme, netloc, safePath, safeQuery, safeFragment⟩

def pathOrSlash (path : Text) : Text := if path = [] then text "/" else path

/-- `none` is an exception. -/
def validateReturnTo (lib : Library) (consolePublicBaseUrl : Text) (returnTo : Option Text) :
    Option Text :=
  match returnTo.filter (· ≠ []) with
  | none => some default
  | some returnTo =>
    (urlsplit lib returnTo).bind fun parsed =>
      if isLocal parsed then rebuilt [] [] parsed.path parsed
      else
        let base := resolveConsoleBase consolePublicBaseUrl
        if base = [] then some default
        else
          (urlsplit lib base).bind fun baseParsed =>
            if sameOrigin parsed baseParsed then
              rebuilt baseParsed.scheme baseParsed.netloc (pathOrSlash parsed.path) parsed
            else some default

/-! ## What stays on trusted origins -/

/-- A path, or such a path behind the origin of the console. -/
def Trusted (lib : Library) (consolePublicBaseUrl v : Text) : Prop :=
  OnePath v ∨ ∃ base path, urlsplit lib (resolveConsoleBase consolePublicBaseUrl) = some base ∧
    OnePath path ∧ v = origin base ++ path ∧ ∃ parts, urlsplit lib v = some parts ∧
      parts.scheme = base.scheme ∧ parts.netloc = base.netloc

/-- The parts that are quoted have no lone surrogates. -/
def Quotable (parsed : SplitResult) : Prop :=
  ∀ c ∈ parsed.path ++ parsed.query ++ parsed.fragment, TextEncoding.isSurrogate c = false

/-- `urllib` takes apart what it has to, and quotes what it has to. -/
def Readable (lib : Library) (consolePublicBaseUrl : Text) (returnTo : Option Text) : Prop :=
  ∀ url, returnTo = some url → url ≠ [] → ∃ parsed, urlsplit lib url = some parsed ∧
    if isLocal parsed then Quotable parsed
    else resolveConsoleBase consolePublicBaseUrl ≠ [] →
      ∃ base, urlsplit lib (resolveConsoleBase consolePublicBaseUrl) = some base ∧
        (sameOrigin parsed base = true → Quotable parsed)

/-- With a backslash in the location, what a browser takes of it has an allowed host. -/
def BackslashHarmless (lib : Library) (url : Text) : Prop :=
  cp '\\' ∈ trimmedNetloc url → ∀ host,
    authorityHost lib (core (trimmedNetloc url)) = some host → isAllowedOauthHost lib host = true


section

variable {lib : Library} {base v url host kind scheme netloc path : Text} {parsed b : SplitResult}
  {returnTo : Option Text}

/-! ## A checked URL for a browser -/

/-- Every allowed host ends in `m`. -/
theorem last_of_allowed (h : isAllowedOauthHost lib host = true) :
    (lib.lower host).getLast? = some (cp 'm') := by
  rw [isAllowedOauthHost] at h
  split_ifs at h
  obtain ⟨suffix, hmem, hmatch⟩ := List.any_eq_true.mp h
  have hascii : oauthProviderHostSuffixes.all (fun s => s.all fun c => c.val < 0x80) = true := by
    decide
  have hlast : oauthProviderHostSuffixes.all
      (fun s => (asciiLower s).getLast? = some (cp 'm')) = true := by
    decide
  have hlower : lib.lower suffix = asciiLower suffix := by
    apply lib.lower_ascii
    intro c hc
    have hall := List.all_eq_true.mp hascii suffix hmem
    exact of_decide_eq_true (List.all_eq_true.mp hall c hc)
  have hm : (asciiLower suffix).getLast? = some (cp 'm') :=
    of_decide_eq_true (List.all_eq_true.mp hlast suffix hmem)
  rw [hlower] at hmatch
  split_ifs at hmatch with hdot
  · rw [Bool.and_eq_true] at hmatch
    obtain ⟨l, hl⟩ := List.isSuffixOf_iff_suffix.mp hmatch.1
    have hne : asciiLower suffix ≠ [] := by
      intro hnil
      rw [hnil] at hm
      cases hm
    rw [← hl, List.getLast?_append_of_ne_nil l hne]
    exact hm
  · rw [of_decide_eq_true hmatch]
    exact hm

theorem allowed_congr {host' : Text} (hne : host' ≠ []) (hlower : lib.lower host = lib.lower host')
    (h : isAllowedOauthHost lib host = true) : isAllowedOauthHost lib host' = true := by
  rw [isAllowedOauthHost] at h ⊢
  split_ifs at h
  rw [if_neg hne, ← hlower]
  exact h

/-- What an accepted URL has. -/
theorem accepted (h : validatedProviderUrl lib url kind = .ok v) :
    v = url ∧ ∃ parsed, urlsplit lib url = some parsed ∧ parsed.scheme = text "https" ∧
      rawHost parsed.netloc ≠ [] ∧
      isAllowedOauthHost lib (lowerHost lib (rawHost parsed.netloc)) = true := by
  rw [validatedProviderUrl] at h
  cases hparsed : urlsplit lib url with
  | none =>
    rw [hparsed] at h
    cases h
  | some parsed =>
    rw [hparsed] at h
    dsimp only at h
    split_ifs at h with hvalid
    rw [Bool.and_eq_true, Bool.and_eq_true, Bool.and_eq_true, decide_eq_true_eq] at hvalid
    obtain ⟨⟨⟨hscheme, -⟩, -⟩, hallowed⟩ := hvalid
    refine ⟨(Except.ok.inj h).symm, parsed, rfl, hscheme, ?_⟩
    rw [SplitResult.hostname] at hallowed
    split_ifs at hallowed with hraw
    · have hempty : isAllowedOauthHost lib [] = true := hallowed
      rw [isAllowedOauthHost, if_pos rfl] at hempty
      cases hempty
    · exact ⟨hraw, hallowed⟩

/-- A location that holds an allowed host does not consist of backslashes and blanks. -/
theorem exists_core {s n : Text} (hs : ∀ c ∈ s, isBlank c = true)
    (hlast : (lib.lower (rawHost (n ++ s))).getLast? = some (cp 'm')) :
    ∃ c ∈ n, c ≠ cp '\\' := by
  by_contra hnone
  have hboundary : ∀ c ∈ rawHost (n ++ s), isBlank c = true ∨ c = cp '\\' := by
    intro c hc
    rcases List.mem_append.mp (mem_rawHost hc) with hn | hs'
    · right
      by_contra hne
      exact hnone ⟨c, hn, hne⟩
    · exact Or.inl (hs c hs')
  rw [lower_of_boundary hboundary] at hlast
  rcases hboundary _ (List.mem_of_getLast? hlast) with hblank | hback
  · exact absurd hblank (by decide)
  · exact absurd hback (by decide)

theorem core_of_notMem {n : Text} (h : cp '\\' ∉ n) : core n = n := by
  have hdrop : n.dropWhile (· = cp '\\') = n := by
    cases n with
    | nil => rfl
    | cons c n =>
      rw [List.dropWhile_cons_of_neg]
      intro hc
      rw [of_decide_eq_true hc] at h
      exact h List.mem_cons_self
  rw [core, hdrop, before_of_notMem h]

/-- Without a backslash both grammars find the same host. -/
theorem allowed_of_same {s n : Text} (hs : ∀ c ∈ s, isBlank c = true)
    (hraw : rawHost (n ++ s) ≠ [])
    (hallowed : isAllowedOauthHost lib (lowerHost lib (rawHost (n ++ s))) = true)
    (hhost : authorityHost lib n = some host) : isAllowedOauthHost lib host = true := by
  have hlast := last_of_allowed hallowed
  rw [lower_lowerHost] at hlast
  rcases rawHost_cases hs hhost with hsame | ⟨t, z, hend, hz⟩ | haddress
  · rw [← hsame]
    exact allowed_congr hraw (lower_lowerHost _) hallowed
  · rw [hend, lower_concat_blank hz, List.getLast?_concat] at hlast
    rw [Option.some.inj hlast] at hz
    exact absurd hz (by decide)
  · exact absurd (List.mem_of_getLast? hlast) (notMem_lower_address haddress)

theorem browserHost_of_accepted (h : validatedProviderUrl lib url kind = .ok v) :
    browserHost lib v = authorityHost lib (core (trimmedNetloc url)) ∧
      (cp '\\' ∉ trimmedNetloc url → ∀ host,
        browserHost lib v = some host → isAllowedOauthHost lib host = true) := by
  obtain ⟨rfl, parsed, hparsed, hscheme, hraw, hallowed⟩ := accepted h
  obtain ⟨hscheme', hnetloc, -, -⟩ := urlsplit_eq_some hparsed
  rw [hscheme] at hscheme'
  have hslashes : (splitScheme (clean v)).2.take 2 = text "//" := by
    by_contra hno
    apply hraw
    rw [hnetloc, splitNetloc, if_neg hno]
    rfl
  have hne : (splitScheme (clean v)).1 ≠ [] := by
    rw [← hscheme']
    exact List.cons_ne_nil _ _
  obtain ⟨s, hs, hblank⟩ := netloc_eq_append hne hslashes
  rw [hs] at hnetloc
  rw [hnetloc] at hraw hallowed
  have hlast := last_of_allowed hallowed
  rw [lower_lowerHost] at hlast
  have hauthority := browserAuthority_eq hscheme'.symm hslashes (exists_core hblank hlast)
  have hhost : browserHost lib v = authorityHost lib (core (trimmedNetloc v)) := by
    rw [browserHost, hauthority, Option.bind_some]
  refine ⟨hhost, ?_⟩
  intro hback host hsome
  rw [hhost, core_of_notMem hback] at hsome
  exact allowed_of_same hblank hraw hallowed hsome

/-! ## A rebuilt URL -/

theorem rebuilt_isSome {scheme netloc : Text} (hpath : path.any TextEncoding.isSurrogate =
    parsed.path.any TextEncoding.isSurrogate) :
    (rebuilt scheme netloc path parsed).isSome ↔ Quotable parsed := by
  have hquote : ∀ safe t, (quote safe t).isSome = !t.any TextEncoding.isSurrogate := by
    intro safe t
    rw [quote, Option.isSome_map, TextEncoding.encodeUtf8_isSome]
  have hcases : (rebuilt scheme netloc path parsed).isSome =
      ((quote (text "/-._~") path).isSome && (quote (text "=&-._~") parsed.query).isSome &&
        (quote (text "-._~") parsed.fragment).isSome) := by
    rw [rebuilt]
    rcases quote (text "/-._~") path with - | p
    · rfl
    · rcases quote (text "=&-._~") parsed.query with - | q
      · rfl
      · rcases quote (text "-._~") parsed.fragment with - | f
        · rfl
        · rfl
  rw [hcases, hquote, hquote, hquote, hpath, Quotable, ← Bool.not_or, ← Bool.not_or,
    ← List.any_append, ← List.any_append, Bool.not_eq_true', List.any_eq_false]
  constructor
  · intro h c hc
    exact Bool.eq_false_iff.mpr (h c hc)
  · intro h c hc
    exact Bool.eq_false_iff.mp (h c hc)

/-- Behind any origin a rebuilt URL has a path with one slash. -/
theorem rebuilt_eq (hpath : isOnePath path = true)
    (h : rebuilt b.scheme b.netloc path parsed = some v) :
    ∃ rest, OnePath rest ∧ v = origin b ++ rest := by
  obtain ⟨safePath, hsafe, h⟩ := Option.bind_eq_some_iff.mp h
  obtain ⟨safeQuery, hquery, h⟩ := Option.bind_eq_some_iff.mp h
  obtain ⟨safeFragment, hfragment, rfl⟩ := Option.map_eq_some_iff.mp h
  rw [isOnePath, Bool.and_eq_true, decide_eq_true_eq, decide_eq_true_eq] at hpath
  obtain ⟨hhead, htwo⟩ := hpath
  cases path with
  | nil => cases hhead
  | cons c t =>
    obtain rfl := Option.some.inj hhead
    have ht : t.head? ≠ some (cp '/') := by
      intro ht
      cases t with
      | nil => cases ht
      | cons d t =>
        obtain rfl := Option.some.inj ht
        exact htwo rfl
    have hone := onePath_quote (by decide) (by decide) (by decide) (by decide) ht hsafe hquery
      hfragment
    refine ⟨_, hone, ?_⟩
    obtain ⟨w, rfl, hw⟩ := quote_slash (by decide) hsafe
    have htake : (cp '/' :: w).take 2 ≠ text "//" := by
      intro htake
      have htail : w.take 1 = [cp '/'] := (List.cons.inj htake).2
      apply ht
      apply head_quote hw
      cases w with
      | nil => cases htail
      | cons d w =>
        rw [(List.cons.inj htail).1]
        rfl
    rw [urlunsplit_eq htake (Or.inr rfl), origin_eq]

theorem isOnePath_pathOrSlash (h : path = [] ∨ isOnePath path = true) :
    isOnePath (pathOrSlash path) = true := by
  rw [pathOrSlash]
  split_ifs with hempty
  · decide
  · exact h.resolve_left hempty

theorem default_onePath : OnePath default := by
  have hall : (text "onboarding").all isPlain = true := by decide
  exact ⟨text "onboarding", rfl, by decide, List.all_eq_true.mp hall⟩

/-- Nothing else is returned. -/
theorem trusted_of_validateReturnTo (h : validateReturnTo lib base returnTo = some v) :
    Trusted lib base v := by
  rw [validateReturnTo] at h
  cases hgiven : returnTo.filter (· ≠ []) with
  | none =>
    rw [hgiven] at h
    obtain rfl := Option.some.inj h
    exact Or.inl default_onePath
  | some url =>
    rw [hgiven] at h
    obtain ⟨parsed, hparsed, h⟩ := Option.bind_eq_some_iff.mp h
    dsimp only at h
    split_ifs at h with hlocal hbase
    · rw [isLocal, Bool.and_eq_true] at hlocal
      obtain ⟨rest, hrest, rfl⟩ := rebuilt_eq (b := ⟨[], [], [], [], []⟩) hlocal.2 h
      exact Or.inl hrest
    · obtain rfl := Option.some.inj h
      exact Or.inl default_onePath
    · obtain ⟨b, hb, h⟩ := Option.bind_eq_some_iff.mp h
      split_ifs at h with hsame
      · rw [sameOrigin, Bool.and_eq_true, Bool.or_eq_true, decide_eq_true_eq] at hsame
        obtain ⟨rest, hrest, rfl⟩ := rebuilt_eq (isOnePath_pathOrSlash hsame.2) h
        exact Or.inr ⟨b, rest, hb, hrest, rfl, urlsplit_origin (wellSplit_of_urlsplit hb) hrest⟩
      · obtain rfl := Option.some.inj h
        exact Or.inl default_onePath

theorem exists_some {P : SplitResult → Prop} : (∃ p, some b = some p ∧ P p) ↔ P b := by
  constructor
  · rintro ⟨p, hp, hP⟩
    rwa [Option.some.inj hp]
  · intro hP
    exact ⟨b, rfl, hP⟩

theorem validateReturnTo_isSome :
    (validateReturnTo lib base returnTo).isSome ↔ Readable lib base returnTo := by
  rw [validateReturnTo, Readable]
  cases hgiven : returnTo.filter (· ≠ []) with
  | none =>
    refine iff_of_true rfl ?_
    rintro url rfl hne
    rw [Option.filter_some, decide_eq_true hne] at hgiven
    cases hgiven
  | some url =>
    obtain ⟨hurl, hne⟩ := Option.filter_eq_some_iff.mp hgiven
    have hall : ∀ P : Text → Prop, (∀ u, returnTo = some u → u ≠ [] → P u) ↔ P url := by
      intro P
      constructor
      · intro h
        exact h url hurl (of_decide_eq_true hne)
      · intro h u hu _
        rw [hurl] at hu
        rwa [← Option.some.inj hu]
    rw [hall]
    dsimp only
    cases hparsed : urlsplit lib url with
    | none =>
      refine iff_of_false Bool.false_ne_true ?_
      rintro ⟨parsed, hsome, -⟩
      cases hsome
    | some parsed =>
      rw [exists_some, Option.bind_some]
      split_ifs with hlocal hbase
      · exact rebuilt_isSome rfl
      · exact iff_of_true rfl fun hno => absurd hbase hno
      · rw [forall_prop_of_true hbase]
        cases hb : urlsplit lib (resolveConsoleBase base) with
        | none =>
          refine iff_of_false Bool.false_ne_true ?_
          rintro ⟨b, hsome, -⟩
          cases hsome
        | some b =>
          rw [exists_some, Option.bind_some]
          split_ifs with hsame
          · rw [forall_prop_of_true hsame]
            apply rebuilt_isSome
            rw [pathOrSlash]
            split_ifs with hempty
            · rw [hempty]
              rfl
            · rfl
          · exact iff_of_true rfl fun hno => absurd hno hsame

/-- The URLs of the flow are the checked ones. -/
theorem resolved_checked {override hint : Option Text} {missing : Text}
    (h : resolveUrl lib missing kind override hint = .ok v) :
    validatedProviderUrl lib v kind = .ok v := by
  rw [resolveUrl] at h
  split_ifs at h
  obtain rfl := (accepted h).1
  exact h

/-- `return_to` leads to a trusted place wherever `urllib` can read it, and an accepted URL to an
allowed host wherever no backslash hides another one. -/
theorem redirects_trusted (lib : Library) (base : Text) (returnTo : Option Text) (url kind : Text) :
    ((∃ v, validateReturnTo lib base returnTo = some v ∧ Trusted lib base v) ↔
      Readable lib base returnTo) ∧
    ∀ v, validatedProviderUrl lib url kind = .ok v →
      ((∀ host, browserHost lib v = some host → isAllowedOauthHost lib host = true) ↔
        BackslashHarmless lib url) := by
  constructor
  · rw [← validateReturnTo_isSome, Option.isSome_iff_exists]
    constructor
    · rintro ⟨v, hv, -⟩
      exact ⟨v, hv⟩
    · rintro ⟨v, hv⟩
      exact ⟨v, hv, trusted_of_validateReturnTo hv⟩
  · intro v hv
    obtain ⟨hhost, hsame⟩ := browserHost_of_accepted hv
    constructor
    · intro h _ host hcore
      exact h host (hhost.trans hcore)
    · intro h host hsome
      by_cases hback : cp '\\' ∈ trimmedNetloc url
      · exact h hback host (hhost.symm.trans hsome)
      · exact hsame hback host hsome

end

/-! ## A hidden host -/

theorem asciiLower_append (a : Text) (c : CodePoint) (b : Text)
    (hc : isBlank c || c = cp '%' || c = cp '\\') :
    asciiLower (a ++ c :: b) = asciiLower a ++ c :: asciiLower b := by
  have hupper : CodeText.between 'A' 'Z' c = false := by
    rw [Bool.eq_false_iff]
    intro hupper
    rw [CodeText.between, decide_eq_true_eq] at hupper
    have hA : 'A'.toNat = 65 := rfl
    have hZ : 'Z'.toNat = 90 := rfl
    rw [hA, hZ] at hupper
    rw [isBlank, Bool.or_eq_true, Bool.or_eq_true, decide_eq_true_eq, decide_eq_true_eq,
      decide_eq_true_eq] at hc
    rcases hc with (hblank | rfl) | rfl
    · omega
    · exact absurd hupper (by decide)
    · exact absurd hupper (by decide)
  rw [asciiLower, List.map_append, List.map_cons, hupper]
  rfl

/-- ASCII alone, and names as hosts. -/
def asciiLibrary : Library where
  lower := asciiLower
  nfkc := id
  isIpv6 t := cp ':' ∈ t
  hostParses t := t.all fun c => isAlpha c || isDigit c || c = cp '.' || c = cp '-'
  lower_ascii _ _ := rfl
  lower_lower := asciiLower_asciiLower
  lower_append := asciiLower_append
  hostParses_bracket t ht hopen := by
    have hbracket := List.all_eq_true.mp ht _ hopen
    exact absurd hbracket (by decide)

/-- A path of the console beside a tenant's Okta. -/
theorem console_trusted :
    (∃ v, validateReturnTo asciiLibrary (text "https://c.io/") (some (text "/a?b")) = some v ∧
      Trusted asciiLibrary (text "https://c.io/") v) ∧
    ∀ host, browserHost asciiLibrary (text "https://a.okta.com/o") = some host →
      isAllowedOauthHost asciiLibrary host = true := by
  have htheorem := redirects_trusted asciiLibrary (text "https://c.io/") (some (text "/a?b"))
    (text "https://a.okta.com/o") (text "token")
  constructor
  · exact htheorem.1.mpr (validateReturnTo_isSome.mp (by decide))
  · refine (htheorem.2 _ (by decide)).mpr ?_
    intro hback
    exact absurd hback (by decide)

/-- `urllib` reads a name under `.okta.com` and a browser `evil.com`; and two slashes before a
bracket raise. -/
theorem backslash_hides :
    validatedProviderUrl asciiLibrary (text "https://evil.com\\.okta.com") (text "authorize") =
        .ok (text "https://evil.com\\.okta.com") ∧
      browserHost asciiLibrary (text "https://evil.com\\.okta.com") = some (text "evil.com") ∧
      isAllowedOauthHost asciiLibrary (text "evil.com") = false ∧
      validateReturnTo asciiLibrary [] (some (text "//[")) = none := by
  refine ⟨?_, ?_, ?_, ?_⟩
  · decide
  · decide
  · decide
  · decide

end OAuthRedirects
