import Mathlib.Tactic.SplitIfs
import AiSOC.IpAddress

/-! # Client addresses behind trusted proxies

The address that a request is attributed to: its direct peer, or the hop of its forwarded-for
header that is closest to the peer among those that name an address outside the trusted
networks. -/
namespace TrustedProxy

open CodeText IpAddress

def parseCidrs (raw : Text) : List Network :=
  ((raw.splitOn (cp ',')).map strip).filterMap fun token =>
    if token = [] then none else parseNetwork token

def ipInNetworks (addr : Text) (nets : List Network) : Bool :=
  (parseAddress (strip addr)).any fun ip => nets.any fun net => net.contains ip

/-- The host of an entry of the header; `none` if the entry is blank. -/
def hopOf (raw : Text) : Option Text :=
  let token := strip raw
  if token = [] then none
  else if token.head? = some (cp '[') ∧ cp ']' ∈ token then
    some (token.tail.takeWhile (· ≠ cp ']'))
  else if token.count (cp ':') = 1 ∧ cp '.' ∈ token then
    some (token.takeWhile (· ≠ cp ':'))
  else some token

def entries (header : Option Text) : List Text := (header.getD []).splitOn (cp ',')

def parseForwardedFor (header : Option Text) : List Text := (entries header).filterMap hopOf

/-- A hop that the walk stops at: it is an address, and none of a trusted network. -/
def isClient (nets : List Network) (hop : Text) : Bool :=
  !ipInNetworks hop nets && (parseAddress hop).isSome

/-- `peer` is empty or missing if the connection has none, `trusted` are the networks that the
caller gives, and `environment` is the variable that is read if it gives none. -/
def resolveClientIp (peer : Option Text) (trusted : Option (List Network)) (environment : Text)
    (header : Option Text) : Option Text :=
  match peer with
  | none | some [] => none
  | some peer =>
    let nets := trusted.getD (parseCidrs environment)
    if nets = [] ∨ ipInNetworks peer nets = false then some peer
    else
      match parseForwardedFor header with
      | [] => some peer
      | leftmost :: hops =>
        match (leftmost :: hops).reverse.find? (isClient nets) with
        | some hop => some hop
        | none => if (parseAddress leftmost).isSome then some leftmost else some peer

/-- The entry names an address outside the trusted networks. -/
def NamesClient (nets : List Network) (entry : Text) : Prop :=
  ∃ hop ∈ hopOf entry, isClient nets hop = true

variable {nets : List Network} {header header' : Option Text} {left left' suffix : List Text}
  {peer : Option Text} {trusted : Option (List Network)} {environment hop : Text}

/-- If the walk stops, only the peer decides whether its result counts. -/
theorem resolve_of_find
    (h : (parseForwardedFor header).reverse.find?
      (isClient (trusted.getD (parseCidrs environment))) = some hop) :
    resolveClientIp peer trusted environment header =
      (peer.filter (· ≠ [])).map fun peer =>
        let nets := trusted.getD (parseCidrs environment)
        if nets = [] ∨ ipInNetworks peer nets = false then peer else hop := by
  cases hhops : parseForwardedFor header with
  | nil =>
    rw [hhops] at h
    cases h
  | cons leftmost hops =>
    rw [hhops] at h
    match peer with
    | none => rfl
    | some [] => rfl
    | some (c :: peer) =>
      simp only [resolveClientIp, hhops, h, Option.filter_some, Option.map_some, ne_eq,
        reduceCtorEq, not_false_eq_true, decide_true, if_true]
      split_ifs
      · rfl
      · rfl

/-- What the walk finds is in every suffix that has an entry naming a client. -/
theorem find_suffix (hheader : entries header = left ++ suffix)
    (hclient : ∃ e ∈ suffix, NamesClient nets e) :
    ∃ hop, (suffix.filterMap hopOf).reverse.find? (isClient nets) = some hop ∧
      (parseForwardedFor header).reverse.find? (isClient nets) = some hop := by
  obtain ⟨e, he, client, hhop, hisClient⟩ := hclient
  have hfound : ((suffix.filterMap hopOf).reverse.find? (isClient nets)).isSome := by
    rw [List.find?_isSome]
    exact ⟨client, List.mem_reverse.mpr (List.mem_filterMap.mpr ⟨e, he, hhop⟩), hisClient⟩
  obtain ⟨hop, hhop⟩ := Option.isSome_iff_exists.mp hfound
  refine ⟨hop, hhop, ?_⟩
  rw [parseForwardedFor, hheader, List.filterMap_append, List.reverse_append, List.find?_append,
    hhop, Option.some_or]

/-- The client address depends on the peer and on the entries from the rightmost one that names
an address outside the trusted networks. -/
theorem client_ip_suffix (hheader : entries header = left ++ suffix)
    (hheader' : entries header' = left' ++ suffix)
    (hclient : ∃ e ∈ suffix, NamesClient (trusted.getD (parseCidrs environment)) e) :
    resolveClientIp peer trusted environment header =
      resolveClientIp peer trusted environment header' := by
  obtain ⟨hop, hsuffix, hfind⟩ := find_suffix hheader hclient
  obtain ⟨hop', hsuffix', hfind'⟩ := find_suffix hheader' hclient
  obtain rfl := Option.some.inj (hsuffix.symm.trans hsuffix')
  rw [resolve_of_find hfind, resolve_of_find hfind']

/-- Behind a proxy of 10.0.0.0/8, what the client sends itself does not matter. -/
theorem client_ip_suffix_forged :
    resolveClientIp (some (text "10.0.0.5")) none (text "10.0.0.0/8")
        (some (text "1.1.1.1, 203.0.113.10, 10.0.0.7")) =
      resolveClientIp (some (text "10.0.0.5")) none (text "10.0.0.0/8")
        (some (text "2.2.2.2, 203.0.113.10, 10.0.0.7")) := by
  have hclient : ∃ e ∈ [text " 203.0.113.10", text " 10.0.0.7"],
      NamesClient (Option.getD none (parseCidrs (text "10.0.0.0/8"))) e :=
    ⟨_, List.mem_cons_self, text "203.0.113.10", by decide, by decide⟩
  exact @client_ip_suffix _ _ [text "1.1.1.1"] [text "2.2.2.2"] _ _ _ _ (by decide) (by decide)
    hclient

/-- An entry that is no address does not stop the walk: what stands to its left decides. -/
theorem junk_does_not_stop : ¬ ∀ (peer : Option Text) (nets : List Network)
    (header header' : Option Text) (left left' suffix : List Text),
    entries header = left ++ suffix → entries header' = left' ++ suffix →
    (∃ e ∈ suffix, ∃ hop ∈ hopOf e, ipInNetworks hop nets = false) →
    resolveClientIp peer (some nets) [] header = resolveClientIp peer (some nets) [] header' := by
  intro h
  have hsame := h (some (text "10.0.0.5")) [⟨.v4, 0x0a000000, 8⟩] (some (text "1.1.1.1,junk"))
    (some (text "2.2.2.2,junk")) [text "1.1.1.1"] [text "2.2.2.2"] [text "junk"] (by decide)
    (by decide) ⟨_, List.mem_cons_self, text "junk", by decide, by decide⟩
  exact absurd hsame (by decide)

end TrustedProxy
