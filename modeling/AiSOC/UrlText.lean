import Mathlib.Data.List.TakeWhile
import Mathlib.Tactic.SplitIfs
import AiSOC.TextEncoding

/-! # URLs for the standard library and for a browser

How `urllib.parse` takes a URL apart, puts one together and quotes a part of it, and what a WHATWG
parser takes for the host of an `https` URL. A backslash is a slash to the browser alone. -/
namespace UrlText

open CodeText (Text CodePoint cp text between)
open TextEncoding (encodeChar encodeUtf8 isSurrogate)

/-! ## Characters -/

def asciiLower (t : Text) : Text := t.map fun c => if between 'A' 'Z' c then c + 0x20 else c

def isAlpha (c : CodePoint) : Bool := between 'A' 'Z' c || between 'a' 'z' c

def isDigit (c : CodePoint) : Bool := between '0' '9' c

def isHex (c : CodePoint) : Bool := isDigit c || between 'A' 'F' c || between 'a' 'f' c

/-- The C0 control characters and the space. -/
def isBlank (c : CodePoint) : Bool := c.val ≤ 0x20

/-- Removed wherever they stand. -/
def isUnsafe (c : CodePoint) : Bool := c = cp '\t' || c = cp '\r' || c = cp '\n'

def isDelimiter (c : CodePoint) : Bool := c = cp '/' || c = cp '?' || c = cp '#'

/-- `str.lower` and NFKC, the addresses that `ipaddress` takes for IPv6, and the texts that a
browser takes for a host. The case of a letter does not depend on what lies behind a blank, a `%`
or a backslash. -/
structure Library where
  lower : Text → Text
  nfkc : Text → Text
  isIpv6 : Text → Bool
  hostParses : Text → Bool
  lower_ascii : ∀ t, (∀ c ∈ t, c.val < 0x80) → lower t = asciiLower t
  lower_lower : ∀ t, lower (lower t) = lower t
  lower_append : ∀ a c b, isBlank c || c = cp '%' || c = cp '\\' →
    lower (a ++ c :: b) = lower a ++ c :: lower b
  hostParses_bracket : ∀ t, hostParses t = true → cp '[' ∈ t → ∃ address,
    t = cp '[' :: (address ++ [cp ']']) ∧
      ∀ c ∈ address, isHex c = true ∨ c = cp ':' ∨ c = cp '.'

/-! ## `urlsplit` -/

/-- The parts of `str.partition`. -/
def before (c : CodePoint) (t : Text) : Text := t.takeWhile (· ≠ c)
def after (c : CodePoint) (t : Text) : Text := (t.dropWhile (· ≠ c)).drop 1

def removeUnsafe (t : Text) : Text := t.filter fun c => !isUnsafe c

def clean (url : Text) : Text := removeUnsafe (url.dropWhile isBlank)

def schemeChar (c : CodePoint) : Bool :=
  isAlpha c || isDigit c || c = cp '+' || c = cp '-' || c = cp '.'

def splitScheme (t : Text) : Text × Text :=
  if t.head?.any isAlpha && cp ':' ∈ t && (before (cp ':') t).all schemeChar then
    (asciiLower (before (cp ':') t), after (cp ':') t)
  else ([], t)

def splitNetloc (t : Text) : Text × Text :=
  if t.take 2 = text "//" then
    ((t.drop 2).takeWhile fun c => !isDelimiter c, (t.drop 2).dropWhile fun c => !isDelimiter c)
  else ([], t)

/-- An address of a future version, or one of version 6. -/
def bracketedHostOk (lib : Library) : Text → Bool
  | [] => lib.isIpv6 []
  | c :: t =>
    if c = cp 'v' then
      let rest := t.dropWhile isHex
      t.head?.any isHex && rest.head? = some (cp '.') && rest.drop 1 ≠ []
    else lib.isIpv6 (c :: t)

def bracketsOk (lib : Library) (netloc : Text) : Bool :=
  if cp '[' ∈ netloc then
    cp ']' ∈ netloc && bracketedHostOk lib (before (cp ']') (after (cp '[') netloc))
  else cp ']' ∉ netloc

/-- No character becomes a delimiter under NFKC. -/
def checkNetloc (lib : Library) (netloc : Text) : Bool :=
  netloc.all (fun c => c.val < 0x80) ||
    let n := netloc.filter (· ∉ text "@:#?")
    lib.nfkc n = n || !(lib.nfkc n).any (· ∈ text "/?#@:")

structure SplitResult where
  scheme : Text
  netloc : Text
  path : Text
  query : Text
  fragment : Text

/-- `none` is a `ValueError`. -/
def urlsplit (lib : Library) (url : Text) : Option SplitResult :=
  let (scheme, rest) := splitScheme (clean url)
  let (netloc, rest) := splitNetloc rest
  if bracketsOk lib netloc && checkNetloc lib netloc then
    let path := before (cp '#') rest
    some ⟨scheme, netloc, before (cp '?') path, after (cp '?') path, after (cp '#') rest⟩
  else none

def hostinfo (netloc : Text) : Text := netloc.rtakeWhile (· ≠ cp '@')

def userinfo (netloc : Text) : Option Text :=
  if cp '@' ∈ netloc then some (netloc.rdropWhile (· ≠ cp '@')).dropLast else none

/-- The host as it is written. -/
def rawHost (netloc : Text) : Text :=
  if cp '[' ∈ hostinfo netloc then before (cp ']') (after (cp '[') (hostinfo netloc))
  else before (cp ':') (hostinfo netloc)

/-- The zone of an address keeps its case. -/
def lowerHost (lib : Library) (host : Text) : Text :=
  lib.lower (before (cp '%') host) ++ host.dropWhile (· ≠ cp '%')

def SplitResult.hostname (lib : Library) (parts : SplitResult) : Option Text :=
  if rawHost parts.netloc = [] then none else some (lowerHost lib (rawHost parts.netloc))

def SplitResult.username (parts : SplitResult) : Option Text :=
  (userinfo parts.netloc).map (before (cp ':'))

def SplitResult.password (parts : SplitResult) : Option Text :=
  (userinfo parts.netloc).bind fun info =>
    if cp ':' ∈ info then some (after (cp ':') info) else none

/-! ## `quote` and `urlunsplit` -/

def hexDigit (n : ℕ) : CodePoint := Fin.ofNat 0x110000 (if n < 10 then 0x30 + n else 0x37 + n)

def alwaysSafe (c : CodePoint) : Bool := isAlpha c || isDigit c || c ∈ text "_.-~"

def quoteByte (safe : Text) (b : UInt8) : Text :=
  let c : CodePoint := Fin.ofNat 0x110000 b.toNat
  if alwaysSafe c || c ∈ safe then [c]
  else [cp '%', hexDigit (b.toNat / 16), hexDigit (b.toNat % 16)]

/-- `none` is a `UnicodeEncodeError`. -/
def quote (safe t : Text) : Option Text := (encodeUtf8 t).map (·.flatMap (quoteByte safe))

def usesNetloc : List Text :=
  [text "", text "ftp", text "http", text "gopher", text "nntp", text "telnet", text "imap",
    text "wais", text "file", text "mms", text "https", text "shttp", text "snews",
    text "prospero", text "rtsp", text "rtsps", text "rtspu", text "rsync", text "svn",
    text "svn+ssh", text "sftp", text "nfs", text "git", text "git+ssh", text "ws", text "wss",
    text "itms-services"]

/-- A part behind its mark, where it is not empty. -/
def marked (mark : CodePoint) (t : Text) : Text := if t = [] then [] else mark :: t

def urlunsplit (parts : SplitResult) : Text :=
  let url := parts.path
  let url :=
    if parts.netloc ≠ [] ∨ (parts.scheme ≠ [] ∧ parts.scheme ∈ usesNetloc) ∨
        url.take 2 = text "//" then
      text "//" ++ parts.netloc ++
        (if url ≠ [] ∧ url.head? ≠ some (cp '/') then cp '/' :: url else url)
    else url
  let url := if parts.scheme = [] then url else parts.scheme ++ cp ':' :: url
  url ++ marked (cp '?') parts.query ++ marked (cp '#') parts.fragment

/-! ## The host for a browser -/

def trim (url : Text) : Text := (url.dropWhile isBlank).rdropWhile isBlank

def isSlash (c : CodePoint) : Bool := c = cp '/' || c = cp '\\'

/-- Of an `https` URL: slashes of both kinds stand before it, and one of them ends it. -/
def browserAuthority (url : Text) : Option Text :=
  let (scheme, rest) := splitScheme (removeUnsafe (trim url))
  if scheme = text "https" then
    some ((rest.dropWhile isSlash).takeWhile fun c => !(isDelimiter c || c = cp '\\'))
  else none

/-- Up to the first colon outside of brackets. -/
def splitPort : Bool → Text → Text × Text
  | _, [] => ([], [])
  | inside, c :: t =>
    if c = cp ':' && !inside then ([], c :: t)
    else
      let (host, port) := splitPort (if c = cp '[' then true else if c = cp ']' then false
        else inside) t
      (c :: host, port)

/-- What follows the colon is a number of 16 bits or nothing. -/
def isPort (port : Text) : Bool :=
  (port.drop 1).all isDigit && (port.drop 1).foldl (fun n c => 10 * n + (c.val - 48)) 0 ≤ 65535

/-- The host of an authority, as it is written there. -/
def authorityHost (lib : Library) (authority : Text) : Option Text :=
  let (host, port) := splitPort false (hostinfo authority)
  if host ≠ [] && isPort port && lib.hostParses host then some host else none

def browserHost (lib : Library) (url : Text) : Option Text :=
  (browserAuthority url).bind (authorityHost lib)


/-! ## Where a text goes on -/

section

variable {p q : CodePoint → Bool} {c : CodePoint} {s t u w : Text}

/-- What stops the search lies in the first text. -/
theorem takeWhile_append_of_stop (h : ∃ c ∈ w, p c = false) :
    (w ++ t).takeWhile p = w.takeWhile p ∧ (w ++ t).dropWhile p = w.dropWhile p ++ t := by
  induction w with
  | nil =>
    obtain ⟨c, hc, -⟩ := h
    cases hc
  | cons d w ih =>
    rw [List.cons_append]
    by_cases hd : p d = true
    · have hw : ∃ c ∈ w, p c = false := by
        obtain ⟨c, hc, hp⟩ := h
        rcases List.mem_cons.mp hc with rfl | hc
        · rw [hd] at hp
          cases hp
        · exact ⟨c, hc, hp⟩
      rw [List.takeWhile_cons_of_pos hd, List.takeWhile_cons_of_pos hd,
        List.dropWhile_cons_of_pos hd, List.dropWhile_cons_of_pos hd, (ih hw).1, (ih hw).2]
      exact ⟨rfl, rfl⟩
    · rw [List.takeWhile_cons_of_neg hd, List.takeWhile_cons_of_neg hd,
        List.dropWhile_cons_of_neg hd, List.dropWhile_cons_of_neg hd]
      exact ⟨rfl, rfl⟩

theorem takeWhile_congr (h : ∀ c ∈ t, p c = q c) :
    t.takeWhile p = t.takeWhile q ∧ t.dropWhile p = t.dropWhile q := by
  induction t with
  | nil => exact ⟨rfl, rfl⟩
  | cons d t ih =>
    obtain ⟨htake, hdrop⟩ := ih fun c hc => h c (List.mem_cons_of_mem d hc)
    rw [List.takeWhile_cons, List.takeWhile_cons, List.dropWhile_cons, List.dropWhile_cons,
      h d List.mem_cons_self, htake, hdrop]
    exact ⟨rfl, rfl⟩

theorem stop_of_mem (h : c ∈ w) : ∃ d ∈ w, decide (d ≠ c) = false :=
  ⟨c, h, decide_eq_false (not_not.mpr rfl)⟩

theorem before_append (h : c ∈ w) : before c (w ++ t) = before c w :=
  (takeWhile_append_of_stop (stop_of_mem h)).1

theorem dropWhile_ne_nil (h : c ∈ w) : w.dropWhile (· ≠ c) ≠ [] := by
  intro hnil
  have hall := List.dropWhile_eq_nil_iff.mp hnil c h
  exact of_decide_eq_true hall rfl

theorem after_append (h : c ∈ w) : after c (w ++ t) = after c w ++ t := by
  rw [after, after, (takeWhile_append_of_stop (stop_of_mem h)).2]
  obtain ⟨d, u, hu⟩ := List.exists_cons_of_ne_nil (dropWhile_ne_nil h)
  rw [hu]
  rfl

theorem before_of_notMem (h : c ∉ t) : before c t = t := by
  rw [before, List.takeWhile_eq_self_iff]
  intro d hd
  apply decide_eq_true
  rintro rfl
  exact h hd

/-- The first mark parts the text. -/
theorem before_cons_after (h : c ∉ s) :
    before c (s ++ c :: t) = s ∧ after c (s ++ c :: t) = t := by
  have hs : ∀ d ∈ s, decide (d ≠ c) = true := by
    intro d hd
    apply decide_eq_true
    rintro rfl
    exact h hd
  have hc : ¬ decide (c ≠ c) = true := by
    rw [decide_eq_true_eq]
    exact not_not.mpr rfl
  rw [before, after, List.takeWhile_append_of_pos hs, List.dropWhile_append_of_pos hs,
    List.takeWhile_cons_of_neg (p := fun d => decide (d ≠ c)) hc,
    List.dropWhile_cons_of_neg (p := fun d => decide (d ≠ c)) hc, List.append_nil]
  exact ⟨rfl, rfl⟩

theorem rtakeWhile_append (h : ∀ c ∈ u, p c = true) :
    (t ++ u).rtakeWhile p = t.rtakeWhile p ++ u := by
  have hu : ∀ c ∈ u.reverse, p c = true := fun c hc => h c (List.mem_reverse.mp hc)
  rw [List.rtakeWhile, List.reverse_append, List.takeWhile_append_of_pos hu, List.reverse_append,
    List.reverse_reverse]
  rfl

end

/-! ## The authority for both -/

/-- The network location of a URL whose end is trimmed too, before any check. -/
def trimmedNetloc (url : Text) : Text :=
  (splitNetloc (splitScheme (removeUnsafe (trim url))).2).1

/-- What a browser makes of a location: it ends at the first backslash behind the leading ones. -/
def core (netloc : Text) : Text := before (cp '\\') (netloc.dropWhile (· = cp '\\'))

section

variable {lib : Library} {c : CodePoint} {r s t u w url scheme rest : Text}

theorem isBlank_of_lt (h : 0x20 < c.val) : isBlank c = false := decide_eq_false (not_le.mpr h)

theorem notMem_of_blank (hc : isBlank c = false) (ht : ∀ d ∈ t, isBlank d = true) : c ∉ t := by
  intro hmem
  rw [ht c hmem] at hc
  cases hc

/-- Trimming at the end takes blanks away and nothing else. -/
theorem clean_eq_append (url : Text) : ∃ t, clean url = removeUnsafe (trim url) ++ t ∧
    ∀ c ∈ t, isBlank c = true := by
  refine ⟨removeUnsafe ((url.dropWhile isBlank).rtakeWhile isBlank), ?_, ?_⟩
  · rw [clean, removeUnsafe, removeUnsafe, removeUnsafe, ← List.filter_append, trim,
      List.rdropWhile_append_rtakeWhile]
  · intro c hc
    exact List.mem_rtakeWhile_imp (List.mem_of_mem_filter hc)

theorem splitScheme_append (ht : ∀ c ∈ t, isBlank c = true)
    (h : (splitScheme (w ++ t)).1 ≠ []) :
    (splitScheme w).1 = (splitScheme (w ++ t)).1 ∧
      (splitScheme (w ++ t)).2 = (splitScheme w).2 ++ t := by
  have hcolon : cp ':' ∉ t := notMem_of_blank (by decide) ht
  rw [splitScheme] at h
  split_ifs at h with hscheme
  · rw [Bool.and_eq_true, Bool.and_eq_true, decide_eq_true_eq, List.mem_append] at hscheme
    have hmem : cp ':' ∈ w := hscheme.1.2.resolve_right hcolon
    have hhead : (w ++ t).head? = w.head? := by
      cases w with
      | nil => cases hmem
      | cons d w => rfl
    rw [hhead, before_append hmem] at hscheme
    have hw : (w.head?.any isAlpha && cp ':' ∈ w && (before (cp ':') w).all schemeChar) = true := by
      rw [Bool.and_eq_true, Bool.and_eq_true, decide_eq_true_eq]
      exact ⟨⟨hscheme.1.1, hmem⟩, hscheme.2⟩
    have hwt : ((w ++ t).head?.any isAlpha && cp ':' ∈ w ++ t &&
        (before (cp ':') (w ++ t)).all schemeChar) = true := by
      rw [hhead, before_append hmem, Bool.and_eq_true, Bool.and_eq_true, decide_eq_true_eq]
      exact ⟨⟨hscheme.1.1, List.mem_append_left t hmem⟩, hscheme.2⟩
    rw [splitScheme, splitScheme, if_pos hw, if_pos hwt, before_append hmem, after_append hmem]
    exact ⟨rfl, rfl⟩
  · exact absurd rfl h

/-- Two slashes do not lie among blanks. -/
theorem slashes_of_append (ht : ∀ c ∈ t, isBlank c = true)
    (h : (w ++ t).take 2 = text "//") : ∃ r, w = cp '/' :: cp '/' :: r := by
  have hslash : cp '/' ∉ t := notMem_of_blank (by decide) ht
  have htext : text "//" = [cp '/', cp '/'] := rfl
  rw [htext] at h
  rcases w with - | ⟨d, - | ⟨e, w⟩⟩
  · rw [List.nil_append] at h
    have hmem : cp '/' ∈ t.take 2 := by
      rw [h]
      exact List.mem_cons_self
    exact absurd (List.mem_of_mem_take hmem) hslash
  · have hmem : cp '/' ∈ t.take 1 := by
      have htail : t.take 1 = [cp '/'] := (List.cons.inj h).2
      rw [htail]
      exact List.mem_cons_self
    exact absurd (List.mem_of_mem_take hmem) hslash
  · obtain ⟨hd, h⟩ := List.cons.inj h
    obtain ⟨he, -⟩ := List.cons.inj h
    exact ⟨w, by rw [hd, he]⟩

theorem splitNetloc_slashes (r : Text) : splitNetloc (cp '/' :: cp '/' :: r) =
    (r.takeWhile fun c => !isDelimiter c, r.dropWhile fun c => !isDelimiter c) :=
  if_pos rfl

theorem takeWhile_delimiter_append (ht : ∀ c ∈ t, isBlank c = true) : ∃ s,
    ((r ++ t).takeWhile fun c => !isDelimiter c) = (r.takeWhile fun c => !isDelimiter c) ++ s ∧
      ∀ c ∈ s, isBlank c = true := by
  by_cases hr : ∃ c ∈ r, (!isDelimiter c) = false
  · refine ⟨[], ?_, nofun⟩
    rw [(takeWhile_append_of_stop hr).1, List.append_nil]
  · have hall : ∀ c ∈ r, (!isDelimiter c) = true := by
      intro c hc
      by_contra hdelimiter
      exact hr ⟨c, hc, Bool.eq_false_iff.mpr hdelimiter⟩
    refine ⟨t.takeWhile fun c => !isDelimiter c, ?_, ?_⟩
    · rw [List.takeWhile_append_of_pos hall, List.takeWhile_eq_self_iff.mpr hall]
    · intro c hc
      exact ht c (List.takeWhile_subset _ hc)

/-- Blanks at the end of the URL may end the location too. -/
theorem netloc_eq_append (hscheme : (splitScheme (clean url)).1 ≠ [])
    (hslashes : (splitScheme (clean url)).2.take 2 = text "//") :
    ∃ s, (splitNetloc (splitScheme (clean url)).2).1 = trimmedNetloc url ++ s ∧
      ∀ c ∈ s, isBlank c = true := by
  obtain ⟨t, hclean, ht⟩ := clean_eq_append url
  rw [hclean] at hscheme hslashes ⊢
  obtain ⟨-, hrest⟩ := splitScheme_append ht hscheme
  rw [hrest] at hslashes ⊢
  obtain ⟨r, hr⟩ := slashes_of_append ht hslashes
  rw [trimmedNetloc, hr, List.cons_append, List.cons_append, splitNetloc_slashes,
    splitNetloc_slashes]
  exact takeWhile_delimiter_append ht

theorem takeWhile_slashes (hr : ∃ c ∈ r.takeWhile fun c => !isDelimiter c, c ≠ cp '\\') :
    ((r.dropWhile isSlash).takeWhile fun c => !(isDelimiter c || c = cp '\\')) =
      core (r.takeWhile fun c => !isDelimiter c) := by
  obtain ⟨n, hn⟩ : ∃ n, (r.takeWhile fun c => !isDelimiter c) = n := ⟨_, rfl⟩
  obtain ⟨v, hv⟩ : ∃ v, (r.dropWhile fun c => !isDelimiter c) = v := ⟨_, rfl⟩
  have hsplit : r = n ++ v := by
    rw [← hn, ← hv, List.takeWhile_append_dropWhile]
  have hnone : ∀ c ∈ n, isDelimiter c = false := by
    intro c hc
    rw [← hn] at hc
    have hnot := List.mem_takeWhile_imp hc
    rwa [Bool.not_eq_true'] at hnot
  have hend : ∀ c, v.head? = some c → isDelimiter c = true := by
    intro c hc
    have hhead := List.head?_dropWhile_not (fun c => !isDelimiter c) r
    rw [hv, hc] at hhead
    have hnot : (!isDelimiter c) = false := hhead
    rwa [Bool.not_eq_false'] at hnot
  rw [hn] at hr ⊢
  have hslash : ∀ c ∈ n, isSlash c = decide (c = cp '\\') := by
    intro c hc
    rw [isSlash]
    have hne : c ≠ cp '/' := by
      rintro rfl
      exact absurd (hnone _ hc) (by decide)
    rw [decide_eq_false hne, Bool.false_or]
  have hstop : ∃ c ∈ n, isSlash c = false := by
    obtain ⟨c, hc, hne⟩ := hr
    exact ⟨c, hc, (hslash c hc).trans (decide_eq_false hne)⟩
  rw [hsplit, (takeWhile_append_of_stop hstop).2, (takeWhile_congr hslash).2, core]
  obtain ⟨d, hd⟩ : ∃ d, n.dropWhile (· = cp '\\') = d := ⟨_, rfl⟩
  have hdn : ∀ c ∈ d, (!(isDelimiter c || decide (c = cp '\\'))) = decide (c ≠ cp '\\') := by
    intro c hc
    rw [← hd] at hc
    rw [hnone c (List.dropWhile_subset _ hc), Bool.false_or, decide_not]
  rw [hd, before, ← (takeWhile_congr hdn).1]
  by_cases hback : ∃ c ∈ d, (!(isDelimiter c || decide (c = cp '\\'))) = false
  · exact (takeWhile_append_of_stop hback).1
  · have hall : ∀ c ∈ d, (!(isDelimiter c || decide (c = cp '\\'))) = true := by
      intro c hc
      by_contra hc'
      exact hback ⟨c, hc, Bool.eq_false_iff.mpr hc'⟩
    rw [List.takeWhile_append_of_pos hall, List.takeWhile_eq_self_iff.mpr hall]
    cases v with
    | nil => rw [List.takeWhile_nil, List.append_nil]
    | cons e v =>
      rw [List.takeWhile_cons_of_neg, List.append_nil]
      rw [hend e rfl]
      exact Bool.false_ne_true

/-- Of a URL with a location that is not made of backslashes alone, the browser takes the core. -/
theorem browserAuthority_eq (hscheme : (splitScheme (clean url)).1 = text "https")
    (hslashes : (splitScheme (clean url)).2.take 2 = text "//")
    (hcore : ∃ c ∈ trimmedNetloc url, c ≠ cp '\\') :
    browserAuthority url = some (core (trimmedNetloc url)) := by
  obtain ⟨t, hclean, ht⟩ := clean_eq_append url
  have hne : (splitScheme (clean url)).1 ≠ [] := by
    rw [hscheme]
    nofun
  rw [hclean] at hscheme hslashes hne
  obtain ⟨hsame, hrest⟩ := splitScheme_append ht hne
  rw [hrest] at hslashes
  obtain ⟨r, hr⟩ := slashes_of_append ht hslashes
  rw [trimmedNetloc, hr, splitNetloc_slashes] at hcore ⊢
  rw [browserAuthority]
  dsimp only
  rw [hsame, if_pos hscheme, hr, List.dropWhile_cons_of_pos (by decide),
    List.dropWhile_cons_of_pos (by decide), takeWhile_slashes hcore]

end


/-! ## The host for both -/

section

variable {lib : Library} {c : CodePoint} {h n s t : Text} {inside : Bool}

theorem splitPort_append (inside : Bool) (t : Text) :
    (splitPort inside t).1 ++ (splitPort inside t).2 = t := by
  induction t generalizing inside with
  | nil => rfl
  | cons c t ih =>
    rw [splitPort]
    split_ifs with hcolon
    · rfl
    · exact congrArg (c :: ·) (ih _)
    · exact congrArg (c :: ·) (ih _)
    · exact congrArg (c :: ·) (ih _)

/-- The port stands behind a colon. -/
theorem head_port (inside : Bool) (t : Text) :
    (splitPort inside t).2 = [] ∨ ∃ u, (splitPort inside t).2 = cp ':' :: u := by
  induction t generalizing inside with
  | nil => exact Or.inl rfl
  | cons c t ih =>
    rw [splitPort]
    split_ifs with hcolon
    · rw [Bool.and_eq_true, decide_eq_true_eq] at hcolon
      exact Or.inr ⟨t, by rw [hcolon.1]⟩
    · exact ih _
    · exact ih _
    · exact ih _

theorem splitPort_of_notMem (ht : cp '[' ∉ t) : (splitPort false t).1 = before (cp ':') t := by
  induction t with
  | nil => rfl
  | cons c t ih =>
    rw [List.mem_cons, not_or] at ht
    by_cases hcolon : c = cp ':'
    · rw [splitPort, hcolon]
      rfl
    · have hstep : splitPort false (c :: t) =
          (c :: (splitPort false t).1, (splitPort false t).2) := by
        rw [splitPort, decide_eq_false hcolon, Bool.false_and, if_neg Bool.false_ne_true,
          if_neg (Ne.symm ht.1), ite_self]
      rw [hstep, ih ht.2, before, before,
        List.takeWhile_cons_of_pos (p := fun d => decide (d ≠ cp ':')) (decide_eq_true hcolon)]

theorem isPort_bracket (hport : isPort (cp ':' :: t) = true) : cp '[' ∉ t := by
  intro hmem
  rw [isPort, Bool.and_eq_true, List.all_eq_true] at hport
  exact absurd (hport.1 (cp '[') hmem) (by decide)

theorem hostinfo_append (hs : ∀ c ∈ s, isBlank c = true) : hostinfo (n ++ s) = hostinfo n ++ s := by
  apply rtakeWhile_append
  intro c hc
  apply decide_eq_true
  rintro rfl
  exact absurd (hs _ hc) (by decide)

theorem mem_rawHost (hc : c ∈ rawHost n) : c ∈ n := by
  have hinfo : c ∈ hostinfo n := by
    rw [rawHost] at hc
    split_ifs at hc with hopen
    · have hafter := List.takeWhile_subset _ hc
      exact List.dropWhile_subset _ (List.mem_of_mem_drop hafter)
    · exact List.takeWhile_subset _ hc
  exact List.mem_reverse.mp (List.takeWhile_subset _ (List.mem_reverse.mp hinfo))

def isAddressChar (c : CodePoint) : Bool := isHex c || c = cp ':' || c = cp '.'

/-- For a location without a backslash `urlsplit` has the host of the browser, unless it has
blanks at its end that the browser trims or it is an address. -/
theorem rawHost_cases (hs : ∀ c ∈ s, isBlank c = true) (hhost : authorityHost lib n = some h) :
    rawHost (n ++ s) = h ∨ (∃ t z, rawHost (n ++ s) = t ++ [z] ∧ isBlank z = true) ∨
      ∀ c ∈ rawHost (n ++ s), isAddressChar c = true := by
  rw [authorityHost] at hhost
  dsimp only at hhost
  split_ifs at hhost with hvalid
  obtain rfl := Option.some.inj hhost
  rw [Bool.and_eq_true, Bool.and_eq_true] at hvalid
  obtain ⟨⟨-, hport⟩, hparses⟩ := hvalid
  have hsopen : cp '[' ∉ s := notMem_of_blank (by decide) hs
  have hscolon : cp ':' ∉ s := notMem_of_blank (by decide) hs
  rw [rawHost, hostinfo_append hs]
  by_cases hopen : cp '[' ∈ hostinfo n
  · right
    right
    have hhost : cp '[' ∈ (splitPort false (hostinfo n)).1 := by
      have hmem := hopen
      rw [← splitPort_append false (hostinfo n), List.mem_append] at hmem
      refine hmem.resolve_right ?_
      rcases head_port false (hostinfo n) with hnil | ⟨u, hu⟩
      · rw [hnil]
        exact List.not_mem_nil
      · rw [hu] at hport ⊢
        intro hmem
        rcases List.mem_cons.mp hmem with heq | hmem
        · exact absurd heq (by decide)
        · exact isPort_bracket hport hmem
    obtain ⟨address, haddress, hchars⟩ := lib.hostParses_bracket _ hparses hhost
    have hclose : cp ']' ∉ address := by
      intro hmem
      rcases hchars _ hmem with hhex | heq | heq
      · exact absurd hhex (by decide)
      · exact absurd heq (by decide)
      · exact absurd heq (by decide)
    have hinfo : hostinfo n ++ s = cp '[' :: (address ++ cp ']' ::
        ((splitPort false (hostinfo n)).2 ++ s)) := by
      have hsplit := splitPort_append false (hostinfo n)
      rw [haddress] at hsplit
      calc hostinfo n ++ s
        _ = cp '[' :: (address ++ [cp ']']) ++ (splitPort false (hostinfo n)).2 ++ s := by
          rw [hsplit]
        _ = cp '[' :: (address ++ cp ']' :: ((splitPort false (hostinfo n)).2 ++ s)) := by
          simp only [List.cons_append, List.append_assoc, List.nil_append]
    have hafter : after (cp '[') (hostinfo n ++ s) =
        address ++ cp ']' :: ((splitPort false (hostinfo n)).2 ++ s) := by
      rw [hinfo]
      exact (before_cons_after (s := []) List.not_mem_nil).2
    rw [if_pos (List.mem_append_left s hopen), hafter, (before_cons_after hclose).1]
    intro c hc
    rw [isAddressChar, Bool.or_eq_true, Bool.or_eq_true, decide_eq_true_eq, decide_eq_true_eq]
    rcases hchars c hc with hhex | heq | heq
    · exact Or.inl (Or.inl hhex)
    · exact Or.inl (Or.inr heq)
    · exact Or.inr heq
  · have hnone : cp '[' ∉ hostinfo n ++ s := by
      rw [List.mem_append, not_or]
      exact ⟨hopen, hsopen⟩
    rw [if_neg hnone, splitPort_of_notMem hopen]
    by_cases hcolon : cp ':' ∈ hostinfo n
    · left
      exact before_append hcolon
    · have hwhole : cp ':' ∉ hostinfo n ++ s := by
        rw [List.mem_append, not_or]
        exact ⟨hcolon, hscolon⟩
      rw [before_of_notMem hwhole, before_of_notMem hcolon]
      rcases List.eq_nil_or_concat s with rfl | ⟨t, z, rfl⟩
      · left
        exact List.append_nil _
      · right
        left
        refine ⟨hostinfo n ++ t, z, ?_, hs z ?_⟩
        · rw [List.concat_eq_append, List.append_assoc]
        · rw [List.concat_eq_append]
          exact List.mem_append_right t List.mem_cons_self

theorem lower_nil : lib.lower [] = [] := lib.lower_ascii [] nofun

/-- Lowering twice, as `hostname` and its reader do, is lowering once. -/
theorem lower_lowerHost (t : Text) : lib.lower (lowerHost lib t) = lib.lower t := by
  rw [lowerHost]
  by_cases hpercent : cp '%' ∈ t
  · obtain ⟨d, u, hu⟩ := List.exists_cons_of_ne_nil (dropWhile_ne_nil hpercent)
    have hd : d = cp '%' := by
      have hhead := List.head?_dropWhile_not (fun c => decide (c ≠ cp '%')) t
      rw [hu] at hhead
      exact not_not.mp (of_decide_eq_false hhead)
    have ht : t = before (cp '%') t ++ cp '%' :: u := by
      rw [before, ← hd, ← hu, hd, List.takeWhile_append_dropWhile]
    have hboundary : (isBlank (cp '%') || cp '%' = cp '%' || cp '%' = cp '\\') = true := by decide
    rw [hu, hd, lib.lower_append _ _ _ hboundary, lib.lower_lower,
      ← lib.lower_append _ _ _ hboundary, ← ht]
  · have hdrop : t.dropWhile (· ≠ cp '%') = [] := by
      rw [List.dropWhile_eq_nil_iff]
      intro c hc
      apply decide_eq_true
      rintro rfl
      exact hpercent hc
    rw [hdrop, List.append_nil, before_of_notMem hpercent, lib.lower_lower]

/-- Blanks and backslashes have no case. -/
theorem lower_of_boundary (ht : ∀ c ∈ t, isBlank c = true ∨ c = cp '\\') : lib.lower t = t := by
  induction t with
  | nil => exact lower_nil
  | cons c t ih =>
    have hboundary : (isBlank c || c = cp '%' || c = cp '\\') = true := by
      rw [Bool.or_eq_true, Bool.or_eq_true, decide_eq_true_eq, decide_eq_true_eq]
      rcases ht c List.mem_cons_self with hblank | hback
      · exact Or.inl (Or.inl hblank)
      · exact Or.inr hback
    have happend := lib.lower_append [] c t hboundary
    rwa [List.nil_append, lower_nil, List.nil_append,
      ih fun d hd => ht d (List.mem_cons_of_mem c hd)] at happend

theorem lower_concat_blank {z : CodePoint} (hz : isBlank z = true) (t : Text) :
    lib.lower (t ++ [z]) = lib.lower t ++ [z] := by
  rw [lib.lower_append t z [] (by rw [hz]; rfl), lower_nil]

/-- An address has no letter behind `f`. -/
theorem notMem_lower_address (ht : ∀ c ∈ t, isAddressChar c = true) : cp 'm' ∉ lib.lower t := by
  have hrange : ∀ c ∈ t, 46 ≤ c.val ∧ c.val ≤ 58 ∨ 65 ≤ c.val ∧ c.val ≤ 70 ∨
      97 ≤ c.val ∧ c.val ≤ 102 := by
    intro c hc
    have haddress := ht c hc
    rw [isAddressChar, isHex, isDigit, between, between, between] at haddress
    simp only [Bool.or_eq_true, decide_eq_true_eq] at haddress
    have h0 : '0'.toNat = 48 := rfl
    have h9 : '9'.toNat = 57 := rfl
    have hA : 'A'.toNat = 65 := rfl
    have hF : 'F'.toNat = 70 := rfl
    have ha : 'a'.toNat = 97 := rfl
    have hf : 'f'.toNat = 102 := rfl
    rw [h0, h9, hA, hF, ha, hf] at haddress
    rcases haddress with (((hdigit | hupper) | hlower) | hcolon) | hdot
    · omega
    · omega
    · omega
    · have hval : c.val = 58 := congrArg Fin.val hcolon
      omega
    · have hval : c.val = 46 := congrArg Fin.val hdot
      omega
  rw [lib.lower_ascii t fun c hc => by have hc := hrange c hc; omega]
  intro hmem
  obtain ⟨c, hc, hlower⟩ := List.mem_map.mp hmem
  have hrange := hrange c hc
  have hval := congrArg Fin.val hlower
  have hm : (cp 'm').val = 109 := rfl
  rw [hm] at hval
  split_ifs at hval with hupper
  · rw [Fin.val_add] at hval
    have hstep : (0x20 : CodePoint).val = 32 := rfl
    rw [hstep] at hval
    omega
  · omega

end


/-! ## Quoted parts and rebuilt URLs -/

section

variable {lib : Library} {c : CodePoint} {r s t u v safe url : Text} {b parts : SplitResult}

/-- Visible ASCII characters that are slashes to nobody but as `/`. -/
def isPlain (c : CodePoint) : Bool := 0x20 < c.val ∧ c.val < 0x7f ∧ c ≠ cp '\\'

theorem hexDigit_plain {k : ℕ} (hk : k < 16) : isPlain (hexDigit k) = true := by
  have hval : ∀ m < 16, isPlain (hexDigit m) = true := by decide
  exact hval k hk

theorem alwaysSafe_plain (h : alwaysSafe c = true) : isPlain c = true := by
  rw [alwaysSafe, isAlpha, isDigit, between, between, between, Bool.or_eq_true, Bool.or_eq_true,
    Bool.or_eq_true, decide_eq_true_eq, decide_eq_true_eq, decide_eq_true_eq,
    decide_eq_true_eq] at h
  have hA : 'A'.toNat = 65 := rfl
  have hZ : 'Z'.toNat = 90 := rfl
  have ha : 'a'.toNat = 97 := rfl
  have hz : 'z'.toNat = 122 := rfl
  have h0 : '0'.toNat = 48 := rfl
  have h9 : '9'.toNat = 57 := rfl
  rw [hA, hZ, ha, hz, h0, h9] at h
  have hback : (cp '\\').val = 92 := rfl
  rcases h with ((hupper | hlower) | hdigit) | hmark
  · refine decide_eq_true ⟨by omega, by omega, ?_⟩
    rintro rfl
    omega
  · refine decide_eq_true ⟨by omega, by omega, ?_⟩
    rintro rfl
    omega
  · refine decide_eq_true ⟨by omega, by omega, ?_⟩
    rintro rfl
    omega
  · have hall : (text "_.-~").all isPlain = true := by decide
    exact List.all_eq_true.mp hall c hmark

theorem quoteByte_plain (hsafe : safe.all isPlain = true) (byte : UInt8) :
    ∀ c ∈ quoteByte safe byte, isPlain c = true := by
  intro c hc
  rw [quoteByte] at hc
  split_ifs at hc with hsafe'
  · obtain rfl := List.mem_singleton.mp hc
    rw [Bool.or_eq_true, decide_eq_true_eq] at hsafe'
    rcases hsafe' with halways | hmem
    · exact alwaysSafe_plain halways
    · exact List.all_eq_true.mp hsafe _ hmem
  · have hbyte : byte.toNat < 256 := byte.toNat_lt
    rcases List.mem_cons.mp hc with rfl | hc
    · decide
    rcases List.mem_cons.mp hc with rfl | hc
    · exact hexDigit_plain (by omega)
    · obtain rfl := List.mem_singleton.mp hc
      exact hexDigit_plain (Nat.mod_lt _ (by decide))

theorem quote_plain (hsafe : safe.all isPlain = true) (h : quote safe t = some v) :
    ∀ c ∈ v, isPlain c = true := by
  obtain ⟨bytes, -, rfl⟩ := Option.map_eq_some_iff.mp h
  intro c hc
  obtain ⟨byte, -, hc⟩ := List.mem_flatMap.mp hc
  exact quoteByte_plain hsafe byte c hc

/-- The first byte of a character is a slash for the slash alone. -/
theorem eq_slash_of_encodeChar {byte : UInt8} {bytes : List UInt8}
    (h : encodeChar c = some (byte :: bytes)) (hbyte : byte.toNat = 0x2f) : c = cp '/' := by
  have hlt := c.isLt
  rw [encodeChar] at h
  dsimp only at h
  split_ifs at h with hascii htwo hsurrogate hthree
  · obtain ⟨hb, -⟩ := List.cons.inj (Option.some.inj h)
    rw [← hb, TextEncoding.toNat_ofNat_ascii hascii] at hbyte
    exact Fin.ext hbyte
  · obtain ⟨hb, -⟩ := List.cons.inj (Option.some.inj h)
    rw [← hb, TextEncoding.toNat_lead (by omega)] at hbyte
    omega
  · obtain ⟨hb, -⟩ := List.cons.inj (Option.some.inj h)
    rw [← hb, TextEncoding.toNat_lead (by omega)] at hbyte
    omega
  · obtain ⟨hb, -⟩ := List.cons.inj (Option.some.inj h)
    rw [← hb, TextEncoding.toNat_lead (by omega)] at hbyte
    omega

theorem encodeChar_ne_nil : encodeChar c ≠ some [] := by
  intro h
  rw [encodeChar] at h
  dsimp only at h
  split_ifs at h <;> cases Option.some.inj h

theorem quote_cons (safe : Text) (c : CodePoint) (t : Text) : quote safe (c :: t) =
    (encodeChar c).bind fun bytes =>
      (quote safe t).map (bytes.flatMap (quoteByte safe) ++ ·) := by
  rw [quote, quote, TextEncoding.encodeUtf8_cons]
  rcases encodeChar c with - | bytes
  · rfl
  · rcases encodeUtf8 t with - | rest
    · rfl
    · rw [Option.bind_some, Option.map_some, Option.map_some, Option.bind_some, Option.map_some,
        Option.map_some, List.flatMap_append]

theorem head_quoteByte {byte : UInt8} (h : (quoteByte safe byte).head? = some (cp '/')) :
    byte.toNat = 0x2f := by
  rw [quoteByte] at h
  split_ifs at h with hsafe
  · have hval := congrArg Fin.val (Option.some.inj h)
    have hslash : (cp '/').val = 0x2f := rfl
    have hbyte : byte.toNat < 256 := byte.toNat_lt
    rw [hslash, Fin.val_ofNat, Nat.mod_eq_of_lt (by omega)] at hval
    exact hval
  · exact absurd (Option.some.inj h) (by decide)

theorem head_quote (h : quote safe t = some v) (hv : v.head? = some (cp '/')) :
    t.head? = some (cp '/') := by
  cases t with
  | nil =>
    obtain rfl := Option.some.inj h
    cases hv
  | cons c t =>
    rw [quote_cons] at h
    obtain ⟨bytes, hbytes, h⟩ := Option.bind_eq_some_iff.mp h
    obtain ⟨w, -, rfl⟩ := Option.map_eq_some_iff.mp h
    cases bytes with
    | nil => exact absurd hbytes encodeChar_ne_nil
    | cons byte bytes =>
      have hne : quoteByte safe byte ≠ [] := by
        rw [quoteByte]
        split_ifs <;> exact List.cons_ne_nil _ _
      rw [List.flatMap_cons, List.append_assoc, List.head?_append_of_ne_nil _ hne] at hv
      rw [eq_slash_of_encodeChar hbytes (head_quoteByte hv)]
      rfl

/-- A path with one slash in front. -/
def OnePath (v : Text) : Prop :=
  ∃ t, v = cp '/' :: t ∧ t.head? ≠ some (cp '/') ∧ ∀ c ∈ t, isPlain c = true

theorem quote_slash (hslash : cp '/' ∈ safe) (h : quote safe (cp '/' :: t) = some v) :
    ∃ w, v = cp '/' :: w ∧ quote safe t = some w := by
  rw [quote_cons] at h
  obtain ⟨bytes, hbytes, h⟩ := Option.bind_eq_some_iff.mp h
  obtain rfl : [UInt8.ofNat 0x2f] = bytes := Option.some.inj hbytes
  obtain ⟨w, hw, rfl⟩ := Option.map_eq_some_iff.mp h
  refine ⟨w, ?_, hw⟩
  have hbyte : quoteByte safe (UInt8.ofNat 0x2f) = [cp '/'] := by
    have hchar : (Fin.ofNat 0x110000 (UInt8.ofNat 0x2f).toNat : CodePoint) = cp '/' := by decide
    rw [quoteByte, hchar, decide_eq_true hslash, Bool.or_true, if_pos rfl]
  rw [List.flatMap_singleton, hbyte]
  rfl

theorem marked_plain {mark : CodePoint} (hmark : isPlain mark = true)
    (ht : ∀ c ∈ t, isPlain c = true) : ∀ c ∈ marked mark t, isPlain c = true := by
  intro c hc
  rw [marked] at hc
  split_ifs at hc with hnil
  · cases hc
  · rcases List.mem_cons.mp hc with rfl | hc
    · exact hmark
    · exact ht c hc

theorem head_marked {mark : CodePoint} (hmark : mark ≠ cp '/') :
    (marked mark t).head? ≠ some (cp '/') := by
  rw [marked]
  split_ifs with hnil
  · nofun
  · intro h
    exact hmark (Option.some.inj h)

/-- The path, query and fragment of a URL are quoted to such a path. -/
theorem onePath_quote {safeQuery safeFragment query fragment q f : Text}
    (hslash : cp '/' ∈ safe) (hsafe : safe.all isPlain = true)
    (hsafeQuery : safeQuery.all isPlain = true) (hsafeFragment : safeFragment.all isPlain = true)
    (ht : t.head? ≠ some (cp '/')) (hv : quote safe (cp '/' :: t) = some v)
    (hq : quote safeQuery query = some q) (hf : quote safeFragment fragment = some f) :
    OnePath (v ++ marked (cp '?') q ++ marked (cp '#') f) := by
  obtain ⟨w, rfl, hw⟩ := quote_slash hslash hv
  refine ⟨w ++ marked (cp '?') q ++ marked (cp '#') f, rfl, ?_, ?_⟩
  · cases w with
    | nil =>
      rw [List.nil_append]
      by_cases hmark : marked (cp '?') q = []
      · rw [hmark]
        exact head_marked (by decide)
      · rw [List.head?_append_of_ne_nil _ hmark]
        exact head_marked (by decide)
    | cons d w => exact fun h => ht (head_quote hw h)
  · intro c hc
    rcases List.mem_append.mp hc with hc | hc
    · rcases List.mem_append.mp hc with hc | hc
      · exact quote_plain hsafe hw c hc
      · exact marked_plain (by decide) (quote_plain hsafeQuery hq) c hc
    · exact marked_plain (by decide) (quote_plain hsafeFragment hf) c hc

/-- What stands before the path. -/
def origin (b : SplitResult) : Text := urlunsplit ⟨b.scheme, b.netloc, [], [], []⟩

def schemePart (scheme : Text) : Text := if scheme = [] then [] else scheme ++ [cp ':']

def netlocPart (b : SplitResult) : Text :=
  if b.netloc ≠ [] ∨ (b.scheme ≠ [] ∧ b.scheme ∈ usesNetloc) then text "//" ++ b.netloc else []

theorem urlunsplit_eq {path query fragment : Text}
    (hpath : path.take 2 ≠ text "//") (hhead : path = [] ∨ path.head? = some (cp '/')) :
    urlunsplit ⟨b.scheme, b.netloc, path, query, fragment⟩ =
      schemePart b.scheme ++ netlocPart b ++
        (path ++ marked (cp '?') query ++ marked (cp '#') fragment) := by
  have hslash : (if path ≠ [] ∧ path.head? ≠ some (cp '/') then cp '/' :: path else path) =
      path := by
    refine if_neg ?_
    rintro ⟨hne, hno⟩
    exact hhead.elim hne hno
  have hcond : (b.netloc ≠ [] ∨ (b.scheme ≠ [] ∧ b.scheme ∈ usesNetloc) ∨
      path.take 2 = text "//") ↔ (b.netloc ≠ [] ∨ (b.scheme ≠ [] ∧ b.scheme ∈ usesNetloc)) := by
    rw [or_iff_left hpath]
  rw [urlunsplit, schemePart, netlocPart]
  simp only [hslash, hcond]
  split_ifs <;> simp only [List.append_assoc, List.nil_append, List.cons_append]

theorem origin_eq (b : SplitResult) : origin b = schemePart b.scheme ++ netlocPart b := by
  rw [origin, urlunsplit_eq (b := b) (by decide) (Or.inl rfl)]
  exact List.append_nil _

/-- What `urlsplit` gives for a scheme and a location. -/
structure WellSplit (lib : Library) (b : SplitResult) : Prop where
  scheme : b.scheme = [] ∨ b.scheme.head?.any isAlpha = true
  schemeChars : ∀ c ∈ b.scheme, schemeChar c = true
  lowerScheme : asciiLower b.scheme = b.scheme
  delimiter : ∀ c ∈ b.netloc, isDelimiter c = false
  isSafe : ∀ c ∈ b.netloc, isUnsafe c = false
  brackets : bracketsOk lib b.netloc = true
  checked : checkNetloc lib b.netloc = true

theorem between_lower {c : CodePoint} (h : between 'A' 'Z' c = true) :
    between 'a' 'z' (c + 0x20) = true ∧ between 'A' 'Z' (c + 0x20) = false := by
  rw [between, decide_eq_true_eq] at h
  have hA : 'A'.toNat = 65 := rfl
  have hZ : 'Z'.toNat = 90 := rfl
  have ha : 'a'.toNat = 97 := rfl
  have hz : 'z'.toNat = 122 := rfl
  rw [hA, hZ] at h
  have hval : (c + 0x20).val = c.val + 32 := by
    rw [Fin.val_add]
    exact Nat.mod_eq_of_lt (by have hstep : (0x20 : CodePoint).val = 32 := rfl; omega)
  rw [between, between, decide_eq_true_eq, decide_eq_false_iff_not, hA, hZ, ha, hz, hval]
  omega

theorem asciiLower_asciiLower (t : Text) : asciiLower (asciiLower t) = asciiLower t := by
  rw [asciiLower, asciiLower, List.map_map]
  refine List.map_congr_left ?_
  intro c _
  dsimp only [Function.comp]
  split_ifs with hupper hagain
  · rw [(between_lower hupper).2] at hagain
    cases hagain
  · rfl
  · rfl

/-- A scheme in lower case is a scheme. -/
theorem asciiLower_scheme (ht : ∀ c ∈ t, schemeChar c = true) :
    (∀ c ∈ asciiLower t, schemeChar c = true) ∧
      (t.head?.any isAlpha = true → (asciiLower t).head?.any isAlpha = true) := by
  constructor
  · intro d hd
    obtain ⟨c, hc, rfl⟩ := List.mem_map.mp hd
    split_ifs with hupper
    · rw [schemeChar, isAlpha, (between_lower hupper).1]
      simp only [Bool.or_true, Bool.true_or]
    · exact ht c hc
  · intro hhead
    cases t with
    | nil => cases hhead
    | cons c t =>
      have hc : isAlpha c = true := hhead
      have hlower : isAlpha (if between 'A' 'Z' c then c + 0x20 else c) = true := by
        split_ifs with hupper
        · rw [isAlpha, (between_lower hupper).1, Bool.or_true]
        · exact hc
      exact hlower

theorem splitNetloc_subset (hc : c ∈ (splitNetloc t).1) : c ∈ t ∧ isDelimiter c = false := by
  rw [splitNetloc] at hc
  split_ifs at hc
  · refine ⟨List.mem_of_mem_drop (List.takeWhile_subset _ hc), ?_⟩
    have hnot := List.mem_takeWhile_imp hc
    rwa [Bool.not_eq_true'] at hnot
  · cases hc

theorem splitScheme_subset (hc : c ∈ (splitScheme t).2) : c ∈ t := by
  rw [splitScheme] at hc
  split_ifs at hc
  · exact List.dropWhile_subset _ (List.mem_of_mem_drop hc)
  · exact hc

theorem isUnsafe_of_mem_clean (hc : c ∈ clean url) : isUnsafe c = false := by
  have hnot := (List.mem_filter.mp hc).2
  rwa [Bool.not_eq_true'] at hnot

theorem urlsplit_eq_some (h : urlsplit lib url = some b) :
    b.scheme = (splitScheme (clean url)).1 ∧
      b.netloc = (splitNetloc (splitScheme (clean url)).2).1 ∧
      bracketsOk lib b.netloc = true ∧ checkNetloc lib b.netloc = true := by
  rw [urlsplit] at h
  dsimp only at h
  split_ifs at h with hchecks
  rw [Bool.and_eq_true] at hchecks
  obtain rfl := Option.some.inj h
  exact ⟨rfl, rfl, hchecks.1, hchecks.2⟩

theorem wellSplit_of_urlsplit (h : urlsplit lib url = some b) : WellSplit lib b := by
  obtain ⟨hscheme, hnetloc, hbrackets, hchecked⟩ := urlsplit_eq_some h
  have hparts : (b.scheme = [] ∨ b.scheme.head?.any isAlpha = true) ∧
      (∀ c ∈ b.scheme, schemeChar c = true) ∧ asciiLower b.scheme = b.scheme := by
    rw [hscheme, splitScheme]
    split_ifs with hvalid
    · rw [Bool.and_eq_true, Bool.and_eq_true, decide_eq_true_eq, List.all_eq_true] at hvalid
      obtain ⟨⟨hhead, hcolon⟩, hchars⟩ := hvalid
      obtain ⟨hlower, hfirst⟩ := asciiLower_scheme hchars
      refine ⟨Or.inr (hfirst ?_), hlower, asciiLower_asciiLower _⟩
      cases hclean : clean url with
      | nil =>
        rw [hclean] at hcolon
        cases hcolon
      | cons d u =>
        rw [hclean] at hhead
        have hd : isAlpha d = true := hhead
        have hne : d ≠ cp ':' := by
          rintro rfl
          exact absurd hd (by decide)
        rw [before, List.takeWhile_cons_of_pos (p := fun c => decide (c ≠ cp ':'))
          (decide_eq_true hne)]
        exact hd
    · exact ⟨Or.inl rfl, nofun, rfl⟩
  refine ⟨hparts.1, hparts.2.1, hparts.2.2, ?_, ?_, hbrackets, hchecked⟩
  · intro c hc
    rw [hnetloc] at hc
    exact (splitNetloc_subset hc).2
  · intro c hc
    rw [hnetloc] at hc
    exact isUnsafe_of_mem_clean (splitScheme_subset (splitNetloc_subset hc).1)

theorem schemeChar_safe (hc : schemeChar c = true) : isUnsafe c = false ∧ c ≠ cp ':' := by
  constructor
  · rw [Bool.eq_false_iff]
    intro hunsafe
    rw [isUnsafe, Bool.or_eq_true, Bool.or_eq_true, decide_eq_true_eq, decide_eq_true_eq,
      decide_eq_true_eq] at hunsafe
    rcases hunsafe with (rfl | rfl) | rfl
    · exact absurd hc (by decide)
    · exact absurd hc (by decide)
    · exact absurd hc (by decide)
  · rintro rfl
    exact absurd hc (by decide)

theorem isPlain_safe (hc : isPlain c = true) : isUnsafe c = false := by
  rw [Bool.eq_false_iff]
  intro hunsafe
  rw [isUnsafe, Bool.or_eq_true, Bool.or_eq_true, decide_eq_true_eq, decide_eq_true_eq,
    decide_eq_true_eq] at hunsafe
  rcases hunsafe with (rfl | rfl) | rfl
  · exact absurd hc (by decide)
  · exact absurd hc (by decide)
  · exact absurd hc (by decide)

theorem isBlank_of_isAlpha (hc : isAlpha c = true) : isBlank c = false := by
  rw [isAlpha, between, between, Bool.or_eq_true, decide_eq_true_eq, decide_eq_true_eq] at hc
  have hA : 'A'.toNat = 65 := rfl
  have ha : 'a'.toNat = 97 := rfl
  rw [hA, ha] at hc
  exact isBlank_of_lt (by omega)

/-- An origin and a path are clean. -/
theorem clean_origin (hb : WellSplit lib b) (hr : OnePath r) :
    clean (origin b ++ r) = origin b ++ r := by
  obtain ⟨t, rfl, -, ht⟩ := hr
  have hhead : ∀ c, (origin b ++ cp '/' :: t).head? = some c → isBlank c = false := by
    intro c hc
    rw [origin_eq, schemePart, netlocPart] at hc
    rcases hb.scheme with hnil | halpha
    · rw [if_pos hnil] at hc
      split_ifs at hc
      · obtain rfl := Option.some.inj hc
        decide
      · obtain rfl := Option.some.inj hc
        decide
    · cases hscheme : b.scheme with
      | nil =>
        rw [hscheme] at halpha
        cases halpha
      | cons d u =>
        rw [hscheme] at halpha hc
        rw [if_neg (List.cons_ne_nil d u)] at hc
        obtain rfl := Option.some.inj hc
        exact isBlank_of_isAlpha halpha
  have hsafe : ∀ c ∈ origin b ++ cp '/' :: t, isUnsafe c = false := by
    intro c hc
    rw [origin_eq, schemePart, netlocPart] at hc
    rcases List.mem_append.mp hc with hc | hc
    · rcases List.mem_append.mp hc with hc | hc
      · split_ifs at hc
        · cases hc
        · rcases List.mem_append.mp hc with hc | hc
          · exact (schemeChar_safe (hb.schemeChars c hc)).1
          · obtain rfl := List.mem_singleton.mp hc
            decide
      · split_ifs at hc
        · rcases List.mem_append.mp hc with hc | hc
          · have hall : (text "//").all (fun c => !isUnsafe c) = true := by decide
            have hnot := List.all_eq_true.mp hall c hc
            rwa [Bool.not_eq_true'] at hnot
          · exact hb.isSafe c hc
        · cases hc
    · rcases List.mem_cons.mp hc with rfl | hc
      · decide
      · exact isPlain_safe (ht c hc)
  have hdrop : (origin b ++ cp '/' :: t).dropWhile isBlank = origin b ++ cp '/' :: t := by
    cases hv : origin b ++ cp '/' :: t with
    | nil => rfl
    | cons d u =>
      rw [List.dropWhile_cons_of_neg]
      rw [hhead d (by rw [hv]; rfl)]
      exact Bool.false_ne_true
  rw [clean, hdrop, removeUnsafe, List.filter_eq_self]
  intro c hc
  rw [hsafe c hc]
  rfl

theorem splitScheme_slash (t : Text) : splitScheme (cp '/' :: t) = ([], cp '/' :: t) := by
  rw [splitScheme, if_neg]
  intro h
  rw [Bool.and_eq_true, Bool.and_eq_true] at h
  have hslash : isAlpha (cp '/') = true := h.1.1
  exact absurd hslash (by decide)

theorem splitScheme_schemePart (hb : WellSplit lib b) (hu : u.head? = some (cp '/')) :
    splitScheme (schemePart b.scheme ++ u) = (b.scheme, u) := by
  rw [schemePart]
  split_ifs with hnil
  · cases u with
    | nil => cases hu
    | cons d u =>
      obtain rfl := Option.some.inj hu
      rw [hnil, List.nil_append]
      exact splitScheme_slash u
  · have hcolon : cp ':' ∉ b.scheme := fun hmem =>
      (schemeChar_safe (hb.schemeChars _ hmem)).2 rfl
    obtain ⟨hbefore, hafter⟩ := before_cons_after (t := u) hcolon
    have hhead : (b.scheme ++ cp ':' :: u).head? = b.scheme.head? := by
      cases hscheme : b.scheme with
      | nil => exact absurd hscheme hnil
      | cons d s => rfl
    rw [List.append_assoc, List.singleton_append, splitScheme, if_pos, hbefore, hafter,
      hb.lowerScheme]
    rw [Bool.and_eq_true, Bool.and_eq_true, decide_eq_true_eq, hbefore, hhead,
      List.all_eq_true]
    exact ⟨⟨hb.scheme.resolve_left hnil, List.mem_append_right _ List.mem_cons_self⟩,
      hb.schemeChars⟩

theorem splitNetloc_netlocPart (hb : WellSplit lib b) (hr : OnePath r) :
    (splitNetloc (netlocPart b ++ r)).1 = b.netloc := by
  obtain ⟨t, rfl, hhead, -⟩ := hr
  rw [netlocPart]
  split_ifs with hpart
  · have hall : ∀ c ∈ b.netloc, (!isDelimiter c) = true := by
      intro c hc
      rw [hb.delimiter c hc]
      rfl
    have htext : text "//" ++ b.netloc ++ cp '/' :: t =
        cp '/' :: cp '/' :: (b.netloc ++ cp '/' :: t) := rfl
    rw [htext, splitNetloc_slashes, List.takeWhile_append_of_pos hall,
      List.takeWhile_cons_of_neg (by decide), List.append_nil]
  · have hnetloc : b.netloc = [] := by
      by_contra hne
      exact hpart (Or.inl hne)
    rw [List.nil_append, hnetloc, splitNetloc, if_neg]
    intro hslashes
    apply hhead
    have htail : t.take 1 = [cp '/'] := (List.cons.inj hslashes).2
    cases t with
    | nil => cases htail
    | cons d t => rw [(List.cons.inj htail).1]; rfl

/-- A path behind an origin leaves its scheme and location. -/
theorem urlsplit_origin (hb : WellSplit lib b) (hr : OnePath r) :
    ∃ parts, urlsplit lib (origin b ++ r) = some parts ∧ parts.scheme = b.scheme ∧
      parts.netloc = b.netloc := by
  have hhead : (netlocPart b ++ r).head? = some (cp '/') := by
    obtain ⟨t, rfl, -, -⟩ := hr
    rw [netlocPart]
    split_ifs <;> rfl
  have hscheme : splitScheme (origin b ++ r) = (b.scheme, netlocPart b ++ r) := by
    rw [origin_eq, List.append_assoc]
    exact splitScheme_schemePart hb hhead
  rw [urlsplit, clean_origin hb hr, hscheme]
  dsimp only
  rw [splitNetloc_netlocPart hb hr, hb.brackets, hb.checked, Bool.and_true, if_pos rfl]
  exact ⟨_, rfl, rfl, rfl⟩

end

end UrlText
