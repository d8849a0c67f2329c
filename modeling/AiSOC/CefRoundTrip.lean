import Mathlib.Data.List.Perm.Subperm
import AiSOC.CefExtension
import AiSOC.CefHeader

/-! # Round trips of CEF records

A record is written as a line and parsed. It comes back if its names differ, if no field of the
header has a backslash, if the version has no bar either, and if the last value ends in no white
space that the line is trimmed of; otherwise it does not. -/
namespace CefParser

open ByteText

structure Header where
  version : Bytes
  deviceVendor : Bytes
  deviceProduct : Bytes
  deviceVersion : Bytes
  signatureID : Bytes
  name : Bytes
  severity : Bytes
  deriving DecidableEq, Repr

def Header.others (h : Header) : List Bytes :=
  [h.deviceVendor, h.deviceProduct, h.deviceVersion, h.signatureID, h.name, h.severity]

def Header.fields (h : Header) : List Bytes := h.version :: h.others

/-- Keys with arbitrary values that end in no space. -/
structure Record where
  header : Header
  extension : List (Bytes × Bytes)
  isKey : ∀ pair ∈ extension, IsKey pair.1
  no_trailing_space : ∀ pair ∈ extension, pair.2.getLast? ≠ some space

def Record.fields (r : Record) : List (Bytes × Bytes) :=
  headerNames.zip r.header.fields ++ r.extension

def encodeLine (h : Header) (pairs : List (Bytes × Bytes)) : Bytes :=
  anchor ++ (encodeHeader h.fields ++ encodeExtension pairs)

def Record.encode (r : Record) : Bytes := encodeLine r.header r.extension

/-- The parser returns the fields of the header and the pairs, and nothing else. -/
def Record.RoundTrips (r : Record) : Prop :=
  ∃ out, parseCEF r.encode = some out ∧ out.entries.Perm r.fields

/-- No backslash in the header, and no bar in its version. -/
def Header.Plain (h : Header) : Prop :=
  (backslash ∉ h.version ∧ bar ∉ h.version) ∧ ∀ field ∈ h.others, backslash ∉ field

/-- A newline is escaped, so that it is not trimmed. -/
def EndsInWhiteSpace (value : Bytes) : Prop :=
  ∃ w ∈ spaces, w <:+ value ∧ w ≠ [byte '\n']

variable {h : Header} {r : Record} {pairs pairs' : List (Bytes × Bytes)} {key value s : Bytes}

theorem fields_length (h : Header) : h.fields.length = headerNames.length := rfl

theorem map_fst_fields (r : Record) :
    r.fields.map Prod.fst = headerNames ++ r.extension.map Prod.fst := by
  rw [Record.fields, List.map_append, List.map_fst_zip (fields_length r.header).ge]

theorem trimRight_escapeValue :
    trimRight (escapeValue value) = escapeValue value ↔ ¬EndsInWhiteSpace value := by
  have hmarker : ∀ w ∈ spaces, ∀ c ∈ w, ¬Marker c := fun w hw c hc => spaces_not_marker hw hc
  have hnewline : (escapeValue [byte '\n']).getLast? = some (byte 'n') := by decide
  rw [trimRight_eq_self]
  constructor
  · rintro htrim ⟨w, hw, ⟨front, rfl⟩, hne⟩
    have hself : ∀ w ∈ spaces, w ≠ [byte '\n'] → escapeValue w = w := by decide
    apply htrim w hw
    rw [escapeValue, List.flatMap_append, ← escapeValue, ← escapeValue, hself w hw hne]
    exact List.suffix_append _ _
  · rintro hends w hw ⟨front, hfront⟩
    obtain ⟨rest, hrest, hescape⟩ := escapeValue_eq_append (hmarker w hw) hfront.symm
    apply hends
    refine ⟨w, hw, ⟨rest, hrest.symm⟩, ?_⟩
    rintro rfl
    rw [hrest, escapeValue, List.flatMap_append, ← escapeValue, ← escapeValue, hescape,
      List.append_cancel_left_eq] at hfront
    exact absurd hfront (by decide)

/-- The pairs as they stand in the line after it is trimmed. -/
inductive Trimmed : List (Bytes × Bytes) → List (Bytes × Bytes) → Prop where
  | nil : Trimmed [] []
  | last (front : List (Bytes × Bytes)) (key value rest : Bytes) :
    trimRight (escapeValue value) = escapeValue rest →
    Trimmed (front ++ [(key, value)]) (front ++ [(key, rest)])

theorem Trimmed.map_fst (h : Trimmed pairs pairs') :
    pairs'.map Prod.fst = pairs.map Prod.fst := by
  cases h with
  | nil => rfl
  | last front key value rest hrest => simp

theorem Trimmed.dropLast (h : Trimmed pairs pairs') : pairs'.dropLast = pairs.dropLast := by
  cases h with
  | nil => rfl
  | last front key value rest hrest => rw [List.dropLast_concat, List.dropLast_concat]

theorem Trimmed.isKey (h : Trimmed pairs pairs') (hkeys : ∀ pair ∈ pairs, IsKey pair.1) :
    ∀ pair ∈ pairs', IsKey pair.1 := by
  intro pair hpair
  have hmem : pair.1 ∈ pairs.map Prod.fst := h.map_fst ▸ List.mem_map_of_mem hpair
  obtain ⟨other, hother, hfst⟩ := List.mem_map.mp hmem
  exact hfst ▸ hkeys other hother

/-- Nothing was trimmed if the last value ends in no white space. -/
theorem Trimmed.eq_iff (h : Trimmed pairs pairs') :
    pairs' = pairs ↔ ∀ pair ∈ pairs.getLast?, ¬EndsInWhiteSpace pair.2 := by
  cases h with
  | nil => exact ⟨fun _ => nofun, fun _ => rfl⟩
  | last front key value rest hrest =>
    rw [List.getLast?_concat, List.append_cancel_left_eq]
    constructor
    · intro heq pair hpair
      obtain rfl := Option.some.inj hpair
      rw [← trimRight_escapeValue, hrest]
      simp only [List.cons.injEq, Prod.mk.injEq, true_and, and_true] at heq
      rw [heq]
    · intro hends
      rw [trimRight_escapeValue.mpr (hends (key, value) rfl)] at hrest
      have heq := congrArg unescapeCEF hrest
      rw [unescapeCEF_escapeValue, unescapeCEF_escapeValue] at heq
      rw [← heq]

theorem Trimmed.eq_of_perm (h : Trimmed pairs pairs') (hperm : pairs'.Perm pairs) :
    pairs' = pairs := by
  cases h with
  | nil => rfl
  | last front key value rest hrest =>
    rw [List.perm_append_left_iff, List.perm_singleton] at hperm
    rw [hperm]

theorem encodeExtension_concat (front : List (Bytes × Bytes)) (key : Bytes) :
    ∃ start, ∀ value, encodeExtension (front ++ [(key, value)]) =
      start ++ equals :: escapeValue value := by
  cases front with
  | nil =>
    refine ⟨key, ?_⟩
    intro value
    simp [encodeExtension, encodeNext, encodePair]
  | cons pair front =>
    refine ⟨encodePair pair ++ encodeNext front ++ space :: key, ?_⟩
    intro value
    simp [encodeExtension, encodeNext, encodePair]

theorem trimLeft_encodeLine (h : Header) (pairs : List (Bytes × Bytes)) :
    trimLeft (encodeLine h pairs) = encodeLine h pairs := by
  have hfirst : ∀ w ∈ spaces, byte 'C' ∉ w := by decide
  exact trimLeft_cons hfirst

/-- Trimming the line trims the escaped text of its last value. -/
theorem trimSpace_encodeLine (h : Header) (pairs : List (Bytes × Bytes)) :
    ∃ pairs', trimSpace (encodeLine h pairs) = encodeLine h pairs' ∧ Trimmed pairs pairs' := by
  rw [trimSpace, trimLeft_encodeLine]
  rcases List.eq_nil_or_concat pairs with rfl | ⟨front, ⟨key, value⟩, rfl⟩
  · have hbar : ∀ w ∈ spaces, bar ∉ w := by decide
    have hline : encodeLine h [] =
        (anchor ++ encodeHeader h.fields.dropLast ++ escapeHeader h.severity) ++ bar :: [] := by
      simp [encodeLine, encodeHeader, Header.fields, Header.others, encodeExtension, encodeNext]
    refine ⟨[], ?_, .nil⟩
    rw [hline, trimRight_append_cons hbar]
    rfl
  · have hequals : ∀ w ∈ spaces, equals ∉ w := by decide
    have hmarker : ∀ w ∈ spaces, ∀ c ∈ w, ¬Marker c := fun w hw c hc => spaces_not_marker hw hc
    obtain ⟨trimmed, htrimmed, hmem⟩ := trimRight_prefix (escapeValue value)
    have hno : ∀ c ∈ trimmed, ¬Marker c := by
      intro c hc
      obtain ⟨w, hw, hcw⟩ := hmem c hc
      exact hmarker w hw c hcw
    obtain ⟨rest, -, hrest⟩ := escapeValue_eq_append hno htrimmed
    obtain ⟨start, hstart⟩ := encodeExtension_concat front key
    rw [List.concat_eq_append]
    refine ⟨front ++ [(key, rest)], ?_, .last front key value rest hrest.symm⟩
    rw [encodeLine, encodeLine, hstart, hstart, ← List.append_assoc, ← List.append_assoc,
      trimRight_append_cons hequals, ← hrest, List.append_assoc, List.append_assoc]

theorem trimSpace_encode (r : Record) :
    ∃ pairs, trimSpace r.encode = encodeLine r.header pairs ∧ Trimmed r.extension pairs :=
  trimSpace_encodeLine r.header r.extension

/-- The parts of a line. -/
def lineParts (h : Header) (s : Bytes) : List Bytes :=
  splitFrom bar (byte ':') anchor (encodeHeader h.fields ++ s)

/-- What the parser reads from a line that is trimmed. -/
theorem parseCEF_eq {line : Bytes}
    (hline : trimSpace line = anchor ++ (encodeHeader h.fields ++ s)) :
    parseCEF line = if (lineParts h s).length < 8 then none
      else some ((OrderedDict.ofList (headerNames.zip (headerValues (lineParts h s)))).setAll
        (parseCEFExtension (join bar ((lineParts h s).drop 7)))) := by
  have hanchor : fromAnchor (trimSpace line) = some (trimSpace line) := by
    rw [hline]
    rfl
  rw [parseCEF, hanchor]
  dsimp only
  rw [hline]
  rfl

theorem headerValues_cons (first : Bytes) (rest : List Bytes) :
    headerValues ((anchor ++ first) :: rest) = first :: (rest.take 6).map unescapePipe := by
  rw [headerValues, List.headD_cons, List.drop_left, List.tail_cons]

/-- The header is read as it was written if it is plain, and only then. -/
theorem headerValues_iff (h : Header) (s : Bytes) :
    headerValues (lineParts h s) = h.fields ↔ h.Plain := by
  have hcolon : byte ':' ≠ backslash := by decide
  rw [lineParts, Header.fields, Header.Plain]
  by_cases hslash : backslash ∈ h.version
  · obtain ⟨more, parts, hparts⟩ := splitFrom_first h.version h.others (byte ':') anchor s
    rw [hparts, headerValues_cons]
    constructor
    · intro heq
      exact absurd (List.cons.inj heq).1 (escapeHeader_append_ne (Or.inl hslash) more)
    · intro hplain
      exact absurd hslash hplain.1.1
  · rw [splitFrom_field hslash hcolon, headerValues_cons]
    by_cases hbar : bar ∈ h.version
    · constructor
      · intro heq
        have hversion := (List.cons.inj heq).1
        rw [← List.append_nil (escapeHeader h.version)] at hversion
        exact absurd hversion (escapeHeader_append_ne (Or.inr hbar) [])
      · intro hplain
        exact absurd hbar hplain.1.2
    · rw [escapeHeader_eq_self hslash hbar, List.cons_inj_right]
      have hothers := map_unescapePipe_iff h.others s
      rw [show h.others.length = 6 from rfl] at hothers
      rw [hothers]
      exact (and_iff_right ⟨hslash, hbar⟩).symm

/-- A plain header is split into its fields, and the extension is what follows. -/
theorem join_drop_of_plain (hplain : h.Plain) (s : Bytes) :
    8 ≤ (lineParts h s).length ∧ join bar ((lineParts h s).drop 7) = s := by
  have hcolon : byte ':' ≠ backslash := by decide
  have hparts : lineParts h s = ((anchor ++ escapeHeader h.version) ::
      h.others.map escapeHeader) ++ splitFrom bar bar [] s := by
    rw [lineParts, Header.fields, splitFrom_field hplain.1.1 hcolon, splitFrom_header hplain.2]
    rfl
  have hlength : ((anchor ++ escapeHeader h.version) :: h.others.map escapeHeader).length = 7 :=
    rfl
  have hpos := List.length_pos_iff.mpr (splitFrom_ne_nil bar [] s)
  constructor
  · rw [hparts, List.length_append, hlength]
    omega
  · rw [hparts, List.drop_left' hlength, join_splitFrom, List.nil_append]

/-- No name twice, a plain header, and no white space at the end of the last value. -/
structure Record.Readable (r : Record) : Prop where
  nodup : (r.fields.map Prod.fst).Nodup
  plain : r.header.Plain
  last : ∀ pair ∈ r.extension.getLast?, ¬EndsInWhiteSpace pair.2

theorem nodup_headerNames : headerNames.Nodup := by decide

/-- A plain line gives the fields of the header and the pairs as they were trimmed. -/
theorem parseCEF_of_plain (hnodup : (r.fields.map Prod.fst).Nodup) (hplain : r.header.Plain)
    (hline : trimSpace r.encode = encodeLine r.header pairs) (htrim : Trimmed r.extension pairs) :
    ∃ out, parseCEF r.encode = some out ∧
      out.entries = headerNames.zip r.header.fields ++ pairs := by
  obtain ⟨hlength, hjoin⟩ := join_drop_of_plain hplain (encodeExtension pairs)
  have hvalues : ∀ pair ∈ pairs.dropLast, pair.2.getLast? ≠ some space := by
    intro pair hpair
    rw [htrim.dropLast] at hpair
    exact r.no_trailing_space pair (List.mem_of_mem_dropLast hpair)
  have hzip : (headerNames.zip r.header.fields).map Prod.fst = headerNames :=
    List.map_fst_zip (fields_length r.header).ge
  have hheader : (OrderedDict.ofList (headerNames.zip r.header.fields)).entries =
      headerNames.zip r.header.fields := by
    rw [OrderedDict.ofList, OrderedDict.entries_setAll_of_nodup]
    · rfl
    · rw [hzip]
      exact nodup_headerNames
  refine ⟨(OrderedDict.ofList (headerNames.zip r.header.fields)).setAll pairs, ?_, ?_⟩
  · rw [parseCEF_eq hline, if_neg (Nat.not_lt.mpr hlength), hjoin,
      (headerValues_iff r.header _).mpr hplain,
      parseCEFExtension_encode (htrim.isKey r.isKey) hvalues]
  · rw [OrderedDict.entries_setAll_of_nodup, hheader]
    rw [OrderedDict.keys, hheader, hzip, htrim.map_fst, ← map_fst_fields]
    exact hnodup

theorem zip_injective {α β : Type*} {names : List α} {xs ys : List β} (hnames : names.Nodup)
    (hxs : xs.length = names.length) (hys : ys.length = names.length)
    (h : ∀ e ∈ names.zip xs, e ∈ names.zip ys) : xs = ys := by
  induction names generalizing xs ys with
  | nil =>
    rw [List.length_eq_zero_iff.mp hxs, List.length_eq_zero_iff.mp hys]
  | cons name names ih =>
    obtain ⟨hname, hrest⟩ := List.nodup_cons.mp hnames
    obtain ⟨x, xs, rfl⟩ := List.exists_cons_of_length_eq_add_one hxs
    obtain ⟨y, ys, rfl⟩ := List.exists_cons_of_length_eq_add_one hys
    rw [List.zip_cons_cons, List.zip_cons_cons, List.forall_mem_cons] at h
    obtain ⟨hx, hxs'⟩ := h
    have hfirst : x = y := by
      rcases List.mem_cons.mp hx with heq | hmem
      · exact congrArg Prod.snd heq
      · exact absurd (List.of_mem_zip hmem).1 hname
    rw [hfirst, ih hrest (Nat.succ.inj hxs) (Nat.succ.inj hys)]
    intro e he
    rcases List.mem_cons.mp (hxs' e he) with rfl | hmem
    · exact absurd (List.of_mem_zip he).1 hname
    · exact hmem

/-- If all fields come back, the keys that were found are none of the header. -/
theorem notMem_headerNames {out header : OrderedDict Bytes Bytes} (hout : out = header.setAll pairs)
    (hheader : ∀ k ∈ header.keys, k ∈ headerNames) (hperm : out.entries.Perm r.fields)
    (hlength : pairs.length ≤ r.extension.length) :
    ∀ name ∈ headerNames, name ∉ pairs.map Prod.fst := by
  intro name hname hmem
  have hsubset : out.keys ⊆ headerNames ++ (pairs.map Prod.fst).erase name := by
    intro k hk
    rw [hout] at hk
    rw [List.mem_append]
    rcases OrderedDict.mem_keys_setAll hk with hk | hk
    · exact Or.inl (hheader k hk)
    · by_cases heq : k = name
      · exact Or.inl (heq ▸ hname)
      · exact Or.inr ((List.mem_erase_of_ne heq).mpr hk)
  have hle : out.keys.length ≤ _ := (List.Nodup.subperm out.nodup hsubset).length_le
  have hpos := List.length_pos_of_mem hmem
  have hkeys : out.keys.length = headerNames.length + r.extension.length := by
    rw [OrderedDict.keys, (hperm.map Prod.fst).length_eq, map_fst_fields, List.length_append,
      List.length_map]
  rw [hkeys, List.length_append, List.length_erase_of_mem hmem, List.length_map] at hle
  rw [List.length_map] at hpos
  omega

/-- If all fields come back, the header was plain. -/
theorem plain_of_perm {out : OrderedDict Bytes Bytes} (hout : parseCEF r.encode = some out)
    (hperm : out.entries.Perm r.fields) : r.header.Plain := by
  obtain ⟨pairs, hline, htrim⟩ := trimSpace_encode r
  rw [parseCEF_eq hline] at hout
  split_ifs at hout with hparts
  obtain ⟨parts, hpartsEq⟩ : ∃ parts, parts = lineParts r.header (encodeExtension pairs) :=
    ⟨_, rfl⟩
  rw [← hpartsEq] at hout hparts
  have hvaluesLength : (headerValues parts).length = headerNames.length := by
    rw [headerValues, List.length_cons, List.length_map, List.length_take, List.length_tail,
      Nat.min_eq_left (by omega)]
    rfl
  have hzip : (headerNames.zip (headerValues parts)).map Prod.fst = headerNames :=
    List.map_fst_zip hvaluesLength.ge
  have hnodupZip : ((headerNames.zip (headerValues parts)).map Prod.fst).Nodup := by
    rw [hzip]
    exact nodup_headerNames
  have htail : join bar (parts.drop 7) <:+ encodeExtension pairs := by
    rw [hpartsEq]
    exact join_drop_header (fields_length r.header).le (Nat.succ_pos 6) (byte ':') anchor _
  have hlength := length_parseCEFExtension_le (htrim.isKey r.isKey) htail
  have hlengths : pairs.length = r.extension.length := by
    have := congrArg List.length htrim.map_fst
    rwa [List.length_map, List.length_map] at this
  have hheaderKeys : ∀ k ∈ (OrderedDict.ofList (headerNames.zip (headerValues parts))).keys,
      k ∈ headerNames := by
    intro k hk
    rcases OrderedDict.mem_keys_setAll hk with hk | hk
    · cases hk
    · exact hzip ▸ hk
  have hnames :=
    notMem_headerNames (Option.some.inj hout).symm hheaderKeys hperm (hlengths ▸ hlength)
  have hfieldsNodup : (headerNames ++ r.extension.map Prod.fst).Nodup := by
    rw [← map_fst_fields]
    exact (hperm.map Prod.fst).nodup_iff.mp out.nodup
  rw [← headerValues_iff r.header (encodeExtension pairs), ← hpartsEq]
  apply zip_injective nodup_headerNames hvaluesLength (fields_length r.header)
  rintro ⟨name, value⟩ hmem
  have hname : name ∈ headerNames := (List.of_mem_zip hmem).1
  have hget : out.get name = some value := by
    rw [← Option.some.inj hout, OrderedDict.get_setAll_of_notMem (hnames name hname),
      OrderedDict.get_ofList_eq_some hnodupZip]
    exact hmem
  have hfields := hperm.mem_iff.mp (OrderedDict.get_eq_some.mp hget)
  rcases List.mem_append.mp hfields with hheader | hextension
  · exact hheader
  · have hkey : name ∈ r.extension.map Prod.fst := List.mem_map_of_mem hextension
    exact absurd rfl ((List.nodup_append.mp hfieldsNodup).2.2 name hname name hkey)

/-- A record comes back exactly if it is readable. -/
theorem roundTrips_iff (r : Record) : r.RoundTrips ↔ r.Readable := by
  obtain ⟨pairs, hline, htrim⟩ := trimSpace_encode r
  constructor
  · rintro ⟨out, hout, hperm⟩
    have hplain := plain_of_perm hout hperm
    have hnodup : (r.fields.map Prod.fst).Nodup := (hperm.map Prod.fst).nodup_iff.mp out.nodup
    refine ⟨hnodup, hplain, ?_⟩
    obtain ⟨out', hout', hentries⟩ := parseCEF_of_plain hnodup hplain hline htrim
    obtain rfl := Option.some.inj (hout.symm.trans hout')
    rw [hentries, Record.fields, List.perm_append_left_iff] at hperm
    exact htrim.eq_iff.mp (htrim.eq_of_perm hperm)
  · rintro ⟨hnodup, hplain, hlast⟩
    obtain ⟨out, hout, hentries⟩ := parseCEF_of_plain hnodup hplain hline htrim
    refine ⟨out, hout, ?_⟩
    rw [hentries, Record.fields, htrim.eq_iff.mpr hlast]

/-- A file name in the name of an event. -/
def fileEvent : Record where
  header := ⟨bytes "0", bytes "Vendor", bytes "Prod", bytes "1.0", bytes "100",
    bytes "C:\\temp", bytes "3"⟩
  extension := [(bytes "src", bytes "10.0.0.1")]
  isKey := by decide
  no_trailing_space := by decide

/-- The backslash of the name comes back doubled. -/
theorem backslash_is_lost : ¬∀ r : Record, r.RoundTrips := by
  intro h
  obtain ⟨out, hout, hperm⟩ := h fileEvent
  have hplain := plain_of_perm hout hperm
  have hmem : backslash ∈ fileEvent.header.name := by decide
  exact hplain.2 fileEvent.header.name (by decide) hmem

end CefParser
