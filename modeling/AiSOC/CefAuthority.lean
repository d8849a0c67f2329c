import AiSOC.CefParser

/-! # The header of a CEF line in its result

Header and extension are written into one map, the extension last: a header field keeps its value
if no later pair of the extension says something else about its name. -/
namespace CefAuthority

open ByteText CefParser

/-- The parts between the bars of a line. -/
def parts (line : Bytes) : List Bytes :=
  splitUnescaped ((fromAnchor (trimSpace line)).getD []) bar

/-- The names of the header fields with what the header says. -/
def headerFields (line : Bytes) : List (Bytes × Bytes) :=
  headerNames.zip (headerValues (parts line))

def extensionPairs (line : Bytes) : List (Bytes × Bytes) :=
  parseCEFExtension (join bar ((parts line).drop 7))

variable {line : Bytes} {out : OrderedDict Bytes Bytes}

theorem parseCEF_eq_some (h : parseCEF line = some out) :
    8 ≤ (parts line).length ∧
      out = (OrderedDict.ofList (headerFields line)).setAll (extensionPairs line) := by
  rw [parseCEF] at h
  cases hanchor : fromAnchor (trimSpace line) with
  | none =>
    rw [hanchor] at h
    cases h
  | some text =>
    rw [hanchor] at h
    have hparts : parts line = splitUnescaped text bar := by rw [parts, hanchor, Option.getD_some]
    dsimp only at h
    rw [← hparts] at h
    split_ifs at h with hlength
    exact ⟨by omega, (Option.some.inj h).symm⟩

theorem map_fst_headerFields (h : 8 ≤ (parts line).length) :
    (headerFields line).map Prod.fst = headerNames := by
  apply List.map_fst_zip
  have hnames : headerNames.length = 7 := rfl
  rw [hnames, headerValues, List.length_cons, List.length_map, List.length_take, List.length_tail]
  omega

/-- A header field keeps its value if the extension is silent about its name or ends with the
same value for it. -/
theorem header_authoritative_iff (h : parseCEF line = some out) :
    (∀ field ∈ headerFields line, out.get field.1 = some field.2) ↔
      ∀ field ∈ headerFields line,
        ∀ v ∈ OrderedDict.lastValue field.1 (extensionPairs line), v = field.2 := by
  obtain ⟨hlength, rfl⟩ := parseCEF_eq_some h
  have hnodup : ((headerFields line).map Prod.fst).Nodup := by
    rw [map_fst_headerFields hlength]
    decide
  refine forall₂_congr fun field hfield => ?_
  have hheader : (OrderedDict.ofList (headerFields line)).get field.1 = some field.2 :=
    (OrderedDict.get_ofList_eq_some hnodup).mpr hfield
  rw [OrderedDict.get_setAll, hheader]
  cases OrderedDict.lastValue field.1 (extensionPairs line) with
  | none => exact iff_of_true rfl nofun
  | some v =>
    rw [Option.some_or, Option.some_inj]
    constructor
    · intro heq w hw
      exact (Option.some.inj hw) ▸ heq
    · exact fun hall => hall v rfl

def threeLine : Bytes := bytes "CEF:0|V|P|1|S|n|3|src=1.1.1.1 Severity=3"

theorem repeated_severity_agrees : ∃ out, parseCEF threeLine = some out ∧
    ∀ field ∈ headerFields threeLine, out.get field.1 = some field.2 := by
  have hsome : (parseCEF threeLine).isSome = true := by decide +kernel
  obtain ⟨out, hout⟩ := Option.isSome_iff_exists.mp hsome
  refine ⟨out, hout, (header_authoritative_iff hout).mpr ?_⟩
  have hall : (headerFields threeLine).all (fun field =>
      (OrderedDict.lastValue field.1 (extensionPairs threeLine)).all (· = field.2)) = true := by
    decide +kernel
  intro field hfield v hv
  have hfield := List.all_eq_true.mp hall field hfield
  rw [Option.mem_def.mp hv] at hfield
  exact of_decide_eq_true hfield

def maskedLine : Bytes := bytes "CEF:0|V|P|1|S|n|9|Severity=0"

/-- The header says 9, the result 0. -/
theorem extension_overwrites_severity : ¬∀ line out, parseCEF line = some out →
    ∀ field ∈ headerFields line, out.get field.1 = some field.2 := by
  intro h
  have hheader : (bytes "Severity", bytes "9") ∈ headerFields maskedLine := by decide +kernel
  have hget : (parseCEF maskedLine).map (·.get (bytes "Severity")) = some (some (bytes "0")) := by
    decide +kernel
  obtain ⟨out, hout, hzero⟩ := Option.map_eq_some_iff.mp hget
  rw [h maskedLine out hout _ hheader] at hzero
  revert hzero
  decide

end CefAuthority
