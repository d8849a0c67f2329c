import Mathlib.Data.List.DropRight
import AiSOC.ByteText
import AiSOC.OrderedDict

/-! # CEF lines

The Common Event Format: seven header fields between bars, then an extension of keys with values
that run to the next key. -/
namespace CefParser

open ByteText

def backslash : UInt8 := byte '\\'
def bar : UInt8 := byte '|'
def space : UInt8 := byte ' '
def equals : UInt8 := byte '='

/-- Splits at `sep` unless the byte before it, `prev`, is a backslash; `cur` is the part that is
being read. -/
@[grind =]
def splitFrom (sep : UInt8) (prev : UInt8) (cur : Bytes) : Bytes → List Bytes
  | [] => [cur]
  | c :: rest =>
    if c = sep ∧ prev ≠ backslash then cur :: splitFrom sep c [] rest
    else splitFrom sep c (cur ++ [c]) rest

def splitUnescaped (s : Bytes) (sep : UInt8) : List Bytes := splitFrom sep 0 [] s

def join (sep : UInt8) : List Bytes → Bytes
  | [] => []
  | [part] => part
  | part :: parts => part ++ sep :: join sep parts

@[grind =]
def unescapePipe : Bytes → Bytes
  | [] => []
  | [c] => [c]
  | c :: d :: rest =>
    if c = backslash ∧ d = bar then bar :: unescapePipe rest else c :: unescapePipe (d :: rest)

def isLetter (c : UInt8) : Bool :=
  (byte 'a' ≤ c ∧ c ≤ byte 'z') ∨ (byte 'A' ≤ c ∧ c ≤ byte 'Z')

def isCEFKeyChar (c : UInt8) : Bool :=
  isLetter c ∨ (byte '0' ≤ c ∧ c ≤ byte '9') ∨ c = byte '.' ∨ c = byte '_' ∨ c = byte '-'

/-- The text begins with a key and an equals sign. -/
def isCEFKeyStart : Bytes → Bool
  | [] => false
  | c :: rest => isLetter c ∧ (rest.dropWhile isCEFKeyChar).head? = some equals

/-- What a backslash before the byte stands for. -/
def escaped (c : UInt8) : Option UInt8 :=
  if c = equals ∨ c = backslash ∨ c = bar then some c
  else if c = byte 'n' then some (byte '\n')
  else if c = byte 'r' then some (byte '\r')
  else if c = byte 't' then some (byte '\t')
  else none

def unescapeCEF : Bytes → Bytes
  | [] => []
  | [c] => [c]
  | c :: d :: rest =>
    if c = backslash then
      match escaped d with
      | some e => e :: unescapeCEF rest
      | none => c :: unescapeCEF (d :: rest)
    else c :: unescapeCEF (d :: rest)

/-- The value up to the space before the next key, and the rest from that space on. -/
def scanValue : Bytes → Bytes × Bytes
  | [] => ([], [])
  | [c] => ([c], [])
  | c :: d :: rest =>
    if c = space ∧ isCEFKeyStart (d :: rest) then ([], c :: d :: rest)
    else if c = backslash then (c :: d :: (scanValue rest).1, (scanValue rest).2)
    else (c :: (scanValue (d :: rest)).1, (scanValue (d :: rest)).2)

/-- The keys and the texts of their values. A value ends before a key, so that the next round
finds that key; otherwise a round skips to the next space. -/
def spans : ℕ → Bytes → List (Bytes × Bytes)
  | 0, _ => []
  | fuel + 1, ext =>
    let ext := ext.dropWhile fun c => c = space ∨ c = byte '\t'
    let key := ext.takeWhile isCEFKeyChar
    match ext.dropWhile isCEFKeyChar with
    | [] => []
    | c :: rest =>
      if key ≠ [] ∧ c = equals then (key, (scanValue rest).1) :: spans fuel (scanValue rest).2
      else spans fuel ((c :: rest).dropWhile (· ≠ space))

/-- Every value but the last is trimmed of the spaces before the next key. -/
def values : List (Bytes × Bytes) → List (Bytes × Bytes)
  | [] => []
  | [span] => [(span.1, unescapeCEF span.2)]
  | span :: rest => (span.1, unescapeCEF (span.2.rdropWhile (· = space))) :: values rest

/-- The pairs in the order in which they are stored. -/
def parseCEFExtension (ext : Bytes) : List (Bytes × Bytes) := values (spans ext.length ext)

def headerNames : List Bytes :=
  [bytes "Version", bytes "DeviceVendor", bytes "DeviceProduct", bytes "DeviceVersion",
    bytes "SignatureID", bytes "Name", bytes "Severity"]

def anchor : Bytes := bytes "CEF:"

/-- The line from the anchor on, without what a relay puts before it. -/
def fromAnchor (line : Bytes) : Option Bytes := line.tails.find? (anchor.isPrefixOf ·)

/-- The version is what follows the anchor; a bar that is escaped is unescaped in the others. -/
def headerValues (parts : List Bytes) : List Bytes :=
  (parts.headD []).drop anchor.length :: (parts.tail.take 6).map unescapePipe

/-- `none` is the error of a malformed line. -/
def parseCEF (line : Bytes) : Option (OrderedDict Bytes Bytes) :=
  match fromAnchor (trimSpace line) with
  | none => none
  | some line =>
    let parts := splitUnescaped line bar
    if parts.length < 8 then none
    else
      let out := OrderedDict.ofList (headerNames.zip (headerValues parts))
      some (out.setAll (parseCEFExtension (join bar (parts.drop 7))))

end CefParser
