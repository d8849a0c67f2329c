import AiSOC.CefParser

/-! # Batches of CEF lines

The lines of a request body, each a record or an error. The scanner that reads the lines has a
buffer of a fixed size; at a line that does not fit it stops, and nothing tells the caller. -/
namespace CefParser

open ByteText

def newline : UInt8 := byte '\n'

/-- The lines without their newlines; `cur` is the line that is being read. -/
def linesFrom (cur : Bytes) : Bytes → List Bytes
  | [] => if cur = [] then [] else [cur]
  | c :: rest => if c = newline then cur :: linesFrom [] rest else linesFrom (cur ++ [c]) rest

def rawLines (body : Bytes) : List Bytes := linesFrom [] body

def dropCR (line : Bytes) : Bytes :=
  if line.getLast? = some (byte '\r') then line.dropLast else line

def maxTokenSize : ℕ := 1024 * 1024

/-- A line and its newline fit into the buffer. -/
def fits (line : Bytes) : Bool := line.length < maxTokenSize

/-- The lines that the scanner returns before it stops. -/
def scanLines (body : Bytes) : List Bytes := ((rawLines body).takeWhile fits).map dropCR

/-- A line is read into a record or kept as an error, unless it is blank. -/
def readLine (batch : List (OrderedDict Bytes Bytes) × List Bytes) (token : Bytes) :
    List (OrderedDict Bytes Bytes) × List Bytes :=
  let line := trimSpace token
  if line = [] then batch
  else
    match parseCEF line with
    | none => (batch.1, batch.2 ++ [line])
    | some record => (batch.1 ++ [record], batch.2)

def parseCEFBatch (body : Bytes) : List (OrderedDict Bytes Bytes) × List Bytes :=
  (scanLines body).foldl readLine ([], [])

/-- There is something on the line besides white space. -/
def nonBlank (line : Bytes) : Bool := trimSpace (dropCR line) ≠ []

variable {cur s t line body : Bytes} {batch : List (OrderedDict Bytes Bytes) × List Bytes}

theorem linesFrom_append (h : newline ∉ s) : linesFrom cur (s ++ t) = linesFrom (cur ++ s) t := by
  induction s generalizing cur with
  | nil => rw [List.nil_append, List.append_nil]
  | cons c s ih =>
    rw [List.mem_cons, not_or] at h
    rw [List.cons_append, linesFrom, if_neg (Ne.symm h.1), ih h.2, List.append_assoc]
    rfl

/-- A line adds one record or one error if it is not blank. -/
theorem readLine_length (batch : List (OrderedDict Bytes Bytes) × List Bytes) (line : Bytes) :
    (readLine batch (dropCR line)).1.length + (readLine batch (dropCR line)).2.length =
      batch.1.length + batch.2.length + [line].countP nonBlank := by
  by_cases hline : trimSpace (dropCR line) = []
  · have hblank : nonBlank line = false := by simp [nonBlank, hline]
    rw [readLine, if_pos hline, List.countP_singleton, hblank]
    rfl
  · have hnonBlank : nonBlank line = true := by simp [nonBlank, hline]
    rw [readLine, if_neg hline, List.countP_singleton, hnonBlank]
    cases parseCEF (trimSpace (dropCR line)) with
    | none =>
      simp only [List.length_append, List.length_singleton, if_true]
      omega
    | some record =>
      simp only [List.length_append, List.length_singleton, if_true]
      omega

theorem foldl_readLine_length (lines : List Bytes)
    (batch : List (OrderedDict Bytes Bytes) × List Bytes) :
    ((lines.map dropCR).foldl readLine batch).1.length +
        ((lines.map dropCR).foldl readLine batch).2.length =
      batch.1.length + batch.2.length + lines.countP nonBlank := by
  induction lines generalizing batch with
  | nil => rfl
  | cons line lines ih =>
    have hcount : (line :: lines).countP nonBlank =
        [line].countP nonBlank + lines.countP nonBlank := by
      rw [← List.countP_append, List.singleton_append]
    rw [List.map_cons, List.foldl_cons, ih, readLine_length, hcount, Nat.add_assoc]

/-- What the scanner returned is accounted for. -/
theorem parseCEFBatch_length (body : Bytes) :
    (parseCEFBatch body).1.length + (parseCEFBatch body).2.length =
      ((rawLines body).takeWhile fits).countP nonBlank := by
  rw [parseCEFBatch, scanLines, foldl_readLine_length]
  exact Nat.zero_add _

/-- All lines that are not blank are accounted for exactly if none of them is lost: the lines
from the first one on that does not fit are blank. -/
theorem batch_accounts_iff (body : Bytes) :
    (parseCEFBatch body).1.length + (parseCEFBatch body).2.length =
        (rawLines body).countP nonBlank ↔
      ∀ line ∈ (rawLines body).dropWhile fits, nonBlank line = false := by
  have hcount : (rawLines body).countP nonBlank =
      ((rawLines body).takeWhile fits).countP nonBlank +
        ((rawLines body).dropWhile fits).countP nonBlank := by
    rw [← List.countP_append, List.takeWhile_append_dropWhile]
  rw [parseCEFBatch_length, hcount, Nat.left_eq_add, List.countP_eq_zero]
  simp only [Bool.not_eq_true]

theorem rawLines_append (h : newline ∉ line) :
    rawLines (line ++ newline :: t) = line :: rawLines t := by
  rw [rawLines, linesFrom_append h, List.nil_append, linesFrom, if_pos rfl, rawLines]

/-- After a first line that does not fit, nothing is read. -/
theorem parseCEFBatch_overlong (hnewline : newline ∉ line) (hline : fits line = false) :
    parseCEFBatch (line ++ newline :: t) = ([], []) := by
  have htake : (line :: rawLines t).takeWhile fits = [] :=
    List.takeWhile_cons_of_neg (by rw [hline]; decide)
  rw [parseCEFBatch, scanLines, rawLines_append hnewline, htake]
  rfl

def validLine : Bytes := bytes "CEF:0|V|P|1|S|n|3|src=1.1.1.1"

/-- A valid line is neither a record nor an error if the line before it is a mebibyte long. -/
theorem overlong_line_loses_batch : ¬∀ body : Bytes,
    (parseCEFBatch body).1.length + (parseCEFBatch body).2.length =
      (rawLines body).countP nonBlank := by
  intro h
  obtain ⟨line, hline⟩ : ∃ line, line = List.replicate maxTokenSize (byte 'a') := ⟨_, rfl⟩
  have hnewline : newline ∉ line := by
    intro hmem
    rw [hline] at hmem
    exact absurd (List.eq_of_mem_replicate hmem) (by decide)
  have hlong : fits line = false := by
    rw [fits, hline, List.length_replicate]
    decide
  have hvalid : rawLines validLine = [validLine] := by decide
  have hnonBlank : nonBlank validLine = true := by decide
  have hpos : 0 < [line, validLine].countP nonBlank :=
    List.countP_pos_iff.mpr ⟨validLine, by simp, hnonBlank⟩
  have hlost := h (line ++ newline :: validLine)
  rw [parseCEFBatch_overlong hnewline hlong, rawLines_append hnewline, hvalid] at hlost
  exact absurd hlost hpos.ne

end CefParser
