/-
What a line of the query log says: it is one JSON object on a line of its own,
a reader gets back every value but the query, and of the query only the hash.
-/
import Yams.QueryLog
import Mathlib.Data.List.TakeWhile

namespace Yams.QueryLog

open Json (Scalar)

/-- What a reader learns from one line. -/
structure LogEntry (F : Type) where
  ts : Text
  project : PathBuf
  q : Text
  k : Nat
  rc : Int
  hits : Nat
  gate : Bool
  explain : Bool
  minScore : Option F
  maxGap : Option F
  all : Bool

/-! The values of the fields. -/

def readNat (text : Text) : Option Nat :=
  if text ≠ [] ∧ text.all Char.isDigit then some (Nat.ofDigitChars 10 text 0) else none

def readInt : Text → Option Int
  | '-' :: digits => (readNat digits).map fun n => -(n : Int)
  | digits => (readNat digits).map fun n => (n : Int)

def asText : Scalar → Option Text
  | .str value => some value
  | .word _ => none

def asWord : Scalar → Option Text
  | .str _ => none
  | .word text => some text

def readBool (text : Text) : Option Bool :=
  if text = "true".toList then some true
  else if text = "false".toList then some false
  else none

def readOptional {F : Type} (parse : Text → Option F) (text : Text) : Option (Option F) :=
  if text = "null".toList then some none else (parse text).map some

/-- The entry that the fields of an object make up. -/
def LogEntry.ofFields {F : Type} (parse : Text → Option F) (fields : List (Text × Scalar)) :
    Option (LogEntry F) := do
  let text (name : Text) := (fields.lookup name).bind asText
  let word (name : Text) := (fields.lookup name).bind asWord
  return {
    ts := ← text "ts".toList
    project := (← text "project".toList).toBytes
    q := ← text "q".toList
    k := ← (word "k".toList).bind readNat
    rc := ← (word "rc".toList).bind readInt
    hits := ← (word "hits".toList).bind readNat
    gate := ← (word "gate".toList).bind readBool
    explain := ← (word "explain".toList).bind readBool
    minScore := ← (word "min_score".toList).bind (readOptional parse)
    maxGap := ← (word "max_gap".toList).bind (readOptional parse)
    all := ← (word "all".toList).bind readBool }

theorem readNat_ofNat (n : Nat) : readNat (Text.ofNat n) = some n := by
  unfold readNat Text.ofNat
  rw [if_pos, Nat.ofDigitChars_ten_toDigits]
  refine ⟨?_, ?_⟩
  · have hpos : 0 < (Nat.toDigits 10 n).length := Nat.length_toDigits_pos
    exact List.length_pos_iff.1 hpos
  · rw [List.all_eq_true]
    intro c hc
    exact Nat.isDigit_of_mem_toDigits (by decide) (by decide) hc

theorem head_toDigits {n : Nat} (hn : 0 < n) : (Nat.toDigits 10 n).head? ≠ some '0' := by
  induction n using Nat.strongRecOn with
  | ind n ih =>
      by_cases hsmall : n < 10
      · rw [Nat.toDigits_of_lt_base hsmall, List.head?_cons]
        intro heq
        have hzero : n.digitChar = '0' := Option.some.inj heq
        rw [Nat.digitChar_eq_zero] at hzero
        omega
      · have hle : 10 ≤ n := Nat.not_lt.1 hsmall
        rw [Nat.toDigits_of_base_le (by decide) hle, List.head?_append_of_ne_nil]
        · exact ih (n / 10) (by omega) (by omega)
        · have hpos : 0 < (Nat.toDigits 10 (n / 10)).length := Nat.length_toDigits_pos
          exact List.length_pos_iff.1 hpos

theorem isNumber_ofNat (n : Nat) : Json.isNumber (Text.ofNat n) = true := by
  have hdigit : ∀ c ∈ Text.ofNat n, c.isDigit = true := fun c hc =>
    Nat.isDigit_of_mem_toDigits (by decide) (by decide) hc
  have hnot : ∀ c ∈ Text.ofNat n, c ≠ '-' ∧ c ≠ 'e' ∧ c ≠ 'E' ∧ c ≠ '.' := by
    intro c hc
    have hc := hdigit c hc
    refine ⟨?_, ?_, ?_, ?_⟩ <;> rintro rfl <;> revert hc <;> decide
  have hne : Text.ofNat n ≠ [] := by
    have hpos : 0 < (Nat.toDigits 10 n).length := Nat.length_toDigits_pos
    exact List.length_pos_iff.1 hpos
  have hunsigned : (if (Text.ofNat n).head? = some '-' then (Text.ofNat n).tail
      else Text.ofNat n) = Text.ofNat n := by
    rw [if_neg]
    intro hhead
    exact (hnot '-' (List.mem_of_head? hhead)).1 rfl
  have hmantissa : (Text.ofNat n).takeWhile (fun c => c ≠ 'e' ∧ c ≠ 'E') =
      Text.ofNat n := by
    rw [List.takeWhile_eq_self_iff]
    intro c hc
    simpa using ⟨(hnot c hc).2.1, (hnot c hc).2.2.1⟩
  have hinteger : (Text.ofNat n).takeWhile (fun c => c ≠ '.') = Text.ofNat n := by
    rw [List.takeWhile_eq_self_iff]
    intro c hc
    simpa using (hnot c hc).2.2.2
  unfold Json.isNumber
  simp only [hunsigned, hmantissa, hinteger, List.drop_length]
  have hint : Json.isInteger (Text.ofNat n) = true := by
    unfold Json.isInteger
    simp only [Bool.and_eq_true, Bool.or_eq_true, decide_eq_true_eq, List.all_eq_true]
    refine ⟨⟨hne, hdigit⟩, ?_⟩
    rcases Nat.eq_zero_or_pos n with rfl | hpos
    · exact .inr rfl
    · exact .inl (head_toDigits hpos)
  rw [hint]
  rfl

/-! The line as an object. -/

section

variable {F : Type} (tables : CaseTables) (sha256 : Bytes → Bytes) (float : Float64 F)

/-- What the entry of a record should be. -/
def QueryLogRecord.entry (record : QueryLogRecord F) : LogEntry F where
  ts := record.timestamp
  project := record.project
  q := queryHash tables sha256 record.query
  k := record.k.toNat
  rc := record.rc.toInt
  hits := record.hits.toNat
  gate := record.gate
  explain := record.explain
  minScore := record.minScore
  maxGap := record.maxGap
  all := record.all

/-- The fields of the object that a line is. -/
def lineFields (record : QueryLogRecord F) (project : Text) : List (Text × Scalar) :=
  [("ts".toList, .str record.timestamp), ("project".toList, .str project),
    ("q".toList, .str (queryHash tables sha256 record.query)),
    ("k".toList, .word (Text.ofNat record.k.toNat)),
    ("rc".toList, .word (ofInt record.rc.toInt)),
    ("hits".toList, .word (Text.ofNat record.hits.toNat)),
    ("gate".toList, .word (boolText record.gate)),
    ("explain".toList, .word (boolText record.explain)),
    ("min_score".toList, .word (optionalNumber float record.minScore)),
    ("max_gap".toList, .word (optionalNumber float record.maxGap)),
    ("all".toList, .word (boolText record.all))]

theorem renderString_plain {text : Text}
    (h : text.all (fun c => Json.escape c = [c]) = true) :
    Json.renderString text = '"' :: text ++ ['"'] := by
  unfold Json.renderString
  rw [List.flatMap_congr (g := fun c => [c])]
  · simp
  · intro c hc
    simpa using List.all_eq_true.1 h c hc

/-- Hexadecimal digits are not escaped. -/
theorem renderString_queryHash (query : Text) :
    Json.renderString (queryHash tables sha256 query) =
      '"' :: queryHash tables sha256 query ++ ['"'] := by
  apply renderString_plain
  rw [List.all_eq_true]
  intro c hc
  obtain ⟨byte, -, hbyte⟩ := List.mem_flatMap.1 hc
  have hall : ∀ n < 16, Json.escape (Nat.digitChar n) = [Nat.digitChar n] := by decide
  have hlow := byte.toNat_lt
  simp only [Json.hexDigits, List.mem_cons, List.not_mem_nil, or_false] at hbyte
  rw [decide_eq_true_eq]
  rcases hbyte with rfl | rfl
  · exact hall _ (by omega)
  · exact hall _ (by omega)

theorem lineText_eq (record : QueryLogRecord F) (project : Text) :
    lineText tables sha256 float record project =
      '{' :: (Json.renderScalars (lineFields tables sha256 float record project) ++
        '}' :: ['\n']) := by
  have hts : Json.renderString "ts".toList = '"' :: "ts".toList ++ ['"'] :=
    renderString_plain (by decide)
  have hproject : Json.renderString "project".toList = '"' :: "project".toList ++ ['"'] :=
    renderString_plain (by decide)
  have hk : Json.renderString "k".toList = '"' :: "k".toList ++ ['"'] :=
    renderString_plain (by decide)
  have hrc : Json.renderString "rc".toList = '"' :: "rc".toList ++ ['"'] :=
    renderString_plain (by decide)
  have hhits : Json.renderString "hits".toList = '"' :: "hits".toList ++ ['"'] :=
    renderString_plain (by decide)
  have hgate : Json.renderString "gate".toList = '"' :: "gate".toList ++ ['"'] :=
    renderString_plain (by decide)
  have hexplain : Json.renderString "explain".toList = '"' :: "explain".toList ++ ['"'] :=
    renderString_plain (by decide)
  have hminscore : Json.renderString "min_score".toList = '"' :: "min_score".toList ++ ['"'] :=
    renderString_plain (by decide)
  have hmaxgap : Json.renderString "max_gap".toList = '"' :: "max_gap".toList ++ ['"'] :=
    renderString_plain (by decide)
  have hall : Json.renderString "all".toList = '"' :: "all".toList ++ ['"'] :=
    renderString_plain (by decide)
  have hq : Json.renderString "q".toList = '"' :: "q".toList ++ ['"'] :=
    renderString_plain (by decide)
  unfold lineFields lineText
  simp only [Json.renderScalars, Json.Scalar.render]
  rw [hts, hproject, hq, hk, hrc, hhits, hgate, hexplain, hminscore, hmaxgap, hall,
    renderString_queryHash]
  simp only [List.append_assoc, List.cons_append, List.nil_append]
  rfl

variable {float}

/-- The printer of finite numbers: a number of the grammar, which is parsed back. -/
structure Printed (float : Float64 F) : Prop where
  number : ∀ value, float.isFinite value = true → Json.isNumber (float.display value) = true
  parses : ∀ value, float.isFinite value = true →
    float.parse (float.display value) = some value

variable {tables sha256} {record : QueryLogRecord F} {project line : Text}

/-- What is known of a record that is accepted. -/
structure Accepted (tables : CaseTables) (sha256 : Bytes → Bytes) (float : Float64 F)
    (record : QueryLogRecord F) (line project : Text) : Prop where
  path : Text.fromUtf8 record.project = some project
  rc : record.rc.toInt ∈ [0, 1, 3]
  minScore : ∀ value ∈ record.minScore, float.isFinite value = true
  maxGap : ∀ value ∈ record.maxGap, float.isFinite value = true
  line_eq : line = lineText tables sha256 float record project
  short : line.byteLength ≤ maxRecordBytes

theorem composeLine_eq_ok (h : composeLine tables sha256 float record = .ok line) :
    ∃ project, Accepted tables sha256 float record line project := by
  have hfinite : ∀ {value : Option F},
      ¬ value.any (fun value => !float.isFinite value) = true →
        ∀ v ∈ value, float.isFinite v = true := by
    rintro (_ | w) hany v hv
    · cases hv
    · obtain rfl := Option.some.inj hv
      simpa using hany
  unfold composeLine at h
  split at h
  · cases h
  split at h
  · cases h
  next hrc =>
    split at h
    · cases h
    split at h
    · cases h
    next project hpath =>
      split at h
      · cases h
      split at h
      · cases h
      next hnumbers =>
        dsimp only at h
        split at h
        · cases h
        next hshort =>
          rw [not_or] at hrc hnumbers
          exact ⟨project, hpath, not_not.1 hrc.2, hfinite hnumbers.1, hfinite hnumbers.2,
            (Except.ok.inj h).symm, by
              rw [← Except.ok.inj h]
              exact Nat.not_lt.1 hshort⟩

theorem isWord_number {text : Text} (h : Json.isNumber text = true) :
    Json.isWord text = true := by
  simp [Json.isWord, h]

theorem isWord_boolText (value : Bool) : Json.isWord (boolText value) = true := by
  cases value <;> decide

theorem isWord_optionalNumber (hprinted : Printed float) {value : Option F}
    (hfinite : ∀ v ∈ value, float.isFinite v = true) :
    Json.isWord (optionalNumber float value) = true := by
  cases value with
  | none =>
      change Json.isWord "null".toList = true
      decide
  | some v => exact isWord_number (hprinted.number v (hfinite v rfl))

theorem ofInt_rc {rc : Int} (h : rc ∈ [0, 1, 3]) :
    ∃ n : Nat, rc = n ∧ ofInt rc = Text.ofNat n := by
  simp only [List.mem_cons, List.not_mem_nil, or_false] at h
  rcases h with rfl | rfl | rfl
  · exact ⟨0, rfl, rfl⟩
  · exact ⟨1, rfl, rfl⟩
  · exact ⟨3, rfl, rfl⟩

theorem Accepted.valid (h : Accepted tables sha256 float record line project)
    (hprinted : Printed float) :
    ∀ field ∈ lineFields tables sha256 float record project, field.2.Valid := by
  obtain ⟨n, -, hrc⟩ := ofInt_rc h.rc
  have hscore := isWord_optionalNumber hprinted h.minScore
  have hgap := isWord_optionalNumber hprinted h.maxGap
  intro field hfield
  simp only [lineFields, List.mem_cons, List.not_mem_nil, or_false] at hfield
  rcases hfield with rfl | rfl | rfl | rfl | rfl | rfl | rfl | rfl | rfl | rfl | rfl
  · trivial
  · trivial
  · trivial
  · exact isWord_number (isNumber_ofNat _)
  · change Json.isWord (ofInt record.rc.toInt) = true
    rw [hrc]
    exact isWord_number (isNumber_ofNat _)
  · exact isWord_number (isNumber_ofNat _)
  · exact isWord_boolText _
  · exact isWord_boolText _
  · exact hscore
  · exact hgap
  · exact isWord_boolText _

/-- The line is the text of one object. -/
theorem Accepted.readObject (h : Accepted tables sha256 float record line project)
    (hprinted : Printed float) :
    Json.readObject line = some (lineFields tables sha256 float record project) := by
  rw [h.line_eq, lineText_eq]
  exact Json.readObject_render (List.cons_ne_nil _ _) (h.valid hprinted) (by decide)

theorem readInt_ofNat (n : Nat) : readInt (Text.ofNat n) = some (n : Int) := by
  unfold readInt
  split
  next digits heq =>
    have hdigit : ('-' : Char).isDigit = true := by
      apply Nat.isDigit_of_mem_toDigits (b := 10) (n := n) (by decide) (by decide)
      change '-' ∈ Text.ofNat n
      rw [heq]
      exact List.mem_cons_self
    cases hdigit
  · rw [readNat_ofNat]
    rfl

theorem readBool_boolText (value : Bool) : readBool (boolText value) = some value := by
  cases value <;> decide

theorem readOptional_optionalNumber (hprinted : Printed float) {value : Option F}
    (hfinite : ∀ v ∈ value, float.isFinite v = true) :
    readOptional float.parse (optionalNumber float value) = some value := by
  cases value with
  | none => rfl
  | some v =>
      have hnumber := hprinted.number v (hfinite v rfl)
      change readOptional float.parse (float.display v) = _
      unfold readOptional
      rw [if_neg, hprinted.parses v (hfinite v rfl)]
      · rfl
      · intro hnull
        rw [hnull] at hnumber
        revert hnumber
        decide

/-- Every value but the query is read back, and of the query the hash. -/
theorem Accepted.ofFields (h : Accepted tables sha256 float record line project)
    (hprinted : Printed float) :
    LogEntry.ofFields float.parse (lineFields tables sha256 float record project) =
      some (record.entry tables sha256) := by
  obtain ⟨n, hn, hrc⟩ := ofInt_rc h.rc
  have hrcRead : readInt (ofInt record.rc.toInt) = some record.rc.toInt := by
    rw [hrc, readInt_ofNat, hn]
  have hscore := readOptional_optionalNumber hprinted h.minScore
  have hgap := readOptional_optionalNumber hprinted h.maxGap
  have hproject := Text.toBytes_of_fromUtf8 h.path
  change (do
    let k ← readNat (Text.ofNat record.k.toNat)
    let rc ← readInt (ofInt record.rc.toInt)
    let hits ← readNat (Text.ofNat record.hits.toNat)
    let gate ← readBool (boolText record.gate)
    let explain ← readBool (boolText record.explain)
    let minScore ← readOptional float.parse (optionalNumber float record.minScore)
    let maxGap ← readOptional float.parse (optionalNumber float record.maxGap)
    let all ← readBool (boolText record.all)
    return ({ ts := record.timestamp, project := project.toBytes,
              q := queryHash tables sha256 record.query, k := k, rc := rc, hits := hits,
              gate := gate, explain := explain, minScore := minScore, maxGap := maxGap,
              all := all } : LogEntry F)) = _
  rw [readNat_ofNat, readNat_ofNat, hrcRead, readBool_boolText, readBool_boolText,
    readBool_boolText, hscore, hgap, hproject]
  rfl

/-- The line ends in a newline, which is its only control character. -/
theorem Accepted.visible (h : Accepted tables sha256 float record line project)
    (hprinted : Printed float) :
    ∃ body, line = body ++ ['\n'] ∧ ∀ c ∈ body, 32 ≤ c.toNat := by
  refine ⟨'{' :: (Json.renderScalars (lineFields tables sha256 float record project) ++ ['}']),
    ?_, ?_⟩
  · rw [h.line_eq, lineText_eq]
    simp only [List.cons_append, List.append_assoc, List.nil_append]
  · intro c hc
    rcases List.mem_cons.1 hc with rfl | hc
    · decide
    rcases List.mem_append.1 hc with hfields | hclose
    · exact Json.renderScalars_visible (h.valid hprinted) c hfields
    · obtain rfl := List.mem_singleton.1 hclose
      decide

/-- What a reader of the line learns. -/
theorem composeLine_entry (hprinted : Printed float)
    (h : composeLine tables sha256 float record = .ok line) :
    (Json.readObject line).bind (LogEntry.ofFields float.parse) =
      some (record.entry tables sha256) := by
  obtain ⟨project, hacc⟩ := composeLine_eq_ok h
  rw [hacc.readObject hprinted]
  exact hacc.ofFields hprinted

/-- Only the hash of the query decides. -/
theorem composeLine_query {query line' : Text}
    (h : composeLine tables sha256 float record = .ok line)
    (h' : composeLine tables sha256 float { record with query := query } = .ok line')
    (hhash : queryHash tables sha256 query = queryHash tables sha256 record.query) :
    line' = line := by
  obtain ⟨project, hacc⟩ := composeLine_eq_ok h
  obtain ⟨project', hacc'⟩ := composeLine_eq_ok h'
  have hproject : project' = project := Option.some.inj (hacc'.path.symm.trans hacc.path)
  rw [hacc.line_eq, hacc'.line_eq, hproject]
  unfold lineText
  rw [hhash]

/-- A line is one short line of text and one object; it tells every value of its
record but the query, and of the query no more than the hash. -/
structure SelfContained (tables : CaseTables) (sha256 : Bytes → Bytes) (float : Float64 F)
    (record : QueryLogRecord F) (line : Text) : Prop where
  short : line.byteLength ≤ 65536
  oneLine : ∃ body, line = body ++ ['\n'] ∧ ∀ c ∈ body, 0x20 ≤ c.toNat
  decoded : (Json.readObject line).bind (LogEntry.ofFields float.parse) =
    some (record.entry tables sha256)
  agree : ∀ other, composeLine tables sha256 float other = .ok line →
    other.entry tables sha256 = record.entry tables sha256
  hashed : ∀ query line',
    queryHash tables sha256 query = queryHash tables sha256 record.query →
    composeLine tables sha256 float { record with query := query } = .ok line' →
      line' = line

theorem composeLine_selfContained (hprinted : Printed float)
    (h : composeLine tables sha256 float record = .ok line) :
    SelfContained tables sha256 float record line := by
  obtain ⟨project, hacc⟩ := composeLine_eq_ok h
  have hentry := composeLine_entry hprinted h
  refine ⟨hacc.short, hacc.visible hprinted, hentry, ?_, ?_⟩
  · intro other hother
    have hread := composeLine_entry hprinted hother
    exact Option.some.inj (hread.symm.trans hentry)
  · intro query line' hhash hline
    exact composeLine_query h hline hhash

end

namespace QueryLogSample

/-- Whole numbers for the binary floating-point values. -/
def float : Float64 Nat where
  parse := readNat
  display := Text.ofNat
  pythonRepr := Text.ofNat
  isFinite := fun _ => true
  inCosineRange := fun value => value ≤ 1
  isNegative := fun _ => false
  nan := 0
  negNan := 0
  infinity := 0
  negInfinity := 0

/-- The letters of ASCII. -/
def tables : CaseTables where
  lowercase := [⟨0x41, 0x5a, 1, 32⟩]
  cased := [(0x41, 0x5a), (0x61, 0x7a)]
  caseIgnorable := []
  scalars := by
    intro range hrange n hstart hstop _
    obtain rfl := List.mem_singleton.1 hrange
    have hstop : n ≤ 0x5a := hstop
    change 0 ≤ (n : Int) + 32 ∧ ((n : Int) + 32).toNat.isValidChar
    refine ⟨by omega, Or.inl ?_⟩
    omega

/-- The digest of the one letter that is asked for. -/
def sha256 (_ : Bytes) : Bytes :=
  [0xca, 0x97, 0x81, 0x12, 0xca, 0x1b, 0xbd, 0xca, 0xfa, 0xc2, 0x31, 0xb3, 0x9a, 0x23,
    0xdc, 0x4d, 0xa7, 0x86, 0xef, 0xf8, 0x14, 0x7c, 0x4e, 0x72, 0xb9, 0x80, 0x77, 0x85,
    0xaf, 0xee, 0x48, 0xbb]

def project : Text := "/work/a\"b\nc".toList

def record : QueryLogRecord Nat where
  timestamp := "2026-02-28T23:59:59.000Z".toList
  project := project.toBytes
  query := " A\n".toList
  k := 5
  rc := 3
  hits := 0
  gate := true
  explain := false
  minScore := some 1
  maxGap := none
  all := false

def line : Text :=
  "\x7b\"ts\":\"2026-02-28T23:59:59.000Z\",\"project\":\"/work/a\\\"b\\nc\",".toList ++
    "\"q\":\"ca978112ca1bbdca\",\"k\":5,\"rc\":3,\"hits\":0,\"gate\":true,".toList ++
    "\"explain\":false,\"min_score\":1,\"max_gap\":null,\"all\":false\x7d\n".toList

theorem printed : Printed float where
  number := fun value _ => isNumber_ofNat value
  parses := fun value _ => readNat_ofNat value

theorem composeLine_record : composeLine tables sha256 float record = .ok line := by
  have hpath : Text.fromUtf8 record.project = some project := Text.fromUtf8_toBytes project
  have hline : lineText tables sha256 float record project = line := by
    unfold line
    repeat rw [String.toList_ofList]
    decide +kernel
  have hshort : ¬ line.byteLength > maxRecordBytes := by
    unfold line
    repeat rw [String.toList_ofList]
    decide +kernel
  unfold composeLine
  rw [if_neg (by decide), if_neg (by decide), if_neg (by decide),
    hpath]
  dsimp only
  rw [if_neg (by decide), if_neg (by decide), hline, if_neg hshort]

theorem composeLine_selfContained_record :
    SelfContained tables sha256 float record line :=
  composeLine_selfContained printed composeLine_record

end QueryLogSample

end Yams.QueryLog
