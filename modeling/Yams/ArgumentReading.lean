/-
What a command line says: as its caller wrote it, with argparse's spellings, and
as the option parser takes it after `normalize_arguments`. The two readings are
the same once the placeholders of the words are written back.
-/
import Yams.Occurrence
import Yams.Placeholders

namespace Yams

open NormalizedArguments

namespace ArgumentReading

/-- What is read off a command line, in its order. -/
inductive Item
  | flag (name : Text)
  | option (name : Text) (value : OsString)
  /-- An option whose value is not there: nothing after it is read. -/
  | missing (name : Text)
  | unknown (argument : OsString)
  | word (argument : OsString)
  deriving DecidableEq

/-- What one argument is by itself. -/
inductive Part
  | bare (name : Text)
  | attached (name : Text) (value : OsString)
  | unknown
  | word
  deriving DecidableEq

/-- An option, alone or with its value attached. -/
def Part.IsOption : Part → Prop
  | .bare _ | .attached _ _ => True
  | .unknown | .word => False

/-- The options that take a value. -/
def takesValue (name : Text) : Bool :=
  name ∈ ["-k".toList, "--project".toList, "--min-score".toList,
    "--max-gap".toList]

/-- A command line read with the given classification of its arguments, and of
what can be the separated value of an option. -/
def read (part : OsString → Part) (isValue : OsString → Bool) :
    List OsString → List Item
  | [] => []
  | argument :: rest =>
      if argument = .utf8 "--".toList then rest.map .word
      else match part argument with
        | .word => .word argument :: read part isValue rest
        | .unknown => .unknown argument :: read part isValue rest
        | .attached name value => .option name value :: read part isValue rest
        | .bare name =>
            if takesValue name then match rest with
              | [] => [.missing name]
              | value :: rest =>
                  if isValue value then
                    .option name value :: read part isValue rest
                  else [.missing name]
            else .flag name :: read part isValue rest

/-- The value of `-k` that is written right after it, with or without a `=`. -/
def shortPart (text : Text) : Part :=
  match text.drop 2 with
  | [] => .bare "-k".toList
  | '=' :: value => .attached "-k".toList (.utf8 value)
  | value => .attached "-k".toList (.utf8 value)

/-- A long option whose name stands for `resolved`. -/
def longPart (text : Text) (resolve : Text → Option Text) : Part :=
  match Text.splitOnce '=' text with
  | none => match resolve text with
      | some name => .bare name
      | none => .unknown
  | some (name, value) => match resolve name with
      | some name => .attached name (.utf8 value)
      | none => .unknown

/-- An argument that is not UTF-8. The parser knows options by their bytes, and
nothing in front of it changes such an argument. -/
def otherPart (bytes : Bytes) : Part :=
  if (Text.toBytes "--".toList).isPrefixOf bytes then
    match splitOnceAt (Text.toBytes "=".toList) bytes with
    | none => .unknown
    | some (name, value) =>
        match (Text.fromUtf8 name).filter fun name => name ∈ longOptions with
        | some name => .attached name (.other value)
        | none => .unknown
  else if (Text.toBytes "-k".toList).isPrefixOf bytes then
    match bytes.drop 2 with
    -- the value may follow a `=`
    | 61 :: value => .attached "-k".toList (.other value)
    | value => .attached "-k".toList (.other value)
  else if (Text.toBytes "-h".toList).isPrefixOf bytes then .bare "--help".toList
  else if (Text.toBytes "-".toList).isPrefixOf bytes then .unknown
  else .word

/-- A long option or the only one that it abbreviates. -/
def abbreviated (name : Text) : Option Text :=
  if name ∈ longOptions then some name
  else match longOptions.filter fun option => name.isPrefixOf option with
    | [resolved] => some resolved
    | _ => none

variable (isDecimalNumber : Char → Bool)

/-- A text as its caller means it: argparse takes `-1` and `-a b` for words and
every unambiguous abbreviation of a long option for the option. -/
def writtenText (text : Text) : Part :=
  if "--".toList.isPrefixOf text then longPart text abbreviated
  else if "-k".toList.isPrefixOf text then shortPart text
  else if "-h".toList.isPrefixOf text then .bare "--help".toList
  else if isArgparseOptionLooking isDecimalNumber text then .unknown
  else if text = "index".toList then .bare "--index".toList
  else .word

def writtenPart : OsString → Part
  | .utf8 text => writtenText isDecimalNumber text
  | .other bytes => otherPart bytes

/-- The command line as its caller wrote it. A separated value is anything but
an argument that looks like an option to argparse. -/
def written : List OsString → List Item :=
  read (writtenPart isDecimalNumber) fun value =>
    ¬ value.toStr.any (isArgparseOptionLooking isDecimalNumber)

/-- The parser's own idea of an option: a leading dash, except in `-`. -/
def isDashed : OsString → Bool
  | .utf8 text => "-".toList.isPrefixOf text ∧ text ≠ "-".toList
  | .other bytes => (Text.toBytes "-".toList).isPrefixOf bytes

/-- A text as the option parser is documented to take it: no abbreviation, and
whatever starts with a dash is an option. -/
def givenText (text : Text) : Part :=
  if "--".toList.isPrefixOf text then
    longPart text fun name => if name ∈ longOptions then some name else none
  else if "-k".toList.isPrefixOf text then shortPart text
  else if "-h".toList.isPrefixOf text then .bare "--help".toList
  else if isDashed (.utf8 text) then .unknown
  else .word

def givenPart : OsString → Part
  | .utf8 text => givenText text
  | .other bytes => otherPart bytes

/-- The command line as the option parser takes it. -/
def given : List OsString → List Item :=
  read givenPart fun value => ¬ isDashed value

/-- Write a word back. -/
def restore (rewrites : TextMap) : Item → Item
  | .word (.utf8 text) => .word (.utf8 ((rewrites.lookup text).getD text))
  | item => item

section Read

variable {part : OsString → Part} {isValue : OsString → Bool}
  {argument value : OsString} {name : Text} {rest : List OsString}

attribute [local simp] read

theorem read_separator :
    read part isValue (.utf8 "--".toList :: rest) = rest.map .word := by
  rw [read, if_pos rfl]

theorem read_word (hargument : argument ≠ .utf8 "--".toList)
    (hpart : part argument = .word) :
    read part isValue (argument :: rest) =
      .word argument :: read part isValue rest := by
  rw [read, if_neg hargument, hpart]

theorem read_unknown (hargument : argument ≠ .utf8 "--".toList)
    (hpart : part argument = .unknown) :
    read part isValue (argument :: rest) =
      .unknown argument :: read part isValue rest := by
  rw [read, if_neg hargument, hpart]

theorem read_attached (hargument : argument ≠ .utf8 "--".toList)
    (hpart : part argument = .attached name value) :
    read part isValue (argument :: rest) =
      .option name value :: read part isValue rest := by
  rw [read, if_neg hargument, hpart]

theorem read_flag (hargument : argument ≠ .utf8 "--".toList)
    (hpart : part argument = .bare name) (hname : takesValue name = false) :
    read part isValue (argument :: rest) =
      .flag name :: read part isValue rest := by
  rw [read, if_neg hargument, hpart]
  exact if_neg (ne_true_of_eq_false hname)

theorem read_separated (hargument : argument ≠ .utf8 "--".toList)
    (hpart : part argument = .bare name) (hname : takesValue name = true)
    (hvalue : isValue value = true) :
    read part isValue (argument :: value :: rest) =
      .option name value :: read part isValue rest := by
  rw [read, if_neg hargument, hpart]
  simp only [hname, hvalue, if_true]

theorem read_missing (hargument : argument ≠ .utf8 "--".toList)
    (hpart : part argument = .bare name) (hname : takesValue name = true)
    (hvalue : ∀ value ∈ rest.head?, isValue value = false) :
    read part isValue (argument :: rest) = [.missing name] := by
  rw [read, if_neg hargument, hpart]
  cases rest with
  | nil => simp only [hname, if_true]
  | cons value rest =>
      have hnot := hvalue value rfl
      simp only [hname, hnot, if_true, Bool.false_eq_true, if_false]

/-- What an argument that is not UTF-8 is by itself. -/
def otherItem (bytes : Bytes) : Item :=
  match otherPart bytes with
  | .bare name => .flag name
  | .attached name value => .option name value
  | .unknown => .unknown (.other bytes)
  | .word => .word (.other bytes)

theorem otherPart_bare {bytes : Bytes} (h : otherPart bytes = .bare name) :
    takesValue name = false := by
  rw [otherPart] at h
  split at h
  · split at h
    · cases h
    · split at h
      · cases h
      · cases h
  · split at h
    · split at h
      · cases h
      · cases h
    · split at h
      · cases h
        decide
      · split at h
        · cases h
        · cases h

theorem read_other {bytes : Bytes} (hpart : part (.other bytes) = otherPart bytes) :
    read part isValue (.other bytes :: rest) =
      otherItem bytes :: read part isValue rest := by
  have hne : OsString.other bytes ≠ .utf8 "--".toList := nofun
  rcases hother : otherPart bytes with name | ⟨name, value⟩ | _ | _
  · rw [otherItem, hother, read_flag hne (hpart.trans hother) (otherPart_bare hother)]
  · rw [otherItem, hother, read_attached hne (hpart.trans hother)]
  · rw [otherItem, hother, read_unknown hne (hpart.trans hother)]
  · rw [otherItem, hother, read_word hne (hpart.trans hother)]

theorem restore_otherItem (rewrites : TextMap) (bytes : Bytes) :
    restore rewrites (otherItem bytes) = otherItem bytes := by
  rw [otherItem]
  split <;> rfl

end Read

/-! What the parser makes of the canonical spellings. -/

section Spelling

variable {text canonical name : Text}

theorem not_separator (h : text ≠ "--".toList) :
    OsString.utf8 text ≠ .utf8 "--".toList :=
  fun heq => h (OsString.utf8.inj heq)

theorem ne_separator (h : "-".toList.isPrefixOf text = false) :
    text ≠ "--".toList := by
  intro heq
  rw [heq] at h
  cases h

theorem givenText_of_not_dash (h : "-".toList.isPrefixOf text = false) :
    givenText text = .word := by
  cases text with
  | nil => rfl
  | cons c rest =>
      have hc : ('-' == c) = false := by
        simpa [List.isPrefixOf] using h
      simp [givenText, isDashed, List.isPrefixOf, hc]

theorem longOption_form (h : name ∈ longOptions) :
    "--".toList <+: name ∧ '=' ∉ name ∧ name ≠ "--".toList := by
  have hall : ∀ name ∈ longOptions,
      "--".toList <+: name ∧ '=' ∉ name ∧ name ≠ "--".toList := by decide
  exact hall name h

theorem givenText_long (h : name ∈ longOptions) : givenText name = .bare name := by
  obtain ⟨hdashes, hclean, -⟩ := longOption_form h
  rw [givenText, if_pos (List.isPrefixOf_iff_prefix.2 hdashes), longPart,
    Text.splitOnce_of_not_mem hclean]
  simp only [h, if_true]

theorem givenText_long_attached (h : name ∈ longOptions) (value : Text) :
    givenText (name ++ '=' :: value) = .attached name (.utf8 value) := by
  obtain ⟨hdashes, hclean, -⟩ := longOption_form h
  have hlong : "--".toList.isPrefixOf (name ++ '=' :: value) = true :=
    List.isPrefixOf_iff_prefix.2 (hdashes.trans (List.prefix_append _ _))
  rw [givenText, if_pos hlong, longPart, Text.splitOnce_append hclean]
  simp only [h, if_true]

theorem attached_ne_separator (name value : Text) :
    name ++ '=' :: value ≠ "--".toList := by
  intro heq
  have hmem : '=' ∈ "--".toList := heq ▸ List.mem_append_right _ List.mem_cons_self
  revert hmem
  decide

theorem abbreviated_mem {resolved : Text}
    (h : abbreviated name = some resolved) : resolved ∈ longOptions := by
  rw [abbreviated] at h
  split at h
  · rename_i hname
    cases h
    exact hname
  · split at h
    · rename_i hfilter
      cases h
      exact List.mem_of_mem_filter (hfilter ▸ List.mem_cons_self)
    · cases h

/-- The name that is resolved is the option or what it abbreviates. -/
theorem abbreviated_of_canonical {withValue : Text → Spelling}
    {ambiguous : List Text → Text}
    (h : (if name ∈ longOptions then withValue name
      else match longOptions.filter fun option => name.isPrefixOf option with
        | [] => .unknown
        | [resolved] => withValue resolved
        | several => .ambiguous (ambiguous several)) = .canonical canonical) :
    ∃ resolved, abbreviated name = some resolved ∧
      withValue resolved = .canonical canonical := by
  rw [abbreviated]
  split at h
  · rename_i hmem
    exact ⟨name, if_pos hmem, h⟩
  · rename_i hmem
    rw [if_neg hmem]
    split at h
    · cases h
    · rename_i resolved hfilter
      exact ⟨resolved, by rw [hfilter], h⟩
    · cases h

/-- The canonical spelling of a long option is read as the caller's. -/
theorem spellLong_canonical (h : spellLong text = .canonical canonical) :
    givenText canonical = longPart text abbreviated ∧
      canonical ≠ "--".toList ∧ (longPart text abbreviated).IsOption := by
  rw [spellLong] at h
  rw [longPart]
  rcases hsplit : Text.splitOnce '=' text with _ | ⟨name, value⟩
  · rw [hsplit] at h
    obtain ⟨resolved, hname, hcanonical⟩ := abbreviated_of_canonical h
    cases hcanonical
    have hmem := abbreviated_mem hname
    simp only [hname]
    exact ⟨givenText_long hmem, (longOption_form hmem).2.2, trivial⟩
  · rw [hsplit] at h
    obtain ⟨resolved, hname, hcanonical⟩ := abbreviated_of_canonical h
    cases hcanonical
    have hmem := abbreviated_mem hname
    simp only [hname]
    exact ⟨givenText_long_attached hmem value,
      attached_ne_separator resolved value, trivial⟩

theorem spellLong_ne_positional (text : Text) : spellLong text ≠ .positional := by
  have hresolve {name : Text} {withValue : Text → Spelling}
      {ambiguous : List Text → Text}
      (hvalue : ∀ resolved, withValue resolved ≠ .positional) :
      (if name ∈ longOptions then withValue name
        else match longOptions.filter fun option => name.isPrefixOf option with
          | [] => .unknown
          | [resolved] => withValue resolved
          | several => .ambiguous (ambiguous several)) ≠ .positional := by
    split
    · exact hvalue name
    · split
      · exact nofun
      · exact hvalue _
      · exact nofun
  rw [spellLong]
  rcases Text.splitOnce '=' text with _ | ⟨name, value⟩
  · exact hresolve nofun
  · exact hresolve nofun

variable {isDecimalNumber : Char → Bool}

/-- Which texts are not options to argparse. -/
theorem isArgparseOptionLooking_eq_false
    (h : isArgparseOptionLooking isDecimalNumber text = false) :
    text = "-".toList ∨ "-".toList.isPrefixOf text = false ∨
      (' ' ∈ text ∨ isPythonNegativeNumber isDecimalNumber text = true) := by
  by_contra hnot
  simp only [not_or] at hnot
  obtain ⟨hdash, hstart, hspace, hnumber⟩ := hnot
  rw [isArgparseOptionLooking, decide_eq_false_iff_not] at h
  exact h ⟨hdash, Bool.not_eq_false _ ▸ hstart, Or.inr (Or.inr ⟨hspace, hnumber⟩)⟩

/-- The canonical spelling of an argument is to the parser what the argument is
to its caller, and what is not an option is put out as it is. -/
theorem spell_canonical (htext : text ≠ "--".toList)
    (hhelp : ¬ "-h".toList.isPrefixOf text = true)
    (h : spell isDecimalNumber text = .canonical canonical) :
    givenText canonical = writtenText isDecimalNumber text ∧
      canonical ≠ "--".toList ∧
      (canonical = text ∨ (writtenText isDecimalNumber text).IsOption) := by
  rw [spell] at h
  rw [writtenText]
  split at h
  · rename_i hlong
    obtain ⟨hpart, hne, hoption⟩ := spellLong_canonical h
    rw [if_pos hlong]
    exact ⟨hpart, hne, Or.inr hoption⟩
  · rename_i hlong
    rw [if_neg hlong]
    split at h
    · rename_i hshort
      cases h
      rw [if_pos hshort, givenText, if_neg hlong, if_pos hshort]
      exact ⟨rfl, htext, Or.inl rfl⟩
    · rename_i hshort
      rw [if_neg hshort, if_neg hhelp]
      split at h
      · cases h
      · rename_i hoption
        rw [if_neg hoption]
        split at h
        · rename_i hindex
          cases h
          rw [if_pos hindex]
          exact ⟨by decide, by decide, Or.inr trivial⟩
        · rename_i hindex
          rw [if_neg hindex]
          split at h
          · cases h
          · rename_i hplain
            cases h
            refine ⟨?_, htext, Or.inl rfl⟩
            rcases isArgparseOptionLooking_eq_false
              (Bool.not_eq_true _ ▸ hoption) with rfl | hdash | hspace
            · decide
            · exact givenText_of_not_dash hdash
            · by_cases hdash : "-".toList.isPrefixOf text = true
              · by_cases hone : text = "-".toList
                · rw [hone]
                  decide
                · exact absurd ⟨hone, hdash, hspace.symm⟩ hplain
              · exact givenText_of_not_dash (Bool.not_eq_true _ ▸ hdash)

/-- A word that is replaced is a word to its caller. -/
theorem spell_positional (hhelp : ¬ "-h".toList.isPrefixOf text = true)
    (h : spell isDecimalNumber text = .positional) :
    writtenText isDecimalNumber text = .word := by
  rw [spell] at h
  rw [writtenText]
  split at h
  · exact absurd h (spellLong_ne_positional text)
  · rename_i hlong
    rw [if_neg hlong]
    split at h
    · cases h
    · rename_i hshort
      rw [if_neg hshort, if_neg hhelp]
      split at h
      · cases h
      · rename_i hoption
        rw [if_neg hoption]
        split at h
        · cases h
        · rename_i hindex
          exact if_neg hindex

/-- An option with a separated value is read as the option alone. -/
theorem separated_form (h : needsSeparatedValue canonical = true) :
    givenText canonical = .bare canonical ∧ takesValue canonical = true ∧
      canonical ≠ "--".toList ∧
      ∀ value, givenText (canonical ++ '=' :: value) = .attached canonical (.utf8 value) := by
  rcases of_decide_eq_true h with rfl | rfl | rfl | rfl
  · exact ⟨by decide, by decide, by decide, fun value => rfl⟩
  · exact ⟨by decide, by decide, by decide, givenText_long_attached (by decide)⟩
  · exact ⟨by decide, by decide, by decide, givenText_long_attached (by decide)⟩
  · exact ⟨by decide, by decide, by decide, givenText_long_attached (by decide)⟩

theorem takesValue_eq (name : Text) : takesValue name = needsSeparatedValue name := by
  rw [takesValue, needsSeparatedValue]
  apply decide_eq_decide.2
  simp only [List.mem_cons, List.not_mem_nil, or_false]

theorem shortPart_bare (h : shortPart text = .bare name) : text.drop 2 = [] := by
  rw [shortPart] at h
  split at h
  · assumption
  · cases h
  · cases h

/-- An option that stands alone has its own name, or it is the short help. -/
theorem givenText_bare (h : givenText text = .bare name) :
    name = text ∨ name = "--help".toList := by
  rw [givenText] at h
  split at h
  · rw [longPart] at h
    split at h
    · by_cases hmem : text ∈ longOptions
      · simp only [hmem, if_true] at h
        cases h
        exact Or.inl rfl
      · simp only [hmem, if_false] at h
        cases h
    · split at h
      · cases h
      · cases h
  · split at h
    · rename_i hshort
      obtain ⟨tail, rfl⟩ := List.isPrefixOf_iff_prefix.1 hshort
      have htail : tail = [] := shortPart_bare h
      subst htail
      cases h
      exact Or.inl rfl
    · split at h
      · cases h
        exact Or.inr rfl
      · split at h
        · cases h
        · cases h

/-- Every option that the parser takes a value for is one of them. -/
theorem takesValue_of_not_separated
    (h : ¬ needsSeparatedValue canonical = true)
    (hpart : givenText canonical = .bare name) : takesValue name = false := by
  rcases givenText_bare hpart with rfl | rfl
  · rw [takesValue_eq]
    exact Bool.not_eq_true _ ▸ h
  · decide

theorem writtenText_help (h : "-h".toList.isPrefixOf text = true) :
    writtenText isDecimalNumber text = .bare "--help".toList := by
  obtain ⟨tail, rfl⟩ := List.isPrefixOf_iff_prefix.1 h
  rfl

end Spelling

section Run

variable {isDecimalNumber : Char → Bool} {rewrites : TextMap}
  {emitted rest : List OsString} {item : Item}

/-- Neither the help nor the version is asked for. -/
def Plain (items : List Item) : Prop :=
  Item.flag "--help".toList ∉ items ∧ Item.flag "--version".toList ∉ items

theorem Plain.tail {items : List Item} (h : Plain (item :: items)) : Plain items :=
  ⟨fun hmem => h.1 (List.mem_cons_of_mem _ hmem),
    fun hmem => h.2 (List.mem_cons_of_mem _ hmem)⟩

variable (isDecimalNumber rewrites)

/-- The arguments that are put out say what those that were read say, except
that the parser takes no separated value that starts with a dash, and one that
is not UTF-8 is put out by itself. -/
def Agrees (emitted rest : List OsString) : Prop :=
  (given emitted).map (restore rewrites) = written isDecimalNumber rest ∨
    (∃ name, Item.missing name ∈ given emitted) ∧
      ∃ argument ∈ rest, argument.toStr = none ∧ isDashed argument = true

/-- What the loop adds to the arguments agrees with what it reads. -/
def Emits (arguments final rest : List OsString) : Prop :=
  ∃ emitted, final = arguments ++ emitted ∧
    Agrees isDecimalNumber rewrites emitted rest

variable {isDecimalNumber rewrites}

/-- The reading goes on after one item of both. -/
theorem Emits.cons {arguments arguments' final rest' : List OsString}
    (h : Emits isDecimalNumber rewrites arguments' final rest) (head : List OsString)
    (harguments : arguments' = arguments ++ head)
    (hgiven : ∀ emitted, given (head ++ emitted) = item :: given emitted)
    (hwritten : written isDecimalNumber rest' =
      restore rewrites item :: written isDecimalNumber rest)
    (hsubset : rest ⊆ rest') :
    Emits isDecimalNumber rewrites arguments final rest' := by
  obtain ⟨emitted, hfinal, hagrees⟩ := h
  refine ⟨head ++ emitted, ?_, ?_⟩
  · rw [hfinal, harguments, List.append_assoc]
  · rcases hagrees with hsame | ⟨⟨name, hmissing⟩, argument, hmem, hargument⟩
    · refine Or.inl ?_
      rw [hgiven, List.map_cons, hsame, hwritten]
    · refine Or.inr ⟨⟨name, ?_⟩, argument, hsubset hmem, hargument⟩
      rw [hgiven]
      exact List.mem_cons_of_mem _ hmissing

/-- A word that is no placeholder is restored as it is. -/
theorem restore_word {argument : OsString}
    (h : ∀ text, argument = .utf8 text → rewrites.lookup text = none) :
    restore rewrites (.word argument) = .word argument := by
  cases argument with
  | utf8 text => rw [restore, h text rfl, Option.getD_none]
  | other bytes => rfl

theorem written_missing {text name : Text} (htext : text ≠ "--".toList)
    (hpart : writtenText isDecimalNumber text = .bare name)
    (hname : takesValue name = true)
    (hvalue : ∀ value ∈ rest.head?,
      value.toStr.any (isArgparseOptionLooking isDecimalNumber) = true) :
    written isDecimalNumber (.utf8 text :: rest) = [.missing name] := by
  apply read_missing (not_separator htext) hpart hname
  intro value hmem
  rw [hvalue value hmem]
  rfl

/-- A request for the help or the version is seen by its caller's words. -/
theorem not_plain {text name : Text} (htext : text ≠ "--".toList)
    (hpart : writtenText isDecimalNumber text = .bare name)
    (hname : name = "--help".toList ∨ name = "--version".toList) :
    ¬ Plain (written isDecimalNumber (.utf8 text :: rest)) := by
  rintro ⟨hhelp, hversion⟩
  rcases hname with rfl | rfl
  · rw [written, read_flag (not_separator htext) hpart (by decide)] at hhelp
    exact hhelp List.mem_cons_self
  · rw [written, read_flag (not_separator htext) hpart (by decide)] at hversion
    exact hversion List.mem_cons_self

/-- The arguments put out for the rest of the command line, read by the parser
and with the words written back, are the rest as its caller wrote it. -/
theorem normalizeFrom_emits (rest : List OsString) (st : NormalizedArguments)
    (hrewrites : ∀ entry ∈
      (normalizeFrom isDecimalNumber rest st).positionalRewrites,
      rewrites.lookup entry.1 = some entry.2)
    (hwords : ∀ text, OsString.utf8 text ∈ rest → rewrites.lookup text = none)
    (hplain : Plain (written isDecimalNumber rest))
    (hunknown : (normalizeFrom isDecimalNumber rest st).unknownOptions = [])
    (hpending : (normalizeFrom isDecimalNumber rest st).pendingError = none) :
    Emits isDecimalNumber rewrites st.arguments
      (normalizeFrom isDecimalNumber rest st).arguments rest := by
  fun_induction normalizeFrom isDecimalNumber rest st with
  | case1 st => exact ⟨[], (List.append_nil _).symm, Or.inl rfl⟩
  | case2 bytes rest st ih =>
      have hwritten : written isDecimalNumber (.other bytes :: rest) =
          otherItem bytes :: written isDecimalNumber rest := read_other rfl
      rw [hwritten] at hplain
      refine (ih hrewrites (fun text hmem => hwords text (.tail _ hmem))
        hplain.tail hunknown hpending).cons [.other bytes] rfl
        (fun emitted => read_other rfl) ?_
        (List.subset_cons_self _ _)
      rw [hwritten, restore_otherItem]
  | case3 rest st =>
      refine ⟨_, rfl, Or.inl ?_⟩
      rw [given, written, read_separator, read_separator, List.map_map]
      apply List.map_congr_left
      intro argument hargument
      apply restore_word
      rintro text rfl
      exact hwords text (.tail _ hargument)
  | case4 text rest st htext hhelp =>
      exact absurd hplain (not_plain htext (writtenText_help hhelp) (Or.inl rfl))
  | case5 text rest st htext hhelp hspell ih =>
      have hmem := (normalizeFrom_stores isDecimalNumber rest
        (st.pushUnknown text)).unknownOptions_subset List.mem_cons_self
      rw [hunknown] at hmem
      cases hmem
  | case6 text rest st htext hhelp hspell ih =>
      have hpart := spell_positional hhelp hspell
      have hwritten : written isDecimalNumber (.utf8 text :: rest) =
        .word (.utf8 text) :: written isDecimalNumber rest := read_word (not_separator htext) hpart
      have hdash : "-".toList.isPrefixOf st.freshPlaceholder.1 = false := rfl
      have hentry := hrewrites (st.freshPlaceholder.1, text)
        ((normalizeFrom_stores isDecimalNumber rest
          (st.pushPositional text)).positionalRewrites_subset List.mem_cons_self)
      rw [hwritten] at hplain
      refine (ih hrewrites (fun text hmem => hwords text (.tail _ hmem))
        hplain.tail hunknown hpending).cons
        [.utf8 st.freshPlaceholder.1] rfl
        (fun emitted => read_word
          (not_separator (ne_separator hdash)) (givenText_of_not_dash hdash))
        ?_ (List.subset_cons_self _ _)
      rw [hwritten, restore, hentry, Option.getD_some]
  | case7 text rest st htext hhelp message hspell => cases hpending
  | case8 text rest st htext hhelp canonical hspell hstop =>
      obtain ⟨hpart, -, -⟩ := spell_canonical htext hhelp hspell
      refine absurd hplain (not_plain htext ?_ hstop)
      rw [← hpart]
      rcases hstop with rfl | rfl
      · decide
      · decide
  | case9 text rest st htext hhelp canonical hspell hgo hneeds ih =>
      obtain ⟨hpart, hne, hsame⟩ := spell_canonical htext hhelp hspell
      obtain ⟨item, hgiven, hwritten⟩ : ∃ item,
          (∀ emitted, given (.utf8 canonical :: emitted) = item :: given emitted) ∧
            written isDecimalNumber (.utf8 text :: rest) =
              restore rewrites item :: written isDecimalNumber rest := by
        rcases hkind : writtenText isDecimalNumber text with name | ⟨name, value⟩ | _ | _
        · have htakes := takesValue_of_not_separated hneeds (hpart.trans hkind)
          exact ⟨_, fun _ => read_flag (not_separator hne) (hpart.trans hkind) htakes,
            read_flag (not_separator htext) hkind htakes⟩
        · exact ⟨_, fun _ => read_attached (not_separator hne) (hpart.trans hkind),
            read_attached (not_separator htext) hkind⟩
        · rw [hkind] at hsame
          obtain rfl := hsame.resolve_right not_false
          exact ⟨_, fun _ => read_unknown (not_separator hne) (hpart.trans hkind),
            read_unknown (not_separator htext) hkind⟩
        · rw [hkind] at hsame
          obtain rfl := hsame.resolve_right not_false
          refine ⟨_, fun _ => read_word (not_separator hne) (hpart.trans hkind), ?_⟩
          rw [restore_word]
          · exact read_word (not_separator htext) hkind
          · rintro _ ⟨⟩
            exact hwords canonical List.mem_cons_self
      rw [hwritten] at hplain
      exact (ih hrewrites (fun text hmem => hwords text (.tail _ hmem))
        hplain.tail hunknown hpending).cons [.utf8 canonical] rfl hgiven hwritten
        (List.subset_cons_self _ _)
  | case10 text st htext hhelp canonical hspell hgo hneeds =>
      obtain ⟨hpart, -, -⟩ := spell_canonical htext hhelp hspell
      obtain ⟨hbare, htakes, hne, -⟩ := separated_form (not_not.1 hneeds)
      refine ⟨_, rfl, Or.inl ?_⟩
      rw [written_missing htext (hpart.symm.trans hbare) htakes (by simp), given,
        read_missing (not_separator hne) hbare htakes (by simp)]
      rfl
  | case11 text st htext hhelp canonical hspell hgo hneeds bytes rest ih =>
      obtain ⟨hpart, -, -⟩ := spell_canonical htext hhelp hspell
      obtain ⟨hbare, htakes, hne, -⟩ := separated_form (not_not.1 hneeds)
      have hwritten : written isDecimalNumber (.utf8 text :: .other bytes :: rest) =
          .option canonical (.other bytes) :: written isDecimalNumber rest :=
        read_separated (not_separator htext) (hpart.symm.trans hbare) htakes rfl
      rw [hwritten] at hplain
      have hrest := ih hrewrites
        (fun text hmem => hwords text (.tail _ (.tail _ hmem)))
        hplain.tail hunknown hpending
      by_cases hdash : isDashed (.other bytes) = true
      · -- the parser stops here, whatever follows
        obtain ⟨emitted, hfinal, -⟩ := hrest
        refine ⟨.utf8 canonical :: .other bytes :: emitted, ?_, Or.inr ⟨⟨canonical, ?_⟩,
          .other bytes, .tail _ (.head _), rfl, hdash⟩⟩
        · rw [hfinal]
          simp [NormalizedArguments.push, NormalizedArguments.pushText]
        · rw [given, read_missing (not_separator hne) hbare htakes]
          · exact List.mem_cons_self
          · rintro _ ⟨⟩
            simp [hdash]
      · refine hrest.cons [.utf8 canonical, .other bytes] ?_
          (fun emitted => read_separated (not_separator hne) hbare htakes (by simp [hdash]))
          hwritten ?_
        · exact List.append_assoc _ _ _
        · exact fun argument hmem => .tail _ (.tail _ hmem)
  | case12 text st htext hhelp canonical hspell hgo hneeds value rest hdash ih =>
      obtain ⟨hpart, -, -⟩ := spell_canonical htext hhelp hspell
      obtain ⟨hbare, htakes, -, hattached⟩ := separated_form (not_not.1 hneeds)
      have hwritten : written isDecimalNumber (.utf8 text :: .utf8 value :: rest) =
          .option canonical (.utf8 value) :: written isDecimalNumber rest :=
        read_separated (not_separator htext) (hpart.symm.trans hbare) htakes (by simp [OsString.toStr, hdash.2])
      rw [hwritten] at hplain
      refine (ih hrewrites (fun text hmem => hwords text (.tail _ (.tail _ hmem)))
        hplain.tail hunknown hpending).cons
        [.utf8 (canonical ++ '=' :: value)] rfl
        (fun emitted => read_attached
          (not_separator (attached_ne_separator canonical value))
          (hattached value)) hwritten ?_
      exact fun argument hmem => .tail _ (.tail _ hmem)
  | case13 text st htext hhelp canonical hspell hgo hneeds value rest hdash hlooks =>
      obtain ⟨hpart, -, -⟩ := spell_canonical htext hhelp hspell
      obtain ⟨hbare, htakes, hne, -⟩ := separated_form (not_not.1 hneeds)
      refine ⟨[.utf8 canonical, .utf8 "--json".toList], List.append_assoc _ _ _,
        Or.inl ?_⟩
      rw [written_missing htext (hpart.symm.trans hbare) htakes, given,
        read_missing (not_separator hne) hbare htakes]
      · rfl
      · rintro _ ⟨⟩
        decide
      · rintro _ ⟨⟩
        exact hlooks
  | case14 text st htext hhelp canonical hspell hgo hneeds value rest hdash hlooks ih =>
      obtain ⟨hpart, -, -⟩ := spell_canonical htext hhelp hspell
      obtain ⟨hbare, htakes, hne, -⟩ := separated_form (not_not.1 hneeds)
      have hstart : ¬ "-".toList.isPrefixOf value = true :=
        fun hstart => hdash ⟨hstart, hlooks⟩
      have hwritten : written isDecimalNumber (.utf8 text :: .utf8 value :: rest) =
          .option canonical (.utf8 value) :: written isDecimalNumber rest :=
        read_separated (not_separator htext) (hpart.symm.trans hbare) htakes (by simp [OsString.toStr, hlooks])
      have hvalue : isDashed (.utf8 value) = false :=
        decide_eq_false fun h => hstart h.1
      rw [hwritten] at hplain
      refine (ih hrewrites (fun text hmem => hwords text (.tail _ (.tail _ hmem)))
        hplain.tail hunknown hpending).cons
        [.utf8 canonical, .utf8 value] (List.append_assoc _ _ _)
        (fun emitted => read_separated (not_separator hne) hbare htakes (by simp [hvalue]))
        hwritten ?_
      exact fun argument hmem => .tail _ (.tail _ hmem)

end Run

/-! What the option parser returns. -/

section Parser

variable {F α : Type}

/-- The words of a reading, in their order. -/
def words (items : List Item) : List OsString :=
  items.filterMap fun
    | .word argument => some argument
    | _ => none

/-- The last value that an option is given. -/
def lastValue (name : Text) (items : List Item) : Option OsString :=
  (items.filterMap fun
    | .option other value => if other = name then some value else none
    | _ => none).getLast?

/-- What a value parser makes of the value of an option. -/
def Parsed (parse : Text → Except Text α) :
    Option OsString → Option α → Prop
  | none, none => True
  | some (.utf8 text), some result => parse text = .ok result
  | _, _ => False

/-- What the parser does not refuse. -/
def Item.Accepted : Item → Prop
  | .flag name => name ∈ longOptions ∧ takesValue name = false
  | .option name _ => takesValue name = true
  | .word _ => True
  | .missing _ | .unknown _ => False

def flags (args : CliArgs F) : List (Text × Bool) :=
  [("--version", args.version), ("--json", args.json), ("--full", args.full),
    ("--index", args.index), ("--write", args.write), ("--stats", args.stats),
    ("--all", args.all), ("--projects", args.projects),
    ("--no-gate", args.noGate), ("--explain", args.explain), ("--gc", args.gc)]

/-- The parser's record of a command line: its words in their order, and of each
option whether it is set, or the last of its values. -/
structure Returned (count : Text → Except Text CountArgument)
    (float : Text → Except Text F) (items : List Item) (args : CliArgs F) :
    Prop where
  accepted : ∀ item ∈ items, item.Accepted
  query : args.query.map .utf8 = words items
  k : Parsed count (lastValue "-k".toList items) args.k
  project : args.project = lastValue "--project".toList items
  minScore : Parsed float (lastValue "--min-score".toList items) args.minScore
  maxGap : Parsed float (lastValue "--max-gap".toList items) args.maxGap
  flags : ∀ entry ∈ flags args, (entry.2 = true ↔ .flag entry.1 ∈ items)

/-- The option parser returns options and words as given, in their order. -/
def ReturnsAsGiven (clap : Clap F) : Prop :=
  ∀ count float arguments args, clap count float arguments = .ok args →
    Returned count float (given (arguments.drop 1)) args

variable {rewrites : TextMap} {items : List Item} {name : Text}

theorem lastValue_restore :
    lastValue name (items.map (restore rewrites)) = lastValue name items := by
  rw [lastValue, lastValue, List.filterMap_map]
  congr 2
  funext item
  rcases item with _ | _ | _ | _ | ⟨text | bytes⟩ <;> rfl

theorem words_restore {query : List Text} (h : query.map .utf8 = words items) :
    (query.map fun word => (rewrites.lookup word).getD word).map .utf8 =
      words (items.map (restore rewrites)) := by
  have hrestored : words (items.map (restore rewrites)) =
      (words items).map fun argument => match argument with
        | .utf8 text => .utf8 ((rewrites.lookup text).getD text)
        | .other bytes => .other bytes := by
    rw [words, words, List.filterMap_map, List.map_filterMap]
    congr 1
    funext item
    rcases item with _ | _ | _ | _ | ⟨text | bytes⟩ <;> rfl
  rw [hrestored, ← h, List.map_map, List.map_map]
  rfl

theorem flag_mem_restore :
    Item.flag name ∈ items.map (restore rewrites) ↔ Item.flag name ∈ items := by
  rw [List.mem_map]
  constructor
  · rintro ⟨item, hmem, heq⟩
    rcases item with _ | _ | _ | _ | ⟨text | bytes⟩ <;> cases heq
    exact hmem
  · intro hmem
    exact ⟨_, hmem, rfl⟩

theorem accepted_restore {item : Item} (h : item.Accepted) :
    (restore rewrites item).Accepted := by
  rcases item with _ | _ | _ | _ | ⟨text | bytes⟩ <;> exact h

/-- Writing the words back turns the record of the arguments that were put out
into the one of the command line as it was written. -/
theorem Returned.restored {count : Text → Except Text CountArgument}
    {float : Text → Except Text F} {args : CliArgs F}
    {normalized : NormalizedArguments}
    (h : Returned count float items args) :
    Returned count float (items.map (restore normalized.positionalRewrites))
      (restorePositionals normalized args) := by
  refine ⟨?_, words_restore h.query, ?_, ?_, ?_, ?_, ?_⟩
  · intro item hitem
    obtain ⟨read, hread, rfl⟩ := List.mem_map.1 hitem
    exact accepted_restore (h.accepted read hread)
  · rw [lastValue_restore]
    exact h.k
  · rw [lastValue_restore]
    exact h.project
  · rw [lastValue_restore]
    exact h.minScore
  · rw [lastValue_restore]
    exact h.maxGap
  · intro entry hentry
    rw [flag_mem_restore]
    exact h.flags entry hentry

variable {isDecimalNumber : Char → Bool} {raw : List OsString}

/-- Every placeholder of a word is looked up to the word. -/
theorem lookup_of_placed {st : NormalizedArguments} (h : Placed raw st) :
    ∀ entry ∈ st.positionalRewrites,
      st.positionalRewrites.lookup entry.1 = some entry.2 := by
  intro entry hentry
  obtain ⟨before, after, heq⟩ := List.append_of_mem hentry
  have hnodup := h.nodup
  rw [placeholders, List.map_append] at hnodup
  have hkeys := hnodup.of_append_left
  rw [heq] at hkeys ⊢
  refine List.lookup_eq_some_iff.2 ⟨before, after, rfl, ?_⟩
  intro other hother
  rw [List.map_append, List.map_cons, List.nodup_middle, List.nodup_cons] at hkeys
  rw [bne_iff_ne]
  intro hsame
  apply hkeys.1
  rw [hsame]
  exact List.mem_append_left _ (List.mem_map_of_mem hother)

/-- No argument of the command line is looked up. -/
theorem lookup_eq_none_of_placed {st : NormalizedArguments} (h : Placed raw st)
    {text : Text} (htext : OsString.utf8 text ∈ raw) :
    st.positionalRewrites.lookup text = none := by
  rw [List.lookup_eq_none_iff]
  intro entry hentry
  rw [bne_iff_ne]
  rintro rfl
  apply h.fresh entry.1 _ htext
  rw [placeholders, List.map_append]
  exact List.mem_append_left _ (List.mem_map_of_mem hentry)

/-- What `normalize_arguments` puts out after the program's name agrees with the
command line. -/
theorem normalizeArguments_agrees
    (hplain : Plain (written isDecimalNumber (raw.drop 1)))
    (hunknown : (normalizeArguments isDecimalNumber raw).unknownOptions = [])
    (hpending : (normalizeArguments isDecimalNumber raw).pendingError = none) :
    Agrees isDecimalNumber
      (normalizeArguments isDecimalNumber raw).positionalRewrites
      ((normalizeArguments isDecimalNumber raw).arguments.drop 1)
      (raw.drop 1) := by
  have hplaced := normalizeArguments_placed isDecimalNumber raw
  obtain ⟨emitted, harguments, hagrees⟩ := normalizeFrom_emits (raw.drop 1)
    ⟨[.utf8 "yams".toList], [], [], none, raw, 0⟩
    (lookup_of_placed hplaced)
    (fun text hmem => lookup_eq_none_of_placed hplaced (List.mem_of_mem_drop hmem))
    hplain hunknown hpending
  have hemitted : (normalizeArguments isDecimalNumber raw).arguments.drop 1 =
      emitted := by
    rw [normalizeArguments, harguments]
    rfl
  rw [hemitted]
  exact hagrees

/-- Normalization loses nothing. The placeholders are texts of their own, and
where the command line asks for neither help nor version and nothing in it is
unknown or refused, the parser's record with the words written back is the
record of the command line as its caller wrote it. The arguments put out already
say so by themselves, if none of the caller's is a dashed one that is not UTF-8. -/
theorem normalizeArguments_lossless {clap : Clap F}
    (hclap : ReturnsAsGiven clap) (isDecimalNumber : Char → Bool)
    (raw : List OsString) :
    let st := normalizeArguments isDecimalNumber raw
    let asked := written isDecimalNumber (raw.drop 1)
    (st.placeholderDiscriminator ≤ 2 * raw.length ∧ st.placeholders.Nodup ∧
      ∀ text ∈ st.placeholders, OsString.utf8 text ∉ raw) ∧
    (Plain asked → st.unknownOptions = [] → st.pendingError = none →
      ((∀ argument ∈ raw, argument.toStr = none → isDashed argument = false) →
        (given (st.arguments.drop 1)).map (restore st.positionalRewrites) =
          asked) ∧
      ∀ count float args, clap count float st.arguments = .ok args →
        Returned count float asked (restorePositionals st args)) := by
  intro st asked
  have hplaced : Placed raw st := normalizeArguments_placed isDecimalNumber raw
  refine ⟨⟨normalizeArguments_number_le isDecimalNumber raw, hplaced.nodup,
    hplaced.fresh⟩, ?_⟩
  intro hplain hunknown hpending
  have hagrees := normalizeArguments_agrees hplain hunknown hpending
  constructor
  · intro hdashed
    rcases hagrees with hsame | ⟨-, argument, hmem, hother, hdash⟩
    · exact hsame
    · have hnot := hdashed argument (List.mem_of_mem_drop hmem) hother
      rw [hnot] at hdash
      cases hdash
  · intro count float args hok
    have hreturned := hclap count float st.arguments args hok
    rcases hagrees with hsame | ⟨⟨name, hmissing⟩, -⟩
    · have hrestored : Returned count float
          ((given (st.arguments.drop 1)).map (restore st.positionalRewrites))
          (restorePositionals st args) := hreturned.restored
      rwa [hsame] at hrestored
    · exact (hreturned.accepted _ hmissing).elim

end Parser

namespace ArgumentSample

def isDigit (c : Char) : Bool := c.isDigit

def utf8 (text : String) : OsString := .utf8 text.toList

/-- A dashed value, and dashed words before and after the separator. -/
def raw : List OsString :=
  ["yams", "--project", "-a b", "-k", "7", "-1", "--", "-x"].map utf8

def asked : List Item :=
  [.option "--project".toList (utf8 "-a b"), .option "-k".toList (utf8 "7"),
    .word (utf8 "-1"), .word (utf8 "-x")]

/-- What the parser is given, and what it reads there. -/
def arguments : List OsString :=
  [utf8 "yams", utf8 "--project=-a b", utf8 "-k", utf8 "7",
    .utf8 (placeholder 0), utf8 "--", utf8 "-x"]

def items : List Item :=
  [.option "--project".toList (utf8 "-a b"), .option "-k".toList (utf8 "7"),
    .word (.utf8 (placeholder 0)), .word (utf8 "-x")]

def record (k : CountArgument) : CliArgs Unit where
  query := [placeholder 0, "-x".toList]
  k := some k
  version := false
  json := false
  full := false
  index := false
  write := false
  stats := false
  project := some (utf8 "-a b")
  all := false
  projects := false
  noGate := false
  explain := false
  minScore := none
  maxGap := none
  gc := false

/-- The option parser on this command line; it refuses every other one. -/
def clap : Clap Unit := fun count _ given =>
  if given = arguments then
    match count "7".toList with
    | .ok k => .ok (record k)
    | .error _ => .error ⟨.other, none, none, none, []⟩
  else .error ⟨.other, none, none, none, []⟩

theorem given_arguments : given (arguments.drop 1) = items := by
  decide +kernel

theorem clap_returnsAsGiven : ReturnsAsGiven clap := by
  intro count float given args hok
  rw [clap] at hok
  split at hok
  · rename_i hgiven
    split at hok
    · rename_i k hk
      cases hok
      subst hgiven
      rw [given_arguments]
      have hflags : ∀ entry ∈ flags (record k),
          (entry.2 = true ↔ .flag entry.1 ∈ items) := by
        change ∀ entry ∈ flags (record ⟨0, [], false⟩),
          (entry.2 = true ↔ .flag entry.1 ∈ items)
        decide
      refine ⟨?_, rfl, hk, rfl, trivial, trivial, hflags⟩
      simp [items, Item.Accepted, takesValue]
    · cases hok
  · cases hok

theorem written_raw : written isDigit (raw.drop 1) = asked := by
  decide

/-- The dashed value and the dashed words come back as they were written. -/
theorem normalizeArguments_lossless_dashes :
    Returned (fun _ => .ok ⟨7, "7".toList, false⟩) (fun _ => .ok ()) asked
      (restorePositionals (normalizeArguments isDigit raw)
        (record ⟨7, "7".toList, false⟩)) := by
  have hplain : Plain asked := by
    constructor <;> decide
  rw [← written_raw] at hplain ⊢
  exact ((normalizeArguments_lossless clap_returnsAsGiven isDigit raw).2 hplain
    (by decide) (by decide)).2 _ _ _ rfl

end ArgumentSample

end ArgumentReading

end Yams
