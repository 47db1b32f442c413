/-
A reader of flat JSON objects: the names and the values are strings or bare
words, and nothing follows the object but white space.  It reads back every
object that is written with the shortest escapes.
-/
import Yams.JsonGrammar

namespace Yams.Json

/-- A value that is not nested: a string, or the text of a number or a word. -/
inductive Scalar
  | str (value : Text)
  | word (text : Text)
  deriving DecidableEq

/-- The digits of an integer, without a needless zero in front. -/
def isInteger (digits : Text) : Bool :=
  digits ≠ [] && digits.all Char.isDigit &&
    (digits.head? ≠ some '0' || digits.length = 1)

def isFraction : Text → Bool
  | '.' :: digits => digits ≠ [] && digits.all Char.isDigit
  | text => text = []

def isExponent : Text → Bool
  | [] => true
  | letter :: rest =>
      let digits := if rest.head? = some '+' ∨ rest.head? = some '-' then rest.tail
        else rest
      (letter = 'e' || letter = 'E') && digits ≠ [] && digits.all Char.isDigit

/-- The grammar of a number. -/
def isNumber (text : Text) : Bool :=
  let unsigned := if text.head? = some '-' then text.tail else text
  let mantissa := unsigned.takeWhile fun c => c ≠ 'e' ∧ c ≠ 'E'
  let integer := mantissa.takeWhile fun c => c ≠ '.'
  isInteger integer && isFraction (mantissa.drop integer.length) &&
    isExponent (unsigned.drop mantissa.length)

def isWord (text : Text) : Bool :=
  text = "null".toList || text = "true".toList || text = "false".toList ||
    isNumber text

/-- The value of a string up to its closing quote, and what follows it.  An
escaped code unit must be a character of its own. -/
def readBody : Text → Option (Text × Text)
  | [] => none
  | '"' :: rest => some ([], rest)
  | '\\' :: 'u' :: a :: b :: c :: d :: rest => do
      let unit ← codeUnit [a, b, c, d]
      let (value, after) ← readBody rest
      if unit.isValidChar then some (Char.ofNat unit :: value, after) else none
  | '\\' :: letter :: rest => do
      let escape ← shortEscapes.find? fun escape => escape.1 = letter
      let (value, after) ← readBody rest
      return (escape.2 :: value, after)
  | c :: rest => do
      let (value, after) ← readBody rest
      if 32 ≤ c.toNat then some (c :: value, after) else none

def readString : Text → Option (Text × Text)
  | '"' :: rest => readBody rest
  | _ => none

/-- A word ends where its field ends. -/
def endsWord (c : Char) : Bool := c = ',' || c = '}'

def readScalar (text : Text) : Option (Scalar × Text) :=
  match text with
  | '"' :: rest => (readBody rest).map fun (value, after) => (.str value, after)
  | _ =>
      let word := text.takeWhile fun c => !endsWord c
      if isWord word then some (.word word, text.drop word.length) else none

/-- The fields up to the end of the object; the fuel bounds their number. -/
def readFields : Nat → Text → Option (List (Text × Scalar))
  | 0, _ => none
  | fuel + 1, text => do
      let (name, afterName) ← readString text
      match afterName with
      | ':' :: afterColon => do
          let (value, afterValue) ← readScalar afterColon
          match afterValue with
          | ',' :: rest => do
              let fields ← readFields fuel rest
              return (name, value) :: fields
          | '}' :: rest =>
              if rest.all Char.isWhitespace then some [(name, value)] else none
          | _ => none
      | _ => none

def readObject : Text → Option (List (Text × Scalar))
  | '{' :: rest => readFields rest.length rest
  | _ => none

def Scalar.render : Scalar → Text
  | .str value => renderString value
  | .word text => text

/-- Every word is one of the grammar. -/
def Scalar.Valid : Scalar → Prop
  | .str _ => True
  | .word text => isWord text = true

/-- The fields, the last of which ends the object. -/
def renderScalars : List (Text × Scalar) → Text
  | [] => []
  | [(name, value)] => renderString name ++ ':' :: value.render
  | (name, value) :: fields =>
      renderString name ++ ':' :: value.render ++ ',' :: renderScalars fields

attribute [local simp] readBody

theorem readBody_short {letter c : Char} (h : (letter, c) ∈ shortEscapes)
    (rest : Text) : readBody ('\\' :: letter :: rest) =
      (readBody rest).map fun p => (c :: p.1, p.2) := by
  have hletters : letter ≠ 'u' := by
    rintro rfl
    revert h
    simp [shortEscapes]
  have hfind : shortEscapes.find? (fun escape => escape.1 = letter) =
      some (letter, c) := by
    simp only [shortEscapes, List.mem_cons, Prod.mk.injEq, List.not_mem_nil,
      or_false] at h
    rcases h with ⟨rfl, rfl⟩ | ⟨rfl, rfl⟩ | ⟨rfl, rfl⟩ | ⟨rfl, rfl⟩ | ⟨rfl, rfl⟩ |
      ⟨rfl, rfl⟩ | ⟨rfl, rfl⟩ | ⟨rfl, rfl⟩ <;> rfl
  rw [readBody]
  · rw [hfind]
    cases readBody rest <;> rfl
  · intro a b c d after heq
    exact absurd heq hletters

theorem readBody_unit {a b c d : Char} {n : Nat}
    (h : codeUnit [a, b, c, d] = some n) (hn : n.isValidChar) (rest : Text) :
    readBody ('\\' :: 'u' :: a :: b :: c :: d :: rest) =
      (readBody rest).map fun p => (Char.ofNat n :: p.1, p.2) := by
  rw [readBody, h]
  cases readBody rest with
  | none => rfl
  | some p => simp [hn]

theorem readBody_plain {c : Char} (hquote : c ≠ '"') (hslash : c ≠ '\\')
    (hvisible : 32 ≤ c.toNat) (rest : Text) :
    readBody (c :: rest) = (readBody rest).map fun p => (c :: p.1, p.2) := by
  rw [readBody]
  · cases readBody rest with
    | none => rfl
    | some p => simp [hvisible]
  · exact hquote
  · intro a b c d after heq
    exact absurd heq hslash
  · intro letter after heq
    exact absurd heq hslash

theorem readBody_escape (c : Char) (rest : Text) : readBody (escape c ++ rest) =
    (readBody rest).map fun p => (c :: p.1, p.2) := by
  by_cases hquote : c = '"'
  · subst hquote
    exact readBody_short (c := '"') (by decide) rest
  by_cases hslash : c = '\\'
  · subst hslash
    exact readBody_short (c := '\\') (by decide) rest
  by_cases hvisible : 32 ≤ c.toNat
  · rw [escape_of_plain hquote hslash hvisible]
    exact readBody_plain hquote hslash hvisible rest
  · have hcontrol : ∀ n < 32,
        (shortEscapes.any fun pair => pair.2 = Char.ofNat n ∧
          escape (Char.ofNat n) = ['\\', pair.1]) = true ∨
        (escape (Char.ofNat n) =
            ['\\', 'u', '0', '0', Nat.digitChar (n / 16), Nat.digitChar (n % 16)] ∧
          codeUnit ['0', '0', Nat.digitChar (n / 16), Nat.digitChar (n % 16)] =
            some n) := by decide
    have hsmall := Nat.not_le.1 hvisible
    have hc := hcontrol c.toNat hsmall
    rw [Char.ofNat_toNat] at hc
    rcases hc with hshort | ⟨hescape, hunit⟩
    · obtain ⟨⟨letter, d⟩, hmem, heq⟩ := List.any_eq_true.1 hshort
      obtain ⟨rfl, hescape⟩ := of_decide_eq_true heq
      rw [hescape]
      exact readBody_short hmem rest
    · rw [hescape]
      have hread := readBody_unit hunit (by simp [Nat.isValidChar]; omega) rest
      rw [Char.ofNat_toNat] at hread
      exact hread

/-- The escapes of a text are read back. -/
theorem readBody_flatMap (text rest : Text) :
    readBody (text.flatMap escape ++ '"' :: rest) = some (text, rest) := by
  induction text with
  | nil => rw [List.flatMap_nil, List.nil_append, readBody]
  | cons c text ih =>
      rw [List.flatMap_cons, List.append_assoc, readBody_escape, ih]
      rfl

theorem readString_render (text rest : Text) :
    readString (renderString text ++ rest) = some (text, rest) := by
  change readBody ((text.flatMap escape ++ ['"']) ++ rest) = _
  rw [List.append_assoc]
  exact readBody_flatMap text rest

/-! Words are made of visible characters that do not end them. -/

/-- The characters of numbers and words. -/
def wordChar (c : Char) : Bool :=
  c.isDigit || c.isAlpha || c = '-' || c = '+' || c = '.'

theorem isInteger_chars {text : Text} (h : isInteger text = true) :
    ∀ c ∈ text, wordChar c = true := by
  simp only [isInteger, Bool.and_eq_true, List.all_eq_true] at h
  intro c hc
  simp [wordChar, h.1.2 c hc]

theorem isFraction_chars {text : Text} (h : isFraction text = true) :
    ∀ c ∈ text, wordChar c = true := by
  unfold isFraction at h
  split at h
  · simp only [Bool.and_eq_true, List.all_eq_true] at h
    intro c hc
    rcases List.mem_cons.1 hc with rfl | hc
    · rfl
    · simp [wordChar, h.2 c hc]
  · intro c hc
    rw [of_decide_eq_true h] at hc
    cases hc

/-- Behind a sign there are the characters that there were. -/
theorem mem_unsigned {signs : List Char} {text : Text} {c : Char} (hc : c ∈ text)
    (hsigns : ∀ sign ∈ signs, wordChar sign = true) {p : Prop} [Decidable p]
    (hp : p → ∃ sign ∈ signs, text.head? = some sign) :
    wordChar c = true ∨ c ∈ if p then text.tail else text := by
  split
  next h =>
    obtain ⟨sign, hsign, hhead⟩ := hp h
    cases text with
    | nil => cases hc
    | cons d text =>
        obtain rfl : d = sign := by simpa using hhead
        rcases List.mem_cons.1 hc with rfl | hmem
        · exact .inl (hsigns _ hsign)
        · exact .inr hmem
  · exact .inr hc

theorem isExponent_chars {text : Text} (h : isExponent text = true) :
    ∀ c ∈ text, wordChar c = true := by
  unfold isExponent at h
  split at h
  · intro c hc
    cases hc
  next letter rest =>
    simp only [Bool.and_eq_true, List.all_eq_true, Bool.or_eq_true,
      decide_eq_true_eq] at h
    obtain ⟨⟨hletter, -⟩, hdigits⟩ := h
    intro c hc
    rcases List.mem_cons.1 hc with rfl | hmem
    · rcases hletter with rfl | rfl <;> rfl
    · have hsigns : ∀ sign ∈ ['+', '-'], wordChar sign = true :=
        List.all_eq_true.1 rfl
      have hhead : rest.head? = some '+' ∨ rest.head? = some '-' →
          ∃ sign ∈ ['+', '-'], rest.head? = some sign := by
        rintro (hplus | hminus)
        · exact ⟨'+', by simp, hplus⟩
        · exact ⟨'-', by simp, hminus⟩
      rcases mem_unsigned hmem hsigns hhead with hword | hrest
      · exact hword
      · simp [wordChar, hdigits c hrest]

theorem mem_takeWhile_or_drop {p : Char → Bool} {text : Text} {c : Char} (hc : c ∈ text) :
    c ∈ text.takeWhile p ∨ c ∈ text.drop (text.takeWhile p).length := by
  induction text with
  | nil => cases hc
  | cons d text ih =>
      by_cases hd : p d = true
      · rw [List.takeWhile_cons_of_pos hd, List.length_cons, List.drop_succ_cons]
        rcases List.mem_cons.1 hc with rfl | hmem
        · exact .inl List.mem_cons_self
        · exact (ih hmem).imp_left (List.mem_cons_of_mem d)
      · rw [List.takeWhile_cons_of_neg hd]
        exact .inr hc

theorem isNumber_chars {text : Text} (h : isNumber text = true) :
    ∀ c ∈ text, wordChar c = true := by
  unfold isNumber at h
  simp only [Bool.and_eq_true] at h
  obtain ⟨⟨hinteger, hfraction⟩, hexponent⟩ := h
  intro c hc
  have hsigns : ∀ sign ∈ ['-'], wordChar sign = true := List.all_eq_true.1 rfl
  have hhead : text.head? = some '-' → ∃ sign ∈ ['-'], text.head? = some sign :=
    fun h => ⟨'-', List.mem_singleton_self _, h⟩
  rcases mem_unsigned hc hsigns hhead with hword | hmem
  · exact hword
  · rcases mem_takeWhile_or_drop (p := fun c => c ≠ 'e' ∧ c ≠ 'E') hmem with
      hmantissa | hrest
    · rcases mem_takeWhile_or_drop (p := fun c => c ≠ '.') hmantissa with hint | hfrac
      · exact isInteger_chars hinteger c hint
      · exact isFraction_chars hfraction c hfrac
    · exact isExponent_chars hexponent c hrest

theorem isWord_chars {text : Text} (h : isWord text = true) :
    ∀ c ∈ text, wordChar c = true := by
  simp only [isWord, Bool.or_eq_true, decide_eq_true_eq] at h
  rcases h with ((rfl | rfl) | rfl) | hnumber
  · exact List.all_eq_true.1 rfl
  · exact List.all_eq_true.1 rfl
  · exact List.all_eq_true.1 rfl
  · exact isNumber_chars hnumber

/-- A character of a word is visible, ends no word and starts no string. -/
theorem wordChar_plain {c : Char} (h : wordChar c = true) :
    endsWord c = false ∧ c ≠ '"' ∧ 32 ≤ c.toNat := by
  simp only [wordChar, Bool.or_eq_true, decide_eq_true_eq] at h
  refine ⟨?_, ?_, ?_⟩
  · by_contra hends
    simp only [endsWord, Bool.not_eq_false, Bool.or_eq_true, decide_eq_true_eq] at hends
    rcases hends with rfl | rfl <;> revert h <;> decide
  · rintro rfl
    revert h
    decide
  · by_contra hlow
    have hall : ∀ n < 32, ((((Char.ofNat n).isDigit = true ∨ (Char.ofNat n).isAlpha = true) ∨
        Char.ofNat n = '-') ∨ Char.ofNat n = '+') ∨ Char.ofNat n = '.' → False := by
      decide
    apply hall c.toNat (by omega)
    rwa [Char.ofNat_toNat]

theorem escape_visible (c : Char) : ∀ d ∈ escape c, 32 ≤ d.toNat := by
  by_cases hquote : c = '"'
  · have hall : ((escape '"').all fun d => 32 ≤ d.toNat) = true := by decide
    rw [hquote]
    exact fun d hd => of_decide_eq_true (List.all_eq_true.1 hall d hd)
  by_cases hslash : c = '\\'
  · have hall : ((escape '\\').all fun d => 32 ≤ d.toNat) = true := by decide
    rw [hslash]
    exact fun d hd => of_decide_eq_true (List.all_eq_true.1 hall d hd)
  by_cases hvisible : 32 ≤ c.toNat
  · intro d hd
    rw [escape_of_plain hquote hslash hvisible, List.mem_singleton] at hd
    exact hd ▸ hvisible
  · have hcontrol : ∀ n < 32, ((escape (Char.ofNat n)).all fun d => 32 ≤ d.toNat) = true := by
      decide
    have hc := hcontrol c.toNat (Nat.not_le.1 hvisible)
    rw [Char.ofNat_toNat, List.all_eq_true] at hc
    exact fun d hd => of_decide_eq_true (hc d hd)

theorem renderString_visible (text : Text) : ∀ d ∈ renderString text, 32 ≤ d.toNat := by
  intro d hd
  rcases List.mem_append.1 hd with hopen | hclose
  · rcases List.mem_cons.1 hopen with rfl | hbody
    · decide
    · obtain ⟨c, -, hescape⟩ := List.mem_flatMap.1 hbody
      exact escape_visible c d hescape
  · obtain rfl := List.mem_singleton.1 hclose
    decide

theorem Scalar.render_visible {value : Scalar} (hvalid : value.Valid) :
    ∀ d ∈ value.render, 32 ≤ d.toNat := by
  cases value with
  | str text => exact renderString_visible text
  | word text => exact fun d hd => (wordChar_plain (isWord_chars hvalid d hd)).2.2

/-- A compact text has no line break and no other control character. -/
theorem renderScalars_visible {fields : List (Text × Scalar)}
    (hvalid : ∀ field ∈ fields, field.2.Valid) :
    ∀ d ∈ renderScalars fields, 32 ≤ d.toNat := by
  induction fields with
  | nil =>
      intro d hd
      cases hd
  | cons field fields ih =>
      obtain ⟨name, value⟩ := field
      have hvalue := Scalar.render_visible (hvalid _ List.mem_cons_self)
      have hfield : ∀ d ∈ renderString name ++ ':' :: value.render, 32 ≤ d.toNat := by
        intro d hd
        rcases List.mem_append.1 hd with hname | hrest
        · exact renderString_visible name d hname
        · rcases List.mem_cons.1 hrest with rfl | hrender
          · decide
          · exact hvalue d hrender
      cases fields with
      | nil => exact hfield
      | cons next fields =>
          intro d hd
          rcases List.mem_append.1 hd with hfirst | hrest
          · exact hfield d hfirst
          · rcases List.mem_cons.1 hrest with rfl | hmem
            · decide
            · exact ih (fun field h => hvalid field (List.mem_cons_of_mem _ h)) d hmem

theorem readScalar_render {value : Scalar} (hvalid : value.Valid) {c : Char} {rest : Text}
    (hends : endsWord c = true) :
    readScalar (value.render ++ c :: rest) = some (value, c :: rest) := by
  cases value with
  | str value =>
      change (readBody ((value.flatMap escape ++ ['"']) ++ c :: rest)).map _ = _
      rw [List.append_assoc, List.singleton_append, readBody_flatMap]
      rfl
  | word text =>
      have hchars := isWord_chars hvalid
      have htake : (text ++ c :: rest).takeWhile (fun d => !endsWord d) = text := by
        rw [List.takeWhile_append_of_pos, List.takeWhile_cons_of_neg, List.append_nil]
        · simp [hends]
        · intro d hd
          simp [(wordChar_plain (hchars d hd)).1]
      change readScalar (text ++ c :: rest) = _
      unfold readScalar
      split
      next after heq =>
        exfalso
        cases text with
        | nil =>
            obtain ⟨rfl, -⟩ := List.cons.inj heq
            cases hends
        | cons d text =>
            obtain ⟨rfl, -⟩ := List.cons.inj heq
            exact (wordChar_plain (hchars _ List.mem_cons_self)).2.1 rfl
      · have hword : isWord text = true := hvalid
        dsimp only
        rw [htake, if_pos hword, List.drop_left]

/-- The fields of an object are read back in their order. -/
theorem readFields_render {fields : List (Text × Scalar)} (hne : fields ≠ [])
    (hvalid : ∀ field ∈ fields, field.2.Valid) {after : Text}
    (hafter : after.all Char.isWhitespace = true) {fuel : Nat}
    (hfuel : fields.length ≤ fuel) :
    readFields fuel (renderScalars fields ++ '}' :: after) = some fields := by
  induction fields generalizing fuel with
  | nil => exact absurd rfl hne
  | cons field fields ih =>
      obtain ⟨name, value⟩ := field
      cases fuel with
      | zero => cases hfuel
      | succ fuel =>
          have hvalue := hvalid _ List.mem_cons_self
          cases fields with
          | nil =>
              change readFields (fuel + 1)
                ((renderString name ++ ':' :: value.render) ++ '}' :: after) = _
              have hscalar : readScalar (value.render ++ '}' :: after) =
                  some (value, '}' :: after) := readScalar_render hvalue rfl
              rw [List.append_assoc, List.cons_append, readFields, readString_render]
              simp only [Option.bind_eq_bind, Option.bind_some, hscalar, hafter, if_true]
          | cons next fields =>
              change readFields (fuel + 1) ((renderString name ++ ':' :: value.render ++
                ',' :: renderScalars (next :: fields)) ++ '}' :: after) = _
              have hrest : readFields fuel (renderScalars (next :: fields) ++ '}' :: after) =
                  some (next :: fields) := by
                apply ih (List.cons_ne_nil _ _) _ (Nat.le_of_succ_le_succ hfuel)
                exact fun field hfield => hvalid field (List.mem_cons_of_mem _ hfield)
              have hscalar : readScalar (value.render ++
                  ',' :: (renderScalars (next :: fields) ++ '}' :: after)) =
                  some (value, ',' :: (renderScalars (next :: fields) ++ '}' :: after)) :=
                readScalar_render hvalue rfl
              rw [List.append_assoc, List.append_assoc, List.cons_append, List.cons_append,
                readFields, readString_render]
              simp only [Option.bind_eq_bind, Option.bind_some, hscalar, hrest]
              rfl

theorem length_le_renderScalars (fields : List (Text × Scalar)) :
    fields.length ≤ (renderScalars fields).length := by
  induction fields with
  | nil => exact Nat.le_refl 0
  | cons field fields ih =>
      obtain ⟨name, value⟩ := field
      cases fields with
      | nil =>
          simp only [renderScalars, List.length_append, List.length_cons, List.length_nil]
          omega
      | cons next fields =>
          simp only [renderScalars, List.length_append, List.length_cons] at ih ⊢
          omega

/-- An object is read back from its compact text. -/
theorem readObject_render {fields : List (Text × Scalar)} (hne : fields ≠ [])
    (hvalid : ∀ field ∈ fields, field.2.Valid) {after : Text}
    (hafter : after.all Char.isWhitespace = true) :
    readObject ('{' :: (renderScalars fields ++ '}' :: after)) = some fields := by
  change readFields _ _ = _
  apply readFields_render hne hvalid hafter
  have hle := length_le_renderScalars fields
  rw [List.length_append]
  omega

end Yams.Json
