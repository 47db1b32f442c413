/-
The grammar of JSON texts: white space around every token, and a choice of
escapes in every string.  No text of a value is shorter than its compact one.
-/
import Yams.Json

namespace Yams.Json

section Strings

/-- White space of the grammar. -/
def Blank (text : Text) : Prop :=
  ∀ c ∈ text, c = ' ' ∨ c = '\t' ∨ c = '\n' ∨ c = '\r'

def hexValue (c : Char) : Option Nat :=
  if '0' ≤ c ∧ c ≤ '9' then some (c.toNat - '0'.toNat)
  else if 'a' ≤ c ∧ c ≤ 'f' then some (c.toNat - 'a'.toNat + 10)
  else if 'A' ≤ c ∧ c ≤ 'F' then some (c.toNat - 'A'.toNat + 10)
  else none

/-- The number that four hexadecimal digits stand for. -/
def codeUnit : Text → Option Nat
  | [a, b, c, d] => do
      return ((← hexValue a) * 16 + (← hexValue b)) * 256 +
        (← hexValue c) * 16 + (← hexValue d)
  | _ => none

/-- The letters of the two-character escapes. -/
def shortEscapes : List (Char × Char) :=
  [('"', '"'), ('\\', '\\'), ('/', '/'), ('b', Char.ofNat 8),
    ('f', Char.ofNat 12), ('n', '\n'), ('r', '\r'), ('t', '\t')]

/-- A spelling of one character of a string. -/
inductive SpellsChar : Text → Char → Prop
  | plain {c : Char} (hquote : c ≠ '"') (hslash : c ≠ '\\')
      (hvisible : 32 ≤ c.toNat) : SpellsChar [c] c
  | short {letter c : Char} (hmem : (letter, c) ∈ shortEscapes) :
      SpellsChar ['\\', letter] c
  | unit {digits : Text} {c : Char} (hdigits : codeUnit digits = some c.toNat) :
      SpellsChar ('\\' :: 'u' :: digits) c
  | pair {first second : Text} {high low : Nat} {c : Char}
      (hfirst : codeUnit first = some high)
      (hsecond : codeUnit second = some low)
      (hhigh : 0xd800 ≤ high ∧ high ≤ 0xdbff)
      (hlow : 0xdc00 ≤ low ∧ low ≤ 0xdfff)
      (hc : c.toNat = 0x10000 + (high - 0xd800) * 0x400 + (low - 0xdc00)) :
      SpellsChar ('\\' :: 'u' :: first ++ '\\' :: 'u' :: second) c

/-- A spelling of the characters of a string, one after another. -/
inductive SpellsText : Text → Text → Prop
  | nil : SpellsText [] []
  | cons {spelling rest text : Text} {c : Char} (hchar : SpellsChar spelling c)
      (htext : SpellsText rest text) : SpellsText (spelling ++ rest) (c :: text)

def SpellsString (value text : Text) : Prop :=
  ∃ body, text = '"' :: body ++ ['"'] ∧ SpellsText body value

theorem escape_of_plain {c : Char} (hquote : c ≠ '"') (hslash : c ≠ '\\')
    (hvisible : 32 ≤ c.toNat) : escape c = [c] := by
  have hlow (d : Char) (hd : d.toNat < 32) : c ≠ d := by
    rintro rfl
    omega
  unfold escape
  rw [if_neg hquote, if_neg hslash, if_neg (hlow '\n' (by decide)),
    if_neg (hlow '\r' (by decide)), if_neg (hlow '\t' (by decide)),
    if_neg (by omega), if_neg (by omega), if_neg (by omega)]

theorem byteLength_escape_le (c : Char) : (escape c).byteLength ≤ 6 := by
  by_cases hquote : c = '"'
  · subst hquote
    decide
  by_cases hslash : c = '\\'
  · subst hslash
    decide
  by_cases hvisible : 32 ≤ c.toNat
  · rw [escape_of_plain hquote hslash hvisible, Text.byteLength_cons]
    have hsize := c.utf8Size_le_four
    simp only [Text.byteLength_nil]
    omega
  · have hcontrol : ∀ n < 32, (escape (Char.ofNat n)).byteLength ≤ 6 := by decide
    have hc := hcontrol c.toNat (Nat.not_le.1 hvisible)
    rwa [Char.ofNat_toNat] at hc

theorem codeUnit_length {digits : Text} {n : Nat} (h : codeUnit digits = some n) :
    digits.length = 4 := by
  unfold codeUnit at h
  split at h
  · rfl
  · cases h

/-- No spelling of a character is shorter than its escape. -/
theorem SpellsChar.shortest {spelling : Text} {c : Char}
    (h : SpellsChar spelling c) : (escape c).byteLength ≤ spelling.byteLength := by
  cases h with
  | plain hquote hslash hvisible =>
      rw [escape_of_plain hquote hslash hvisible]
  | short hmem =>
      have hall : ∀ pair ∈ shortEscapes,
          (escape pair.2).byteLength ≤ Text.byteLength ['\\', pair.1] := by decide
      exact hall _ hmem
  | @unit digits c hdigits =>
      have hlength := codeUnit_length hdigits
      have hle := Text.length_le_byteLength ('\\' :: 'u' :: digits)
      simp only [List.length_cons, hlength] at hle
      exact Nat.le_trans (byteLength_escape_le c) (by omega)
  | @pair first second high low c hfirst hsecond =>
      have hlength := codeUnit_length hfirst
      have hle := Text.length_le_byteLength
        ('\\' :: 'u' :: first ++ '\\' :: 'u' :: second)
      simp only [List.length_cons, List.length_append, hlength] at hle
      exact Nat.le_trans (byteLength_escape_le c) (by omega)

theorem SpellsText.shortest {body text : Text} (h : SpellsText body text) :
    Text.byteLength (text.flatMap escape) ≤ body.byteLength := by
  induction h with
  | nil => exact Nat.le_refl 0
  | cons hchar htext ih =>
      have hfirst := hchar.shortest
      rw [List.flatMap_cons, Text.byteLength_append, Text.byteLength_append]
      omega

theorem SpellsString.shortest {value text : Text} (h : SpellsString value text) :
    (renderString value).byteLength ≤ text.byteLength := by
  obtain ⟨body, rfl, hbody⟩ := h
  have hle := hbody.shortest
  unfold renderString
  simp only [List.cons_append, Text.byteLength_cons, Text.byteLength_append]
  omega

theorem spellsChar_escape (c : Char) : SpellsChar (escape c) c := by
  by_cases hquote : c = '"'
  · subst hquote
    exact @SpellsChar.short '"' '"' (by decide)
  by_cases hslash : c = '\\'
  · subst hslash
    exact @SpellsChar.short '\\' '\\' (by decide)
  by_cases hvisible : 32 ≤ c.toNat
  · rw [escape_of_plain hquote hslash hvisible]
    exact .plain hquote hslash hvisible
  · have hcontrol : ∀ n < 32,
        (shortEscapes.any fun pair => pair.2 = Char.ofNat n ∧
          escape (Char.ofNat n) = ['\\', pair.1]) = true ∨
        (escape (Char.ofNat n) =
            '\\' :: 'u' :: (escape (Char.ofNat n)).drop 2 ∧
          codeUnit ((escape (Char.ofNat n)).drop 2) =
            some (Char.ofNat n).toNat) := by decide
    have hc := hcontrol c.toNat (Nat.not_le.1 hvisible)
    rw [Char.ofNat_toNat] at hc
    rcases hc with hshort | ⟨hunit, hvalue⟩
    · obtain ⟨⟨letter, d⟩, hmem, heq⟩ := List.any_eq_true.1 hshort
      obtain ⟨rfl, hescape⟩ := of_decide_eq_true heq
      rw [hescape]
      exact .short hmem
    · rw [hunit]
      exact .unit hvalue

theorem spellsText_flatMap (text : Text) :
    SpellsText (text.flatMap escape) text := by
  induction text with
  | nil => exact .nil
  | cons c text ih =>
      rw [List.flatMap_cons]
      exact .cons (spellsChar_escape c) ih

end Strings

section Values

/-- A token with white space around it. -/
def Padded (spells : Text → Prop) (text : Text) : Prop :=
  ∃ before inner after, text = before ++ inner ++ after ∧
    Blank before ∧ Blank after ∧ spells inner

theorem padded_of_spells {spells : Text → Prop} {text : Text} (h : spells text) :
    Padded spells text :=
  ⟨[], text, [], by simp, by simp [Blank], by simp [Blank], h⟩

theorem Padded.shortest {spells : Text → Prop} {text : Text} {length : Nat}
    (h : Padded spells text)
    (hinner : ∀ inner, spells inner → length ≤ inner.byteLength) :
    length ≤ text.byteLength := by
  obtain ⟨before, inner, after, rfl, -, -, hspells⟩ := h
  have hle := hinner inner hspells
  rw [Text.byteLength_append, Text.byteLength_append]
  omega

mutual

/-- A text of a value, without white space at its ends. -/
def Spells : Json → Text → Prop
  | .null => fun text => text = "null".toList
  | .bool true => fun text => text = "true".toList
  | .bool false => fun text => text = "false".toList
  | .num n => fun text => text = Text.ofNat n
  | .str value => SpellsString value
  | .arr items => fun text =>
      ∃ body, text = '[' :: body ++ [']'] ∧ SpellsItems items body
  | .obj fields => fun text =>
      ∃ body, text = '{' :: body ++ ['}'] ∧ SpellsFields fields body

def SpellsItems : List Json → Text → Prop
  | [] => Blank
  | [item] => Padded item.Spells
  | item :: items => fun text =>
      ∃ first rest, text = first ++ ',' :: rest ∧ Padded item.Spells first ∧
        SpellsItems items rest

def SpellsFields : List (Text × Json) → Text → Prop
  | [] => Blank
  | [(key, value)] => fun text =>
      ∃ left right, text = left ++ ':' :: right ∧
        Padded (SpellsString key) left ∧ Padded value.Spells right
  | (key, value) :: fields => fun text =>
      ∃ left right rest, text = left ++ ':' :: right ++ ',' :: rest ∧
        Padded (SpellsString key) left ∧ Padded value.Spells right ∧
        SpellsFields fields rest

end

/-- A text that is one value to its end. -/
def Document (v : Json) (text : Text) : Prop := Padded v.Spells text

mutual

/-- No text of a value is shorter than its compact one. -/
theorem Spells.shortest : ∀ (v : Json) (text : Text), v.Spells text →
    v.render.byteLength ≤ text.byteLength
  | .null, text, h => by
      rw [Spells] at h
      rw [h, render]
  | .bool true, text, h => by
      rw [Spells] at h
      rw [h, render]
  | .bool false, text, h => by
      rw [Spells] at h
      rw [h, render]
  | .num n, text, h => by
      rw [Spells] at h
      rw [h, render]
  | .str value, text, h => by
      rw [Spells] at h
      rw [render]
      exact h.shortest
  | .arr items, text, h => by
      rw [Spells] at h
      obtain ⟨body, rfl, hbody⟩ := h
      have hle := SpellsItems.shortest items body hbody
      rw [render]
      simp only [List.cons_append, Text.byteLength_cons, Text.byteLength_append]
      omega
  | .obj fields, text, h => by
      rw [Spells] at h
      obtain ⟨body, rfl, hbody⟩ := h
      have hle := SpellsFields.shortest fields body hbody
      rw [render]
      simp only [List.cons_append, Text.byteLength_cons, Text.byteLength_append]
      omega

theorem SpellsItems.shortest : ∀ (items : List Json) (text : Text),
    SpellsItems items text →
    (renderItems items).byteLength ≤ text.byteLength
  | [], text, _ => by
      rw [renderItems]
      exact Nat.zero_le _
  | [item], text, h => by
      rw [SpellsItems] at h
      rw [renderItems]
      exact h.shortest fun inner hinner => Spells.shortest item inner hinner
  | item :: next :: items, text, h => by
      rw [SpellsItems] at h
      · obtain ⟨first, rest, rfl, hfirst, hrest⟩ := h
        have hhead := hfirst.shortest fun inner hinner =>
          Spells.shortest item inner hinner
        have htail := SpellsItems.shortest (next :: items) rest hrest
        rw [renderItems]
        · simp only [Text.byteLength_cons, Text.byteLength_append]
          omega
        · simp
      · simp

theorem SpellsFields.shortest : ∀ (fields : List (Text × Json)) (text : Text),
    SpellsFields fields text →
    (renderFields fields).byteLength ≤ text.byteLength
  | [], text, _ => by
      rw [renderFields]
      exact Nat.zero_le _
  | [(key, value)], text, h => by
      rw [SpellsFields] at h
      obtain ⟨left, right, rfl, hkey, hvalue⟩ := h
      have hleft := hkey.shortest fun inner hinner => SpellsString.shortest hinner
      have hright := hvalue.shortest fun inner hinner =>
        Spells.shortest value inner hinner
      rw [renderFields]
      simp only [Text.byteLength_cons, Text.byteLength_append]
      omega
  | (key, value) :: field :: fields, text, h => by
      rw [SpellsFields] at h
      · obtain ⟨left, right, rest, rfl, hkey, hvalue, hrest⟩ := h
        have hleft := hkey.shortest fun inner hinner =>
          SpellsString.shortest hinner
        have hright := hvalue.shortest fun inner hinner =>
          Spells.shortest value inner hinner
        have htail := SpellsFields.shortest (field :: fields) rest hrest
        rw [renderFields]
        · simp only [Text.byteLength_cons, Text.byteLength_append]
          omega
        · simp
      · simp

end

theorem Document.shortest {v : Json} {text : Text} (h : Document v text) :
    v.render.byteLength ≤ text.byteLength :=
  Padded.shortest h fun inner hinner => Spells.shortest v inner hinner

mutual

theorem spells_render : ∀ v : Json, v.Spells v.render
  | .null => by rw [Spells, render]
  | .bool true => by rw [Spells, render]
  | .bool false => by rw [Spells, render]
  | .num n => by rw [Spells, render]
  | .str value => by
      rw [Spells, render]
      exact ⟨_, rfl, spellsText_flatMap value⟩
  | .arr items => by
      rw [Spells, render]
      exact ⟨_, rfl, spellsItems_render items⟩
  | .obj fields => by
      rw [Spells, render]
      exact ⟨_, rfl, spellsFields_render fields⟩

theorem spellsItems_render : ∀ items : List Json,
    SpellsItems items (renderItems items)
  | [] => by
      rw [SpellsItems, renderItems]
      exact fun c hc => nomatch hc
  | [item] => by
      rw [SpellsItems, renderItems]
      exact padded_of_spells (spells_render item)
  | item :: next :: items => by
      rw [SpellsItems, renderItems]
      · exact ⟨_, _, rfl, padded_of_spells (spells_render item),
          spellsItems_render (next :: items)⟩
      all_goals simp

theorem spellsFields_render : ∀ fields : List (Text × Json),
    SpellsFields fields (renderFields fields)
  | [] => by
      rw [SpellsFields, renderFields]
      exact fun c hc => nomatch hc
  | [(key, value)] => by
      rw [SpellsFields, renderFields]
      exact ⟨_, _, rfl, padded_of_spells ⟨_, rfl, spellsText_flatMap key⟩,
        padded_of_spells (spells_render value)⟩
  | (key, value) :: field :: fields => by
      rw [SpellsFields, renderFields]
      · exact ⟨_, _, _, rfl, padded_of_spells ⟨_, rfl, spellsText_flatMap key⟩,
          padded_of_spells (spells_render value),
          spellsFields_render (field :: fields)⟩
      all_goals simp

end

/-- The compact text of a value is one of its texts. -/
theorem document_render (v : Json) : Document v v.render :=
  padded_of_spells (spells_render v)

end Values

end Yams.Json
