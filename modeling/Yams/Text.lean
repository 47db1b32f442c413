/-
Texts as lists of characters, with the string operations the program uses, and
their UTF-8 bytes.
-/
import Mathlib.Algebra.GroupWithZero.Nat
import Mathlib.Data.List.Basic
import Mathlib.Data.List.Infix

namespace Yams

/-- A string, as the list of its characters. -/
abbrev Text := List Char

abbrev Bytes := List UInt8

instance : Coe String Text := ⟨String.toList⟩

instance : LawfulBEq Text := inferInstance

instance : LawfulBEq Bytes := inferInstance

namespace Text

/-- `str::as_bytes`. -/
def toBytes (text : Text) : Bytes := text.flatMap String.utf8EncodeChar

/-- `str::from_utf8`. -/
def fromUtf8 (bytes : Bytes) : Option Text :=
  bytes.toByteArray.utf8Decode?.map Array.toList

@[simp] theorem fromUtf8_toBytes (text : Text) :
    fromUtf8 text.toBytes = some text := by
  unfold fromUtf8 toBytes
  change (List.utf8Encode text).utf8Decode?.map Array.toList = some text
  rw [List.utf8Decode?_utf8Encode]
  simp

theorem toBytes_of_fromUtf8 {bytes : Bytes} {text : Text}
    (h : fromUtf8 bytes = some text) : text.toBytes = bytes := by
  obtain ⟨chars, hchars, rfl⟩ := Option.map_eq_some_iff.1 h
  have hsome : bytes.toByteArray.utf8Decode?.isSome :=
    Option.isSome_of_eq_some hchars
  have hget : bytes.toByteArray.utf8Decode?.get hsome = chars :=
    Option.get_of_eq_some hsome hchars
  have hencode := ByteArray.utf8Encode_get_utf8Decode? (h := hsome)
  rw [hget] at hencode
  have hdata := congrArg (fun b : ByteArray => b.data.toList) hencode
  simpa [List.utf8Encode, toBytes] using hdata

/-- `str::len`, in bytes. -/
def byteLength (text : Text) : Nat := text.toBytes.length

@[simp] theorem byteLength_nil : byteLength [] = 0 := rfl

theorem byteLength_append (left right : Text) :
    byteLength (left ++ right) = left.byteLength + right.byteLength := by
  simp [byteLength, toBytes]

theorem byteLength_cons (c : Char) (text : Text) :
    byteLength (c :: text) = c.utf8Size + text.byteLength := by
  simp [byteLength, toBytes, String.length_utf8EncodeChar]

theorem length_le_byteLength (text : Text) : text.length ≤ text.byteLength := by
  induction text with
  | nil => exact Nat.le_refl 0
  | cons c text ih =>
      have hsize := c.utf8Size_pos
      rw [List.length_cons, byteLength_cons]
      omega

/-- `str::strip_prefix`. -/
def stripPrefix (pre text : Text) : Option Text :=
  if pre.isPrefixOf text then some (text.drop pre.length) else none

/-- `str::split_once` at a character. -/
def splitOnce (separator : Char) : Text → Option (Text × Text)
  | [] => none
  | c :: rest =>
      if c = separator then some ([], rest)
      else (splitOnce separator rest).map fun (before, after) =>
        (c :: before, after)

theorem splitOnce_append {c : Char} {before after : Text} (hc : c ∉ before) :
    splitOnce c (before ++ c :: after) = some (before, after) := by
  induction before with
  | nil => simp [splitOnce]
  | cons d before ih =>
      have hd : d ≠ c := fun heq => hc (heq ▸ List.mem_cons_self)
      have hrest := ih fun hmem => hc (List.mem_cons_of_mem _ hmem)
      simp [splitOnce, hd, hrest]

theorem splitOnce_of_not_mem {c : Char} {text : Text} (hc : c ∉ text) :
    splitOnce c text = none := by
  induction text with
  | nil => rfl
  | cons d text ih =>
      have hd : d ≠ c := fun heq => hc (heq ▸ List.mem_cons_self)
      rw [splitOnce, if_neg hd,
        ih fun hmem => hc (List.mem_cons_of_mem _ hmem)]
      rfl

/-- A text without a character, or one cut at the first. -/
theorem segment_cases (c : Char) (text : Text) :
    c ∉ text ∨ ∃ segment rest, text = segment ++ c :: rest ∧ c ∉ segment := by
  by_cases h : c ∈ text
  · obtain ⟨segment, rest, htext, hsegment⟩ := List.eq_append_cons_of_mem h
    exact Or.inr ⟨segment, rest, htext, hsegment⟩
  · exact Or.inl h

theorem splitOnce_eq_some {c : Char} {text before after : Text}
    (h : splitOnce c text = some (before, after)) :
    text = before ++ c :: after ∧ c ∉ before := by
  rcases segment_cases c text with hmem | ⟨start, rest, rfl, hstart⟩
  · rw [splitOnce_of_not_mem hmem] at h
    cases h
  · rw [splitOnce_append hstart, Option.some.injEq, Prod.mk.injEq] at h
    obtain ⟨rfl, rfl⟩ := h
    exact ⟨rfl, hstart⟩

/-- `str::trim_matches`. -/
def trimMatches (p : Char → Bool) (text : Text) : Text :=
  ((text.dropWhile p).reverse.dropWhile p).reverse

/-- `char::is_whitespace`, the Unicode property `White_Space`. -/
def isWhitespace (c : Char) : Bool :=
  let n := c.toNat
  (9 ≤ n ∧ n ≤ 0xd) ∨ n = 0x20 ∨ n = 0x85 ∨ n = 0xa0 ∨ n = 0x1680 ∨
    (0x2000 ≤ n ∧ n ≤ 0x200a) ∨ n = 0x2028 ∨ n = 0x2029 ∨ n = 0x202f ∨
    n = 0x205f ∨ n = 0x3000

/-- `str::trim`. -/
def trim (text : Text) : Text := trimMatches isWhitespace text

/-- `str::cmp`: no text comes before itself. -/
def le (left right : Text) : Bool := decide (¬ right < left)

theorem le_iff {left right : Text} : le left right = true ↔ ¬ right < left := by
  simp [le]

theorem le_trans {x y z : Text} (hxy : le x y = true) (hyz : le y z = true) :
    le x z = true := by
  rw [le_iff] at hxy hyz ⊢
  exact List.not_lt.2 (List.le_trans (List.not_lt.1 hxy) (List.not_lt.1 hyz))

theorem le_total (x y : Text) : le x y = true ∨ le y x = true := by
  rw [le_iff, le_iff]
  by_cases hyx : y < x
  · exact Or.inr (List.lt_asymm hyx)
  · exact Or.inl hyx

theorem lt_of_le_of_ne {x y : Text} (hle : le x y = true) (hne : x ≠ y) :
    x < y := by
  rw [le_iff] at hle
  by_cases hxy : x < y
  · exact hxy
  · exact absurd (List.le_antisymm (List.not_lt.1 hle) (List.not_lt.1 hxy)) hne

/-- `[str]::join`. -/
def join (separator : Text) : List Text → Text
  | [] => []
  | [text] => text
  | text :: rest => text ++ separator ++ join separator rest

/-- `str::to_ascii_lowercase`. -/
def toAsciiLowercase (text : Text) : Text := text.map Char.toLower

/-- Decimal digits of a number. -/
def ofNat (n : Nat) : Text := Nat.toDigits 10 n

section Ascii

theorem utf8EncodeChar_ascii {c : Char} (hc : c.toNat < 0x80) :
    String.utf8EncodeChar c = [UInt8.ofNat c.toNat] := by
  have hle : c.val.toNat ≤ 0x7f := Nat.le_of_lt_succ hc
  unfold String.utf8EncodeChar
  rw [if_pos hle]
  rfl

/-- The bytes of a character that is not ASCII are no ASCII bytes. -/
theorem le_of_mem_utf8EncodeChar {c : Char} (hc : 0x80 ≤ c.toNat) {b : UInt8}
    (hb : b ∈ String.utf8EncodeChar c) : 0x80 ≤ b.toNat := by
  have hle : ¬ c.val.toNat ≤ 0x7f := Nat.not_le.2 hc
  have hlow (n : Nat) (hn : n < 0x40) : 0x80 ≤ (UInt8.ofNat (n + 0x80)).toNat := by
    rw [UInt8.toNat_ofNat']
    omega
  simp only [String.utf8EncodeChar, if_neg hle] at hb
  split at hb
  · simp only [List.mem_cons, List.not_mem_nil, or_false] at hb
    rcases hb with rfl | rfl
    · rw [UInt8.toNat_ofNat']
      omega
    · exact hlow _ (Nat.mod_lt _ (by decide))
  split at hb
  · simp only [List.mem_cons, List.not_mem_nil, or_false] at hb
    rcases hb with rfl | rfl | rfl
    · rw [UInt8.toNat_ofNat']
      omega
    · exact hlow _ (Nat.mod_lt _ (by decide))
    · exact hlow _ (Nat.mod_lt _ (by decide))
  · simp only [List.mem_cons, List.not_mem_nil, or_false] at hb
    rcases hb with rfl | rfl | rfl | rfl
    · rw [UInt8.toNat_ofNat']
      omega
    · exact hlow _ (Nat.mod_lt _ (by decide))
    · exact hlow _ (Nat.mod_lt _ (by decide))
    · exact hlow _ (Nat.mod_lt _ (by decide))

@[simp] theorem toBytes_append (left right : Text) :
    toBytes (left ++ right) = left.toBytes ++ right.toBytes := by
  simp [toBytes]

theorem toBytes_cons_ascii {c : Char} (hc : c.toNat < 0x80) (text : Text) :
    toBytes (c :: text) = UInt8.ofNat c.toNat :: text.toBytes := by
  simp [toBytes, utf8EncodeChar_ascii hc]

theorem toBytes_injective {left right : Text}
    (h : left.toBytes = right.toBytes) : left = right := by
  have hdecoded : fromUtf8 left.toBytes = fromUtf8 right.toBytes :=
    congrArg fromUtf8 h
  simpa using hdecoded

theorem ofNat_toNat_injective {c d : Char} (hc : c.toNat < 0x80)
    (hd : d.toNat < 0x80) (h : UInt8.ofNat c.toNat = UInt8.ofNat d.toNat) :
    c = d := by
  have hnat := congrArg UInt8.toNat h
  rw [UInt8.toNat_ofNat', UInt8.toNat_ofNat'] at hnat
  exact Char.ext (UInt32.toNat_inj.1 (by
    change c.toNat = d.toNat
    omega))

/-- The last byte of a text, if it is an ASCII character, is its last one. -/
theorem exists_concat_of_toBytes {text : Text} {before : Bytes} {c : Char}
    (hc : c.toNat < 0x80)
    (h : text.toBytes = before ++ [UInt8.ofNat c.toNat]) :
    ∃ start, text = start ++ [c] ∧ start.toBytes = before := by
  rcases List.eq_nil_or_concat text with rfl | ⟨start, d, rfl⟩
  · simp [toBytes] at h
  rw [List.concat_eq_append] at h ⊢
  have hbytes : toBytes [d] = String.utf8EncodeChar d := by simp [toBytes]
  rw [toBytes_append, hbytes] at h
  by_cases hd : d.toNat < 0x80
  · rw [utf8EncodeChar_ascii hd] at h
    obtain ⟨hstart, hlast⟩ := List.append_inj' h rfl
    have heq := ofNat_toNat_injective hd hc (List.cons.inj hlast).1
    exact ⟨start, by rw [heq], hstart⟩
  · -- the last byte of `d` would be the ASCII byte
    exfalso
    have hne : String.utf8EncodeChar d ≠ [] := by
      intro hnil
      have hlen := String.length_utf8EncodeChar d
      have hpos := d.utf8Size_pos
      rw [hnil] at hlen
      simp only [List.length_nil] at hlen
      omega
    have hlast := congrArg List.getLast? h
    rw [List.getLast?_append_of_ne_nil _ hne, List.getLast?_concat] at hlast
    have hbyte := le_of_mem_utf8EncodeChar (Nat.not_lt.1 hd)
      (List.mem_of_getLast? hlast)
    rw [UInt8.toNat_ofNat'] at hbyte
    omega

/-- ASCII characters at the end of the bytes of a text are at the end of it. -/
theorem exists_append_of_toBytes {text ending : Text} {before : Bytes}
    (hending : ∀ c ∈ ending, c.toNat < 0x80)
    (h : text.toBytes = before ++ ending.toBytes) :
    ∃ start, text = start ++ ending ∧ start.toBytes = before := by
  induction ending using List.reverseRecOn generalizing text with
  | nil => exact ⟨text, by simp, by simpa [toBytes] using h⟩
  | append_singleton ending c ih =>
      have hc := hending c (by simp)
      have hbytes : toBytes [c] = [UInt8.ofNat c.toNat] := by
        simp [toBytes, utf8EncodeChar_ascii hc]
      rw [toBytes_append, hbytes, ← List.append_assoc] at h
      obtain ⟨start, rfl, hstart⟩ := exists_concat_of_toBytes hc h
      obtain ⟨first, rfl, hfirst⟩ :=
        ih (fun d hd => hending d (by simp [hd])) hstart
      exact ⟨first, by simp, hfirst⟩

end Ascii

end Text

end Yams
