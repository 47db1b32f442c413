/-
The rows of the vector table: the text of a key, the little-endian bytes of a
vector, and the record that is prepared of an input before it is stored.  The
norm of a vector is a parameter.
-/
import Yams.Vector
import Yams.Json
import Yams.Program
import Mathlib.Data.List.Pairwise

namespace Yams.VectorCache

/-- The digest of an embedding input, of 32 bytes. -/
structure Key where
  bytes : Bytes
  size : bytes.length = 32
  deriving DecidableEq

inductive KeyParseError
  | invalidLength (actual : Nat)
  | invalidHex (index : Nat)
  deriving DecidableEq

/-- `Display`: two lowercase digits for every byte. -/
def Key.toText (key : Key) : Text :=
  key.bytes.flatMap fun byte => Json.hexDigits byte.toNat

def hexDigit (value : UInt8) : Option UInt8 :=
  if 0x30 ≤ value ∧ value ≤ 0x39 then some (value - 0x30)
  else if 0x61 ≤ value ∧ value ≤ 0x66 then some (value - 0x61 + 10)
  else none

/-- The bytes that pairs of digits spell, the first pair being number `index`. -/
def parsePairs (index : Nat) : Bytes → Except KeyParseError Bytes
  | first :: second :: rest =>
      match hexDigit first, hexDigit second with
      | some high, some low => do
          let digest ← parsePairs (index + 1) rest
          return (high * 16 + low) :: digest
      | _, _ => .error (.invalidHex index)
  | _ => .ok []

theorem parsePairs_length {index : Nat} {bytes digest : Bytes}
    (h : parsePairs index bytes = .ok digest) : digest.length = bytes.length / 2 := by
  fun_induction parsePairs index bytes generalizing digest with
  | case1 index first second rest high low _ _ ih =>
      obtain ⟨tail, htail, hcons⟩ := except_bind_eq_ok.1 h
      obtain rfl := Except.ok.inj hcons
      have hlen := ih htail
      simp only [List.length_cons]
      omega
  | case2 => cases h
  | case3 bytes index hshort =>
      obtain rfl := Except.ok.inj h
      cases bytes with
      | nil => rfl
      | cons first rest =>
          cases rest with
          | nil => simp
          | cons second rest => exact absurd rfl (hshort first second rest)

/-- `VectorKey::from_str`. -/
def Key.parse (value : Text) : Except KeyParseError Key :=
  if hsize : value.toBytes.length = 64 then
    match hpairs : parsePairs 0 value.toBytes with
    | .ok digest => .ok ⟨digest, by rw [parsePairs_length hpairs, hsize]⟩
    | .error e => .error e
  else .error (.invalidLength value.toBytes.length)

/-! Vectors as bytes. -/

inductive DecodeError
  | empty | nonFinite | zeroNorm | notNormalized | dimensionOverflow
  | dimensionMismatch (expected actual : Nat)
  | invalidByteLength (expected actual : Nat)
  deriving DecidableEq

def le32 (component : UInt32) : Bytes :=
  let n := component.toNat
  [.ofNat n, .ofNat (n / 256), .ofNat (n / 65536), .ofNat (n / 16777216)]

def toLeBytes (embedding : Embedding) : Bytes := embedding.components.flatMap le32

def readComponents : Bytes → List UInt32
  | a :: b :: c :: d :: rest =>
      .ofNat (a.toNat + 256 * b.toNat + 65536 * c.toNat + 16777216 * d.toNat) ::
        readComponents rest
  | _ => []

section

-- the components of a vector that is not empty are finite, of squared norm about one
variable (checkNorm : List UInt32 → Except DecodeError Unit)

/-- `Embedding::from_le_bytes`. -/
def fromLeBytes (bytes : Bytes) (expectedDimensions : Nat) : Except DecodeError Embedding :=
  let expectedBytes := expectedDimensions * 4
  if 2 ^ 64 ≤ expectedBytes then .error .dimensionOverflow
  else if bytes.length % 4 ≠ 0 then
    .error (.invalidByteLength expectedBytes bytes.length)
  else if bytes.length / 4 ≠ expectedDimensions then
    .error (.dimensionMismatch expectedDimensions (bytes.length / 4))
  else
    let components := readComponents bytes
    if components = [] then .error .empty
    else
      match checkNorm components with
      | .ok _ => .ok ⟨components⟩
      | .error e => .error e

/-! The records. -/

/-- One row of the table of vectors. -/
structure Row where
  hash : Text
  modelSignature : Text
  dimensions : Int
  bytes : Bytes
  deriving DecidableEq

structure PreparedVector where
  key : Key
  modelSignature : Text
  dimensions : Nat
  bytes : Bytes
  deriving DecidableEq

/-- The values that are bound to the parameters of the insertion. -/
def PreparedVector.row (item : PreparedVector) : Row :=
  ⟨item.key.toText, item.modelSignature, item.dimensions, item.bytes⟩

inductive SqlError
  | busy | corrupt | constraint | other
  deriving DecidableEq

inductive CacheError
  | vector (error : VectorError Key)
  | invalidEmbedding (source : DecodeError)
  | invalidStoredKey (value : Text) (source : KeyParseError)
  | storedKeyMismatch (requested stored : Key)
  | invalidStoredModelSignature (key : Key)
  | invalidStoredDimensions (key : Key) (dimensions : Int)
  | invalidStoredEmbedding (key : Key) (source : DecodeError)
  | sql (operation : Text) (source : SqlError)
  deriving DecidableEq

variable [Sha256 Key]

/-- `PreparedVector::validate`. -/
def validate (input : VectorInsert Key) : Except CacheError PreparedVector := do
  let expected ← (vectorKey input.modelSignature input.role input.text).mapError .vector
  if input.key ≠ expected then throw (.vector (.keyMismatch input.key expected))
  else
    let dimensions := input.embedding.dimensions
    if 2 ^ 63 ≤ dimensions then throw (.vector (.invalidDimensions dimensions))
    else
      let bytes := toLeBytes input.embedding
      match fromLeBytes checkNorm bytes dimensions with
      | .error source => throw (.invalidEmbedding source)
      | .ok _ => return ⟨input.key, input.modelSignature, dimensions, bytes⟩

/-- Add an item to a map that is ordered by its keys. -/
def addItem (item : PreparedVector) : List PreparedVector → List PreparedVector
  | [] => [item]
  | other :: rest =>
      if item.key.bytes < other.key.bytes then item :: other :: rest
      else other :: addItem item rest

/-- One pass of the loop over the input. -/
def prepareItem (prepared : List PreparedVector) (input : VectorInsert Key) :
    Except CacheError (List PreparedVector) := do
  let item ← validate checkNorm input
  match prepared.find? fun previous => previous.key = item.key with
  | some previous =>
      if previous ≠ item then throw (.vector (.vectorCollision item.key))
      else return prepared
  | none => return addItem item prepared

def prepare (input : List (VectorInsert Key)) : Except CacheError (List PreparedVector) :=
  input.foldlM (prepareItem checkNorm) []

def checkedStoredDimensions (key : Key) (dimensions : Int) : Except CacheError Nat :=
  if dimensions ≤ 0 then .error (.invalidStoredDimensions key dimensions)
  else .ok dimensions.toNat

end

/-! The batches of a lookup. -/

def lookupBatchSize : Nat := 128

/-- One pass of the loop over the keys: the full batches, and the one being filled. -/
def addToBatch : List (List Text) × List Text → Key → List (List Text) × List Text
  | (batches, batch), key =>
      let batch := batch ++ [key.toText]
      if batch.length = lookupBatchSize then (batches ++ [batch], []) else (batches, batch)

def encodedKeyBatches (requested : List Key) : List (List Text) :=
  let (batches, batch) := requested.foldl addToBatch ([], [])
  if batch ≠ [] then batches ++ [batch] else batches

/-! The text of a key is read back, and no other text is read as that key. -/

def hexBytes (byte : UInt8) : Bytes := Text.toBytes (Json.hexDigits byte.toNat)

theorem toBytes_toText (key : Key) : key.toText.toBytes = key.bytes.flatMap hexBytes := by
  unfold Text.toBytes Key.toText
  rw [List.flatMap_assoc]
  rfl

theorem hexBytes_digits : ∀ n < 256, ∃ first second,
    hexBytes (.ofNat n) = [first, second] ∧
      hexDigit first = some (.ofNat (n / 16)) ∧ hexDigit second = some (.ofNat (n % 16)) := by
  have hall : (List.range 256).all (fun n => (hexBytes (.ofNat n)).map hexDigit =
      [some (.ofNat (n / 16)), some (.ofNat (n % 16))]) = true := by decide +kernel
  intro n hn
  have hdigits := of_decide_eq_true (List.all_eq_true.1 hall n (List.mem_range.2 hn))
  obtain ⟨first, rest, hbytes, hhigh, hrest⟩ := List.map_eq_cons_iff.1 hdigits
  obtain ⟨second, last, rfl, hlow, hlast⟩ := List.map_eq_cons_iff.1 hrest
  obtain rfl := List.map_eq_nil_iff.1 hlast
  exact ⟨first, second, hbytes, hhigh, hlow⟩

theorem hexBytes_of_hexDigit : ∀ n < 256, ∀ m < 256, ∀ high low,
    hexDigit (.ofNat n) = some high → hexDigit (.ofNat m) = some low →
      hexBytes (high * 16 + low) = [.ofNat n, .ofNat m] := by
  have hdigit : (List.range 256).all (fun n =>
      match hexDigit (.ofNat n) with
      | some digit => digit.toNat < 16 ∧
          Text.toBytes [Nat.digitChar digit.toNat] = [.ofNat n]
      | none => true) = true := by decide +kernel
  have hread : ∀ n < 256, ∀ digit, hexDigit (.ofNat n) = some digit →
      digit.toNat < 16 ∧ Text.toBytes [Nat.digitChar digit.toNat] = [.ofNat n] := by
    intro n hn digit hsome
    have hone := List.all_eq_true.1 hdigit n (List.mem_range.2 hn)
    rw [hsome] at hone
    exact of_decide_eq_true hone
  intro n hn m hm high low hhigh hlow
  obtain ⟨hhighSmall, hhighText⟩ := hread n hn high hhigh
  obtain ⟨hlowSmall, hlowText⟩ := hread m hm low hlow
  have hnat : (high * 16 + low).toNat = high.toNat * 16 + low.toNat := by
    rw [UInt8.toNat_add, UInt8.toNat_mul]
    change (high.toNat * 16 % 256 + low.toNat) % 256 = _
    omega
  have hdiv : (high.toNat * 16 + low.toNat) / 16 = high.toNat := by omega
  have hmod : (high.toNat * 16 + low.toNat) % 16 = low.toNat := by omega
  unfold hexBytes Json.hexDigits
  rw [hnat, hdiv, hmod]
  change Text.toBytes ([Nat.digitChar high.toNat] ++ [Nat.digitChar low.toNat]) = _
  rw [Text.toBytes_append, hhighText, hlowText]
  rfl

theorem parsePairs_hexBytes (index : Nat) (bytes : Bytes) :
    parsePairs index (bytes.flatMap hexBytes) = .ok bytes := by
  induction bytes generalizing index with
  | nil => rw [List.flatMap_nil, parsePairs]; simp
  | cons byte bytes ih =>
      have hlt := byte.toNat_lt
      obtain ⟨first, second, hbytes, hhigh, hlow⟩ := hexBytes_digits byte.toNat hlt
      rw [UInt8.ofNat_toNat] at hbytes
      have hbyte : UInt8.ofNat (byte.toNat / 16) * 16 + UInt8.ofNat (byte.toNat % 16) =
          byte := by
        apply UInt8.toNat_inj.1
        rw [UInt8.toNat_add, UInt8.toNat_mul, UInt8.toNat_ofNat', UInt8.toNat_ofNat']
        change (byte.toNat / 16 % 256 * 16 % 256 + byte.toNat % 16 % 256) % 256 = _
        omega
      rw [List.flatMap_cons, hbytes]
      change parsePairs index (first :: second :: bytes.flatMap hexBytes) = _
      rw [parsePairs, hhigh, hlow]
      dsimp only
      rw [ih, except_ok_bind, hbyte]
      rfl

theorem flatMap_hexBytes_of_parsePairs {index : Nat} {bytes digest : Bytes}
    (heven : bytes.length % 2 = 0) (h : parsePairs index bytes = .ok digest) :
    digest.flatMap hexBytes = bytes := by
  fun_induction parsePairs index bytes generalizing digest with
  | case1 index first second rest high low hhigh hlow ih =>
      obtain ⟨tail, htail, hcons⟩ := except_bind_eq_ok.1 h
      obtain rfl := Except.ok.inj hcons
      have hpair := hexBytes_of_hexDigit first.toNat first.toNat_lt second.toNat
        second.toNat_lt high low (by rwa [UInt8.ofNat_toNat]) (by rwa [UInt8.ofNat_toNat])
      rw [UInt8.ofNat_toNat, UInt8.ofNat_toNat] at hpair
      simp only [List.length_cons] at heven
      rw [List.flatMap_cons, hpair, ih (by omega) htail]
      rfl
  | case2 => cases h
  | case3 bytes index hshort =>
      obtain rfl := Except.ok.inj h
      cases bytes with
      | nil => rfl
      | cons first rest =>
          cases rest with
          | nil => simp at heven
          | cons second rest => exact absurd rfl (hshort first second rest)

theorem toText_size (key : Key) : key.toText.toBytes.length = 64 := by
  have hhex : ∀ bytes : Bytes, (bytes.flatMap hexBytes).length = bytes.length * 2 := by
    intro bytes
    induction bytes with
    | nil => rfl
    | cons byte bytes ih =>
        obtain ⟨first, second, hbytes, -⟩ := hexBytes_digits byte.toNat byte.toNat_lt
        rw [UInt8.ofNat_toNat] at hbytes
        rw [List.flatMap_cons, List.length_append, ih, hbytes]
        simp only [List.length_cons, List.length_nil]
        omega
  rw [toBytes_toText, hhex, key.size]

theorem parse_toText (key : Key) : Key.parse key.toText = .ok key := by
  have hpairs : parsePairs 0 key.toText.toBytes = .ok key.bytes := by
    rw [toBytes_toText, parsePairs_hexBytes]
  unfold Key.parse
  rw [dif_pos (toText_size key)]
  split
  next digest hdigest =>
    have heq : digest = key.bytes := Except.ok.inj (hdigest.symm.trans hpairs)
    subst heq
    rfl
  next e herror => cases herror.symm.trans hpairs

/-- Only the text of a key is read as the key. -/
theorem toText_of_parse {value : Text} {key : Key} (h : Key.parse value = .ok key) :
    key.toText = value := by
  unfold Key.parse at h
  split at h
  next hsize =>
    split at h
    next digest hdigest =>
      obtain rfl := Except.ok.inj h
      apply Text.toBytes_injective
      rw [toBytes_toText]
      exact flatMap_hexBytes_of_parsePairs (by rw [hsize]) hdigest
    · cases h
  · cases h

theorem toText_injective {left right : Key} (h : left.toText = right.toText) :
    left = right := by
  have hparse := parse_toText left
  rw [h, parse_toText] at hparse
  exact (Except.ok.inj hparse).symm

/-! The bytes of a vector. -/

theorem readComponents_flatMap (components : List UInt32) :
    readComponents (components.flatMap le32) = components := by
  induction components with
  | nil => rfl
  | cons component components ih =>
      have hlt := component.toNat_lt
      change UInt32.ofNat _ :: readComponents (components.flatMap le32) = _
      rw [ih]
      congr 1
      apply UInt32.toNat_inj.1
      simp only [UInt8.toNat_ofNat', UInt32.toNat_ofNat']
      omega

theorem length_toLeBytes (embedding : Embedding) :
    (toLeBytes embedding).length = embedding.dimensions * 4 := by
  obtain ⟨components⟩ := embedding
  change (components.flatMap le32).length = components.length * 4
  induction components with
  | nil => rfl
  | cons component components ih =>
      rw [List.flatMap_cons, List.length_append, ih]
      simp only [le32, List.length_cons, List.length_nil]
      omega

/-! The prepared batch. -/

attribute [local simp] addItem

theorem mem_addItem {item other : PreparedVector} {prepared : List PreparedVector} :
    other ∈ addItem item prepared ↔ other = item ∨ other ∈ prepared := by
  induction prepared with
  | nil => simp
  | cons first rest ih =>
      rw [addItem]
      split
      · simp
      · rw [List.mem_cons, ih, List.mem_cons]
        tauto

/-- Every key is prepared once. -/
def Distinct (prepared : List PreparedVector) : Prop :=
  prepared.Pairwise fun item other => item.key ≠ other.key

theorem distinct_addItem {item : PreparedVector} {prepared : List PreparedVector}
    (h : Distinct prepared) (hnew : ∀ other ∈ prepared, other.key ≠ item.key) :
    Distinct (addItem item prepared) := by
  induction prepared with
  | nil => exact List.pairwise_singleton _ _
  | cons first rest ih =>
      rw [addItem]
      have hrest := List.pairwise_cons.1 h
      split
      · exact List.pairwise_cons.2 ⟨fun other hother => (hnew other hother).symm, h⟩
      · apply List.pairwise_cons.2
        refine ⟨?_, ih hrest.2 fun other hother => hnew other (List.mem_cons_of_mem _ hother)⟩
        intro other hother
        rcases mem_addItem.1 hother with rfl | hmem
        · exact hnew first List.mem_cons_self
        · exact hrest.1 other hmem

theorem Distinct.eq_of_key {prepared : List PreparedVector} (h : Distinct prepared)
    {item other : PreparedVector} (hitem : item ∈ prepared) (hother : other ∈ prepared)
    (hkey : item.key = other.key) : item = other := by
  by_contra hne
  have hsymm : Std.Symm fun item other : PreparedVector => item.key ≠ other.key :=
    ⟨fun _ _ hneq => hneq.symm⟩
  exact h.forall hitem hother hne hkey

section

variable {checkNorm : List UInt32 → Except DecodeError Unit}

theorem fromLeBytes_eq_ok {bytes : Bytes} {dimensions : Nat} {embedding : Embedding}
    (h : fromLeBytes checkNorm bytes dimensions = .ok embedding) :
    embedding.components = readComponents bytes ∧ embedding.components ≠ [] := by
  unfold fromLeBytes at h
  dsimp only at h
  split at h
  · cases h
  split at h
  · cases h
  split at h
  · cases h
  split at h
  · cases h
  next hne =>
    split at h
    · obtain rfl := Except.ok.inj h
      exact ⟨rfl, hne⟩
    · cases h

variable [Sha256 Key]

/-- What is known of a prepared item. -/
structure Prepared (checkNorm : List UInt32 → Except DecodeError Unit)
    (input : VectorInsert Key) (item : PreparedVector) : Prop where
  key : item.key = input.key
  signature : item.modelSignature = input.modelSignature
  named : item.modelSignature.isEmpty = false
  positive : 0 < item.dimensions
  dimensions : item.dimensions = input.embedding.dimensions
  length : item.bytes.length = item.dimensions * 4
  decodes : fromLeBytes checkNorm item.bytes item.dimensions = .ok input.embedding

theorem validate_eq_ok {input : VectorInsert Key} {item : PreparedVector}
    (h : validate checkNorm input = .ok item) : Prepared checkNorm input item := by
  unfold validate at h
  obtain ⟨expected, hexpected, h⟩ := except_bind_eq_ok.1 h
  have hnamed : input.modelSignature.isEmpty = false := by
    by_contra hempty
    rw [vectorKey, if_pos (by simpa using hempty)] at hexpected
    cases hexpected
  split at h
  · cases h
  dsimp only at h
  split at h
  · cases h
  split at h
  · cases h
  next embedding hdecoded =>
    obtain rfl := Except.ok.inj h
    obtain ⟨hcomponents, hne⟩ := fromLeBytes_eq_ok hdecoded
    have hsame : embedding = input.embedding := by
      obtain ⟨components⟩ := embedding
      change components = _ at hcomponents
      rw [hcomponents, toLeBytes, readComponents_flatMap]
    subst hsame
    exact ⟨rfl, rfl, hnamed, List.length_pos_iff.2 hne, rfl, length_toLeBytes _, hdecoded⟩

/-- The items are those of the inputs so far, each key once. -/
structure Batch (checkNorm : List UInt32 → Except DecodeError Unit)
    (inputs : List (VectorInsert Key)) (prepared : List PreparedVector) : Prop where
  distinct : Distinct prepared
  valid : ∀ input ∈ inputs, ∃ item ∈ prepared, validate checkNorm input = .ok item
  covered : ∀ item ∈ prepared, ∃ input ∈ inputs, validate checkNorm input = .ok item

theorem batch_nil : Batch checkNorm [] [] where
  distinct := .nil
  valid _ h := (List.not_mem_nil h).elim
  covered _ h := (List.not_mem_nil h).elim

theorem prepareItem_batch {inputs : List (VectorInsert Key)} {input : VectorInsert Key}
    {prepared prepared' : List PreparedVector} (hbatch : Batch checkNorm inputs prepared)
    (h : prepareItem checkNorm prepared input = .ok prepared') :
    Batch checkNorm (inputs ++ [input]) prepared' := by
  unfold prepareItem at h
  obtain ⟨item, hitem, h⟩ := except_bind_eq_ok.1 h
  -- in both cases the item is in the result, which has otherwise what was there
  have hresult : Distinct prepared' ∧
      ∀ other, other ∈ prepared' ↔ other = item ∨ other ∈ prepared := by
    split at h
    next previous hfind =>
      split at h
      · cases h
      next hsame =>
        obtain rfl := Except.ok.inj h
        rw [not_not] at hsame
        subst hsame
        refine ⟨hbatch.distinct, fun other => ⟨.inr, ?_⟩⟩
        rintro (rfl | hmem)
        · exact List.mem_of_find?_eq_some hfind
        · exact hmem
    next hfind =>
      obtain rfl := Except.ok.inj h
      refine ⟨distinct_addItem hbatch.distinct fun other hother => ?_, fun _ => mem_addItem⟩
      simpa using List.find?_eq_none.1 hfind other hother
  refine ⟨hresult.1, ?_, ?_⟩
  · intro each heach
    rcases List.mem_append.1 heach with hold | hlast
    · obtain ⟨other, hother, hvalid⟩ := hbatch.valid each hold
      exact ⟨other, (hresult.2 other).2 (.inr hother), hvalid⟩
    · obtain rfl := List.mem_singleton.1 hlast
      exact ⟨item, (hresult.2 item).2 (.inl rfl), hitem⟩
  · intro other hother
    rcases (hresult.2 other).1 hother with rfl | hold
    · exact ⟨input, List.mem_append_right _ List.mem_cons_self, hitem⟩
    · obtain ⟨each, heach, hvalid⟩ := hbatch.covered other hold
      exact ⟨each, List.mem_append_left _ heach, hvalid⟩

theorem foldlM_prepareItem {done input : List (VectorInsert Key)}
    {prepared prepared' : List PreparedVector} (hbatch : Batch checkNorm done prepared)
    (h : input.foldlM (prepareItem checkNorm) prepared = .ok prepared') :
    Batch checkNorm (done ++ input) prepared' := by
  induction input generalizing done prepared with
  | nil =>
      rw [List.append_nil]
      exact Except.ok.inj h ▸ hbatch
  | cons first rest ih =>
      rw [List.foldlM_cons] at h
      obtain ⟨next, hnext, hrest⟩ := except_bind_eq_ok.1 h
      have hall := ih (prepareItem_batch hbatch hnext) hrest
      rwa [List.append_assoc] at hall

theorem prepare_eq_ok {input : List (VectorInsert Key)} {prepared : List PreparedVector}
    (h : prepare checkNorm input = .ok prepared) : Batch checkNorm input prepared :=
  foldlM_prepareItem batch_nil h

/-- Every item is valid, and no key stands for two different items. -/
def Consistent (checkNorm : List UInt32 → Except DecodeError Unit)
    (inputs : List (VectorInsert Key)) : Prop :=
  ∀ input ∈ inputs, ∃ item, validate checkNorm input = .ok item ∧
    ∀ other ∈ inputs, other.key = input.key → validate checkNorm other = .ok item

theorem Batch.consistent {inputs : List (VectorInsert Key)} {prepared : List PreparedVector}
    (h : Batch checkNorm inputs prepared) : Consistent checkNorm inputs := by
  intro input hinput
  obtain ⟨item, hitem, hvalid⟩ := h.valid input hinput
  refine ⟨item, hvalid, ?_⟩
  intro other hother hkey
  obtain ⟨otherItem, hmem, hotherValid⟩ := h.valid other hother
  have hsame : otherItem.key = item.key := by
    rw [(validate_eq_ok hotherValid).key, hkey, (validate_eq_ok hvalid).key]
  rw [hotherValid, h.distinct.eq_of_key hmem hitem hsame]

theorem foldlM_prepareItem_ok {done input : List (VectorInsert Key)}
    {prepared : List PreparedVector} (hbatch : Batch checkNorm done prepared)
    (hconsistent : Consistent checkNorm (done ++ input)) :
    ∃ prepared', input.foldlM (prepareItem checkNorm) prepared = .ok prepared' := by
  induction input generalizing done prepared with
  | nil => exact ⟨prepared, rfl⟩
  | cons first rest ih =>
      have hmem : first ∈ done ++ first :: rest :=
        List.mem_append_right _ List.mem_cons_self
      obtain ⟨item, hvalid, hothers⟩ := hconsistent first hmem
      have hstep : ∃ next, prepareItem checkNorm prepared first = .ok next := by
        unfold prepareItem
        rw [hvalid, except_ok_bind]
        split
        next previous hfind =>
          have hprevious := List.mem_of_find?_eq_some hfind
          have hkey : previous.key = item.key := by simpa using List.find?_some hfind
          obtain ⟨each, heach, heachValid⟩ := hbatch.covered previous hprevious
          have hsame := hothers each (List.mem_append_left _ heach) (by
            rw [← (validate_eq_ok heachValid).key, hkey, (validate_eq_ok hvalid).key])
          rw [heachValid] at hsame
          rw [if_neg (not_not.2 (Except.ok.inj hsame))]
          exact ⟨prepared, rfl⟩
        · exact ⟨_, rfl⟩
      obtain ⟨next, hnext⟩ := hstep
      obtain ⟨prepared', hrest⟩ := ih (prepareItem_batch hbatch hnext)
        (by rwa [List.append_assoc])
      refine ⟨prepared', ?_⟩
      rw [List.foldlM_cons, hnext, except_ok_bind, hrest]

theorem prepare_ok_of_consistent {input : List (VectorInsert Key)}
    (h : Consistent checkNorm input) : ∃ prepared, prepare checkNorm input = .ok prepared :=
  foldlM_prepareItem_ok batch_nil h

end

/-! The batches are the keys in their order, none of them dropped or repeated. -/

theorem foldl_addToBatch (requested : List Key) (batches : List (List Text))
    (batch : List Text) :
    let result := requested.foldl addToBatch (batches, batch)
    result.1.flatten ++ result.2 = batches.flatten ++ batch ++ requested.map Key.toText := by
  induction requested generalizing batches batch with
  | nil => simp
  | cons key requested ih =>
      rw [List.foldl_cons, addToBatch]
      dsimp only
      split
      · rw [ih]
        simp
      · rw [ih]
        simp

theorem flatten_encodedKeyBatches (requested : List Key) :
    (encodedKeyBatches requested).flatten = requested.map Key.toText := by
  have hall := foldl_addToBatch requested [] []
  unfold encodedKeyBatches
  dsimp only at hall ⊢
  rw [List.flatten_nil, List.nil_append, List.nil_append] at hall
  split
  · rw [List.flatten_append, List.flatten_singleton, hall]
  next hempty =>
    rw [not_not] at hempty
    rw [hempty, List.append_nil] at hall
    exact hall

end Yams.VectorCache
