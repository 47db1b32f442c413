/-
The pre-images of the plan seal and of the vector keys.  Every field comes after its
length and every list after its count, so that a pre-image determines what was
hashed; with a digest that does not collide no altered plan is carried out.
-/
import Mathlib.Data.List.Forall2
import Yams.FrameStreams
import Yams.PrefixCode
import Yams.Sync

namespace Yams.Store

section Fields

/-- The length of what is in memory fits 64 bits. -/
def Fits {α : Type} (list : List α) : Prop := list.length < 2 ^ 64

instance {α : Type} (list : List α) : Decidable (Fits list) :=
  inferInstanceAs (Decidable (_ < _))

theorem be64_length (n : Nat) : (be64 n).length = 8 := rfl

/-- What is above a byte and the byte give back the number. -/
theorem eq_of_byte {m n : Nat} (k : Nat) (habove : m / 2 ^ (k + 8) = n / 2 ^ (k + 8))
    (hbyte : UInt8.ofNat (m / 2 ^ k) = UInt8.ofNat (n / 2 ^ k)) :
    m / 2 ^ k = n / 2 ^ k := by
  have hmod : m / 2 ^ k % 2 ^ 8 = n / 2 ^ k % 2 ^ 8 := by
    simpa only [UInt8.toNat_ofNat'] using congrArg UInt8.toNat hbyte
  rw [Nat.pow_add, ← Nat.div_div_eq_div_mul, ← Nat.div_div_eq_div_mul] at habove
  rw [← Nat.div_add_mod (m / 2 ^ k) (2 ^ 8), habove, hmod, Nat.div_add_mod]

theorem be64_injective {m n : Nat} (hm : m < 2 ^ 64) (hn : n < 2 ^ 64)
    (h : be64 m = be64 n) : m = n := by
  unfold be64 at h
  simp only [List.cons.injEq, and_true] at h
  obtain ⟨h7, h6, h5, h4, h3, h2, h1, h0⟩ := h
  have htop : m / 2 ^ (56 + 8) = n / 2 ^ (56 + 8) := by
    rw [Nat.div_eq_of_lt hm, Nat.div_eq_of_lt hn]
  have hall := eq_of_byte 8 (eq_of_byte 16 (eq_of_byte 24 (eq_of_byte 32 (eq_of_byte 40
    (eq_of_byte 48 (eq_of_byte 56 htop h7) h6) h5) h4) h3) h2) h1
  have hlast := eq_of_byte 0 hall (by simpa using h0)
  simpa using hlast

theorem be64_delimits : Delimits (fun n => n < 2 ^ 64) Eq be64 :=
  Delimits.fixed (fun n _ => be64_length n) fun _ _ => be64_injective

theorem planField_delimits : Delimits (fun value : Bytes => Fits value) Eq planField := by
  have hlength := be64_delimits.comp fun value : Bytes => value.length
  have hfield : Delimits (fun value : Bytes => value.length < 2 ^ 64)
      (fun x y => x.length = y.length ∧ x = y) planField :=
    hlength.append_of fun x y _ _ hxy r s heq => List.append_inj heq hxy
  exact hfield.mono (fun _ h => h) fun _ _ _ _ h => h.2

theorem planText_delimits : Delimits (fun text => Fits text.toBytes) Eq planText :=
  (planField_delimits.comp Text.toBytes).mono (fun _ h => h)
    fun _ _ _ _ h => Text.toBytes_injective h

theorem fits_be64 (n : Nat) : Fits (be64 n) := by
  rw [Fits, be64_length]
  decide

theorem planLength_delimits : Delimits (fun n => n < 2 ^ 64) Eq planLength :=
  (planField_delimits.comp be64).mono (fun n _ => fits_be64 n)
    fun _ _ hm hn h => be64_injective hm hn h

/-- An integer in eight bytes. -/
theorem planSigned_delimits :
    Delimits (fun _ => True) Eq fun value => planField (signedBytes value) := by
  apply (planField_delimits.comp signedBytes).mono fun _ _ => fits_be64 _
  intro x y _ _ h
  have hnat := be64_injective x.toUInt64.toNat_lt y.toUInt64.toNat_lt h
  exact congrArg Int64.ofUInt64 (UInt64.toNat_inj.1 hnat)

theorem planOrdinal_delimits :
    Delimits (fun _ : UInt32 => True) Eq fun n => planField (beBytes n.toNat) := by
  apply (planField_delimits.comp fun n : UInt32 => beBytes n.toNat).mono
  · intro n _
    rw [Fits]
    exact Nat.lt_of_le_of_lt (le_refl 4) (by decide)
  · intro x y _ _ h
    exact Blocking.beBytes_toNat_injective h

/-- A list after its count. -/
theorem delimits_counted {α : Type} {P : α → Prop} {R : α → α → Prop} {f : α → Bytes}
    (h : Delimits P R f) :
    Delimits (fun xs => Fits xs ∧ ∀ x ∈ xs, P x) (List.Forall₂ R)
      fun xs => planLength xs.length ++ xs.flatMap f := by
  have hlength := (planLength_delimits.comp fun xs : List α => xs.length).mono
    (fun xs (hxs : Fits xs ∧ ∀ x ∈ xs, P x) => hxs.1) fun _ _ _ _ h => h
  have hlist := hlength.append_of fun xs ys hxs hys hsame r s heq =>
    h.flatMap hsame hxs.2 hys.2 heq
  exact hlist.mono (fun _ h => h) fun _ _ _ _ h => h.2

end Fields

section Parts

/-- What is in memory fits, for the parts of a chunk. -/
def ChunkFits (chunk : Chunk) : Prop := Fits chunk.text.toBytes ∧ Fits chunk.embedText.toBytes

theorem chunkFields_delimits : Delimits ChunkFits Eq chunkFields := by
  have hordinal := planOrdinal_delimits.comp Chunk.ordinal
  have htext := planText_delimits.comp Chunk.text
  have hembed := planText_delimits.comp Chunk.embedText
  have hfields := ((hordinal.mono (fun _ _ => trivial) fun _ _ _ _ h => h).append
    (htext.mono (fun _ h => h.1) fun _ _ _ _ h => h)).append
    (hembed.mono (fun (_ : Chunk) (h : ChunkFits _) => h.2) fun _ _ _ _ h => h)
  refine hfields.mono (fun _ h => h) ?_
  rintro ⟨_, _, _⟩ ⟨_, _, _⟩ _ _ ⟨⟨rfl, rfl⟩, rfl⟩
  rfl

def NoteFits (note : ScanNote) : Prop := Fits note.path ∧ Fits note.detail.toBytes

theorem debug_injective {first second : ScanNoteKind}
    (h : ScanNoteKind.debug first = ScanNoteKind.debug second) : first = second := by
  have hall : ∀ first second : ScanNoteKind, ScanNoteKind.debug first =
      ScanNoteKind.debug second → first = second := by
    intro first second
    cases first <;> cases second <;> decide
  exact hall first second h

theorem debug_fits (kind : ScanNoteKind) : Fits (ScanNoteKind.debug kind).toBytes := by
  rw [Fits]
  cases kind <;> decide

theorem noteFields_delimits : Delimits NoteFits Eq noteFields := by
  have hpath := (planField_delimits.comp ScanNote.path).mono
    (fun _ (h : NoteFits _) => h.1) fun _ _ _ _ h => h
  have hkind := (planText_delimits.comp fun note => ScanNoteKind.debug note.kind).mono
    (fun note (_ : NoteFits note) => debug_fits note.kind) fun _ _ _ _ h => h
  have hdetail := (planText_delimits.comp ScanNote.detail).mono
    (fun _ (h : NoteFits _) => h.2) fun _ _ _ _ h => h
  have hfields := (((Delimits.const NoteFits (planText "unknown".toList)).append
    hpath).append hkind).append hdetail
  refine hfields.mono (fun _ h => h) ?_
  rintro ⟨_, first, _⟩ ⟨_, second, _⟩ _ _ ⟨⟨⟨-, rfl⟩, hdebug⟩, rfl⟩
  obtain rfl : first = second := debug_injective hdebug
  rfl

theorem deletionFields_delimits : Delimits (fun path => Fits path) Eq deletionFields :=
  ((Delimits.const _ (planText "deletion".toList)).append planField_delimits).mono
    (fun _ h => h) fun _ _ _ _ h => h.2

/-- The tag tells whether a text follows. -/
theorem statusFields_delimits :
    Delimits (fun status => ∀ text ∈ status, Fits text.toBytes) Eq statusFields := by
  rintro (_ | x) (_ | y) hx hy r s heq
  · exact ⟨rfl, (List.cons.inj heq).2⟩
  · cases (List.cons.inj heq).1
  · cases (List.cons.inj heq).1
  · obtain ⟨rfl, hrest⟩ := planText_delimits x y (hx x rfl) (hy y rfl) r s
      (List.cons.inj heq).2
    exact ⟨rfl, hrest⟩

theorem kind_delimits : Delimits (fun _ => True) Eq fun kind : UpsertKind => [kind.tag] := by
  have hlength : ∀ kind : UpsertKind, True → [kind.tag].length = 1 := fun _ _ => rfl
  apply Delimits.fixed hlength
  rintro (_ | _) (_ | _) _ _ h
  · rfl
  · cases h
  · cases h
  · rfl

end Parts

section Plans

variable {D : Type} [Sha256 D]

def UpsertFits (page : PageUpsert D) : Prop :=
  Fits page.source.path ∧ Fits page.corpus.toBytes ∧
    (∀ text ∈ page.status, Fits text.toBytes) ∧
    Fits (Sha256.hex page.source.sha256).toBytes ∧
    Fits page.chunks ∧ ∀ chunk ∈ page.chunks, ChunkFits chunk

/-- The updates are of the same page, with the same contents. -/
structure SameUpsert (page other : PageUpsert D) : Prop where
  path : page.source.path = other.source.path
  corpus : page.corpus = other.corpus
  status : page.status = other.status
  contentHash : Sha256.hex page.source.sha256 = Sha256.hex other.source.sha256
  byteLength : page.byteLength = other.byteLength
  modifiedNs : page.modifiedNs = other.modifiedNs
  device : page.device = other.device
  inode : page.inode = other.inode
  kind : page.kind = other.kind
  chunks : page.chunks = other.chunks

theorem upsertFields_delimits : Delimits UpsertFits SameUpsert (upsertFields (D := D)) := by
  have field {β : Type} {P : β → Prop} {R : β → β → Prop} {f : β → Bytes}
      (h : Delimits P R f) (k : PageUpsert D → β) (hfits : ∀ page, UpsertFits page → P (k page)) :
      Delimits UpsertFits (fun page other => R (k page) (k other)) fun page => f (k page) :=
    (h.comp k).mono hfits fun _ _ _ _ h => h
  have hfields := ((((((((((
    (Delimits.const (UpsertFits (D := D)) (planText "upsert".toList)).append
    (field planField_delimits (fun page => page.source.path) fun _ h => h.1)).append
    (field planText_delimits PageUpsert.corpus fun _ h => h.2.1)).append
    (field statusFields_delimits PageUpsert.status fun _ h => h.2.2.1)).append
    (field planText_delimits (fun page => Sha256.hex page.source.sha256)
      fun _ h => h.2.2.2.1)).append
    (field planSigned_delimits PageUpsert.byteLength fun _ _ => trivial)).append
    (field planSigned_delimits PageUpsert.modifiedNs fun _ _ => trivial)).append
    (field planSigned_delimits PageUpsert.device fun _ _ => trivial)).append
    (field planSigned_delimits PageUpsert.inode fun _ _ => trivial)).append
    (field kind_delimits PageUpsert.kind fun _ _ => trivial)).append
    (field (delimits_counted chunkFields_delimits) PageUpsert.chunks fun _ h => h.2.2.2.2))
  intro page other hpage hother r s heq
  have hsame := hfields page other hpage hother r s (by
    simpa only [upsertFields, List.append_assoc] using heq)
  obtain ⟨⟨⟨⟨⟨⟨⟨⟨⟨⟨⟨-, hpath⟩, hcorpus⟩, hstatus⟩, hhash⟩, hbytes⟩, hmodified⟩, hdevice⟩,
    hinode⟩, hkind⟩, hchunks⟩, hrest⟩ := hsame
  exact ⟨⟨hpath, hcorpus, hstatus, hhash, hbytes, hmodified, hdevice, hinode, hkind,
    List.forall₂_eq_eq_eq ▸ hchunks⟩, hrest⟩

/-- All that a plan lists fits in memory. -/
structure PlanFits (plan : SyncPlan D) : Prop where
  upserts : Fits plan.upserts ∧ ∀ page ∈ plan.upserts, UpsertFits page
  deletions : Fits plan.deletions ∧ ∀ path ∈ plan.deletions, Fits path
  unknown : Fits plan.unknown ∧ ∀ note ∈ plan.unknown, NoteFits note

/-- The plans do the same. -/
structure SamePlan (plan other : SyncPlan D) : Prop where
  generation : plan.generation = other.generation
  upserts : List.Forall₂ SameUpsert plan.upserts other.upserts
  deletions : plan.deletions = other.deletions
  unknown : plan.unknown = other.unknown

theorem samePlan_of_preimage {plan other : SyncPlan D} (hplan : PlanFits plan)
    (hother : PlanFits other) (h : plan.preimage = other.preimage) : SamePlan plan other := by
  have field {β : Type} {P : β → Prop} {R : β → β → Prop} {f : β → Bytes}
      (h : Delimits P R f) (k : SyncPlan D → β) (hfits : ∀ plan, PlanFits plan → P (k plan)) :
      Delimits PlanFits (fun plan other => R (k plan) (k other)) fun plan => f (k plan) :=
    (h.comp k).mono hfits fun _ _ _ _ h => h
  have hfields := ((((Delimits.const (PlanFits (D := D))
    (planText "yams-sync-plan-v1".toList)).append
    (field planSigned_delimits SyncPlan.generation fun _ _ => trivial)).append
    (field (delimits_counted upsertFields_delimits) SyncPlan.upserts fun _ h => h.upserts)).append
    (field (delimits_counted deletionFields_delimits) SyncPlan.deletions
      fun _ h => h.deletions)).append
    (field (delimits_counted noteFields_delimits) SyncPlan.unknown fun _ h => h.unknown)
  obtain ⟨⟨⟨⟨-, hgeneration⟩, hupserts⟩, hdeletions⟩, hunknown⟩ :=
    hfields.of_eq hplan hother h
  exact ⟨hgeneration, hupserts, List.forall₂_eq_eq_eq ▸ hdeletions,
    List.forall₂_eq_eq_eq ▸ hunknown⟩

/-- A plan whose seal is of another pre-image is refused before anything is done. -/
theorem executeSyncPlan_altered [DecidableEq D] (root : PathBuf) {plan : SyncPlan D}
    (embedder : Embedder) (h : plan.planSeal ≠ Sha256.digest plan.preimage) :
    (executeSyncPlan root plan embedder).run = .ret (.error .alteredPlan) := by
  have hadmit : (admitPlan root plan embedder).run = .ret (.error .alteredPlan) := by
    rw [admitPlan, Fallible.run_bind, ensure, if_neg h]
    rfl
  rw [executeSyncPlan, Fallible.run_bind, hadmit]
  rfl

end Plans

section Keys

variable {D : Type} [Sha256 D]

/-- What is hashed for a vector key. -/
def vectorPreimage (modelSignature : Text) (role : EmbeddingRole) (text : Text) : Bytes :=
  planText modelSignature ++ planText role.asStr ++ planText text

/-- The fields of a key fit, or there is none. -/
theorem vectorKey_eq_ok {signature text : Text} {role : EmbeddingRole} {key : VectorKey D}
    (h : vectorKey signature role text = .ok key) :
    Fits signature.toBytes ∧ Fits text.toBytes ∧
      key = Sha256.digest (vectorPreimage signature role text) := by
  have hfield {value field : Bytes} (h : hashField (D := D) value = .ok field) :
      Fits value ∧ field = planField value := by
    unfold hashField at h
    split at h
    next hlength => exact ⟨hlength, (Except.ok.inj h).symm⟩
    next => cases h
  unfold vectorKey at h
  split at h
  · cases h
  · obtain ⟨first, hfirst, h⟩ := except_bind_eq_ok.1 h
    obtain ⟨second, hsecond, h⟩ := except_bind_eq_ok.1 h
    obtain ⟨third, hthird, h⟩ := except_bind_eq_ok.1 h
    obtain ⟨hsignature, rfl⟩ := hfield hfirst
    obtain ⟨-, rfl⟩ := hfield hsecond
    obtain ⟨htext, rfl⟩ := hfield hthird
    exact ⟨hsignature, htext, (Except.ok.inj h).symm⟩

theorem vectorPreimage_injective {signature text signature' text' : Text}
    {role role' : EmbeddingRole} (hsignature : Fits signature.toBytes)
    (htext : Fits text.toBytes) (hsignature' : Fits signature'.toBytes)
    (htext' : Fits text'.toBytes)
    (h : vectorPreimage signature role text = vectorPreimage signature' role' text') :
    signature = signature' ∧ role = role' ∧ text = text' := by
  have hrole (role : EmbeddingRole) : Fits role.asStr.toBytes := by
    rw [Fits]
    cases role <;> decide
  unfold vectorPreimage at h
  rw [List.append_assoc, List.append_assoc] at h
  obtain ⟨rfl, hmore⟩ := planText_delimits _ _ hsignature hsignature' _ _ h
  obtain ⟨hnames, hlast⟩ := planText_delimits _ _ (hrole role) (hrole role') _ _ hmore
  obtain rfl := planText_delimits.of_eq htext htext' hlast
  refine ⟨rfl, ?_, rfl⟩
  cases role <;> cases role' <;> first | rfl | cases hnames

/-- The seal and the keys bind what they are taken of.  Plans with one pre-image are the
same plan and texts with one pre-image the same text; so, when the digest has no
collisions, a plan that was altered after it was sealed is refused. -/
theorem sealed_encodings_injective (D : Type) [Sha256 D] [DecidableEq D] :
    (∀ plan other : SyncPlan D, PlanFits plan → PlanFits other →
      plan.preimage = other.preimage → SamePlan plan other) ∧
    (Function.Injective (Sha256.digest : Bytes → D) →
      ∀ root embedder (plan altered : SyncPlan D), PlanFits plan → PlanFits altered →
        plan.planSeal = Sha256.digest plan.preimage → altered.planSeal = plan.planSeal →
        ¬ SamePlan plan altered →
        (executeSyncPlan root altered embedder).run = .ret (.error .alteredPlan)) ∧
    ∀ (signature text signature' text' : Text) (role role' : EmbeddingRole)
      (key key' : VectorKey D), vectorKey signature role text = .ok key →
      vectorKey signature' role' text' = .ok key' →
      vectorPreimage signature role text = vectorPreimage signature' role' text' ∨
        Function.Injective (Sha256.digest : Bytes → D) ∧ key = key' →
      signature = signature' ∧ role = role' ∧ text = text' := by
  refine ⟨fun _ _ => samePlan_of_preimage, ?_, ?_⟩
  · intro hdigest root embedder plan altered hplan haltered hsealed hkept hother
    apply executeSyncPlan_altered
    rw [hkept, hsealed]
    intro hseal
    exact hother (samePlan_of_preimage hplan haltered (hdigest hseal))
  · intro signature text signature' text' role role' key key' hkey hkey' hsame
    obtain ⟨hsignature, htext, hdigest⟩ := vectorKey_eq_ok hkey
    obtain ⟨hsignature', htext', hdigest'⟩ := vectorKey_eq_ok hkey'
    apply vectorPreimage_injective hsignature htext hsignature' htext'
    rcases hsame with hpreimage | ⟨hinj, rfl⟩
    · exact hpreimage
    · exact hinj (hdigest.symm.trans hdigest')

end Keys

namespace PlanSealWitness

local instance : Sha256 Bytes := ⟨id, fun _ => []⟩

def deletion : PathBuf := Text.toBytes "a.md".toList

/-- The plan to delete one page. -/
def plan : SyncPlan Bytes where
  generation := 3
  upserts := []
  deletions := [deletion]
  unknown := []
  previousScheme := none
  targetScheme := ⟨[], 1⟩
  mode := .incremental
  notes := []
  scan := .empty
  unchangedVectorReferences := []
  projectPath := []
  projectBinding := ⟨[]⟩
  planSeal := planPreimage (D := Bytes) 3 [] [deletion] []

/-- The same plan, without the deletion. -/
def altered : SyncPlan Bytes := { plan with deletions := [] }

theorem plan_fits : PlanFits plan where
  upserts := ⟨by decide, fun _ hpage => nomatch hpage⟩
  deletions := ⟨by decide, by
    intro path hpath
    rw [List.mem_singleton.1 hpath]
    decide⟩
  unknown := ⟨by decide, fun _ hnote => nomatch hnote⟩

theorem altered_fits : PlanFits altered where
  upserts := ⟨by decide, fun _ hpage => nomatch hpage⟩
  deletions := ⟨by decide, fun _ hpath => nomatch hpath⟩
  unknown := ⟨by decide, fun _ hnote => nomatch hnote⟩

theorem altered_plan_refused :
    (executeSyncPlan [] altered ⟨"m".toList, 1, by decide⟩).run =
      .ret (.error .alteredPlan) :=
  (sealed_encodings_injective Bytes).2.1 (fun _ _ h => h) [] _ plan altered plan_fits
    altered_fits rfl rfl fun h => nomatch h.deletions

end PlanSealWitness

end Yams.Store
