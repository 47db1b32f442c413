/-
What a created or updated page says when it is read again.  Type, owner, status
and dates come back as they were written.  Title and summary come back without
the white space around them and without one pair of quotes.
-/
import Yams.WikiPageReading

namespace Yams.Wiki

section Roundtrip

variable [Unicode]

theorem slugify_eq_ok {title slug : Text} (h : slugify title = .ok slug) :
    validateSlug slug = .ok () := by
  simp only [slugify] at h
  split at h
  next hvalid =>
      rw [← Except.ok.inj h]
      exact hvalid
  · cases h
  · cases h

/-- What the common checks of a request establish. -/
structure Accepted (request : CommonRequest) (slug : Text) : Prop where
  titleScalar : validateFrontmatterScalar "title".toList request.title = .ok ()
  summaryScalar :
    validateFrontmatterScalar "summary".toList request.summary = .ok ()
  slugOf : slugify request.title = .ok slug
  related : validateRelated slug request.related = .ok ()
  noReference : firstLineReference (renderPage request slug .shared .current
    "2026-01-01".toList "2026-01-01".toList) = none

theorem validateCommon_eq_ok {request : CommonRequest} {slug : Text}
    (h : validateCommon request = .ok slug) : Accepted request slug := by
  simp only [validateCommon, except_bind_eq_ok] at h
  obtain ⟨_, _, _, _, _, _, _, _, _, _, _, _, _, htitle, _, hsummary, found,
    hslug, _, hrelated, hprobe⟩ := h
  split at hprobe
  · cases hprobe
  next hreference =>
      have hfound := Except.ok.inj hprobe
      subst hfound
      exact ⟨htitle, hsummary, hslug, hrelated, hreference⟩

theorem Accepted.slugOk {request : CommonRequest} {slug : Text}
    (h : Accepted request slug) : validateSlug slug = .ok () :=
  slugify_eq_ok h.slugOf

theorem validateToday_eq_ok {today : Text} (h : validateToday today = .ok ()) :
    isIsoDate today = true := by
  unfold validateToday at h
  split at h
  next hdate => exact hdate
  · cases h

theorem renderCreate_eq_ok {request : CreateRequest} {today page : Text}
    (h : renderCreate request today = .ok page) :
    ∃ slug, isIsoDate today = true ∧ Accepted (.create request) slug ∧
      page = renderPage (.create request) slug request.owner .current today
        today ∧ ensureRenderedPage page = .ok () := by
  simp only [renderCreate, except_bind_eq_ok] at h
  obtain ⟨_, htoday, slug, hslug, _, hensure, hpage⟩ := h
  have heq := Except.ok.inj hpage
  subst heq
  exact ⟨slug, validateToday_eq_ok htoday, validateCommon_eq_ok hslug, rfl,
    hensure⟩

theorem renderCreate_ok {request : CreateRequest} {today slug : Text}
    (htoday : isIsoDate today = true) (hvalid : validateCreate request = .ok slug)
    (hensure : ensureRenderedPage (renderPage (.create request) slug request.owner .current
      today today) = .ok ()) :
    renderCreate request today =
      .ok (renderPage (.create request) slug request.owner .current today today) := by
  unfold renderCreate validateToday
  rw [if_pos htoday, except_ok_bind, hvalid, except_ok_bind]
  dsimp only
  rw [hensure, except_ok_bind]
  rfl

theorem validateUpdate_eq_ok {request : UpdateRequest} {slug : Text}
    (h : validateUpdate request = .ok slug) :
    Accepted (.update request) slug ∧ slug = request.target := by
  simp only [validateUpdate, except_bind_eq_ok] at h
  obtain ⟨_, _, _, _, _, _, found, hfound, _, htarget, hslug⟩ := h
  have heq := Except.ok.inj hslug
  subst heq
  exact ⟨validateCommon_eq_ok hfound, of_decide_eq_true (check_eq_ok.1 htarget)⟩

/-- What an accepted update found in the stored page. -/
structure Stored (current : Text) (target today : Text) (fields : Fields)
    (owner : Owner) (status : Status) : Prop where
  parsed : parseFrontmatterFields current = .ok fields
  slug : Fields.at fields "slug".toList = target
  owner : Owner.named (Fields.at fields "owner".toList) = some owner
  status : Status.named (Fields.at fields "status".toList) = some status
  updated : storedDateValid (Fields.at fields "updated".toList) today = true

omit [Unicode] in
theorem storedOwner_eq_ok {slug : Text} {fields : Fields} {owner : Owner}
    (h : storedOwner slug fields = .ok owner) :
    Owner.named (Fields.at fields "owner".toList) = some owner := by
  unfold storedOwner at h
  split at h
  next hnamed =>
      rw [← Except.ok.inj h]
      exact hnamed
  · cases h

omit [Unicode] in
theorem storedStatus_eq_ok {slug : Text} {fields : Fields} {status : Status}
    (h : storedStatus slug fields = .ok status) :
    Status.named (Fields.at fields "status".toList) = some status := by
  unfold storedStatus at h
  split at h
  next hnamed =>
      rw [← Except.ok.inj h]
      exact hnamed
  · cases h

variable {D : Type} [Sha256 D]

theorem renderUpdate_eq_ok {request : UpdateRequest} {current today : Text}
    {rendered : RenderedUpdate}
    (h : renderUpdate D request current today = .ok rendered) :
    ∃ fields owner status, isIsoDate today = true ∧
      Accepted (.update request) request.target ∧
      Stored current request.target today fields owner status ∧
      rendered.page = renderPage (.update request) request.target owner status
        (if rendered.contentChanged then today
          else Fields.at fields "updated".toList) today ∧
      ensureRenderedPage rendered.page = .ok () := by
  simp only [renderUpdate, except_bind_eq_ok] at h
  obtain ⟨_, htoday, _, hupdate, _, _, fields, hfields, slug, hslug, _, _, _,
    htarget, owner, howner, status, hstatus, _, hdate, _, hensure, hpage⟩ := h
  obtain ⟨haccepted, heq⟩ := validateUpdate_eq_ok hupdate
  have hslugEq : slug = request.target :=
    of_decide_eq_true (check_eq_ok.1 htarget)
  have hstored := requiredPageField_eq_ok hslug
  subst heq
  clear hslug htarget
  subst hslugEq
  generalize decide (withoutDates _ ≠ withoutDates _) = changed at hensure hpage
  have hresult := Except.ok.inj hpage
  subst hresult
  refine ⟨fields, owner, status, validateToday_eq_ok htoday, haccepted,
    ⟨hfields, hstored.symm, storedOwner_eq_ok howner,
      storedStatus_eq_ok hstatus, check_eq_ok.1 hdate⟩, ?_, hensure⟩
  cases changed with
  | true => rfl
  | false => rfl

/-- What a rendered page says when it is read. -/
structure Reads (wiki : ParsedWikiPage) (request : CommonRequest) (slug : Text)
    (owner : Owner) (status : Status) (updated verified : Text) : Prop where
  slug : wiki.slug = slug
  title : wiki.title = readValue request.title
  pageType : wiki.pageType = request.pageType
  status : wiki.status = status
  owner : wiki.owner = owner
  updated : wiki.updated = updated
  verified : wiki.verified = verified
  summary : wiki.summary = readValue request.summary

omit [Unicode] in
theorem parse_pageType (pageType : PageType) :
    PageType.parse pageType.asStr = .ok pageType := by
  cases pageType <;> decide

omit [Unicode] in
theorem parse_status (status : Status) :
    Status.parse status.asStr = .ok status := by
  cases status <;> decide

omit [Unicode] in
theorem parse_owner (owner : Owner) : Owner.parse owner.asStr = .ok owner := by
  cases owner <;> decide

theorem pageEntries_oneLine {request : CommonRequest} {slug updated verified : Text}
    (owner : Owner) (status : Status) (haccepted : Accepted request slug)
    (hupdated : isIsoDate updated = true) (hverified : isIsoDate verified = true) :
    OneLine (pageEntries request slug owner status updated verified) := by
  have hslug := slug_plain haccepted.slugOk
  intro entry hentry c hc
  simp only [pageEntries, List.mem_cons, List.not_mem_nil, or_false] at hentry
  rcases hentry with rfl | rfl | rfl | rfl | rfl | rfl | rfl | rfl
  · exact (hslug c hc).2.2.2
  · exact scalar_oneLine haccepted.titleScalar c hc
  · exact (pageType_plain request.pageType c hc).2.2.2
  · exact (status_plain status c hc).2.2.2
  · exact (owner_plain owner c hc).2.2.2
  · exact (isoDate_plain hupdated c hc).2.2.2
  · exact (isoDate_plain hverified c hc).2.2.2
  · exact scalar_oneLine haccepted.summaryScalar c hc

/-- The values of the fields of a rendered page, as they are read. -/
structure RenderedFields (fields : Fields) (request : CommonRequest) (slug : Text)
    (owner : Owner) (status : Status) (updated verified : Text) : Prop where
  slug : Fields.at fields "slug".toList = slug
  title : Fields.at fields "title".toList = readValue request.title
  pageType : Fields.at fields "type".toList = request.pageType.asStr
  status : Fields.at fields "status".toList = status.asStr
  owner : Fields.at fields "owner".toList = owner.asStr
  updated : Fields.at fields "updated".toList = updated
  verified : Fields.at fields "verified".toList = verified
  summary : Fields.at fields "summary".toList = readValue request.summary

theorem renderedFields {request : CommonRequest} {slug updated verified : Text}
    (owner : Owner) (status : Status) (haccepted : Accepted request slug)
    (hupdated : isIsoDate updated = true) (hverified : isIsoDate verified = true) :
    RenderedFields
      (storeEntries [] (pageEntries request slug owner status updated verified))
      request slug owner status updated verified := by
  have hvalue {key value : Text}
      (hmem : (key, value) ∈
        pageEntries request slug owner status updated verified) :
      Fields.at (storeEntries []
        (pageEntries request slug owner status updated verified)) key =
          readValue value := by
    rw [Fields.at, get_storeEntries (keys_pageEntries ▸ canonicalKeys_nodup) hmem]
    rfl
  exact
    { slug := (hvalue (by simp [pageEntries])).trans
        (readValue_eq_self (slug_plain haccepted.slugOk))
      title := hvalue (by simp [pageEntries])
      pageType := (hvalue (by simp [pageEntries])).trans
        (readValue_eq_self (pageType_plain _))
      status := (hvalue (by simp [pageEntries])).trans
        (readValue_eq_self (status_plain _))
      owner := (hvalue (by simp [pageEntries])).trans
        (readValue_eq_self (owner_plain _))
      updated := (hvalue (by simp [pageEntries])).trans
        (readValue_eq_self (isoDate_plain hupdated))
      verified := (hvalue (by simp [pageEntries])).trans
        (readValue_eq_self (isoDate_plain hverified))
      summary := hvalue (by simp [pageEntries]) }

theorem reads_renderPage {request : CommonRequest} {slug updated verified : Text}
    {owner : Owner} {status : Status} {wiki : ParsedWikiPage}
    (haccepted : Accepted request slug) (hupdated : isIsoDate updated = true)
    (hverified : isIsoDate verified = true)
    (hwiki : parseWikiPage
      (renderPage request slug owner status updated verified) = .ok wiki) :
    Reads wiki request slug owner status updated verified := by
  have hread := parseWikiPage_eq_ok hwiki
  have hfields := hread.fields
  rw [parseFrontmatterFields_renderPage
    (pageEntries_oneLine owner status haccepted hupdated hverified)] at hfields
  have hrendered := renderedFields owner status haccepted hupdated hverified
  rw [Except.ok.inj hfields] at hrendered
  have hpageType := hread.pageType
  have hstatusRead := hread.status
  have hownerRead := hread.owner
  rw [hrendered.pageType, parse_pageType] at hpageType
  rw [hrendered.status, parse_status] at hstatusRead
  rw [hrendered.owner, parse_owner] at hownerRead
  exact
    { slug := hread.slug.trans hrendered.slug
      title := hread.title.trans hrendered.title
      pageType := (Except.ok.inj hpageType).symm
      status := (Except.ok.inj hstatusRead).symm
      owner := (Except.ok.inj hownerRead).symm
      updated := hread.updated.trans hrendered.updated
      verified := hread.verified.trans hrendered.verified
      summary := hread.summary.trans hrendered.summary }

end Roundtrip

namespace RoundtripWitness

local instance : Unicode := Unicode.ascii

/-- No digest is compared in the runs below. -/
local instance : Sha256 Bytes := ⟨id, fun _ => []⟩

def today : Text := "2026-08-07".toList

def create : CreateRequest where
  title := "Cache rules".toList
  pageType := .gotcha
  owner := .codex
  fact := "The cache is stale.".toList
  why := "It is read once.".toList
  howToApply := "Restart.".toList
  falsifiedBy := "A refresh.".toList
  summary := "Stale until restart".toList
  related := []

def page : Text :=
  renderPage (.create create) "cache-rules".toList .codex .current today today

def update : UpdateRequest where
  title := "Cache rules".toList
  pageType := .pattern
  fact := "The cache is fresh.".toList
  why := "It is read twice.".toList
  howToApply := "Wait.".toList
  falsifiedBy := "A stale read.".toList
  summary := "Fresh after a while".toList
  related := ["store".toList]
  update := true
  target := "cache-rules".toList
  expectedSha256 := none

def updated : RenderedUpdate where
  page := renderPage (.update update) "cache-rules".toList .codex .current
    "2026-08-09".toList "2026-08-09".toList
  contentChanged := true

/-- A title in quotes. -/
def quoted : CreateRequest := { create with title := "\"Cache rules\"".toList }

def quotedPage : Text :=
  renderPage (.create quoted) "cache-rules".toList .codex .current today today

theorem requests_valid :
    validateCreate create = .ok "cache-rules".toList ∧
      validateCreate quoted = .ok "cache-rules".toList ∧
      validateUpdate update = .ok "cache-rules".toList := by
  unfold quoted create update
  repeat rw [String.toList_ofList]
  exact ⟨by decide +kernel, by decide +kernel, by decide +kernel⟩

theorem page_created : renderCreate create today = .ok page := by
  apply renderCreate_ok (by decide) requests_valid.1
  unfold renderPage create today
  repeat rw [String.toList_ofList]
  decide

set_option maxRecDepth 4096 in
theorem page_updated : renderUpdate Bytes update page "2026-08-09".toList = .ok updated := by
  have htoday : validateToday "2026-08-09".toList = .ok () := by decide
  unfold renderUpdate
  rw [htoday, except_ok_bind, requests_valid.2.2, except_ok_bind]
  unfold updated page renderPage update create today
  repeat rw [String.toList_ofList]
  decide

theorem quotedPage_created : renderCreate quoted today = .ok quotedPage := by
  apply renderCreate_ok (by decide) requests_valid.2.1
  unfold renderPage quoted create today
  repeat rw [String.toList_ofList]
  decide

end RoundtripWitness

end Yams.Wiki
