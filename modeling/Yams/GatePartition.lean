/-
What a selection shows and what its gate makes of it: the gate splits the shown
hits into kept and dropped ones, the same for both gate modes.
-/
import Yams.Search

namespace Yams.Search

open Std (ExtTreeMap)
open Binary64

variable {F : Type} [Binary64 F]

section Judge

variable {passes : SelectedHit F → Bool}

/-- The gate keeps each hit or drops it, in the order of the hits. -/
theorem foldl_judge (hits : List (SelectedHit F)) (gated : Gated F) :
    hits.foldl (Gated.judge passes) gated =
      ⟨gated.kept ++ hits.filter fun hit => passes hit || hit.exact,
        gated.dropped ++ (hits.filter fun hit =>
          !(passes hit || hit.exact)).map SelectedHit.toGateHit,
        gated.rescued ++ (hits.filter fun hit =>
          !passes hit && hit.exact).map SelectedHit.toGateHit⟩ := by
  induction hits generalizing gated with
  | nil => simp
  | cons hit hits ih =>
      rw [List.foldl_cons, ih]
      cases hpasses : passes hit <;> cases hexact : hit.exact <;>
        simp [Gated.judge, hpasses, hexact]

theorem judgeAll_eq (hits : List (SelectedHit F)) :
    judgeAll passes hits =
      ⟨hits.filter fun hit => passes hit || hit.exact,
        (hits.filter fun hit =>
          !(passes hit || hit.exact)).map SelectedHit.toGateHit,
        (hits.filter fun hit =>
          !passes hit && hit.exact).map SelectedHit.toGateHit⟩ := by
  unfold judgeAll
  rw [foldl_judge]
  simp

end Judge

section Gate

/-- The number that a score must reach, behind the best score. -/
def SelectionConfig.bar (config : SelectionConfig F) (best : F) : ℚ :=
  value (nearest (value best - value config.maxGap) : F)

theorem inRange_gap (config : SelectionConfig F) (best : NormalizedScore F) :
    InRange F (value best.get - value config.maxGap) := by
  apply inRange_of_abs_le config.maxGap_finite
  have hbest : |value best.get| ≤ 1 := abs_le.2 ⟨best.lower, best.upper⟩
  have htriangle := abs_sub (value best.get) (value config.maxGap)
  linarith

/-- The comparison with the gap is about the values of the scores. -/
theorem lessEq_gap_iff (config : SelectionConfig F)
    (best score : NormalizedScore F) :
    lessEq (sub best.get config.maxGap) score.get = true ↔
      config.bar best.get ≤ value score.get := by
  obtain ⟨hfinite, hvalue⟩ := sub_spec best.finite config.maxGap_finite
    (inRange_gap config best)
  rw [lessEq_iff hfinite score.finite, hvalue]
  rfl

theorem less_floor_iff (config : SelectionConfig F)
    (baseline : NormalizedScore F) :
    less baseline.get config.minScore = true ↔
      value baseline.get < value config.minScore :=
  less_iff baseline.finite config.minScore_finite

/-- A larger gap lowers the bar. -/
theorem bar_antitone {config wider : SelectionConfig F}
    (best : NormalizedScore F)
    (hgap : value config.maxGap ≤ value wider.maxGap) :
    wider.bar best.get ≤ config.bar best.get := by
  apply value_nearest_le (inRange_gap wider best) (inRange_gap config best)
  linarith

/-- The maximum is the score of a hit, and no hit has a greater one. -/
theorem maximumScore_eq_some {hits : List (SelectedHit F)} {anchor : F}
    (h : maximumScore hits = some anchor) :
    (∃ hit ∈ hits, hit.score.get = anchor) ∧
      ∀ hit ∈ hits, value hit.score.get ≤ value anchor := by
  obtain ⟨hmem, hmax⟩ := List.max?_eq_some_iff.1 h
  obtain ⟨leader, hleader, hscore⟩ := List.mem_map.1 hmem
  refine ⟨⟨leader, hleader, hscore⟩, ?_⟩
  intro hit hhit
  have hle : hit.score.get ≤ anchor := hmax _ (List.mem_map_of_mem hhit)
  rw [← hscore] at hle ⊢
  exact value_le_of_le hit.score.finite leader.score.finite hle

theorem maximumScore_eq_none {hits : List (SelectedHit F)} :
    maximumScore hits = none ↔ hits = [] := by
  unfold maximumScore
  rw [List.max?_eq_none_iff, List.map_eq_nil_iff]

/-- What can happen to a shown hit. -/
inductive Fate
  | kept | floorDropped | gapDropped
  deriving DecidableEq

/-- An exact hit is kept.  Another one needs a baseline at the floor and a
score within the gap behind the best shown one. -/
def fateOf (config : SelectionConfig F) (baseline best : F)
    (hit : SelectedHit F) : Fate :=
  if hit.exact then .kept
  else if value baseline < value config.minScore then .floorDropped
  else if config.bar best ≤ value hit.score.get then .kept
  else .gapDropped

/-- What the gate reports about the hits that are shown without it. -/
structure GateReport (config : SelectionConfig F) (baseline best : F)
    (shown kept : List (SelectedHit F)) (verdict : GateVerdict F) : Prop where
  kept_eq : kept = shown.filter fun hit => fateOf config baseline best hit = .kept
  floorDropped_eq : verdict.floorDropped = (shown.filter fun hit =>
    fateOf config baseline best hit = .floorDropped).map SelectedHit.toGateHit
  gapDropped_eq : verdict.gapDropped = (shown.filter fun hit =>
    fateOf config baseline best hit = .gapDropped).map SelectedHit.toGateHit
  rescued_sublist : verdict.rescued.Sublist
    ((shown.filter SelectedHit.exact).map SelectedHit.toGateHit)

theorem filter_eq_nil {hits : List (SelectedHit F)} {p : SelectedHit F → Bool}
    (h : ∀ hit, p hit = false) : [] = (hits.filter p).map SelectedHit.toGateHit := by
  have hnone : hits.filter p = [] :=
    List.filter_eq_nil_iff.2 fun hit _ => by simp [h hit]
  rw [hnone]
  rfl

theorem applyGate_nil (baseline : F) (config : SelectionConfig F) :
    applyGate [] baseline config = ([], emptyVerdict baseline config) := rfl

/-- The verdict of the gate, hit by hit. -/
theorem applyGate_report {config : SelectionConfig F}
    {baseline best : NormalizedScore F} {shown : List (SelectedHit F)}
    (hbest : maximumScore shown = some best.get) :
    GateReport config baseline.get best.get shown
      (applyGate shown baseline.get config).1
      (applyGate shown baseline.get config).2 := by
  unfold applyGate
  rw [hbest]
  dsimp only
  by_cases hfloor : value baseline.get < value config.minScore
  · rw [if_pos ((less_floor_iff config baseline).2 hfloor), judgeAll_eq]
    constructor
    · apply List.filter_congr
      intro hit _
      cases hexact : hit.exact <;> simp [fateOf, hexact, hfloor]
    · change List.map _ _ = List.map _ _
      congr 1
      apply List.filter_congr
      intro hit _
      cases hexact : hit.exact <;> simp [fateOf, hexact, hfloor]
    · apply filter_eq_nil
      intro hit
      cases hexact : hit.exact <;> simp [fateOf, hexact, hfloor]
    · apply List.Sublist.map
      simp
  · rw [if_neg (fun hless => hfloor ((less_floor_iff config baseline).1 hless)),
      judgeAll_eq]
    constructor
    · apply List.filter_congr
      intro hit _
      rw [Bool.eq_iff_iff, Bool.or_eq_true, lessEq_gap_iff config best hit.score]
      cases hexact : hit.exact <;> simp [fateOf, hexact, hfloor]
    · apply filter_eq_nil
      intro hit
      rw [decide_eq_false_iff_not]
      unfold fateOf
      split_ifs <;> simp
    · change List.map _ _ = List.map _ _
      congr 1
      apply List.filter_congr
      intro hit _
      rw [Bool.eq_iff_iff, Bool.not_eq_true', ← Bool.not_eq_true, Bool.or_eq_true,
        lessEq_gap_iff config best hit.score]
      cases hexact : hit.exact <;> simp [fateOf, hexact, hfloor]
    · apply List.Sublist.map
      apply List.monotone_filter_right
      intro hit hhit
      rw [Bool.and_eq_true] at hhit
      exact hhit.2

end Gate

section Shown

variable {exact : Option ExactMatch} {literal : List LiteralChunk} {limit : Nat}

/-- The hits to show: one a page, no more than the limit, and only the page of
the exact match is marked. -/
structure WellShown (exact : Option ExactMatch) (limit : Nat)
    (shown : List (SelectedHit F)) : Prop where
  unique : (shown.map SelectedHit.path).Nodup
  length_le : shown.length ≤ limit
  exact_path : ∀ hit ∈ shown, hit.exact = true →
    exact.map ExactMatch.path = some hit.path

/-- At most one of the hits to show is marked. -/
theorem WellShown.exact_length_le {shown : List (SelectedHit F)}
    (h : WellShown exact limit shown) :
    (shown.filter SelectedHit.exact).length ≤ 1 := by
  have hunique : ((shown.filter SelectedHit.exact).map SelectedHit.path).Nodup :=
    h.unique.sublist (List.filter_sublist.map _)
  have hpath : ∀ hit ∈ shown.filter SelectedHit.exact,
      exact.map ExactMatch.path = some hit.path := by
    intro hit hhit
    obtain ⟨hshown, hexact⟩ := List.mem_filter.1 hhit
    exact h.exact_path hit hshown hexact
  match hmarked : shown.filter SelectedHit.exact with
  | [] => exact Nat.zero_le 1
  | [_] => exact Nat.le_refl 1
  | first :: second :: rest =>
      exfalso
      rw [hmarked] at hunique hpath
      have hfirst := hpath first List.mem_cons_self
      have hsecond := hpath second (List.mem_cons_of_mem _ List.mem_cons_self)
      rw [hfirst] at hsecond
      rw [List.map_cons, List.nodup_cons] at hunique
      exact hunique.1 (Option.some.inj hsecond ▸ List.mem_cons_self)

theorem selected_unique (exact : Option ExactMatch) (literal : List LiteralChunk)
    (ranked : List (RankedHit F)) :
    (((orderedHits ranked).map (selectedHit exact literal)).map
      SelectedHit.path).Nodup := by
  rw [List.map_map]
  exact firstBy_nodup (sortBy RankedHit.order ranked)

theorem selected_not_exact {ranked : List (RankedHit F)} {hit : SelectedHit F}
    (h : hit ∈ (orderedHits ranked).map (selectedHit exact literal)) :
    hit.exact = false := by
  obtain ⟨source, _, rfl⟩ := List.mem_map.1 h
  rfl

/-- Marking or replacing keeps the hits to show in order. -/
theorem showExact_wellShown {shown : List (SelectedHit F)} {hit : SelectedHit F}
    (hunique : (shown.map SelectedHit.path).Nodup)
    (hlength : shown.length ≤ limit) (hpos : 0 < limit)
    (hplain : ∀ other ∈ shown, other.exact = false)
    (hpath : exact.map ExactMatch.path = some hit.path) :
    WellShown exact limit (showExact limit shown hit) := by
  unfold showExact
  split
  · next position hposition =>
      obtain ⟨hbound, hfound, _⟩ := List.findIdx?_eq_some_iff_getElem.1 hposition
      rw [decide_eq_true_eq] at hfound
      obtain ⟨before, other, after, hshown, hbefore, hmodify⟩ :=
        List.exists_of_modify
          (fun other : SelectedHit F => { other with exact := true }) hbound
      have hother : other.path = hit.path := by
        rw [← hfound]
        simp [hshown, ← hbefore]
      rw [hmodify]
      refine ⟨?_, ?_, ?_⟩
      · rw [hshown, List.map_append, List.map_cons] at hunique
        rw [List.map_append, List.map_cons]
        exact hunique
      · rw [hshown] at hlength
        simpa using hlength
      · intro marked hmarked hexact
        rcases List.mem_append.1 hmarked with hmem | hmem
        · have hplain' := hplain marked (by simp [hshown, hmem])
          rw [hplain'] at hexact
          cases hexact
        · rcases List.mem_cons.1 hmem with rfl | hmem
          · exact hpath.trans (congrArg some hother.symm)
          · have hplain' := hplain marked (by simp [hshown, hmem])
            rw [hplain'] at hexact
            cases hexact
  · next hnone =>
      have hnew : hit.path ∉ shown.map SelectedHit.path := by
        intro hmem
        obtain ⟨other, hother, heq⟩ := List.mem_map.1 hmem
        have hfalse := List.findIdx?_eq_none_iff.1 hnone other hother
        rw [decide_eq_false_iff_not] at hfalse
        exact hfalse heq
      have happend : ∀ rest : List (SelectedHit F), rest.Sublist shown →
          rest.length < limit →
          WellShown exact limit (rest ++ [{ hit with exact := true }]) := by
        intro rest hrest hroom
        refine ⟨?_, ?_, ?_⟩
        · rw [List.map_append, List.nodup_append]
          refine ⟨hunique.sublist (hrest.map _), List.nodup_singleton _, ?_⟩
          intro path hmem other hother heq
          rw [List.map_singleton, List.mem_singleton] at hother
          apply hnew
          rw [heq, hother] at hmem
          exact (hrest.map _).subset hmem
        · rw [List.length_append, List.length_singleton]
          omega
        · intro marked hmarked hexact
          rcases List.mem_append.1 hmarked with hmem | hmem
          · rw [hplain marked (hrest.subset hmem)] at hexact
            cases hexact
          · obtain rfl := List.mem_singleton.1 hmem
            exact hpath
      split
      · next hfull =>
          apply happend _ (List.dropLast_sublist shown)
          rw [List.length_dropLast]
          omega
      · next hroom =>
          exact happend shown (List.Sublist.refl shown)
            (Nat.lt_of_le_of_ne hlength hroom)

theorem shownHits_wellShown (ranked : List (RankedHit F)) :
    WellShown exact limit (shownHits exact ranked literal limit) := by
  have hsublist := List.take_sublist limit
    ((orderedHits ranked).map (selectedHit exact literal))
  have hunique := (selected_unique exact literal ranked).sublist
    (hsublist.map SelectedHit.path)
  have hlength : (((orderedHits ranked).map
      (selectedHit exact literal)).take limit).length ≤ limit :=
    List.length_take_le limit _
  have hplain : ∀ hit ∈ ((orderedHits ranked).map
      (selectedHit exact literal)).take limit, hit.exact = false :=
    fun hit hhit => selected_not_exact (hsublist.subset hhit)
  have hdefault : WellShown exact limit
      (((orderedHits ranked).map (selectedHit exact literal)).take limit) :=
    ⟨hunique, hlength, fun hit hhit hexact => by
      rw [hplain hit hhit] at hexact
      cases hexact⟩
  unfold shownHits
  dsimp only
  split
  · next hit hfound =>
      split
      · next hpos =>
          obtain ⟨found, hexact, hhit⟩ := Option.bind_eq_some_iff.1 hfound
          apply showExact_wellShown hunique hlength hpos hplain
          have hpath := List.find?_some hhit
          rw [decide_eq_true_eq] at hpath
          rw [hexact, hpath]
          rfl
      · exact hdefault
  · exact hdefault

/-- Nothing is shown of no ranked pages. -/
theorem shownHits_nil : shownHits (F := F) exact [] literal limit = [] := by
  unfold shownHits
  have hordered : orderedHits (F := F) [] = [] :=
    List.eq_nil_of_subset_nil fun hit hhit =>
      mem_sortBy.1 (mem_of_mem_firstBy hhit)
  rw [hordered]
  cases exact <;> simp

end Shown

section Runs

variable {query : Text} {baseline : Option (NormalizedScore F)}
  {ranked : List (RankedHit F)} {literal : List LiteralChunk}
  {leader : Option Text} {config : SelectionConfig F}
  {outcome : SelectionOutcome F}

/-- The same controls, with the gate applied. -/
def SelectionConfig.applying (config : SelectionConfig F) : SelectionConfig F :=
  { config with gateMode := .apply }

theorem SelectionConfig.applying_of_apply (h : config.gateMode = .apply) :
    config.applying = config := by
  cases config
  cases h
  rfl

theorem SelectionConfig.bypass_of_bypass (h : config.gateMode = .bypass) :
    config.bypass = config := by
  cases config
  cases h
  rfl

/-- What a selection gates. -/
def gateOf (baseline : Option (NormalizedScore F))
    (shown : List (SelectedHit F)) (config : SelectionConfig F) :
    Option (List (SelectedHit F) × GateVerdict F) :=
  baseline.map fun baseline => applyGate shown baseline.get config

/-- The hits that a selection shows without the gate. -/
abbrev shownOf (query : Text) (ranked : List (RankedHit F))
    (literal : List LiteralChunk) (leader : Option Text) (limit : Nat) :
    List (SelectedHit F) :=
  shownHits (exactIdentifierMatch query leader literal) ranked literal limit

/-- A selection depends on its controls only in what it shows and gates. -/
theorem select_spec
    (h : select query baseline ranked literal leader config = .ok outcome) :
    (baseline = none → ranked = []) ∧ ∀ other : SelectionConfig F,
      ∃ result, select query baseline ranked literal leader other = .ok result ∧
        result.gate = (gateOf baseline (shownOf query ranked literal leader
          other.limit) other).map Prod.snd ∧
        (other.gateMode = .bypass →
          result.hits = shownOf query ranked literal leader other.limit) ∧
        (other.gateMode = .apply →
          result.hits = ((gateOf baseline (shownOf query ranked literal leader
            other.limit) other).map Prod.fst).getD []) := by
  unfold select at h
  obtain ⟨_, hvalid, h⟩ := except_bind_eq_ok.1 h
  by_cases hbase : baseline.isNone ∧ ranked ≠ []
  · rw [if_pos hbase] at h
    cases h
  · refine ⟨?_, ?_⟩
    · rintro rfl
      by_contra hranked
      exact hbase ⟨rfl, hranked⟩
    · intro other
      unfold select
      rw [hvalid, except_ok_bind, if_neg hbase]
      refine ⟨_, rfl, rfl, ?_, ?_⟩
      · intro hmode
        exact if_neg (by simp [hmode])
      · intro hmode
        exact if_pos (by simp [hmode])

/-- A hit that no shown one has a greater score than. -/
def Leading (shown : List (SelectedHit F)) (best : NormalizedScore F) : Prop :=
  (∀ hit ∈ shown, value hit.score.get ≤ value best.get) ∧
    (shown ≠ [] → ∃ hit ∈ shown, hit.score.get = best.get)

/-- The two gate modes of one selection. -/
structure GatedRuns (config : SelectionConfig F) (exact : Option ExactMatch)
    (baseline : Option (NormalizedScore F))
    (applied bypassed : SelectionOutcome F) : Prop where
  same_gate : bypassed.gate = applied.gate
  shown : WellShown exact config.limit bypassed.hits
  no_gate : applied.gate = none →
    baseline = none ∧ bypassed.hits = [] ∧ applied.hits = []
  report : ∀ verdict, applied.gate = some verdict →
    ∃ base best : NormalizedScore F, baseline = some base ∧
      Leading bypassed.hits best ∧
      GateReport config base.get best.get bypassed.hits applied.hits verdict ∧
      (∀ hit ∈ bypassed.hits, hit.exact = false → (hit ∈ applied.hits ↔
        value config.minScore ≤ value base.get ∧
          config.bar best.get ≤ value hit.score.get)) ∧
      verdict.rescued.length ≤ 1

theorem exists_leading (shown : List (SelectedHit F)) (base : NormalizedScore F) :
    ∃ best : NormalizedScore F, Leading shown best ∧
      (shown ≠ [] → maximumScore shown = some best.get) := by
  cases hmax : maximumScore shown with
  | none =>
      obtain rfl := maximumScore_eq_none.1 hmax
      refine ⟨base, ⟨?_, ?_⟩, ?_⟩
      · exact fun hit hhit => absurd hhit List.not_mem_nil
      · exact fun hne => absurd rfl hne
      · exact fun hne => absurd rfl hne
  | some anchor =>
      obtain ⟨⟨leader, hleader, rfl⟩, hle⟩ := maximumScore_eq_some hmax
      exact ⟨leader.score, ⟨hle, fun _ => ⟨leader, hleader, rfl⟩⟩, fun _ => rfl⟩

theorem applyGate_leading (config : SelectionConfig F) (base : NormalizedScore F)
    {best : NormalizedScore F} {shown : List (SelectedHit F)}
    (hbest : shown ≠ [] → maximumScore shown = some best.get) :
    GateReport config base.get best.get shown
      (applyGate shown base.get config).1
      (applyGate shown base.get config).2 := by
  by_cases hshown : shown = []
  · subst hshown
    rw [applyGate_nil]
    exact ⟨rfl, rfl, rfl, List.Sublist.refl _⟩
  · exact applyGate_report (hbest hshown)

theorem GateReport.mem_kept_iff {base best : F} {shown kept : List (SelectedHit F)}
    {verdict : GateVerdict F}
    (h : GateReport config base best shown kept verdict)
    {hit : SelectedHit F} (hhit : hit ∈ shown) (hplain : hit.exact = false) :
    hit ∈ kept ↔ value config.minScore ≤ value base ∧
      config.bar best ≤ value hit.score.get := by
  rw [h.kept_eq, List.mem_filter, decide_eq_true_eq]
  unfold fateOf
  rw [hplain]
  by_cases hfloor : value base < value config.minScore
  · simp [hhit, hfloor]
  · by_cases hgap : config.bar best ≤ value hit.score.get <;>
      simp [hhit, hgap, hfloor, not_lt.1 hfloor]

theorem GateReport.rescued_length {base best : F} {exact : Option ExactMatch}
    {limit : Nat} {shown kept : List (SelectedHit F)} {verdict : GateVerdict F}
    (h : GateReport config base best shown kept verdict)
    (hshown : WellShown exact limit shown) : verdict.rescued.length ≤ 1 := by
  have hlength := h.rescued_sublist.length_le
  rw [List.length_map] at hlength
  exact hlength.trans hshown.exact_length_le

/-- A wider gap and a lower floor keep every hit that was kept. -/
theorem kept_sublist {wider : SelectionConfig F} {base best : NormalizedScore F}
    {shown kept more : List (SelectedHit F)} {verdict report : GateVerdict F}
    (h : GateReport config base.get best.get shown kept verdict)
    (hwider : GateReport wider base.get best.get shown more report)
    (hgap : value config.maxGap ≤ value wider.maxGap)
    (hfloor : value wider.minScore ≤ value config.minScore) :
    kept.Sublist more := by
  rw [h.kept_eq, hwider.kept_eq]
  apply List.monotone_filter_right
  intro hit hkept
  rw [decide_eq_true_eq] at hkept ⊢
  have hbar := bar_antitone best hgap
  unfold fateOf at hkept ⊢
  by_cases hexact : hit.exact = true
  · rw [if_pos hexact]
  · rw [if_neg hexact] at hkept ⊢
    by_cases hbase : value base.get < value config.minScore
    · rw [if_pos hbase] at hkept
      cases hkept
    · rw [if_neg hbase] at hkept
      by_cases hscore : config.bar best.get ≤ value hit.score.get
      · rw [if_neg fun hless => hbase (hless.trans_le hfloor),
          if_pos (hbar.trans hscore)]
      · rw [if_neg hscore] at hkept
        cases hkept

/-- The two runs of a selection that succeeds in one mode. -/
theorem select_gatedRuns
    (h : select query baseline ranked literal leader config = .ok outcome) :
    ∃ applied bypassed,
      select query baseline ranked literal leader config.applying = .ok applied ∧
      select query baseline ranked literal leader config.bypass = .ok bypassed ∧
      GatedRuns config (exactIdentifierMatch query leader literal) baseline
        applied bypassed := by
  obtain ⟨hnone, hruns⟩ := select_spec h
  obtain ⟨applied, happlied, hgate, _, hkept⟩ := hruns config.applying
  obtain ⟨bypassed, hbypassed, hgate', hshown, _⟩ := hruns config.bypass
  have hkept := hkept rfl
  have hshown := hshown rfl
  refine ⟨applied, bypassed, happlied, hbypassed, ?_, ?_, ?_, ?_⟩
  · rw [hgate, hgate']
    rfl
  · rw [hshown]
    exact shownHits_wellShown ranked
  · intro hempty
    cases baseline with
    | none =>
        rw [hnone rfl] at hshown
        exact ⟨rfl, hshown.trans shownHits_nil, hkept⟩
    | some base =>
        rw [hgate] at hempty
        cases hempty
  · intro verdict hverdict
    cases baseline with
    | none =>
        rw [hgate] at hverdict
        cases hverdict
    | some base =>
        obtain ⟨best, hleading, hbest⟩ := exists_leading bypassed.hits base
        have hreport := applyGate_leading config base hbest
        have hfirst : (applyGate bypassed.hits base.get config).1 = applied.hits := by
          rw [hshown, hkept]
          rfl
        have hsecond : (applyGate bypassed.hits base.get config).2 = verdict := by
          rw [hgate] at hverdict
          rw [hshown]
          exact Option.some.inj hverdict
        rw [hfirst, hsecond] at hreport
        refine ⟨base, best, rfl, hleading, hreport, ?_, ?_⟩
        · intro hit hhit hplain
          exact hreport.mem_kept_iff hhit hplain
        · have hwell : WellShown (exactIdentifierMatch query leader literal)
              config.limit bypassed.hits := by
            rw [hshown]
            exact shownHits_wellShown ranked
          exact hreport.rescued_length hwell

/-- Larger gaps and lower floors never remove a kept hit. -/
theorem select_monotone
    (h : select query baseline ranked literal leader config = .ok outcome)
    {wider : SelectionConfig F} (hlimit : wider.limit = config.limit)
    (hgap : value config.maxGap ≤ value wider.maxGap)
    (hfloor : value wider.minScore ≤ value config.minScore) :
    ∃ applied more,
      select query baseline ranked literal leader config.applying = .ok applied ∧
      select query baseline ranked literal leader wider.applying = .ok more ∧
      applied.hits.Sublist more.hits := by
  obtain ⟨_, hruns⟩ := select_spec h
  obtain ⟨applied, happlied, _, _, hkept⟩ := hruns config.applying
  obtain ⟨more, hmore, _, _, hkept'⟩ := hruns wider.applying
  refine ⟨applied, more, happlied, hmore, ?_⟩
  rw [hkept rfl, hkept' rfl]
  change (((gateOf baseline (shownOf query ranked literal leader config.limit)
    config).map Prod.fst).getD []).Sublist (((gateOf baseline (shownOf query
      ranked literal leader wider.limit) wider).map Prod.fst).getD [])
  rw [hlimit]
  cases baseline with
  | none => exact List.Sublist.refl []
  | some base =>
      obtain ⟨best, _, hbest⟩ := exists_leading
        (shownOf query ranked literal leader config.limit) base
      exact kept_sublist (applyGate_leading config base hbest)
        (applyGate_leading wider base hbest) hgap hfloor

end Runs

section Explanation

variable [LetterTables] {request : SearchRequest F}
  {response : SearchResponse F}

theorem searchHit_path {weights : List (WeightedTerm F)} {hit : SelectedHit F}
    {found : SearchHit F} (h : searchHit weights hit = .ok found) :
    hit.path = found.path := by
  obtain ⟨window, _, h⟩ := except_bind_eq_ok.1 h
  obtain ⟨score, _, h⟩ := except_bind_eq_ok.1 h
  obtain rfl := Except.ok.inj h
  rfl

theorem searchHits_paths {weights : List (WeightedTerm F)}
    {hits : List (SelectedHit F)} {found : List (SearchHit F)}
    (h : hits.mapM (searchHit weights) = .ok found) :
    hits.map SelectedHit.path = found.map SearchHit.path := by
  have hpairs := (mapM_eq_ok_iff.1 h).imp fun _ _ => searchHit_path
  rw [← List.forall₂_eq_eq_eq, List.forall₂_map_left_iff,
    List.forall₂_map_right_iff]
  exact hpairs

/-- A response shows the selection of its own mode, and explains the one
without the gate. -/
theorem respond_spec {candidates : Candidates F}
    (h : respond request candidates = .ok response) :
    ∃ outcome ungated,
      candidates.select request.query request.selection = .ok outcome ∧
      candidates.select request.query request.selection.bypass = .ok ungated ∧
      outcome.hits.map SelectedHit.path = response.hits.map SearchHit.path ∧
      response.explanation.gate = outcome.gate ∧
      ∀ path, path ∈ response.explanation.hits ↔
        path ∈ ungated.hits.map SelectedHit.path := by
  obtain ⟨ungated, hungated, h⟩ := except_bind_eq_ok.1 h
  obtain ⟨outcome, houtcome, h⟩ := except_bind_eq_ok.1 h
  obtain ⟨weights, _, h⟩ := except_bind_eq_ok.1 h
  obtain ⟨hits, hhits, h⟩ := except_bind_eq_ok.1 h
  obtain rfl := Except.ok.inj h
  have hungated := except_mapError_eq_ok.1 hungated
  refine ⟨outcome, ungated, ?_, hungated, searchHits_paths hhits, rfl, ?_⟩
  · by_cases hmode : request.selection.gateMode = .bypass
    · rw [if_pos hmode] at houtcome
      rw [← Except.ok.inj houtcome,
        ← SelectionConfig.bypass_of_bypass hmode]
      exact hungated
    · rw [if_neg hmode] at houtcome
      exact except_mapError_eq_ok.1 houtcome
  · intro path
    change path ∈ explainedHits ungated.hits ↔ _
    rw [explainedHits, ExtTreeMap.mem_ofList, List.contains_iff_mem, List.map_map]
    rfl

omit [LetterTables] in
/-- Each path of a shown hit is kept or dropped. -/
theorem GateReport.mem_shown_iff {config : SelectionConfig F} {base best : F}
    {shown kept : List (SelectedHit F)} {verdict : GateVerdict F}
    (h : GateReport config base best shown kept verdict) (path : Text) :
    path ∈ shown.map SelectedHit.path ↔
      path ∈ kept.map SelectedHit.path ∨
        path ∈ (verdict.floorDropped ++ verdict.gapDropped).map GateHit.path := by
  rw [h.kept_eq, h.floorDropped_eq, h.gapDropped_eq]
  constructor
  · intro hpath
    obtain ⟨hit, hhit, rfl⟩ := List.mem_map.1 hpath
    cases hfate : fateOf config base best hit with
    | kept =>
        exact Or.inl (List.mem_map_of_mem (List.mem_filter.2 ⟨hhit, by simp [hfate]⟩))
    | floorDropped =>
        apply Or.inr
        rw [List.map_append, List.map_map, List.mem_append]
        exact Or.inl (List.mem_map.2
          ⟨hit, List.mem_filter.2 ⟨hhit, by simp [hfate]⟩, rfl⟩)
    | gapDropped =>
        apply Or.inr
        rw [List.map_append, List.map_map, List.map_map, List.mem_append]
        exact Or.inr (List.mem_map.2
          ⟨hit, List.mem_filter.2 ⟨hhit, by simp [hfate]⟩, rfl⟩)
  · rintro (hkept | hdropped)
    · exact (List.filter_sublist.map _).subset hkept
    · rw [List.map_append, List.map_map, List.map_map, List.mem_append] at hdropped
      rcases hdropped with hfloor | hgap
      · exact (List.filter_sublist.map _).subset hfloor
      · exact (List.filter_sublist.map _).subset hgap

/-- The pages explained are the kept ones and the dropped ones. -/
def ExplainsShown (response : SearchResponse F) : Prop :=
  ∀ path, path ∈ response.explanation.hits ↔
    path ∈ response.hits.map SearchHit.path ∨
      ∃ verdict, response.explanation.gate = some verdict ∧
        path ∈ (verdict.floorDropped ++ verdict.gapDropped).map GateHit.path

theorem respond_explains {candidates : Candidates F}
    (h : respond request candidates = .ok response) :
    ExplainsShown response := by
  obtain ⟨outcome, ungated, houtcome, hungated, hpaths, hgate, hexplained⟩ :=
    respond_spec h
  obtain ⟨applied, bypassed, happlied, hbypassed, hruns⟩ :=
    select_gatedRuns hungated
  obtain rfl : bypassed = ungated :=
    Except.ok.inj (hbypassed.symm.trans hungated)
  -- The response keeps what its own mode keeps.
  have hsame : outcome.gate = applied.gate ∧
      (outcome.hits = applied.hits ∨ outcome.hits = bypassed.hits) := by
    cases hmode : request.selection.gateMode with
    | apply =>
        have heq : candidates.select request.query request.selection =
            .ok applied := by
          rw [← SelectionConfig.applying_of_apply hmode]
          exact happlied
        obtain rfl := Except.ok.inj (heq.symm.trans houtcome)
        exact ⟨rfl, Or.inl rfl⟩
    | bypass =>
        rw [← SelectionConfig.bypass_of_bypass hmode] at houtcome
        obtain rfl := Except.ok.inj (houtcome.symm.trans hungated)
        exact ⟨hruns.same_gate, Or.inr rfl⟩
  intro path
  rw [hexplained path, hgate, hsame.1, ← hpaths]
  cases hverdict : applied.gate with
  | none =>
      obtain ⟨_, hshown, hkept⟩ := hruns.no_gate hverdict
      rcases hsame.2 with heq | heq <;> rw [heq] <;> simp [hshown, hkept]
  | some verdict =>
      obtain ⟨base, best, _, _, hreport, _⟩ := hruns.report verdict hverdict
      have hmem := hreport.mem_shown_iff path
      rcases hsame.2 with heq | heq <;> rw [heq]
      · rw [hmem]
        apply or_congr_right
        constructor
        · exact fun hdropped => ⟨verdict, rfl, hdropped⟩
        · rintro ⟨_, ⟨⟩, hdropped⟩
          exact hdropped
      · constructor
        · exact Or.inl
        · rintro (hshown | ⟨_, ⟨⟩, hdropped⟩)
          · exact hshown
          · exact hmem.2 (Or.inr hdropped)

theorem composeSearch_explains (h : composeSearch request = .ok response) :
    ExplainsShown response := by
  obtain ⟨rows, _, h⟩ := except_bind_eq_ok.1 h
  obtain ⟨dense, _, h⟩ := except_bind_eq_ok.1 h
  by_cases hdense : dense.isEmpty
  · rw [if_pos hdense] at h
    obtain rfl := Except.ok.inj h
    intro path
    constructor
    · intro hpath
      exact absurd hpath ExtTreeMap.not_mem_empty
    · rintro (hhit | ⟨verdict, ⟨⟩, _⟩)
      exact absurd hhit List.not_mem_nil
  · rw [if_neg hdense] at h
    obtain ⟨candidates, _, h⟩ := except_bind_eq_ok.1 h
    exact respond_explains h

end Explanation

/-- The gate splits the hits that are shown without it, in their order, into the
ones it keeps and the ones it reports as dropped; both modes report the same
verdict, wider controls keep more, and a response explains exactly the pages of
that union. -/
theorem gate_partition [LetterTables] :
    (∀ (query : Text) (baseline : Option (NormalizedScore F))
      (ranked : List (RankedHit F)) (literal : List LiteralChunk)
      (leader : Option Text) (config : SelectionConfig F)
      (outcome : SelectionOutcome F),
      select query baseline ranked literal leader config = .ok outcome →
      ∃ applied bypassed,
        select query baseline ranked literal leader config.applying =
          .ok applied ∧
        select query baseline ranked literal leader config.bypass =
          .ok bypassed ∧
        GatedRuns config (exactIdentifierMatch query leader literal) baseline
          applied bypassed ∧
        ∀ wider : SelectionConfig F, wider.limit = config.limit →
          value config.maxGap ≤ value wider.maxGap →
          value wider.minScore ≤ value config.minScore →
          ∃ more, select query baseline ranked literal leader wider.applying =
              .ok more ∧
            applied.hits.Sublist more.hits) ∧
    ∀ (request : SearchRequest F) (response : SearchResponse F),
      composeSearch request = .ok response → ExplainsShown response := by
  constructor
  · intro query baseline ranked literal leader config outcome h
    obtain ⟨applied, bypassed, happlied, hbypassed, hruns⟩ := select_gatedRuns h
    refine ⟨applied, bypassed, happlied, hbypassed, hruns, ?_⟩
    intro wider hlimit hgap hfloor
    obtain ⟨applied', more, happlied', hmore, hsublist⟩ :=
      select_monotone h hlimit hgap hfloor
    obtain rfl := Except.ok.inj (happlied.symm.trans happlied')
    exact ⟨more, hmore, hsublist⟩
  · intro request response h
    exact composeSearch_explains h

/-! One page of one chunk, searched with the exact rationals. -/
namespace Sample

abbrev tables : LetterTables := LetterTables.ascii

def page : PageId := ⟨"/wiki/a.md".toList, by decide⟩

def chunk : ChunkId := ⟨page, 0⟩

/-- The single `1.0`. -/
def unit : Singles := [0x3f800000]

def request : SearchRequest ℚ where
  query := "parse_page".toList
  queryEmbedding := unit
  pages := [⟨page, "A".toList, ⟨none, none, none⟩⟩]
  chunks := [⟨chunk, "call parse_page".toList⟩]
  dense := [⟨chunk, unit⟩]
  lexical := [⟨chunk, -1, 1⟩]
  snippetStatistics := ⟨1, [⟨"parse_page".toList, 1⟩]⟩
  selection := SelectionConfig.default

theorem composeSearch_request :
    (@composeSearch tables ℚ _ request).toBool = true := by
  decide +kernel

theorem exists_of_toBool {ε α : Type} {r : Except ε α} (h : r.toBool = true) :
    ∃ a, r = .ok a := by
  cases r with
  | ok a => exact ⟨a, rfl⟩
  | error e => cases h

/-- A ranked hit far below the floor. -/
def ranked : RankedHit ℚ where
  name := "A".toList
  path := page.path
  denseChunk := ⟨0, "call parse_page".toList⟩
  lexicalChunk := none
  score := ⟨0, rfl, by decide, by decide⟩
  finalRank := 1
  explanation := ⟨some 1, none, none, []⟩
  labels := ⟨none, none, none⟩

def selected : Except SelectionError (SelectionOutcome ℚ) :=
  select request.query (some ranked.score) [ranked]
    (request.chunks.map ChunkMetadata.toLiteral) (some page.path)
    request.selection

/-- The exact hit is shown although it is below the floor. -/
theorem selected_rescued : (match selected with
    | .ok outcome => (outcome.gate.map fun verdict => verdict.rescued.length)
    | .error _ => none) = some 1 := by
  decide +kernel

theorem gate_partition_request :
    (∃ applied bypassed verdict, selected = .ok applied ∧
      GatedRuns request.selection (exactIdentifierMatch request.query
        (some page.path) (request.chunks.map ChunkMetadata.toLiteral))
        (some ranked.score) applied bypassed ∧
      applied.gate = some verdict ∧ verdict.rescued.length = 1) ∧
      ∃ response, @composeSearch tables ℚ _ request = .ok response ∧
        ExplainsShown response := by
  obtain ⟨outcome, houtcome⟩ := exists_of_toBool
    (r := selected) (by decide)
  obtain ⟨response, hresponse⟩ := exists_of_toBool composeSearch_request
  obtain ⟨hselect, hcompose⟩ := @gate_partition ℚ _ tables
  obtain ⟨applied, bypassed, happlied, _, hruns, _⟩ := hselect _ _ _ _ _ _ _ houtcome
  have hrescued := selected_rescued
  have happlied : selected = .ok applied := happlied
  rw [happlied] at hrescued
  obtain ⟨verdict, hverdict, hlength⟩ := Option.map_eq_some_iff.1 hrescued
  exact ⟨⟨applied, bypassed, verdict, happlied, hruns, hverdict, hlength⟩,
    response, hresponse, hcompose _ _ hresponse⟩

end Sample

end Yams.Search
