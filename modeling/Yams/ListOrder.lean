/-
Lists that are sorted, mapped by a function that may fail, and reduced to the
first element of each key: what the results owe to the order of the list.
-/
import Mathlib.Data.List.Forall2
import Mathlib.Data.List.Induction
import Mathlib.Data.List.Perm.Basic
import Std.Data.ExtTreeMap
import Yams.Program

namespace Yams

section SortBy

variable {α : Type}

/-- `slice::sort_by`, a stable sort. -/
def sortBy (cmp : α → α → Ordering) (list : List α) : List α :=
  list.mergeSort fun left right => (cmp left right).isLE

theorem sortBy_perm (cmp : α → α → Ordering) (list : List α) :
    (sortBy cmp list).Perm list :=
  List.mergeSort_perm list _

theorem mem_sortBy {cmp : α → α → Ordering} {list : List α} {a : α} :
    a ∈ sortBy cmp list ↔ a ∈ list :=
  (sortBy_perm cmp list).mem_iff

/-- Sorting the values of a list is sorting the list by its values. -/
theorem sortBy_map {β : Type} (cmp : β → β → Ordering) (f : α → β) (list : List α) :
    sortBy cmp (list.map f) =
      (sortBy (fun left right => cmp (f left) (f right)) list).map f := by
  rw [sortBy, sortBy, List.map_mergeSort]
  intro left _ right _
  rfl

variable {cmp : α → α → Ordering} [Std.TransCmp cmp]

theorem sortBy_pairwise (list : List α) :
    (sortBy cmp list).Pairwise fun left right => (cmp left right).isLE := by
  apply List.pairwise_mergeSort
  · intro a b c hab hbc
    exact Std.TransCmp.isLE_trans hab hbc
  · intro a b
    have hswap : cmp b a = (cmp a b).swap := Std.OrientedCmp.eq_swap
    rw [Bool.or_eq_true, hswap]
    cases cmp a b <;> simp

/-- A comparison that tells the elements apart makes the sort forget the order
in which they came. -/
theorem sortBy_eq_of_perm {left right : List α} (hperm : left.Perm right)
    (hapart : ∀ a ∈ left, ∀ b ∈ left, cmp a b = .eq → a = b) :
    sortBy cmp left = sortBy cmp right := by
  have hsorted : (sortBy cmp left).Perm (sortBy cmp right) :=
    (sortBy_perm cmp left).trans (hperm.trans (sortBy_perm cmp right).symm)
  apply hsorted.eq_of_pairwise _ (sortBy_pairwise left) (sortBy_pairwise right)
  intro a b ha hb hab hba
  apply hapart a (mem_sortBy.1 ha) b (hperm.mem_iff.2 (mem_sortBy.1 hb))
  exact Std.OrientedCmp.isLE_antisymm hab hba

end SortBy

section FirstBy

variable {α K : Type} [DecidableEq K] {key : α → K}

/-- The elements whose key is not in `seen` and that no earlier element has. -/
def firstsAfter (key : α → K) : List K → List α → List α
  | _, [] => []
  | seen, a :: rest =>
      if key a ∈ seen then firstsAfter key seen rest
      else a :: firstsAfter key (key a :: seen) rest

/-- The first element of each key. -/
def firstBy (key : α → K) (list : List α) : List α := firstsAfter key [] list

attribute [local simp] firstsAfter

theorem firstsAfter_sublist (seen : List K) (list : List α) :
    (firstsAfter key seen list).Sublist list := by
  induction list generalizing seen with
  | nil => exact List.Sublist.refl _
  | cons a rest ih =>
      unfold firstsAfter
      split
      · exact (ih seen).cons a
      · exact (ih (key a :: seen)).cons_cons a

theorem firstBy_sublist (list : List α) : (firstBy key list).Sublist list :=
  firstsAfter_sublist [] list

theorem mem_of_mem_firstBy {list : List α} {a : α} (ha : a ∈ firstBy key list) :
    a ∈ list :=
  (firstBy_sublist list).subset ha

theorem not_seen_of_mem_firstsAfter {seen : List K} {list : List α} {a : α}
    (ha : a ∈ firstsAfter key seen list) : key a ∉ seen := by
  induction list generalizing seen with
  | nil => exact absurd ha List.not_mem_nil
  | cons b rest ih =>
      unfold firstsAfter at ha
      split at ha
      · exact ih ha
      · next hseen =>
          rcases List.mem_cons.1 ha with rfl | hrest
          · exact hseen
          · intro hmem
            exact ih hrest (List.mem_cons_of_mem _ hmem)

theorem firstsAfter_nodup (seen : List K) (list : List α) :
    ((firstsAfter key seen list).map key).Nodup := by
  induction list generalizing seen with
  | nil => exact List.nodup_nil
  | cons a rest ih =>
      unfold firstsAfter
      split
      · exact ih seen
      · rw [List.map_cons, List.nodup_cons]
        refine ⟨?_, ih _⟩
        intro hmem
        obtain ⟨b, hb, hkey⟩ := List.mem_map.1 hmem
        exact not_seen_of_mem_firstsAfter hb (hkey ▸ List.mem_cons_self)

theorem firstBy_nodup (list : List α) : ((firstBy key list).map key).Nodup :=
  firstsAfter_nodup [] list

end FirstBy

section Perm

variable {α K V : Type} {left right : List α}

/-- A search for a unique element does not depend on the order. -/
theorem find?_eq_of_perm {p : α → Bool} (hperm : left.Perm right)
    (hunique : ∀ a ∈ left, ∀ b ∈ left, p a → p b → a = b) :
    left.find? p = right.find? p := by
  cases hleft : left.find? p with
  | none =>
      rw [List.find?_eq_none] at hleft
      symm
      rw [List.find?_eq_none]
      intro a ha
      exact hleft a (hperm.mem_iff.2 ha)
  | some a =>
      have hmem := List.mem_of_find?_eq_some hleft
      have hp := List.find?_some hleft
      cases hright : right.find? p with
      | none =>
          rw [List.find?_eq_none] at hright
          exact absurd hp (hright a (hperm.mem_iff.1 hmem))
      | some b =>
          have hmem' := hperm.mem_iff.2 (List.mem_of_find?_eq_some hright)
          rw [hunique a hmem b hmem' hp (List.find?_some hright)]

variable [Ord K] [Std.TransOrd K] [Std.LawfulEqOrd K] [DecidableEq K]

/-- A map built from entries of distinct keys does not depend on their order. -/
theorem ofList_eq_of_perm {left right : List (K × V)} (hperm : left.Perm right)
    (hnodup : (left.map Prod.fst).Nodup) :
    Std.ExtTreeMap.ofList left = Std.ExtTreeMap.ofList right := by
  have hdistinct : ∀ {entries : List (K × V)}, (entries.map Prod.fst).Nodup →
      entries.Pairwise fun a b => ¬ compare a.1 b.1 = .eq := by
    intro entries hentries
    refine (List.pairwise_map.1 hentries).imp ?_
    intro a b hne heq
    exact hne (Std.LawfulEqOrd.eq_of_compare heq)
  have hnodup' : (right.map Prod.fst).Nodup := (hperm.map _).nodup_iff.1 hnodup
  apply Std.ExtTreeMap.ext_getElem?
  intro key
  by_cases hkey : key ∈ left.map Prod.fst
  · obtain ⟨⟨_, value⟩, hentry, rfl⟩ := List.mem_map.1 hkey
    rw [Std.ExtTreeMap.getElem?_ofList_of_mem Std.ReflOrd.compare_self
        (hdistinct hnodup) hentry,
      Std.ExtTreeMap.getElem?_ofList_of_mem Std.ReflOrd.compare_self
        (hdistinct hnodup') (hperm.mem_iff.1 hentry)]
  · have hkey' : key ∉ right.map Prod.fst :=
      fun hmem => hkey ((hperm.map _).mem_iff.2 hmem)
    rw [Std.ExtTreeMap.getElem?_ofList_of_contains_eq_false
        (by simpa using hkey),
      Std.ExtTreeMap.getElem?_ofList_of_contains_eq_false
        (by simpa using hkey')]

end Perm

section InsertNew

variable {α K V ε σ : Type}

/-- A fold over elements that each pass a check of their own. -/
theorem foldlM_guard (bad : α → Prop) [DecidablePred bad] (error : α → ε)
    (f : σ → α → Except ε σ) {items : List α} {start stop : σ} :
    items.foldlM (fun state a => if bad a then .error (error a) else f state a)
        start = .ok stop ↔
      (∀ a ∈ items, ¬ bad a) ∧ items.foldlM f start = .ok stop := by
  induction items generalizing start with
  | nil => simp
  | cons a items ih =>
      rw [List.foldlM_cons, List.foldlM_cons, List.forall_mem_cons]
      by_cases hbad : bad a
      · rw [if_pos hbad]
        exact ⟨fun h => (by cases h), fun h => absurd hbad h.1.1⟩
      · rw [if_neg hbad, except_bind_eq_ok, except_bind_eq_ok]
        constructor
        · rintro ⟨state, hstate, h⟩
          exact ⟨⟨hbad, (ih.1 h).1⟩, state, hstate, (ih.1 h).2⟩
        · rintro ⟨⟨_, hgood⟩, state, hstate, h⟩
          exact ⟨state, hstate, ih.2 ⟨hgood, h⟩⟩

variable [Ord K] [Std.TransOrd K] [Std.LawfulEqOrd K]

/-- Insert an entry whose key must be new. -/
def insertNew (error : ε) (map : Std.ExtTreeMap K V) (key : K) (value : V) :
    Except ε (Std.ExtTreeMap K V) :=
  if key ∈ map then .error error else .ok (map.insert key value)

theorem foldlM_insertNew {key : α → K} {value : α → V} {error : α → ε}
    {items : List α} {start stop : Std.ExtTreeMap K V} :
    items.foldlM (fun map a => insertNew (error a) map (key a) (value a)) start =
        .ok stop ↔
      (items.map key).Nodup ∧ (∀ a ∈ items, key a ∉ start) ∧
        start.insertMany (items.map fun a => (key a, value a)) = stop := by
  induction items generalizing start with
  | nil =>
      rw [List.foldlM_nil]
      constructor
      · intro h
        exact ⟨List.nodup_nil, fun _ h => absurd h List.not_mem_nil,
          Except.ok.inj h⟩
      · rintro ⟨_, _, rfl⟩
        rfl
  | cons a items ih =>
      rw [List.foldlM_cons, List.map_cons, List.map_cons, List.nodup_cons,
        List.forall_mem_cons, Std.ExtTreeMap.insertMany_cons]
      unfold insertNew
      by_cases hmem : key a ∈ start
      · rw [if_pos hmem]
        exact ⟨fun h => (by cases h), fun h => absurd hmem h.2.1.1⟩
      · rw [if_neg hmem, except_ok_bind]
        change List.foldlM (fun map a => insertNew (error a) map (key a) (value a))
          (start.insert (key a) (value a)) items = _ ↔ _
        rw [ih]
        constructor
        · rintro ⟨hnodup, hfresh, heq⟩
          refine ⟨⟨?_, hnodup⟩, ⟨hmem, ?_⟩, heq⟩
          · intro hkey
            obtain ⟨b, hb, hkey⟩ := List.mem_map.1 hkey
            exact hfresh b hb (by simp [hkey])
          · intro b hb hstart
            exact hfresh b hb (by simp [hstart])
        · rintro ⟨⟨hkey, hnodup⟩, ⟨_, hfresh⟩, heq⟩
          refine ⟨hnodup, ?_, heq⟩
          intro b hb hinsert
          rcases Std.ExtTreeMap.mem_insert.1 hinsert with hsame | hstart
          · apply hkey
            rw [Std.LawfulEqOrd.eq_of_compare hsame]
            exact List.mem_map_of_mem hb
          · exact hfresh b hb hstart

/-- From the empty map, the fold builds the map of the entries. -/
theorem foldlM_insertNew_empty (key : α → K) (value : α → V) {error : α → ε}
    {items : List α} {stop : Std.ExtTreeMap K V} :
    items.foldlM (fun map a => insertNew (error a) map (key a) (value a)) ∅ =
        .ok stop ↔
      (items.map key).Nodup ∧
        Std.ExtTreeMap.ofList (items.map fun a => (key a, value a)) = stop := by
  rw [foldlM_insertNew, Std.ExtTreeMap.ofList_eq_insertMany_empty]
  exact and_congr_right fun _ =>
    ⟨fun h => h.2, fun h => ⟨fun _ _ => Std.ExtTreeMap.not_mem_empty, h⟩⟩

end InsertNew

section MapM

variable {α β ε : Type} {f : α → Except ε β}

/-- A fallible map that succeeds pairs each element with its result. -/
theorem mapM_eq_ok_iff {items : List α} {results : List β} :
    items.mapM f = .ok results ↔
      List.Forall₂ (fun item result => f item = .ok result) items results := by
  induction items generalizing results with
  | nil =>
      rw [List.mapM_nil, List.forall₂_nil_left_iff]
      exact ⟨fun h => (Except.ok.inj h).symm, fun h => h ▸ rfl⟩
  | cons item items ih =>
      rw [List.mapM_cons, List.forall₂_cons_left_iff]
      constructor
      · intro h
        obtain ⟨result, hresult, h⟩ := except_bind_eq_ok.1 h
        obtain ⟨rest, hrest, h⟩ := except_bind_eq_ok.1 h
        exact ⟨result, rest, hresult, ih.1 hrest, (Except.ok.inj h).symm⟩
      · rintro ⟨result, rest, hresult, hrest, rfl⟩
        rw [hresult, ih.2 hrest]
        rfl

theorem mapM_perm {items others : List α} {results : List β}
    (hperm : items.Perm others) (h : items.mapM f = .ok results) :
    ∃ mapped, others.mapM f = .ok mapped ∧ results.Perm mapped := by
  obtain ⟨mapped, hmapped, hperm'⟩ :=
    List.perm_comp_forall₂ hperm.symm (mapM_eq_ok_iff.1 h)
  exact ⟨mapped, mapM_eq_ok_iff.2 hmapped, hperm'.symm⟩

theorem mapM_mem {items : List α} {results : List β}
    (h : items.mapM f = .ok results) : results.length = items.length ∧
    (∀ result ∈ results, ∃ item ∈ items, f item = .ok result) ∧
      ∀ item ∈ items, ∃ result ∈ results, f item = .ok result := by
  induction items generalizing results with
  | nil =>
      cases h
      exact ⟨rfl, fun _ hmem => absurd hmem List.not_mem_nil,
        fun _ hmem => absurd hmem List.not_mem_nil⟩
  | cons item items ih =>
      rw [List.mapM_cons] at h
      obtain ⟨result, hresult, h⟩ := except_bind_eq_ok.1 h
      obtain ⟨rest, hrest, h⟩ := except_bind_eq_ok.1 h
      obtain rfl := Except.ok.inj h
      obtain ⟨hlength, hsound, hcomplete⟩ := ih hrest
      refine ⟨congrArg Nat.succ hlength, ?_, ?_⟩
      · intro other hother
        rcases List.mem_cons.1 hother with rfl | hmem
        · exact ⟨item, List.mem_cons_self, hresult⟩
        · obtain ⟨source, hsource, heq⟩ := hsound other hmem
          exact ⟨source, List.mem_cons_of_mem _ hsource, heq⟩
      · intro other hother
        rcases List.mem_cons.1 hother with rfl | hmem
        · exact ⟨result, List.mem_cons_self, hresult⟩
        · obtain ⟨target, htarget, heq⟩ := hcomplete other hmem
          exact ⟨target, List.mem_cons_of_mem _ htarget, heq⟩

theorem mapM_ok {items : List α} (h : ∀ item ∈ items, ∃ result, f item = .ok result) :
    ∃ results, items.mapM f = .ok results := by
  induction items with
  | nil => exact ⟨[], rfl⟩
  | cons item items ih =>
      obtain ⟨⟨result, hresult⟩, hrest⟩ := List.forall_mem_cons.1 h
      obtain ⟨results, hresults⟩ := ih hrest
      refine ⟨result :: results, ?_⟩
      rw [List.mapM_cons, hresult, except_ok_bind, hresults]
      rfl

theorem forM_ok {check : α → Except ε Unit} {items : List α}
    (h : ∀ item ∈ items, check item = .ok ()) : items.forM check = .ok () := by
  induction items with
  | nil => rfl
  | cons item items ih =>
      obtain ⟨hitem, hrest⟩ := List.forall_mem_cons.1 h
      change (check item >>= fun _ => items.forM check) = .ok ()
      rw [hitem, except_ok_bind]
      exact ih hrest

/-- A fallible map fails at one of the elements. -/
theorem mapM_eq_error {items : List α} {error : ε}
    (h : items.mapM f = .error error) : ∃ item ∈ items, f item = .error error := by
  induction items with
  | nil => cases h
  | cons item items ih =>
      rw [List.mapM_cons] at h
      cases hitem : f item with
      | error first =>
          rw [hitem] at h
          cases h
          exact ⟨item, List.mem_cons_self, hitem⟩
      | ok result =>
          rw [hitem, except_ok_bind] at h
          cases hrest : items.mapM f with
          | error last =>
              rw [hrest] at h
              cases h
              obtain ⟨other, hother, heq⟩ := ih hrest
              exact ⟨other, List.mem_cons_of_mem _ hother, heq⟩
          | ok results =>
              rw [hrest] at h
              cases h

/-- A fold that succeeds has taken a step at each element. -/
theorem foldlM_mem {σ : Type} {step : σ → α → Except ε σ} {items : List α}
    {start stop : σ} (h : items.foldlM step start = .ok stop) :
    ∀ item ∈ items, ∃ state next, step state item = .ok next := by
  induction items generalizing start with
  | nil => exact fun _ hitem => absurd hitem List.not_mem_nil
  | cons item items ih =>
      rw [List.foldlM_cons] at h
      obtain ⟨next, hnext, hrest⟩ := except_bind_eq_ok.1 h
      rw [List.forall_mem_cons]
      exact ⟨⟨start, next, hnext⟩, ih hrest⟩

/-- A fold whose steps all succeed under an invariant that counts them. -/
theorem foldlM_ok {σ : Type} {step : σ → α → Except ε σ} (inv : Nat → σ → Prop)
    {items : List α} {start : σ} {n : Nat} (hstart : inv n start)
    (hstep : ∀ item ∈ items, ∀ m state, m < n + items.length → inv m state →
      ∃ next, step state item = .ok next ∧ inv (m + 1) next) :
    ∃ stop, items.foldlM step start = .ok stop ∧ inv (n + items.length) stop := by
  induction items generalizing start n with
  | nil => exact ⟨start, rfl, hstart⟩
  | cons item items ih =>
      rw [List.length_cons] at hstep ⊢
      obtain ⟨next, hnext, hinv⟩ :=
        hstep item List.mem_cons_self n start (by omega) hstart
      obtain ⟨stop, hstop, hlast⟩ := ih hinv (by
        intro other hother m state hm hstate
        exact hstep other (List.mem_cons_of_mem _ hother) m state (by omega) hstate)
      refine ⟨stop, ?_, ?_⟩
      · rw [List.foldlM_cons, hnext, except_ok_bind]
        exact hstop
      · rw [show n + (items.length + 1) = n + 1 + items.length by omega]
        exact hlast

end MapM

section OfList

variable {K V : Type} [Ord K] [Std.TransOrd K] [Std.LawfulEqOrd K]

/-- An entry of a map comes from the list it is built from. -/
theorem mem_of_getElem?_ofList {entries : List (K × V)} {key : K} {value : V}
    (h : (Std.ExtTreeMap.ofList entries)[key]? = some value) :
    (key, value) ∈ entries := by
  rw [Std.ExtTreeMap.ofList_eq_insertMany_empty] at h
  induction entries using List.reverseRecOn generalizing value with
  | nil =>
      rw [Std.ExtTreeMap.insertMany_nil, Std.ExtTreeMap.getElem?_empty] at h
      cases h
  | append_singleton entries last ih =>
      obtain ⟨lastKey, lastValue⟩ := last
      rw [Std.ExtTreeMap.insertMany_append,
        Std.ExtTreeMap.insertMany_list_singleton,
        Std.ExtTreeMap.getElem?_insert] at h
      split at h
      · next hkey =>
          cases h
          obtain rfl := Std.LawfulEqOrd.eq_of_compare hkey
          exact List.mem_append_right _ List.mem_cons_self
      · exact List.mem_append_left _ (ih h)

end OfList

section Splitting

variable {α : Type}

/-- No part of a list that is split has a separator in it. -/
theorem of_mem_splitOnP {p : α → Bool} {list part : List α}
    (h : part ∈ list.splitOnP p) : ∀ x ∈ part, x ∈ list ∧ p x = false := by
  induction list generalizing part with
  | nil =>
      rw [List.splitOnP_nil, List.mem_singleton] at h
      simp [h]
  | cons y list ih =>
      rw [List.splitOnP_cons_eq_if_modifyHead] at h
      split at h
      · rcases List.mem_cons.1 h with rfl | h
        · simp
        · intro x hx
          exact ⟨List.mem_cons_of_mem _ (ih h x hx).1, (ih h x hx).2⟩
      · rename_i hy
        obtain ⟨first, rest, hsplit⟩ :=
          List.exists_cons_of_ne_nil (List.splitOnP_ne_nil p list)
        rw [hsplit] at h ih
        rw [List.modifyHead_cons] at h
        intro x hx
        rcases List.mem_cons.1 h with rfl | h
        · rcases List.mem_cons.1 hx with rfl | hx
          · exact ⟨List.mem_cons_self, Bool.eq_false_iff.2 hy⟩
          · have hfound := ih List.mem_cons_self x hx
            exact ⟨List.mem_cons_of_mem _ hfound.1, hfound.2⟩
        · have hfound := ih (List.mem_cons_of_mem _ h) x hx
          exact ⟨List.mem_cons_of_mem _ hfound.1, hfound.2⟩

/-- A name that a list is split into does not have the separator. -/
theorem not_mem_of_mem_splitOn [BEq α] [LawfulBEq α] {separator : α} {list part : List α}
    (h : part ∈ list.splitOn separator) : separator ∉ part := by
  rw [List.splitOn_eq_splitOnP] at h
  intro hmem
  have hfalse := (of_mem_splitOnP h separator hmem).2
  rw [beq_self_eq_true] at hfalse
  cases hfalse

end Splitting

end Yams
