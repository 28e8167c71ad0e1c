import ContentStream.PageRange
import ContentStream.Proofs.Result
import ContentStream.Proofs.Text.Blank
import Mathlib.Data.List.Sort

/-!
# Selections of pages as sets

A selection covers the pages of its parts.  However it is written, the indices come out in
increasing order, each once, and are those of the covered pages.
-/

namespace ContentStream.PageRange

variable {count page : Nat} {text part : List Char}

theorem number_eq_ok (h : number count text = .ok page) : 0 < page ∧ page ≤ count := by
  unfold number at h
  dsimp only at h
  split at h
  next => contradiction
  next => contradiction
  next found hzero _ =>
    split at h
    next => contradiction
    next hle =>
      obtain rfl := Except.ok.inj h
      refine ⟨Nat.pos_of_ne_zero ?_, Nat.le_of_not_lt hle⟩
      rintro rfl
      exact hzero rfl

theorem bounds_eq_ok {first last : Nat} (h : bounds count part = .ok (first, last)) :
    0 < first ∧ last ≤ count := by
  unfold bounds at h
  split at h
  next =>
    obtain ⟨page, hpage, heq⟩ := Result.map_eq_ok.1 h
    obtain ⟨rfl, rfl⟩ := Prod.mk.inj heq
    exact number_eq_ok hpage
  next =>
    obtain ⟨page, hfirst, h⟩ := Result.bind_eq_ok.1 h
    obtain ⟨other, hlast, h⟩ := Result.bind_eq_ok.1 h
    obtain ⟨rfl, rfl⟩ := Prod.mk.inj (Except.ok.inj h)
    exact ⟨(number_eq_ok hfirst).1, (number_eq_ok hlast).2⟩

def Part.Covers (count : Nat) (part : List Char) (page : Nat) : Prop :=
  ∃ first last, bounds count part = .ok (first, last) ∧ first ≤ page ∧ page ≤ last

theorem mem_of_pagesOf_eq_ok {pages : List Nat} (h : pagesOf count part = .ok pages) :
    page ∈ pages ↔ Part.Covers count part page := by
  obtain ⟨⟨first, last⟩, hbounds, h⟩ := Result.bind_eq_ok.1 h
  dsimp only at h
  split at h
  next => contradiction
  next hle =>
    obtain rfl := Except.ok.inj h
    rw [List.mem_range'_1]
    constructor
    · rintro ⟨hfirst, hlast⟩
      exact ⟨first, last, hbounds, hfirst, by omega⟩
    · rintro ⟨first', last', hbounds', hfirst, hlast⟩
      obtain ⟨rfl, rfl⟩ := Prod.mk.inj (Except.ok.inj (hbounds.symm.trans hbounds'))
      omega

theorem mem_mergeNeighbors {pages : List Nat} : page ∈ mergeNeighbors pages ↔ page ∈ pages := by
  fun_induction mergeNeighbors pages with
  | case1 => rfl
  | case2 => rfl
  | case3 second pages ih => simp [ih]
  | case4 first second pages hne ih => simp [ih]

theorem pairwise_mergeNeighbors {pages : List Nat} (h : pages.Pairwise (· ≤ ·)) :
    (mergeNeighbors pages).Pairwise (· < ·) := by
  fun_induction mergeNeighbors pages with
  | case1 => exact .nil
  | case2 => exact List.pairwise_singleton _ _
  | case3 second pages ih => exact ih h.of_cons
  | case4 first second pages hne ih =>
      refine List.pairwise_cons.2 ⟨fun page hpage => ?_, ih h.of_cons⟩
      have hsecond := List.rel_of_pairwise_cons h (List.mem_cons_self (a := second))
      rcases List.mem_cons.1 (mem_mergeNeighbors.1 hpage) with rfl | hlater
      · omega
      · have hpages := List.rel_of_pairwise_cons h.of_cons hlater
        omega

def Covers (count : Nat) (input : String) (page : Nat) : Prop :=
  ∃ part ∈ parts input.toList, Part.Covers count part page

theorem Covers.bounds {input : String} (h : Covers count input page) :
    0 < page ∧ page ≤ count := by
  obtain ⟨part, -, first, last, hbounds, hfirst, hlast⟩ := h
  have hpages := bounds_eq_ok hbounds
  omega

theorem indices_eq_ok {input : String} {found : List Nat} (h : indices input count = .ok found) :
    found.Pairwise (· < ·) ∧ ∀ index, index ∈ found ↔ Covers count input (index + 1) := by
  obtain ⟨covered, hcovered, h⟩ := Result.bind_eq_ok.1 h
  dsimp only at h
  split at h
  next => contradiction
  next =>
  obtain rfl := Except.ok.inj h
  have hmem : ∀ page, page ∈ mergeNeighbors (covered.flatten.mergeSort (· ≤ ·)) ↔
      Covers count input page := by
    intro page
    rw [mem_mergeNeighbors, List.mem_mergeSort, List.mem_flatten]
    constructor
    · rintro ⟨pages, hpages, hpage⟩
      obtain ⟨part, hpart, hpagesOf⟩ := (Result.mem_of_mapM_eq_ok hcovered).1 hpages
      exact ⟨part, hpart, (mem_of_pagesOf_eq_ok hpagesOf).1 hpage⟩
    · rintro ⟨part, hpart, hcovers⟩
      obtain ⟨pages, hpages⟩ := Result.exists_mapM_eq_ok_iff.1 ⟨_, hcovered⟩ part hpart
      exact ⟨pages, (Result.mem_of_mapM_eq_ok hcovered).2 ⟨part, hpart, hpages⟩,
        (mem_of_pagesOf_eq_ok hpages).2 hcovers⟩
  have hsorted : (mergeNeighbors (covered.flatten.mergeSort (· ≤ ·))).Pairwise (· < ·) :=
    pairwise_mergeNeighbors (List.pairwise_mergeSort' (· ≤ ·) _)
  have hpos : ∀ page ∈ mergeNeighbors (covered.flatten.mergeSort (· ≤ ·)), 0 < page :=
    fun page hpage => ((hmem page).1 hpage).bounds.1
  refine ⟨List.pairwise_map.2 (hsorted.imp_of_mem fun hfirst _ hlt => ?_), fun index => ?_⟩
  · have := hpos _ hfirst
    omega
  · rw [← hmem, List.mem_map]
    constructor
    · rintro ⟨page, hpage, rfl⟩
      rwa [Nat.sub_add_cancel (hpos page hpage)]
    · exact fun hpage => ⟨index + 1, hpage, rfl⟩

variable {digits : List Char}

end ContentStream.PageRange
