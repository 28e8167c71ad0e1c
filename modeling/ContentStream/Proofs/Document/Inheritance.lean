import ContentStream.Document.Standard
import ContentStream.Proofs.Document.References
import ContentStream.Proofs.Result
import Mathlib.Data.List.Perm.Subperm

/-!
# Resources along the chain of parents

The resources of a page are looked for at the page, at its parent, and so on.  Climbing is a
relation here: from a page along parents that are dictionaries in place and along references to
dictionaries, past nodes without resources.  As no reference is followed twice, it comes to an
end, and where it ends the node alone decides what the page has.
-/

namespace ContentStream.Document

/--
The node is reached from the page past nodes without resources.  The references that were
followed are listed, the last one first.
-/
inductive Climbs (doc : Document) (page : Object.Entries) : List ObjectId → Object.Entries → Prop
  | here : Climbs doc page [] page
  | inside {followed : List ObjectId} {node parent : Object.Entries}
      (h : Climbs doc page followed node)
      (hresources : Object.get? node "Resources" = none)
      (hparent : Object.get? node "Parent" = some (.dictionary parent)) :
      Climbs doc page followed parent
  | reference {followed : List ObjectId} {node parent : Object.Entries} {id : ObjectId}
      (h : Climbs doc page followed node) (hresources : Object.get? node "Resources" = none)
      (hparent : Object.get? node "Parent" = some (.reference id))
      (hobject : doc.object? id = some (.dictionary parent)) :
      Climbs doc page (id :: followed) parent

/--
There is no way on from the node: it has resources or no parent, or its parent is a reference
that has been visited, or is no dictionary.
-/
inductive Stops (doc : Document) (visited : List ObjectId) (node : Object.Entries) : Prop
  | resources {value : Object} (hresources : Object.get? node "Resources" = some value)
  | root (hresources : Object.get? node "Resources" = none)
      (hparent : Object.get? node "Parent" = none)
  | repeated {id : ObjectId} (hresources : Object.get? node "Resources" = none)
      (hparent : Object.get? node "Parent" = some (.reference id)) (hmem : id ∈ visited)
  | mistyped {parent : Object} (hresources : Object.get? node "Resources" = none)
      (hparent : Object.get? node "Parent" = some parent)
      (hnew : ∀ id ∈ visited, parent ≠ .reference id)
      (hdictionary : ∀ entries, doc.resolve parent ≠ .dictionary entries)

section Climbs

variable {doc : Document} {page node last parent : Object.Entries} {followed others : List ObjectId}
  {visited : List ObjectId} {id : ObjectId}

theorem Climbs.trans (h : doc.Climbs page followed node) (h' : doc.Climbs node others last) :
    doc.Climbs page (others ++ followed) last := by
  induction h' with
  | here => exact h
  | inside _ hresources hparent ih => exact .inside ih hresources hparent
  | reference _ hresources hparent hobject ih => exact .reference ih hresources hparent hobject

theorem Climbs.mem_ids (h : doc.Climbs page followed node) :
    ∀ id ∈ followed, id ∈ doc.objects.map Prod.fst := by
  induction h with
  | here => simp
  | inside _ _ _ ih => exact ih
  | reference _ _ _ hobject ih =>
      exact List.forall_mem_cons.2 ⟨mem_ids_of_object? hobject, ih⟩

theorem Climbs.length_lt (h : doc.Climbs page followed node)
    (hpage : doc.object? id = some (.dictionary page))
    (hnodup : (followed ++ [id]).Nodup) : followed.length < doc.objects.length := by
  have hsubset : followed ++ [id] ⊆ doc.objects.map Prod.fst := by
    intro met hmet
    rcases List.mem_append.1 hmet with hmet | hmet
    · exact h.mem_ids met hmet
    · obtain rfl := List.mem_singleton.1 hmet
      exact mem_ids_of_object? hpage
  have hlength := (List.subperm_of_subset hnodup hsubset).length_le
  rwa [List.length_append, List.length_singleton, List.length_map] at hlength

theorem inherited?_resources {value : Object}
    (h : Object.get? node "Resources" = some value) :
    doc.inherited? visited node = .ok (some value) := by
  rw [inherited?, h]

theorem inherited?_root (hresources : Object.get? node "Resources" = none)
    (hparent : Object.get? node "Parent" = none) : doc.inherited? visited node = .ok none := by
  rw [inherited?, hresources]
  dsimp only
  split
  next => rfl
  all_goals next h => simp [hparent] at h

theorem inherited?_inside (hresources : Object.get? node "Resources" = none)
    (hparent : Object.get? node "Parent" = some (.dictionary parent)) :
    doc.inherited? visited node = doc.inherited? visited parent := by
  rw [inherited?, hresources]
  dsimp only
  split
  next h => simp [hparent] at h
  next entries h =>
    obtain rfl : parent = entries := by simpa [hparent] using h
    rfl
  next h => simp [hparent] at h
  next hnot _ h =>
    rw [hparent] at h
    exact absurd (Option.some.inj h).symm (hnot parent)

private theorem inherited?_of_reference (hresources : Object.get? node "Resources" = none)
    (hparent : Object.get? node "Parent" = some (.reference id)) :
    doc.inherited? visited node =
      if id ∈ visited then .error (.document (.parentCycle id))
      else expectDictionary (doc.resolve (.reference id)) >>= fun parent =>
        doc.inherited? (id :: visited) parent := by
  rw [inherited?, hresources]
  dsimp only
  split
  next h => simp [hparent] at h
  next h => simp [hparent] at h
  next other h =>
    obtain rfl : id = other := by simpa [hparent] using h
    split
    next => rfl
    next =>
      split
      next entries hobject =>
        rw [resolve_of_object? hobject]
        rfl
      next other hother hobject =>
        rw [resolve_of_object? hobject]
        cases other with
        | dictionary entries => exact absurd rfl (hother entries)
        | _ => rfl
      next hobject =>
        rw [resolve_of_object?_eq_none hobject]
        rfl
  next _ hnot h =>
    rw [hparent] at h
    exact absurd (Option.some.inj h).symm (hnot id)

theorem inherited?_reference (hresources : Object.get? node "Resources" = none)
    (hparent : Object.get? node "Parent" = some (.reference id)) (hnew : id ∉ visited)
    (hobject : doc.object? id = some (.dictionary parent)) :
    doc.inherited? visited node = doc.inherited? (id :: visited) parent := by
  rw [inherited?_of_reference hresources hparent, if_neg hnew, resolve_of_object? hobject]
  rfl

theorem inherited?_repeated (hresources : Object.get? node "Resources" = none)
    (hparent : Object.get? node "Parent" = some (.reference id)) (hmem : id ∈ visited) :
    doc.inherited? visited node = .error (.document (.parentCycle id)) := by
  rw [inherited?_of_reference hresources hparent, if_pos hmem]

private theorem expectDictionary_eq_error {object : Object}
    (h : ∀ entries, object ≠ .dictionary entries) :
    expectDictionary object = .error (.document (.mistyped "Dictionary" object.kind)) := by
  cases object with
  | dictionary entries => exact absurd rfl (h entries)
  | _ => rfl

theorem inherited?_mistyped {object : Object} (hresources : Object.get? node "Resources" = none)
    (hparent : Object.get? node "Parent" = some object)
    (hnew : ∀ id ∈ visited, object ≠ .reference id)
    (hdictionary : ∀ entries, doc.resolve object ≠ .dictionary entries) :
    doc.inherited? visited node =
      .error (.document (.mistyped "Dictionary" (doc.resolve object).kind)) := by
  cases object with
  | reference id =>
      rw [inherited?_of_reference hresources hparent, if_neg fun hmem => hnew id hmem rfl,
        expectDictionary_eq_error hdictionary]
      rfl
  | dictionary entries => exact absurd rfl (hdictionary entries)
  | _ =>
      rw [inherited?, hresources]
      dsimp only
      split
      next h => simp [hparent] at h
      next h => simp [hparent] at h
      next h => simp [hparent] at h
      next other _ _ h =>
        rw [hparent] at h
        obtain rfl := Option.some.inj h
        rfl

theorem Climbs.inherited?_eq (h : doc.Climbs page followed node)
    (hnodup : (followed ++ visited).Nodup) :
    doc.inherited? visited page = doc.inherited? (followed ++ visited) node := by
  induction h with
  | here => rfl
  | inside _ hresources hparent ih => rw [ih hnodup, inherited?_inside hresources hparent]
  | reference _ hresources hparent hobject ih =>
      rw [List.cons_append] at hnodup ⊢
      obtain ⟨hnew, hnodup⟩ := List.nodup_cons.1 hnodup
      rw [ih hnodup, inherited?_reference hresources hparent hnew hobject]

theorem exists_stops (doc : Document) {visited : List ObjectId} (page : Object.Entries)
    (hnodup : visited.Nodup) : ∃ followed node, doc.Climbs page followed node ∧
      (followed ++ visited).Nodup ∧ doc.Stops (followed ++ visited) node := by
  induction visited, page using inherited?.induct doc with
  | case1 visited page value hresources => exact ⟨[], page, .here, hnodup, .resources hresources⟩
  | case2 visited page hresources hparent =>
      exact ⟨[], page, .here, hnodup, .root hresources hparent⟩
  | case3 visited page hresources entries hparent _ ih =>
      obtain ⟨followed, node, hclimbs, hnodup, hstops⟩ := ih hnodup
      have hfirst : doc.Climbs page [] entries := .inside .here hresources hparent
      exact ⟨followed, node, by simpa using hfirst.trans hclimbs, hnodup, hstops⟩
  | case4 visited page hresources id hparent hmem =>
      exact ⟨[], page, .here, hnodup, .repeated hresources hparent hmem⟩
  | case5 visited page hresources id hparent hnew entries hobject _ ih =>
      obtain ⟨followed, node, hclimbs, hnodup, hstops⟩ := ih (List.nodup_cons.2 ⟨hnew, hnodup⟩)
      have hfirst : doc.Climbs page [id] entries := .reference .here hresources hparent hobject
      refine ⟨followed ++ [id], node, hfirst.trans hclimbs, ?_, ?_⟩
      · simpa using hnodup
      · simpa using hstops
  | case6 visited page hresources id hparent hnew other hother hobject =>
      refine ⟨[], page, .here, hnodup, .mistyped hresources hparent ?_ fun entries => ?_⟩
      · rintro met hmet ⟨⟩
        exact hnew hmet
      · rw [resolve_of_object? hobject]
        exact hother entries
  | case7 visited page hresources id hparent hnew hobject =>
      refine ⟨[], page, .here, hnodup, .mistyped hresources hparent ?_ fun entries => ?_⟩
      · rintro met hmet ⟨⟩
        exact hnew hmet
      · rw [resolve_of_object?_eq_none hobject]
        exact Object.noConfusion
  | case8 visited page hresources other hdictionary hreference hparent =>
      have hresolve : doc.resolve other = other := by
        cases other with
        | reference id => exact absurd rfl (hreference id)
        | _ => rfl
      refine ⟨[], page, .here, hnodup, .mistyped hresources hparent ?_ fun entries => ?_⟩
      · exact fun met _ => hreference met
      · rw [hresolve]
        exact hdictionary entries

end Climbs

/-! ## The resources of a page -/

/--
From the page with the identity one climbs to the node, along references that differ from each
other and from the page.
-/
def Ascends (doc : Document) (id : ObjectId) (followed : List ObjectId) (node : Object.Entries) :
    Prop :=
  (∃ page, doc.object? id = some (.dictionary page) ∧ doc.Climbs page followed node) ∧
    (followed ++ [id]).Nodup

section Ascends

variable {doc : Document} {index : Nat} {id : ObjectId} {followed : List ObjectId}
  {node : Object.Entries} {value parent : Object}

theorem Ascends.length_lt (h : doc.Ascends id followed node) :
    followed.length < doc.objects.length := by
  obtain ⟨⟨page, hpage, hclimbs⟩, hnodup⟩ := h
  exact hclimbs.length_lt hpage hnodup

theorem exists_ascends_stops (hid : doc.pages[index]? = some id) :
    ∃ followed node, doc.Ascends id followed node ∧
      doc.Stops (followed ++ [id]) node := by
  obtain ⟨page, hpage, -⟩ := exists_page hid
  obtain ⟨followed, node, hclimbs, hnodup, hstops⟩ :=
    doc.exists_stops page (List.pairwise_singleton _ id)
  exact ⟨followed, node, ⟨⟨page, hpage, hclimbs⟩, hnodup⟩, hstops⟩

private theorem Ascends.inherited?_eq (h : doc.Ascends id followed node)
    (hid : doc.pages[index]? = some id) :
    ∃ page, doc.pageId index = .ok id ∧ doc.page index = .ok page ∧
      doc.inherited? [id] page = doc.inherited? (followed ++ [id]) node := by
  obtain ⟨⟨page, hpage, hclimbs⟩, hnodup⟩ := h
  obtain ⟨page', hpage', hentries⟩ := exists_page hid
  obtain rfl : page' = page := by simpa [hpage] using hpage'.symm
  exact ⟨page', by rw [pageId, hid], hentries, hclimbs.inherited?_eq hnodup⟩

theorem Ascends.pageResources_dictionary (h : doc.Ascends id followed node)
    (hid : doc.pages[index]? = some id)
    (hvalue : Object.get? node "Resources" = some value) {entries : Object.Entries}
    (hentries : doc.resolve value = .dictionary entries) : doc.pageResources index =
      .ok ⟨convertEntries (doc.operandWithin resourceLevels) entries⟩ := by
  obtain ⟨page, hstart, hpage, hfound⟩ := h.inherited?_eq hid
  simp only [pageResources, resourceEntries, hstart, hpage, hfound, inherited?_resources hvalue,
    Option.map_some, hentries, bind, Except.bind]
  rfl

theorem Ascends.pageResources_mistyped (h : doc.Ascends id followed node)
    (hid : doc.pages[index]? = some id)
    (hvalue : Object.get? node "Resources" = some value)
    (hentries : ∀ entries, doc.resolve value ≠ .dictionary entries) :
    doc.pageResources index = .error (.document .resourcesMistyped) := by
  obtain ⟨page, hstart, hpage, hfound⟩ := h.inherited?_eq hid
  simp only [pageResources, resourceEntries, hstart, hpage, hfound, inherited?_resources hvalue,
    Option.map_some, bind, Except.bind]
  cases hresolve : doc.resolve value with
  | dictionary entries => exact absurd hresolve (hentries entries)
  | _ => rfl

theorem Ascends.pageResources_root (h : doc.Ascends id followed node)
    (hid : doc.pages[index]? = some id) (hresources : Object.get? node "Resources" = none)
    (hparent : Object.get? node "Parent" = none) :
    doc.pageResources index = .ok Resources.empty := by
  obtain ⟨page, hstart, hpage, hfound⟩ := h.inherited?_eq hid
  simp only [pageResources, resourceEntries, hstart, hpage, hfound,
    inherited?_root hresources hparent, bind, Except.bind]
  rfl

private theorem Ascends.pageResources_error (h : doc.Ascends id followed node)
    (hid : doc.pages[index]? = some id) {error : Error}
    (herror : doc.inherited? (followed ++ [id]) node = .error error) :
    doc.pageResources index = .error error := by
  obtain ⟨page, hstart, hpage, hfound⟩ := h.inherited?_eq hid
  simp only [pageResources, resourceEntries, hstart, hpage, hfound, herror, bind, Except.bind]
  rfl

theorem Ascends.pageResources_repeated (h : doc.Ascends id followed node)
    (hid : doc.pages[index]? = some id) (hresources : Object.get? node "Resources" = none)
    {repeated : ObjectId} (hparent : Object.get? node "Parent" = some (.reference repeated))
    (hmem : repeated ∈ followed ++ [id]) :
    doc.pageResources index = .error (.document (.parentCycle repeated)) :=
  h.pageResources_error hid (inherited?_repeated hresources hparent hmem)

theorem Ascends.pageResources_parentMistyped (h : doc.Ascends id followed node)
    (hid : doc.pages[index]? = some id) (hresources : Object.get? node "Resources" = none)
    (hparent : Object.get? node "Parent" = some parent)
    (hnew : ∀ met ∈ followed ++ [id], parent ≠ .reference met)
    (hdictionary : ∀ entries, doc.resolve parent ≠ .dictionary entries) :
    doc.pageResources index =
      .error (.document (.mistyped "Dictionary" (doc.resolve parent).kind)) :=
  h.pageResources_error hid (inherited?_mistyped hresources hparent hnew hdictionary)

/-- The resources of the page with the index, its own or inherited ones, are the dictionary. -/
def HasResources (doc : Document) (index : Nat) (entries : Object.Entries) : Prop :=
  ∃ id followed node value, doc.pages[index]? = some id ∧
    doc.Ascends id followed node ∧ Object.get? node "Resources" = some value ∧
    doc.resolve value = .dictionary entries

theorem HasResources.pageResources_eq {entries : Object.Entries}
    (h : doc.HasResources index entries) : doc.pageResources index =
      .ok ⟨convertEntries (doc.operandWithin resourceLevels) entries⟩ := by
  obtain ⟨id, followed, node, value, hid, hascends, hvalue, hentries⟩ := h
  exact hascends.pageResources_dictionary hid hvalue hentries

end Ascends

/--
The objects on the way from the page to the first node with resources, and those that these
resources lead to.
-/
inductive Matters (doc : Document) (id : ObjectId) : ObjectId → Prop
  | page {met : ObjectId} (h : doc.Follows id met) : Matters doc id met
  | parent {followed : List ObjectId} {node : Object.Entries} {parent met : ObjectId}
      (hascends : doc.Ascends id followed node)
      (hresources : Object.get? node "Resources" = none)
      (hparent : Object.get? node "Parent" = some (.reference parent))
      (h : doc.Follows parent met) : Matters doc id met
  | resources {followed : List ObjectId} {node : Object.Entries} {value : Object} {met : ObjectId}
      (hascends : doc.Ascends id followed node)
      (hresources : Object.get? node "Resources" = some value)
      (h : doc.LeadsTo value met) : Matters doc id met

section Matters

variable {doc doc' : Document} {index index' : Nat} {id : ObjectId} {followed : List ObjectId}
  {node : Object.Entries} (hlibrary : doc'.library = doc.library)
include hlibrary

private theorem Ascends.congr
    (hagree : ∀ met, doc.Matters id met → doc'.objects.lookup met = doc.objects.lookup met)
    (h : doc.Ascends id followed node) : doc'.Ascends id followed node := by
  obtain ⟨⟨page, hpage, hclimbs⟩, hnodup⟩ := h
  have hpage' : doc'.object? id = some (.dictionary page) := by
    rw [object?_congr hlibrary fun met hmet => hagree met (.page hmet), hpage]
  refine ⟨⟨page, hpage', ?_⟩, hnodup⟩
  induction hclimbs with
  | here => exact .here
  | inside hclimbs hresources hparent ih => exact .inside (ih hnodup) hresources hparent
  | reference hclimbs hresources hparent hobject ih =>
      have hrest := (List.nodup_cons.1 hnodup).2
      refine .reference (ih hrest) hresources hparent ?_
      rw [object?_congr hlibrary fun met hmet =>
        hagree met (.parent ⟨⟨page, hpage, hclimbs⟩, hrest⟩ hresources hparent hmet), hobject]

theorem pageResources_congr
    (hagree : ∀ met, doc.Matters id met → doc'.objects.lookup met = doc.objects.lookup met)
    (hid : doc.pages[index]? = some id) (hid' : doc'.pages[index']? = some id) :
    doc'.pageResources index' = doc.pageResources index := by
  obtain ⟨followed, node, hascends, hstops⟩ := exists_ascends_stops hid
  have hascends' := hascends.congr hlibrary hagree
  cases hstops with
  | @resources value hresources =>
      have hresolve : doc'.resolve value = doc.resolve value :=
        resolve_congr hlibrary fun met hmet => hagree met (.resources hascends hresources hmet)
      by_cases hdictionary : ∃ entries, doc.resolve value = .dictionary entries
      · obtain ⟨entries, hentries⟩ := hdictionary
        rw [hascends.pageResources_dictionary hid hresources hentries,
          hascends'.pageResources_dictionary hid' hresources (hresolve.trans hentries)]
        have hreached : ∀ entry ∈ entries, ∀ met, doc.LeadsTo entry.2 met →
            doc'.objects.lookup met = doc.objects.lookup met := fun entry hentry met hmet =>
          hagree met (.resources hascends hresources (.of_resolve (hentries ▸ .entry hentry hmet)))
        rw [convertEntries_congr fun entry hentry =>
          operandWithin_congr hlibrary (hreached entry hentry) resourceLevels]
      · have hentries : ∀ entries, doc.resolve value ≠ .dictionary entries :=
          fun entries hentries => hdictionary ⟨entries, hentries⟩
        rw [hascends.pageResources_mistyped hid hresources hentries,
          hascends'.pageResources_mistyped hid' hresources (by rwa [hresolve])]
  | root hresources hparent =>
      rw [hascends.pageResources_root hid hresources hparent,
        hascends'.pageResources_root hid' hresources hparent]
  | repeated hresources hparent hmem =>
      rw [hascends.pageResources_repeated hid hresources hparent hmem,
        hascends'.pageResources_repeated hid' hresources hparent hmem]
  | @mistyped parent hresources hparent hnew hdictionary =>
      have hresolve : doc'.resolve parent = doc.resolve parent := by
        cases parent with
        | reference id =>
            rw [resolve, resolve, object?_congr hlibrary fun met hmet =>
              hagree met (.parent hascends hresources hparent hmet)]
        | _ => rfl
      rw [hascends.pageResources_parentMistyped hid hresources hparent hnew hdictionary,
        hascends'.pageResources_parentMistyped hid' hresources hparent hnew
          (by rwa [hresolve]), hresolve]

end Matters

/--
Climbing from a page ends, after fewer references than there are objects, and the node where it
ends decides: resources there are those of the page, and have to be a dictionary; without a
parent the page has none; a reference that has been visited and a parent that is no dictionary
are errors.  Objects that are neither on the way nor reached from the resources do not matter.
-/
theorem pageResources_nearest {doc : Document} {index : Nat} {id : ObjectId}
    (hid : doc.pages[index]? = some id) :
    (∃ page, doc.page index = .ok page ∧ doc.Ascends id [] page) ∧
    (∃ followed node, doc.Ascends id followed node ∧
      doc.Stops (followed ++ [id]) node) ∧
    (∀ followed node, doc.Ascends id followed node →
      followed.length < doc.objects.length ∧
      (∀ value, Object.get? node "Resources" = some value →
        (∀ entries, doc.resolve value = .dictionary entries → doc.pageResources index =
          .ok ⟨convertEntries (doc.operandWithin resourceLevels) entries⟩) ∧
        ((∀ entries, doc.resolve value ≠ .dictionary entries) →
          doc.pageResources index = .error (.document .resourcesMistyped))) ∧
      (Object.get? node "Resources" = none →
        (Object.get? node "Parent" = none →
          doc.pageResources index = .ok Resources.empty) ∧
        (∀ repeated ∈ followed ++ [id],
          Object.get? node "Parent" = some (.reference repeated) →
          doc.pageResources index = .error (.document (.parentCycle repeated)) ∧
          (Error.document (.parentCycle repeated)).message =
            "document error: cyclic /Parent chain at object " ++
              s!"{repeated.number} {repeated.generation}") ∧
        ∀ parent, Object.get? node "Parent" = some parent →
          (∀ met ∈ followed ++ [id], parent ≠ .reference met) →
          (∀ entries, doc.resolve parent ≠ .dictionary entries) →
          doc.pageResources index =
            .error (.document (.mistyped "Dictionary" (doc.resolve parent).kind)))) ∧
    ∀ (doc' : Document) (index' : Nat), doc'.library = doc.library →
      doc'.pages[index']? = some id →
      (∀ met, doc.Matters id met → doc'.objects.lookup met = doc.objects.lookup met) →
      doc'.pageResources index' = doc.pageResources index := by
  refine ⟨?_, exists_ascends_stops hid, fun followed node h => ?_,
    fun doc' index' hlibrary hid' hagree => pageResources_congr hlibrary hagree hid hid'⟩
  · obtain ⟨page, hpage, hentries⟩ := exists_page hid
    exact ⟨page, hentries, ⟨page, hpage, .here⟩, List.pairwise_singleton _ id⟩
  · refine ⟨h.length_lt, fun value hvalue => ⟨fun entries hentries => ?_, fun hentries => ?_⟩,
      fun hresources => ⟨fun hparent => ?_, fun repeated hmem hparent => ⟨?_, rfl⟩,
        fun parent hparent hnew hdictionary => ?_⟩⟩
    · exact h.pageResources_dictionary hid hvalue hentries
    · exact h.pageResources_mistyped hid hvalue hentries
    · exact h.pageResources_root hid hresources hparent
    · exact h.pageResources_repeated hid hresources hparent hmem
    · exact h.pageResources_parentMistyped hid hresources hparent hnew hdictionary

def twoParents (last : Object.Entries) : Document where
  objects :=
    [(1, .dictionary [(Utf8.encode "Pages", .reference 2)]),
      (2, .dictionary [(Utf8.encode "Kids", .array [.reference 3])]),
      (3, .dictionary [(Utf8.encode "Type", .name (Utf8.encode "Page")),
        (Utf8.encode "Parent",
          .dictionary [(Utf8.encode "Parent", .reference ⟨4, 1⟩)])]),
      (⟨4, 1⟩, .reference 5),
      (5, .dictionary last),
      (6, .dictionary [(Utf8.encode "ColorSpace", .dictionary [])])]
  trailer := [(Utf8.encode "Root", .reference 1)]
  library := .standard "unknown filter"

theorem pageResources_nearest_twoParents :
    (twoParents [(Utf8.encode "Resources", .reference 6)]).pageResources 0 =
      .ok ⟨[("ColorSpace", .dictionary [])]⟩ ∧
    (twoParents [(Utf8.encode "Parent", .reference ⟨4, 1⟩)]).pageResources 0 =
      .error (.document (.parentCycle ⟨4, 1⟩)) := by
  have hascends : ∀ last, (twoParents last).Ascends 3 [⟨4, 1⟩] last := fun last =>
    ⟨⟨_, rfl, .reference (.inside .here rfl rfl) rfl rfl rfl⟩, by decide⟩
  constructor
  · obtain ⟨-, -, hnode, -⟩ := pageResources_nearest
      (show (twoParents [(Utf8.encode "Resources", .reference 6)]).pages[0]? = some 3 from rfl)
    exact ((hnode _ _ (hascends _)).2.1 _ rfl).1 _ rfl
  · obtain ⟨-, -, hnode, -⟩ := pageResources_nearest
      (show (twoParents [(Utf8.encode "Parent", .reference ⟨4, 1⟩)]).pages[0]? = some 3 from rfl)
    exact (((hnode _ _ (hascends _)).2.2 rfl).2.1 ⟨4, 1⟩ (by decide) rfl).1

end ContentStream.Document
