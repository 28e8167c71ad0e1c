import ContentStream.Proofs.Document.Spaces

/-!
# The reach of a page's resources

Resources are kept as far as eight steps from their dictionary, where each reference that is
followed is a step, and entering an array, a dictionary or a stream is another.  So it is not the
number of references alone that counts: color spaces that are held in each other lose the profile
of the innermost one when references stand in the place of what they hold.
-/

namespace ContentStream.Document

theorem length_eq_places_add_follows (path : List Step) :
    path.length = (position path).length + path.count .follow := by
  induction path with
  | nil => rfl
  | cons step path ih =>
      cases step with
      | enter place =>
          change path.length + 1 = (position path).length + 1 + path.count .follow
          omega
      | follow =>
          rw [List.length_cons, List.count_cons_self]
          change _ = (position path).length + _
          omega

section Reach

variable {doc : Document} {levels : Nat} {object found : Object} {path : List Step}

/-- What occurs somewhere is seen in its place if and only if the path is within the levels. -/
theorem exists_at?_iff {outline : Operand} (h : doc.occurrence? object path = some found)
    (houtline : doc.outline? found = some outline) (hnull : outline ≠ .null) :
    (∃ value, (doc.operandWithin levels object).at? (position path) = some value ∧
      value.outline = outline) ↔ path.length < levels := by
  have hunfolding := doc.isUnfolding_operandWithin levels object
  constructor
  · rintro ⟨value, hvalue, rfl⟩
    by_contra hbeyond
    obtain rfl := hunfolding.beyond h (Nat.le_of_not_lt hbeyond) hvalue
    exact hnull rfl
  · exact fun hwithin => Option.map_eq_some_iff.1 (hunfolding.within h hwithin houtline)

/--
The resources give the name a space of a color profile, which tells the number of components.
Any part may be a reference.
-/
inductive Profiled (doc : Document) (categories : Object.Entries) (name : String) (count : Nat) :
    Prop
  | intro {spaces entries : Object.Entries} {category space family profile number : Object}
      {items : List Object} {value : Int64} (hname : ColorSpace.ofName? name = none)
      (hcategory : Object.get? categories "ColorSpace" = some category)
      (hspaces : (doc.resolve category).entries? = some spaces)
      (hspace : Object.get? spaces name = some space)
      (hitems : doc.resolve space = .array (family :: profile :: items))
      (hfamily : doc.resolve family = .name (Utf8.encode "ICCBased"))
      (hprofile : (doc.resolve profile).entries? = some entries)
      (hnumber : Object.get? entries "N" = some number)
      (hvalue : doc.resolve number = .integer value) (hcount : value.toInt = count)
      (hmem : count ∈ [1, 3, 4]) : Profiled doc categories name count

theorem Profiled.names {categories : Object.Entries} {name : String} {count : Nat}
    (h : doc.Profiled categories name count) :
    doc.Names 8 (.dictionary categories) name (.cieBased "ICCBased" count) := by
  cases h with
  | @intro spaces entries category space family profile number items value hname hcategory hspaces
      hspace hitems hfamily hprofile hnumber hvalue hcount hmem =>
      have hlinks := Object.links_le_one
      have hcategories : doc.Maps 8 7 (.dictionary categories) categories := ⟨Nat.le_refl 8, rfl⟩
      have hspaces : doc.Maps 7 5 category spaces := ⟨by have := hlinks category; omega, hspaces⟩
      have hitems : doc.Lists 5 3 space (family :: profile :: items) :=
        ⟨by have := hlinks space; omega, hitems⟩
      have hfamily : doc.Shows 3 family (.name "ICCBased") := by
        refine ⟨by have := hlinks family; omega, ?_, rfl⟩
        rw [hfamily, outline?, Utf8.decode?_encode]
        rfl
      have hprofile : doc.Maps 3 1 profile entries := ⟨by have := hlinks profile; omega, hprofile⟩
      have hvalue : doc.Shows 1 number (.integer value) := by
        refine ⟨hlinks number, ?_, rfl⟩
        rw [hvalue, outline?]
      exact ⟨hname, hcategories, hcategory, hspaces, hspace,
        .profiled hitems hfamily hprofile hnumber hvalue rfl hcount hmem⟩

end Reach

/-! ## The resources of a page -/

/--
The resources of a page keep just what at most eight steps lead to.  A name has the color space
that the document describes for it, if its parts are at most eight steps away, and references in
the place of what is held do not matter then.  A space of a color profile is never farther away.
-/
theorem pageResources_reach {doc : Document} {index : Nat} {entries : Object.Entries}
    (h : doc.HasResources index entries) :
    ∃ resources, doc.pageResources index = .ok resources ∧
      (∀ path found outline, doc.occurrence? (.dictionary entries) path = some found →
        doc.outline? found = some outline → outline ≠ .null →
        ((∃ value, (Operand.dictionary resources.categories).at? (position path) = some value ∧
          value.outline = outline) ↔ (position path).length + path.count .follow ≤ 8)) ∧
      (∀ name space, doc.Names 8 (.dictionary entries) name space →
        resources.colorSpace name = .ok space) ∧
      (∀ name count, doc.Profiled entries name count →
        resources.colorSpace name = .ok (.cieBased "ICCBased" count)) ∧
      ∀ (doc' : Document) (index' : Nat) (entries' : Object.Entries) (name : String)
        (space space' : ColorSpace), doc'.HasResources index' entries' →
        Alike doc doc' (.dictionary entries) (.dictionary entries') →
        doc.Names 8 (.dictionary entries) name space →
        doc'.Names 8 (.dictionary entries') name space' →
        ∃ resources', doc'.pageResources index' = .ok resources' ∧
          resources'.colorSpace name = resources.colorSpace name := by
  obtain ⟨resources, hresources, htree⟩ := h.exists_resources
  refine ⟨resources, hresources, fun path found outline hfound houtline hnull => ?_,
    fun name space hspace => hspace.colorSpace_eq (Nat.lt_succ_self 8) htree,
    fun name count hcount => hcount.names.colorSpace_eq (Nat.lt_succ_self 8) htree,
    fun doc' index' entries' name space space' h' halike hspace hspace' => ?_⟩
  · rw [← htree, exists_at?_iff hfound houtline hnull, length_eq_places_add_follows,
      Nat.lt_succ_iff]
  · obtain ⟨resources', hresources', htree'⟩ := h'.exists_resources
    obtain rfl := (hspace.of_alike halike).unique hspace'
    exact ⟨resources', hresources', (hspace'.colorSpace_eq (Nat.lt_succ_self 8) htree').trans
      (hspace.colorSpace_eq (Nat.lt_succ_self 8) htree).symm⟩

def spacesElsewhere : Object.Entries :=
  [(Utf8.encode "ColorSpace", .reference 4)]

def profiledSpace : Object :=
  .array [.name (Utf8.encode "ICCBased"), .reference 7]

def patternsOver (base : Object) : Document where
  objects :=
    [(1, .dictionary [(Utf8.encode "Pages", .reference 2)]),
      (2, .dictionary [(Utf8.encode "Kids", .array [.reference 3])]),
      (3, .dictionary [(Utf8.encode "Type", .name (Utf8.encode "Page")),
        (Utf8.encode "Resources", .dictionary spacesElsewhere)]),
      (4, .dictionary [(Utf8.encode "CS0", .reference 5)]),
      (5, .array [.name (Utf8.encode "Pattern"), base]),
      (6, profiledSpace),
      (7, .stream [(Utf8.encode "N", .integer 4)] [])]
  trailer := [(Utf8.encode "Root", .reference 1)]
  library := .standard "unknown filter"

private theorem hasResources_patternsOver (base : Object) :
    (patternsOver base).HasResources 0 spacesElsewhere :=
  ⟨3, [], _, _, rfl, ⟨⟨_, rfl, .here⟩, by decide⟩, rfl, rfl⟩

theorem pageResources_reach_patternsOver :
    ∃ resources, (patternsOver profiledSpace).pageResources 0 = .ok resources ∧
      resources.colorSpace "CS0" = .ok (.patternOver (.cieBased "ICCBased" 4)) := by
  obtain ⟨resources, hresources, -, hnames, -⟩ :=
    pageResources_reach (hasResources_patternsOver profiledSpace)
  have hprofile : (patternsOver profiledSpace).Maps 2 0 (.reference 7)
      [(Utf8.encode "N", .integer 4)] := ⟨by decide, rfl⟩
  have hprofiled : (patternsOver profiledSpace).Describes 3 profiledSpace
      (.cieBased "ICCBased" 4) :=
    .profiled ⟨by decide, rfl⟩ ⟨by decide, rfl, rfl⟩ hprofile rfl ⟨by decide, rfl, rfl⟩ rfl
      (by decide) (by decide)
  have hspace : (patternsOver profiledSpace).Describes 5 (.reference 5)
      (.patternOver (.cieBased "ICCBased" 4)) :=
    .patternOver ⟨by decide, rfl⟩ ⟨by decide, rfl, rfl⟩ hprofiled
  exact ⟨resources, hresources, hnames "CS0" _
    ⟨by decide, ⟨Nat.le_refl 8, rfl⟩, rfl, ⟨Nat.le_refl 7, rfl⟩, rfl, hspace⟩⟩

private inductive Turned : Object → Object → Prop
  | elsewhere : Turned (.dictionary spacesElsewhere) (.dictionary spacesElsewhere)
  | reference (id : ObjectId) (h : id ∈ [4, 5, 7]) : Turned (.reference id) (.reference id)
  | name (bytes : Bytes) : Turned (.name bytes) (.name bytes)
  | integer (value : Int64) : Turned (.integer value) (.integer value)
  | base : Turned profiledSpace (.reference 6)

private theorem alike_patternsOver :
    Alike (patternsOver profiledSpace) (patternsOver (.reference 6))
      (.dictionary spacesElsewhere) (.dictionary spacesElsewhere) := by
  refine ⟨Turned, .elsewhere, ?_⟩
  rintro _ _ (_ | ⟨id, h⟩ | bytes | value | _)
  · exact ⟨rfl, .cons (.reference 4 (by decide)) .nil⟩
  · simp only [List.mem_cons, List.not_mem_nil, or_false] at h
    rcases h with rfl | rfl | rfl
    · exact ⟨rfl, .cons (.reference 5 (by decide)) .nil⟩
    · exact ⟨rfl, .cons (.name _) (.cons .base .nil)⟩
    · exact ⟨rfl, .cons (.integer 4) .nil⟩
  · exact ⟨rfl, .nil⟩
  · exact ⟨rfl, .nil⟩
  · exact ⟨rfl, .cons (.name _) (.cons (.reference 7 (by decide)) .nil)⟩

/--
Four references lead to the number of components when the held space is turned into a reference,
yet it is nine steps away, null stands in its place, and the space of the name is another one.
-/
theorem pageResources_turned_patternsOver :
    ∃ resources path, (patternsOver (.reference 6)).pageResources 0 = .ok resources ∧
      (patternsOver (.reference 6)).occurrence? (.dictionary spacesElsewhere) path =
        some (.integer 4) ∧
      path.count .follow = 4 ∧
      (Operand.dictionary resources.categories).at? (position path) = some .null ∧
      Alike (patternsOver profiledSpace) (patternsOver (.reference 6))
        (.dictionary spacesElsewhere) (.dictionary spacesElsewhere) ∧
      resources.colorSpace "CS0" = .ok (.patternOver (.cieBased "ICCBased" 3)) :=
  ⟨_, [.enter 0, .follow, .enter 0, .follow, .enter 1, .follow, .enter 1, .follow, .enter 0],
    (hasResources_patternsOver _).pageResources_eq, rfl, rfl, rfl, alike_patternsOver, rfl⟩

end ContentStream.Document
