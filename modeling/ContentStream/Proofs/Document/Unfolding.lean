import ContentStream.Document.Standard
import ContentStream.Proofs.Document.Inheritance
import ContentStream.Proofs.Operand.Nesting

/-!
# The unfolding of an object

The objects that are reached from an object, by entering what holds others and by following
references, are the occurrences of its unfolding, which is endless where objects lead back to
themselves.  The operand that an object becomes is this tree cut off below a level: every
occurrence down to there stands in its place, and everything below is null.
-/

namespace ContentStream

namespace Operand

def contents : Operand → List Operand
  | .array items => items
  | .dictionary entries => entries.map Prod.snd
  | _ => []

/-- What stands at a position, which tells the places to enter one after the other. -/
def at? : Operand → List Nat → Option Operand
  | value, [] => some value
  | value, place :: position => value.contents[place]?.bind fun inner => inner.at? position

/-- The operand with null in the place of everything that it holds. -/
def outline : Operand → Operand
  | .array items => .array (items.map fun _ => .null)
  | .dictionary entries => .dictionary (entries.map fun entry => (entry.1, .null))
  | value => value

theorem contents_outline (value : Operand) :
    value.outline.contents = value.contents.map fun _ => .null := by
  cases value with
  | array items => rfl
  | dictionary entries => simp [outline, contents]
  | _ => rfl

theorem eq_null_of_outline {value : Operand} (h : value.outline = .null) : value = .null := by
  cases value <;> simp_all [outline]

theorem ext_outline {value other : Operand} (houtline : value.outline = other.outline)
    (hcontents : value.contents = other.contents) : value = other := by
  cases value with
  | dictionary entries =>
      cases other with
      | dictionary others =>
          have hkeys : entries.map Prod.fst = others.map Prod.fst := by
            simpa [outline, Function.comp_def] using
              congrArg (List.map Prod.fst) (Operand.dictionary.inj houtline)
          exact congrArg Operand.dictionary
            ((List.zip_of_prod hkeys hcontents).trans (List.zip_of_prod rfl rfl).symm)
      | _ => simp [outline] at houtline
  | array items =>
      cases other with
      | array others => exact congrArg Operand.array hcontents
      | _ => simp [outline] at houtline
  | _ => cases other <;> simp_all [outline]

end Operand

namespace Object

def readable (entries : Entries) : List (String × Object) :=
  entries.filterMap fun (key, value) => (Utf8.decode? key).map fun text => (text, value)

def contents : Object → List Object
  | .array items => items
  | .dictionary entries | .stream entries _ => (readable entries).map Prod.snd
  | _ => []

end Object

namespace Document

inductive Step where
  | enter (place : Nat)
  | follow
  deriving DecidableEq

def Step.place? : Step → Option Nat
  | .enter place => some place
  | .follow => none

/-- References have no place of their own: what they lead to stands in their place. -/
def position (path : List Step) : List Nat :=
  path.filterMap Step.place?

def step? (doc : Document) (object : Object) : Step → Option Object
  | .enter place => object.contents[place]?
  | .follow =>
    match object with
    | .reference id => doc.object? id
    | _ => none

/-- What is reached from an object along a path; each step of the path is a level. -/
def occurrence? (doc : Document) : Object → List Step → Option Object
  | object, [] => some object
  | object, step :: path =>
    (doc.step? object step).bind fun next => doc.occurrence? next path

/--
What is seen of an object without what it holds, as an operand.  Nothing is seen of a reference
but what it leads to; one that leads nowhere is null, and so is a name that is no text.
-/
def outline? (doc : Document) : Object → Option Operand
  | .null => some .null
  | .boolean value => some (.boolean value)
  | .integer value => some (.integer value)
  | .real value => some (.real value)
  | .name bytes => some (((Utf8.decode? bytes).map Operand.name).getD .null)
  | .literalString bytes => some (.literalString bytes)
  | .hexString bytes => some (.hexString bytes)
  | .array items => some (.array (items.map fun _ => .null))
  | .dictionary entries | .stream entries _ =>
    some (.dictionary ((Object.readable entries).map fun entry => (entry.1, .null)))
  | .reference id => if (doc.object? id).isSome then none else some .null

/--
The tree shows the occurrences on so many levels of the unfolding of the object, which is itself
on the first of them, and null in the place of everything below.
-/
structure IsUnfolding (doc : Document) (levels : Nat) (object : Object) (tree : Operand) :
    Prop where
  within : ∀ {path found outline}, doc.occurrence? object path = some found →
    path.length < levels → doc.outline? found = some outline →
    (tree.at? (position path)).map Operand.outline = some outline
  beyond : ∀ {path found value}, doc.occurrence? object path = some found →
    levels ≤ path.length → tree.at? (position path) = some value → value = .null

/-- The same is seen along each path. -/
def SameUnfolding (doc : Document) (object : Object) (doc' : Document) (object' : Object) : Prop :=
  ∀ path, (doc.occurrence? object path).map doc.outline? =
    (doc'.occurrence? object' path).map doc'.outline?

section Unfolding

variable {doc doc' : Document} {object object' next : Object} {levels place : Nat}
  {tree value : Operand}

theorem convertEntries_eq (convert : Object → Operand) (entries : Object.Entries) :
    convertEntries convert entries =
      (Object.readable entries).map fun entry => (entry.1, convert entry.2) := by
  rw [convertEntries, Object.readable, List.map_filterMap]
  refine congrArg (fun f => List.filterMap f entries) (funext fun entry => ?_)
  rw [Option.map_map]
  rfl

/-! ## The operand of an object -/

theorem contents_operandWithin (h : ∀ id, object ≠ .reference id) (levels : Nat) :
    (doc.operandWithin (levels + 1) object).contents =
      object.contents.map (doc.operandWithin levels) := by
  cases object with
  | array items => simp only [operandWithin, Operand.contents, Object.contents]
  | dictionary entries =>
      simp [operandWithin, Operand.contents, Object.contents, convertEntries_eq]
  | stream entries data =>
      simp [operandWithin, Operand.contents, Object.contents, convertEntries_eq]
  | name bytes =>
      simp only [operandWithin]
      cases Utf8.decode? bytes <;> rfl
  | reference id => exact absurd rfl (h id)
  | _ => rfl

theorem outline_operandWithin {outline : Operand} (h : doc.outline? object = some outline)
    (levels : Nat) : (doc.operandWithin (levels + 1) object).outline = outline := by
  cases object with
  | array items =>
      obtain rfl := Option.some.inj h
      simp only [operandWithin, Operand.outline, List.map_map, Function.comp_def]
  | dictionary entries =>
      obtain rfl := Option.some.inj h
      simp [operandWithin, Operand.outline, convertEntries_eq]
  | stream entries data =>
      obtain rfl := Option.some.inj h
      simp [operandWithin, Operand.outline, convertEntries_eq]
  | name bytes =>
      obtain rfl := Option.some.inj h
      simp only [operandWithin]
      cases Utf8.decode? bytes <;> rfl
  | reference id =>
      rw [outline?] at h
      split at h
      next => contradiction
      next hnone =>
        obtain rfl := Option.some.inj h
        simp only [operandWithin]
        rw [Option.not_isSome_iff_eq_none.1 hnone]
        rfl
  | _ =>
      obtain rfl := Option.some.inj h
      rfl

theorem operandWithin_of_object? {id : ObjectId} (h : doc.object? id = some next)
    (levels : Nat) :
    doc.operandWithin (levels + 1) (.reference id) = doc.operandWithin levels next := by
  simp only [operandWithin]
  rw [h]

theorem outline?_cases (doc : Document) (object : Object) :
    ((∃ outline, doc.outline? object = some outline) ∧ ∀ id, object ≠ .reference id) ∨
      (∃ id, object = .reference id ∧ doc.object? id = none) ∨
        ∃ id next, object = .reference id ∧ doc.object? id = some next := by
  cases object with
  | reference id =>
      cases hnext : doc.object? id with
      | none => exact .inr (.inl ⟨id, rfl, hnext⟩)
      | some next => exact .inr (.inr ⟨id, next, rfl, hnext⟩)
  | _ => exact .inl ⟨⟨_, rfl⟩, fun id => Object.noConfusion⟩

theorem outline?_of_object?_eq_none {id : ObjectId} (h : doc.object? id = none) :
    doc.outline? (.reference id) = some .null := by
  rw [outline?, h]
  rfl

theorem length_contents_of_outline {outline : Operand} (h : doc.outline? object = some outline)
    (hobject : ∀ id, object ≠ .reference id) (htree : tree.outline = outline) :
    tree.contents.length = object.contents.length := by
  have hcontents : tree.outline.contents = (doc.operandWithin 1 object).outline.contents := by
    rw [htree, outline_operandWithin h]
  have hlength := congrArg List.length hcontents
  rwa [Operand.contents_outline, Operand.contents_outline, contents_operandWithin hobject,
    List.length_map, List.length_map, List.length_map] at hlength

theorem occurrence?_enter (hnext : object.contents[place]? = some next) (path : List Step) :
    doc.occurrence? object (.enter place :: path) = doc.occurrence? next path := by
  rw [occurrence?, step?, hnext]
  rfl

theorem occurrence?_follow {id : ObjectId} (h : doc.object? id = some next)
    (path : List Step) :
    doc.occurrence? (.reference id) (.follow :: path) = doc.occurrence? next path := by
  rw [occurrence?, step?, h]
  rfl

theorem step?_cases {step : Step} (h : doc.step? object step = some next) :
    (∃ place, step = .enter place ∧ object.contents[place]? = some next ∧
        ∀ id, object ≠ .reference id) ∨
      ∃ id, step = .follow ∧ object = .reference id ∧ doc.object? id = some next := by
  cases step with
  | enter place =>
      refine .inl ⟨place, rfl, h, ?_⟩
      rintro id rfl
      contradiction
  | follow =>
      cases object with
      | reference id => exact .inr ⟨id, rfl, rfl, h⟩
      | _ => contradiction

theorem at?_step {step : Step} (h : doc.step? object step = some next) (path : List Step) :
    (doc.operandWithin (levels + 1) object).at? (position (step :: path)) =
      (doc.operandWithin levels next).at? (position path) := by
  rcases step?_cases h with ⟨place, rfl, hnext, hobject⟩ | ⟨id, rfl, rfl, hnext⟩
  · change (doc.operandWithin (levels + 1) object).at? (place :: position path) = _
    rw [Operand.at?, contents_operandWithin hobject, List.getElem?_map, hnext]
    rfl
  · rw [operandWithin_of_object? hnext]
    rfl

theorem at?_operandWithin {path : List Step} {found : Object}
    (h : doc.occurrence? object path = some found) (hlevels : path.length ≤ levels) :
    (doc.operandWithin levels object).at? (position path) =
      some (doc.operandWithin (levels - path.length) found) := by
  induction path generalizing object levels with
  | nil =>
      obtain rfl := Option.some.inj h
      rfl
  | cons step path ih =>
      obtain ⟨levels, rfl⟩ : ∃ lower, levels = lower + 1 := ⟨levels - 1, by simp at hlevels; omega⟩
      obtain ⟨next, hstep, h⟩ := Option.bind_eq_some_iff.1 h
      rw [at?_step hstep, ih h (Nat.le_of_succ_le_succ hlevels), List.length_cons,
        Nat.add_sub_add_right]

private theorem at?_null {position : List Nat} (h : Operand.null.at? position = some value) :
    value = .null := by
  cases position with
  | nil => exact (Option.some.inj h).symm
  | cons place position => contradiction

theorem isUnfolding_operandWithin (doc : Document) (levels : Nat) (object : Object) :
    doc.IsUnfolding levels object (doc.operandWithin levels object) where
  within := by
    intro path found outline h hlevels houtline
    obtain ⟨left, hleft⟩ : ∃ left, levels - path.length = left + 1 :=
      ⟨levels - path.length - 1, by omega⟩
    rw [at?_operandWithin h (Nat.le_of_lt hlevels), hleft]
    exact congrArg some (outline_operandWithin houtline left)
  beyond := by
    intro path found value h hlevels hvalue
    induction path generalizing object levels with
    | nil =>
        obtain rfl := Nat.le_zero.1 hlevels
        exact at?_null hvalue
    | cons step path ih =>
        cases levels with
        | zero => exact at?_null hvalue
        | succ levels =>
            obtain ⟨next, hstep, h⟩ := Option.bind_eq_some_iff.1 h
            rw [at?_step hstep] at hvalue
            exact ih levels next h (Nat.le_of_succ_le_succ hlevels) hvalue

private theorem IsUnfolding.enter (h : doc.IsUnfolding (levels + 1) object tree)
    (hnext : object.contents[place]? = some next) (hvalue : tree.contents[place]? = some value) :
    doc.IsUnfolding levels next value := by
  have hat : ∀ path, tree.at? (position (.enter place :: path)) = value.at? (position path) := by
    intro path
    change tree.at? (place :: position path) = _
    rw [Operand.at?, hvalue]
    rfl
  constructor
  · intro path found outline hfound hlevels
    rw [← occurrence?_enter hnext] at hfound
    rw [← hat]
    exact h.within hfound (Nat.succ_lt_succ hlevels)
  · intro path found inner hfound hlevels
    rw [← occurrence?_enter hnext] at hfound
    rw [← hat]
    exact h.beyond hfound (Nat.succ_le_succ hlevels)

private theorem IsUnfolding.follow {id : ObjectId}
    (h : doc.IsUnfolding (levels + 1) (.reference id) tree)
    (hnext : doc.object? id = some next) : doc.IsUnfolding levels next tree := by
  have hsame : ∀ path, position (.follow :: path) = position path := fun _ => rfl
  constructor
  · intro path found outline hfound hlevels
    rw [← occurrence?_follow hnext] at hfound
    rw [← hsame]
    exact h.within hfound (Nat.succ_lt_succ hlevels)
  · intro path found inner hfound hlevels
    rw [← occurrence?_follow hnext] at hfound
    rw [← hsame]
    exact h.beyond hfound (Nat.succ_le_succ hlevels)

theorem isUnfolding_iff : doc.IsUnfolding levels object tree ↔
    tree = doc.operandWithin levels object := by
  refine ⟨fun h => ?_, fun h => h ▸ doc.isUnfolding_operandWithin levels object⟩
  induction levels generalizing object tree with
  | zero =>
      have hself : doc.occurrence? object [] = some object := rfl
      exact h.beyond hself (Nat.le_refl 0) rfl
  | succ levels ih =>
      have hself : doc.occurrence? object [] = some object := rfl
      have hseen : ∀ outline, doc.outline? object = some outline → tree.outline = outline :=
        fun outline houtline => by
          simpa [position, Operand.at?] using h.within hself (Nat.succ_pos _) houtline
      rcases doc.outline?_cases object with
        ⟨⟨outline, houtline⟩, hobject⟩ | ⟨id, rfl, hnone⟩ | ⟨id, next, rfl, hnext⟩
      · have htree := hseen outline houtline
        refine Operand.ext_outline (by rw [htree, outline_operandWithin houtline]) ?_
        rw [contents_operandWithin hobject]
        refine List.ext_getElem ?_ fun place hplace hplace' => ?_
        · rw [List.length_map, length_contents_of_outline houtline hobject htree]
        · rw [List.length_map] at hplace'
          rw [List.getElem_map]
          exact ih (h.enter (List.getElem?_eq_getElem hplace') (List.getElem?_eq_getElem hplace))
      · have hnull := Operand.eq_null_of_outline (hseen _ (outline?_of_object?_eq_none hnone))
        simp only [operandWithin]
        rw [hnone, hnull]
      · rw [operandWithin_of_object? hnext]
        exact ih (h.follow hnext)

/-! ## What the operand owes to the unfolding -/

theorem IsUnfolding.of_same (hsame : SameUnfolding doc object doc' object')
    (h : doc.IsUnfolding levels object tree) : doc'.IsUnfolding levels object' tree := by
  have hback : ∀ {path found'}, doc'.occurrence? object' path = some found' →
      ∃ found, doc.occurrence? object path = some found ∧
        doc.outline? found = doc'.outline? found' := by
    intro path found' hfound'
    have hpath := hsame path
    rw [hfound'] at hpath
    exact Option.map_eq_some_iff.1 hpath
  constructor
  · intro path found' outline hfound' hlevels houtline
    obtain ⟨found, hfound, heq⟩ := hback hfound'
    exact h.within hfound hlevels (heq.trans houtline)
  · intro path found' value hfound' hlevels
    obtain ⟨found, hfound, -⟩ := hback hfound'
    exact h.beyond hfound hlevels

/-- Objects have the same unfolding if they look the same and each step keeps them related. -/
theorem sameUnfolding_of_related {related : Object → Object → Prop}
    (houtline : ∀ {object object'}, related object object' →
      doc.outline? object = doc'.outline? object')
    (hstep : ∀ {object object'}, related object object' → ∀ step,
      Option.Rel related (doc.step? object step) (doc'.step? object' step))
    (h : related object object') : SameUnfolding doc object doc' object' := by
  intro path
  induction path generalizing object object' with
  | nil => exact congrArg some (houtline h)
  | cons step path ih =>
      rw [occurrence?, occurrence?]
      cases hnext : doc.step? object step with
      | none =>
          cases hnext' : doc'.step? object' step with
          | none => rfl
          | some next' => exact absurd (hnext ▸ hnext' ▸ hstep h step) nofun
      | some next =>
          cases hnext' : doc'.step? object' step with
          | none => exact absurd (hnext ▸ hnext' ▸ hstep h step) nofun
          | some next' =>
              cases hnext ▸ hnext' ▸ hstep h step with
              | some hrelated => exact ih hrelated

theorem nesting_operandWithin_le (doc : Document) (levels : Nat) (object : Object) :
    (doc.operandWithin levels object).nesting ≤ levels := by
  induction levels generalizing object with
  | zero => exact Nat.le_refl 0
  | succ levels ih =>
      have hentries : ∀ entries : Object.Entries,
          (Operand.dictionary (convertEntries (doc.operandWithin levels) entries)).nesting ≤
            levels + 1 := by
        intro entries
        rw [Operand.nesting, convertEntries_eq]
        refine Nat.succ_le_succ (Operand.nestingEntries_le_iff.2 fun entry hentry => ?_)
        obtain ⟨source, -, rfl⟩ := List.mem_map.1 hentry
        exact ih source.2
      cases object with
      | array items =>
          simp only [operandWithin, Operand.nesting]
          refine Nat.succ_le_succ (Operand.nestingItems_le_iff.2 fun item hitem => ?_)
          obtain ⟨source, -, rfl⟩ := List.mem_map.1 hitem
          exact ih source
      | dictionary entries => simpa only [operandWithin] using hentries entries
      | stream entries data => simpa only [operandWithin] using hentries entries
      | name bytes =>
          simp only [operandWithin]
          cases Utf8.decode? bytes <;> exact Nat.zero_le _
      | reference id =>
          cases hnext : doc.object? id with
          | none =>
              simp only [operandWithin, hnext]
              exact Nat.zero_le _
          | some next =>
              rw [operandWithin_of_object? hnext]
              exact Nat.le_succ_of_le (ih next)
      | _ => exact Nat.zero_le _

end Unfolding

theorem HasResources.exists_resources {doc : Document} {index : Nat} {entries : Object.Entries}
    (h : doc.HasResources index entries) : ∃ resources, doc.pageResources index = .ok resources ∧
      doc.operandWithin 9 (.dictionary entries) = .dictionary resources.categories :=
  ⟨_, h.pageResources_eq, by simp only [operandWithin, resourceLevels]⟩

/--
A page has as its resources the unfolding of their dictionary, cut off below the ninth level,
the dictionary being on the first: what at most eight steps lead to stands in its place, what
more steps lead to is null.  No more than nine containers are in each other, and it does not
matter which objects are shared as long as the unfolding is the same.
-/
theorem pageResources_unfolding {doc : Document} {index : Nat} {entries : Object.Entries}
    (h : doc.HasResources index entries) :
    ∃ resources, doc.pageResources index = .ok resources ∧
      (∀ tree, doc.IsUnfolding 9 (.dictionary entries) tree ↔
        tree = .dictionary resources.categories) ∧
      (Operand.dictionary resources.categories).nesting ≤ 9 ∧
      ∀ (doc' : Document) (index' : Nat) (entries' : Object.Entries),
        doc'.HasResources index' entries' →
        SameUnfolding doc (.dictionary entries) doc' (.dictionary entries') →
        doc'.pageResources index' = .ok resources := by
  obtain ⟨resources, hresources, htree⟩ := h.exists_resources
  refine ⟨resources, hresources, fun tree => ?_, ?_, fun doc' index' entries' h' hsame => ?_⟩
  · rw [isUnfolding_iff, htree]
  · rw [← htree]
    exact nesting_operandWithin_le doc 9 _
  · obtain ⟨resources', hresources', htree'⟩ := h'.exists_resources
    have hequal := isUnfolding_iff.1 ((isUnfolding_operandWithin doc 9 _).of_same hsame)
    rw [htree, htree'] at hequal
    rw [hresources']
    exact congrArg Except.ok (congrArg Resources.mk (Operand.dictionary.inj hequal).symm)

def again (held : ObjectId) : Object.Entries :=
  [(Utf8.encode "Again", .reference held), ([0xFF], .null)]

def selfContaining (held : ObjectId) : Document where
  objects :=
    [(1, .dictionary [(Utf8.encode "Pages", .reference 2)]),
      (2, .dictionary [(Utf8.encode "Kids", .array [.reference 3])]),
      (3, .dictionary [(Utf8.encode "Type", .name (Utf8.encode "Page")),
        (Utf8.encode "Resources", .dictionary (again 4))]),
      (4, .dictionary (again held)),
      (5, .dictionary (again 4))]
  trailer := [(Utf8.encode "Root", .reference 1)]
  library := .standard "unknown filter"

private inductive TakesTurns : Object → Object → Prop
  | holders {held held' : ObjectId} (h : held = 4) (h' : held' = 4 ∨ held' = 5) :
      TakesTurns (.dictionary (again held)) (.dictionary (again held'))
  | references {held held' : ObjectId} (h : held = 4) (h' : held' = 4 ∨ held' = 5) :
      TakesTurns (.reference held) (.reference held')

private theorem sameUnfolding_selfContaining :
    SameUnfolding (selfContaining 4) (.dictionary (again 4))
      (selfContaining 5) (.dictionary (again 4)) := by
  refine sameUnfolding_of_related ?_ ?_ (TakesTurns.holders rfl (.inl rfl))
  · rintro _ _ (⟨rfl, rfl | rfl⟩ | ⟨rfl, rfl | rfl⟩) <;> rfl
  · rintro _ _ (⟨rfl, h'⟩ | ⟨rfl, h'⟩) step
    · cases step with
      | enter place =>
          cases place with
          | zero => exact .some (.references rfl h')
          | succ place => exact .none
      | follow => exact .none
    · cases step with
      | enter place => exact .none
      | follow =>
          rcases h' with rfl | rfl
          · exact .some (.holders rfl (.inr rfl))
          · exact .some (.holders rfl (.inl rfl))

theorem pageResources_unfolding_selfContaining :
    (selfContaining 4).pageResources 0 = .ok ⟨[("Again", .dictionary [("Again",
      .dictionary [("Again", .dictionary [("Again", .dictionary [("Again", .null)])])])])]⟩ ∧
    (selfContaining 5).pageResources 0 = (selfContaining 4).pageResources 0 := by
  have h : ∀ held, (selfContaining held).HasResources 0 (again 4) := fun held =>
    ⟨3, [], _, _, rfl, ⟨⟨_, rfl, .here⟩, by decide⟩, rfl, rfl⟩
  obtain ⟨resources, hresources, -, -, hsame⟩ := pageResources_unfolding (h 4)
  refine ⟨(h 4).pageResources_eq.trans rfl, ?_⟩
  rw [hresources, hsame _ 0 _ (h 5) sameUnfolding_selfContaining]

end Document

end ContentStream
