import ContentStream.Proofs.Document.Unfolding
import ContentStream.Proofs.Text.Utf8

/-!
# Color spaces of a document

An object describes a color space by its parts, each of which it holds or refers to.  Entering
what holds a part is a step on the way to it, and so is following a reference.  The operand of
the object gives the color space that the object describes wherever the parts are no more steps
away than the operand has levels.
-/

namespace ContentStream

theorem Operand.eq_of_outline {value other : Operand} (h : value.outline = other)
    (hcontents : other.contents = []) : value = other := by
  subst h
  rw [contents_outline, List.map_eq_nil_iff] at hcontents
  refine ext_outline ?_ (by rw [contents_outline, hcontents, List.map_nil])
  cases value <;> simp_all [outline, contents]

namespace ColorSpace

variable {name : String} {space : ColorSpace}

theorem ofArray?_of_ofName? (h : ofName? name = some space) :
    ofArray? [.name name] = some space := by
  have hfamily :
      name ∈ ["DeviceGray", "G", "DeviceRGB", "RGB", "DeviceCMYK", "CMYK", "Pattern"] := by
    simp only [ofName?] at h
    grind
  simp only [List.mem_cons, List.not_mem_nil, or_false] at hfamily
  rcases hfamily with rfl | rfl | rfl | rfl | rfl | rfl | rfl <;> exact h

theorem profileComponents?_eq {entries : Dictionary} {number : Operand} {value : Int64}
    {count : Nat} (hnumber : Dictionary.get? entries "N" = some number)
    (hvalue : number.integer? = some value) (hcount : value.toInt = count)
    (hmem : count ∈ [1, 3, 4]) : profileComponents? (some (.dictionary entries)) = some count := by
  have hvalue : ((Dictionary.get? entries "N").bind Operand.integer?).map Int64.toInt =
      some (count : Int) := by
    rw [hnumber, Option.bind_some, hvalue, ← hcount]
    rfl
  rw [profileComponents?]
  simp only [Option.bind_some, Operand.dictionary?, hvalue, Option.getD_some]
  simp only [List.mem_cons, List.not_mem_nil, or_false] at hmem
  rcases hmem with rfl | rfl | rfl <;> rfl

theorem profileComponents?_of_none {entries : Dictionary}
    (h : Dictionary.get? entries "N" = none) :
    profileComponents? (some (.dictionary entries)) = some 3 := by
  rw [profileComponents?]
  simp only [Option.bind_some, Operand.dictionary?, h]
  rfl

theorem lastIndex?_eq {last : Operand} {value : Int64} (hvalue : last.integer? = some value)
    (h : 0 ≤ value.toInt ∧ value.toInt < UInt32.size) :
    lastIndex? last = some (UInt32.ofNat value.toInt.toNat) := by
  have hsize : value.toInt < 4294967296 := h.2
  simp [lastIndex?, hvalue, h.1, hsize]

theorem mapM_name?_names (texts : List String) :
    (texts.map Operand.name).mapM Operand.name? = some texts := by
  induction texts with
  | nil => rfl
  | cons text texts ih => simp [Operand.name?, ih]

end ColorSpace

theorem Resources.colorSpace_eq_ok {resources : Resources} {name : String} {spaces : Dictionary}
    {value : Operand} {space : ColorSpace} (hname : ColorSpace.ofName? name = none)
    (hspaces : Dictionary.get? resources.categories "ColorSpace" = some (.dictionary spaces))
    (hvalue : Dictionary.get? spaces name = some value)
    (hspace : ColorSpace.ofOperand? value = some space) :
    resources.colorSpace name = .ok space := by
  have hlookup : resources.lookup "ColorSpace" name = .ok value := by
    simp only [lookup, hspaces, hvalue]
  simp only [colorSpace, hname, hlookup, bind, Except.bind, hspace]
  rfl

namespace Object

def entries? : Object → Option Entries
  | .dictionary entries | .stream entries _ => some entries
  | _ => none

def links : Object → Nat
  | .reference _ => 1
  | _ => 0

theorem links_le_one (object : Object) : object.links ≤ 1 := by
  cases object <;> simp [links]

theorem readable_cons (entry : Bytes × Object) (rest : Entries) :
    readable (entry :: rest) =
      ((Utf8.decode? entry.1).map fun text => (text, entry.2)).toList ++ readable rest := by
  obtain ⟨key, value⟩ := entry
  simp only [readable, List.filterMap_cons]
  cases Utf8.decode? key <;> rfl

theorem get?_eq_lookup_readable (entries : Entries) (key : String) :
    get? entries key = (readable entries).lookup key := by
  rw [get?]
  induction entries with
  | nil => rfl
  | cons entry rest ih =>
      rw [List.lookup_cons, readable_cons, ih]
      cases htext : Utf8.decode? entry.1 with
      | none =>
          have hne : (Utf8.encode key == entry.1) = false := by
            refine beq_false_of_ne fun heq => ?_
            simp [← heq, Utf8.decode?_encode] at htext
          rw [hne]
          rfl
      | some text =>
          have hkeys : (Utf8.encode key == entry.1) = (key == text) := by
            rw [← Utf8.encode_of_decode? htext, Bool.eq_iff_iff, beq_iff_eq, beq_iff_eq]
            exact ⟨fun h => Utf8.encode_injective h, congrArg Utf8.encode⟩
          rw [hkeys]
          exact (List.lookup_cons (a := key) (k := text)).symm

end Object

namespace Document

section Steps

variable {doc doc' : Document} {steps inner levels : Nat} {object object' : Object}
  {items : List Object} {entries : Object.Entries}

theorem get?_convertEntries (convert : Object → Operand) (entries : Object.Entries)
    (key : String) : Dictionary.get? (convertEntries convert entries) key =
      (Object.get? entries key).map convert := by
  rw [Object.get?_eq_lookup_readable, convertEntries_eq, Dictionary.get?]
  induction Object.readable entries with
  | nil => rfl
  | cons entry rest ih =>
      rw [List.map_cons, List.lookup_cons, List.lookup_cons, ih]
      cases key == entry.1 <;> rfl

theorem operandWithin_resolve (doc : Document) (levels : Nat) (object : Object) :
    doc.operandWithin (levels + object.links) object =
      doc.operandWithin levels (doc.resolve object) := by
  cases object with
  | reference id =>
      cases hobject : doc.object? id with
      | none =>
          rw [resolve_of_object?_eq_none hobject, Object.links]
          cases levels <;> simp only [operandWithin, hobject]
      | some next =>
          rw [resolve_of_object? hobject]
          exact operandWithin_of_object? hobject levels
  | _ => rfl

/-- The object is or leads to something that holds nothing, seen as the operand. -/
def Shows (doc : Document) (steps : Nat) (object : Object) (value : Operand) : Prop :=
  object.links ≤ steps ∧ doc.outline? (doc.resolve object) = some value ∧ value.contents = []

def Lists (doc : Document) (steps inner : Nat) (object : Object) (items : List Object) : Prop :=
  object.links + (inner + 1) ≤ steps ∧ doc.resolve object = .array items

def Maps (doc : Document) (steps inner : Nat) (object : Object) (entries : Object.Entries) :
    Prop :=
  object.links + (inner + 1) ≤ steps ∧ (doc.resolve object).entries? = some entries

private theorem exists_operandWithin_eq (doc : Document) (hsteps : object.links + inner ≤ steps)
    (hlevels : steps < levels) : ∃ left, inner ≤ left ∧
      doc.operandWithin levels object = doc.operandWithin (left + 1) (doc.resolve object) := by
  obtain ⟨left, rfl⟩ : ∃ left, levels = left + 1 + object.links :=
    ⟨levels - 1 - object.links, by omega⟩
  exact ⟨left, by omega, operandWithin_resolve doc (left + 1) object⟩

theorem Shows.operandWithin_eq {value : Operand} (h : doc.Shows steps object value)
    (hlevels : steps < levels) : doc.operandWithin levels object = value := by
  obtain ⟨hlinks, hvalue, hcontents⟩ := h
  have hsteps : object.links + 0 ≤ steps := hlinks
  obtain ⟨left, -, heq⟩ := doc.exists_operandWithin_eq hsteps hlevels
  rw [heq]
  exact Operand.eq_of_outline (outline_operandWithin hvalue left) hcontents

theorem Lists.operandWithin_eq (h : doc.Lists steps inner object items)
    (hlevels : steps < levels) : ∃ left, inner < left ∧
      doc.operandWithin levels object = .array (items.map (doc.operandWithin left)) := by
  obtain ⟨hsteps, hitems⟩ := h
  obtain ⟨left, hleft, heq⟩ := doc.exists_operandWithin_eq hsteps hlevels
  refine ⟨left, hleft, ?_⟩
  rw [heq, hitems, operandWithin]

theorem Maps.operandWithin_eq (h : doc.Maps steps inner object entries)
    (hlevels : steps < levels) : ∃ left values, inner < left ∧
      doc.operandWithin levels object = .dictionary values ∧
      ∀ key, Dictionary.get? values key =
        (Object.get? entries key).map (doc.operandWithin left) := by
  obtain ⟨hsteps, hentries⟩ := h
  obtain ⟨left, hleft, heq⟩ := doc.exists_operandWithin_eq hsteps hlevels
  refine ⟨left, convertEntries (doc.operandWithin left) entries, hleft, ?_,
    get?_convertEntries _ entries⟩
  rw [heq]
  cases hobject : doc.resolve object with
  | dictionary others =>
      obtain rfl := Option.some.inj (hobject ▸ hentries)
      rw [operandWithin]
  | stream others data =>
      obtain rfl := Option.some.inj (hobject ▸ hentries)
      rw [operandWithin]
  | _ => simp [hobject, Object.entries?] at hentries

theorem map_operandWithin_names {colorants : List Object} {texts : List String}
    (h : List.Forall₂ (fun colorant text => doc.Shows steps colorant (.name text)) colorants texts)
    (hlevels : steps < levels) :
    colorants.map (doc.operandWithin levels) = texts.map Operand.name := by
  induction h with
  | nil => rfl
  | cons hcolorant _ ih =>
      rw [List.map_cons, List.map_cons, hcolorant.operandWithin_eq hlevels, ih]

/-! ## Described color spaces -/

/-- The object describes the color space by parts that are at most so many steps away. -/
inductive Describes (doc : Document) : Nat → Object → ColorSpace → Prop
  | device {steps : Nat} {object : Object} {name : String} {space : ColorSpace}
      (hname : doc.Shows steps object (.name name))
      (hspace : ColorSpace.ofName? name = some space) : Describes doc steps object space
  | listedDevice {steps inner : Nat} {object family : Object} {name : String} {space : ColorSpace}
      (hitems : doc.Lists steps inner object [family])
      (hfamily : doc.Shows inner family (.name name))
      (hspace : ColorSpace.ofName? name = some space) : Describes doc steps object space
  | calibrated {steps inner : Nat} {object family : Object} {items : List Object} {name : String}
      {count : Nat} (hitems : doc.Lists steps inner object (family :: items))
      (hfamily : doc.Shows inner family (.name name))
      (hcount : (name, count) ∈ [("CalGray", 1), ("CalRGB", 3), ("Lab", 3)]) :
      Describes doc steps object (.cieBased name count)
  | profiled {steps inner innermost : Nat} {object family profile number : Object}
      {items : List Object} {entries : Object.Entries} {shown : Operand} {value : Int64}
      {count : Nat} (hitems : doc.Lists steps inner object (family :: profile :: items))
      (hfamily : doc.Shows inner family (.name "ICCBased"))
      (hprofile : doc.Maps inner innermost profile entries)
      (hnumber : Object.get? entries "N" = some number) (hshown : doc.Shows innermost number shown)
      (hvalue : shown.integer? = some value) (hcount : value.toInt = count)
      (hmem : count ∈ [1, 3, 4]) : Describes doc steps object (.cieBased "ICCBased" count)
  | unnumbered {steps inner innermost : Nat} {object family profile : Object}
      {items : List Object} {entries : Object.Entries}
      (hitems : doc.Lists steps inner object (family :: profile :: items))
      (hfamily : doc.Shows inner family (.name "ICCBased"))
      (hprofile : doc.Maps inner innermost profile entries)
      (hnumber : Object.get? entries "N" = none) :
      Describes doc steps object (.cieBased "ICCBased" 3)
  | indexed {steps inner : Nat} {object family base last : Object} {items : List Object}
      {name : String} {shown : Operand} {value : Int64} {space : ColorSpace}
      (hitems : doc.Lists steps inner object (family :: base :: last :: items))
      (hfamily : doc.Shows inner family (.name name)) (hname : name ∈ ["Indexed", "I"])
      (hbase : Describes doc inner base space) (hlast : doc.Shows inner last shown)
      (hvalue : shown.integer? = some value)
      (hbounds : 0 ≤ value.toInt ∧ value.toInt < UInt32.size) :
      Describes doc steps object (.indexed space (UInt32.ofNat value.toInt.toNat))
  | separation {steps inner : Nat} {object family colorant : Object} {items : List Object}
      {name : String} (hitems : doc.Lists steps inner object (family :: colorant :: items))
      (hfamily : doc.Shows inner family (.name "Separation"))
      (hcolorant : doc.Shows inner colorant (.name name)) :
      Describes doc steps object (.separation name)
  | deviceN {steps inner innermost : Nat} {object family names : Object}
      {items colorants : List Object} {texts : List String}
      (hitems : doc.Lists steps inner object (family :: names :: items))
      (hfamily : doc.Shows inner family (.name "DeviceN"))
      (hnames : doc.Lists inner innermost names colorants)
      (hcolorants : List.Forall₂ (fun colorant text => doc.Shows innermost colorant (.name text))
        colorants texts) : Describes doc steps object (.deviceN texts)
  | patternOver {steps inner : Nat} {object family base : Object} {items : List Object}
      {space : ColorSpace} (hitems : doc.Lists steps inner object (family :: base :: items))
      (hfamily : doc.Shows inner family (.name "Pattern"))
      (hbase : Describes doc inner base space) : Describes doc steps object (.patternOver space)

theorem Describes.ofOperand?_eq {space : ColorSpace} (h : doc.Describes steps object space)
    (hlevels : steps < levels) :
    ColorSpace.ofOperand? (doc.operandWithin levels object) = some space := by
  induction h generalizing levels with
  | device hname hspace =>
      rw [hname.operandWithin_eq hlevels, ColorSpace.ofOperand?, hspace]
  | listedDevice hitems hfamily hspace =>
      obtain ⟨left, hleft, heq⟩ := hitems.operandWithin_eq hlevels
      rw [heq, List.map_cons, hfamily.operandWithin_eq hleft]
      exact ColorSpace.ofArray?_of_ofName? hspace
  | calibrated hitems hfamily hcount =>
      obtain ⟨left, hleft, heq⟩ := hitems.operandWithin_eq hlevels
      rw [heq, List.map_cons, hfamily.operandWithin_eq hleft]
      simp only [List.mem_cons, Prod.mk.injEq, List.not_mem_nil, or_false] at hcount
      rcases hcount with ⟨rfl, rfl⟩ | ⟨rfl, rfl⟩ | ⟨rfl, rfl⟩ <;> rfl
  | profiled hitems hfamily hprofile hnumber hshown hvalue hcount hmem =>
      obtain ⟨left, hleft, heq⟩ := hitems.operandWithin_eq hlevels
      obtain ⟨last, values, hlast, hentries, hget⟩ := hprofile.operandWithin_eq hleft
      have hentry := hget "N"
      rw [hnumber, Option.map_some, hshown.operandWithin_eq hlast] at hentry
      rw [heq, List.map_cons, List.map_cons, hfamily.operandWithin_eq hleft, hentries]
      exact congrArg (Option.map _) (ColorSpace.profileComponents?_eq hentry hvalue hcount hmem)
  | unnumbered hitems hfamily hprofile hnumber =>
      obtain ⟨left, hleft, heq⟩ := hitems.operandWithin_eq hlevels
      obtain ⟨last, values, hlast, hentries, hget⟩ := hprofile.operandWithin_eq hleft
      have hentry := hget "N"
      rw [hnumber, Option.map_none] at hentry
      rw [heq, List.map_cons, List.map_cons, hfamily.operandWithin_eq hleft, hentries]
      exact congrArg (Option.map _) (ColorSpace.profileComponents?_of_none hentry)
  | indexed hitems hfamily hname hbase hlast hvalue hbounds ih =>
      obtain ⟨left, hleft, heq⟩ := hitems.operandWithin_eq hlevels
      rw [heq, List.map_cons, List.map_cons, List.map_cons, hfamily.operandWithin_eq hleft,
        hlast.operandWithin_eq hleft]
      have hspace := ih hleft
      have hindex := ColorSpace.lastIndex?_eq hvalue hbounds
      simp only [List.mem_cons, List.not_mem_nil, or_false] at hname
      rcases hname with rfl | rfl <;>
        simp [ColorSpace.ofOperand?, ColorSpace.ofArray?, ColorSpace.ofBase?, Operand.name?, hspace,
          hindex]
  | separation hitems hfamily hcolorant =>
      obtain ⟨left, hleft, heq⟩ := hitems.operandWithin_eq hlevels
      rw [heq, List.map_cons, List.map_cons, hfamily.operandWithin_eq hleft,
        hcolorant.operandWithin_eq hleft]
      rfl
  | deviceN hitems hfamily hnames hcolorants =>
      obtain ⟨left, hleft, heq⟩ := hitems.operandWithin_eq hlevels
      obtain ⟨last, hlast, hnames⟩ := hnames.operandWithin_eq hleft
      rw [heq, List.map_cons, List.map_cons, hfamily.operandWithin_eq hleft, hnames,
        map_operandWithin_names hcolorants hlast]
      exact congrArg (Option.map _) (ColorSpace.mapM_name?_names _)
  | patternOver hitems hfamily hbase ih =>
      obtain ⟨left, hleft, heq⟩ := hitems.operandWithin_eq hlevels
      rw [heq, List.map_cons, List.map_cons, hfamily.operandWithin_eq hleft]
      simp [ColorSpace.ofOperand?, ColorSpace.ofArray?, ColorSpace.ofBase?, Operand.name?, ih hleft]

theorem Describes.unique {steps' : Nat} {space space' : ColorSpace}
    (h : doc.Describes steps object space) (h' : doc.Describes steps' object space') :
    space = space' := by
  have hlevels : steps < max steps steps' + 1 := by omega
  have hspace := h.ofOperand?_eq hlevels
  rw [h'.ofOperand?_eq (by omega)] at hspace
  exact (Option.some.inj hspace).symm

/-- The resources give the name a color space by parts that are at most so many steps away. -/
inductive Names (doc : Document) (steps : Nat) (resources : Object) (name : String)
    (space : ColorSpace) : Prop
  | intro {inner innermost : Nat} {categories spaces : Object.Entries} {category value : Object}
      (hname : ColorSpace.ofName? name = none)
      (hcategories : doc.Maps steps inner resources categories)
      (hcategory : Object.get? categories "ColorSpace" = some category)
      (hspaces : doc.Maps inner innermost category spaces)
      (hvalue : Object.get? spaces name = some value)
      (hspace : doc.Describes innermost value space) : Names doc steps resources name space

theorem Names.colorSpace_eq {resources : Resources} {name : String} {space : ColorSpace}
    (h : doc.Names steps object name space) (hlevels : steps < levels)
    (hresources : doc.operandWithin levels object = .dictionary resources.categories) :
    resources.colorSpace name = .ok space := by
  obtain ⟨hname, hcategories, hcategory, hspaces, hvalue, hspace⟩ := h
  obtain ⟨left, values, hleft, heq, hget⟩ := hcategories.operandWithin_eq hlevels
  obtain ⟨last, others, hlast, heq', hget'⟩ := hspaces.operandWithin_eq hleft
  obtain rfl := Operand.dictionary.inj (hresources.symm.trans heq)
  have hcategory' := hget "ColorSpace"
  rw [hcategory, Option.map_some, heq'] at hcategory'
  have hvalue' := hget' name
  rw [hvalue, Option.map_some] at hvalue'
  exact Resources.colorSpace_eq_ok hname hcategory' hvalue' (hspace.ofOperand?_eq hlast)

theorem Names.unique {steps' : Nat} {name : String} {space space' : ColorSpace}
    (h : doc.Names steps object name space) (h' : doc.Names steps' object name space') :
    space = space' := by
  have hlevels : steps < max steps steps' + 1 := by omega
  obtain ⟨values, heq⟩ : ∃ values,
      doc.operandWithin (max steps steps' + 1) object = .dictionary values := by
    obtain ⟨-, hcategories, -⟩ := h
    obtain ⟨left, values, -, heq, -⟩ := hcategories.operandWithin_eq hlevels
    exact ⟨values, heq⟩
  have hspace : (Resources.mk values).colorSpace name = .ok space := h.colorSpace_eq hlevels heq
  rw [h'.colorSpace_eq (by omega) heq] at hspace
  exact (Except.ok.inj hspace).symm

/-! ## Objects that differ in references alone -/

/-- The same is seen of the objects, and of what they hold, where references are followed. -/
def Alike (doc doc' : Document) (object object' : Object) : Prop :=
  ∃ related : Object → Object → Prop, related object object' ∧
    ∀ {first second}, related first second →
      doc.outline? (doc.resolve first) = doc'.outline? (doc'.resolve second) ∧
        List.Forall₂ related (doc.resolve first).contents (doc'.resolve second).contents

theorem Alike.outline_eq (h : Alike doc doc' object object') :
    doc.outline? (doc.resolve object) = doc'.outline? (doc'.resolve object') := by
  obtain ⟨related, hobject, hrelated⟩ := h
  exact (hrelated hobject).1

theorem Alike.contents (h : Alike doc doc' object object') :
    List.Forall₂ (Alike doc doc') (doc.resolve object).contents
      (doc'.resolve object').contents := by
  obtain ⟨related, hobject, hrelated⟩ := h
  exact (hrelated hobject).2.imp fun _ _ hinner => ⟨related, hinner, hrelated⟩

theorem Shows.of_alike {value : Operand} (h : doc.Shows steps object value)
    (halike : Alike doc doc' object object') : doc'.Shows (2 * steps + 1) object' value := by
  have hlinks := object'.links_le_one
  exact ⟨by omega, halike.outline_eq ▸ h.2.1, h.2.2⟩

private theorem eq_array_of_outline? {nulls : List Operand}
    (h : doc.outline? object = some (.array nulls)) : ∃ items, object = .array items := by
  cases object with
  | array items => exact ⟨items, rfl⟩
  | name bytes => cases htext : Utf8.decode? bytes <;> simp [outline?, htext] at h
  | reference id => simp [outline?] at h
  | _ => simp [outline?] at h

private theorem entries?_of_outline? {nulls : Dictionary}
    (h : doc.outline? object = some (.dictionary nulls)) :
    ∃ entries, object.entries? = some entries := by
  cases object with
  | dictionary entries => exact ⟨entries, rfl⟩
  | stream entries data => exact ⟨entries, rfl⟩
  | name bytes => cases htext : Utf8.decode? bytes <;> simp [outline?, htext] at h
  | reference id => simp [outline?] at h
  | _ => simp [outline?] at h

private theorem outline?_of_entries? (h : object.entries? = some entries) :
    doc.outline? object =
      some (.dictionary ((Object.readable entries).map fun entry => (entry.1, .null))) := by
  cases object with
  | dictionary others => rw [outline?, Option.some.inj h]
  | stream others data => rw [outline?, Option.some.inj h]
  | _ => contradiction

private theorem contents_of_entries? (h : object.entries? = some entries) :
    object.contents = (Object.readable entries).map Prod.snd := by
  cases object with
  | dictionary others => rw [Object.contents, Option.some.inj h]
  | stream others data => rw [Object.contents, Option.some.inj h]
  | _ => contradiction

private theorem exists_of_rel {related : Object → Object → Prop} {first second : Option Object}
    {value : Object} (h : Option.Rel related first second) (hvalue : first = some value) :
    ∃ value', second = some value' ∧ related value value' := by
  subst hvalue
  cases h with
  | some hrelated => exact ⟨_, rfl, hrelated⟩

private theorem eq_none_of_rel {related : Object → Object → Prop} {first second : Option Object}
    (h : Option.Rel related first second) (hnone : first = none) : second = none := by
  subst hnone
  cases h
  rfl

private theorem rel_lookup_of_forall₂ {related : Object → Object → Prop}
    {first second : List (String × Object)} (hkeys : first.map Prod.fst = second.map Prod.fst)
    (h : List.Forall₂ related (first.map Prod.snd) (second.map Prod.snd)) (key : String) :
    Option.Rel related (first.lookup key) (second.lookup key) := by
  induction first generalizing second with
  | nil =>
      obtain rfl := List.map_eq_nil_iff.1 hkeys.symm
      exact .none
  | cons entry first ih =>
      cases second with
      | nil => contradiction
      | cons entry' second =>
          obtain ⟨hkey, hkeys⟩ := List.cons.inj hkeys
          obtain ⟨hentry, h⟩ := List.forall₂_cons.1 h
          rw [List.lookup_cons, List.lookup_cons, ← hkey]
          cases key == entry.1 with
          | true => exact .some hentry
          | false => exact ih hkeys h

private theorem shows_of_alike {colorants colorants' : List Object} {texts : List String}
    (h : List.Forall₂ (fun colorant text => doc.Shows steps colorant (.name text)) colorants texts)
    (halike : List.Forall₂ (Alike doc doc') colorants colorants') :
    List.Forall₂ (fun colorant text => doc'.Shows (2 * steps + 1) colorant (.name text))
      colorants' texts := by
  induction h generalizing colorants' with
  | nil =>
      obtain _ | _ := halike
      exact .nil
  | cons hcolorant _ ih =>
      obtain _ | ⟨hfirst, hrest⟩ := halike
      exact .cons (hcolorant.of_alike hfirst) (ih hrest)

theorem Lists.of_alike (h : doc.Lists steps inner object items)
    (halike : Alike doc doc' object object') :
    ∃ items', doc'.Lists (2 * steps + 1) (2 * inner + 1) object' items' ∧
      List.Forall₂ (Alike doc doc') items items' := by
  obtain ⟨hsteps, hitems⟩ := h
  have hlinks := object'.links_le_one
  have houtline := halike.outline_eq
  have hcontents := halike.contents
  rw [hitems] at houtline hcontents
  obtain ⟨items', hitems'⟩ := eq_array_of_outline? houtline.symm
  rw [hitems'] at hcontents
  exact ⟨items', ⟨by omega, hitems'⟩, hcontents⟩

theorem Maps.of_alike (h : doc.Maps steps inner object entries)
    (halike : Alike doc doc' object object') :
    ∃ entries', doc'.Maps (2 * steps + 1) (2 * inner + 1) object' entries' ∧
      ∀ key, Option.Rel (Alike doc doc') (Object.get? entries key) (Object.get? entries' key) := by
  obtain ⟨hsteps, hentries⟩ := h
  have hlinks := object'.links_le_one
  have houtline := halike.outline_eq
  have hcontents := halike.contents
  rw [outline?_of_entries? hentries] at houtline
  obtain ⟨entries', hentries'⟩ := entries?_of_outline? houtline.symm
  rw [outline?_of_entries? hentries'] at houtline
  rw [contents_of_entries? hentries, contents_of_entries? hentries'] at hcontents
  have hkeys :
      (Object.readable entries).map Prod.fst = (Object.readable entries').map Prod.fst := by
    simpa [Function.comp_def] using
      congrArg (List.map Prod.fst) (Operand.dictionary.inj (Option.some.inj houtline))
  refine ⟨entries', ⟨by omega, hentries'⟩, fun key => ?_⟩
  rw [Object.get?_eq_lookup_readable, Object.get?_eq_lookup_readable]
  exact rel_lookup_of_forall₂ hkeys hcontents key

/-- Like objects describe the same color space, by parts that are twice as far away at most. -/
theorem Describes.of_alike {space : ColorSpace} (h : doc.Describes steps object space)
    (halike : Alike doc doc' object object') : doc'.Describes (2 * steps + 1) object' space := by
  induction h generalizing object' with
  | device hname hspace => exact .device (hname.of_alike halike) hspace
  | listedDevice hitems hfamily hspace =>
      obtain ⟨_, hitems', _ | ⟨hfirst, _ | _⟩⟩ := hitems.of_alike halike
      exact .listedDevice hitems' (hfamily.of_alike hfirst) hspace
  | calibrated hitems hfamily hcount =>
      obtain ⟨_, hitems', _ | ⟨hfirst, _⟩⟩ := hitems.of_alike halike
      exact .calibrated hitems' (hfamily.of_alike hfirst) hcount
  | profiled hitems hfamily hprofile hnumber hshown hvalue hcount hmem =>
      obtain ⟨_, hitems', _ | ⟨hfirst, _ | ⟨hsecond, _⟩⟩⟩ := hitems.of_alike halike
      obtain ⟨entries', hprofile', hget⟩ := hprofile.of_alike hsecond
      obtain ⟨number', hnumber', hnumbers⟩ := exists_of_rel (hget "N") hnumber
      exact .profiled hitems' (hfamily.of_alike hfirst) hprofile' hnumber'
        (hshown.of_alike hnumbers) hvalue hcount hmem
  | unnumbered hitems hfamily hprofile hnumber =>
      obtain ⟨_, hitems', _ | ⟨hfirst, _ | ⟨hsecond, _⟩⟩⟩ := hitems.of_alike halike
      obtain ⟨entries', hprofile', hget⟩ := hprofile.of_alike hsecond
      exact .unnumbered hitems' (hfamily.of_alike hfirst) hprofile'
        (eq_none_of_rel (hget "N") hnumber)
  | indexed hitems hfamily hname hbase hlast hvalue hbounds ih =>
      obtain ⟨_, hitems', _ | ⟨hfirst, _ | ⟨hsecond, _ | ⟨hthird, _⟩⟩⟩⟩ := hitems.of_alike halike
      exact .indexed hitems' (hfamily.of_alike hfirst) hname (ih hsecond) (hlast.of_alike hthird)
        hvalue hbounds
  | separation hitems hfamily hcolorant =>
      obtain ⟨_, hitems', _ | ⟨hfirst, _ | ⟨hsecond, _⟩⟩⟩ := hitems.of_alike halike
      exact .separation hitems' (hfamily.of_alike hfirst) (hcolorant.of_alike hsecond)
  | deviceN hitems hfamily hnames hcolorants =>
      obtain ⟨_, hitems', _ | ⟨hfirst, _ | ⟨hsecond, _⟩⟩⟩ := hitems.of_alike halike
      obtain ⟨colorants', hnames', hnamed⟩ := hnames.of_alike hsecond
      exact .deviceN hitems' (hfamily.of_alike hfirst) hnames' (shows_of_alike hcolorants hnamed)
  | patternOver hitems hfamily hbase ih =>
      obtain ⟨_, hitems', _ | ⟨hfirst, _ | ⟨hsecond, _⟩⟩⟩ := hitems.of_alike halike
      exact .patternOver hitems' (hfamily.of_alike hfirst) (ih hsecond)

theorem Names.of_alike {name : String} {space : ColorSpace} (h : doc.Names steps object name space)
    (halike : Alike doc doc' object object') :
    doc'.Names (2 * steps + 1) object' name space := by
  obtain ⟨hname, hcategories, hcategory, hspaces, hvalue, hspace⟩ := h
  obtain ⟨categories', hcategories', hget⟩ := hcategories.of_alike halike
  obtain ⟨category', hcategory', hcategories⟩ := exists_of_rel (hget _) hcategory
  obtain ⟨spaces', hspaces', hget'⟩ := hspaces.of_alike hcategories
  obtain ⟨value', hvalue', hvalues⟩ := exists_of_rel (hget' _) hvalue
  exact ⟨hname, hcategories', hcategory', hspaces', hvalue', hspace.of_alike hvalues⟩

end Steps

end Document

end ContentStream
