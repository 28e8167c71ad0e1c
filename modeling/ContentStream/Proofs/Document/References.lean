import ContentStream.Document.PageResources
import Mathlib.Data.List.Basic

/-!
# References

What a reference leads to depends on the objects that are met on the way there and on no
others, and so does the operand that an object becomes: it depends on the objects that can be
reached through what the object holds.
-/

namespace ContentStream.Document

inductive Follows (doc : Document) : ObjectId → ObjectId → Prop
  | here {id : ObjectId} : Follows doc id id
  | next {id next last : ObjectId} (hlookup : doc.objects.lookup id = some (.reference next))
      (h : Follows doc next last) : Follows doc id last

section Follow

variable {doc doc' : Document} {steps : Nat} {id : ObjectId} {found : Object}

theorem exists_follows_of_leads (h : doc.Leads steps id found) :
    ∃ last, doc.Follows id last ∧ doc.objects.lookup last = some found := by
  induction h with
  | here hlookup _ => exact ⟨_, .here, hlookup⟩
  | next hlookup _ ih =>
      obtain ⟨last, hfollows, hlast⟩ := ih
      exact ⟨last, .next hlookup hfollows, hlast⟩

theorem resolve_of_object? (h : doc.object? id = some found) :
    doc.resolve (.reference id) = found := by
  rw [resolve, h]
  rfl

theorem resolve_of_object?_eq_none (h : doc.object? id = none) :
    doc.resolve (.reference id) = .reference id := by
  rw [resolve, h]
  rfl

theorem leads_congr
    (h : ∀ met, doc.Follows id met → doc'.objects.lookup met = doc.objects.lookup met) :
    doc'.Leads steps id found ↔ doc.Leads steps id found := by
  constructor
  · intro hleads
    induction hleads with
    | here hlookup hobject => exact .here ((h _ .here).symm.trans hlookup) hobject
    | next hlookup _ ih =>
        have hnext := (h _ .here).symm.trans hlookup
        exact .next hnext (ih fun met hmet => h met (.next hnext hmet))
  · intro hleads
    induction hleads with
    | here hlookup hobject => exact .here ((h _ .here).trans hlookup) hobject
    | next hlookup _ ih =>
        exact .next ((h _ .here).trans hlookup) (ih fun met hmet => h met (.next hlookup hmet))

theorem object?_congr (hlibrary : doc'.library = doc.library)
    (h : ∀ met, doc.Follows id met → doc'.objects.lookup met = doc.objects.lookup met) :
    doc'.object? id = doc.object? id :=
  Option.ext fun object => by
    rw [object?_eq_some_iff, object?_eq_some_iff, hlibrary, leads_congr h]

end Follow

/-- The objects that are reached through what an object holds, however far away. -/
inductive LeadsTo (doc : Document) : Object → ObjectId → Prop
  | reference {id : ObjectId} : LeadsTo doc (.reference id) id
  | target {id reached : ObjectId} {target : Object}
      (hlookup : doc.objects.lookup id = some target) (h : LeadsTo doc target reached) :
      LeadsTo doc (.reference id) reached
  | item {items : List Object} {item : Object} {reached : ObjectId} (hitem : item ∈ items)
      (h : LeadsTo doc item reached) : LeadsTo doc (.array items) reached
  | entry {entries : Object.Entries} {entry : Bytes × Object} {reached : ObjectId}
      (hentry : entry ∈ entries) (h : LeadsTo doc entry.2 reached) :
      LeadsTo doc (.dictionary entries) reached
  | streamEntry {entries : Object.Entries} {data : Bytes} {entry : Bytes × Object}
      {reached : ObjectId}
      (hentry : entry ∈ entries) (h : LeadsTo doc entry.2 reached) :
      LeadsTo doc (.stream entries data) reached

section LeadsTo

variable {doc doc' : Document} {id reached : ObjectId} {object : Object}

theorem Follows.leadsTo (h : doc.Follows id reached) :
    doc.LeadsTo (.reference id) reached := by
  induction h with
  | here => exact .reference
  | next hlookup _ ih => exact .target hlookup ih

theorem LeadsTo.of_object? (hobject : doc.object? id = some object)
    (h : doc.LeadsTo object reached) : doc.LeadsTo (.reference id) reached := by
  obtain ⟨last, hfollows, hlast⟩ := exists_follows_of_leads (object?_eq_some_iff.1 hobject)
  clear hobject
  induction hfollows with
  | here => exact .target hlast h
  | next hlookup _ ih => exact .target hlookup (ih hlast)

theorem resolve_congr (hlibrary : doc'.library = doc.library)
    (h : ∀ met, doc.LeadsTo object met → doc'.objects.lookup met = doc.objects.lookup met) :
    doc'.resolve object = doc.resolve object := by
  cases object with
  | reference id =>
      rw [resolve, resolve, object?_congr hlibrary fun met hmet => h met hmet.leadsTo]
  | _ => rfl

theorem LeadsTo.of_resolve (h : doc.LeadsTo (doc.resolve object) reached) :
    doc.LeadsTo object reached := by
  cases object with
  | reference id =>
      cases hobject : doc.object? id with
      | none => rwa [resolve_of_object?_eq_none hobject] at h
      | some found => exact .of_object? hobject (resolve_of_object? hobject ▸ h)
  | _ => exact h

theorem convertEntries_congr {convert convert' : Object → Operand} {entries : Object.Entries}
    (h : ∀ entry ∈ entries, convert' entry.2 = convert entry.2) :
    convertEntries convert' entries = convertEntries convert entries :=
  List.filterMap_congr fun entry hentry => by
    change (Utf8.decode? entry.1).map (fun text => (text, convert' entry.2)) = _
    rw [h entry hentry]

theorem operandWithin_congr (hlibrary : doc'.library = doc.library)
    (h : ∀ met, doc.LeadsTo object met → doc'.objects.lookup met = doc.objects.lookup met)
    (levels : Nat) : doc'.operandWithin levels object = doc.operandWithin levels object := by
  induction levels generalizing object with
  | zero => rfl
  | succ levels ih =>
      cases object with
      | array items =>
          simp only [operandWithin]
          exact congrArg Operand.array (List.map_congr_left fun item hitem =>
            ih fun met hmet => h met (.item hitem hmet))
      | dictionary entries =>
          simp only [operandWithin]
          exact congrArg Operand.dictionary (convertEntries_congr fun entry hentry =>
            ih fun met hmet => h met (.entry hentry hmet))
      | stream entries data =>
          simp only [operandWithin]
          exact congrArg Operand.dictionary (convertEntries_congr fun entry hentry =>
            ih fun met hmet => h met (.streamEntry hentry hmet))
      | reference id =>
          simp only [operandWithin]
          rw [object?_congr hlibrary fun met hmet => h met hmet.leadsTo]
          cases hobject : doc.object? id with
          | none => rfl
          | some target => exact ih fun met hmet => h met (.of_object? hobject hmet)
      | _ => rfl

end LeadsTo

section Pages

variable {doc : Document} {index : Nat} {id : ObjectId}

theorem exists_page (h : doc.pages[index]? = some id) :
    ∃ page, doc.object? id = some (.dictionary page) ∧ doc.page index = .ok page := by
  obtain ⟨page, hpage⟩ := doc.library.exists_dictionary_of_mem_pages (List.mem_of_getElem? h)
  refine ⟨page, hpage, ?_⟩
  rw [Document.page, pageId, h]
  change expectDictionary (doc.resolve (.reference id)) = _
  rw [resolve_of_object? hpage]
  rfl

end Pages

end ContentStream.Document
