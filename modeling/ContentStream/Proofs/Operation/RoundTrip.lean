import ContentStream.Operator.Catalog
import ContentStream.Proofs.Operation.Image
import ContentStream.Proofs.Operation.Keyword

/-!
# Operations read back

Written operations are read as the same operations, less the operands that their
shapes do not write.  `Advances` is one step of this: a text that is read no matter
what follows it.  Steps compose, so an operation is assembled from its tokens and a
stream from its operations.
-/

namespace ContentStream

namespace Shape

def kept (shape : Shape) (operands : List Operand) : List Operand :=
  match shape with
  | .generic => operands
  | .noOperands => []
  | .singleNumeric => operands.take 1
  | .inlineImage =>
    match imageParts operands with
    | .ok (entries, data) => [.dictionary entries, .literalString data]
    | .error _ => operands

/-- Operands that can be written and read back, as far as they are written. -/
def Accepts (shape : Shape) (operands : List Operand) : Prop :=
  match shape with
  | .generic => ∀ operand ∈ operands, operand.Writable nestingLimit
  | .noOperands => True
  | .singleNumeric => ∃ value others, operands = value :: others ∧ value.isNumber = true ∧
      value.Writable nestingLimit
  | .inlineImage => ∃ entries data, imageParts operands = .ok (entries, data) ∧
      (Dictionary.keys entries).Nodup ∧
      (∀ entry ∈ entries, entry.2.Writable nestingLimit) ∧ InlineImage.IsData data

/-- Operands that are all written, in the form in which they are read. -/
def IsExact (shape : Shape) (operands : List Operand) : Prop :=
  match shape with
  | .generic => True
  | .noOperands => operands = []
  | .singleNumeric => operands.length ≤ 1
  | .inlineImage => ∃ entries data, operands = [.dictionary entries, .literalString data]

theorem kept_inlineImage {operands : List Operand} {entries : Dictionary} {data : Bytes}
    (h : imageParts operands = .ok (entries, data)) :
    kept .inlineImage operands = [.dictionary entries, .literalString data] := by
  simp only [kept, h]

theorem writtenImage_eq {operands : List Operand} {entries : Dictionary} {data tokens : Bytes}
    (h : imageParts operands = .ok (entries, data))
    (htokens : writtenOperands Operand.written (imageEntries entries) = .ok tokens) :
    writtenImage Operand.written operands = .ok (InlineImage.keyword ++ 0x0A ::
      (tokens ++ 0x49 :: 0x44 :: 0x0A :: (data ++ [0x45, 0x49, 0x0A]))) := by
  rw [writtenImage, h]
  simp only [bind, Except.bind, htokens, pure, Except.pure, List.append_assoc]
  rfl

theorem kept_eq_self {shape : Shape} {operands : List Operand} (h : shape.IsExact operands) :
    shape.kept operands = operands := by
  cases shape with
  | generic => rfl
  | noOperands => exact h.symm
  | singleNumeric => exact List.take_of_length_le h
  | inlineImage =>
      obtain ⟨entries, data, rfl⟩ := h
      rfl

end Shape

namespace Operation

/-- The operation as it is read after it has been written. -/
def kept (operation : Operation) : Operation :=
  ⟨operation.name, operation.shape.kept operation.operands⟩

structure Writable (operation : Operation) : Prop where
  keyword : IsKeyword operation.name
  operands : operation.shape.Accepts operation.operands

private theorem name_of_inlineImage : ∀ operator ∈ Operator.builtIn,
    operator.shape = .inlineImage → operator.name = "BI" := by
  decide

theorem shape_eq_inlineImage_iff (operation : Operation) :
    operation.shape = .inlineImage ↔ operation.name = "BI" := by
  unfold shape
  constructor
  · intro h
    cases hfound : Operator.builtIn? operation.name with
    | none => simp [hfound] at h
    | some operator =>
        rw [hfound] at h
        have hname : operator.name = operation.name := by
          simpa using List.find?_some hfound
        rw [← hname]
        exact name_of_inlineImage operator (List.mem_of_find?_eq_some hfound) h
  · intro h
    rw [h]
    decide

/-! ## Steps of the reader -/

section Steps

variable {pending : List Operand} {operations : List Operation} {input rest : Bytes}

theorem takeAll_nil (h : Separator.skip input = []) :
    takeAll pending operations input = .ok operations.reverse := by
  have hread : Token.read nestingLimit input = .ok none := by
    rw [Token.read_eq]
    unfold Token.readWith
    split
    next => rfl
    next hskip => simp [h] at hskip
  rw [takeAll, hread]

theorem takeAll_operand {value : Operand}
    (h : (Token.read nestingLimit).Yields input (.operand value) rest) :
    takeAll pending operations input = takeAll (value :: pending) operations rest := by
  obtain ⟨shorter, hread⟩ := h
  rw [takeAll, hread]

theorem takeAll_keyword {word : Bytes} (hword : word ≠ InlineImage.keyword)
    (h : (Token.read nestingLimit).Yields input (.keyword word) rest) :
    takeAll pending operations input =
      takeAll [] (⟨Utf8.decodeLossy word, pending.reverse⟩ :: operations) rest := by
  obtain ⟨shorter, hread⟩ := h
  rw [takeAll, hread]
  dsimp only
  rw [if_neg hword]

theorem takeAll_name {name : String} (h : IsKeyword name) (hname : name ≠ "BI")
    (hrest : rest.Ends) (hskip : Separator.skip input = Separator.skip (Utf8.encode name ++ rest)) :
    takeAll pending operations input =
      takeAll [] (⟨name, pending.reverse⟩ :: operations) rest := by
  have hword : Utf8.encode name ≠ InlineImage.keyword := by
    rw [← encode_imageKeyword]
    exact mt Utf8.encode_injective hname
  rw [takeAll_keyword hword (h.isWord.yields nestingLimit hrest hskip), Utf8.decodeLossy_encode]

theorem takeAll_layouts {operands : List Operand} {tokens : List Bytes} {text : Bytes}
    (h : ∀ operand ∈ operands, operand.Writable nestingLimit)
    (hlayouts : Operand.Layouts operands tokens)
    (hseparated : Separator.Separated rest tokens text)
    (hskip : Separator.skip input = Separator.skip text) :
    ∃ next, Separator.skip next = Separator.skip rest ∧
      takeAll pending operations input = takeAll (operands.reverse ++ pending) operations next := by
  induction operands generalizing tokens text input pending with
  | nil =>
      obtain rfl := Operand.layouts_nil hlayouts
      exact ⟨input, hskip.trans hseparated.skip_eq, rfl⟩
  | cons operand operands ih =>
      obtain ⟨token, others, rfl, htoken, hothers⟩ := Operand.layouts_cons hlayouts
      obtain ⟨behind, hfirst, hends, hbehind⟩ := hseparated.cases_token
      have hspells := htoken.spells (h operand (by simp))
      rw [takeAll_operand (hspells.yields hends (hskip.trans hfirst))]
      obtain ⟨next, hnext, hmore⟩ :=
        ih (fun other hother => h other (by simp [hother])) hothers hbehind rfl
      refine ⟨next, hnext, hmore.trans ?_⟩
      simp

theorem takeAll_image {entries : Dictionary} {data behind : Bytes}
    (h : (Token.read nestingLimit).Yields input (.keyword InlineImage.keyword) rest)
    (himage : Took (InlineImage.take rest) (entries, data) behind) :
    takeAll pending operations input =
      takeAll [] (⟨"BI", [.dictionary entries, .literalString data]⟩ :: operations) behind := by
  obtain ⟨shorter, hread⟩ := h
  obtain ⟨shorterImage, htaken⟩ := himage
  have hname : Utf8.decodeLossy InlineImage.keyword = "BI" :=
    (decodeLossy_eq_image_iff _).2 rfl
  rw [takeAll, hread]
  dsimp only
  rw [if_pos rfl, htaken, hname]

end Steps

/-- What the reader holds between two tokens. -/
structure Reading where
  pending : List Operand
  operations : List Operation

/--
In front of any input, the text is read from one state of the reader to another.
The inputs are compared from their first bytes that are no separators.
-/
def Advances (text : Bytes) (before after : Reading) : Prop :=
  ∀ input rest, Separator.skip input = Separator.skip (text ++ rest) →
    ∃ next, Separator.skip next = Separator.skip rest ∧
      takeAll before.pending before.operations input = takeAll after.pending after.operations next

theorem Advances.refl (reading : Reading) : Advances [] reading reading := by
  intro input rest hskip
  exact ⟨input, hskip, rfl⟩

theorem Advances.trans {first second : Bytes} {before middle after : Reading}
    (h : Advances first before middle) (h' : Advances second middle after) :
    Advances (first ++ second) before after := by
  intro input rest hskip
  rw [List.append_assoc] at hskip
  obtain ⟨next, hnext, hfirst⟩ := h input (second ++ rest) hskip
  obtain ⟨last, hlast, hsecond⟩ := h' next rest hnext
  exact ⟨last, hlast, hfirst.trans hsecond⟩

theorem advances_operands {operands : List Operand}
    (h : ∀ operand ∈ operands, operand.Writable nestingLimit) :
    ∃ tokens, Shape.writtenOperands Operand.written operands = .ok tokens ∧
      ∀ pending operations, Advances tokens ⟨pending, operations⟩
        ⟨operands.reverse ++ pending, operations⟩ := by
  obtain ⟨tokens, htokens⟩ := Operand.exists_writtenOperands.2 fun operand hoperand =>
    (h operand hoperand).exists_written
  obtain ⟨rows, hlayouts, hseparated⟩ := Operand.layouts_of_writtenOperands htokens
  exact ⟨tokens, htokens, fun pending operations input rest hskip =>
    takeAll_layouts h hlayouts (hseparated rest) hskip⟩

theorem advances_keyword {name : String} (h : IsKeyword name) (hname : name ≠ "BI")
    (pending : List Operand) (operations : List Operation) :
    Advances (Utf8.encode name ++ Shape.lineEnd) ⟨pending, operations⟩
      ⟨[], ⟨name, pending.reverse⟩ :: operations⟩ := by
  intro input rest hskip
  rw [List.append_assoc] at hskip
  exact ⟨0x0A :: rest, Separator.skip_whiteSpace (by decide) rest,
    takeAll_name h hname (Bytes.ends_cons (by decide)) hskip⟩

theorem advances_image {operands : List Operand} {entries : Dictionary} {data : Bytes}
    (hparts : Shape.imageParts operands = .ok (entries, data))
    (hnodup : (Dictionary.keys entries).Nodup)
    (hentries : ∀ entry ∈ entries, entry.2.Writable nestingLimit)
    (hdata : InlineImage.IsData data) :
    ∃ text, Shape.writtenImage Operand.written operands = .ok text ∧
      ∀ operations, Advances text ⟨[], operations⟩
        ⟨[], ⟨"BI", [.dictionary entries, .literalString data]⟩ :: operations⟩ := by
  obtain ⟨tokens, htokens, himage⟩ := InlineImage.take_written hnodup hentries hdata
  refine ⟨_, Shape.writtenImage_eq hparts htokens, fun operations input rest hskip => ?_⟩
  simp only [List.append_assoc, List.cons_append, List.nil_append] at hskip
  have hkeyword := isWord_imageKeyword.yields nestingLimit (Bytes.ends_cons (by decide)) hskip
  exact ⟨0x0A :: rest, Separator.skip_whiteSpace (by decide) rest,
    takeAll_image hkeyword (himage _ rest (Separator.skip_whiteSpace (by decide) _))⟩

theorem Writable.written_eq {operation : Operation} (h : operation.Writable)
    (hname : operation.name ≠ "BI") : operation.written Operand.written =
      Shape.writtenGeneric Operand.written operation.name operation.kept.operands := by
  obtain ⟨name, operands⟩ := operation
  have himage := shape_eq_inlineImage_iff ⟨name, operands⟩
  have haccepts := h.operands
  unfold written kept
  generalize (⟨name, operands⟩ : Operation).shape = shape at himage haccepts
  cases shape with
  | generic => rfl
  | noOperands => rfl
  | singleNumeric =>
      obtain ⟨value, others, rfl, hnumber, hwritable⟩ := haccepts
      obtain ⟨text, hwritten⟩ := hwritable.exists_written
      show Shape.writtenNumeric name (value :: others) = Shape.writtenGeneric _ name [value]
      simp only [Shape.writtenNumeric, hnumber, hwritten, Shape.writtenGeneric,
        Shape.writtenOperands, Bool.not_true, Bool.false_eq_true, if_false, bind, Except.bind, pure,
        Except.pure]
      simp
  | inlineImage => exact absurd (himage.1 rfl) hname

theorem Writable.of_mem_kept {operation : Operation} (h : operation.Writable)
    (hname : operation.name ≠ "BI") {operand : Operand}
    (hoperand : operand ∈ operation.kept.operands) : operand.Writable nestingLimit := by
  obtain ⟨name, operands⟩ := operation
  have himage := shape_eq_inlineImage_iff ⟨name, operands⟩
  have haccepts := h.operands
  unfold kept at hoperand
  generalize (⟨name, operands⟩ : Operation).shape = shape at himage haccepts hoperand
  cases shape with
  | generic => exact haccepts operand hoperand
  | noOperands => simp [Shape.kept] at hoperand
  | singleNumeric =>
      obtain ⟨value, others, rfl, -, hwritable⟩ := haccepts
      obtain rfl : operand = value := by simpa [Shape.kept] using hoperand
      exact hwritable
  | inlineImage => exact absurd (himage.1 rfl) hname

theorem advances_written {operation : Operation} (h : operation.Writable) :
    ∃ text, operation.written Operand.written = .ok text ∧
      ∀ operations, Advances text ⟨[], operations⟩ ⟨[], operation.kept :: operations⟩ := by
  by_cases hname : operation.name = "BI"
  · obtain ⟨name, operands⟩ := operation
    obtain rfl : name = "BI" := hname
    have hshape := (shape_eq_inlineImage_iff ⟨"BI", operands⟩).2 rfl
    obtain ⟨entries, data, hparts, hnodup, hentries, hdata⟩ := hshape ▸ h.operands
    obtain ⟨text, hwritten, hmore⟩ := advances_image hparts hnodup hentries hdata
    refine ⟨text, ?_, fun operations => ?_⟩
    · rw [written, hshape]
      exact hwritten
    · rw [kept, hshape, Shape.kept_inlineImage hparts]
      exact hmore operations
  · obtain ⟨tokens, htokens, hmore⟩ :=
      advances_operands fun _ hoperand => h.of_mem_kept hname hoperand
    refine ⟨tokens ++ (Utf8.encode operation.name ++ Shape.lineEnd), ?_, fun operations => ?_⟩
    · rw [h.written_eq hname, Shape.writtenGeneric, htokens, ← List.append_assoc]
      rfl
    · have hoperands := hmore [] operations
      have hkeyword := advances_keyword h.keyword hname
        operation.kept.operands.reverse operations
      rw [List.append_nil] at hoperands
      rw [List.reverse_reverse] at hkeyword
      exact hoperands.trans hkeyword

/-! ## Whole streams -/

theorem advances_writtenAll {operations : List Operation}
    (h : ∀ operation ∈ operations, operation.Writable) :
    ∃ text, writtenAll Operand.written operations = .ok text ∧
      ∀ before, Advances text ⟨[], before⟩ ⟨[], (operations.map kept).reverse ++ before⟩ := by
  induction operations with
  | nil => exact ⟨[], rfl, fun before => Advances.refl _⟩
  | cons operation operations ih =>
      obtain ⟨first, hfirst, hstep⟩ := advances_written (h operation (by simp))
      obtain ⟨others, hothers, hmore⟩ := ih fun other hother => h other (by simp [hother])
      refine ⟨first ++ others, ?_, fun before => ?_⟩
      · rw [writtenAll, hfirst, hothers]
        rfl
      · have hboth := (hstep before).trans (hmore (operation.kept :: before))
        simpa using hboth

theorem map_kept {operations : List Operation}
    (h : ∀ operation ∈ operations, operation.shape.IsExact operation.operands) :
    operations.map kept = operations := by
  conv_rhs => rw [← List.map_id operations]
  refine List.map_congr_left fun operation hoperation => ?_
  rw [kept, Shape.kept_eq_self (h operation hoperation), id]

theorem ofBytes_written {operations : List Operation}
    (h : ∀ operation ∈ operations, operation.Writable) :
    ∃ text, writtenAll Operand.written operations = .ok text ∧
      ofBytes text = .ok (operations.map kept) := by
  obtain ⟨text, hwritten, hadvances⟩ := advances_writtenAll h
  obtain ⟨next, hnext, hread⟩ := hadvances [] text [] (by rw [List.append_nil])
  have hend : takeAll [] ((operations.map kept).reverse ++ []) next = _ := takeAll_nil hnext
  refine ⟨text, hwritten, ?_⟩
  rw [ofBytes, hread, hend]
  simp

/--
Writing operations succeeds, and reading what was written succeeds with the same
operations in the same order.  Only the operands that their shapes do not write are
missing; where there are none of these, nothing has changed.
-/
theorem ofBytes_writtenAll {operations : List Operation}
    (h : ∀ operation ∈ operations, operation.Writable) :
    ∃ text, writtenAll Operand.written operations = .ok text ∧
      ofBytes text = .ok (operations.map kept) ∧
      ((∀ operation ∈ operations, operation.shape.IsExact operation.operands) →
        ofBytes text = .ok operations) := by
  obtain ⟨text, hwritten, hread⟩ := ofBytes_written h
  exact ⟨text, hwritten, hread, fun hexact => by rw [hread, map_kept hexact]⟩

def everyShape : List Operation :=
  [⟨"q", [.null]⟩, ⟨"w", [.real 0.5]⟩,
    ⟨"BDC", [.name "a b", .dictionary [("K", .array [.hexString [0xAB], .integer (-7)])]]⟩,
    ⟨"BI", [.dictionary [("W", .integer 1)], .literalString [0x45, 0x49, 0x0A]]⟩]

private theorem Writable.of_shape {name : String} {operands : List Operand} {shape : Shape}
    (hkeyword : IsKeyword name) (hshape : (⟨name, operands⟩ : Operation).shape = shape)
    (h : shape.Accepts operands) : Writable ⟨name, operands⟩ :=
  ⟨hkeyword, hshape ▸ h⟩

private theorem isKeyword_everyShape : ∀ operation ∈ everyShape, IsKeyword operation.name := by
  have hall : ∀ name ∈ everyShape.map Operation.name, name ≠ "" ∧
      (∀ byte ∈ Utf8.encode name, Byte.isRegular byte = true) ∧
      (∀ byte ∈ (Utf8.encode name).head?, Numeral.isStart byte = false) ∧
      (name ≠ "true" ∧ name ≠ "false" ∧ name ≠ "null") := by
    decide +kernel
  intro operation hoperation
  obtain ⟨h1, h2, h3, h4⟩ := hall operation.name (List.mem_map_of_mem hoperation)
  exact ⟨h1, h2, h3, h4⟩

private theorem isData_endKeyword : InlineImage.IsData [0x45, 0x49, 0x0A] where
  ends := by decide
  noEnd := by
    intro before space after behind hdata _
    have hlength := congrArg List.length hdata
    simp at hlength
    omega

theorem ofBytes_writtenAll_everyShape :
    ∃ text, writtenAll Operand.written everyShape = .ok text ∧
      ofBytes text = .ok (everyShape.map kept) ∧
      ((∀ operation ∈ everyShape, operation.shape.IsExact operation.operands) →
        ofBytes text = .ok everyShape) := by
  apply ofBytes_writtenAll
  intro operation hoperation
  have hkeyword := isKeyword_everyShape operation hoperation
  simp only [everyShape, List.mem_cons, List.not_mem_nil, or_false] at hoperation
  rcases hoperation with rfl | rfl | rfl | rfl
  · exact .of_shape hkeyword (show _ = Shape.noOperands by decide) trivial
  · exact .of_shape hkeyword (show _ = Shape.singleNumeric by decide)
      ⟨_, _, rfl, rfl, .real (by decide +kernel)⟩
  · refine .of_shape hkeyword (show _ = Shape.generic by decide) ?_
    intro operand hoperand
    simp only [List.mem_cons, List.not_mem_nil, or_false] at hoperand
    rcases hoperand with rfl | rfl
    · exact .name
    · refine .dictionary (by decide) ?_
      simp only [List.mem_cons, List.not_mem_nil, or_false]
      rintro _ rfl
      refine .array ?_
      simp only [List.mem_cons, List.not_mem_nil, or_false]
      rintro _ (rfl | rfl)
      · exact .hexString
      · exact .integer
  · refine .of_shape hkeyword (show _ = Shape.inlineImage by decide)
      ⟨_, _, rfl, by decide, ?_, isData_endKeyword⟩
    simp only [List.mem_cons, List.not_mem_nil, or_false]
    rintro _ rfl
    exact .integer

end Operation

end ContentStream
