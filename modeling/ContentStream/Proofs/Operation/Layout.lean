import ContentStream.Proofs.Operation.RoundTrip

/-!
# Layouts of streams

A layout of operations has the tokens of their operands and names in order, and any
separators between the tokens.  All layouts are read as the same operations.  What is
written by default is one of the layouts, of the operands that are written.
-/

namespace ContentStream.Operation

open Separator

/-- The tokens of each operation: those of all its operands, and the name behind them. -/
def Layouts : List Operation → List Bytes → Prop
  | [], tokens => tokens = []
  | operation :: operations, tokens => ∃ operands others,
    Operand.Layouts operation.operands operands ∧ Layouts operations others ∧
      tokens = operands ++ Utf8.encode operation.name :: others

/-- The text has the tokens of the operations, with separators of any kind around them. -/
def Layout (operations : List Operation) (text : Bytes) : Prop :=
  ∃ tokens, Layouts operations tokens ∧ Separated [] tokens text

/-- Operations that are read from any of their layouts, whatever is written of them. -/
structure Plain (operation : Operation) : Prop where
  keyword : IsKeyword operation.name
  ne_image : operation.name ≠ "BI"
  operands : ∀ operand ∈ operation.operands, operand.Writable nestingLimit

theorem Plain.kept {operation : Operation} (h : operation.Writable)
    (hname : operation.name ≠ "BI") : operation.kept.Plain where
  keyword := h.keyword
  ne_image := hname
  operands _ hoperand := h.of_mem_kept hname hoperand

section Written

variable {operation : Operation} {operations : List Operation} {text : Bytes}

theorem layouts_of_written (h : operation.Writable) (hname : operation.name ≠ "BI")
    (hwritten : operation.written Operand.written = .ok text) :
    ∃ operands, Operand.Layouts operation.kept.operands operands ∧
      ∀ {rest : Bytes} {others : List Bytes}, Separated [] others rest →
        Separated [] (operands ++ Utf8.encode operation.name :: others) (text ++ rest) := by
  rw [h.written_eq hname, Shape.writtenGeneric] at hwritten
  obtain ⟨tokens, htokens, hwritten⟩ := Result.bind_eq_ok.1 hwritten
  obtain rfl := Except.ok.inj hwritten
  obtain ⟨operands, hoperands, hseparated⟩ := Operand.layouts_of_writtenOperands htokens
  refine ⟨operands, hoperands, fun hothers => ?_⟩
  rw [List.append_assoc, List.append_assoc]
  exact (hseparated _).trans (hothers.cons_space (by decide))

theorem layout_of_writtenAll (h : ∀ operation ∈ operations, operation.Writable)
    (hname : ∀ operation ∈ operations, operation.name ≠ "BI")
    (hwritten : writtenAll Operand.written operations = .ok text) :
    Layout (operations.map kept) text := by
  induction operations generalizing text with
  | nil =>
      obtain rfl : [] = text := Except.ok.inj hwritten
      exact ⟨[], rfl, .done .nil⟩
  | cons operation operations ih =>
      rw [writtenAll] at hwritten
      obtain ⟨first, hfirst, hwritten⟩ := Result.bind_eq_ok.1 hwritten
      obtain ⟨more, hmore, hwritten⟩ := Result.bind_eq_ok.1 hwritten
      obtain rfl := Except.ok.inj hwritten
      obtain ⟨operands, hoperands, hseparated⟩ :=
        layouts_of_written (h operation (by simp)) (hname operation (by simp)) hfirst
      obtain ⟨others, hothers, hbehind⟩ := ih (fun other hother => h other (by simp [hother]))
        (fun other hother => hname other (by simp [hother])) hmore
      exact ⟨_, ⟨operands, others, hoperands, hothers, rfl⟩, hseparated hbehind⟩

end Written

theorem takeAll_layout {before operations : List Operation} {tokens : List Bytes}
    {input text : Bytes} (h : ∀ operation ∈ operations, operation.Plain)
    (hlayouts : Layouts operations tokens) (hseparated : Separated [] tokens text)
    (hskip : skip input = skip text) :
    takeAll [] before input = .ok (before.reverse ++ operations) := by
  induction operations generalizing before tokens input text with
  | nil =>
      obtain rfl : tokens = [] := hlayouts
      rw [takeAll_nil (hskip.trans hseparated.skip_eq), List.append_nil]
  | cons operation operations ih =>
      obtain ⟨operands, others, hoperands, hothers, rfl⟩ := hlayouts
      have hplain := h operation (by simp)
      obtain ⟨middle, hbefore, hbehind⟩ := hseparated.cases_append
      obtain ⟨next, hnext, hread⟩ : ∃ next, skip next = skip middle ∧
          takeAll [] before input = takeAll (operation.operands.reverse ++ []) before next :=
        takeAll_layouts hplain.operands hoperands hbefore hskip
      obtain ⟨behind, hkeyword, hends, hmore⟩ := hbehind.cases_token
      rw [hread, takeAll_name hplain.keyword hplain.ne_image hends (hnext.trans hkeyword),
        ih (fun other hother => h other (by simp [hother])) hothers hmore rfl]
      simp

theorem ofBytes_of_layout {operations : List Operation} {text : Bytes}
    (h : ∀ operation ∈ operations, operation.Plain) (hlayout : Layout operations text) :
    ofBytes text = .ok operations := by
  obtain ⟨tokens, hlayouts, hseparated⟩ := hlayout
  rw [ofBytes, takeAll_layout h hlayouts hseparated rfl]
  rfl

/--
Every layout, with whatever comments between its tokens, is read as the operations.  Where
they can be written, the written text is a layout of the operations less the operands that
are not written, and so is read like every other layout of these.
-/
theorem ofBytes_layout {operations : List Operation}
    (h : ∀ operation ∈ operations, operation.Plain) :
    (∀ text, Layout operations text → ofBytes text = .ok operations) ∧
      ((∀ operation ∈ operations, operation.Writable) →
        (∃ text, writtenAll Operand.written operations = .ok text ∧
          Layout (operations.map kept) text) ∧
        (∀ text, Layout (operations.map kept) text → ofBytes text = .ok (operations.map kept)) ∧
        ((∀ operation ∈ operations, operation.shape.IsExact operation.operands) →
          operations.map kept = operations)) := by
  refine ⟨fun text hlayout => ofBytes_of_layout h hlayout, fun hwritable => ⟨?_, ?_, map_kept⟩⟩
  · obtain ⟨text, hwritten, -⟩ := ofBytes_written hwritable
    exact ⟨text, hwritten,
      layout_of_writtenAll hwritable (fun operation hoperation => (h operation hoperation).ne_image)
        hwritten⟩
  · refine fun text hlayout => ofBytes_of_layout (List.forall_mem_map.2 ?_) hlayout
    exact fun operation hoperation =>
      .kept (hwritable operation hoperation) (h operation hoperation).ne_image

def bracketComment : Bytes :=
  [0x25, 0x29, 0x20, 0x5D, 0x0D]

private theorem blank_bracketComment : Blank bracketComment :=
  @Blank.comment [0x29, 0x20, 0x5D] 0x0D [] (by decide +kernel) (by decide) .nil

private theorem layout_commentedArray :
    (Operand.array [.integer 1]).Layout (0x5B :: (bracketComment ++ [0x31, 0x09, 0x5D])) := by
  have hinner : Separated [0x5D] [[0x31]] (bracketComment ++ ([0x31] ++ ([0x09] ++ [0x5D]))) :=
    .token blank_bracketComment (Bytes.ends_cons (by decide))
      (.done (.space (by decide) .nil))
  rw [Operand.Layout]
  refine ⟨[[0x31]], _, ?_, hinner, rfl⟩
  simp only [Operand.Layouts, Operand.Layout, and_true]
  rfl

theorem ofBytes_layout_comments :
    ofBytes (0x5B :: (bracketComment ++ [0x31, 0x09, 0x5D]) ++ bracketComment ++
      Utf8.encode "TJ" ++ [0x0A]) = .ok [⟨"TJ", [.array [.integer 1]]⟩] := by
  have hkeyword : Separated [] [Utf8.encode "TJ"]
      (bracketComment ++ (Utf8.encode "TJ" ++ ([0x0A] ++ []))) :=
    .token blank_bracketComment (Bytes.ends_cons (by decide)) (.done (.space (by decide) .nil))
  have hlayout : Layout [⟨"TJ", [.array [.integer 1]]⟩] _ :=
    ⟨_, ⟨[_], [], ⟨layout_commentedArray, trivial⟩, rfl, rfl⟩,
      .token .nil (Bytes.ends_cons (by decide)) hkeyword⟩
  refine (ofBytes_layout ?_).1 _ hlayout
  simp only [List.mem_singleton, forall_eq]
  refine ⟨⟨by decide, by decide +kernel, by decide +kernel, by decide⟩, by decide, ?_⟩
  simp only [List.mem_singleton, forall_eq]
  exact .array (by simpa using .integer)

end ContentStream.Operation
