import ContentStream.Operator

/-!
# Objects, marked content and compatibility sections

Shadings, external objects and inline images are checked and not painted.  Marked
content is a stack of open sequences; compatibility sections are counted.
-/

namespace ContentStream.Operator

def named (name : String) : Operator :=
  checking name .generic fun args => (args.name 0).map fun _ => ()

def inlineImage : Operator :=
  checking "BI" .inlineImage fun args => do
    let _ ← args.dictionary 0
    let _ ← args.string 1
    return ()

def identifierArgument (args : Arguments) : Except Error (Option Int64) :=
  args.get 1 .dictionaryOrName fun value =>
    match value with
    | .dictionary entries => some ((Dictionary.get? entries "MCID").bind Operand.integer?)
    | .name _ => some none
    | _ => none

def markedPointWithProperties : Operator :=
  checking "DP" .generic fun args => do
    let _ ← args.name 0
    let _ ← identifierArgument args
    return ()

def openSequence (state : PageState) (tag : String) (identifier : Option Int64) : PageState :=
  { state with markedContent := ⟨tag, identifier⟩ :: state.markedContent }

def beginMarkedContent : Operator :=
  updating "BMC" .generic fun _ state args =>
    (args.name 0).map fun tag => openSequence state tag none

def beginMarkedContentWithProperties : Operator :=
  updating "BDC" .generic fun _ state args => do
    let tag ← args.name 0
    let identifier ← identifierArgument args
    return openSequence state tag identifier

def endMarkedContent : Operator :=
  acting "EMC" fun state =>
    match state.markedContent with
    | [] => (state, [.noMarkedContent])
    | _ :: outer => ({ state with markedContent := outer }, [])

def beginCompatibility : Operator :=
  acting "BX" fun state =>
    ({ state with compatibilityDepth := state.compatibilityDepth + 1 }, [])

def endCompatibility : Operator :=
  acting "EX" fun state =>
    ({ state with compatibilityDepth := state.compatibilityDepth - 1 }, [])

def marking : List Operator :=
  [named "sh", named "Do", inlineImage, named "MP", markedPointWithProperties,
    beginMarkedContent, beginMarkedContentWithProperties, endMarkedContent,
    beginCompatibility, endCompatibility]

end ContentStream.Operator
