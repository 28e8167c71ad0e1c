import ContentStream.Document.Object
import ContentStream.Number.Layout
import ContentStream.Text.Quoted

/-!
# What can go wrong

Every failure is one cause out of a fixed set, and carries what its message
mentions.  The wording is in the `message` functions alone; nothing else in the
library compares or takes apart a text of this module.
-/

namespace ContentStream

inductive Expectation where
  | number
  | integer
  | name
  | string
  | array
  | dictionary
  | nameOrInteger
  | dictionaryOrName
  deriving DecidableEq, Repr

def Expectation.description : Expectation → String
  | .number => "a number"
  | .integer => "an integer"
  | .name => "a name"
  | .string => "a string"
  | .array => "an array"
  | .dictionary => "a dictionary"
  | .nameOrInteger => "a name or integer"
  | .dictionaryOrName => "a dictionary or a name"

inductive OperandFault where
  | missing (index : Nat)
  | mistyped (index : Nat) (expected : Expectation) (found : Operand.Kind)
  | notNumeric (found : Operand.Kind)
  | dashEntry (found : Operand.Kind)
  | shownEntry (found : Operand.Kind)
  | unknownLineCap (value : Int64)
  | unknownLineJoin (value : Int64)
  | unknownTextMode (value : Int64)
  | patternMissing
  | patternMistyped (found : Operand.Kind)
  | componentCount (expected found : Nat)
  deriving DecidableEq

def OperandFault.message : OperandFault → String
  | .missing index => s!"missing operand {index + 1}"
  | .mistyped index expected found =>
    s!"operand {index + 1} must be {expected.description}, got {found.label}"
  | .notNumeric found => s!"expected a number, got {found.label}"
  | .dashEntry found => s!"dash array entries must be numbers, got {found.label}"
  | .shownEntry found => s!"array entries must be strings or numbers, got {found.label}"
  | .unknownLineCap value => s!"unknown line cap style {value.toInt}"
  | .unknownLineJoin value => s!"unknown line join style {value.toInt}"
  | .unknownTextMode value => s!"unknown text rendering mode {value.toInt}"
  | .patternMissing => "expected a pattern name"
  | .patternMistyped found => s!"expected a pattern name, got {found.label}"
  | .componentCount expected found =>
    s!"expected {expected} color components, got {found}"

inductive ParameterForm where
  | number
  | boolean
  | lineCap
  | lineJoin
  | dash
  | intent
  | blendMode
  | font
  deriving DecidableEq, Repr

def ParameterForm.description : ParameterForm → String
  | .number => "a number"
  | .boolean => "a boolean"
  | .lineCap => "a line cap style"
  | .lineJoin => "a line join style"
  | .dash => "[dash-array phase]"
  | .intent => "a name or integer"
  | .blendMode => "a name or array of names"
  | .font => "[font size]"

inductive ResourceFault where
  | categoryMistyped (found : Operand.Kind)
  | entryMistyped (found : Operand.Kind)
  | unsupportedColorSpace
  | parameter (key : String) (form : ParameterForm)
  deriving DecidableEq

def ResourceFault.message : ResourceFault → String
  | .categoryMistyped found => s!"category is a {found.label}, expected a dictionary"
  | .entryMistyped found => s!"expected a dictionary, got {found.label}"
  | .unsupportedColorSpace => "unsupported color space"
  | .parameter key form => s!"/{key} must be {form.description}"

inductive Container where
  | array
  | dictionary
  | imageDictionary
  deriving DecidableEq, Repr

def Container.label : Container → String
  | .array => "array"
  | .dictionary => "dictionary"
  | .imageDictionary => "inline image dictionary"

def nestingLimit : Nat := 64

inductive StreamFault where
  | unexpected (byte : UInt8)
  | nesting
  | keywordInside (word : String) (container : Container)
  | unterminated (container : Container)
  | keyExpected (container : Container)
  | unterminatedLiteral
  | unterminatedEscape
  | unterminatedHex
  | hexDigit (byte : UInt8)
  | nameEncoding
  | number (text : String)
  | imageDataMissing
  | imageEndMissing
  deriving DecidableEq

def StreamFault.message : StreamFault → String
  | .unexpected byte => s!"unexpected '{Bytes.toLatin1 [byte]}'"
  | .nesting => s!"nesting deeper than {nestingLimit} levels"
  | .keywordInside word container => s!"unexpected keyword '{word}' in {container.label}"
  | .unterminated container => s!"unterminated {container.label}"
  | .keyExpected container => s!"expected name key in {container.label}"
  | .unterminatedLiteral => "unterminated literal string"
  | .unterminatedEscape => "unterminated escape in literal string"
  | .unterminatedHex => "unterminated hex string"
  | .hexDigit byte => "invalid hex digit " ++ Text.quote '\'' (Bytes.toLatin1 [byte])
  | .nameEncoding => "name is not valid UTF-8"
  | .number text => s!"invalid number '{text}'"
  | .imageDataMissing => "unterminated inline image (missing ID)"
  | .imageEndMissing => "unterminated inline image (missing EI)"

inductive WritingFault where
  | notFinite (value : Float)
  | refused (reason : String)
  deriving DecidableEq

def WritingFault.message : WritingFault → String
  | .notFinite value => s!"real number {Number.plain.text value} has no content stream form"
  | .refused reason => reason

inductive DocumentFault where
  | header
  | encrypted
  | pageOutOfRange (index count : Nat)
  | mistyped (expected found : String)
  | parentCycle (id : ObjectId)
  | resourcesMistyped
  | groupInterrupted
  | groupOverflow
  | refused (reason : String)
  deriving DecidableEq

def DocumentFault.message : DocumentFault → String
  | .header => "couldn't parse input: invalid file header"
  | .encrypted => "encrypted documents are not supported"
  | .pageOutOfRange index count => s!"page index {index} out of range (0..{count})"
  | .mistyped expected found =>
    s!"object has wrong type; expected type {expected} but found type {found}"
  | .parentCycle id => s!"cyclic /Parent chain at object {id.number} {id.generation}"
  | .resourcesMistyped => "/Resources is not a dictionary"
  | .groupInterrupted =>
    "couldn't decompress stream decoding ASCII85 failed: " ++
      "z character is not allowed in the middle of a group"
  | .groupOverflow =>
    "couldn't decompress stream decoding ASCII85 failed: multiplication overflow"
  | .refused reason => reason

inductive Error where
  | missingResource (category name : String)
  | malformedResource (category name : String) (fault : ResourceFault)
  | invalidOperand (operator : String) (fault : OperandFault)
  | malformedStream (offset : Nat) (fault : StreamFault)
  | unwritable (fault : WritingFault)
  | document (fault : DocumentFault)
  | endlessCall (operator : String)
  deriving DecidableEq

def Error.message : Error → String
  | .missingResource category name => s!"resource not found: /{category} /{name}"
  | .malformedResource category name fault =>
    s!"malformed resource /{category} /{name}: {fault.message}"
  | .invalidOperand operator fault => s!"invalid operand for '{operator}': {fault.message}"
  | .malformedStream offset fault => s!"syntax error at byte {offset}: {fault.message}"
  | .unwritable fault => s!"serialize error: {fault.message}"
  | .document fault => s!"document error: {fault.message}"
  | .endlessCall operator => s!"operator '{operator}' calls itself without end"

end ContentStream
