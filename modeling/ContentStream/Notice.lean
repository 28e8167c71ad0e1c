import ContentStream.Operation

/-!
# Notices

Some things are worth telling though they are no failures: operations that ran or had
no effect, names that are no text, and data in need of repair.
-/

namespace ContentStream

inductive Notice where
  | called (operation : Operation) (builtIn : Bool)
  | unknownOperator (name : String)
  | nothingToRestore
  | noMarkedContent
  | unreadableKey (bytes : Bytes)
  | unreadableName (bytes : Bytes)
  | endMarkMissing
  | malformedDeflate
  | codesUnended
  | malformedCodes
  | passwordNeeded
  deriving DecidableEq

end ContentStream
