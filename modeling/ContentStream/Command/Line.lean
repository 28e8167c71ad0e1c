/-!
# The command line

Three commands, each with a file to work on.  Options may stand before and after the
file, and their values behind an equals sign or as the next word.  After two hyphens
every word is a file.  How much is logged can be told before the command and behind
it; what is told behind it counts.
-/

namespace ContentStream

inductive OutputFormat where
  | text
  | json
  deriving DecidableEq, Repr

inductive Command where
  | format (file : String)
  | state (file : String) (output : OutputFormat)
  | page (file : String) (pages : Option String) (output : OutputFormat)
  deriving DecidableEq, Repr

namespace Command

inductive Request where
  | run (verbosity : Nat) (command : Command)
  | help
  | version
  | unusable
  deriving DecidableEq, Repr

inductive Verb where
  | format
  | state
  | page
  deriving DecidableEq, Repr

def Verb.ofName? (name : String) : Option Verb :=
  if name = "format" then some .format
  else if name = "state" then some .state
  else if name = "page" then some .page
  else none

def formatOfName? (name : String) : Option OutputFormat :=
  if name = "text" then some .text else if name = "json" then some .json else none

structure Draft where
  verb : Verb
  verbosity : Nat := 0
  file : Option String := none
  output : Option OutputFormat := none
  pages : Option String := none

namespace Draft

def withFile? (draft : Draft) (word : String) : Option Draft :=
  if draft.file.isNone && !word.isEmpty then some { draft with file := some word } else none

def withOption? (draft : Draft) (name value : String) : Option Draft :=
  if name = "format" && draft.verb ≠ .format && draft.output.isNone then
    (formatOfName? value).map fun output => { draft with output := some output }
  else if name = "pages" && draft.verb = .page && draft.pages.isNone then
    some { draft with pages := some value }
  else
    none

/-- The request of a complete command line; `before` was told before the command. -/
def request (draft : Draft) (before : Nat) : Request :=
  match draft.file with
  | none => .unusable
  | some file =>
    let verbosity := if draft.verbosity = 0 then before else draft.verbosity
    let output := draft.output.getD .text
    match draft.verb with
    | .format => .run verbosity (.format file)
    | .state => .run verbosity (.state file output)
    | .page => .run verbosity (.page file draft.pages output)

end Draft

inductive Word where
  | stop
  | long (name : String) (value : Option String)
  | short (flags : List Char)
  | plain (word : String)

def Word.ofString (word : String) : Word :=
  match word.toList with
  | ['-', '-'] => .stop
  | '-' :: '-' :: rest =>
    let name := String.ofList (rest.takeWhile (· ≠ '='))
    match rest.dropWhile (· ≠ '=') with
    | [] => .long name none
    | _ :: value => .long name (some (String.ofList value))
  | '-' :: first :: rest => .short (first :: rest)
  | _ => .plain word

def value? : List String → Option (String × List String)
  | [] => none
  | word :: words =>
    match Word.ofString word with
    | .plain _ => some (word, words)
    | _ => none

def readFlags (versioned : Bool) : (flags : List Char) → Except Request Nat
  | [] => .ok 0
  | flag :: flags =>
    if flag = 'v' then (readFlags versioned flags).map (· + 1)
    else if flag = 'h' then .error .help
    else if flag = 'V' && versioned then .error .version
    else .error .unusable

def readFileWords (before : Nat) (draft : Draft) : List String → Request
  | [] => draft.request before
  | word :: words =>
    match draft.withFile? word with
    | some next => readFileWords before next words
    | none => .unusable

theorem length_value?_lt {words rest : List String} {value : String}
    (h : value? words = some (value, rest)) : rest.length < words.length := by
  cases words with
  | nil => simp [value?] at h
  | cons word words =>
    simp only [value?] at h
    split at h
    · simp only [Option.some.injEq, Prod.mk.injEq] at h
      simp [← h.2]
    · simp at h

def readRest (before : Nat) (draft : Draft) (words : List String) : Request :=
  match words with
  | [] => draft.request before
  | word :: words =>
    match Word.ofString word with
    | .stop => readFileWords before draft words
    | .plain word =>
      match draft.withFile? word with
      | some next => readRest before next words
      | none => .unusable
    | .short flags =>
      match readFlags false flags with
      | .ok count => readRest before { draft with verbosity := draft.verbosity + count } words
      | .error request => request
    | .long name (some value) =>
      match draft.withOption? name value with
      | some next => readRest before next words
      | none => .unusable
    | .long name none =>
      if name = "verbose" then readRest before { draft with verbosity := draft.verbosity + 1 } words
      else if name = "help" then .help
      else
        match h : value? words with
        | some (value, rest) =>
          have := length_value?_lt h
          match draft.withOption? name value with
          | some next => readRest before next rest
          | none => .unusable
        | none => .unusable
termination_by words.length

def helpOn : List String → Request
  | [] => .help
  | [topic] => if topic = "help" || (Verb.ofName? topic).isSome then .help else .unusable
  | _ => .unusable

def readFrom (verbosity : Nat) : List String → Request
  | [] => .unusable
  | word :: words =>
    match Word.ofString word with
    | .plain word =>
      match Verb.ofName? word with
      | some verb => readRest verbosity { verb := verb } words
      | none => if word = "help" then helpOn words else .unusable
    | .short flags =>
      match readFlags true flags with
      | .ok count => readFrom (verbosity + count) words
      | .error request => request
    | .long name none =>
      if name = "verbose" then readFrom (verbosity + 1) words
      else if name = "help" then .help
      else if name = "version" then .version
      else .unusable
    | _ => .unusable

def Request.ofWords (words : List String) : Request :=
  readFrom 0 words

end Command

end ContentStream
