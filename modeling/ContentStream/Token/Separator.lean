import ContentStream.Token.Taken

/-!
# Separators

White space and comments may stand between any two tokens.  A comment runs from a
percent sign up to the end of its line.
-/

namespace ContentStream.Separator

def skipFrom : (inComment : Bool) → Bytes → Bytes
  | _, [] => []
  | true, byte :: rest =>
    if Byte.isLineEnd byte then skipFrom false rest else skipFrom true rest
  | false, byte :: rest =>
    if Byte.isWhiteSpace byte then skipFrom false rest
    else if byte = 0x25 then skipFrom true rest
    else byte :: rest

def skip (input : Bytes) : Bytes :=
  skipFrom false input

theorem length_skipFrom_le (inComment : Bool) (input : Bytes) :
    (skipFrom inComment input).length ≤ input.length := by
  induction input generalizing inComment with
  | nil => simp [skipFrom]
  | cons byte rest ih =>
    have h := ih true
    have h' := ih false
    cases inComment <;> simp only [skipFrom, List.length_cons] <;> split
    · omega
    · split
      · omega
      · simp
    · omega
    · omega

theorem length_skip_le (input : Bytes) : (skip input).length ≤ input.length :=
  length_skipFrom_le false input

end ContentStream.Separator
