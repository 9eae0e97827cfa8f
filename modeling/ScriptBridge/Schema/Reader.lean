import ScriptBridge.Schema.Arguments

/-!
A reader of arguments. Entries stand between commas, with a comma behind the last one or without.
Each begins with a path, and a path of more than one word is no key. Messages say so where the
tokens are at their end.
-/
namespace ScriptBridge.Schema.ArgumentList

def isComma : Token → Bool
  | .mark ',' _ => true
  | _ => false

def segments : List Token → List (List Token)
  | [] => [[]]
  | t :: ts =>
    if isComma t then [] :: segments ts
    else
      match segments ts with
      | [] => [[t]]
      | s :: ss => (t :: s) :: ss

def expected (what : String) (atEnd : Bool) (tokens : List Token) : String :=
  if atEnd && tokens.isEmpty then "unexpected end of input, expected " ++ what
  else "expected " ++ what

def firstWord (atEnd : Bool) : List Token → Except String (String × List Token)
  | .word text :: rest => .ok (text, rest)
  | [] =>
    .error <| if atEnd then "unexpected end of input, expected nested attribute"
      else "unexpected token in nested attribute, expected ident"
  | .text _ :: _ | .literal _ :: _ | .mark '-' _ :: .literal _ :: _ =>
    .error "unexpected literal in nested attribute, expected ident"
  | _ => .error "unexpected token in nested attribute, expected ident"

def otherWords (atEnd : Bool) : List Token → Except String (Bool × List Token)
  | .mark ':' true :: .mark ':' _ :: .word _ :: rest =>
    (otherWords atEnd rest).map fun (_, rest) => (true, rest)
  | .mark ':' true :: .mark ':' _ :: rest => .error (expected "ident" atEnd rest)
  | rest => .ok (false, rest)

def leadingColons : List Token → Bool × List Token
  | .mark ':' true :: .mark ':' _ :: rest => (true, rest)
  | rest => (false, rest)

/-- A path, as a key if it is one, and what stands behind it. -/
def path (atEnd : Bool) (tokens : List Token) : Except String (Option String × List Token) := do
  let (leading, rest) := leadingColons tokens
  let (text, rest) ← firstWord atEnd rest
  let (longer, rest) ← otherWords atEnd rest
  .ok (if leading || longer then none else some text, rest)

def value (atEnd : Bool) : List Token → Except String (String × List Token)
  | .mark '=' _ :: .text value :: rest => .ok (value, rest)
  | .mark '=' _ :: rest => .error (expected "string literal" atEnd rest)
  | _ => .error "expected `=`"

def surplus : List Token → Option String
  | [] => none
  | _ :: _ => some "expected `,`"

def answers (atEnd : Bool) (key? : Option String) (rest : List Token) : Entry where
  key?
  value := (value atEnd rest).map (·.1)
  afterKey := surplus rest
  afterValue :=
    match value atEnd rest with
    | .error _ => none
    | .ok (_, behind) => surplus behind

def entry (atEnd : Bool) (tokens : List Token) : Except String Entry :=
  (path atEnd tokens).map fun (key?, rest) => answers atEnd key? rest

def ofSegments : List (List Token) → ArgumentList
  | [] => ⟨[], none⟩
  | [[]] => ⟨[], none⟩
  | s :: ss =>
    match entry ss.isEmpty s with
    | .error message => ⟨[], some message⟩
    | .ok e =>
      let rest := ofSegments ss
      ⟨e :: rest.entries, rest.stop⟩

def read : ArgumentReader := fun tokens => ofSegments (segments tokens)

end ScriptBridge.Schema.ArgumentList
