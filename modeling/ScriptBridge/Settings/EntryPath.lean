/-!
Paths of entry scripts. A path keeps its text, and two texts name the same path if they have the
same components: repeated and trailing separators do not count, nor does a single point that is
not in front.
-/
namespace ScriptBridge

structure EntryPath where
  text : String
  deriving DecidableEq

namespace EntryPath

inductive Component where
  | root
  | current
  | parent
  | named (name : List Char)
  deriving DecidableEq

def segments : List Char → List (List Char)
  | [] => [[]]
  | c :: cs =>
    if c = '/' then [] :: segments cs
    else
      match segments cs with
      | [] => [[c]]
      | s :: rest => (c :: s) :: rest

def component? (segment : List Char) : Option Component :=
  if segment = [] ∨ segment = ['.'] then none
  else if segment = ['.', '.'] then some .parent
  else some (.named segment)

def front (path : List Char) : List Component :=
  match path, segments path with
  | '/' :: _, _ => [.root]
  | _, ['.'] :: _ => [.current]
  | _, _ => []

def components (p : EntryPath) : List Component :=
  front p.text.toList ++ (segments p.text.toList).filterMap component?

def same (p q : EntryPath) : Bool := p.components == q.components

end EntryPath

end ScriptBridge
