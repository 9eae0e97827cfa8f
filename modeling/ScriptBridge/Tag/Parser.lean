import ScriptBridge.Tag.Basic
import ScriptBridge.Text.Blank

/-!
Reading of tags from texts. Blanks are dropped at both ends, a pair of square brackets is an array
layer around what is read inside it, and what remains is the name of a struct or a keyword.
-/
namespace ScriptBridge.Tag

open ScriptBridge.Text

def unbracket? : List Char → Option (List Char)
  | '[' :: rest => if rest.getLast? = some ']' then some rest.dropLast else none
  | _ => none

theorem length_lt_of_unbracket? {s u : List Char} (h : unbracket? s = some u) :
    u.length < s.length := by
  unfold unbracket? at h
  split at h
  · split at h
    · cases h
      simp only [List.length_cons, List.length_dropLast]
      omega
    · cases h
  · cases h

def keywords : List (String × Tag) := [
  ("i8", .scalar (.int true .w8)), ("i16", .scalar (.int true .w16)),
  ("i32", .scalar (.int true .w32)), ("i64", .scalar (.int true .w64)),
  ("u8", .scalar (.int false .w8)), ("u16", .scalar (.int false .w16)),
  ("u32", .scalar (.int false .w32)), ("u64", .scalar (.int false .w64)),
  ("f32", .scalar (.float .single)), ("f64", .scalar (.float .double)),
  ("text", .scalar .text), ("str", .scalar .text), ("string", .scalar .text),
  ("bool", .bool), ("ptr", .pointer), ("pointer", .pointer), ("void", .void)]

def keyword? (s : List Char) : Option Tag := keywords.lookup (String.ofList s)

def structName? (s : List Char) : Option (List Char) :=
  if structIntro.isPrefixOf s then some (trim (s.drop structIntro.length)) else none

def atom? (s : List Char) : Option Tag :=
  match structName? s with
  | some [] => none
  | some name => some (.struct (String.ofList name))
  | none => keyword? s

def peel (s : List Char) : Nat × List Char :=
  match _h : unbracket? (trim s) with
  | some u => let (n, r) := peel u; (n + 1, r)
  | none => (0, trim s)
termination_by s.length
decreasing_by
  have h1 := length_lt_of_unbracket? _h
  have h2 := length_trim_le s
  omega

structure ParseError where
  input : String
  deriving DecidableEq

def ParseError.message (e : ParseError) : String := "unknown type tag `" ++ e.input ++ "`"

def parse (s : String) : Except ParseError Tag :=
  let (n, r) := peel s.toList
  match atom? r with
  | some t => .ok (layers n t)
  | none => .error ⟨String.ofList r⟩

end ScriptBridge.Tag
