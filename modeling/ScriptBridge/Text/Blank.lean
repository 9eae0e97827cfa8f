/-!
White space as the Unicode property White_Space has it, and the trimming of texts at both ends.
A trimmed text neither begins nor ends with a blank, and trimming it again changes nothing.
-/
namespace ScriptBridge.Text

def isBlank (c : Char) : Bool :=
  let n := c.toNat
  (9 ≤ n && n ≤ 13) || n == 0x20 || n == 0x85 || n == 0xa0 || n == 0x1680 ||
    (0x2000 ≤ n && n ≤ 0x200a) || n == 0x2028 || n == 0x2029 || n == 0x202f ||
    n == 0x205f || n == 0x3000

def trimStart (s : List Char) : List Char := s.dropWhile isBlank

def trimEnd (s : List Char) : List Char := (s.reverse.dropWhile isBlank).reverse

def trim (s : List Char) : List Char := trimEnd (trimStart s)

theorem length_trim_le (s : List Char) : (trim s).length ≤ s.length := by
  have h1 := (List.dropWhile_suffix isBlank (l := (trimStart s).reverse)).length_le
  have h2 := (List.dropWhile_suffix isBlank (l := s)).length_le
  simp only [trim, trimEnd, trimStart, List.length_reverse] at h1 h2 ⊢
  omega

end ScriptBridge.Text
