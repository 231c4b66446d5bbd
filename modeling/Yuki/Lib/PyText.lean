/-! Text operations of Python's `str`. -/

namespace Yuki

/-- The characters `str.strip` removes. -/
def isSpace (c : Char) : Bool :=
  let n := c.toNat
  (9 ≤ n && n ≤ 13) || (28 ≤ n && n ≤ 32) || n == 0x85 || n == 0xa0 || n == 0x1680 ||
    (0x2000 ≤ n && n ≤ 0x200a) || n == 0x2028 || n == 0x2029 || n == 0x202f || n == 0x205f ||
    n == 0x3000

/-- `str.strip`. -/
def strip (s : String) : String :=
  .ofList (((s.toList.dropWhile isSpace).reverse.dropWhile isSpace).reverse)

/-- `text.removeprefix(p)`, where the text starts with it. -/
def afterPrefix? (p text : String) : Option String :=
  if p.toList.isPrefixOf text.toList then some (.ofList (text.toList.drop p.toList.length)) else none

end Yuki
