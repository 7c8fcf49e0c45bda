import IntervalIndex.Text.Split

namespace IntervalIndex.Files

def parts (path : String) : List (List Char) :=
  let (first, others) := Text.splitOn '/' path.toList
  first :: others

/-- The last part of a path, slashes and single dots at its end left aside. -/
def fileName? (path : String) : Option (List Char) :=
  match ((parts path).filter fun part => part != [] && part != ['.']).getLast? with
  | some ['.', '.'] => none
  | name => name

/-- What follows the last dot of the file's name. A dot in front of the whole name does not count. -/
def extension? (path : String) : Option String := do
  let name ← fileName? path
  match name.reverse.span (· != '.') with
  | (after, _ :: _ :: _) => some (String.ofList after.reverse)
  | _ => none

end IntervalIndex.Files
