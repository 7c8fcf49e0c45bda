namespace IntervalIndex.Text

def splitOn (separator : Char) : List Char → List Char × List (List Char)
  | [] => ([], [])
  | c :: cs =>
    let (first, others) := splitOn separator cs
    if c = separator then ([], first :: others) else (c :: first, others)

end IntervalIndex.Text
