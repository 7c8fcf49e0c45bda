import IntervalIndex.Command.Run

open IntervalIndex

def readFound (path : String) : IO Files.Found := do
  try
    return .file (← IO.FS.readBinFile path).toList
  catch
    | .noFileOrDirectory .. => return .missing
    | .invalidArgument .. => return .nameTooLong
    | .inappropriateType _ code _ => return if code = 21 then .directory else .notDirectory
    | _ => return .missing

partial def readAll (input : IO.FS.Stream) (seen : ByteArray) : IO ByteArray := do
  let more ← input.read 65536
  if more.isEmpty then return seen else readAll input (seen ++ more)

def main (args : List String) : IO UInt32 := do
  let paths := match Command.readInvocation args with
    | .ok i => i.paths
    | .error _ => []
  let found ← paths.mapM fun path => return (path, ← readFound path)
  let standard ← if args.contains "-" then readAll (← IO.getStdin) .empty else pure .empty
  let look (path : String) : Files.Found := (found.lookup path).getD .missing
  let outcome := Command.run args ⟨look, standard.toList⟩
  IO.print outcome.output
  match outcome.complaint with
  | some complaint => IO.eprintln complaint
  | none => pure ()
  return outcome.exitCode.toUInt32
