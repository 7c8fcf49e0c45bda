import IntervalIndex.Document.Answers
import IntervalIndex.Files.Directory
import IntervalIndex.Text.Quoted

namespace IntervalIndex.Command

open Files Records

inductive Failure where
  | cannotOpen (path : String) (why : OpenError)
  | cannotParse (path : String) (why : FileError)
  | cannotArrange (path : String) (why : Stop .i64)
  | cannotLoadConfig (path : String)
  | invalidRelation (name : String)
  | cannotAnswer (why : QueryError)
  | fault (why : Fault)
deriving DecidableEq, Repr

def fileErrorChain : FileError → List String
  | .line number (.invalidSpan why) => [(LineError.invalidSpan why).message number, why.message]
  | e => [e.message]

def Failure.chain : Failure → List String
  | cannotOpen path why => ["Failed to open file: " ++ Text.Quoted.quote path, why.message]
  | cannotParse path why => ("Failed to parse interval file: " ++ path) :: fileErrorChain why
  | cannotArrange path why => ["Failed to index " ++ path, why.message]
  | cannotLoadConfig path => ["Failed to load config " ++ path]
  | invalidRelation name => [Relation.invalidNameMessage name]
  | cannotAnswer why => [why.message]
  | fault why => [why.message]

def Failure.message (f : Failure) : String := f.chain.headD ""

end IntervalIndex.Command
