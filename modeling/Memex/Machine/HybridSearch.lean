import Memex.Lib.HashTable
import Memex.Machine.Federation

/-! # Hybrid search

`search_local` in its hybrid mode: the ranks of a lexical and of a semantic list are added up
for each document, in a hash map whose entries come out in any order. -/

namespace Memex.Machine

/-- `SessionScopeKey`. -/
structure SessionScopeKey where
  source : SourceKind
  sessionId : String
  sourcePath : String
  deriving DecidableEq, Repr

/-- `QueryOptions`, without the query text; a source filter matches the kind of its name. -/
structure QueryOptions where
  project : Option String := none
  role : Option String := none
  tool : Option String := none
  sessionId : Option String := none
  sessionScope : Option (List SessionScopeKey) := none
  source : Option SourceKind := none
  since : Option Nat := none
  upTo : Option Nat := none
  deriving DecidableEq, Repr

def matchesFilters (record : Record) (options : QueryOptions) : Bool :=
  options.project.all (fun project => record.project = project) &&
    options.role.all (fun role => record.role = role) &&
    options.tool.all (fun tool => record.toolName = some tool) &&
    options.sessionId.all (fun session => record.sessionId = session) &&
    options.sessionScope.all (fun scope => scope.any fun key =>
      key.source = record.source && key.sessionId = record.sessionId &&
        key.sourcePath = record.sourcePath) &&
    options.source.all (fun source => record.source = source) &&
    options.since.all (fun since => since ≤ record.ts) &&
    options.upTo.all (fun upTo => record.ts ≤ upTo)

section Hybrid

variable {Score : Type} [LinearOrder Score]

/-- The two hash maps: the score and the record of each document. -/
structure Fusion (Score : Type) where
  scores : List (Nat × Score) := []
  records : HashTable Nat Record := .empty

/-- `entry(..).or_default()` and the addition. Every document has one entry. -/
def addScore (ops : ScoreOps Score) (docId : Nat) (amount : Score) :
    List (Nat × Score) → List (Nat × Score)
  | [] => [(docId, ops.add ops.zero amount)]
  | (other, score) :: rest =>
      if other = docId then (other, ops.add score amount) :: rest
      else (other, score) :: addScore ops docId amount rest

/-- A lexical hit of some rank. -/
def Fusion.lexical (ops : ScoreOps Score) (options : QueryOptions) (fusion : Fusion Score)
    (hit : Record × Nat) : Fusion Score :=
  if matchesFilters hit.1 options then
    { scores := addScore ops hit.1.docId (ops.reciprocalRank hit.2) fusion.scores
      records := fusion.records.insert hit.1.docId hit.1 }
  else fusion

/-- A semantic hit of some rank; a record that is known is kept. -/
def Fusion.semantic (ops : ScoreOps Score) (fusion : Fusion Score) (hit : Record × Nat) :
    Fusion Score :=
  { scores := addScore ops hit.1.docId (ops.reciprocalRank hit.2) fusion.scores
    records :=
      match fusion.records.get hit.1.docId with
      | some _ => fusion.records
      | none => fusion.records.insert hit.1.docId hit.1 }

/-- The hash maps after both lists. -/
def fuse (ops : ScoreOps Score) (options : QueryOptions) (lexical semantic : List Record) :
    Fusion Score :=
  semantic.zipIdx.foldl (Fusion.semantic ops)
    (lexical.zipIdx.foldl (Fusion.lexical ops options) {})

/-- What is left of an entry of the scores: its record with the final score, if that passes
the filters and the least score. -/
def scoredRecord (ops : ScoreOps Score) (options : QueryOptions) (minScore : Option Score)
    (records : HashTable Nat Record) (entry : Nat × Score) : Option (Score × Record) :=
  ((records.get entry.1).map fun record => (ops.applyRecency entry.2 record.ts, record)).filter
    fun result => matchesFilters result.2 options && minScore.all fun least => least ≤ result.1

/-- What the results are sorted by. -/
def resultKey (result : Score × Record) : Score × Nat :=
  (result.1, result.2.ts)

/-- `search_local` from the two lists on. `order` enumerates the entries of the scores, and
`regroup` gives each record the project of its group. -/
def hybridSearch (ops : ScoreOps Score) (options : QueryOptions) (minScore : Option Score)
    (limit : Nat) (regroup : Record → String) (records : HashTable Nat Record)
    (order : List (Nat × Score)) : List (Score × Record) :=
  (((order.filterMap (scoredRecord ops options minScore records)).insertionSort
    fun left right => byScore (resultKey left) (resultKey right)).take limit).map
      fun (score, record) => (score, { record with project := regroup record })

end Hybrid

end Memex.Machine
