import Memex.Sources.Json

/-! # Usage events

`usage.rs`: what a provider's log says was spent. -/

namespace Memex.Usage

open Sources

/-- `saturating_add` on 64 bits. -/
def saturatingAdd (left right : Nat) : Nat :=
  min (left + right) (2 ^ 64 - 1)

structure TokenBuckets where
  rawInput : Nat
  uncachedInput : Nat
  cacheRead : Nat
  cacheWrite : Nat
  cacheWrite1h : Nat := 0
  output : Nat
  reasoning : Nat := 0
  deriving DecidableEq, Repr

namespace TokenBuckets

def additiveTotal (tokens : TokenBuckets) : Nat :=
  saturatingAdd (saturatingAdd (saturatingAdd tokens.uncachedInput tokens.cacheRead)
    tokens.cacheWrite) tokens.output

def disjoint (input cacheRead cacheWrite output : Nat) : TokenBuckets :=
  { rawInput := input, uncachedInput := input, cacheRead, cacheWrite, output }

end TokenBuckets

/-- An event with all its fields, as it is kept and reported. Its path, its other texts and its cost
are of types of their own; where nothing else is said, the cost is the bits of a number. -/
structure UsageEventData (S P : Type) (C : Type := UInt64) where
  source : String
  sourcePath : P
  sourceRecordId : Option S
  sessionId : Option S
  requestId : Option S
  messageId : Option S
  timestampMs : Nat
  project : Option S
  provider : Option S
  model : Option S
  tokens : TokenBuckets
  sourceCostUsd : Option C
  costAuthoritative : Bool
  dedupeConfidence : String
  conservativeUndercount : Bool
  cacheChainExcluded : Bool
  sidechain : Bool
  permissionReview : Bool
  sourceOrder : Nat
  deriving DecidableEq, Repr

/-- An event as it is parsed, with its cost as the number that was written. -/
abbrev UsageEvent := UsageEventData String String JsonNumber

/-- An event with its texts. -/
abbrev UsageEventView := UsageEventData String String

end Memex.Usage
