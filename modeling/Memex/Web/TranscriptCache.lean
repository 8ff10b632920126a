import Mathlib.Algebra.Order.Ring.Int
import Mathlib.Data.Int.ConditionallyCompleteOrder
import Mathlib.Data.List.AList
import Mathlib.Data.String.Basic
import Mathlib.Order.Lattice.Nat
import Memex.Lib.Windows

/-! # Windows of a transcript in the browser

`session.ts`: pages of a session that were loaded are kept as windows, joined where they meet,
and the windows of the sessions opened last are kept up to a number of bytes. -/

namespace Memex.Web

/-- A string of JavaScript: its UTF-16 code units. -/
abbrev JsString := List UInt16

/-- `Message`, as far as the windows depend on it. -/
structure Message where
  recordId : String
  content : JsString
  truncated : Bool := false
  contentBytes : Nat := 0
deriving DecidableEq

/-- `SessionPayload`: a window onto one version of a session. An array may have holes. -/
structure SessionPayload where
  version : String
  offset : Nat
  total : Nat
  messages : List (Option Message)
deriving DecidableEq

/-- `SessionTarget`: a session, and the message in it that is looked for. -/
structure SessionTarget where
  id : String
  sourcePath : Option String := none
  sessionSource : Option String := none
  recordId : Option String := none

/-- What `sessionKey` turns into one string. -/
abbrev SessionKey := String × String × String

def sessionKey (target : SessionTarget) : SessionKey :=
  (target.sessionSource.getD "", target.id, target.sourcePath.getD "")

/-- `CachedSession`; `storedAt` is its field `at`. -/
structure CachedSession where
  windows : List SessionPayload
  storedAt : Nat
  bytes : Nat

def maxCacheBytes : Nat := 16 * 1024 * 1024

def cacheLifetime : Nat := 30000

/-- The end of a window: `offset + messages.length`. -/
def SessionPayload.stop (window : SessionPayload) : Nat :=
  window.offset + window.messages.length

section RetainWindows

/-- `messages[at] = message`; an assignment past the end leaves holes. -/
def assignAt (messages : List (Option Message)) (index : Nat) (message : Message) :
    List (Option Message) :=
  if index < messages.length then messages.set index (some message)
  else messages ++ List.replicate (index - messages.length) none ++ [some message]

/-- The body of the loop over the messages of a window that is merged. -/
def mergeMessage (messages : List (Option Message)) (index : Nat) (message : Message) :
    List (Option Message) :=
  match messages[index]? with
  | some (some existing) =>
    if existing.content.length ≤ message.content.length then assignAt messages index message
    else messages
  | _ => assignAt messages index message

/-- `window.messages.forEach(…)`, which passes over holes. -/
def mergeMessages (messages : List (Option Message)) (index : Nat) :
    List (Option Message) → List (Option Message)
  | [] => messages
  | none :: rest => mergeMessages messages (index + 1) rest
  | some message :: rest => mergeMessages (mergeMessage messages index message) (index + 1) rest

/-- The body of the loop over the sorted windows. -/
def retainWindow (merged : List SessionPayload) (window : SessionPayload) :
    List SessionPayload :=
  match merged.getLast? with
  | none => merged ++ [window]
  | some previous =>
    if previous.stop < window.offset then merged ++ [window]
    else merged.dropLast ++ [{ previous with
      messages :=
        mergeMessages previous.messages (window.offset - previous.offset) window.messages }]

/-- The windows of the incoming version, with the incoming one, in the order of their offsets. -/
def sortedWindows (windows : List SessionPayload) (incoming : SessionPayload) :
    List SessionPayload :=
  (windows.filter (fun window => window.version == incoming.version) ++ [incoming]).insertionSort
    fun left right => left.offset ≤ right.offset

def retainWindows (windows : List SessionPayload) (incoming : SessionPayload) :
    List SessionPayload :=
  (sortedWindows windows incoming).foldl retainWindow []

end RetainWindows

/-- The cache, a `Map` that lists its keys in the order of their insertion; the entry that was
inserted last comes first here. -/
abbrev SessionCache := AList fun _ : SessionKey => CachedSession

/-- What happens to the entries of the cache. -/
inductive CacheEvent where
  | published (key : SessionKey) (data : SessionPayload)
  | evicted (key : SessionKey)

/-- The cache and the window that is shown, with what happened so far. -/
structure TranscriptCache where
  cache : SessionCache := ∅
  shown : Option SessionPayload := none
  trace : List CacheEvent := []

section Publish

/-- The bytes that a window counts for. -/
def windowBytes (window : SessionPayload) : Nat :=
  window.messages.foldl (fun bytes message =>
    match message with
    | some message => bytes + (message.content.length * 2 + 256)
    | none => bytes) 1024

/-- The keys that the loop over the entries deletes, the oldest first. -/
def evictions : Nat → List (Σ _ : SessionKey, CachedSession) → List SessionKey
  | _, [] => []
  | total, entry :: rest =>
    if total ≤ maxCacheBytes then [] else entry.1 :: evictions (total - entry.2.bytes) rest

/-- The windows that are kept of a session. -/
def windowsOf (cache : SessionCache) (key : SessionKey) : List SessionPayload :=
  ((cache.lookup key).map CachedSession.windows).getD []

/-- The first window that contains a published one. -/
def selectWindow (windows : List SessionPayload) (data : SessionPayload) : SessionPayload :=
  (windows.find? fun window => window.offset ≤ data.offset && data.stop ≤ window.stop).getD data

/-- `cache.delete(key); cache.set(key, …)`. -/
def storeWindows (cache : SessionCache) (key : SessionKey) (windows : List SessionPayload)
    (now : Nat) : SessionCache :=
  cache.insert key { windows, storedAt := now, bytes := (windows.map windowBytes).sum }

/-- The keys that are evicted from a cache of too many bytes. -/
def overflow (cache : SessionCache) : List SessionKey :=
  evictions (cache.entries.map fun entry => entry.2.bytes).sum cache.entries.reverse

def publish (state : TranscriptCache) (key : SessionKey) (data : SessionPayload) (now : Nat) :
    TranscriptCache :=
  let windows := retainWindows (windowsOf state.cache key) data
  let stored := storeWindows state.cache key windows now
  { cache := (overflow stored).foldl (fun cache key => cache.erase key) stored
    shown := some (selectWindow windows data)
    trace := state.trace ++ .published key data :: (overflow stored).map .evicted }

end Publish

section Hook

/-- The cached window that a target is shown from. -/
def cachedWindow (target : SessionTarget) (entry : CachedSession) : Option SessionPayload :=
  entry.windows.find? fun window =>
    match target.recordId with
    | some recordId => window.messages.any fun message =>
        message.any fun message => message.recordId == recordId
    | none => window.stop == window.total

/-- What the effect does for a target before it asks for anything: a cached window is shown,
and a fresh entry moves to the end of the map. -/
def activate (state : TranscriptCache) (target : SessionTarget) (now : Nat) : TranscriptCache :=
  match state.cache.lookup (sessionKey target) with
  | none => { state with shown := none }
  | some entry =>
    match cachedWindow target entry with
    | none => { state with shown := none }
    | some window =>
      { state with
        shown := some window
        cache := if now - entry.storedAt < cacheLifetime
          then state.cache.insert (sessionKey target) entry else state.cache }

/-- `refresh`: `cache.set(cacheKey, { ...cached, at: 0 })`, in place. -/
def refresh (state : TranscriptCache) (target : SessionTarget) : TranscriptCache :=
  { state with
    cache :=
      ⟨state.cache.entries.map (Sigma.map id fun key entry =>
        if key = sessionKey target then { entry with storedAt := 0 } else entry), by
        have h : (state.cache.entries.map (Sigma.map id fun key entry =>
            if key = sessionKey target then { entry with storedAt := 0 } else entry)).keys =
            state.cache.entries.keys := by
          simp [List.keys, Function.comp_def, Sigma.map]
        rw [List.NodupKeys, h]
        exact state.cache.nodupKeys⟩ }

/-- What is done with the cache. -/
inductive CacheOp where
  | publish (key : SessionKey) (data : SessionPayload) (now : Nat)
  | activate (target : SessionTarget) (now : Nat)
  | refresh (target : SessionTarget)

def CacheOp.apply (state : TranscriptCache) : CacheOp → TranscriptCache
  | publish key data now => Web.publish state key data now
  | activate target now => Web.activate state target now
  | refresh target => Web.refresh state target

/-- Any sequence of operations on an empty cache. -/
def runCache (ops : List CacheOp) : TranscriptCache :=
  ops.foldl CacheOp.apply {}

end Hook

section Loads

inductive PageDirection where
  | earlier
  | later
deriving DecidableEq

/-- `loadPage`, from the window shown and the reply to what it is published as. -/
def loadPage (before : SessionPayload) (direction : PageDirection) (page : SessionPayload) :
    Except String SessionPayload :=
  if page.version ≠ before.version then .error "session changed"
  else if page.messages = [] then
    .error "No further messages returned. Refresh transcript to reconcile."
  else
    match direction with
    | .earlier =>
      if page.stop = before.offset then
        .ok { before with
          offset := min page.offset before.offset, messages := page.messages ++ before.messages }
      else .error "Transcript page was not contiguous. Refresh transcript to reconcile."
    | .later =>
      if page.offset = before.stop then
        .ok { before with
          offset := min page.offset before.offset, messages := before.messages ++ page.messages }
      else .error "Transcript page was not contiguous. Refresh transcript to reconcile."

/-- `new TextEncoder().encode(content).length`: a unit pair of surrogates is one scalar value,
a lone surrogate is replaced by U+FFFD. -/
def encodedLength : JsString → Nat
  | [] => 0
  | [unit] => if unit < 0x80 then 1 else if unit < 0x800 then 2 else 3
  | unit :: next :: rest =>
    if unit < 0x80 then 1 + encodedLength (next :: rest)
    else if unit < 0x800 then 2 + encodedLength (next :: rest)
    else if 0xD800 ≤ unit ∧ unit < 0xDC00 ∧ 0xDC00 ≤ next ∧ next < 0xE000 then
      4 + encodedLength rest
    else 3 + encodedLength (next :: rest)

/-- The reply of `/api/session/content`. -/
structure ContentPayload where
  version : String
  recordId : String
  offset : Nat
  content : JsString
  truncated : Bool
  contentBytes : Nat

/-- A message of the wanted record with the content that follows. -/
def expandMessage (recordId : String) (data : ContentPayload) (message : Message) : Message :=
  if message.recordId = recordId then
    { message with
      content := message.content ++ data.content
      truncated := data.truncated
      contentBytes := data.contentBytes }
  else message

/-- The first message of a record in a window. -/
def findMessage (window : SessionPayload) (recordId : String) : Option Message :=
  (window.messages.find? fun message =>
    message.any fun message => message.recordId == recordId).join

/-- `loadContent`, from the window shown and the reply to what it is published as, if there is
a message to expand. -/
def loadContent (before : SessionPayload) (recordId : String) (data : ContentPayload) :
    Option (Except String SessionPayload) :=
  match findMessage before recordId with
  | none => none
  | some message =>
    if data.version ≠ before.version then some (.error "session changed")
    else if data.recordId ≠ recordId ∨ data.offset ≠ encodedLength message.content ∨
        data.content = [] then
      some (.error "No further message content returned.")
    else
      some (.ok { before with
        messages := before.messages.map (Option.map (expandMessage recordId data)) })

end Loads

end Memex.Web
