import Memex.Web.TranscriptCache

/-! # What the kept windows of a transcript cover

Over any sequence of published windows the cache keeps, for every session it has not evicted,
windows that lie apart and hold what was published of the version since it last changed. -/

namespace Memex.Web

/-- A window as the positions it shows. -/
def SessionPayload.toWindow (window : SessionPayload) : Window Message :=
  ⟨window.offset, window.messages⟩

/-- What a window shows at a position of the session. -/
def SessionPayload.messageAt (window : SessionPayload) (position : Nat) : Option Message :=
  window.toWindow.cellAt position

/-- A window is a slice of a snapshot, its messages hold prefixes of the full contents. -/
structure SessionPayload.SliceOf (contents : List JsString) (window : SessionPayload) :
    Prop where
  within : window.stop ≤ contents.length
  filled : ∀ message ∈ window.messages, message.isSome
  prefixes : ∀ position message, window.messageAt position = some message →
    ∃ full, contents[position]? = some full ∧ message.content <+: full

/-- The windows published for a session, of one version, since the version last changed and
the entry was last evicted. -/
def publishedSince (key : SessionKey) (trace : List CacheEvent) : List SessionPayload :=
  trace.foldl (fun published event =>
    match event with
    | .evicted other => if other = key then [] else published
    | .published other data =>
      if other = key then
        if ∀ earlier ∈ published, earlier.version = data.version then published ++ [data]
        else [data]
      else published) []

/-- Windows cover exactly what was published, each position once and with the longest content
that was published for it. -/
structure KeepsPublished (published windows : List SessionPayload) : Prop where
  version : ∀ window ∈ windows, ∀ data ∈ published, window.version = data.version
  apart : windows.Pairwise fun left right => left.stop < right.offset
  filled : ∀ window ∈ windows, ∀ message ∈ window.messages, message.isSome
  covers : ∀ position, (∃ window ∈ windows, window.toWindow.Spans position) ↔
    ∃ data ∈ published, data.toWindow.Spans position
  longest : ∀ window ∈ windows, ∀ position message,
    window.messageAt position = some message →
      (∃ data ∈ published, data.messageAt position = some message) ∧
      ∀ data ∈ published, ∀ other, data.messageAt position = some other →
        other.content <+: message.content

section Merge

/-- Of two messages the later one stays unless its content is shorter. -/
def keepLonger (old new : Message) : Message :=
  if old.content.length ≤ new.content.length then new else old

theorem keepLonger_choice (old new : Message) :
    keepLonger old new = old ∨ keepLonger old new = new := by
  rw [keepLonger]
  split
  · exact Or.inr rfl
  · exact Or.inl rfl

theorem length_keepLonger (old new : Message) : (keepLonger old new).content.length =
    max old.content.length new.content.length := by
  rw [keepLonger]
  split <;> omega

instance : Std.Associative keepLonger where
  assoc first second third := by
    simp only [keepLonger]
    split_ifs <;> first | rfl | omega

theorem mergeMessage_eq_put (messages : List (Option Message)) (index : Nat)
    (message : Message) :
    mergeMessage messages index message = Window.put keepLonger messages index message := by
  rw [mergeMessage, Window.put]
  split
  next existing hcell =>
    have hlt := (List.getElem?_eq_some_iff.mp hcell).1
    simp only [hcell, assignAt, if_pos hlt, keepLonger]
    split
    · rfl
    · have hget := (List.getElem?_eq_some_iff.mp hcell).2
      rw [← hget, List.set_getElem_self]
  next hother =>
    rw [assignAt]
    cases hcell : messages[index]? with
    | none =>
        rw [if_neg (Nat.not_lt.mpr (List.getElem?_eq_none_iff.mp hcell))]
    | some cell =>
        rw [if_pos (List.getElem?_eq_some_iff.mp hcell).1]
        cases cell with
        | none => rfl
        | some existing => exact absurd hcell (hother existing)

theorem mergeMessages_eq_putAll (messages entries : List (Option Message)) (index : Nat) :
    mergeMessages messages index entries =
      Window.putAll keepLonger messages index entries := by
  induction entries generalizing messages index with
  | nil => rfl
  | cons first rest ih =>
      cases first with
      | none => exact ih messages (index + 1)
      | some message =>
          rw [mergeMessages, Window.putAll, mergeMessage_eq_put]
          exact ih _ _

theorem map_retainWindow (merged : List SessionPayload) (window : SessionPayload) :
    (retainWindow merged window).map SessionPayload.toWindow =
      Window.extend keepLonger (merged.map SessionPayload.toWindow) window.toWindow := by
  rw [retainWindow, Window.extend, List.getLast?_map]
  cases merged.getLast? with
  | none => exact List.map_append
  | some previous =>
      have hstop : previous.toWindow.stop = previous.stop := rfl
      have hoffset : window.toWindow.offset = window.offset := rfl
      simp only [Option.map_some, hstop, hoffset]
      split
      · exact List.map_append
      · rw [List.map_append, List.map_dropLast, mergeMessages_eq_putAll]
        rfl

/-- The loop over the sorted windows is one pass over the positions they show. -/
theorem map_retainWindows (windows : List SessionPayload) (incoming : SessionPayload) :
    (retainWindows windows incoming).map SessionPayload.toWindow =
      Window.coalesce keepLonger
        ((sortedWindows windows incoming).map SessionPayload.toWindow) := by
  rw [retainWindows]
  induction sortedWindows windows incoming using List.reverseRecOn with
  | nil => rfl
  | append_singleton init last ih =>
      rw [List.foldl_append, List.foldl_cons, List.foldl_nil, map_retainWindow, ih,
        List.map_append, List.map_singleton, Window.coalesce_concat]

theorem mem_sortedWindows {windows : List SessionPayload} {incoming window : SessionPayload} :
    window ∈ sortedWindows windows incoming ↔
      (window ∈ windows ∧ window.version = incoming.version) ∨ window = incoming := by
  rw [sortedWindows, (List.perm_insertionSort _ _).mem_iff, List.mem_append, List.mem_filter,
    List.mem_singleton, beq_iff_eq]

theorem version_retainWindow {merged : List SessionPayload} {window kept : SessionPayload}
    {version : String} (hmerged : ∀ other ∈ merged, other.version = version)
    (hwindow : window.version = version) (hmem : kept ∈ retainWindow merged window) :
    kept.version = version := by
  have hadded : ∀ other ∈ merged ++ [window], other.version = version := by
    intro other hother
    obtain hother | hother := List.mem_append.mp hother
    · exact hmerged other hother
    · exact List.mem_singleton.mp hother ▸ hwindow
  rw [retainWindow] at hmem
  split at hmem
  · exact hadded kept hmem
  next previous hlast =>
    split at hmem
    · exact hadded kept hmem
    · obtain hmem | hmem := List.mem_append.mp hmem
      · exact hmerged kept (List.dropLast_subset _ hmem)
      · rw [List.mem_singleton.mp hmem]
        exact hmerged previous (List.mem_of_getLast? hlast)

theorem version_retainWindows {windows : List SessionPayload} {incoming kept : SessionPayload}
    (hmem : kept ∈ retainWindows windows incoming) : kept.version = incoming.version := by
  have hsorted : ∀ window ∈ sortedWindows windows incoming,
      window.version = incoming.version := by
    intro window hwindow
    obtain ⟨-, h⟩ | rfl := mem_sortedWindows.mp hwindow
    · exact h
    · rfl
  rw [retainWindows] at hmem
  refine List.foldlRecOn (motive := fun merged : List SessionPayload =>
    ∀ kept ∈ merged, kept.version = incoming.version) _ _ ?_ ?_ kept hmem
  · exact fun _ h => absurd h List.not_mem_nil
  · intro merged hmerged window hwindow other hother
    exact version_retainWindow hmerged (hsorted window hwindow) hother

/-- The sorted windows of an incoming one, none of which has holes. -/
theorem sorted_sortedWindows {windows : List SessionPayload} {incoming : SessionPayload}
    (hwindows : ∀ window ∈ windows, ∀ message ∈ window.messages, message.isSome)
    (hincoming : ∀ message ∈ incoming.messages, message.isSome) :
    Window.Sorted ((sortedWindows windows incoming).map SessionPayload.toWindow) where
  offsets := by
    rw [List.pairwise_map]
    exact List.pairwise_insertionSort (fun left right : SessionPayload =>
      left.offset ≤ right.offset) _
  filled := by
    intro window hmem
    obtain ⟨origin, horigin, rfl⟩ := List.mem_map.mp hmem
    obtain ⟨h, -⟩ | rfl := mem_sortedWindows.mp horigin
    · exact hwindows origin h
    · exact hincoming

end Merge

section Retain

variable {published windows : List SessionPayload} {data : SessionPayload}
  {contents : List JsString} {position : Nat}

/-- A slice by the indices of its messages. -/
theorem sliceOf_of_forall (hstop : data.stop ≤ contents.length)
    (hfilled : ∀ message ∈ data.messages, message.isSome)
    (hmessages : ∀ index message, data.messages[index]? = some (some message) →
      ∃ full, contents[data.offset + index]? = some full ∧ message.content <+: full) :
    data.SliceOf contents where
  within := hstop
  filled := hfilled
  prefixes position message h := by
    rw [SessionPayload.messageAt, Window.cellAt] at h
    split at h
    next hle =>
      rw [Option.join_eq_some_iff] at h
      have hposition : data.offset + (position - data.offset) = position := by
        have hle' : data.offset ≤ position := hle
        omega
      rw [← hposition]
      exact hmessages _ message h
    · cases h

theorem SessionPayload.SliceOf.isSome_messageAt_iff (h : data.SliceOf contents) :
    (data.messageAt position).isSome ↔ data.toWindow.Spans position :=
  (show data.toWindow.Filled from h.filled).isSome_cellAt_iff position

theorem KeepsPublished.isSome_messageAt_iff (h : KeepsPublished published windows)
    {window : SessionPayload} (hmem : window ∈ windows) :
    (window.messageAt position).isSome ↔ window.toWindow.Spans position :=
  (show window.toWindow.Filled from h.filled window hmem).isSome_cellAt_iff position

theorem keepsPublished_nil : KeepsPublished [] [] where
  version := fun _ h => absurd h List.not_mem_nil
  apart := List.Pairwise.nil
  filled := fun _ h => absurd h List.not_mem_nil
  covers position := by simp
  longest := fun _ h => absurd h List.not_mem_nil

/-- What is kept is a prefix of the full content, as what was published. -/
theorem KeepsPublished.isPrefix (h : KeepsPublished published windows)
    (hslices : ∀ data ∈ published, data.SliceOf contents) {window : SessionPayload}
    (hmem : window ∈ windows) {message : Message}
    (hmessage : window.messageAt position = some message) :
    ∃ full, contents[position]? = some full ∧ message.content <+: full := by
  obtain ⟨⟨origin, horigin, hcell⟩, -⟩ := h.longest window hmem position message hmessage
  exact (hslices origin horigin).prefixes position message hcell

/-- Of two prefixes of one content the shorter one is a prefix of the longer one. -/
theorem prefix_of_length_le {short long : Message}
    (hshort : ∃ full, contents[position]? = some full ∧ short.content <+: full)
    (hlong : ∃ full, contents[position]? = some full ∧ long.content <+: full)
    (hle : short.content.length ≤ long.content.length) : short.content <+: long.content := by
  obtain ⟨full, hfull, hshort⟩ := hshort
  obtain ⟨same, hsame, hlong⟩ := hlong
  cases hfull.symm.trans hsame
  exact List.prefix_of_prefix_length_le hshort hlong hle

/-- What a window shows after the merge was shown by a window before it, and is at least as
long as what any of them showed. -/
theorem messageAt_retainWindows
    (hwindows : ∀ window ∈ windows, ∀ message ∈ window.messages, message.isSome)
    (hdata : ∀ message ∈ data.messages, message.isSome) {window : SessionPayload}
    (hmem : window ∈ retainWindows windows data) {message : Message}
    (hmessage : window.messageAt position = some message) :
    (∃ origin ∈ sortedWindows windows data, origin.messageAt position = some message) ∧
      ∀ origin ∈ sortedWindows windows data, ∀ other,
        origin.messageAt position = some other →
        other.content.length ≤ message.content.length := by
  have hsorted := sorted_sortedWindows hwindows hdata
  obtain ⟨hfilled, hapart⟩ := Window.coalesce_wellFormed keepLonger hsorted
  have hview := Window.view_eq_of_apart keepLonger hfilled hapart
    (map_retainWindows windows data ▸ List.mem_map_of_mem hmem) hmessage
  rw [Window.view_coalesce keepLonger hsorted] at hview
  obtain ⟨⟨shown, hshown, hcell⟩, hall⟩ := Window.view_spec
    (r := fun left right : Message => left.content.length ≤ right.content.length)
    keepLonger_choice
    (fun left right => by rw [length_keepLonger]; exact le_max_left _ _)
    (fun left right => by rw [length_keepLonger]; exact le_max_right _ _) hview
  obtain ⟨origin, horigin, rfl⟩ := List.mem_map.mp hshown
  refine ⟨⟨origin, horigin, hcell⟩, ?_⟩
  intro other hother earlier hearlier
  exact hall other.toWindow (List.mem_map_of_mem hother) earlier hearlier

/-- The positions that windows show are kept by the merge. -/
theorem spans_retainWindows
    (hwindows : ∀ window ∈ windows, ∀ message ∈ window.messages, message.isSome)
    (hdata : ∀ message ∈ data.messages, message.isSome) :
    (∃ window ∈ retainWindows windows data, window.toWindow.Spans position) ↔
      ∃ window ∈ sortedWindows windows data, window.toWindow.Spans position := by
  have hsorted := sorted_sortedWindows hwindows hdata
  obtain ⟨hfilled, -⟩ := Window.coalesce_wellFormed keepLonger hsorted
  have hview := Window.view_coalesce keepLonger hsorted position
  have hiff : ∀ list : List SessionPayload,
      (∀ window ∈ list.map SessionPayload.toWindow, window.Filled) →
      ((∃ window ∈ list, window.toWindow.Spans position) ↔
        (Window.view keepLonger (list.map SessionPayload.toWindow) position).isSome) := by
    intro list hlist
    rw [Window.isSome_view_iff keepLonger]
    constructor
    · rintro ⟨window, hmem, hspans⟩
      have hmap := @List.mem_map_of_mem _ _ _ _ SessionPayload.toWindow hmem
      exact ⟨_, hmap, ((hlist _ hmap).isSome_cellAt_iff position).mpr hspans⟩
    · rintro ⟨shown, hmem, hsome⟩
      obtain ⟨window, hwindow, rfl⟩ := List.mem_map.mp hmem
      exact ⟨window, hwindow, ((hlist _ hmem).isSome_cellAt_iff position).mp hsome⟩
  rw [hiff _ (map_retainWindows windows data ▸ hfilled), hiff _ hsorted.filled,
    map_retainWindows, hview]

/-- A window that is published for the version of those before it is added to what they
cover. -/
theorem KeepsPublished.retain (h : KeepsPublished published windows)
    (hslices : ∀ earlier ∈ published, earlier.SliceOf contents) (hdata : data.SliceOf contents)
    (hpublished : ∀ earlier ∈ published, earlier.version = data.version)
    (hversion : ∀ window ∈ windows, window.version = data.version) :
    KeepsPublished (published ++ [data]) (retainWindows windows data) := by
  have hsorted := sorted_sortedWindows h.filled hdata.filled
  obtain ⟨hfilled, hapart⟩ := Window.coalesce_wellFormed keepLonger hsorted
  rw [← map_retainWindows] at hfilled hapart
  have hmem : ∀ window, window ∈ sortedWindows windows data ↔
      window ∈ windows ∨ window = data := by
    intro window
    rw [mem_sortedWindows]
    exact or_congr_left ⟨And.left, fun hwindow => ⟨hwindow, hversion window hwindow⟩⟩
  have hadded : ∀ earlier, earlier ∈ published ++ [data] ↔
      earlier ∈ published ∨ earlier = data := by simp
  constructor
  case version =>
    intro window hwindow earlier hearlier
    rw [version_retainWindows hwindow]
    obtain hearlier | rfl := (hadded earlier).mp hearlier
    · exact (hpublished earlier hearlier).symm
    · rfl
  case apart => exact List.pairwise_map.mp hapart
  case filled => exact fun window hwindow => hfilled _ (List.mem_map_of_mem hwindow)
  case covers =>
    intro position
    rw [spans_retainWindows h.filled hdata.filled]
    constructor
    · rintro ⟨window, hwindow, hspans⟩
      obtain hwindow | rfl := (hmem window).mp hwindow
      · obtain ⟨earlier, hearlier, hspans⟩ := (h.covers position).mp ⟨window, hwindow, hspans⟩
        exact ⟨earlier, (hadded earlier).mpr (Or.inl hearlier), hspans⟩
      · exact ⟨window, (hadded window).mpr (Or.inr rfl), hspans⟩
    · rintro ⟨earlier, hearlier, hspans⟩
      obtain hearlier | rfl := (hadded earlier).mp hearlier
      · obtain ⟨window, hwindow, hspans⟩ :=
          (h.covers position).mpr ⟨earlier, hearlier, hspans⟩
        exact ⟨window, (hmem window).mpr (Or.inl hwindow), hspans⟩
      · exact ⟨earlier, (hmem earlier).mpr (Or.inr rfl), hspans⟩
  case longest =>
    intro window hwindow position message hmessage
    obtain ⟨⟨origin, horigin, hcell⟩, hlonger⟩ :=
      messageAt_retainWindows h.filled hdata.filled hwindow hmessage
    have hpublishedFrom : ∃ earlier ∈ published ++ [data],
        earlier.messageAt position = some message := by
      obtain horigin | rfl := (hmem origin).mp horigin
      · obtain ⟨⟨earlier, hearlier, heq⟩, -⟩ := h.longest origin horigin position message hcell
        exact ⟨earlier, (hadded earlier).mpr (Or.inl hearlier), heq⟩
      · exact ⟨origin, (hadded origin).mpr (Or.inr rfl), hcell⟩
    have hfull : ∃ full, contents[position]? = some full ∧ message.content <+: full := by
      obtain horigin | rfl := (hmem origin).mp horigin
      · exact h.isPrefix hslices horigin hcell
      · exact hdata.prefixes position message hcell
    refine ⟨hpublishedFrom, ?_⟩
    intro earlier hearlier other hother
    obtain hearlier | rfl := (hadded earlier).mp hearlier
    · -- what was published before is no longer than what an older window shows
      have hspans := (hslices earlier hearlier).isSome_messageAt_iff.mp (by rw [hother]; rfl)
      obtain ⟨older, holder, hspans⟩ := (h.covers position).mpr ⟨earlier, hearlier, hspans⟩
      obtain ⟨shown, hshown⟩ := Option.isSome_iff_exists.mp
        ((h.isSome_messageAt_iff holder).mpr hspans)
      have hbegins := (h.longest older holder position shown hshown).2 earlier hearlier other
        hother
      have hlength := hlonger older ((hmem older).mpr (Or.inl holder)) shown hshown
      exact hbegins.trans (prefix_of_length_le (h.isPrefix hslices holder hshown) hfull hlength)
    · have hlength := hlonger earlier ((hmem earlier).mpr (Or.inr rfl)) other hother
      exact prefix_of_length_le (hdata.prefixes position other hother) hfull hlength

/-- Windows of other versions leave nothing behind. -/
theorem retainWindows_of_version_ne
    (hversion : ∀ window ∈ windows, window.version ≠ data.version) :
    retainWindows windows data = retainWindows [] data := by
  have hfilter : windows.filter (fun window => window.version == data.version) = [] := by
    apply List.filter_eq_nil_iff.mpr
    intro window hmem
    rw [beq_iff_eq]
    exact hversion window hmem
  rw [retainWindows, retainWindows, sortedWindows, sortedWindows, hfilter, List.filter_nil]

/-- The window that is selected is one of those kept and contains the published range. -/
theorem selectWindow_spec
    (hwindows : ∀ window ∈ windows, ∀ message ∈ window.messages, message.isSome)
    (hdata : ∀ message ∈ data.messages, message.isSome) :
    selectWindow (retainWindows windows data) data ∈ retainWindows windows data ∧
      (selectWindow (retainWindows windows data) data).toWindow.Encloses data.toWindow := by
  have hsorted := sorted_sortedWindows hwindows hdata
  obtain ⟨outer, houter, hencloses⟩ := Window.exists_encloses keepLonger hsorted
    (List.mem_map_of_mem (mem_sortedWindows.mpr (Or.inr rfl)))
  rw [← map_retainWindows] at houter
  obtain ⟨window, hwindow, rfl⟩ := List.mem_map.mp houter
  have hfound : ((retainWindows windows data).find? fun window =>
      window.offset ≤ data.offset && data.stop ≤ window.stop).isSome := by
    rw [List.find?_isSome]
    refine ⟨window, hwindow, ?_⟩
    rw [Bool.and_eq_true, decide_eq_true_eq, decide_eq_true_eq]
    exact hencloses
  obtain ⟨found, hfound⟩ := Option.isSome_iff_exists.mp hfound
  rw [selectWindow, hfound, Option.getD_some]
  refine ⟨List.mem_of_find?_eq_some hfound, ?_⟩
  have hselected := List.find?_some hfound
  rw [Bool.and_eq_true, decide_eq_true_eq, decide_eq_true_eq] at hselected
  exact hselected

end Retain

end Memex.Web
