import Memex.Web.TranscriptWindows

/-! # The transcript cache over any sequence of operations

Every publication replaces the windows of one session and evicts the sessions that were
inserted first; opening a session and asking for a new copy leave the windows as they are. -/

namespace Memex.Web

section Lookup

variable {cache : SessionCache} {key other : SessionKey}

theorem lookup_foldl_erase (keys : List SessionKey) (cache : SessionCache) :
    (keys.foldl (fun cache key => cache.erase key) cache).lookup key =
      if key ∈ keys then none else cache.lookup key := by
  induction keys generalizing cache with
  | nil => simp
  | cons first rest ih =>
      rw [List.foldl_cons, ih]
      by_cases hrest : key ∈ rest
      · rw [if_pos hrest, if_pos (List.mem_cons_of_mem _ hrest)]
      · rw [if_neg hrest]
        by_cases heq : key = first
        · rw [if_pos (heq ▸ List.mem_cons_self), heq, AList.lookup_erase]
        · rw [if_neg (by simp [heq, hrest]), AList.lookup_erase_ne heq]

theorem lookup_storeWindows (windows : List SessionPayload) (now : Nat) :
    (storeWindows cache key windows now).lookup other =
      if other = key then
        some { windows, storedAt := now, bytes := (windows.map windowBytes).sum }
      else cache.lookup other := by
  rw [storeWindows]
  split
  next heq => rw [heq, AList.lookup_insert]
  next hne => rw [AList.lookup_insert_ne hne]

/-- Opening a session keeps the windows of every session. -/
theorem windows_lookup_activate (state : TranscriptCache) (target : SessionTarget)
    (now : Nat) :
    ((activate state target now).cache.lookup key).map CachedSession.windows =
      (state.cache.lookup key).map CachedSession.windows := by
  rw [activate]
  cases hlookup : state.cache.lookup (sessionKey target) with
  | none => rfl
  | some entry =>
      dsimp only
      cases cachedWindow target entry with
      | none => rfl
      | some window =>
          dsimp only
          split
          · by_cases heq : key = sessionKey target
            · rw [heq, AList.lookup_insert, hlookup]
            · rw [AList.lookup_insert_ne heq]
          · rfl

/-- Asking for a new copy of a session keeps the windows of every session. -/
theorem windows_lookup_refresh (state : TranscriptCache) (target : SessionTarget) :
    ((refresh state target).cache.lookup key).map CachedSession.windows =
      (state.cache.lookup key).map CachedSession.windows := by
  have hlookup : (refresh state target).cache.lookup key =
      (state.cache.lookup key).map fun entry =>
        if key = sessionKey target then { entry with storedAt := 0 } else entry :=
    List.dlookup_map₂ key
  rw [hlookup]
  cases state.cache.lookup key with
  | none => rfl
  | some entry =>
      simp only [Option.map_some]
      split <;> rfl

end Lookup

section History

variable {trace : List CacheEvent} {key other : SessionKey} {data : SessionPayload}

/-- One more publication, of the session itself or of another one. -/
theorem publishedSince_published :
    publishedSince key (trace ++ [CacheEvent.published other data]) =
      if other = key then
        if ∀ earlier ∈ publishedSince key trace, earlier.version = data.version
        then publishedSince key trace ++ [data] else [data]
      else publishedSince key trace := by
  rw [publishedSince, List.foldl_append]
  rfl

/-- Evictions forget what was published of the evicted sessions. -/
theorem publishedSince_evicted (keys : List SessionKey) :
    publishedSince key (trace ++ keys.map .evicted) =
      if key ∈ keys then [] else publishedSince key trace := by
  induction keys using List.reverseRecOn with
  | nil => simp
  | append_singleton init last ih =>
      have hstep : publishedSince key (trace ++ (init ++ [last]).map .evicted) =
          if last = key then [] else publishedSince key (trace ++ init.map .evicted) := by
        rw [List.map_append, ← List.append_assoc, publishedSince, List.foldl_append]
        rfl
      rw [hstep, ih]
      by_cases hlast : last = key
      · simp [hlast]
      · simp [hlast, Ne.symm hlast]

/-- What counts as published was published. -/
theorem published_of_mem_publishedSince (hmem : data ∈ publishedSince key trace) :
    .published key data ∈ trace := by
  induction trace using List.reverseRecOn with
  | nil => exact absurd hmem List.not_mem_nil
  | append_singleton init last ih =>
      cases last with
      | published other incoming =>
          rw [publishedSince_published] at hmem
          split at hmem
          next heq =>
            subst heq
            split at hmem
            · obtain hmem | hmem := List.mem_append.mp hmem
              · exact List.mem_append_left _ (ih hmem)
              · rw [List.mem_singleton.mp hmem]
                exact List.mem_append_right _ (List.mem_singleton_self _)
            · rw [List.mem_singleton.mp hmem]
              exact List.mem_append_right _ (List.mem_singleton_self _)
          · exact List.mem_append_left _ (ih hmem)
      | evicted other =>
          have hevicted := @publishedSince_evicted init key [other]
          rw [List.map_singleton] at hevicted
          rw [hevicted] at hmem
          split at hmem
          · exact absurd hmem List.not_mem_nil
          · exact List.mem_append_left _ (ih hmem)

end History

section Runs

/-- What is kept of a session: nothing where nothing was published since its eviction, and
windows of what was published otherwise. -/
def KeepsSession (published : List SessionPayload) : Option (List SessionPayload) → Prop
  | none => published = []
  | some windows => published ≠ [] ∧ KeepsPublished published windows

/-- Every session of a cache is kept as it was published, all of it slices of snapshots. -/
structure CacheKeeps (snapshots : SessionKey → String → List JsString)
    (state : TranscriptCache) : Prop where
  keeps : ∀ key, KeepsSession (publishedSince key state.trace)
    ((state.cache.lookup key).map CachedSession.windows)
  slices : ∀ key data, .published key data ∈ state.trace →
    data.SliceOf (snapshots key data.version)

variable {snapshots : SessionKey → String → List JsString} {state : TranscriptCache}
  {key : SessionKey} {data : SessionPayload} {now : Nat}

/-- The windows kept of a session, of what was published since: none if nothing was. -/
theorem CacheKeeps.keepsPublished (h : CacheKeeps snapshots state) (key : SessionKey) :
    KeepsPublished (publishedSince key state.trace) (windowsOf state.cache key) := by
  have hkeeps := h.keeps key
  rw [windowsOf]
  cases hlookup : (state.cache.lookup key).map CachedSession.windows with
  | none =>
      rw [hlookup] at hkeeps
      rw [show publishedSince key state.trace = [] from hkeeps]
      exact keepsPublished_nil
  | some windows =>
      rw [hlookup] at hkeeps
      exact hkeeps.2

/-- The windows of a session after a publication, in the place of those before. -/
theorem CacheKeeps.retained (h : CacheKeeps snapshots state)
    (hdata : data.SliceOf (snapshots key data.version)) :
    KeepsPublished (publishedSince key (state.trace ++ [CacheEvent.published key data]))
      (retainWindows (windowsOf state.cache key) data) := by
  have hkept := h.keepsPublished key
  rw [publishedSince_published, if_pos rfl]
  by_cases hall : ∀ earlier ∈ publishedSince key state.trace, earlier.version = data.version
  · rw [if_pos hall]
    have hslices : ∀ earlier ∈ publishedSince key state.trace,
        earlier.SliceOf (snapshots key data.version) := by
      intro earlier hmem
      rw [← hall earlier hmem]
      exact h.slices key earlier (published_of_mem_publishedSince hmem)
    apply hkept.retain hslices hdata hall
    intro window hwindow
    cases hpublished : publishedSince key state.trace with
    | nil =>
        -- an entry of the cache stands for something that was published
        exfalso
        have hkeeps := h.keeps key
        rw [windowsOf] at hwindow
        cases hlookup : (state.cache.lookup key).map CachedSession.windows with
        | none =>
            rw [hlookup] at hwindow
            exact absurd hwindow List.not_mem_nil
        | some windows =>
            rw [hlookup] at hkeeps
            exact hkeeps.1 hpublished
    | cons first rest =>
        have hfirst : first ∈ publishedSince key state.trace :=
          hpublished ▸ List.mem_cons_self
        exact (hkept.version window hwindow first hfirst).trans (hall first hfirst)
  · rw [if_neg hall]
    have hne : ∀ window ∈ windowsOf state.cache key, window.version ≠ data.version := by
      intro window hwindow heq
      apply hall
      intro earlier hearlier
      exact (hkept.version window hwindow earlier hearlier).symm.trans heq
    rw [retainWindows_of_version_ne hne]
    exact keepsPublished_nil.retain (fun _ hmem => absurd hmem List.not_mem_nil) hdata
      (fun _ hmem => absurd hmem List.not_mem_nil) (fun _ hmem => absurd hmem List.not_mem_nil)

/-- A publication keeps what was published of every session that stays in the cache. -/
theorem CacheKeeps.publish (h : CacheKeeps snapshots state)
    (hdata : data.SliceOf (snapshots key data.version)) :
    CacheKeeps snapshots (Web.publish state key data now) where
  keeps other := by
    have hretained := h.retained hdata
    rw [Web.publish]
    dsimp only
    generalize retainWindows (windowsOf state.cache key) data = windows at hretained ⊢
    rw [lookup_foldl_erase, lookup_storeWindows, List.append_cons, publishedSince_evicted]
    by_cases hevicted : other ∈ overflow (storeWindows state.cache key windows now)
    · rw [if_pos hevicted, if_pos hevicted]
      rfl
    · rw [if_neg hevicted, if_neg hevicted]
      by_cases heq : other = key
      · rw [if_pos heq, heq]
        refine ⟨?_, hretained⟩
        rw [publishedSince_published, if_pos rfl]
        split
        · exact List.append_ne_nil_of_right_ne_nil _ (List.cons_ne_nil _ _)
        · exact List.cons_ne_nil _ _
      · rw [if_neg heq, publishedSince_published, if_neg (Ne.symm heq)]
        exact h.keeps other
  slices other earlier hmem := by
    obtain hmem | hmem := List.mem_append.mp hmem
    · exact h.slices other earlier hmem
    · obtain heq | hmem := List.mem_cons.mp hmem
      · cases heq
        exact hdata
      · obtain ⟨_, -, heq⟩ := List.mem_map.mp hmem
        cases heq

/-- Every operation keeps what was published, where publications are slices of snapshots. -/
theorem CacheKeeps.apply (h : CacheKeeps snapshots state) (op : CacheOp)
    (hslice : ∀ key data now, op = .publish key data now →
      data.SliceOf (snapshots key data.version)) :
    CacheKeeps snapshots (op.apply state) := by
  cases op with
  | publish key data now => exact h.publish (hslice key data now rfl)
  | activate target now =>
      have htrace : (Web.activate state target now).trace = state.trace := by
        rw [Web.activate]
        split
        · rfl
        · split <;> rfl
      constructor
      · intro key
        rw [CacheOp.apply, windows_lookup_activate, htrace]
        exact h.keeps key
      · rw [CacheOp.apply, htrace]
        exact h.slices
  | refresh target =>
      constructor
      · intro key
        rw [CacheOp.apply, windows_lookup_refresh]
        exact h.keeps key
      · exact h.slices

theorem cacheKeeps_runCache {ops : List CacheOp}
    (hslices : ∀ key data now, .publish key data now ∈ ops →
      data.SliceOf (snapshots key data.version)) :
    CacheKeeps snapshots (runCache ops) := by
  induction ops using List.reverseRecOn with
  | nil =>
      constructor
      · exact fun _ => rfl
      · exact fun _ _ hmem => absurd hmem List.not_mem_nil
  | append_singleton init last ih =>
      rw [runCache, List.foldl_append]
      apply CacheKeeps.apply
      · exact ih fun key data now hmem => hslices key data now (List.mem_append_left _ hmem)
      · rintro key data now rfl
        exact hslices key data now (List.mem_append_right _ (List.mem_singleton_self _))

/-- After any sequence of publications of slices the windows of every session cover what was
published since its version changed or it was evicted, apart from each other and with the
longest contents, and the window shown after a publication contains what was published. -/
theorem transcript_windows_cover {ops : List CacheOp}
    (hslices : ∀ key data now, .publish key data now ∈ ops →
      data.SliceOf (snapshots key data.version)) :
    (∀ key, KeepsSession (publishedSince key (runCache ops).trace)
      (((runCache ops).cache.lookup key).map CachedSession.windows)) ∧
    ∀ before key data now, ops = before ++ [.publish key data now] →
      ∃ shown ∈ retainWindows (windowsOf (runCache before).cache key) data,
        (runCache ops).shown = some shown ∧ shown.offset ≤ data.offset ∧
          data.stop ≤ shown.stop := by
  refine ⟨(cacheKeeps_runCache hslices).keeps, ?_⟩
  rintro before key data now rfl
  have hbefore : CacheKeeps snapshots (runCache before) :=
    cacheKeeps_runCache fun other earlier time hmem =>
      hslices other earlier time (List.mem_append_left _ hmem)
  have hdata := hslices key data now (List.mem_append_right _ (List.mem_singleton_self _))
  obtain ⟨hmem, hencloses⟩ := selectWindow_spec (hbefore.keepsPublished key).filled hdata.filled
  have hshown : (runCache (before ++ [.publish key data now])).shown =
      some (selectWindow (retainWindows (windowsOf (runCache before).cache key) data) data) := by
    rw [runCache, List.foldl_append]
    rfl
  exact ⟨_, hmem, hshown, hencloses.1, hencloses.2⟩

/-- Two messages, the first as it is and the second cut off. -/
def firstPage : SessionPayload where
  version := "1"
  offset := 0
  total := 3
  messages := [some { recordId := "a", content := [65] }, some { recordId := "b", content := [66] }]

/-- The second message in full, and a third one. -/
def secondPage : SessionPayload where
  version := "1"
  offset := 1
  total := 3
  messages := [some { recordId := "b", content := [66, 67] },
    some { recordId := "c", content := [68] }]

/-- The first two messages after the last two: one window, which holds the longer copy. -/
theorem transcript_windows_cover_overlapping :
    KeepsSession (publishedSince ("", "s", "") (runCache
      [.publish ("", "s", "") secondPage 0, .publish ("", "s", "") firstPage 1]).trace)
      (some [{ firstPage with messages :=
        [some { recordId := "a", content := [65] }, some { recordId := "b", content := [66, 67] },
          some { recordId := "c", content := [68] }] }]) := by
  refine (@transcript_windows_cover (fun _ _ => [[65], [66, 67], [68]])
    [.publish ("", "s", "") secondPage 0, .publish ("", "s", "") firstPage 1] ?_).1
    ("", "s", "")
  intro key data now hmem
  obtain heq | hmem := List.mem_cons.mp hmem
  · cases heq
    refine sliceOf_of_forall (by decide) (by decide) ?_
    intro index message h
    match index with
    | 0 => cases h; exact ⟨_, rfl, by decide⟩
    | 1 => cases h; exact ⟨_, rfl, by decide⟩
  · cases List.mem_singleton.mp hmem
    refine sliceOf_of_forall (by decide) (by decide) ?_
    intro index message h
    match index with
    | 0 => cases h; exact ⟨_, rfl, by decide⟩
    | 1 => cases h; exact ⟨_, rfl, by decide⟩

end Runs

section Loads

variable {contents : List JsString} {before page joined window : SessionPayload}

theorem SessionPayload.SliceOf.getElem? (h : window.SliceOf contents) {index : Nat}
    {message : Message} (hmessage : window.messages[index]? = some (some message)) :
    ∃ full, contents[window.offset + index]? = some full ∧ message.content <+: full := by
  apply h.prefixes
  rw [SessionPayload.messageAt, Window.cellAt, SessionPayload.toWindow,
    if_pos (Nat.le_add_right _ _), Nat.add_sub_cancel_left, hmessage, Option.join_some]

/-- Two slices of one snapshot, of which the second begins where the first ends, are one. -/
theorem sliceOf_append {first second : SessionPayload} (hfirst : first.SliceOf contents)
    (hsecond : second.SliceOf contents) (hadjacent : second.offset = first.stop)
    (hoffset : joined.offset = first.offset)
    (hmessages : joined.messages = first.messages ++ second.messages) :
    joined.SliceOf contents := by
  have hstop := hsecond.within
  simp only [SessionPayload.stop] at hadjacent hstop
  apply sliceOf_of_forall
  · rw [SessionPayload.stop, hoffset, hmessages, List.length_append]
    omega
  · rw [hmessages]
    intro message hmem
    obtain hmem | hmem := List.mem_append.mp hmem
    · exact hfirst.filled message hmem
    · exact hsecond.filled message hmem
  · intro index message hget
    rw [hmessages, List.getElem?_append] at hget
    rw [hoffset]
    split at hget
    · exact hfirst.getElem? hget
    next hge =>
      have hindex : first.offset + index =
          second.offset + (index - first.messages.length) := by omega
      rw [hindex]
      exact hsecond.getElem? hget

/-- A page that is accepted makes a larger slice of the same snapshot. -/
theorem loadPage_sliceOf {direction : PageDirection} (hbefore : before.SliceOf contents)
    (hpage : page.SliceOf contents) (h : loadPage before direction page = .ok joined) :
    joined.SliceOf contents ∧ joined.version = before.version ∧
      joined.toWindow.Encloses before.toWindow := by
  unfold loadPage at h
  split at h
  · cases h
  · split at h
    · cases h
    · cases direction with
      | earlier =>
          dsimp only at h
          split at h
          next hadjacent =>
            cases h
            have hle : page.offset ≤ before.offset := hadjacent ▸ Nat.le_add_right _ _
            refine ⟨sliceOf_append hpage hbefore hadjacent.symm (min_eq_left hle) rfl, rfl,
              min_le_right _ _, ?_⟩
            simp only [SessionPayload.stop] at hadjacent
            simp only [Window.stop, SessionPayload.toWindow, List.length_append]
            omega
          · cases h
      | later =>
          dsimp only at h
          split at h
          next hadjacent =>
            cases h
            have hle : before.offset ≤ page.offset := hadjacent ▸ Nat.le_add_right _ _
            refine ⟨sliceOf_append hbefore hpage hadjacent (min_eq_right hle) rfl, rfl,
              min_le_right _ _, ?_⟩
            simp only [SessionPayload.stop] at hadjacent
            simp only [Window.stop, SessionPayload.toWindow, List.length_append]
            omega
          · cases h

/-- Content that continues what a window holds of a record makes a slice of the same
snapshot. -/
theorem loadContent_sliceOf {recordId : String} {data : ContentPayload}
    (hbefore : before.SliceOf contents)
    (hcontinues : ∀ index message, before.messages[index]? = some (some message) →
      message.recordId = recordId → ∃ full, contents[before.offset + index]? = some full ∧
        message.content ++ data.content <+: full)
    (h : loadContent before recordId data = some (.ok joined)) : joined.SliceOf contents := by
  rw [loadContent] at h
  split at h
  · cases h
  · split at h
    · cases h
    · split at h
      · cases h
      · cases h
        apply sliceOf_of_forall
        · rw [SessionPayload.stop, List.length_map]
          exact hbefore.within
        · intro message hmem
          obtain ⟨origin, horigin, rfl⟩ := List.mem_map.mp hmem
          rw [Option.isSome_map]
          exact hbefore.filled origin horigin
        · intro index message hget
          rw [List.getElem?_map, Option.map_eq_some_iff] at hget
          obtain ⟨cell, hcell, hmap⟩ := hget
          obtain ⟨origin, rfl, rfl⟩ := Option.map_eq_some_iff.mp hmap
          rw [expandMessage]
          split
          next heq => exact hcontinues index origin hcell heq
          · exact hbefore.getElem? hcell

end Loads

end Memex.Web
