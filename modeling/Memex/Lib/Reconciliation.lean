import Mathlib.Data.List.Nodup
import Mathlib.Data.List.Perm.Basic

/-! # Reconciling keyed rows with what was found

Each request looks up the row of its key and may leave a row there; the rows that nothing asked
for are retained or dropped. With distinct keys the result holds, under the key of a request, just
what the request left. -/

namespace Reconciliation

variable {α β κ : Type*} [DecidableEq κ] {key : α → κ} {rows others : List α} {row : α}

section Lookup

/-- The first row of a key. -/
def lookup (key : α → κ) (rows : List α) (wanted : κ) : Option α :=
  rows.find? fun row => key row = wanted

theorem lookup_eq_none {wanted : κ} (h : ∀ row ∈ rows, key row ≠ wanted) :
    lookup key rows wanted = none := by
  apply List.find?_eq_none.mpr
  intro row hrow
  rw [decide_eq_true_eq]
  exact h row hrow

theorem mem_of_lookup {wanted : κ} (h : lookup key rows wanted = some row) :
    row ∈ rows ∧ key row = wanted := by
  constructor
  · exact List.mem_of_find?_eq_some h
  · have hkey := List.find?_some h
    exact of_decide_eq_true hkey

/-- Among distinct keys a row is found by its own. -/
theorem lookup_of_mem (hnodup : (rows.map key).Nodup) (hmem : row ∈ rows) :
    lookup key rows (key row) = some row := by
  cases hfound : lookup key rows (key row) with
  | none =>
      have hnone := List.find?_eq_none.mp hfound row hmem
      exact absurd (decide_eq_true rfl) hnone
  | some other =>
      obtain ⟨hother, hkey⟩ := mem_of_lookup hfound
      rw [List.inj_on_of_nodup_map hnodup hother hmem hkey]

theorem lookup_perm (hnodup : (rows.map key).Nodup) (hperm : rows.Perm others) (wanted : κ) :
    lookup key rows wanted = lookup key others wanted := by
  cases hfound : lookup key others wanted with
  | none =>
      apply lookup_eq_none
      intro row hrow
      have hnone := List.find?_eq_none.mp hfound row (hperm.mem_iff.mp hrow)
      rwa [decide_eq_true_eq] at hnone
  | some other =>
      obtain ⟨hother, rfl⟩ := mem_of_lookup hfound
      exact lookup_of_mem hnodup (hperm.mem_iff.mpr hother)

theorem lookup_map {move : α → α} (hmove : ∀ row, key (move row) = key row) (rows : List α)
    (wanted : κ) : lookup key (rows.map move) wanted = (lookup key rows wanted).map move := by
  simp only [lookup, List.find?_map, Function.comp_def, hmove]

end Lookup

section Pass

variable {name : β → κ} {outcome : β → Option α → Option α} {retain : α → Option α}
variable {requests : List β} {rest : List α}

/-- The rows that no request asks for. -/
def unasked (key : α → κ) (name : β → κ) (requests : List β) (rows : List α) : List α :=
  rows.filter fun row => key row ∉ requests.map name

/-- The rows that the requests leave. -/
def found (key : α → κ) (name : β → κ) (outcome : β → Option α → Option α) (requests : List β)
    (rows : List α) : List α :=
  requests.filterMap fun request => outcome request (lookup key rows (name request))

/-- A request leaves a row of its key, and rows are retained under their keys. -/
structure KeepsKeys (key : α → κ) (name : β → κ) (outcome : β → Option α → Option α)
    (retain : α → Option α) : Prop where
  outcome : ∀ {request prior row}, (∀ former ∈ prior, key former = name request) →
    outcome request prior = some row → key row = name request
  retain : ∀ {row kept}, retain row = some kept → key kept = key row

theorem key_of_left (h : KeepsKeys key name outcome retain) {request : β}
    (hrow : outcome request (lookup key rows (name request)) = some row) :
    key row = name request :=
  h.outcome (fun _ hformer => (mem_of_lookup hformer).2) hrow

theorem key_of_retained (h : KeepsKeys key name outcome retain)
    (hrest : rest.Perm (unasked key name requests rows)) (hrow : row ∈ rest.filterMap retain) :
    key row ∉ requests.map name ∧ ∃ former ∈ rows, key former = key row := by
  obtain ⟨former, hformer, hretain⟩ := List.mem_filterMap.mp hrow
  have hmem := List.mem_filter.mp (hrest.mem_iff.mp hformer)
  rw [h.retain hretain]
  exact ⟨of_decide_eq_true hmem.2, former, hmem.1, rfl⟩

/-- The keys of the result are distinct. -/
theorem nodup_result (h : KeepsKeys key name outcome retain) (hnames : (requests.map name).Nodup)
    (hrows : (rows.map key).Nodup) (hrest : rest.Perm (unasked key name requests rows)) :
    ((found key name outcome requests rows ++ rest.filterMap retain).map key).Nodup := by
  rw [List.map_append]
  apply List.Nodup.append
  · rw [found, List.map_filterMap]
    have hsub : (requests.filterMap fun request =>
        (outcome request (lookup key rows (name request))).map key).Sublist
          (requests.map name) := by
      clear hnames hrest
      induction requests with
      | nil => exact List.Sublist.refl _
      | cons request requests ih =>
          rw [List.map_cons]
          cases hleft : outcome request (lookup key rows (name request)) with
          | none =>
              rw [List.filterMap_cons_none (by rw [hleft]; rfl)]
              exact ih.cons _
          | some row =>
              rw [List.filterMap_cons_some (by rw [hleft]; rfl), key_of_left h hleft]
              exact ih.cons_cons _
    exact hsub.nodup hnames
  · have hkept : ((rest.filterMap retain).map key).Sublist (rest.map key) := by
      clear hrest
      induction rest with
      | nil => exact List.Sublist.refl _
      | cons row rest ih =>
          rw [List.map_cons]
          cases hretain : retain row with
          | none =>
              rw [List.filterMap_cons_none hretain]
              exact ih.cons _
          | some kept =>
              rw [List.filterMap_cons_some hretain, List.map_cons, h.retain hretain]
              exact ih.cons_cons _
    apply hkept.nodup
    rw [(hrest.map key).nodup_iff]
    exact (List.filter_sublist.map key).nodup hrows
  · intro wanted hleft hkept
    obtain ⟨row, hrow, rfl⟩ := List.mem_map.mp hleft
    obtain ⟨other, hother, hkey⟩ := List.mem_map.mp hkept
    obtain ⟨request, hrequest, houtcome⟩ := List.mem_filterMap.mp hrow
    apply (key_of_retained h hrest hother).1
    rw [hkey, key_of_left h houtcome]
    exact List.mem_map_of_mem hrequest

/-- Under the key of a request the result holds what the request left. -/
theorem lookup_result (h : KeepsKeys key name outcome retain) (hnames : (requests.map name).Nodup)
    (hrows : (rows.map key).Nodup) (hrest : rest.Perm (unasked key name requests rows))
    {request : β} (hrequest : request ∈ requests) :
    lookup key (found key name outcome requests rows ++ rest.filterMap retain) (name request) =
      outcome request (lookup key rows (name request)) := by
  cases hleft : outcome request (lookup key rows (name request)) with
  | some row =>
      rw [← key_of_left h hleft]
      apply lookup_of_mem (nodup_result h hnames hrows hrest)
      exact List.mem_append_left _ (List.mem_filterMap.mpr ⟨request, hrequest, hleft⟩)
  | none =>
      apply lookup_eq_none
      intro row hrow hkey
      rcases List.mem_append.mp hrow with hrow | hrow
      · obtain ⟨other, hother, houtcome⟩ := List.mem_filterMap.mp hrow
        have hsame : other = request :=
          List.inj_on_of_nodup_map hnames hother hrequest ((key_of_left h houtcome).symm.trans hkey)
        rw [hsame, hleft] at houtcome
        cases houtcome
      · apply (key_of_retained h hrest hrow).1
        rw [hkey]
        exact List.mem_map_of_mem hrequest

/-- What no request asks for in the result was retained. -/
theorem unasked_result (h : KeepsKeys key name outcome retain)
    (hrest : rest.Perm (unasked key name requests rows)) :
    unasked key name requests (found key name outcome requests rows ++ rest.filterMap retain) =
      rest.filterMap retain := by
  rw [unasked, List.filter_append, List.filter_eq_nil_iff.mpr, List.nil_append]
  · apply List.filter_eq_self.mpr
    intro row hrow
    exact decide_eq_true (key_of_retained h hrest hrow).1
  · intro row hrow hkey
    obtain ⟨request, hrequest, houtcome⟩ := List.mem_filterMap.mp hrow
    apply of_decide_eq_true hkey
    rw [key_of_left h houtcome]
    exact List.mem_map_of_mem hrequest

theorem unasked_map {move : α → α} (hmove : ∀ row, key (move row) = key row) (rows : List α) :
    unasked key name requests (rows.map move) = (unasked key name requests rows).map move := by
  rw [unasked, List.filter_map]
  congr 1
  apply List.filter_congr
  intro row _
  rw [Function.comp_apply, hmove]

end Pass

end Reconciliation
