import Kurul.Activity
import Kurul.Web.UrlSearchParams

/-!
# Kurul.Web.TaskQuery

The filters of the board view in the address of the page: read from it, written to it, and written
over those that are there.

* `filters_survive` — what is read after that, and what else the address keeps.
-/

namespace Kurul
namespace Web

open Utf16 (toWellFormed)

structure BoardTaskFilters where
  q : Option JsString
  priority : Option (List Priority)
  /-- User ids, or `null`. -/
  assigneeId : Option (List JsString)
  labelId : Option (List JsString)
  dueDateNull : Option Bool
  dueDateGte : Option JsString
  dueDateLte : Option JsString
  deriving DecidableEq

/-- `Object.values(PriorityEnum)`. -/
def priorityValues : List Priority := [.low, .medium, .high, .urgent]

def filterKeys : List JsString :=
  [js "q", js "priority", js "assigneeId", js "labelId", js "dueDate", js "dueDate[gte]", js "dueDate[lte]"]

def comma : CodeUnit := Fin.ofNat 65536 44

def collectList (params : UrlSearchParams) (key : JsString) : List JsString :=
  (params.getAll key).flatMap fun entry => ((entry.splitOn comma).map trim).filter truthy

/-- A list that is set only if it has entries. -/
def nonEmpty {α : Type} (l : List α) : Option (List α) := if l.isEmpty then none else some l

def parseFiltersFromSearchParams (params : UrlSearchParams) : BoardTaskFilters where
  q := ((params.get (js "q")).map trim).filter truthy
  priority := nonEmpty ((collectList params (js "priority")).filterMap fun value =>
    priorityValues.find? fun p => p.text = value)
  assigneeId := nonEmpty (collectList params (js "assigneeId"))
  labelId := nonEmpty (collectList params (js "labelId"))
  dueDateNull := if params.get (js "dueDate") = some (js "null") then some true else none
  dueDateGte := (params.get (js "dueDate[gte]")).filter truthy
  dueDateLte := (params.get (js "dueDate[lte]")).filter truthy

/-- `values.join(',')`, of a list that has entries. -/
def joined (values : Option (List JsString)) : Option JsString :=
  (values.filter fun l => !l.isEmpty).map fun l => [comma].intercalate l

/-- What `serializeFiltersToSearchParams` sets, key by key. -/
def BoardTaskFilters.fields (f : BoardTaskFilters) : List (JsString × Option JsString) :=
  [(js "q", (f.q.map trim).filter truthy),
    (js "priority", joined (f.priority.map (List.map Priority.text))),
    (js "assigneeId", joined f.assigneeId),
    (js "labelId", joined f.labelId),
    (js "dueDate", if f.dueDateNull = some true then some (js "null") else none),
    (js "dueDate[gte]", f.dueDateGte.filter truthy),
    (js "dueDate[lte]", f.dueDateLte.filter truthy)]

def serializeFiltersToSearchParams (f : BoardTaskFilters) : UrlSearchParams :=
  f.fields.foldl (fun params field => match field.2 with
    | some value => params.set field.1 value
    | none => params) .empty

def mergeFiltersIntoSearchParams (current : UrlSearchParams) (f : BoardTaskFilters) : UrlSearchParams :=
  let next := UrlSearchParams.ofString current.toString
  let next := next.keys.foldl (fun next key => if key ∈ filterKeys then next.delete key else next) next
  (serializeFiltersToSearchParams f).entries.foldl (fun next e => next.append e.1 e.2) next

/-! ## What is asked of the filters -/

/-- Entries that can be told apart in a list: no comma, no space around them, and not empty. -/
def Listable (l : List JsString) : Prop := ∀ e ∈ l, comma ∉ e ∧ trim e = e ∧ e ≠ []

/-- `q` trimmed, and the fields that are empty left out. -/
def BoardTaskFilters.trimmed (f : BoardTaskFilters) : BoardTaskFilters where
  q := (f.q.map trim).filter truthy
  priority := f.priority.bind nonEmpty
  assigneeId := f.assigneeId.bind nonEmpty
  labelId := f.labelId.bind nonEmpty
  dueDateNull := if f.dueDateNull = some true then some true else none
  dueDateGte := f.dueDateGte.filter truthy
  dueDateLte := f.dueDateLte.filter truthy

/-- Every string made well-formed. -/
def BoardTaskFilters.toWellFormed (f : BoardTaskFilters) : BoardTaskFilters where
  q := f.q.map Utf16.toWellFormed
  priority := f.priority
  assigneeId := f.assigneeId.map (List.map Utf16.toWellFormed)
  labelId := f.labelId.map (List.map Utf16.toWellFormed)
  dueDateNull := f.dueDateNull
  dueDateGte := f.dueDateGte.map Utf16.toWellFormed
  dueDateLte := f.dueDateLte.map Utf16.toWellFormed

/-- A search for half of a character. -/
def strayQuery : BoardTaskFilters := ⟨some [Fin.ofNat 65536 0xd800], none, none, none, none, none, none⟩

/-- What is found in the address is another search. -/
theorem parse_merge_stray :
    parseFiltersFromSearchParams (mergeFiltersIntoSearchParams .empty strayQuery) ≠ strayQuery.trimmed := by
  decide +kernel

/-! ## Trimmed strings -/

section Trim

variable {s : JsString} {c : CodeUnit} {l : List JsString}

theorem trim_eq_self (hhead : ∀ c ∈ s.head?, isSpace c = false)
    (hlast : ∀ c ∈ s.getLast?, isSpace c = false) : trim s = s := by
  have hdrop : ∀ {s : JsString}, (∀ c ∈ s.head?, isSpace c = false) → s.dropWhile isSpace = s := by
    intro s h
    cases s with
    | nil => rfl
    | cons c s => rw [List.dropWhile_cons, if_neg (by rw [h c rfl]; simp)]
  unfold trim
  rw [hdrop hhead, hdrop (by rwa [List.head?_reverse]), List.reverse_reverse]

/-- A trimmed string starts and ends with no space. -/
theorem ends_trim (s : JsString) :
    (∀ c ∈ (trim s).head?, isSpace c = false) ∧ ∀ c ∈ (trim s).getLast?, isSpace c = false := by
  have hhead : ∀ s : JsString, ∀ c ∈ (s.dropWhile isSpace).head?, isSpace c = false := by
    intro s c hc
    have hnot := List.head?_dropWhile_not isSpace s
    rw [Option.mem_def.mp hc] at hnot
    exact hnot
  constructor
  · intro c hc
    refine hhead s c ?_
    have hprefix : trim s <+: s.dropWhile isSpace := by
      rw [trim, ← List.reverse_suffix, List.reverse_reverse]
      exact List.dropWhile_suffix isSpace
    obtain ⟨t, ht⟩ := hprefix
    rw [← ht, List.head?_append, Option.mem_def.mp hc]
    rfl
  · intro c hc
    rw [trim, List.getLast?_reverse] at hc
    exact hhead _ c hc

theorem trim_trim (s : JsString) : trim (trim s) = trim s := trim_eq_self (ends_trim s).1 (ends_trim s).2

theorem isSpace_replaces {u v : CodeUnit} (h : Utf16.Replaces u v) (hu : isSpace u = false) :
    isSpace v = false := by
  rcases h with rfl | ⟨_, rfl⟩
  · exact hu
  · rfl

/-- Replacing stray surrogates leaves a string trimmed. -/
theorem trim_toWellFormed (h : trim s = s) : trim (toWellFormed s) = toWellFormed s := by
  have hends := ends_trim s
  rw [h] at hends
  have hrel := Utf16.replaces_toWellFormed s
  have hfirst : ∀ {s t : JsString}, List.Forall₂ Utf16.Replaces s t → (∀ c ∈ s.head?, isSpace c = false) →
      ∀ c ∈ t.head?, isSpace c = false := by
    intro s t hrel hs c hc
    cases hrel with
    | nil => cases hc
    | cons huv _ =>
      cases hc
      exact isSpace_replaces huv (hs _ rfl)
  refine trim_eq_self (hfirst hrel hends.1) ?_
  rw [← List.head?_reverse]
  exact hfirst (List.forall₂_reverse_iff.mpr hrel) (by rw [List.head?_reverse]; exact hends.2)

theorem toWellFormed_ne_nil (h : s ≠ []) : toWellFormed s ≠ [] := by
  have hlen := (Utf16.replaces_toWellFormed s).length_eq
  intro hnil
  rw [hnil] at hlen
  exact h (List.eq_nil_of_length_eq_zero hlen)

theorem toWellFormed_joined (l : List JsString) :
    toWellFormed ([comma].intercalate l) = [comma].intercalate (l.map toWellFormed) := by
  induction l with
  | nil => rfl
  | cons e rest ih =>
    cases rest with
    | nil => simp
    | cons e' rest =>
      rw [List.intercalate_cons_cons, List.append_assoc, List.singleton_append,
        Utf16.toWellFormed_append (by decide) (by decide), ih]
      simp

theorem Listable.toWellFormed (h : Listable l) : Listable (l.map Utf16.toWellFormed) := by
  intro e he
  obtain ⟨e, hmem, rfl⟩ := List.mem_map.mp he
  obtain ⟨hcomma, htrim, hne⟩ := h e hmem
  refine ⟨fun hc => ?_, trim_toWellFormed htrim, toWellFormed_ne_nil hne⟩
  rcases Utf16.mem_toWellFormed hc with hc | hc
  · exact hcomma hc
  · exact absurd hc (by decide)

/-- A joined list is cut into its entries again. -/
theorem split_joined (h : Listable l) (hne : l ≠ []) :
    ((([comma].intercalate l).splitOn comma).map trim).filter truthy = l := by
  have htrim : l.map trim = l := by
    conv_rhs => rw [← List.map_id l]
    exact List.map_congr_left fun e he => (h e he).2.1
  rw [List.splitOn_intercalate comma (fun e he => (h e he).1) hne, htrim]
  exact List.filter_eq_self.mpr fun e he => truthy_iff.mpr (h e he).2.2

end Trim

/-! ## What is written -/

section Merge

variable {p : UrlSearchParams} {f g : BoardTaskFilters} {key : JsString} {value : Option JsString}

theorem names_fields (f : BoardTaskFilters) : f.fields.map Prod.fst = filterKeys := rfl

theorem nodup_filterKeys : filterKeys.Nodup := by decide +kernel

theorem wellFormed_filterKeys : ∀ key ∈ filterKeys, toWellFormed key = key := by decide +kernel

theorem entries_serialize (f : BoardTaskFilters) : (serializeFiltersToSearchParams f).entries =
    f.fields.filterMap fun field => field.2.map fun value => (field.1, toWellFormed value) :=
  UrlSearchParams.entries_foldl_set f.fields nodup_filterKeys wellFormed_filterKeys .empty nofun

/-- Merged, the other entries come first, as they were, and then the filters. -/
theorem entries_merge (p : UrlSearchParams) (f : BoardTaskFilters) :
    (mergeFiltersIntoSearchParams p f).entries =
      (p.entries.filter fun e => e.1 ∉ filterKeys) ++ (serializeFiltersToSearchParams f).entries := by
  unfold mergeFiltersIntoSearchParams
  have hdelete := UrlSearchParams.entries_foldl_delete p fun key => decide (key ∈ filterKeys)
  simp only [decide_eq_true_eq] at hdelete
  rw [UrlSearchParams.entries_foldl_append, UrlSearchParams.ofString_toString, hdelete]
  simp

theorem filter_serialize (f : BoardTaskFilters) :
    ((serializeFiltersToSearchParams f).entries.filter fun e => e.1 ∉ filterKeys) = [] := by
  refine List.filter_eq_nil_iff.mpr fun e he => ?_
  rw [entries_serialize] at he
  obtain ⟨field, hfield, heq⟩ := List.mem_filterMap.mp he
  obtain ⟨value, _, rfl⟩ := Option.map_eq_some_iff.mp heq
  have hkey : field.1 ∈ filterKeys := names_fields f ▸ List.mem_map_of_mem hfield
  simpa using hkey

/-- The other entries are kept, in their order. -/
theorem filter_merge (p : UrlSearchParams) (f : BoardTaskFilters) :
    ((mergeFiltersIntoSearchParams p f).entries.filter fun e => e.1 ∉ filterKeys) =
      p.entries.filter fun e => e.1 ∉ filterKeys := by
  rw [entries_merge, List.filter_append, filter_serialize, List.append_nil, List.filter_filter]
  simp

/-- Filters written over others leave nothing of them. -/
theorem merge_merge (p : UrlSearchParams) (f g : BoardTaskFilters) :
    mergeFiltersIntoSearchParams (mergeFiltersIntoSearchParams p f) g = mergeFiltersIntoSearchParams p g := by
  refine UrlSearchParams.ext ?_
  rw [entries_merge, entries_merge p g, filter_merge]

/-! ## What is read -/

/-- Of entries under different names, those under one name. -/
theorem filter_filterMap {fields : List (JsString × Option JsString)} (hdistinct : (fields.map Prod.fst).Nodup)
    (h : (key, value) ∈ fields) :
    ((fields.filterMap fun field => field.2.map fun value => (field.1, toWellFormed value)).filter
      fun e => e.1 = key).map Prod.snd = value.toList.map toWellFormed := by
  induction fields with
  | nil => cases h
  | cons field rest ih =>
    obtain ⟨name, sent⟩ := field
    rw [List.map_cons, List.nodup_cons] at hdistinct
    rcases List.mem_cons.mp h with heq | hrest
    · cases heq
      have hnone : ((rest.filterMap fun field => field.2.map fun value =>
          (field.1, toWellFormed value)).filter fun e => e.1 = key) = [] := by
        refine List.filter_eq_nil_iff.mpr fun e he => ?_
        obtain ⟨field, hfield, heq⟩ := List.mem_filterMap.mp he
        obtain ⟨_, _, rfl⟩ := Option.map_eq_some_iff.mp heq
        simp only [decide_eq_true_eq]
        rintro rfl
        exact hdistinct.1 (List.mem_map.mpr ⟨field, hfield, rfl⟩)
      cases value with
      | none => simp [hnone]
      | some value => simp [hnone]
    · have hne : name ≠ key := by
        rintro rfl
        exact hdistinct.1 (List.mem_map.mpr ⟨_, hrest, rfl⟩)
      cases sent with
      | none => simpa using ih hdistinct.2 hrest
      | some sent => simpa [hne] using ih hdistinct.2 hrest

theorem getAll_merge (h : (key, value) ∈ f.fields) :
    (mergeFiltersIntoSearchParams p f).getAll key = value.toList.map toWellFormed := by
  have hkey : key ∈ filterKeys := names_fields f ▸ List.mem_map_of_mem h
  have hother : ((p.entries.filter fun e => e.1 ∉ filterKeys).filter fun e => e.1 = key) = [] := by
    refine List.filter_eq_nil_iff.mpr fun e he => ?_
    have hnot := (List.mem_filter.mp he).2
    simp only [decide_eq_true_eq] at hnot ⊢
    rintro rfl
    exact hnot hkey
  rw [UrlSearchParams.getAll, wellFormed_filterKeys key hkey, entries_merge, List.filter_append, hother,
    List.nil_append, entries_serialize]
  exact filter_filterMap nodup_filterKeys h

theorem get_merge (h : (key, value) ∈ f.fields) :
    (mergeFiltersIntoSearchParams p f).get key = value.map toWellFormed := by
  rw [UrlSearchParams.get_eq_head?, getAll_merge h]
  cases value <;> rfl

/-- A list is read as it was written. -/
theorem collectList_merge (values : Option (List JsString)) (hvalues : ∀ l ∈ values, Listable l)
    (h : (key, joined values) ∈ f.fields) :
    collectList (mergeFiltersIntoSearchParams p f) key = (values.getD []).map toWellFormed := by
  rw [collectList, getAll_merge h]
  cases values with
  | none => rfl
  | some l =>
    cases l with
    | nil => rfl
    | cons e rest =>
      have hl := (hvalues _ rfl).toWellFormed
      have hsplit := split_joined hl (by simp)
      have hvalue : (joined (some (e :: rest))).toList.map toWellFormed =
          [[comma].intercalate ((e :: rest).map toWellFormed)] := by
        rw [← toWellFormed_joined]
        rfl
      rw [hvalue, List.flatMap_singleton]
      exact hsplit

theorem nonEmpty_map (values : Option (List JsString)) :
    nonEmpty ((values.getD []).map toWellFormed) = (values.bind nonEmpty).map (List.map toWellFormed) := by
  cases values with
  | none => rfl
  | some l => cases l <;> rfl

/-- A text that is empty is not there. -/
theorem filter_map_toWellFormed (text : Option JsString) :
    ((text.filter truthy).map toWellFormed).filter truthy = (text.filter truthy).map toWellFormed := by
  cases hkept : text.filter truthy with
  | none => rfl
  | some s =>
    have hne := truthy_iff.mp (Option.filter_eq_some_iff.mp hkept).2
    simp [toWellFormed_ne_nil hne]

theorem listable_text (ps : List Priority) : Listable (ps.map Priority.text) := by
  intro e he
  obtain ⟨p, _, rfl⟩ := List.mem_map.mp he
  cases p <;> decide +kernel

theorem find_text (ps : List Priority) :
    (ps.map Priority.text).filterMap (fun value => priorityValues.find? fun p => p.text = value) = ps := by
  induction ps with
  | nil => rfl
  | cons p ps ih =>
    have hfind : (priorityValues.find? fun q => q.text = p.text) = some p := by
      cases p <;> decide +kernel
    rw [List.map_cons, List.filterMap_cons, hfind, ih]

theorem wellFormed_text (ps : List Priority) : (ps.map Priority.text).map toWellFormed = ps.map Priority.text := by
  rw [List.map_map]
  refine List.map_congr_left fun p _ => ?_
  cases p <;> decide +kernel

/-- A search is trimmed once. -/
theorem filter_trim_toWellFormed (text : Option JsString) :
    ((((text.map trim).filter truthy).map toWellFormed).map trim).filter truthy =
      ((text.map trim).filter truthy).map toWellFormed := by
  have htrim : (((text.map trim).filter truthy).map toWellFormed).map trim =
      ((text.map trim).filter truthy).map toWellFormed := by
    cases text with
    | none => rfl
    | some s =>
      rw [Option.map_some]
      by_cases h : truthy (trim s) = true
      · simp [Option.filter_some, h, trim_toWellFormed (trim_trim s)]
      · simp [Option.filter_some, h]
  rw [htrim]
  exact filter_map_toWellFormed _

theorem nonEmpty_priority (priorities : Option (List Priority)) :
    nonEmpty ((((priorities.map (List.map Priority.text)).getD []).map toWellFormed).filterMap fun value =>
      priorityValues.find? fun p => p.text = value) = priorities.bind nonEmpty := by
  cases priorities with
  | none => rfl
  | some ps =>
    rw [Option.map_some, Option.getD_some, wellFormed_text, find_text]
    rfl

theorem parse_merge (hassignees : ∀ l ∈ f.assigneeId, Listable l) (hlabels : ∀ l ∈ f.labelId, Listable l) :
    parseFiltersFromSearchParams (mergeFiltersIntoSearchParams p f) = f.trimmed.toWellFormed := by
  have hq : (mergeFiltersIntoSearchParams p f).get (js "q") = _ := get_merge (f := f) (.head _)
  have htexts : ∀ l ∈ f.priority.map (List.map Priority.text), Listable l := by
    intro l hl
    obtain ⟨ps, _, rfl⟩ := Option.map_eq_some_iff.mp hl
    exact listable_text ps
  have hpriority : collectList (mergeFiltersIntoSearchParams p f) (js "priority") = _ :=
    collectList_merge (f := f) (f.priority.map (List.map Priority.text)) htexts (.tail _ (.head _))
  have hassignee : collectList (mergeFiltersIntoSearchParams p f) (js "assigneeId") = _ :=
    collectList_merge (f := f) f.assigneeId hassignees (.tail _ (.tail _ (.head _)))
  have hlabel : collectList (mergeFiltersIntoSearchParams p f) (js "labelId") = _ :=
    collectList_merge (f := f) f.labelId hlabels (.tail _ (.tail _ (.tail _ (.head _))))
  have hdue : (mergeFiltersIntoSearchParams p f).get (js "dueDate") = _ :=
    get_merge (f := f) (.tail _ (.tail _ (.tail _ (.tail _ (.head _)))))
  have hgte : (mergeFiltersIntoSearchParams p f).get (js "dueDate[gte]") = _ :=
    get_merge (f := f) (.tail _ (.tail _ (.tail _ (.tail _ (.tail _ (.head _))))))
  have hlte : (mergeFiltersIntoSearchParams p f).get (js "dueDate[lte]") = _ :=
    get_merge (f := f) (.tail _ (.tail _ (.tail _ (.tail _ (.tail _ (.tail _ (.head _)))))))
  unfold parseFiltersFromSearchParams BoardTaskFilters.trimmed BoardTaskFilters.toWellFormed
  rw [hq, hpriority, hassignee, hlabel, hdue, hgte, hlte]
  rw [BoardTaskFilters.mk.injEq]
  refine ⟨?_, ?_, ?_, ?_, ?_, ?_, ?_⟩
  · exact filter_trim_toWellFormed f.q
  · exact nonEmpty_priority f.priority
  · exact nonEmpty_map _
  · exact nonEmpty_map _
  · by_cases hnull : f.dueDateNull = some true
    · rw [if_pos hnull, if_pos hnull, Option.map_some, if_pos (by decide +kernel)]
    · rw [if_neg hnull, if_neg hnull, Option.map_none, if_neg nofun]
  · exact filter_map_toWellFormed _
  · exact filter_map_toWellFormed _

/-- Filters written into an address are read from it again, and what else is in it stays; written twice,
or over other filters, they are there as if written once. -/
theorem filters_survive (p : UrlSearchParams) (f g : BoardTaskFilters)
    (hassignees : ∀ l ∈ f.assigneeId, Listable l) (hlabels : ∀ l ∈ f.labelId, Listable l) :
    parseFiltersFromSearchParams (mergeFiltersIntoSearchParams p f) = f.trimmed.toWellFormed ∧
      ((mergeFiltersIntoSearchParams p f).entries.filter fun e => e.1 ∉ filterKeys) =
        (p.entries.filter fun e => e.1 ∉ filterKeys) ∧
      mergeFiltersIntoSearchParams (mergeFiltersIntoSearchParams p f) f = mergeFiltersIntoSearchParams p f ∧
      mergeFiltersIntoSearchParams (mergeFiltersIntoSearchParams p f) g = mergeFiltersIntoSearchParams p g :=
  ⟨parse_merge hassignees hlabels, filter_merge p f, merge_merge p f f, merge_merge p f g⟩

/-- The tasks of nobody, looked for while a task is open. -/
theorem filters_survive_unassigned :
    let p := UrlSearchParams.empty.append (js "task") (js "t1")
    let f : BoardTaskFilters := ⟨some (js " door "), none, some [js "null"], none, none, none, none⟩
    (parseFiltersFromSearchParams (mergeFiltersIntoSearchParams p f)).q = some (js "door") := by
  intro p f
  have hlist : Listable [js "null"] := by
    intro e he
    rw [List.mem_singleton.mp he]
    decide +kernel
  have hassignees : ∀ l ∈ f.assigneeId, Listable l := by
    intro l hl
    cases hl
    exact hlist
  rw [(filters_survive p f f hassignees nofun).1]
  decide +kernel

end Merge

end Web
end Kurul
