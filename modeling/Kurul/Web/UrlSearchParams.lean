import Kurul.JsString
import Kurul.Urlencoded
import Kurul.Utf16

/-!
# Kurul.Web.UrlSearchParams

`URLSearchParams`: a list of names and values, each a well-formed string. What is handed to it is made
well-formed first.

* `ofString_toString` — the list written out and read again.
* `entries_foldl_append`, `entries_foldl_delete` — the two loops over one.
-/

namespace Kurul

/-- The characters of a string, its stray surrogates replaced. -/
def chars (s : JsString) : List Char := (Utf16.decode (Utf16.toWellFormed s)).getD []

theorem encode_chars {s : JsString} (h : Utf16.WellFormed s) : Utf16.encode (chars s) = s := by
  obtain ⟨cs, henc, hdec⟩ := h.exists_encode
  rw [chars, h.toWellFormed_eq, hdec, Option.getD_some, henc]

theorem chars_encode (cs : List Char) : chars (Utf16.encode cs) = cs := by
  rw [chars, (Utf16.wellFormed_encode cs).toWellFormed_eq, Utf16.decode_encode, Option.getD_some]

structure UrlSearchParams where
  entries : List (JsString × JsString)
  wellFormed : ∀ e ∈ entries, Utf16.WellFormed e.1 ∧ Utf16.WellFormed e.2

namespace UrlSearchParams

open Utf16 (toWellFormed wellFormed_toWellFormed)

variable {p p' : UrlSearchParams} {name value : JsString}

@[ext] theorem ext (h : p.entries = p'.entries) : p = p' := by
  cases p
  cases p'
  cases h
  rfl

/-- `new URLSearchParams()`. -/
def empty : UrlSearchParams := ⟨[], nofun⟩

def get (p : UrlSearchParams) (name : JsString) : Option JsString :=
  (p.entries.find? fun e => e.1 = toWellFormed name).map Prod.snd

def getAll (p : UrlSearchParams) (name : JsString) : List JsString :=
  (p.entries.filter fun e => e.1 = toWellFormed name).map Prod.snd

def keys (p : UrlSearchParams) : List JsString := p.entries.map Prod.fst

def append (p : UrlSearchParams) (name value : JsString) : UrlSearchParams where
  entries := p.entries ++ [(toWellFormed name, toWellFormed value)]
  wellFormed e he := by
    rcases List.mem_append.mp he with he | he
    · exact p.wellFormed e he
    · rw [List.mem_singleton.mp he]
      exact ⟨wellFormed_toWellFormed name, wellFormed_toWellFormed value⟩

def delete (p : UrlSearchParams) (name : JsString) : UrlSearchParams where
  entries := p.entries.filter fun e => e.1 ≠ toWellFormed name
  wellFormed e he := p.wellFormed e (List.mem_filter.mp he).1

/-- The first entry of a name gets the value, and the others of that name go. -/
def setEntries (name value : JsString) : List (JsString × JsString) → List (JsString × JsString)
  | [] => [(name, value)]
  | e :: rest =>
    if e.1 = name then (name, value) :: rest.filter fun e => e.1 ≠ name else e :: setEntries name value rest

theorem mem_setEntries {entries : List (JsString × JsString)} {e : JsString × JsString}
    (h : e ∈ setEntries name value entries) : e = (name, value) ∨ e ∈ entries := by
  induction entries with
  | nil => exact .inl (List.mem_singleton.mp h)
  | cons e' rest ih =>
    unfold setEntries at h
    split at h
    · rcases List.mem_cons.mp h with rfl | h
      · exact .inl rfl
      · exact .inr (List.mem_cons_of_mem _ (List.mem_filter.mp h).1)
    · rcases List.mem_cons.mp h with rfl | h
      · exact .inr List.mem_cons_self
      · exact (ih h).imp_right (List.mem_cons_of_mem _)

def set (p : UrlSearchParams) (name value : JsString) : UrlSearchParams where
  entries := setEntries (toWellFormed name) (toWellFormed value) p.entries
  wellFormed e he := by
    rcases mem_setEntries he with rfl | he
    · exact ⟨wellFormed_toWellFormed name, wellFormed_toWellFormed value⟩
    · exact p.wellFormed e he

def toString (p : UrlSearchParams) : JsString :=
  Utf16.encode (Urlencoded.serialize (p.entries.map fun e => (chars e.1, chars e.2)))

/-- `new URLSearchParams(init)` of a string, with or without its question mark. -/
def ofString (init : JsString) : UrlSearchParams where
  entries := (Urlencoded.parse (chars (if init.head? = some (Fin.ofNat 65536 63) then init.tail else init))).map
    fun e => (Utf16.encode e.1, Utf16.encode e.2)
  wellFormed e he := by
    obtain ⟨e, _, rfl⟩ := List.mem_map.mp he
    exact ⟨Utf16.wellFormed_encode e.1, Utf16.wellFormed_encode e.2⟩

/-- `url.searchParams`, of the query of a URL. -/
def ofQuery (query : List Char) : UrlSearchParams where
  entries := (Urlencoded.parse query).map fun e => (Utf16.encode e.1, Utf16.encode e.2)
  wellFormed e he := by
    obtain ⟨e, _, rfl⟩ := List.mem_map.mp he
    exact ⟨Utf16.wellFormed_encode e.1, Utf16.wellFormed_encode e.2⟩

/-! ## What they do -/

theorem entries_set_of_not_mem (h : toWellFormed name ∉ p.keys) :
    (p.set name value).entries = (p.append name value).entries := by
  have main : ∀ entries : List (JsString × JsString), toWellFormed name ∉ entries.map Prod.fst →
      setEntries (toWellFormed name) (toWellFormed value) entries =
        entries ++ [(toWellFormed name, toWellFormed value)] := by
    intro entries
    induction entries with
    | nil => exact fun _ => rfl
    | cons e rest ih =>
      intro hnot
      rw [List.map_cons, List.mem_cons, not_or] at hnot
      rw [setEntries, if_neg fun heq => hnot.1 heq.symm, ih hnot.2]
      rfl
  exact main p.entries h

/-- A unit that is no surrogate is the only one of its character. -/
theorem of_mem_encode {u : CodeUnit} {cs : List Char} (high : Utf16.isHigh u = false)
    (low : Utf16.isLow u = false) (h : u ∈ Utf16.encode cs) : Char.ofNat u.val ∈ cs := by
  obtain ⟨c, hc, hu⟩ := List.mem_flatMap.mp h
  rcases Utf16.units_cases c with ⟨v, hv, _, _, hchar⟩ | ⟨hi, lo, hv, hhi, hlo, _⟩
  · rw [hv] at hu
    rwa [List.mem_singleton.mp hu, hchar]
  · rw [hv] at hu
    simp only [List.mem_cons, List.not_mem_nil, or_false] at hu
    rcases hu with rfl | rfl
    · rw [high] at hhi
      cases hhi
    · rw [low] at hlo
      cases hlo

/-- What is written does not start with a question mark. -/
theorem head_toString (p : UrlSearchParams) : p.toString.head? ≠ some (Fin.ofNat 65536 63) := by
  intro h
  have hmem := of_mem_encode (by decide) (by decide) (List.mem_of_mem_head? h)
  rcases Urlencoded.mem_serialize hmem with hc | hc | ⟨cs, hc⟩
  · exact absurd hc (by decide)
  · exact absurd hc (by decide)
  · exact Urlencoded.not_mem_encode (by decide) (by decide) (by decide) (by decide) hc

theorem ofString_toString (p : UrlSearchParams) : ofString p.toString = p := by
  refine ext ?_
  change (Urlencoded.parse (chars (if p.toString.head? = some (Fin.ofNat 65536 63) then p.toString.tail
    else p.toString))).map (fun e => (Utf16.encode e.1, Utf16.encode e.2)) = p.entries
  rw [if_neg (head_toString p), toString, chars_encode, Urlencoded.parse_serialize, List.map_map]
  conv_rhs => rw [← List.map_id p.entries]
  refine List.map_congr_left fun e he => ?_
  obtain ⟨hname, hvalue⟩ := p.wellFormed e he
  exact Prod.ext (encode_chars hname) (encode_chars hvalue)

/-- Entries appended one by one. -/
theorem entries_foldl_append (p more : UrlSearchParams) :
    (more.entries.foldl (fun next e => next.append e.1 e.2) p).entries = p.entries ++ more.entries := by
  have main : ∀ (entries : List (JsString × JsString)) (p : UrlSearchParams),
      (∀ e ∈ entries, Utf16.WellFormed e.1 ∧ Utf16.WellFormed e.2) →
      (entries.foldl (fun next e => next.append e.1 e.2) p).entries = p.entries ++ entries := by
    intro entries
    induction entries with
    | nil => exact fun p _ => (List.append_nil _).symm
    | cons e rest ih =>
      intro p h
      obtain ⟨⟨hname, hvalue⟩, hrest⟩ := List.forall_mem_cons.mp h
      rw [List.foldl_cons, ih _ hrest, append]
      dsimp only
      rw [hname.toWellFormed_eq, hvalue.toWellFormed_eq, List.append_assoc]
      rfl
  exact main more.entries p more.wellFormed

/-- Every name that a test passes is deleted, looked for among the names there were at the start. -/
theorem entries_foldl_delete (p : UrlSearchParams) (drop : JsString → Bool) :
    (p.keys.foldl (fun next key => if drop key then next.delete key else next) p).entries =
      p.entries.filter fun e => !drop e.1 := by
  have main : ∀ (names : List JsString) (p : UrlSearchParams), (∀ n ∈ names, Utf16.WellFormed n) →
      (names.foldl (fun next key => if drop key then next.delete key else next) p).entries =
        p.entries.filter fun e => !(drop e.1 && e.1 ∈ names) := by
    intro names
    induction names with
    | nil => intro p _; simp
    | cons n names ih =>
      intro p h
      obtain ⟨hn, hnames⟩ := List.forall_mem_cons.mp h
      rw [List.foldl_cons, ih _ hnames]
      by_cases hdrop : drop n = true
      · rw [if_pos hdrop, delete]
        dsimp only
        rw [hn.toWellFormed_eq, List.filter_filter]
        refine List.filter_congr fun e _ => ?_
        by_cases he : e.1 = n
        · simp [he, hdrop]
        · simp [he]
      · rw [if_neg hdrop]
        refine List.filter_congr fun e _ => ?_
        by_cases he : e.1 = n
        · simp [he, hdrop]
        · simp [he]
  have hkeys : ∀ n ∈ p.keys, Utf16.WellFormed n := by
    intro n hn
    obtain ⟨e, he, rfl⟩ := List.mem_map.mp hn
    exact (p.wellFormed e he).1
  rw [main p.keys p hkeys]
  refine List.filter_congr fun e he => ?_
  have hmem : e.1 ∈ p.keys := List.mem_map_of_mem he
  simp [hmem]

/-- Names that are not there yet, set one by one. -/
theorem entries_foldl_set (fields : List (JsString × Option JsString)) (hdistinct : (fields.map Prod.fst).Nodup)
    (hnames : ∀ n ∈ fields.map Prod.fst, toWellFormed n = n) (p : UrlSearchParams)
    (hnew : ∀ n ∈ fields.map Prod.fst, n ∉ p.keys) :
    (fields.foldl (fun params field => match field.2 with
      | some value => params.set field.1 value
      | none => params) p).entries =
      p.entries ++ fields.filterMap fun field => field.2.map fun value => (field.1, toWellFormed value) := by
  induction fields generalizing p with
  | nil => exact (List.append_nil _).symm
  | cons field rest ih =>
    obtain ⟨name, value⟩ := field
    rw [List.map_cons, List.nodup_cons] at hdistinct
    rw [List.map_cons, List.forall_mem_cons] at hnames hnew
    cases value with
    | none =>
      rw [List.foldl_cons, List.filterMap_cons_none rfl]
      exact ih hdistinct.2 hnames.2 p hnew.2
    | some value =>
      have hset : (p.set name value).entries = p.entries ++ [(name, toWellFormed value)] := by
        rw [entries_set_of_not_mem (by rw [hnames.1]; exact hnew.1), append]
        dsimp only
        rw [hnames.1]
      have hlater : ∀ n ∈ rest.map Prod.fst, n ∉ (p.set name value).keys := by
        intro n hn hmem
        rw [keys, hset, List.map_append, List.mem_append] at hmem
        rcases hmem with hmem | hmem
        · exact hnew.2 n hn hmem
        · obtain rfl : n = name := by simpa using hmem
          exact hdistinct.1 hn
      rw [List.foldl_cons, ih hdistinct.2 hnames.2 _ hlater, hset, List.append_assoc]
      rfl

theorem get_eq_head? (p : UrlSearchParams) (name : JsString) : p.get name = (p.getAll name).head? := by
  rw [get, getAll, List.head?_map, List.head?_filter]

end UrlSearchParams
end Kurul
