import Sfcb.Object.PlainData

/-!
# An instance is a map

For plain data an instance should behave as a map from names to the values last set. It
does as long as

- a value is set where the property is new or kept the storage of its type: a NULL that
  is set with another type changes that (`SetCall.fits`);
- there is room in the buffers and the section (`Call.HasRoomIn`). An array that is set
  to NULL is not given back, so setting an array and NULL in turn runs out of it
  (`setProperty_runs_out`).

`Represents` relates an instance to the map, `setProperty_represents` is one call, and
`runSets_agrees` a run.
-/

namespace Sfcb.Object

open Sfcb.Lib Sfcb.Lib.IndexedBuf

/-! ## The map -/

/-- A name, as it was first spelled, and the last call that set it. -/
structure Entry where
  name : CStr
  last : SetCall
  deriving DecidableEq, Repr

/-- Setting a property in the map. -/
def setEntry (c : SetCall) : List Entry → List Entry
  | [] => [⟨c.name, c⟩]
  | e :: es => if fold c.name = fold e.name then ⟨e.name, c⟩ :: es else e :: setEntry c es

/-- Looking one up. -/
def lookup (m : List Entry) (name : CStr) : Option SetCall :=
  (m.find? fun e => fold name = fold e.name).map Entry.last

theorem setEntry_none {c : SetCall} {m : List Entry}
    (h : m.findIdx? (fun e => fold c.name = fold e.name) = none) :
    setEntry c m = m ++ [⟨c.name, c⟩] := by
  induction m with
  | nil => rfl
  | cons e es ih =>
    rw [List.findIdx?_cons] at h
    split at h
    · exact absurd h (by simp)
    · next hne =>
      unfold setEntry
      rw [if_neg (by simpa using hne), ih (Option.map_eq_none_iff.mp h)]
      rfl

theorem setEntry_some {c : SetCall} {m : List Entry} {k : Nat} {e : Entry}
    (h : m.findIdx? (fun e => fold c.name = fold e.name) = some k) (hk : m[k]? = some e) :
    setEntry c m = m.set k ⟨e.name, c⟩ := by
  induction m generalizing k with
  | nil => exact absurd h (by simp)
  | cons e' es ih =>
    rw [List.findIdx?_cons] at h
    unfold setEntry
    split at h
    · next heq =>
      obtain rfl : 0 = k := Option.some.inj h
      obtain rfl : e' = e := by simpa using hk
      rw [if_pos (by simpa using heq)]
      rfl
    · next hne =>
      obtain ⟨j, hj, rfl⟩ := Option.map_eq_some_iff.mp h
      rw [if_neg (by simpa using hne), ih hj (by simpa using hk)]
      rfl

/-- The map of a run. -/
def entriesOf (calls : List SetCall) : List Entry := calls.foldl (fun m c => setEntry c m) []

/-- The last call that set a name. -/
def lastSet (calls : List SetCall) (name : CStr) : Option SetCall :=
  calls.reverse.find? fun c => fold name = fold c.name

theorem lookup_setEntry (m : List Entry) (c : SetCall) (name : CStr) :
    lookup (setEntry c m) name = if fold name = fold c.name then some c else lookup m name := by
  induction m with
  | nil =>
    unfold lookup setEntry
    by_cases h : fold name = fold c.name
    · rw [if_pos h, List.find?_cons_of_pos (by simpa using h)]
      rfl
    · rw [if_neg h, List.find?_cons_of_neg (by simpa using h)]
  | cons e es ih =>
    unfold setEntry
    unfold lookup at ih ⊢
    by_cases hc : fold c.name = fold e.name
    · rw [if_pos hc]
      by_cases h : fold name = fold e.name
      · rw [List.find?_cons_of_pos (by simpa using h), if_pos (h.trans hc.symm)]
        rfl
      · rw [List.find?_cons_of_neg (by simpa using h), List.find?_cons_of_neg (by simpa using h),
          if_neg (fun heq => h (heq.trans hc))]
    · rw [if_neg hc]
      by_cases h : fold name = fold e.name
      · rw [List.find?_cons_of_pos (by simpa using h), List.find?_cons_of_pos (by simpa using h),
          if_neg (fun heq => hc (heq.symm.trans h))]
      · rw [List.find?_cons_of_neg (by simpa using h), List.find?_cons_of_neg (by simpa using h)]
        exact ih

theorem lookup_entriesOf (calls : List SetCall) (name : CStr) :
    lookup (entriesOf calls) name = lastSet calls name := by
  have hfrom : ∀ m, lookup (calls.foldl (fun m c => setEntry c m) m) name =
      (lastSet calls name).or (lookup m name) := by
    induction calls with
    | nil => exact fun m => rfl
    | cons c cs ih =>
      intro m
      rw [List.foldl_cons, ih, lookup_setEntry]
      unfold lastSet
      rw [List.reverse_cons, List.find?_append, Option.or_assoc]
      by_cases h : fold name = fold c.name
      · rw [if_pos h, List.find?_cons_of_pos (by simpa using h)]
        rfl
      · rw [if_neg h, List.find?_cons_of_neg (by simpa using h)]
        rfl
  have := hfrom []
  rwa [show lookup [] name = none from rfl, Option.or_none] at this

/-- The names of the map, as they are compared. -/
def names (m : List Entry) : List CStr := m.map fun e => fold e.name

theorem mem_names_setEntry (c : SetCall) (m : List Entry) (k : CStr) :
    k ∈ names (setEntry c m) ↔ k ∈ names m ∨ fold c.name = k := by
  unfold names
  induction m with
  | nil => simp [setEntry, eq_comm]
  | cons e es ih =>
    unfold setEntry
    split
    · next heq =>
      rw [heq]
      simp only [List.map_cons, List.mem_cons]
      exact ⟨Or.inl, fun h => h.elim id fun h => Or.inl h.symm⟩
    · rw [List.map_cons, List.mem_cons, ih, List.map_cons, List.mem_cons, or_assoc]

theorem nodup_names_setEntry (c : SetCall) {m : List Entry} (hm : (names m).Nodup) :
    (names (setEntry c m)).Nodup := by
  induction m with
  | nil => simp [names, setEntry]
  | cons e es ih =>
    unfold names at hm
    rw [List.map_cons, List.nodup_cons] at hm
    unfold setEntry
    split
    · exact List.nodup_cons.mpr hm
    · next hne =>
      refine List.nodup_cons.mpr ⟨fun hmem => ?_, ih hm.2⟩
      rcases (mem_names_setEntry c es _).mp hmem with hmem | heq
      · exact hm.1 hmem
      · exact hne heq

/-- No name is there twice, and those are there that were set. -/
theorem names_entriesOf (calls : List SetCall) :
    (names (entriesOf calls)).Nodup ∧
      ∀ k, k ∈ names (entriesOf calls) ↔ ∃ c ∈ calls, fold c.name = k := by
  have hfrom : ∀ m : List Entry, (names m).Nodup →
      (names (calls.foldl (fun m c => setEntry c m) m)).Nodup ∧
      ∀ k, k ∈ names (calls.foldl (fun m c => setEntry c m) m) ↔
        k ∈ names m ∨ ∃ c ∈ calls, fold c.name = k := by
    induction calls with
    | nil => exact fun m hm => ⟨hm, fun k => by simp⟩
    | cons c cs ih =>
      intro m hm
      obtain ⟨hnodup, hmem⟩ := ih (setEntry c m) (nodup_names_setEntry c hm)
      refine ⟨hnodup, fun k => ?_⟩
      rw [List.foldl_cons, hmem, mem_names_setEntry, or_assoc]
      simp
  obtain ⟨hnodup, hmem⟩ := hfrom [] List.nodup_nil
  exact ⟨hnodup, fun k => (hmem k).trans (by simp [names])⟩

/-! ## Instances and maps -/

/-- What `getProperty` should say about a name that was last set so, or never. -/
def answer : Option SetCall → CMPIData × Int
  | none => (⟨CMPIBase.null.simple, notFoundState, .word 0⟩, notFound)
  | some c => (c.got, 0)

/-- Property `i` has the name and the value of an entry. -/
structure PropertyOk (g : Owned) (i : Nat) (p : ClProperty) (e : Entry) : Prop where
  name : ∃ k, p.id = k + 1 ∧ g.strs[k]? = some (.fixed, e.name)
  quals : p.quals = 0
  data : DataOk g i p.data e.last

/-- The properties of an instance are the entries of a map, in their order. -/
structure Represents (i : NativeInstance) (g : Owned) (m : List Entry) : Prop where
  unfiltered : i.filtered = false
  of : g.Of i.hdl.hdr
  length : i.hdl.properties.items.length = m.length
  property : ∀ {k : Nat} {p : ClProperty} {e : Entry}, i.hdl.properties.items[k]? = some p →
    m[k]? = some e → PropertyOk g k p e
  entry : ∀ e ∈ m, e.last.proper = true ∧ 0 ∉ e.name

theorem PropertyOk.keeps {g g' : Owned} {i j : Nat} {p : ClProperty} {e : Entry}
    (h : PropertyOk g j p e) (hkeeps : Keeps i g g') (hne : j ≠ i) : PropertyOk g' j p e := by
  obtain ⟨k, hid, hk⟩ := h.name
  exact ⟨⟨k, hid, hkeeps.strs hk (by simp)⟩, h.quals, h.data.keeps hkeeps hne⟩

section Representing

variable {i : NativeInstance} {g : Owned} {m : List Entry}

/-- A name is found where the map has it. -/
theorem Represents.locate_eq (h : Represents i g m) {name : CStr} (hname : 0 ∉ name) :
    locateProperty i.hdl.hdr i.hdl.properties.items name =
      m.findIdx? fun e => fold name = fold e.name := by
  -- the names are compared by place, one with the other
  have hmap : i.hdl.properties.items.map (ClProperty.isNamed i.hdl.hdr name) =
      m.map fun e => decide (fold name = fold e.name) := by
    refine List.ext_getElem? fun k => ?_
    rw [List.getElem?_map, List.getElem?_map]
    cases hp : i.hdl.properties.items[k]? with
    | none =>
      have hnone : m[k]? = none := by
        rw [List.getElem?_eq_none_iff, ← h.length]
        exact List.getElem?_eq_none_iff.mp hp
      rw [hnone]
      rfl
    | some p =>
      obtain ⟨hlt, -⟩ := List.getElem?_eq_some_iff.mp hp
      have he := List.getElem?_eq_getElem (h.length ▸ hlt)
      obtain ⟨j, hid, hj⟩ := (h.property hp he).name
      have hnozero := (h.entry _ (List.mem_of_getElem? he)).2
      rw [he, Option.map_some, Option.map_some]
      unfold ClProperty.isNamed
      rw [hid, h.of.getClString_eq hj]
      refine congrArg some (Bool.eq_iff_iff.mpr ?_)
      simp only [beq_iff_eq, decide_eq_true_eq]
      exact strcasecmp_eq_zero_iff hname hnozero
  have hfind := congrArg (List.findIdx? id) hmap
  rw [List.findIdx?_map, List.findIdx?_map] at hfind
  exact hfind

/-- Reading a property reads the map. -/
theorem Represents.getProperty_eq (h : Represents i g m) {name : CStr} (hname : 0 ∉ name) :
    getProperty i name = some (answer (lookup m name)) := by
  unfold getProperty lookup
  rw [h.locate_eq hname]
  cases hfind : m.findIdx? (fun e => fold name = fold e.name) with
  | none =>
    have hnone : m.find? (fun e => fold name = fold e.name) = none := by
      rw [List.findIdx?_eq_none_iff] at hfind
      rw [List.find?_eq_none]
      exact fun e he => by simpa using hfind e he
    rw [hnone]
    rfl
  | some k =>
    have hsome : m.find? (fun e => fold name = fold e.name) = m[k]? := by
      rw [List.find?_eq_bind_findIdx?_getElem?, hfind]
      rfl
    obtain ⟨hlt, -⟩ := List.findIdx?_eq_some_iff_findIdx_eq.mp hfind
    have he := List.getElem?_eq_getElem hlt
    have hp := List.getElem?_eq_getElem (h.length.symm ▸ hlt)
    rw [hsome, he]
    simp only [Option.map_some]
    rw [getPropertyAt_eq h.of hp (h.entry _ (List.mem_of_getElem? he)).1 (h.property hp he).data]
    rfl

/-- An unfiltered instance takes every property. -/
theorem setProperty_eq (h : i.filtered = false) {c : SetCall} {o : PropertyStore} {n : Nat}
    (hadd : addObjectPropertyH i.hdl.store c.name (setData c.value c.type) none = some (o, (n : Int))) :
    setProperty i c.name c.value c.type =
      some ({ i with hdl := { i.hdl with hdr := o.hdr, properties := o.properties } }, 0) := by
  unfold setProperty clInstanceAddProperty
  rw [if_pos (Or.inl h), hadd]
  simp only [Option.map_some, Option.bind_eq_bind, Option.bind_some, h, Bool.false_and]
  rw [if_neg (Int.not_lt.mpr (Int.natCast_nonneg n))]
  rfl

/-- A new property of plain data. -/
theorem newProperty_ok {hdr : ObjectHdr} (h : g.Of hdr) {c : SetCall} (hproper : c.proper = true)
    (k : Nat)
    (hstrs : RoomFor hdr.strBuf ((c.name ++ [0]) :: (setData c.value c.type).records))
    (harrs : RoomFor hdr.arrayBuf (setData c.value c.type).arrayRecords) :
    ∃ hdr' p g', newProperty hdr c.name (setData c.value c.type) none = some (hdr', p) ∧
      g'.Of hdr' ∧ Keeps k g g' ∧ PropertyOk g' k p ⟨c.name, c⟩ := by
  obtain ⟨hname, -⟩ := SetCall.proper_plain hproper
  obtain ⟨b, hadd, hof₁, hroom₁⟩ := h.addClString_owned hname .fixed hstrs
  obtain ⟨hdr', data, g', hstore, hstores⟩ := hof₁.storeNew_stores k hproper hroom₁ harrs
  have hkeeps : Keeps k g ⟨g.strs ++ [(.fixed, c.name)], g.arrs⟩ := by
    have := Keeps.append k g [(.fixed, c.name)] []
    rwa [List.append_nil] at this
  -- plain data is never an embedded object
  have hinst : c.storedType ≠ CMPIBase.inst.simple := by
    intro heq
    rcases SetCall.type_cases hproper with ⟨harray, hstored⟩ | ⟨hchars, -⟩ |
      ⟨base, w, hbase, hbits, hstored⟩
    · rw [← hstored, heq] at harray
      exact absurd harray (by decide)
    · exact absurd (hchars.symm.trans heq) (by decide)
    · rw [hstored, hbase] at heq
      exact simple_ne_of_bits hbits rfl heq
  refine ⟨hdr', _, g', newProperty_eq hadd (show addClStringOrNone _ none = some (_, 0) from rfl)
    hstore, hstores.of, hkeeps.trans hstores.keeps, ⟨g.strs.length, rfl, ?_⟩, ?_, hstores.data⟩
  · exact hstores.keeps.strs List.getElem?_concat_length (by simp)
  · exact if_neg fun hq => hinst (setData_type.symm.trans hq.2)

/-- The properties with one more behind them. -/
theorem Represents.append (h : Represents i g m) {c : SetCall} (hproper : c.proper = true)
    {i' : NativeInstance} {g' : Owned} {p : ClProperty} (hunfiltered : i'.filtered = false)
    (hof : g'.Of i'.hdl.hdr) (hkeeps : Keeps m.length g g')
    (hok : PropertyOk g' m.length p ⟨c.name, c⟩)
    (hitems : i'.hdl.properties.items = i.hdl.properties.items ++ [p]) :
    Represents i' g' (m ++ [⟨c.name, c⟩]) := by
  refine ⟨hunfiltered, hof, ?_, ?_, ?_⟩
  · rw [hitems, List.length_append, List.length_append]
    exact congrArg (· + 1) h.length
  · intro k q e hq he
    rw [hitems] at hq
    -- the properties that were there keep their data; the last one is the new one
    rcases Nat.lt_or_ge k m.length with hlt | hge
    · rw [List.getElem?_append_left (by rw [h.length]; exact hlt)] at hq
      rw [List.getElem?_append_left hlt] at he
      exact (h.property hq he).keeps hkeeps (Nat.ne_of_lt hlt)
    · obtain ⟨hle, -⟩ := List.getElem?_eq_some_iff.mp he
      rw [List.length_append, List.length_singleton] at hle
      obtain rfl : k = m.length := by omega
      rw [← h.length, List.getElem?_concat_length] at hq
      rw [List.getElem?_concat_length] at he
      rw [← Option.some.inj hq, ← Option.some.inj he]
      exact hok
  · intro e he
    rcases List.mem_append.mp he with he | he
    · exact h.entry e he
    · rw [List.mem_singleton.mp he]
      exact ⟨hproper, (SetCall.proper_plain hproper).1⟩

/-- A property that was not there is appended. -/
theorem Represents.set_new (h : Represents i g m) {c : SetCall} (hproper : c.proper = true)
    (hlocated : c.call.located i.hdl.store = none) (hroom : c.call.HasRoomIn i.hdl.store none) :
    ∃ i' g', setProperty i c.name c.value c.type = some (i', 0) ∧
      Represents i' g' (setEntry c m) := by
  obtain ⟨hname, -⟩ := SetCall.proper_plain hproper
  obtain ⟨-, hstrs, harrs, hsection⟩ := hroom
  have hlocate := located_none hlocated
  obtain ⟨hdr', p, g', hnew, hof, hkeeps, hok⟩ := newProperty_ok h.of hproper m.length hstrs harrs
  obtain ⟨prps, hpush, hitems⟩ := push_some hsection 8 p
  have hfind := (h.locate_eq hname).symm.trans hlocate
  rw [setEntry_none hfind]
  exact ⟨_, g', setProperty_eq h.unfiltered (addObjectPropertyH_new hlocate hnew hpush),
    h.append hproper h.unfiltered hof hkeeps hok hitems⟩

/-- A property that was there has the new value. -/
theorem Represents.set_there (h : Represents i g m) {c : SetCall} (hproper : c.proper = true)
    {p : ClProperty} (hlocated : c.call.located i.hdl.store = some p)
    (hfits : c.fits (some p) = true) (hroom : c.call.HasRoomIn i.hdl.store (some p)) :
    ∃ i' g', setProperty i c.name c.value c.type = some (i', 0) ∧
      Represents i' g' (setEntry c m) := by
  obtain ⟨hname, -⟩ := SetCall.proper_plain hproper
  obtain ⟨k, hlocate, hp⟩ := located_some hlocated
  replace hp : i.hdl.properties.items[k]? = some p := hp
  have hfind := (h.locate_eq hname).symm.trans hlocate
  obtain ⟨e, he⟩ : ∃ e, m[k]? = some e := by
    obtain ⟨hlt, -⟩ := List.findIdx?_eq_some_iff_findIdx_eq.mp hfind
    exact ⟨_, List.getElem?_eq_getElem hlt⟩
  have hold := h.property hp he
  have hentry := h.entry e (List.mem_of_getElem? he)
  obtain ⟨-, hstrs, harrs⟩ := hroom
    (fits_refuses hold.data hentry.1 hold.quals hproper hfits i.hdl.store.hdr)
  obtain ⟨hdr', data, g', hreplace, hstores⟩ := h.of.storeReplace_stores hold.data hentry.1
    hold.quals hproper hfits hstrs harrs
  rw [setEntry_some hfind he]
  refine ⟨_, g', setProperty_eq h.unfiltered (addObjectPropertyH_stored hlocate hp hreplace),
    h.unfiltered, hstores.of, ?_, ?_, ?_⟩
  · show (i.hdl.properties.items.set k _).length = _
    rw [List.length_set, List.length_set]
    exact h.length
  · intro j q e' hq he'
    replace hq : (i.hdl.properties.items.set k { p with data })[j]? = some q := hq
    -- the other properties keep what they own
    by_cases hj : k = j
    · subst hj
      obtain ⟨hlt, -⟩ := List.getElem?_eq_some_iff.mp hp
      obtain ⟨hlt', -⟩ := List.getElem?_eq_some_iff.mp he
      rw [List.getElem?_set_self hlt] at hq
      rw [List.getElem?_set_self hlt'] at he'
      rw [← Option.some.inj hq, ← Option.some.inj he']
      obtain ⟨l, hid, hl⟩ := hold.name
      exact ⟨⟨l, hid, hstores.keeps.strs hl (by simp)⟩, hold.quals, hstores.data⟩
    · rw [List.getElem?_set_ne hj] at hq he'
      exact (h.property hq he').keeps hstores.keeps (Ne.symm hj)
  · intro e' he'
    rcases List.mem_or_eq_of_mem_set he' with he' | rfl
    · exact h.entry e' he'
    · exact ⟨hproper, hentry.2⟩

/-- One call: the instance represents the map with the new value. -/
theorem setProperty_represents (h : Represents i g m) {c : SetCall} (hproper : c.proper = true)
    (hmeets : c.Meets i) :
    ∃ i' g', setProperty i c.name c.value c.type = some (i', 0) ∧
      Represents i' g' (setEntry c m) := by
  obtain ⟨hfits, hroom⟩ := hmeets
  cases hlocated : c.call.located i.hdl.store with
  | none =>
    rw [hlocated] at hroom
    exact h.set_new hproper hlocated hroom
  | some p =>
    rw [hlocated] at hfits hroom
    exact h.set_there hproper hlocated hfits hroom

end Representing

/-! ## Runs -/

/-- A new instance without keys (`internal_new_CMPIInstance`); keys are set one by one. -/
def newInstance (ns cn : Option CStr) : Option NativeInstance :=
  (newInstanceH ns cn).map fun inst =>
    { hdl := inst, filtered := false, propertyList := none, keyList := none }

/-- The instance after some calls. -/
def runSets : NativeInstance → List SetCall → Option NativeInstance
  | i, [] => some i
  | i, c :: cs => (setProperty i c.name c.value c.type).bind fun r => runSets r.1 cs

/-- Every call of a run meets the condition in the state it finds. -/
def AllSetsMeet : NativeInstance → List SetCall → Prop
  | _, [] => True
  | i, c :: cs => c.Meets i ∧
    ∀ r, r ∈ setProperty i c.name c.value c.type → AllSetsMeet r.1 cs

instance AllSetsMeet.decidable :
    (i : NativeInstance) → (calls : List SetCall) → Decidable (AllSetsMeet i calls)
  | _, [] => inferInstanceAs (Decidable True)
  | i, c :: cs =>
    have : DecidablePred fun r : NativeInstance × Int => AllSetsMeet r.1 cs :=
      fun r => AllSetsMeet.decidable r.1 cs
    inferInstanceAs (Decidable (c.Meets i ∧
      ∀ r, r ∈ setProperty i c.name c.value c.type → AllSetsMeet r.1 cs))

/-- An instance answers as the calls say that were made: every name has what it was last
set to, and there are as many properties as names. -/
structure Agrees (i : NativeInstance) (calls : List SetCall) : Prop where
  get : ∀ name, 0 ∉ name → getProperty i name = some (answer (lastSet calls name))
  count : ∃ distinct : List CStr, distinct.Nodup ∧
    (∀ k, k ∈ distinct ↔ ∃ c ∈ calls, fold c.name = k) ∧ getPropertyCount i = distinct.length

theorem Represents.agrees {i : NativeInstance} {g : Owned} {calls : List SetCall}
    (h : Represents i g (entriesOf calls)) : Agrees i calls := by
  obtain ⟨hnodup, hmem⟩ := names_entriesOf calls
  refine ⟨fun name hname => ?_, names (entriesOf calls), hnodup, hmem, ?_⟩
  · rw [h.getProperty_eq hname, lookup_entriesOf]
  · unfold getPropertyCount names
    rw [h.length, List.length_map]

/-- A new instance is the empty map. -/
theorem newInstance_represents {ns cn : Option CStr} (hns : ∀ s ∈ ns, 0 ∉ s)
    (hcn : ∀ s ∈ cn, 0 ∉ s) {i : NativeInstance} (hnew : newInstance ns cn = some i) :
    ∃ g, Represents i g [] := by
  have hname : ∀ {g : Owned} {hdr hdr' : ObjectHdr} {s : Option CStr} {id : Nat}, g.Of hdr →
      (∀ t ∈ s, 0 ∉ t) → addClStringOrNone hdr s = some (hdr', id) → ∃ g' : Owned, g'.Of hdr' := by
    intro g hdr hdr' s id hof hs hadd
    cases s with
    | none =>
      rw [← (Prod.mk.inj (Option.some.inj hadd)).1]
      exact ⟨g, hof⟩
    | some s =>
      obtain ⟨r, hr, -⟩ := Option.map_eq_some_iff.mp hadd
      obtain ⟨b, hadd', hof', -⟩ := hof.addClString_owned (hs s rfl) .fixed
        (add_room (k := 8) hof.contents.strings hr)
      rw [(Prod.mk.inj (Option.some.inj (hadd.symm.trans hadd'))).1]
      exact ⟨_, hof'⟩
  obtain ⟨inst, hinst, rfl⟩ := Option.map_eq_some_iff.mp hnew
  unfold newInstanceH at hinst
  simp only [Option.bind_eq_bind, Option.bind_eq_some_iff] at hinst
  obtain ⟨⟨hdr₁, id₁⟩, hadd₁, ⟨hdr₂, id₂⟩, hadd₂, heq⟩ := hinst
  have hempty : (Owned.mk [] []).Of (.new .inst) :=
    ⟨contents_new .inst, by simp, by simp, by simp⟩
  obtain ⟨g₁, hof₁⟩ := hname hempty hns hadd₁
  obtain ⟨g₂, hof₂⟩ := hname hof₁ hcn hadd₂
  rw [← Option.some.inj heq]
  exact ⟨g₂, rfl, hof₂, rfl, fun _ he => absurd he (by simp), fun e he => absurd he (by simp)⟩

/-- A run: the instance represents the map of the calls. -/
theorem runSets_represents {i : NativeInstance} {g : Owned} {m : List Entry}
    (h : Represents i g m) {calls : List SetCall} (hproper : ∀ c ∈ calls, c.proper = true)
    (hmeets : AllSetsMeet i calls) {pre : List SetCall} (hpre : pre <+: calls) :
    ∃ i' g', runSets i pre = some i' ∧
      Represents i' g' (pre.foldl (fun m c => setEntry c m) m) ∧
      ∀ c, pre ++ [c] <+: calls → c.Meets i' := by
  induction pre generalizing i g m calls with
  | nil =>
    refine ⟨i, g, rfl, h, fun c hc => ?_⟩
    cases calls with
    | nil => exact absurd (List.prefix_nil.mp hc) (by simp)
    | cons c' cs =>
      obtain ⟨rfl, -⟩ := List.cons_prefix_cons.mp hc
      exact hmeets.1
  | cons c pre ih =>
    cases calls with
    | nil => exact absurd (List.prefix_nil.mp hpre) (by simp)
    | cons c' cs =>
      obtain ⟨rfl, htail⟩ := List.cons_prefix_cons.mp hpre
      obtain ⟨i₁, g₁, hset, h₁⟩ := setProperty_represents h (hproper c (by simp)) hmeets.1
      obtain ⟨i', g', hrun, hrep, hnext⟩ := ih h₁
        (fun c hc => hproper c (List.mem_cons_of_mem _ hc)) (hmeets.2 _ hset) htail
      refine ⟨i', g', ?_, hrep, fun d hd => hnext d (List.cons_prefix_cons.mp hd).2⟩
      unfold runSets
      rw [hset]
      exact hrun

/-- In every run of calls that meet the condition the instance answers as the calls say,
after each of them; the next call succeeds and changes no other name. -/
theorem runSets_agrees {ns cn : Option CStr} (hns : ∀ s ∈ ns, 0 ∉ s) (hcn : ∀ s ∈ cn, 0 ∉ s)
    {i : NativeInstance} (hnew : newInstance ns cn = some i) {calls : List SetCall}
    (hproper : ∀ c ∈ calls, c.proper = true) (hmeets : AllSetsMeet i calls) {pre : List SetCall}
    (hpre : pre <+: calls) :
    ∃ i', runSets i pre = some i' ∧ Agrees i' pre ∧
      ∀ c, pre ++ [c] <+: calls → ∃ i'', setProperty i' c.name c.value c.type = some (i'', 0) ∧
        ∀ name, 0 ∉ name → fold name ≠ fold c.name →
          getProperty i'' name = getProperty i' name := by
  obtain ⟨g, hempty⟩ := newInstance_represents hns hcn hnew
  obtain ⟨i', g', hrun, hrep, hnext⟩ := runSets_represents hempty hproper hmeets hpre
  refine ⟨i', hrun, hrep.agrees, fun c hc => ?_⟩
  have hmem : c ∈ calls := hc.subset (by simp)
  obtain ⟨i'', g'', hset, hrep'⟩ := setProperty_represents hrep (hproper c hmem) (hnext c hc)
  refine ⟨i'', hset, fun name hname hne => ?_⟩
  rw [hrep.getProperty_eq hname, hrep'.getProperty_eq hname, lookup_setEntry, if_neg hne]

/-- A string and an array of strings, set, set to NULL and set again. -/
theorem runSets_agrees_sample :
    let calls : List SetCall :=
      [⟨lit "Name", some (.text (lit "a")), CMPIBase.string.simple⟩,
       ⟨lit "Tags", some (.array ⟨.string, [⟨0, .text (lit "x")⟩, ⟨nullValue, .word 0⟩]⟩),
        CMPIBase.string.arrayOf⟩,
       ⟨lit "NAME", none, CMPIBase.string.simple⟩,
       ⟨lit "tags", some (.array ⟨.string, [⟨0, .text (lit "yz")⟩]⟩), CMPIBase.string.arrayOf⟩,
       ⟨lit "name", some (.text (lit "bc")), CMPIBase.chars.simple⟩]
    ∃ i i', newInstance (some (lit "root")) (some (lit "C")) = some i ∧
      runSets i calls = some i' ∧ Agrees i' calls := by
  intro calls
  have hmeets : ((newInstance (some (lit "root")) (some (lit "C"))).map fun i =>
      decide (AllSetsMeet i calls)) = some true := by
    decide
  obtain ⟨i, hi, hall⟩ := Option.map_eq_some_iff.mp hmeets
  obtain ⟨i', hrun, hagrees, -⟩ := runSets_agrees (by decide) (by decide) hi (by decide)
    (of_decide_eq_true hall) List.prefix_rfl
  exact ⟨i, i', hi, hrun, hagrees⟩

/-! ## Running out of arrays -/

theorem runSets_append (i : NativeInstance) (xs ys : List SetCall) :
    runSets i (xs ++ ys) = (runSets i xs).bind fun i => runSets i ys := by
  induction xs generalizing i with
  | nil => rfl
  | cons c xs ih =>
    rw [List.cons_append, runSets, runSets]
    cases setProperty i c.name c.value c.type with
    | none => rfl
    | some r => exact ih r.1

/-- An array property is set, and set to NULL. -/
def flip : NativeArray := ⟨.uint8, [⟨0, .word 1⟩]⟩

def setFlip : SetCall := ⟨lit "p", some (.array flip), CMPIBase.uint8.arrayOf⟩

def setNull : SetCall := ⟨lit "p", none, CMPIBase.uint8.arrayOf⟩

/-- The only property is the array, and it is NULL. -/
structure Emptied (i : NativeInstance) (g : Owned) (p : ClProperty) : Prop where
  unfiltered : i.filtered = false
  of : g.Of i.hdl.hdr
  items : i.hdl.properties.items = [p]
  name : ∃ k, p.id = k + 1 ∧ g.strs[k]? = some (.fixed, lit "p")
  type : p.data.type = CMPIBase.uint8.arrayOf
  value : p.data.value = .num 0

theorem Represents.emptied {i : NativeInstance} {g : Owned}
    (h : Represents i g [⟨lit "p", setNull⟩]) : ∃ p, Emptied i g p := by
  obtain ⟨p, hitems⟩ := List.length_eq_one_iff.mp h.length
  have hp := h.property (k := 0) (by rw [hitems]; rfl) rfl
  exact ⟨p, h.unfiltered, h.of, hitems, hp.name, hp.data.type, hp.data.null rfl⟩

section Leaking

variable {i : NativeInstance} {g : Owned} {p : ClProperty}

theorem locate_p {hdr : ObjectHdr} (hof : g.Of hdr)
    (hname : ∃ k, p.id = k + 1 ∧ g.strs[k]? = some (.fixed, lit "p")) :
    locateProperty hdr [p] (lit "p") = some 0 := by
  obtain ⟨k, hid, hk⟩ := hname
  have hnamed : p.isNamed hdr (lit "p") = true := by
    unfold ClProperty.isNamed
    rw [hid, hof.getClString_eq hk]
    decide
  unfold locateProperty
  rw [List.findIdx?_cons, if_pos hnamed]

theorem setProperty_none (h : i.filtered = false) {c : SetCall}
    (hadd : addObjectPropertyH i.hdl.store c.name (setData c.value c.type) none = none) :
    setProperty i c.name c.value c.type = none := by
  unfold setProperty clInstanceAddProperty
  rw [if_pos (Or.inl h), hadd]
  rfl

/-- An array that was added had room. -/
theorem addClArray_room {hdr : ObjectHdr} (h : g.Of hdr) {a : NativeArray} (ha : a.proper = true)
    (hstrs : RoomFor hdr.strBuf a.records) {r : ObjectHdr × Nat}
    (hadd : addClArray hdr a = some r) : RoomFor hdr.arrayBuf [a.arrayRecord 0] := by
  obtain ⟨b, hstore, -, -⟩ := storeItems_contents h.contents
    (ArrayItem.shaped_of_proper ha) (List.all_eq_true.mp (NativeArray.prints_of_proper ha)) []
    (by rw [List.append_nil]; exact hstrs)
  unfold addClArray at hadd
  rw [hstore] at hadd
  obtain ⟨r', hr', -⟩ := Option.map_eq_some_iff.mp hadd
  exact (add_room (k := 4) h.contents.arrays hr').congr
    (by simp [NativeArray.arrayRecord, length_cellsOf])

/-- The only property is found again. -/
theorem store_locate_p (hof : g.Of i.hdl.hdr) (hitems : i.hdl.properties.items = [p])
    (hname : ∃ k, p.id = k + 1 ∧ g.strs[k]? = some (.fixed, lit "p")) :
    locateProperty i.hdl.store.hdr i.hdl.store.properties.items (lit "p") = some 0 ∧
      i.hdl.store.properties.items[0]? = some p := by
  have hstore : i.hdl.store.properties.items = [p] := hitems
  rw [hstore]
  exact ⟨locate_p hof hname, rfl⟩

/-- What is stored in its place is the only property afterwards. -/
theorem addObjectPropertyH_p (hof : g.Of i.hdl.hdr) (hitems : i.hdl.properties.items = [p])
    (hname : ∃ k, p.id = k + 1 ∧ g.strs[k]? = some (.fixed, lit "p"))
    {d : CMPIData} {hdr : ObjectHdr} {data : Stored}
    (hreplace : storeReplace i.hdl.store.hdr p d = some (.stored hdr data)) :
    addObjectPropertyH i.hdl.store (lit "p") d none =
      some (PropertyStore.mk hdr { i.hdl.properties with items := [{ p with data }] },
        ((1 : Nat) : Int)) := by
  obtain ⟨hlocate, hp⟩ := store_locate_p hof hitems hname
  rw [addObjectPropertyH_stored hlocate hp hreplace]
  have hstore : i.hdl.store.properties.items = [p] := hitems
  rw [hstore]
  rfl

/-- The array goes behind those that were lost. -/
theorem Emptied.set (h : Emptied i g p) :
    addObjectPropertyH i.hdl.store (lit "p") (setData setFlip.value setFlip.type) none =
      (addClArray i.hdl.hdr flip).map fun r =>
        (PropertyStore.mk r.1 { i.hdl.properties with
          items := [{ p with data := ⟨CMPIBase.uint8.arrayOf, 0, .num r.2⟩ }] },
          ((1 : Nat) : Int)) := by
  have hreplace : storeReplace i.hdl.store.hdr p (setData setFlip.value setFlip.type) =
      (addClArray i.hdl.hdr flip).map fun r =>
        .stored r.1 ⟨CMPIBase.uint8.arrayOf, 0, .num r.2⟩ :=
    storeReplace_array_add (by decide) (by rw [h.type]; rfl) h.value .uint8 flip
  cases hadd : addClArray i.hdl.hdr flip with
  | none =>
    rw [hadd] at hreplace
    obtain ⟨hlocate, hp⟩ := store_locate_p h.of h.items h.name
    unfold addObjectPropertyH
    simp only [hlocate, hp, hreplace]
    rfl
  | some r =>
    rw [hadd] at hreplace
    exact addObjectPropertyH_p h.of h.items h.name hreplace

/-- NULL takes its place; the array stays where it is. -/
theorem setNull_eq (hunfiltered : i.filtered = false) (hof : g.Of i.hdl.hdr)
    (hitems : i.hdl.properties.items = [p])
    (hname : ∃ k, p.id = k + 1 ∧ g.strs[k]? = some (.fixed, lit "p")) :
    setProperty i setNull.name setNull.value setNull.type =
      some ({ i with hdl := { i.hdl with properties := { i.hdl.properties with
        items := [{ p with data := ⟨CMPIBase.uint8.arrayOf, nullValue, .num 0⟩ }] } } }, 0) := by
  have hdata : setData setNull.value setNull.type =
      ⟨CMPIBase.uint8.arrayOf, nullValue, .word 0⟩ := rfl
  have hnull : storeReplace i.hdl.store.hdr p (setData setNull.value setNull.type) =
      some (.stored i.hdl.hdr ⟨CMPIBase.uint8.arrayOf, nullValue, .num 0⟩) := by
    rw [hdata]
    exact storeReplace_null isNull_nullValue
  rw [setProperty_eq hunfiltered (addObjectPropertyH_p hof hitems hname hnull)]

/-- Setting the array and NULL loses one more array, if it succeeds. -/
theorem Emptied.round (h : Emptied i g p) :
    runSets i [setFlip, setNull] = none ∨
      ∃ i' g' p', runSets i [setFlip, setNull] = some i' ∧ Emptied i' g' p' ∧
        g'.arrs.length = g.arrs.length + 1 := by
  have hset := h.set
  cases hadd : addClArray i.hdl.hdr flip with
  | none =>
    rw [hadd] at hset
    exact Or.inl (by rw [runSets, setProperty_none h.unfiltered hset]; rfl)
  | some r =>
    rw [hadd] at hset
    have hstrs : RoomFor i.hdl.hdr.strBuf flip.records := fun hne => absurd (by decide) hne
    obtain ⟨b, b', hadd', hof⟩ := h.of.addClArray_owned (a := flip) (by decide) 0 hstrs
      (addClArray_room h.of (by decide) hstrs hadd)
    obtain ⟨rfl, -⟩ := Option.some.inj (hadd.symm.trans hadd')
    -- the strings are as they were: the array has none
    rw [show flip.texts = [] from by decide, List.map_nil, List.append_nil] at hof
    obtain ⟨i₁, hfirst, hunfiltered, hhdr, hitems⟩ : ∃ i₁,
        setProperty i setFlip.name setFlip.value setFlip.type = some (i₁, 0) ∧
        i₁.filtered = false ∧
        i₁.hdl.hdr = { i.hdl.hdr with strBuf := b, arrayBuf := some b' } ∧
        i₁.hdl.properties.items =
          [{ p with data := ⟨CMPIBase.uint8.arrayOf, 0, .num (g.arrs.length + 1)⟩ }] :=
      ⟨_, setProperty_eq h.unfiltered hset, h.unfiltered, rfl, rfl⟩
    rw [← hhdr] at hof
    obtain ⟨i₂, hsecond, hemptied⟩ : ∃ i₂,
        setProperty i₁ setNull.name setNull.value setNull.type = some (i₂, 0) ∧
        Emptied i₂ ⟨g.strs, g.arrs ++ [(0, flip, g.strs.length)]⟩
          { p with data := ⟨CMPIBase.uint8.arrayOf, nullValue, .num 0⟩ } :=
      ⟨_, setNull_eq hunfiltered hof hitems h.name, hunfiltered, hof, rfl, h.name, rfl, rfl⟩
    refine Or.inr ⟨i₂, _, _, ?_, hemptied, by simp⟩
    rw [runSets, hfirst, Option.bind_some, runSets, hsecond]
    rfl

end Leaking

/-- The array and NULL, so many times. -/
def rounds : Nat → List SetCall
  | 0 => []
  | n + 1 => [setFlip, setNull] ++ rounds n

theorem Emptied.rounds {i : NativeInstance} {g : Owned} {p : ClProperty} (h : Emptied i g p)
    (n : Nat) :
    runSets i (rounds n) = none ∨
      ∃ i' g' p', runSets i (Object.rounds n) = some i' ∧ Emptied i' g' p' ∧
        g'.arrs.length = g.arrs.length + n := by
  induction n generalizing i g p with
  | zero => exact Or.inr ⟨i, g, p, rfl, h, rfl⟩
  | succ n ih =>
    unfold Object.rounds
    rw [runSets_append]
    rcases h.round with hnone | ⟨i₁, g₁, p₁, hrun, h₁, hlength⟩
    · exact Or.inl (by rw [hnone]; rfl)
    · rw [hrun, Option.bind_some]
      rcases ih h₁ with hnone | ⟨i', g', p', hrun', h', hlength'⟩
      · exact Or.inl hnone
      · exact Or.inr ⟨i', g', p', hrun', h', by omega⟩

/-- With `2 ^ 14 + 1` arrays lost there is no room for another one. -/
theorem Emptied.full {i : NativeInstance} {g : Owned} {p : ClProperty} (h : Emptied i g p)
    (hfull : 2 ^ 14 < g.arrs.length) : runSets i [setFlip] = none := by
  have hset := h.set
  have hadd : addClArray i.hdl.hdr flip = none := by
    cases hadd : addClArray i.hdl.hdr flip with
    | none => rfl
    | some r =>
      have hroom := addClArray_room h.of (a := flip) (by decide)
        (fun hne => absurd (by decide) hne) hadd
      have hused := h.of.contents.arrays.used_eq
      rw [Owned.length_arrRecords] at hused
      cases hbuf : i.hdl.hdr.arrayBuf with
      | none =>
        rw [hbuf] at hused
        have : 0 = g.arrs.length := hused
        omega
      | some b =>
        rw [hbuf] at hused hroom
        obtain ⟨-, hcount, -⟩ := hroom (by simp)
        have : b.index.length = g.arrs.length := hused
        rw [List.length_singleton] at hcount
        omega
  rw [hadd] at hset
  rw [runSets, setProperty_none h.unfiltered hset]
  rfl

/-- An array that is set and set to NULL in turn is lost every time; in the end setting it
crashes, with two names and no other string. -/
theorem setProperty_runs_out :
    ∃ i, newInstance (some (lit "root")) (some (lit "C")) = some i ∧
      (∀ c ∈ setNull :: (rounds (2 ^ 14 + 1) ++ [setFlip]), c.proper = true) ∧
      runSets i (setNull :: (rounds (2 ^ 14 + 1) ++ [setFlip])) = none := by
  have hnew : ((newInstance (some (lit "root")) (some (lit "C"))).map fun i =>
      decide (AllSetsMeet i [setNull])) = some true := by
    decide
  obtain ⟨i, hi, hall⟩ := Option.map_eq_some_iff.mp hnew
  obtain ⟨g, hempty⟩ := newInstance_represents (by decide) (by decide) hi
  have hmeets := (of_decide_eq_true hall).1
  obtain ⟨i₁, g₁, hset, hrep⟩ := setProperty_represents hempty (c := setNull) (by decide) hmeets
  obtain ⟨p, hp⟩ := hrep.emptied
  refine ⟨i, hi, ?_, ?_⟩
  · have hrounds : ∀ n, ∀ c ∈ rounds n, c.proper = true := by
      intro n
      induction n with
      | zero => exact fun c hc => absurd hc (by simp [rounds])
      | succ n ih =>
        intro c hc
        rcases List.mem_append.mp hc with hc | hc
        · simp only [List.mem_cons, List.not_mem_nil, or_false] at hc
          rcases hc with rfl | rfl
          · decide
          · decide
        · exact ih c hc
    intro c hc
    rcases List.mem_cons.mp hc with rfl | hc
    · decide
    · rcases List.mem_append.mp hc with hc | hc
      · exact hrounds _ c hc
      · rw [List.mem_singleton.mp hc]
        decide
  · rw [runSets, hset, Option.bind_some, runSets_append]
    rcases hp.rounds (2 ^ 14 + 1) with hnone | ⟨i', g', p', hrun, h', hlength⟩
    · rw [hnone]
      rfl
    · rw [hrun, Option.bind_some]
      exact h'.full (by omega)

end Sfcb.Object
