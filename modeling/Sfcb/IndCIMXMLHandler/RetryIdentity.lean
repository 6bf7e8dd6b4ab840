import Mathlib.Data.List.Nodup
import Sfcb.IndCIMXMLHandler.RetryQueue

/-!
# The identity of queued indications

An element of the retry queue and its indication are stored in the repository under a
number, the `IndicationID` (`indCIMXMLHandler.c`). The number comes from `indID`, a
static variable of the process that starts at 1; the repository outlives the process,
and `refillRetryQ` queues again what it finds there.

`runHandler_distinct_iff` says when the numbers do what they are for: over a whole
history of failed deliveries, removals and restarts, every queued element has a number
of its own, with its own instances stored under it, exactly when no failed delivery finds
the number it is about to use in the repository.

Mirroring notes:
- The repository takes a create only for a path it does not hold, and a delete only
  for one it does, as the internal provider does.
- What other instances the repository holds does not matter.
- An element is paired with the content of the indication it stands for.
- `malloc` chooses the addresses.
-/

namespace Sfcb.IndCIMXMLHandler

open Sfcb.Lib

/-- The instances of the repository, by path. -/
abbrev Repository := List (Path × Inst)

/-- `InternalProviderCreateInstance`. -/
def Repository.create (repo : Repository) (path : Path) (inst : Inst) : Repository :=
  if repo.any (fun x => x.1 == path) then repo else repo ++ [(path, inst)]

/-- `InternalProviderDeleteInstance`. -/
def Repository.delete (repo : Repository) (path : Path) : Repository :=
  repo.filter fun x => x.1 != path

/-- `InternalProviderModifyInstance`. -/
def Repository.modify (repo : Repository) (path : Path) (inst : Inst) : Repository :=
  repo.map fun x => if x.1 = path then (path, inst) else x

/-- What a call does to the repository. -/
def Repository.apply (repo : Repository) : Upcall → Repository
  | .createInstance path inst => repo.create path inst
  | .modifyInstance path inst => repo.modify path inst
  | .deleteInstance path => repo.delete path

/-- The handler process and the repository it works on. -/
structure Handler where
  queue : Queue
  /-- `static unsigned int indID` of `IndCIMXMLHandlerInvokeMethod` -/
  indID : UInt32
  repo : Repository
  /-- the queued elements, each with the content of its indication -/
  held : List (Ptr × CStr)

/-- A delivery that failed: what it was about, and the clock. -/
structure Failure where
  ref : CStr
  sub : CStr
  /-- the path of the indication, before the key is added -/
  text : CStr
  content : CStr
  now : Int
  deriving DecidableEq, Repr

/-- The element that `_deliver` builds. -/
def Failure.element (f : Failure) (indID : UInt32) : RTElement :=
  ⟨f.ref, f.sub, ⟨f.text, indID⟩, 0, 0, f.now, indID, NULL, NULL⟩

/-- The part of `_deliver` that follows a failed delivery, with retries switched on. -/
def Handler.deliverFailed (h : Handler) (element : Ptr) (f : Failure) : Handler :=
  let e := f.element h.indID
  let done := enqRetry (alloc h.queue element e) element true
  { queue := done.queue
    indID := h.indID + 1
    repo := done.upcalls.foldl Repository.apply
      (h.repo.create (.indication e.ind) (.indication f.content))
    held := (element, f.content) :: h.held }

/-- The retry thread removes an element. -/
def Handler.dequeue (h : Handler) (cur : Ptr) : Handler :=
  { h with
    queue := (dqRetry h.queue cur).queue
    repo := (dqRetry h.queue cur).upcalls.foldl Repository.apply h.repo
    held := h.held.filter fun x => x.1 != cur }

/-- The element `refillRetryQ` rebuilds from a stored one. -/
def restored : Path × Inst → Option RTElement
  | (.element key, .element id count last ld ind sub) =>
    some ⟨ld, sub, ind, key, count, last, id, NULL, NULL⟩
  | _ => none

/-- Queues the elements, without storing them again. -/
def refill (q : Queue) (es : List (Ptr × RTElement)) : Queue :=
  es.foldl (fun q x => (enqRetry (alloc q x.1 x.2) x.1 false).queue) q

/-- `refillRetryQ`, with the addresses of the new elements. -/
def refillRetryQ (q : Queue) (repo : Repository) (addrs : List Ptr) : Queue :=
  if q.RQhead = NULL then refill q (addrs.zip (repo.filterMap restored)) else q

/-- The content stored for an indication. -/
def contentOf (repo : Repository) (ind : IndPath) : CStr :=
  match repo.lookup (.indication ind) with
  | some (.indication content) => content
  | _ => []

/-- The process ends, and a new one starts and refills its queue. -/
def Handler.restart (h : Handler) (addrs : List Ptr) : Handler :=
  { queue := refillRetryQ ⟨h.queue.mem, [], NULL, NULL⟩ h.repo addrs
    indID := 1
    repo := h.repo
    held := (addrs.zip (h.repo.filterMap restored)).map fun x => (x.1, contentOf h.repo x.2.ind) }

/-! ## Histories -/

/-- What can happen to the handler. -/
inductive Event where
  | failed (element : Ptr) (f : Failure)
  | dequeued (cur : Ptr)
  | restarted (addrs : List Ptr)
  deriving DecidableEq, Repr

/-- One event. -/
def Handler.next (h : Handler) : Event → Handler
  | .failed element f => h.deliverFailed element f
  | .dequeued cur => h.dequeue cur
  | .restarted addrs => h.restart addrs

/-- `malloc` hands out addresses that are not in use, and only a queued element is
removed. -/
def Handler.Allows (h : Handler) : Event → Prop
  | .failed element _ => element ≠ NULL ∧ element ∉ h.queue.live
  | .dequeued cur => ∃ content, (cur, content) ∈ h.held
  | .restarted addrs => addrs.Nodup ∧ NULL ∉ addrs ∧
      addrs.length = (h.repo.filterMap restored).length

def AllAllows : Handler → List Event → Prop
  | _, [] => True
  | h, e :: es => h.Allows e ∧ AllAllows (h.next e) es

/-- The element at an address, without its pointers. -/
def Handler.elem (h : Handler) (a : Ptr) : RTElement := (h.queue.mem a).data

/-- What is asked of the numbers: two queued elements have different ones, and what is
stored as an element or as an indication is what the queued elements have stored. -/
structure Distinct (h : Handler) : Prop where
  ids : ∀ x ∈ h.held, ∀ y ∈ h.held, (h.elem x.1).instanceID = (h.elem y.1).instanceID → x = y
  elements : ∀ id inst, (Path.element id, inst) ∈ h.repo ↔
    ∃ x ∈ h.held, (h.elem x.1).instanceID = id ∧ inst = (h.elem x.1).stored
  indications : ∀ path inst, (Path.indication path, inst) ∈ h.repo ↔
    ∃ x ∈ h.held, (h.elem x.1).ind = path ∧ inst = .indication x.2

/-- The numbers are right in every state of a history. -/
def AllDistinct : Handler → List Event → Prop
  | h, [] => Distinct h
  | h, e :: es => Distinct h ∧ AllDistinct (h.next e) es

/-- A failed delivery must not find the number of the counter in the repository. -/
def Handler.Meets (h : Handler) : Event → Prop
  | .failed _ _ => ∀ inst, (Path.element h.indID, inst) ∉ h.repo
  | _ => True

def AllMeets : Handler → List Event → Prop
  | _, [] => True
  | h, e :: es => h.Meets e ∧ AllMeets (h.next e) es

/-! ## The repository -/

section Repository

variable {repo : Repository} {path : Path} {inst : Inst} {x : Path × Inst}

theorem mem_create (hnew : ∀ i, (path, i) ∉ repo) :
    x ∈ repo.create path inst ↔ x ∈ repo ∨ x = (path, inst) := by
  have habsent : repo.any (fun x => x.1 == path) = false := by
    rw [List.any_eq_false]
    intro y hy hpath
    refine hnew y.2 ?_
    rw [← eq_of_beq hpath]
    exact hy
  simp [Repository.create, habsent]

theorem keys_create (hnodup : (repo.map Prod.fst).Nodup) :
    ((repo.create path inst).map Prod.fst).Nodup := by
  unfold Repository.create
  split
  · exact hnodup
  · next habsent =>
    simp only [List.any_eq_true, not_exists, not_and, Bool.not_eq_true, beq_eq_false_iff_ne] at habsent
    rw [List.map_append, List.nodup_append]
    refine ⟨hnodup, by simp, ?_⟩
    intro a ha b hb
    obtain ⟨y, hy, rfl⟩ := List.mem_map.mp ha
    rw [List.mem_singleton.mp hb]
    exact habsent y hy

theorem mem_delete : x ∈ repo.delete path ↔ x ∈ repo ∧ x.1 ≠ path := by
  simp [Repository.delete]

theorem keys_delete (hnodup : (repo.map Prod.fst).Nodup) :
    ((repo.delete path).map Prod.fst).Nodup :=
  hnodup.sublist (List.filter_sublist.map Prod.fst)

/-- The content of a stored indication is found. -/
theorem contentOf_eq {ind : IndPath} {content : CStr} (hnodup : (repo.map Prod.fst).Nodup)
    (hmem : (Path.indication ind, Inst.indication content) ∈ repo) :
    contentOf repo ind = content := by
  have hlookup : repo.lookup (.indication ind) = some (.indication content) := by
    induction repo with
    | nil => cases hmem
    | cons y repo ih =>
      obtain ⟨hhead, htail⟩ := List.nodup_cons.mp hnodup
      rcases List.mem_cons.mp hmem with rfl | hmem
      · simp
      · have hne : (Path.indication ind == y.1) = false := by
          rw [beq_eq_false_iff_ne]
          intro he
          exact hhead (he ▸ List.mem_map_of_mem hmem)
        rw [List.lookup_cons, hne]
        exact ih htail hmem
  rw [contentOf, hlookup]

end Repository

/-! ## The invariant -/

/-- The numbers are right, and what makes them stay so: an indication is stored under the
number of its element, no path is stored twice, and queued elements are allocated. -/
structure Owned (h : Handler) : Prop extends Distinct h where
  keyed : ∀ x ∈ h.held, (h.elem x.1).ind.indicationID = (h.elem x.1).instanceID
  keys : (h.repo.map Prod.fst).Nodup
  live : ∀ x ∈ h.held, x.1 ∈ h.queue.live

section Step

variable {h : Handler} {element cur : Ptr} {f : Failure} {addrs : List Ptr}

/-- The elements after a failed delivery. -/
theorem elem_failed (a : Ptr) :
    (h.next (.failed element f)).elem a =
      if a = element then (f.element h.indID).data else h.elem a := by
  rw [Handler.elem, Handler.next, Handler.deliverFailed]
  dsimp only
  rw [enqRetry_data]
  by_cases ha : a = element <;> simp [alloc, ha, Handler.elem]

/-- What `enqRetry` stores for a new element. -/
theorem enqRetry_upcalls (q : Queue) (p : Ptr) (e : RTElement) :
    (enqRetry (alloc q p e) p true).upcalls =
      [.createInstance (.element e.instanceID) e.stored] := by
  have hdata : ((link (alloc q p e) p).mem p).data = e.data := by
    have := enqRetry_data (alloc q p e) p p false
    rw [enqRetry] at this
    simpa [alloc] using this
  have hfields : ∀ {e' : RTElement}, e'.data = e.data →
      e'.instanceID = e.instanceID ∧ e'.stored = e.stored := by
    intro e' he
    have : e'.data.instanceID = e.data.instanceID ∧ e'.data.stored = e.data.stored := by
      rw [he]
      exact ⟨rfl, rfl⟩
    exact this
  obtain ⟨hid, hstored⟩ := hfields hdata
  rw [enqRetry, if_pos rfl, link_RQtail]
  dsimp only
  rw [← hstored, ← hid]
  rfl

theorem repo_failed :
    (h.next (.failed element f)).repo =
      (h.repo.create (.indication ⟨f.text, h.indID⟩) (.indication f.content)).create
        (.element h.indID) (f.element h.indID).stored := by
  rw [Handler.next, Handler.deliverFailed, enqRetry_upcalls]
  rfl

/-- The number of the counter is free in the queue too. -/
theorem Owned.id_ne (hinv : Owned h) (hmeets : h.Meets (.failed element f)) {x : Ptr × CStr}
    (hx : x ∈ h.held) : (h.elem x.1).instanceID ≠ h.indID := by
  intro he
  exact hmeets _ ((hinv.elements _ _).mpr ⟨x, hx, he, rfl⟩)

/-- The element is in the queue from now on. -/
theorem live_failed :
    (h.next (.failed element f)).queue.live = element :: h.queue.live := by
  rw [Handler.next, Handler.deliverFailed]
  dsimp only
  rw [(enqRetry_pointers _ _ _).2.2.1, link_live]
  rfl

/-- The elements that were held before are not touched. -/
theorem Owned.elem_failed_of_held (hinv : Owned h) (hok : h.Allows (.failed element f))
    {x : Ptr × CStr} (hx : x ∈ h.held) : (h.next (.failed element f)).elem x.1 = h.elem x.1 := by
  have hne : x.1 ≠ element := fun he => hok.2 (he ▸ hinv.live _ hx)
  rw [elem_failed, if_neg hne]

/-- Neither of the two paths is stored yet, so that both instances are created. -/
theorem Owned.mem_repo_failed (hinv : Owned h) (hmeets : h.Meets (.failed element f))
    {x : Path × Inst} : x ∈ (h.next (.failed element f)).repo ↔
      (x ∈ h.repo ∨ x = (.indication ⟨f.text, h.indID⟩, .indication f.content)) ∨
        x = (.element h.indID, (f.element h.indID).stored) := by
  have hind : ∀ i, (Path.indication ⟨f.text, h.indID⟩, i) ∉ h.repo := by
    intro i hi
    obtain ⟨x, hx, hpath, -⟩ := (hinv.indications _ _).mp hi
    have := hinv.keyed x hx
    rw [hpath] at this
    exact hinv.id_ne hmeets hx this.symm
  have hele : ∀ i, (Path.element h.indID, i) ∉
      h.repo.create (.indication ⟨f.text, h.indID⟩) (.indication f.content) := by
    intro i hi
    rcases (mem_create hind).mp hi with hi | hi
    · exact hmeets i hi
    · cases hi
  rw [repo_failed, mem_create hele, mem_create hind]

theorem Owned.failed (hinv : Owned h) (hok : h.Allows (.failed element f))
    (hmeets : h.Meets (.failed element f)) : Owned (h.next (.failed element f)) := by
  have hold : ∀ {x : Ptr × CStr}, x ∈ h.held →
      (h.next (.failed element f)).elem x.1 = h.elem x.1 := hinv.elem_failed_of_held hok
  have hnew : (h.next (.failed element f)).elem element = (f.element h.indID).data := by
    rw [elem_failed, if_pos rfl]
  have hheld : (h.next (.failed element f)).held = (element, f.content) :: h.held := rfl
  refine ⟨⟨?_, ?_, ?_⟩, ?_, ?_, ?_⟩
  · intro x hx y hy hid
    rw [hheld] at hx hy
    rcases List.mem_cons.mp hx with rfl | hx <;> rcases List.mem_cons.mp hy with rfl | hy
    · rfl
    · rw [hnew, hold hy] at hid
      exact absurd hid.symm (hinv.id_ne hmeets hy)
    · rw [hnew, hold hx] at hid
      exact absurd hid (hinv.id_ne hmeets hx)
    · rw [hold hx, hold hy] at hid
      exact hinv.ids x hx y hy hid
  · intro id inst
    rw [hinv.mem_repo_failed hmeets, hheld]
    constructor
    · rintro ((hmem | heq) | heq)
      · obtain ⟨x, hx, hid, hinst⟩ := (hinv.elements _ _).mp hmem
        exact ⟨x, List.mem_cons_of_mem _ hx, by rw [hold hx]; exact hid, by rw [hold hx]; exact hinst⟩
      · cases heq
      · obtain ⟨hid, hinst⟩ := Prod.mk.inj heq
        exact ⟨_, List.mem_cons_self, by rw [hnew]; exact (Path.element.inj hid).symm,
          by rw [hnew, hinst]; rfl⟩
    · rintro ⟨x, hx, hid, hinst⟩
      rcases List.mem_cons.mp hx with rfl | hx
      · right
        rw [hnew] at hid hinst
        rw [← hid, hinst]
        rfl
      · rw [hold hx] at hid hinst
        exact Or.inl (Or.inl ((hinv.elements _ _).mpr ⟨x, hx, hid, hinst⟩))
  · intro path inst
    rw [hinv.mem_repo_failed hmeets, hheld]
    constructor
    · rintro ((hmem | heq) | heq)
      · obtain ⟨x, hx, hpath, hinst⟩ := (hinv.indications _ _).mp hmem
        exact ⟨x, List.mem_cons_of_mem _ hx, by rw [hold hx]; exact hpath, hinst⟩
      · obtain ⟨hpath, hinst⟩ := Prod.mk.inj heq
        exact ⟨_, List.mem_cons_self, by rw [hnew]; exact (Path.indication.inj hpath).symm, hinst⟩
      · cases heq
    · rintro ⟨x, hx, hpath, hinst⟩
      rcases List.mem_cons.mp hx with rfl | hx
      · left; right
        rw [hnew] at hpath
        rw [← hpath, hinst]
        rfl
      · rw [hold hx] at hpath
        exact Or.inl (Or.inl ((hinv.indications _ _).mpr ⟨x, hx, hpath, hinst⟩))
  · intro x hx
    rw [hheld] at hx
    rcases List.mem_cons.mp hx with rfl | hx
    · rw [hnew]
      rfl
    · rw [hold hx]
      exact hinv.keyed x hx
  · rw [repo_failed]
    exact keys_create (keys_create hinv.keys)
  · intro x hx
    rw [hheld] at hx
    rw [live_failed]
    rcases List.mem_cons.mp hx with rfl | hx
    · exact List.mem_cons_self
    · exact List.mem_cons_of_mem _ (hinv.live x hx)

theorem elem_dequeued (a : Ptr) : (h.next (.dequeued cur)).elem a = h.elem a :=
  dqRetry_data h.queue cur a

theorem mem_held_dequeued {x : Ptr × CStr} :
    x ∈ (h.next (.dequeued cur)).held ↔ x ∈ h.held ∧ x.1 ≠ cur := by
  simp [Handler.next, Handler.dequeue]

theorem mem_repo_dequeued {x : Path × Inst} :
    x ∈ (h.next (.dequeued cur)).repo ↔
      x ∈ h.repo ∧ x.1 ≠ .element (h.elem cur).instanceID ∧ x.1 ≠ .indication (h.elem cur).ind := by
  have hrepo : (h.next (.dequeued cur)).repo =
      (h.repo.delete (.element (h.elem cur).instanceID)).delete (.indication (h.elem cur).ind) := rfl
  rw [hrepo, mem_delete, mem_delete, and_assoc]

theorem Owned.dequeued (hinv : Owned h) (hok : h.Allows (.dequeued cur)) :
    Owned (h.next (.dequeued cur)) := by
  obtain ⟨content, hcur⟩ := hok
  -- another element has another number, and so another path for its indication
  have hid : ∀ {x : Ptr × CStr}, x ∈ h.held → x.1 ≠ cur →
      (h.elem x.1).instanceID ≠ (h.elem cur).instanceID := by
    intro x hx hne he
    exact hne (congrArg Prod.fst (hinv.ids x hx _ hcur he))
  have hind : ∀ {x : Ptr × CStr}, x ∈ h.held → x.1 ≠ cur →
      (h.elem x.1).ind ≠ (h.elem cur).ind := by
    intro x hx hne he
    apply hid hx hne
    rw [← hinv.keyed x hx, ← hinv.keyed _ hcur, he]
  refine ⟨⟨?_, ?_, ?_⟩, ?_, ?_, ?_⟩
  · intro x hx y hy heq
    rw [elem_dequeued, elem_dequeued] at heq
    exact hinv.ids x (mem_held_dequeued.mp hx).1 y (mem_held_dequeued.mp hy).1 heq
  · intro id inst
    rw [mem_repo_dequeued, hinv.elements]
    constructor
    · rintro ⟨⟨x, hx, hxid, hinst⟩, hne, -⟩
      refine ⟨x, mem_held_dequeued.mpr ⟨hx, fun he => ?_⟩, ?_⟩
      · exact hne (by rw [← hxid, he])
      · rw [elem_dequeued]
        exact ⟨hxid, hinst⟩
    · rintro ⟨x, hx, hxid, hinst⟩
      rw [elem_dequeued] at hxid hinst
      obtain ⟨hmem, hne⟩ := mem_held_dequeued.mp hx
      refine ⟨⟨x, hmem, hxid, hinst⟩, fun he => ?_, nofun⟩
      exact hid hmem hne (hxid.trans (Path.element.inj he))
  · intro path inst
    rw [mem_repo_dequeued, hinv.indications]
    constructor
    · rintro ⟨⟨x, hx, hpath, hinst⟩, -, hne⟩
      refine ⟨x, mem_held_dequeued.mpr ⟨hx, fun he => ?_⟩, ?_⟩
      · exact hne (by rw [← hpath, he])
      · rw [elem_dequeued]
        exact ⟨hpath, hinst⟩
    · rintro ⟨x, hx, hpath, hinst⟩
      rw [elem_dequeued] at hpath
      obtain ⟨hmem, hne⟩ := mem_held_dequeued.mp hx
      refine ⟨⟨x, hmem, hpath, hinst⟩, nofun, fun he => ?_⟩
      exact hind hmem hne (hpath.trans (Path.indication.inj he))
  · intro x hx
    rw [elem_dequeued]
    exact hinv.keyed x (mem_held_dequeued.mp hx).1
  · exact keys_delete (keys_delete hinv.keys)
  · intro x hx
    obtain ⟨hmem, hne⟩ := mem_held_dequeued.mp hx
    have hlive : (h.next (.dequeued cur)).queue.live = h.queue.live.erase cur := unlink_live _ _
    rw [hlive]
    exact (List.mem_erase_of_ne hne).mpr (hinv.live x hmem)

/-! ### A restart -/

/-- What the refilled queue holds. -/
theorem refill_spec {es : List (Ptr × RTElement)} {q : Queue} (hnodup : (es.map Prod.fst).Nodup) :
    (∀ x ∈ es, ((refill q es).mem x.1).data = x.2.data) ∧
      (∀ a, a ∉ es.map Prod.fst → ((refill q es).mem a).data = (q.mem a).data) ∧
      (∀ a, a ∈ q.live ∨ a ∈ es.map Prod.fst → a ∈ (refill q es).live) := by
  induction es generalizing q with
  | nil => exact ⟨nofun, fun _ _ => rfl, fun a ha => ha.resolve_right List.not_mem_nil⟩
  | cons y es ih =>
    obtain ⟨hy, hes⟩ := List.nodup_cons.mp hnodup
    obtain ⟨hin, hout, hlive⟩ := @ih (enqRetry (alloc q y.1 y.2) y.1 false).queue hes
    -- queueing changes pointers only, and `malloc` one element
    have halloc : ∀ a, ((enqRetry (alloc q y.1 y.2) y.1 false).queue.mem a).data =
        if a = y.1 then y.2.data else (q.mem a).data := by
      intro a
      rw [enqRetry_data]
      by_cases ha : a = y.1 <;> simp [alloc, ha]
    refine ⟨?_, ?_, ?_⟩
    · intro x hx
      rcases List.mem_cons.mp hx with rfl | hx
      · exact (hout x.1 hy).trans (by rw [halloc, if_pos rfl])
      · exact hin x hx
    · intro a ha
      rw [List.map_cons, List.mem_cons, not_or] at ha
      exact (hout a ha.2).trans (by rw [halloc, if_neg ha.1])
    · intro a ha
      apply hlive a
      rw [(enqRetry_pointers _ _ _).2.2.1, link_live]
      rcases ha with ha | ha
      · exact Or.inl (List.mem_cons_of_mem _ ha)
      · rcases List.mem_cons.mp ha with rfl | ha
        · exact Or.inl List.mem_cons_self
        · exact Or.inr ha

/-- The elements a restart rebuilds, with their addresses. -/
def Handler.rebuilt (h : Handler) (addrs : List Ptr) : List (Ptr × RTElement) :=
  addrs.zip (h.repo.filterMap restored)

theorem mem_held_restarted {x : Ptr × CStr} :
    x ∈ (h.next (.restarted addrs)).held ↔
      ∃ y ∈ h.rebuilt addrs, x = (y.1, contentOf h.repo y.2.ind) := by
  simp [Handler.next, Handler.restart, Handler.rebuilt, eq_comm]

theorem rebuilt_fst (hok : h.Allows (.restarted addrs)) :
    (h.rebuilt addrs).map Prod.fst = addrs :=
  List.map_fst_zip (Nat.le_of_eq hok.2.2)

theorem rebuilt_snd (hok : h.Allows (.restarted addrs)) :
    (h.rebuilt addrs).map Prod.snd = h.repo.filterMap restored :=
  List.map_snd_zip (Nat.le_of_eq hok.2.2.symm)

theorem elem_restarted (hok : h.Allows (.restarted addrs)) {y : Ptr × RTElement}
    (hy : y ∈ h.rebuilt addrs) : (h.next (.restarted addrs)).elem y.1 = y.2.data := by
  have hnodup : ((h.rebuilt addrs).map Prod.fst).Nodup := by
    rw [rebuilt_fst hok]
    exact hok.1
  exact (refill_spec hnodup).1 y hy

/-- What is stored is what a queued element has stored, and it is rebuilt from that. -/
theorem Owned.restored_iff (hinv : Owned h) {e : RTElement} :
    e ∈ h.repo.filterMap restored ↔
      ∃ x ∈ h.held, e.data = h.elem x.1 ∧ e.sfcbIndEle = e.instanceID ∧
        e.next = NULL ∧ e.prev = NULL := by
  rw [List.mem_filterMap]
  constructor
  · rintro ⟨⟨path, inst⟩, hmem, hrest⟩
    unfold restored at hrest
    split at hrest
    · next key id count last ld ind sub heq =>
      cases heq
      cases hrest
      obtain ⟨x, hx, hid, hinst⟩ := (hinv.elements _ _).mp hmem
      obtain ⟨hid', hcount, hlast, hld, hind, hsub⟩ := Inst.element.inj hinst
      refine ⟨x, hx, ?_, by rw [hid', hid], rfl, rfl⟩
      rw [hid', hcount, hlast, hld, hind, hsub]
      rfl
    · cases hrest
  · rintro ⟨x, hx, hdata, hele, hnext, hprev⟩
    refine ⟨_, (hinv.elements _ _).mpr ⟨x, hx, rfl, rfl⟩, ?_⟩
    rw [← hdata]
    obtain ⟨ref, sub, ind, ele, count, last, id, next, prev⟩ := e
    simp only at hele hnext hprev
    rw [hele, hnext, hprev]
    rfl

/-- No two rebuilt elements have the same number. -/
theorem Owned.rebuilt_ids (hinv : Owned h) (hok : h.Allows (.restarted addrs)) :
    ((h.rebuilt addrs).map fun y => y.2.instanceID).Nodup := by
  have hnodup : ((h.repo.filterMap restored).map RTElement.instanceID).Nodup := by
    rw [List.Nodup, List.pairwise_map, List.pairwise_filterMap]
    refine List.Pairwise.imp_of_mem ?_ (List.pairwise_map.mp hinv.keys)
    intro x y hx hy hne e he e' he' hid
    -- the number of an element is the key it is stored under
    have hkey : ∀ {z : Path × Inst} {e : RTElement}, z ∈ h.repo → restored z = some e →
        z.1 = .element e.instanceID := by
      rintro ⟨path, inst⟩ e hz hrest
      unfold restored at hrest
      split at hrest
      · next heq =>
        cases heq
        cases hrest
        obtain ⟨w, -, hid, hinst⟩ := (hinv.elements _ _).mp hz
        rw [(Inst.element.inj hinst).1]
        exact congrArg Path.element hid.symm
      · cases hrest
    exact hne (by rw [hkey hx he, hkey hy he', hid])
  have hmap : (h.rebuilt addrs).map (fun y => y.2.instanceID) =
      ((h.rebuilt addrs).map Prod.snd).map RTElement.instanceID := by
    rw [List.map_map]
    rfl
  rw [hmap, rebuilt_snd hok]
  exact hnodup

/-- Every queued element is rebuilt, and nothing else is. -/
theorem Owned.rebuilt_of_held (hinv : Owned h) (hok : h.Allows (.restarted addrs))
    {x : Ptr × CStr} (hx : x ∈ h.held) : ∃ y ∈ h.rebuilt addrs, y.2.data = h.elem x.1 := by
  obtain ⟨e, he, hdata⟩ : ∃ e ∈ h.repo.filterMap restored, e.data = h.elem x.1 := by
    refine ⟨{ h.elem x.1 with sfcbIndEle := (h.elem x.1).instanceID }, ?_, rfl⟩
    exact hinv.restored_iff.mpr ⟨x, hx, rfl, rfl, rfl, rfl⟩
  rw [← rebuilt_snd hok] at he
  obtain ⟨y, hy, rfl⟩ := List.mem_map.mp he
  exact ⟨y, hy, hdata⟩

theorem Owned.held_of_rebuilt (hinv : Owned h) (hok : h.Allows (.restarted addrs))
    {y : Ptr × RTElement} (hy : y ∈ h.rebuilt addrs) :
    ∃ x ∈ h.held, y.2.data = h.elem x.1 := by
  have hmem : y.2 ∈ h.repo.filterMap restored := by
    rw [← rebuilt_snd hok]
    exact List.mem_map_of_mem hy
  obtain ⟨x, hx, hdata, -⟩ := hinv.restored_iff.mp hmem
  exact ⟨x, hx, hdata⟩

/-- The content of a rebuilt element's indication is that of the element it was. -/
theorem Owned.content_of_held (hinv : Owned h) {x : Ptr × CStr} (hx : x ∈ h.held) :
    contentOf h.repo (h.elem x.1).ind = x.2 :=
  contentOf_eq hinv.keys ((hinv.indications _ _).mpr ⟨x, hx, rfl, rfl⟩)

theorem Owned.restarted (hinv : Owned h) (hok : h.Allows (.restarted addrs)) :
    Owned (h.next (.restarted addrs)) := by
  have hrepo : (h.next (.restarted addrs)).repo = h.repo := rfl
  refine ⟨⟨?_, ?_, ?_⟩, ?_, hinv.keys, ?_⟩
  · -- the new queue is read from the repository, where the ids were distinct
    intro x hx x' hx' hid
    obtain ⟨y, hy, rfl⟩ := mem_held_restarted.mp hx
    obtain ⟨y', hy', rfl⟩ := mem_held_restarted.mp hx'
    rw [elem_restarted hok hy, elem_restarted hok hy'] at hid
    have : y = y' := List.inj_on_of_nodup_map (hinv.rebuilt_ids hok) hy hy' hid
    rw [this]
  · intro id inst
    rw [hrepo, hinv.elements]
    constructor
    · rintro ⟨x, hx, hid, hinst⟩
      obtain ⟨y, hy, hdata⟩ := hinv.rebuilt_of_held hok hx
      refine ⟨_, mem_held_restarted.mpr ⟨y, hy, rfl⟩, ?_⟩
      rw [elem_restarted hok hy, hdata]
      exact ⟨hid, hinst⟩
    · rintro ⟨x, hx, hid, hinst⟩
      obtain ⟨y, hy, rfl⟩ := mem_held_restarted.mp hx
      obtain ⟨x, hx, hdata⟩ := hinv.held_of_rebuilt hok hy
      rw [elem_restarted hok hy, hdata] at hid hinst
      exact ⟨x, hx, hid, hinst⟩
  · -- the indications are not touched; what an element stands for is read back with it
    intro path inst
    rw [hrepo, hinv.indications]
    constructor
    · rintro ⟨x, hx, hpath, hinst⟩
      obtain ⟨y, hy, hdata⟩ := hinv.rebuilt_of_held hok hx
      have hind : y.2.ind = (h.elem x.1).ind :=
        (congrArg RTElement.ind hdata :)
      refine ⟨_, mem_held_restarted.mpr ⟨y, hy, rfl⟩, ?_, ?_⟩
      · rw [elem_restarted hok hy, hdata]
        exact hpath
      · rw [hinst, hind, hinv.content_of_held hx]
    · rintro ⟨x, hx, hpath, hinst⟩
      obtain ⟨y, hy, rfl⟩ := mem_held_restarted.mp hx
      obtain ⟨x, hx, hdata⟩ := hinv.held_of_rebuilt hok hy
      have hind : y.2.ind = (h.elem x.1).ind :=
        (congrArg RTElement.ind hdata :)
      rw [elem_restarted hok hy, hdata] at hpath
      rw [hind, hinv.content_of_held hx] at hinst
      exact ⟨x, hx, hpath, hinst⟩
  · intro x hx
    obtain ⟨y, hy, rfl⟩ := mem_held_restarted.mp hx
    obtain ⟨x, hx, hdata⟩ := hinv.held_of_rebuilt hok hy
    rw [elem_restarted hok hy, hdata]
    exact hinv.keyed x hx
  · intro x hx
    obtain ⟨y, hy, rfl⟩ := mem_held_restarted.mp hx
    have hnodup : ((h.rebuilt addrs).map Prod.fst).Nodup := by
      rw [rebuilt_fst hok]
      exact hok.1
    exact (refill_spec hnodup).2.2 y.1 (Or.inr (List.mem_map_of_mem hy))

end Step

/-! ## Whole histories -/

/-- A process that has just started, with nothing of its own in the repository. -/
structure Fresh (h : Handler) : Prop where
  held : h.held = []
  elements : ∀ id inst, (Path.element id, inst) ∉ h.repo
  indications : ∀ path inst, (Path.indication path, inst) ∉ h.repo
  keys : (h.repo.map Prod.fst).Nodup

theorem Fresh.owned {h : Handler} (hfresh : Fresh h) : Owned h := by
  refine ⟨⟨?_, ?_, ?_⟩, ?_, hfresh.keys, ?_⟩
  · rw [hfresh.held]
    exact nofun
  · intro id inst
    rw [hfresh.held]
    exact iff_of_false (hfresh.elements id inst) nofun
  · intro path inst
    rw [hfresh.held]
    exact iff_of_false (hfresh.indications path inst) nofun
  · rw [hfresh.held]
    exact nofun
  · rw [hfresh.held]
    exact nofun

/-- One event under the condition keeps the invariant. -/
theorem Owned.next {h : Handler} {e : Event} (hinv : Owned h) (hok : h.Allows e)
    (hmeets : h.Meets e) : Owned (h.next e) := by
  cases e with
  | failed element f => exact hinv.failed hok hmeets
  | dequeued cur => exact hinv.dequeued hok
  | restarted addrs => exact hinv.restarted hok

/-- A failed delivery that finds its number taken gives it to a second element. -/
theorem Owned.not_distinct {h : Handler} {e : Event} (hinv : Owned h) (hok : h.Allows e)
    (hmeets : ¬ h.Meets e) : ¬ Distinct (h.next e) := by
  intro hdist
  cases e with
  | dequeued | restarted => exact hmeets trivial
  | failed element f =>
    simp only [Handler.Meets, not_forall, Decidable.not_not] at hmeets
    obtain ⟨inst, hmem⟩ := hmeets
    obtain ⟨x, hx, hid, -⟩ := (hinv.elements _ _).mp hmem
    have hne : x.1 ≠ element := fun he => hok.2 (he ▸ hinv.live x hx)
    have := hdist.ids x (List.mem_cons_of_mem _ hx) (element, f.content) List.mem_cons_self (by
      rw [elem_failed, elem_failed, if_neg hne, if_pos rfl]
      exact hid)
    exact hne (congrArg Prod.fst this)

/-- In every history the numbers are right, in every state, exactly when no failed
delivery finds the number of the counter in the repository. -/
theorem runHandler_distinct_iff {h : Handler} {es : List Event} (hfresh : Fresh h)
    (hallowed : AllAllows h es) : AllDistinct h es ↔ AllMeets h es := by
  -- the induction is on the events, from any state with the invariant
  have hrun : ∀ {h : Handler}, Owned h → AllAllows h es → (AllDistinct h es ↔ AllMeets h es) := by
    clear hallowed
    induction es with
    | nil => exact fun hinv _ => iff_of_true hinv.toDistinct trivial
    | cons e es ih =>
      intro h hinv hallowed
      rw [AllDistinct, AllMeets]
      by_cases hmeets : h.Meets e
      · rw [ih (hinv.next hallowed.1 hmeets) hallowed.2]
        exact and_congr_left' (iff_of_true hinv.toDistinct hmeets)
      · refine iff_of_false (fun hall => ?_) (fun hall => hmeets hall.1)
        apply hinv.not_distinct hallowed.1 hmeets
        cases es with
        | nil => exact hall.2
        | cons e es => exact hall.2.1
  exact hrun hfresh.owned hallowed

/-- A handler that has just started, on an empty repository. -/
def sampleHandler : Handler := ⟨⟨fun _ => sampleElement, [], NULL, NULL⟩, 1, [], []⟩

theorem sampleHandler_fresh : Fresh sampleHandler :=
  ⟨rfl, nofun, nofun, List.nodup_nil⟩

/-- A failed delivery of the examples. -/
def sampleFailure : Failure := ⟨lit "ld", lit "sub", lit "ind", lit "alert", 100⟩

/-- The queue is drained before the process ends. -/
def drainedEvents : List Event :=
  [.failed 1 sampleFailure, .failed 2 sampleFailure, .dequeued 2, .dequeued 1, .restarted [],
    .failed 1 sampleFailure]

theorem drainedEvents_distinct :
    AllAllows sampleHandler drainedEvents ∧ AllDistinct sampleHandler drainedEvents := by
  have hallowed : AllAllows sampleHandler drainedEvents :=
    ⟨⟨by decide, by decide⟩, ⟨by decide, by decide⟩, ⟨_, List.mem_cons_self⟩,
      ⟨_, List.mem_cons_self⟩, ⟨by decide, by decide, by decide⟩, ⟨by decide, by decide⟩, trivial⟩
  have hmeets : AllMeets sampleHandler drainedEvents := by
    refine ⟨?_, ?_, trivial, trivial, trivial, ?_, trivial⟩
    · exact nofun
    · intro inst hmem
      rcases List.mem_cons.mp hmem with h | hmem
      · cases h
      · rcases List.mem_cons.mp hmem with h | h <;> cases h
    · exact nofun
  exact ⟨hallowed, (runHandler_distinct_iff sampleHandler_fresh hallowed).mpr hmeets⟩

/-- Two elements are still queued when the process ends; the next one to fail after the
restart gets the number of the first. -/
def undrainedEvents : List Event :=
  [.failed 1 sampleFailure, .failed 2 sampleFailure, .restarted [1, 2], .failed 3 sampleFailure]

/-- The first and the last element are queued under the same number. -/
theorem undrainedEvents_not_distinct :
    Fresh sampleHandler ∧ AllAllows sampleHandler undrainedEvents ∧
      ¬ AllDistinct sampleHandler undrainedEvents := by
  refine ⟨sampleHandler_fresh, ⟨⟨by decide, by decide⟩, ⟨by decide, by decide⟩,
    ⟨by decide, by decide, by decide⟩, ⟨by decide, by decide⟩, trivial⟩, ?_⟩
  intro hall
  have hids := hall.2.2.2.2.ids (1, lit "alert") (by decide) (3, lit "alert") (by decide) (by decide)
  revert hids
  decide

end Sfcb.IndCIMXMLHandler
