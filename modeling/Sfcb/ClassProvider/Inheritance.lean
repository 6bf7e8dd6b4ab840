import Mathlib.Logic.Relation
import Sfcb.ClassProvider.ClassRegister

/-!
# The inheritance table

The child lists are a second copy of the superclass relation, kept by hand when a register is
loaded and when a class comes or goes. `Consistent` says that they agree with it, that every
superclass is registered and that no class is among its own ancestors. Loading gives the
first of these whatever the schema is; the other two are properties of the schema.
-/

namespace Sfcb.ClassProvider

open Sfcb.Lib
open Sfcb.Cmpi (CMPIrc)

variable {γ : Type} {ht : Table CStr (Class γ)} {it : Table CStr (List CStr)} {k fc : CStr}

/-! ## Counting children -/

/-- How often a name is listed under a key. -/
def listed (it : Table CStr (List CStr)) (k fc : CStr) : Nat :=
  ((it.lookup k).getD []).countP fun child => fold child = fc

/-- The class under the key `fc` has the superclass `k`. -/
def isChild (ht : Table CStr (Class γ)) (k fc : CStr) : Bool :=
  (ht.lookup fc).any fun c => c.superClass.map fold == some k

theorem listed_addChild (it : Table CStr (List CStr)) (pn cn k fc : CStr) :
    listed (addChild it pn cn) k fc =
      listed it k fc + if k = fold pn ∧ fold cn = fc then 1 else 0 := by
  unfold listed addChild
  by_cases hk : k = fold pn
  · subst hk
    rw [AList.lookup_insert, Option.getD_some, List.countP_cons]
    simp
  · rw [AList.lookup_insert_ne hk]
    simp [hk]

theorem exists_of_countP_pos {α : Type} {p : α → Bool} {l : List α} (h : 0 < l.countP p) :
    ∃ u a v, l = u ++ a :: v ∧ p a = true ∧ l.eraseP p = u ++ v := by
  obtain ⟨a, ha, hp⟩ := List.countP_pos_iff.mp h
  obtain ⟨b, u, v, -, hb, hl, herase⟩ := List.exists_of_eraseP ha hp
  exact ⟨u, b, v, hl, hb, herase⟩

theorem listed_removeChild (it : Table CStr (List CStr)) (pn chd k fc : CStr) :
    listed (removeChild it pn chd) k fc =
      listed it k fc - if k = fold pn ∧ fold chd = fc then 1 else 0 := by
  unfold removeChild
  cases hul : it.lookup (fold pn) with
  | none =>
    by_cases hk : k = fold pn
    · subst hk
      simp [listed, hul]
    · simp [hk]
  | some ul =>
    by_cases hk : k = fold pn
    · subst hk
      simp only [listed, AList.lookup_insert, hul, Option.getD_some, true_and]
      by_cases hpos : 0 < ul.countP fun child => fold child = fold chd
      · obtain ⟨u, a, v, hl, ha, herase⟩ := exists_of_countP_pos hpos
        have ha : fold a = fold chd := by simpa using ha
        rw [herase, hl]
        by_cases hfc : fold chd = fc
        · simp [List.countP_append, ha, hfc]
        · simp [List.countP_append, ha, hfc]
      · have hnone : ∀ a ∈ ul, ¬ (fold a = fold chd) := by
          intro a ha hfold
          exact hpos (List.countP_pos_iff.mpr ⟨a, ha, by simpa using hfold⟩)
        have herase : ul.eraseP (fun child => fold child = fold chd) = ul :=
          List.eraseP_of_forall_not fun a ha => by simpa using hnone a ha
        rw [herase]
        by_cases hfc : fold chd = fc
        · subst hfc
          have hzero : ul.countP (fun child => fold child = fold chd) = 0 := by omega
          simp [hzero]
        · simp [hfc]
    · simp [listed, AList.lookup_insert_ne hk, hk]

/-! ## Loading -/

/-- A property that only the value of one key can have. -/
theorem count_eq_toNat {κ β : Type} [DecidableEq κ] {t : Table κ β} {p : β → Bool} {k : κ}
    (h : ∀ l v, t.lookup l = some v → p v = true → l = k) :
    Table.count p t = ((t.lookup k).any p).toNat := by
  cases hk : t.lookup k with
  | none =>
    refine Table.count_eq_zero_iff.mpr fun l v hl => ?_
    by_contra hp
    have := h l v hl (by simpa using hp)
    subst this
    rw [hk] at hl
    cases hl
  | some v =>
    have hrest : Table.count p (t.erase k) = 0 := by
      refine Table.count_eq_zero_iff.mpr fun l w hl => ?_
      by_contra hp
      by_cases hlk : l = k
      · subst hlk
        rw [AList.lookup_erase] at hl
        cases hl
      · rw [AList.lookup_erase_ne hlk] at hl
        exact hlk (h l w hl (by simpa using hp))
    have hcount := Table.count_erase hk p
    rw [hrest, Nat.zero_add] at hcount
    rw [← hcount]
    cases hp : p v <;> simp [hp]

/-- Every entry of the table is listed under its superclass. -/
theorem listed_foldl (es : List (Sigma fun _ : CStr => Class γ)) (it : Table CStr (List CStr))
    (k fc : CStr) :
    listed (es.foldl enterChild it) k fc = listed it k fc +
      es.countP fun e => e.2.superClass.map fold == some k && fold e.2.name == fc := by
  induction es generalizing it with
  | nil => simp
  | cons e es ih =>
    rw [List.foldl_cons, ih, List.countP_cons]
    unfold enterChild
    cases hs : e.2.superClass with
    | none => simp
    | some p =>
      have hiff : ((some p).map fold == some k && fold e.2.name == fc) = true ↔
          k = fold p ∧ fold e.2.name = fc := by
        simp only [Option.map_some, Bool.and_eq_true, beq_iff_eq, Option.some.injEq]
        exact and_congr_left' eq_comm
      rw [listed_addChild]
      simp only [hiff]
      omega

theorem listed_buildInheritanceTable (h : Keyed ht) (k fc : CStr) :
    listed (buildInheritanceTable ht) k fc = (isChild ht k fc).toNat := by
  have hcount : Table.count (fun c => c.superClass.map fold == some k && fold c.name == fc) ht =
      ((ht.lookup fc).any fun c => c.superClass.map fold == some k && fold c.name == fc).toNat := by
    refine count_eq_toNat fun l c hl hp => ?_
    rw [Bool.and_eq_true, beq_iff_eq, beq_iff_eq] at hp
    rw [← h l c hl, hp.2]
  rw [buildInheritanceTable, listed_foldl]
  have hempty : listed ∅ k fc = 0 := rfl
  rw [hempty, Nat.zero_add]
  refine hcount.trans ?_
  unfold isChild
  cases hfc : ht.lookup fc with
  | none => rfl
  | some c => simp [h fc c hfc]

/-! ## The invariant -/

/-- The superclass relation, on folded names. -/
def Super (ht : Table CStr (Class γ)) (k l : CStr) : Prop := isChild ht l k = true

/-- Every superclass is registered. -/
def Closed (cr : ClassRegister γ) : Prop :=
  ∀ k c p, cr.ht.lookup k = some c → c.superClass = some p → getClass cr p ≠ none

/-- No class is among its own ancestors. -/
def Acyclic (cr : ClassRegister γ) : Prop := ∀ k, ¬ Relation.TransGen (Super cr.ht) k k

structure Consistent (cr : ClassRegister γ) : Prop where
  keyed : Keyed cr.ht
  children : ∀ k fc, listed cr.it k fc = (isChild cr.ht k fc).toNat
  closed : Closed cr
  acyclic : Acyclic cr

theorem isChild_iff : isChild ht k fc = true ↔
    ∃ c p, ht.lookup fc = some c ∧ c.superClass = some p ∧ fold p = k := by
  unfold isChild
  cases ht.lookup fc with
  | none => simp
  | some c => cases hs : c.superClass <;> simp [hs]

theorem isChild_insert (ht : Table CStr (Class γ)) (l : CStr) (c : Class γ) (k fc : CStr) :
    isChild (ht.insert l c) k fc =
      if fc = l then c.superClass.map fold == some k else isChild ht k fc := by
  unfold isChild
  by_cases hl : fc = l
  · subst hl
    rw [AList.lookup_insert, if_pos rfl]
    rfl
  · rw [AList.lookup_insert_ne hl, if_neg hl]

theorem isChild_erase (ht : Table CStr (Class γ)) (l k fc : CStr) :
    isChild (ht.erase l) k fc = if fc = l then false else isChild ht k fc := by
  unfold isChild
  by_cases hl : fc = l
  · subst hl
    rw [AList.lookup_erase, if_pos rfl]
    rfl
  · rw [AList.lookup_erase_ne hl, if_neg hl]

theorem listed_enterChild (it : Table CStr (List CStr)) (mc : Class γ) (k fc : CStr) :
    listed (enterChild it ⟨fold mc.name, mc⟩) k fc = listed it k fc +
      if mc.superClass.map fold = some k ∧ fold mc.name = fc then 1 else 0 := by
  have hone := listed_foldl [⟨fold mc.name, mc⟩] it k fc
  simpa [List.countP_cons] using hone

section Steps

variable {cr : ClassRegister γ} {mc : Class γ} {cn : CStr}

/-- Without children there is no subclass. -/
theorem Consistent.isChild_eq_false (h : Consistent cr) (hchildren : getChildren cr cn = [])
    (fc : CStr) : isChild cr.ht (fold cn) fc = false := by
  have hcount := h.children (fold cn) fc
  have hzero : listed cr.it (fold cn) fc = 0 := by
    have hlist : (cr.it.lookup (fold cn)).getD [] = [] := hchildren
    simp [listed, hlist]
  rw [hzero] at hcount
  cases hc : isChild cr.ht (fold cn) fc with
  | false => rfl
  | true => simp [hc] at hcount

/-- A new class takes no other one away. -/
theorem getClass_with (hnew : getClass cr mc.name = none) (hcn : getClass cr cn ≠ none) :
    getClass (cr.with mc) cn ≠ none := by
  by_cases hk : fold cn = fold mc.name
  · have hnone : getClass cr cn = none := by
      rw [getClass, hk]
      exact hnew
    exact absurd hnone hcn
  · have hsame : getClass (cr.with mc) cn = getClass cr cn := AList.lookup_insert_ne hk
    rw [hsame]
    exact hcn

theorem lookup_with {k : CStr} {c : Class γ} (h : (cr.with mc).ht.lookup k = some c) :
    (k = fold mc.name ∧ c = mc) ∨ (k ≠ fold mc.name ∧ cr.ht.lookup k = some c) := by
  have hht : (cr.with mc).ht = cr.ht.insert (fold mc.name) mc := rfl
  rw [hht] at h
  by_cases hk : k = fold mc.name
  · subst hk
    rw [AList.lookup_insert] at h
    cases h
    exact Or.inl ⟨rfl, rfl⟩
  · rw [AList.lookup_insert_ne hk] at h
    exact Or.inr ⟨hk, h⟩

theorem closed_with (h : Closed cr) (hnew : getClass cr mc.name = none)
    (hparent : ∀ p, mc.superClass = some p → getClass cr p ≠ none) : Closed (cr.with mc) := by
  intro k c p hc hp
  rcases lookup_with hc with ⟨-, rfl⟩ | ⟨-, hc⟩
  · exact getClass_with hnew (hparent p hp)
  · exact getClass_with hnew (h k c p hc hp)

theorem Consistent.with (h : Consistent cr) (hnew : getClass cr mc.name = none)
    (hparent : ∀ p, mc.superClass = some p → getClass cr p ≠ none) : Consistent (cr.with mc) := by
  have hfresh : ∀ k, isChild cr.ht k (fold mc.name) = false := by
    intro k
    have hnone : cr.ht.lookup (fold mc.name) = none := hnew
    simp [isChild, hnone]
  -- nothing has the new class as superclass
  have htarget : ∀ {k l}, Super (cr.with mc).ht k l → l ≠ fold mc.name := by
    intro k l hsuper heq
    obtain ⟨c, p, hc, hp, hl⟩ := isChild_iff.mp hsuper
    have hreg : getClass cr p ≠ none := by
      rcases lookup_with hc with ⟨-, rfl⟩ | ⟨-, hc⟩
      · exact hparent p hp
      · exact h.closed k c p hc hp
    have hp' : getClass cr p = none := by
      rw [getClass, hl, heq]
      exact hnew
    exact hreg hp'
  refine ⟨h.keyed.insert, ?_, ?_, ?_⟩
  · intro k fc
    have hlisted := listed_enterChild cr.it mc k fc
    have hchild := isChild_insert cr.ht (fold mc.name) mc k fc
    change listed (enterChild cr.it ⟨fold mc.name, mc⟩) k fc =
      (isChild (cr.ht.insert (fold mc.name) mc) k fc).toNat
    rw [hlisted, hchild, h.children]
    by_cases hfc : fc = fold mc.name
    · subst hfc
      rw [hfresh k, if_pos rfl]
      by_cases hk : mc.superClass.map fold = some k
      · simp [hk]
      · rw [beq_eq_false_iff_ne.mpr hk]
        simp [hk]
    · simp [hfc, Ne.symm hfc]
  · exact closed_with h.closed hnew hparent
  · have hold : ∀ {k l}, Super (cr.with mc).ht k l → k ≠ fold mc.name → Super cr.ht k l := by
      intro k l hsuper hk
      have hchild := isChild_insert cr.ht (fold mc.name) mc l k
      rw [if_neg hk] at hchild
      rw [Super, ← hchild]
      exact hsuper
    have hpath : ∀ {k l}, Relation.TransGen (Super (cr.with mc).ht) k l → k ≠ fold mc.name →
        Relation.TransGen (Super cr.ht) k l ∧ l ≠ fold mc.name := by
      intro k l hgen hk
      induction hgen with
      | single hedge => exact ⟨.single (hold hedge hk), htarget hedge⟩
      | tail _ hedge ih => exact ⟨ih.1.tail (hold hedge ih.2), htarget hedge⟩
    intro k hcycle
    have hk : k ≠ fold mc.name := by
      cases hcycle with
      | single hedge => exact htarget hedge
      | tail _ hedge => exact htarget hedge
    exact h.acyclic k (hpath hcycle hk).1

theorem listed_deleteSection (cr : ClassRegister γ) (cn : CStr) (pn : Option CStr) (k fc : CStr) :
    listed (deleteSection cr cn pn).it k fc = listed cr.it k fc -
      if pn.map fold = some k ∧ fold cn = fc then 1 else 0 := by
  cases pn with
  | none => simp [deleteSection, removeClass]
  | some pn =>
    have hiff : (some pn).map fold = some k ∧ fold cn = fc ↔ k = fold pn ∧ fold cn = fc := by
      rw [Option.map_some, Option.some.injEq]
      exact and_congr_left' eq_comm
    simp only [hiff]
    exact listed_removeChild cr.it pn cn k fc

theorem Consistent.without {cl : Class γ} (h : Consistent cr) (hcl : getClass cr cn = some cl)
    (hchildren : getChildren cr cn = []) : Consistent (deleteSection cr cn cl.superClass) := by
  have hht := ht_deleteSection cr cn cl.superClass
  have hother : ∀ k c p, (cr.ht.erase (fold cn)).lookup k = some c → c.superClass = some p →
      cr.ht.lookup k = some c ∧ fold p ≠ fold cn := by
    intro k c p hc hp
    have hk : k ≠ fold cn := by
      rintro rfl
      rw [AList.lookup_erase] at hc
      cases hc
    rw [AList.lookup_erase_ne hk] at hc
    refine ⟨hc, fun heq => ?_⟩
    have hchild : isChild cr.ht (fold cn) k = true := isChild_iff.mpr ⟨c, p, hc, hp, heq⟩
    rw [h.isChild_eq_false hchildren] at hchild
    cases hchild
  refine ⟨?_, ?_, ?_, ?_⟩
  · rw [hht]
    exact h.keyed.erase _
  · intro k fc
    rw [listed_deleteSection, hht, isChild_erase, h.children]
    have hcl : cr.ht.lookup (fold cn) = some cl := hcl
    by_cases hfc : fc = fold cn
    · subst hfc
      by_cases hk : cl.superClass.map fold = some k
      · simp [hk, isChild, hcl]
      · simp [hk, isChild, hcl]
    · simp [hfc, Ne.symm hfc]
  · intro k c p hc hp
    rw [hht] at hc
    obtain ⟨hc, hne⟩ := hother k c p hc hp
    rw [getClass, hht, AList.lookup_erase_ne hne]
    exact h.closed k c p hc hp
  · intro k hcycle
    have hedges : Super (deleteSection cr cn cl.superClass).ht ≤ Super cr.ht := by
      intro a b hedge
      rw [Super, hht, isChild_erase] at hedge
      split at hedge
      · cases hedge
      · exact hedge
    exact h.acyclic k (Relation.TransGen.mono hedges k k hcycle)

/-- Every request keeps the register consistent. -/
theorem Consistent.serve {merge : γ → γ → γ} (h : Consistent cr) (q : Request γ) :
    Consistent (serve merge cr q).1 := by
  rcases serve_cases merge cr q with hrun | ⟨cc, mc, rfl, hnew, hparent, hmc, hrun⟩ |
    ⟨cn, cl, rfl, hcl, hchildren, hrun⟩
  · rw [hrun]
    exact h
  · rw [hrun]
    exact h.with (hmc.name ▸ hnew) (hmc.superClass ▸ hparent)
  · rw [hrun]
    exact h.without hcl hchildren

theorem Consistent.run {merge : γ → γ → γ} (h : Consistent cr) (qs : List (Request γ)) :
    Consistent (run merge cr qs) := by
  induction qs generalizing cr with
  | nil => exact h
  | cons q qs ih => exact ih (h.serve q)

/-- A delete is refused exactly for a class with subclasses. -/
theorem Consistent.deleteClass_refused_iff (h : Consistent cr) (hcn : getClass cr cn ≠ none) :
    (deleteClass cr cn).2 ≠ .OK ↔ ∃ fc, Super cr.ht fc (fold cn) := by
  rcases deleteClass_cases cr cn with ⟨hnone, -⟩ | ⟨cl, -, ⟨hchildren, hrun⟩ | ⟨hchildren, hrun⟩⟩
  · exact absurd hnone hcn
  · rw [hrun]
    refine iff_of_true (by simp) ?_
    obtain ⟨child, rest, hlist⟩ := List.exists_cons_of_ne_nil hchildren
    refine ⟨fold child, ?_⟩
    have hcount := h.children (fold cn) (fold child)
    have hlist : (cr.it.lookup (fold cn)).getD [] = child :: rest := hlist
    cases hc : isChild cr.ht (fold cn) (fold child) with
    | true => exact hc
    | false => simp [listed, hlist, hc] at hcount
  · rw [hrun]
    refine iff_of_false (by simp) ?_
    rintro ⟨fc, hsuper⟩
    rw [Super, h.isChild_eq_false hchildren] at hsuper
    cases hsuper

end Steps

/-- A loaded register is consistent when its schema is: every superclass is there and no
class is its own ancestor. -/
theorem consistent_newClassRegister {file : SchemaFile γ} {cr : ClassRegister γ}
    (hload : newClassRegister file = some cr) (hclosed : Closed cr) (hacyclic : Acyclic cr) :
    Consistent cr := by
  obtain ⟨-, rfl⟩ := newClassRegister_iff.mp hload
  have hkeyed := keyed_loadedRegister file
  exact ⟨hkeyed, listed_buildInheritanceTable hkeyed, hclosed, hacyclic⟩

/-- A class is listed once among the children of its superclass and nowhere else. -/
structure ChildrenRight (cr : ClassRegister γ) : Prop where
  once : ∀ c p, (getChildren cr p).countP (fun child => fold child = fold c) = 1 ↔
    ∃ cl q, getClass cr c = some cl ∧ cl.superClass = some q ∧ fold q = fold p
  atMostOnce : ∀ c p, (getChildren cr p).countP (fun child => fold child = fold c) ≤ 1

theorem Consistent.childrenRight {cr : ClassRegister γ} (h : Consistent cr) : ChildrenRight cr := by
  have hcount : ∀ c p, (getChildren cr p).countP (fun child => fold child = fold c) =
      (isChild cr.ht (fold p) (fold c)).toNat := fun c p => h.children (fold p) (fold c)
  refine ⟨fun c p => ?_, fun c p => ?_⟩
  · rw [hcount, Bool.toNat_eq_one]
    exact isChild_iff
  · rw [hcount]
    exact Bool.toNat_le _

/-- What runs of requests keep of a schema whose superclasses are all present and in which no
class is its own ancestor. -/
theorem run_inheritance (merge : γ → γ → γ) {file : SchemaFile γ} {cr : ClassRegister γ}
    (hload : newClassRegister file = some cr) (hclosed : Closed cr) (hacyclic : Acyclic cr)
    (qs : List (Request γ)) :
    ChildrenRight (run merge cr qs) ∧ Closed (run merge cr qs) ∧ Acyclic (run merge cr qs) ∧
      ∀ cn, getClass (run merge cr qs) cn ≠ none →
        ((deleteClass (run merge cr qs) cn).2 ≠ .OK ↔
          ∃ c cl p, getClass (run merge cr qs) c = some cl ∧ cl.superClass = some p ∧
            fold p = fold cn) := by
  have h : Consistent (run merge cr qs) :=
    (consistent_newClassRegister hload hclosed hacyclic).run qs
  refine ⟨h.childrenRight, h.closed, h.acyclic, ?_⟩
  intro cn hcn
  rw [h.deleteClass_refused_iff hcn]
  constructor
  · rintro ⟨fc, hsuper⟩
    obtain ⟨c, p, hc, hp, hcn⟩ := isChild_iff.mp hsuper
    refine ⟨c.name, c, p, ?_, hp, hcn⟩
    rw [getClass, h.keyed fc c hc]
    exact hc
  · rintro ⟨c, cl, p, hcl, hp, hcn⟩
    exact ⟨fold c, isChild_iff.mpr ⟨cl, p, hcl, hp, hcn⟩⟩

/-- A class and one derived from it. -/
def derivedClasses : List (Class Unit) :=
  [⟨lit "A", none, false, ()⟩, ⟨lit "B", some (lit "A"), false, ()⟩]

/-- Two classes, each derived from the other. -/
def cyclicClasses : List (Class Unit) :=
  [⟨lit "A", some (lit "B"), false, ()⟩, ⟨lit "B", some (lit "A"), false, ()⟩]

theorem derivedClasses_forest : ∃ cr, newClassRegister (.ofClasses derivedClasses) = some cr ∧
    Closed cr ∧ Acyclic cr := by
  obtain ⟨cr, hload⟩ : ∃ cr, newClassRegister (.ofClasses derivedClasses) = some cr := ⟨_, rfl⟩
  have hht : cr.ht.entries = [⟨fold (lit "B"), ⟨lit "B", some (lit "A"), false, ()⟩⟩,
      ⟨fold (lit "A"), ⟨lit "A", none, false, ()⟩⟩] := by
    cases hload
    rfl
  have hsome : ∀ k c, cr.ht.lookup k = some c →
      (⟨k, c⟩ : Sigma fun _ : CStr => Class Unit) ∈ cr.ht.entries :=
    fun k c hc => AList.mem_lookup_iff.mp hc
  have hsuper : ∀ k c p, cr.ht.lookup k = some c → c.superClass = some p →
      k = fold (lit "B") ∧ p = lit "A" := by
    intro k c p hc hp
    have hmem := hsome k c hc
    rw [hht, List.mem_cons, List.mem_singleton] at hmem
    rcases hmem with heq | heq
    · cases heq
      cases hp
      exact ⟨rfl, rfl⟩
    · cases heq
      cases hp
  have hclosed : Closed cr := by
    intro k c p hc hp
    rw [(hsuper k c p hc hp).2]
    cases hload
    decide
  have hacyclic : Acyclic cr := by
    have hpath : ∀ {k l}, Relation.TransGen (Super cr.ht) k l →
        k = fold (lit "B") ∧ l = fold (lit "A") := by
      intro k l hgen
      induction hgen with
      | single hedge =>
        obtain ⟨c, p, hc, hp, hl⟩ := isChild_iff.mp hedge
        obtain ⟨hk, hp⟩ := hsuper _ c p hc hp
        exact ⟨hk, by rw [← hl, hp]⟩
      | tail _ hedge ih =>
        obtain ⟨c, p, hc, hp, hl⟩ := isChild_iff.mp hedge
        exact ⟨ih.1, by rw [← hl, (hsuper _ c p hc hp).2]⟩
    intro k hcycle
    obtain ⟨hb, ha⟩ := hpath hcycle
    have hne : fold (lit "B") ≠ fold (lit "A") := by decide
    exact hne (hb.symm.trans ha)
  exact ⟨cr, hload, hclosed, hacyclic⟩

theorem run_inheritance_derived : ∃ cr, newClassRegister (.ofClasses derivedClasses) = some cr ∧
    Closed cr ∧ Acyclic cr ∧
      ChildrenRight (run (fun _ c => c) cr [.delete (lit "B"), .delete (lit "A")]) := by
  obtain ⟨cr, hload, hclosed, hacyclic⟩ := derivedClasses_forest
  exact ⟨cr, hload, hclosed, hacyclic, (run_inheritance _ hload hclosed hacyclic _).1⟩

/-- A cycle is loaded as it stands in the file. -/
theorem not_acyclic_cyclic : ∃ cr, newClassRegister (.ofClasses cyclicClasses) = some cr ∧
    Closed cr ∧ ¬ Acyclic (run (fun _ c => c) cr []) := by
  obtain ⟨cr, hload⟩ : ∃ cr, newClassRegister (.ofClasses cyclicClasses) = some cr := ⟨_, rfl⟩
  have hht : cr.ht.entries = [⟨fold (lit "B"), ⟨lit "B", some (lit "A"), false, ()⟩⟩,
      ⟨fold (lit "A"), ⟨lit "A", some (lit "B"), false, ()⟩⟩] := by
    cases hload
    rfl
  refine ⟨cr, hload, ?_, ?_⟩
  · intro k c p hc hp
    have hmem : (⟨k, c⟩ : Sigma fun _ : CStr => Class Unit) ∈ cr.ht.entries :=
      AList.mem_lookup_iff.mp hc
    rw [hht, List.mem_cons, List.mem_singleton] at hmem
    rcases hmem with heq | heq
    · cases heq
      cases hp
      cases hload
      decide
    · cases heq
      cases hp
      cases hload
      decide
  · intro hacyclic
    have hab : Super cr.ht (fold (lit "A")) (fold (lit "B")) := by
      cases hload
      rfl
    have hba : Super cr.ht (fold (lit "B")) (fold (lit "A")) := by
      cases hload
      rfl
    exact hacyclic (fold (lit "A")) ((Relation.TransGen.single hab).tail hba)

end Sfcb.ClassProvider
