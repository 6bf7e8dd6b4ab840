import Mathlib.Logic.Relation
import Mathlib.Data.List.Nodup
import Sfcb.Lib.Cursor

/-!
# Walks over a forest of lists with cursors

Each list holds the elements right below its key, and each element has a key of its own. A walk
visits the elements of a list one after the other, and those below an element right after it;
where it stands is kept in the cursors of the lists only. A visit may end the whole walk.

`cursorWalk_eq` is the rule: where no key is below itself, the walk visits the elements in
order, as if they were in one list, and comes to an end. The cursors of the lists further up
are not moved on the way. `Preorder` is that one list.
-/

namespace Sfcb.Lib

variable {κ α σ : Type}

/-- The walk, from a call on. The outcome says whether a visit ended it. -/
def cursorWalk [DecidableEq κ] (lists : κ → List α) (key : α → κ)
    (visit : σ → α → Option (σ × Bool)) :
    Nat → CursorCall κ → (κ → Nat) → σ → Option ((κ → Nat) × σ × Bool)
  | 0, _, _, _ => none
  | fuel + 1, c, cursors, s =>
    let cursors := Function.update cursors c.list (c.move lists cursors)
    match elementAt (lists c.list) (cursors c.list) with
    | none => some (cursors, s, false)
    | some a =>
      (visit s a).bind fun (s, stop) =>
        if stop then some (cursors, s, true)
        else
          (cursorWalk lists key visit fuel (.first (key a)) cursors s).bind
            fun (cursors, s, stop) =>
              if stop then some (cursors, s, true)
              else cursorWalk lists key visit fuel (.next c.list) cursors s

/-- The visits of the elements of a list. -/
def visitAll (visit : σ → α → Option (σ × Bool)) : σ → List α → Option (σ × Bool)
  | s, [] => some (s, false)
  | s, a :: l =>
    (visit s a).bind fun (s, stop) => if stop then some (s, true) else visitAll visit s l

theorem visitAll_append (visit : σ → α → Option (σ × Bool)) (s : σ) (l l' : List α) :
    visitAll visit s (l ++ l') =
      (visitAll visit s l).bind fun (s, stop) =>
        if stop then some (s, true) else visitAll visit s l' := by
  induction l generalizing s with
  | nil => rfl
  | cons a l ih =>
    rw [List.cons_append, visitAll, visitAll]
    cases visit s a with
    | none => rfl
    | some r =>
      obtain ⟨s', stop⟩ := r
      cases stop with
      | true => rfl
      | false => exact ih s'

/-- The elements of a list and those below them, in the order of the walk. -/
inductive Preorder (lists : κ → List α) (key : α → κ) : List α → List α → Prop where
  | nil : Preorder lists key [] []
  | cons {a : α} {l x y : List α} (hbelow : Preorder lists key (lists (key a)) x)
      (hrest : Preorder lists key l y) : Preorder lists key (a :: l) (a :: (x ++ y))

/-- An element with the key `l` is in the list of `k`. -/
def Below (lists : κ → List α) (key : α → κ) (l k : κ) : Prop := ∃ a ∈ lists k, key a = l

section Preorder

variable {lists : κ → List α} {key : α → κ} {l out : List α}

/-- What is in a walk over a list is in the list, or below an element of it. -/
theorem Preorder.mem_iff (h : Preorder lists key l out) (b : α) (hb : b ∈ out) :
    b ∈ l ∨ ∃ a ∈ l, Relation.TransGen (Below lists key) (key b) (key a) := by
  induction h with
  | nil => exact absurd hb (by simp)
  | @cons a l x y _ _ ihbelow ihrest =>
    obtain rfl | hb := List.mem_cons.mp hb
    · exact .inl List.mem_cons_self
    · obtain hb | hb := List.mem_append.mp hb
      · refine .inr ⟨a, List.mem_cons_self, ?_⟩
        obtain hin | ⟨c, hc, hpath⟩ := ihbelow hb
        · exact .single ⟨b, hin, rfl⟩
        · exact hpath.tail ⟨c, hc, rfl⟩
      · obtain hin | ⟨c, hc, hpath⟩ := ihrest hb
        · exact .inl (List.mem_cons_of_mem _ hin)
        · exact .inr ⟨c, List.mem_cons_of_mem _ hc, hpath⟩

theorem Preorder.subset (h : Preorder lists key l out) {b : α} (hb : b ∈ l) : b ∈ out := by
  induction h with
  | nil => exact hb
  | cons _ _ _ ihrest =>
    obtain rfl | hb := List.mem_cons.mp hb
    · exact List.mem_cons_self
    · exact List.mem_cons_of_mem _ (List.mem_append_right _ (ihrest hb))

/-- With an element, the walk over a list has what is in the list of the element. -/
theorem Preorder.closed (h : Preorder lists key l out) {a b : α} (ha : a ∈ out)
    (hb : b ∈ lists (key a)) : b ∈ out := by
  induction h with
  | nil => exact absurd ha (by simp)
  | @cons c l x y hbelow _ ihbelow ihrest =>
    refine List.mem_cons_of_mem _ (List.mem_append.mpr ?_)
    obtain rfl | ha := List.mem_cons.mp ha
    · exact .inl (hbelow.subset hb)
    · obtain ha | ha := List.mem_append.mp ha
      · exact .inl (ihbelow ha)
      · exact .inr (ihrest ha)

/-- The keys of the walk over the list of a key are those that are below it. -/
theorem Preorder.mem_keys_iff {k : κ} (h : Preorder lists key (lists k) out) (l : κ) :
    l ∈ out.map key ↔ Relation.TransGen (Below lists key) l k := by
  constructor
  · intro hl
    obtain ⟨b, hb, rfl⟩ := List.mem_map.mp hl
    obtain hin | ⟨a, ha, hpath⟩ := h.mem_iff b hb
    · exact .single ⟨b, hin, rfl⟩
    · exact hpath.tail ⟨a, ha, rfl⟩
  · intro hpath
    refine List.mem_map.mpr ?_
    induction hpath using Relation.TransGen.head_induction_on with
    | single hstep =>
      obtain ⟨a, ha, hkey⟩ := hstep
      exact ⟨a, h.subset ha, hkey⟩
    | head hstep _ ih =>
      obtain ⟨a, ha, hkey⟩ := hstep
      obtain ⟨b, hb, hkey'⟩ := ih
      exact ⟨a, h.closed hb (hkey' ▸ ha), hkey⟩

/-- Siblings are not below one another. -/
theorem siblings_apart (hone : Relator.RightUnique (Below lists key))
    (hacyclic : ∀ k, ¬ Relation.TransGen (Below lists key) k k) {k m n : κ}
    (hm : Below lists key m k) (hn : Below lists key n k) :
    ¬ Relation.TransGen (Below lists key) m n := by
  intro hpath
  obtain ⟨p, hstep, hrest⟩ := Relation.TransGen.head'_iff.mp hpath
  obtain rfl := hone hstep hm
  exact hacyclic p (Relation.TransGen.tail' hrest hn)

/-- Where everything is below one thing at most, and there once, nothing is visited twice. -/
theorem Preorder.nodup_keys (h : Preorder lists key l out)
    (honce : ∀ k, ((lists k).map key).Nodup) (hone : Relator.RightUnique (Below lists key))
    (hacyclic : ∀ k, ¬ Relation.TransGen (Below lists key) k k) (hnodup : (l.map key).Nodup)
    (hapart : ∀ a ∈ l, ∀ b ∈ l, ¬ Relation.TransGen (Below lists key) (key a) (key b)) :
    (out.map key).Nodup := by
  induction h with
  | nil => exact hnodup
  | @cons a l x y hbelow hrest ihbelow ihrest =>
    rw [List.map_cons, List.nodup_cons] at hnodup
    have hx : ∀ m ∈ x.map key, Relation.TransGen (Below lists key) m (key a) :=
      fun m hm => (hbelow.mem_keys_iff m).mp hm
    have hy : ∀ m ∈ y.map key, ∃ c ∈ l, Relation.ReflTransGen (Below lists key) m (key c) := by
      intro m hm
      obtain ⟨b, hb, rfl⟩ := List.mem_map.mp hm
      obtain hb | ⟨c, hc, hpath⟩ := hrest.mem_iff b hb
      · exact ⟨b, hb, .refl⟩
      · exact ⟨c, hc, hpath.to_reflTransGen⟩
    have hkey : ∀ c ∈ l, ¬ Relation.ReflTransGen (Below lists key) (key a) (key c) ∧
        ¬ Relation.ReflTransGen (Below lists key) (key c) (key a) := by
      intro c hc
      have hne : key a ≠ key c := fun he => hnodup.1 (he ▸ List.mem_map_of_mem hc)
      have hac := hapart a List.mem_cons_self c (List.mem_cons_of_mem _ hc)
      have hca := hapart c (List.mem_cons_of_mem _ hc) a List.mem_cons_self
      rw [Relation.reflTransGen_iff_eq_or_transGen, Relation.reflTransGen_iff_eq_or_transGen]
      exact ⟨fun h => h.elim (fun h => hne h.symm) hac, fun h => h.elim hne hca⟩
    rw [List.map_cons, List.map_append, List.nodup_cons, List.mem_append, List.nodup_append]
    refine ⟨?_, ?_, ?_, fun m hm n hn hmn => ?_⟩
    · rintro (ha | ha)
      · exact hacyclic _ (hx _ ha)
      · obtain ⟨c, hc, hpath⟩ := hy _ ha
        exact (hkey c hc).1 hpath
    · refine ihbelow (honce (key a)) fun b hb c hc => ?_
      exact siblings_apart hone hacyclic ⟨b, hb, rfl⟩ ⟨c, hc, rfl⟩
    · exact ihrest hnodup.2 fun b hb c hc =>
        hapart b (List.mem_cons_of_mem _ hb) c (List.mem_cons_of_mem _ hc)
    · -- what is below both is on one way up
      subst hmn
      obtain ⟨c, hc, hpath⟩ := hy m hn
      obtain h | h := Relation.ReflTransGen.total_of_right_unique hone
        (hx m hm).to_reflTransGen hpath
      · exact (hkey c hc).1 h
      · exact (hkey c hc).2 h

/-- A walk over all that is below a key. -/
theorem exists_preorder (hwf : WellFounded (Below lists key)) (k : κ) :
    ∃ out, Preorder lists key (lists k) out := by
  induction k using hwf.induction with
  | _ k ih =>
    have hlist : ∀ l : List α, (∀ a ∈ l, Below lists key (key a) k) →
        ∃ out, Preorder lists key l out := by
      intro l hl
      induction l with
      | nil => exact ⟨[], .nil⟩
      | cons a l ihl =>
        obtain ⟨x, hx⟩ := ih (key a) (hl a List.mem_cons_self)
        obtain ⟨y, hy⟩ := ihl fun b hb => hl b (List.mem_cons_of_mem _ hb)
        exact ⟨_, .cons hx hy⟩
    exact hlist (lists k) fun a ha => ⟨a, ha, rfl⟩

end Preorder

/-! ## What a walk does -/

/-- The call comes to the first element of `rest`, which is what is left of its list. -/
structure ComesTo (lists : κ → List α) (c : CursorCall κ) (cursors : κ → Nat) (rest : List α) :
    Prop where
  element : elementAt (lists c.list) (c.move lists cursors) = rest.head?
  left : rest ≠ [] → (lists c.list).drop (c.move lists cursors) = rest.tail ∧
    c.move lists cursors ≤ (lists c.list).length

section Walk

variable {lists : κ → List α} {key : α → κ} {visit : σ → α → Option (σ × Bool)}

theorem comesTo_first (cursors : κ → Nat) (k : κ) :
    ComesTo lists (.first k) cursors (lists k) := by
  have hmove : (CursorCall.first k).move lists cursors = if (lists k).isEmpty then 0 else 1 := rfl
  refine ⟨?_, fun hne => ?_⟩ <;> rw [hmove]
  · change elementAt (lists k) _ = _
    cases lists k <;> rfl
  · change (lists k).drop _ = _ ∧ _ ≤ (lists k).length
    cases hl : lists k with
    | nil => exact absurd hl hne
    | cons a l => exact ⟨rfl, by simp⟩

/-- After an element comes the next one, if the cursor was left where it was. -/
theorem ComesTo.next {c : CursorCall κ} {cursors cursors' : κ → Nat} {a : α} {rest : List α}
    (h : ComesTo lists c cursors (a :: rest)) (hkept : cursors' c.list = c.move lists cursors) :
    ComesTo lists (.next c.list) cursors' rest := by
  obtain ⟨hdrop, hle⟩ := h.left (by simp)
  rw [List.tail_cons] at hdrop
  have hmove : (CursorCall.next c.list).move lists cursors' = c.move lists cursors + 1 := by
    change min (cursors' c.list + 1) ((lists c.list).length + 1) = _
    rw [hkept]
    omega
  refine ⟨?_, fun hne => ?_⟩ <;> rw [hmove]
  · change (lists c.list)[c.move lists cursors]? = _
    rw [← hdrop, List.head?_drop]
  · change (lists c.list).drop _ = _ ∧ _ ≤ (lists c.list).length
    refine ⟨by rw [← List.drop_drop, hdrop, List.drop_one], ?_⟩
    by_contra hlt
    have hnil : (lists c.list).drop (c.move lists cursors) = [] :=
      List.drop_eq_nil_of_le (by omega)
    exact hne (hdrop.symm.trans hnil)

variable [DecidableEq κ]

/-- The walk ends with what the visits end with, and moves the cursors of the lists it walks
over only. -/
structure WalksAs (lists : κ → List α) (key : α → κ) (visit : σ → α → Option (σ × Bool))
    (fuel : Nat) (c : CursorCall κ) (cursors : κ → Nat) (s : σ) (out : List α) : Prop where
  visits : (cursorWalk lists key visit fuel c cursors s).map Prod.snd = visitAll visit s out
  frame : ∀ r, cursorWalk lists key visit fuel c cursors s = some r →
    ∀ l, l ≠ c.list → l ∉ out.map key → r.1 l = cursors l

theorem walksAs_none {fuel : Nat} {c : CursorCall κ} {cursors : κ → Nat} {s : σ} {out : List α}
    (hwalk : cursorWalk lists key visit fuel c cursors s = none)
    (hvisits : visitAll visit s out = none) : WalksAs lists key visit fuel c cursors s out := by
  refine ⟨by rw [hwalk, hvisits]; rfl, fun r hr => ?_⟩
  rw [hwalk] at hr
  cases hr

theorem walksAs_some {fuel : Nat} {c : CursorCall κ} {cursors cursors' : κ → Nat} {s s' : σ}
    {stop : Bool} {out : List α}
    (hwalk : cursorWalk lists key visit fuel c cursors s = some (cursors', s', stop))
    (hvisits : visitAll visit s out = some (s', stop))
    (hframe : ∀ l, l ≠ c.list → l ∉ out.map key → cursors' l = cursors l) :
    WalksAs lists key visit fuel c cursors s out := by
  refine ⟨by rw [hwalk, hvisits]; rfl, fun r hr => ?_⟩
  rw [hwalk] at hr
  cases hr
  exact hframe

/-- The walk from a call on, with enough fuel. -/
theorem Preorder.walksAs (hacyclic : ∀ k, ¬ Relation.TransGen (Below lists key) k k)
    {rest out : List α} (h : Preorder lists key rest out) :
    ∃ n, ∀ (visit : σ → α → Option (σ × Bool)), ∀ fuel ≥ n, ∀ c cursors s,
      ComesTo lists c cursors rest → c.list ∉ out.map key →
        WalksAs lists key visit fuel c cursors s out := by
  induction h with
  | nil =>
    refine ⟨1, fun visit fuel hfuel c cursors s hcomes _ => ?_⟩
    obtain ⟨fuel, rfl⟩ := Nat.exists_eq_add_one_of_ne_zero (show fuel ≠ 0 by omega)
    have hwalk : cursorWalk lists key visit (fuel + 1) c cursors s =
        some (Function.update cursors c.list (c.move lists cursors), s, false) := by
      rw [cursorWalk]
      simp only [Function.update_self, hcomes.element, List.head?_nil]
    exact walksAs_some hwalk rfl fun l hl _ => Function.update_of_ne hl _ _
  | @cons a rest x y hbelow hrest ihbelow ihrest =>
    obtain ⟨n, hn⟩ := ihbelow
    obtain ⟨n', hn'⟩ := ihrest
    refine ⟨max n n' + 1, fun visit fuel hfuel c cursors s hcomes hout => ?_⟩
    obtain ⟨fuel, rfl⟩ := Nat.exists_eq_add_one_of_ne_zero (show fuel ≠ 0 by omega)
    rw [List.map_cons, List.map_append, List.mem_cons, List.mem_append, not_or, not_or] at hout
    obtain ⟨hkey, hx, hy⟩ := hout
    have hinner : key a ∉ x.map key := fun hin => hacyclic _ ((hbelow.mem_keys_iff _).mp hin)
    have hstep : cursorWalk lists key visit (fuel + 1) c cursors s =
        (visit s a).bind fun (s, stop) =>
          if stop then some (Function.update cursors c.list (c.move lists cursors), s, true)
          else
            (cursorWalk lists key visit fuel (.first (key a))
              (Function.update cursors c.list (c.move lists cursors)) s).bind
              fun (cursors, s, stop) =>
                if stop then some (cursors, s, true)
                else cursorWalk lists key visit fuel (.next c.list) cursors s := by
      rw [cursorWalk]
      simp only [Function.update_self, hcomes.element, List.head?_cons]
    cases hvisit : visit s a with
    | none => exact walksAs_none (by rw [hstep, hvisit]; rfl) (by rw [visitAll, hvisit]; rfl)
    | some r =>
      obtain ⟨s₁, stop⟩ := r
      rw [hvisit, Option.bind_some] at hstep
      cases stop with
      | true =>
        refine walksAs_some hstep (by rw [visitAll, hvisit]; rfl) fun l hl _ => ?_
        exact Function.update_of_ne hl _ _
      | false =>
        simp only [Bool.false_eq_true, if_false] at hstep
        have hvisits : visitAll visit s (a :: (x ++ y)) =
            (visitAll visit s₁ x).bind fun (s, stop) =>
              if stop then some (s, true) else visitAll visit s y := by
          rw [visitAll, hvisit, ← visitAll_append]
          rfl
        have hsub := hn visit fuel (by omega) (.first (key a))
          (Function.update cursors c.list (c.move lists cursors)) s₁ (comesTo_first _ _) hinner
        cases hwalk : cursorWalk lists key visit fuel (.first (key a))
            (Function.update cursors c.list (c.move lists cursors)) s₁ with
        | none =>
          have hnone := hsub.visits
          rw [hwalk, Option.map_none] at hnone
          refine walksAs_none ?_ (by rw [hvisits, ← hnone]; rfl)
          rw [hstep, hwalk]
          rfl
        | some r =>
          obtain ⟨cursors₁, s₂, stop⟩ := r
          have hsome := hsub.visits
          rw [hwalk, Option.map_some] at hsome
          rw [← hsome, Option.bind_some] at hvisits
          rw [hwalk] at hstep
          have hkept : ∀ l, l ≠ key a → l ∉ x.map key →
              cursors₁ l = Function.update cursors c.list (c.move lists cursors) l :=
            hsub.frame _ hwalk
          cases stop with
          | true =>
            refine walksAs_some hstep hvisits fun l hl hout => ?_
            rw [List.map_cons, List.map_append, List.mem_cons, List.mem_append, not_or, not_or]
              at hout
            exact (hkept l hout.1 hout.2.1).trans (Function.update_of_ne hl _ _)
          | false =>
            have hself : cursors₁ c.list = c.move lists cursors := by
              rw [hkept c.list hkey hx, Function.update_self]
            have hlater := hn' visit fuel (by omega) (.next c.list) cursors₁ s₂ (hcomes.next hself) hy
            refine ⟨?_, fun r hr l hl hout => ?_⟩
            · rw [hstep, hvisits]
              exact hlater.visits
            · rw [List.map_cons, List.map_append, List.mem_cons, List.mem_append, not_or, not_or]
                at hout
              rw [hlater.frame r (hstep.symm.trans hr) l hl hout.2.2, hkept l hout.1 hout.2.1,
                Function.update_of_ne hl]

/-- From the first call on the walk visits all that is below its key, in order. -/
theorem cursorWalk_eq (hacyclic : ∀ k, ¬ Relation.TransGen (Below lists key) k k) {k : κ}
    {out : List α} (h : Preorder lists key (lists k) out) :
    ∃ n, ∀ (visit : σ → α → Option (σ × Bool)), ∀ fuel ≥ n, ∀ cursors s,
      (cursorWalk lists key visit fuel (.first k) cursors s).map Prod.snd =
        visitAll visit s out := by
  obtain ⟨n, hn⟩ := @Preorder.walksAs κ α σ lists key _ hacyclic (lists k) out h
  refine ⟨n, fun visit fuel hfuel cursors s => ?_⟩
  have hout : k ∉ out.map key := fun hin => hacyclic k ((h.mem_keys_iff k).mp hin)
  exact (hn visit fuel hfuel (.first k) cursors s (comesTo_first cursors k) hout).visits

end Walk

end Sfcb.Lib
