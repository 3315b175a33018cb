import SasLayout.Proofs.ClassTops
import SasLayout.Proofs.Layering

set_option autoImplicit false

/-!
The solver's trees and counts come to plain layers: the tops of the trees name the classes as
renaming does, every count is the number of edges from classes without a level, and a class joins
a layer just when no such edge is left. So no count is ever taken below zero.
-/
namespace SasLayout

namespace Dict

variable {κ α : Type} [DecidableEq κ]

theorem lookup_modifyEntry (key other : κ) (f : α → α) (entries : List (κ × α)) :
    (modifyEntry key f entries).lookup other =
      if other = key then (entries.lookup key).map f else entries.lookup other := by
  induction entries with
  | nil => simp [modifyEntry]
  | cons entry rest ih =>
    obtain ⟨k, v⟩ := entry
    rw [modifyEntry]
    split_ifs with here same same <;> grind

theorem find?_modify (d : Dict κ α) (key other : κ) (f : α → α) :
    (d.modify key f).find? other = if other = key then (d.find? key).map f else d.find? other :=
  lookup_modifyEntry key other f d.entries

end Dict

namespace Levels

variable {τ : Type}

/-! ### Trees and names -/

/-- The tops of the trees are the names that the classes have. -/
structure Agrees (uf : UnionFind) (cl : Classes) : Prop where
  size : uf.parent.size = cl.length
  top : ∀ x, uf.top x = classOf cl x
  bound : ∀ x, x < cl.length → classOf cl x < cl.length

theorem agrees_singletons (count : Nat) : Agrees (.singletons count) (List.range count) where
  size := by simp
  top x := by rw [UnionFind.top_singletons, classOf_range]
  bound x known := by simpa [classOf_range] using known

theorem Agrees.find {uf : UnionFind} {cl : Classes} (agrees : Agrees uf cl) (x : Nat) :
    Agrees (uf.find x).2 cl where
  size := by rw [UnionFind.size_find, agrees.size]
  top y := by rw [UnionFind.top_find, agrees.top]
  bound := agrees.bound

theorem Agrees.findAll {uf : UnionFind} {cl : Classes} (agrees : Agrees uf cl) :
    (uf.findAll (List.range cl.length)).1 = cl := by
  rw [UnionFind.findAll_fst]
  refine List.ext_getElem (by simp) fun x _ known => ?_
  simp [agrees.top, classOf, known]

theorem Agrees.union {uf : UnionFind} {cl : Classes} (agrees : Agrees uf cl) {v w : Nat}
    (left : v < cl.length) (right : w < cl.length) : Agrees (uf.union v w) (merge cl v w) := by
  have inside := agrees.bound w right
  have renamed : ∀ x, (uf.union v w).top x = classOf (merge cl v w) x := by
    intro x
    rw [UnionFind.top_union v x (by rwa [agrees.top, agrees.size]), agrees.top, agrees.top,
      agrees.top]
    by_cases known : x < cl.length
    · rw [classOf_merge v w known]
    · have outside : ∀ names : Classes, names.length = cl.length → classOf names x = x :=
        fun names same => by simp [classOf, same, known]
      rw [outside cl rfl, outside _ (length_merge cl v w), if_neg]
      omega
  refine ⟨by rw [UnionFind.size_union, length_merge, agrees.size], renamed, fun x known => ?_⟩
  rw [length_merge] at known ⊢
  rw [classOf_merge v w known]
  split_ifs
  · exact agrees.bound v left
  · exact agrees.bound x known

theorem agrees_equated {count : Nat} {cs : List (Constraint τ)}
    (bounds : ∀ c ∈ cs, c.right < count ∧ c.left < count) :
    Agrees (equated count cs) (classes count cs) := by
  have grown : ∀ (uf : UnionFind) (cl : Classes), cl.length = count → Agrees uf cl →
      Agrees (cs.foldl (fun uf c => if c.relation = .eq then uf.union c.right c.left else uf) uf)
        (cs.foldl join cl) := by
    induction cs with
    | nil => exact fun _ _ _ agrees => agrees
    | cons c rest ih =>
      intro uf cl length agrees
      obtain ⟨right, left⟩ := bounds c List.mem_cons_self
      refine ih (fun d later => bounds d (List.mem_cons_of_mem _ later)) _ _ (by simpa) ?_
      change Agrees (if c.relation = .eq then uf.union c.right c.left else uf) (join cl c)
      unfold join
      split_ifs
      · exact agrees.union (length ▸ right) (length ▸ left)
      · exact agrees
  exact grown _ _ List.length_range (agrees_singletons count)

/-! ### The order between classes -/

theorem edge?_eq (cl : Classes) (c : Constraint τ) :
    edge? cl c = c.ordered?.map fun (low, high) => ⟨classOf cl low, classOf cl high⟩ := by
  unfold edge? Constraint.ordered?
  cases c.relation <;> rfl

/-- The solver finds the edges between the classes, or the same constraint that no levels
satisfy. -/
theorem order_eq {cl : Classes} (cs : List (Constraint τ)) (found : List Edge) {uf : UnionFind}
    (agrees : Agrees uf cl) :
    (∃ cause, edges cl cs = .error cause ∧ order cs found uf = .error cause) ∨
      ∃ es more, edges cl cs = .ok es ∧ Agrees more cl ∧
        order cs found uf =
          .ok (es.foldl (fun found e => Ascending.insert e found) found, more) := by
  induction cs generalizing found uf with
  | nil => exact Or.inr ⟨[], uf, rfl, agrees, rfl⟩
  | cons c rest ih =>
    rw [edges, order, edge?_eq]
    cases sides : c.ordered? with
    | none => exact ih found agrees
    | some pair =>
      obtain ⟨low, high⟩ := pair
      simp only [Option.map_some, UnionFind.find_fst, UnionFind.top_find, agrees.top]
      split_ifs with loop
      · exact Or.inl ⟨_, rfl, rfl⟩
      · obtain ⟨cause, spec, run⟩ | ⟨es, more, spec, kept, run⟩ :=
          ih (Ascending.insert ⟨classOf cl low, classOf cl high⟩ found)
            ((agrees.find low).find high)
        · exact Or.inl ⟨cause, by rw [spec]; rfl, run⟩
        · exact Or.inr ⟨_ :: es, more, by rw [spec]; rfl, kept, run⟩

/-! ### Counts -/

/-- Every count is the number of the edges `es` that end there, and classes of the next layer have
none. -/
structure Counted (names : List Nat) (es : List Edge) (s : Progress) : Prop where
  counts : ∀ c ∈ names, s.counts.find? c = some (es.countP (·.higher == c))
  free : ∀ c ∈ s.next, ∀ e ∈ es, e.higher ≠ c
  nodup : s.next.Nodup

theorem Counted.perm {names : List Nat} {es fs : List Edge} {s : Progress}
    (counted : Counted names es s) (same : es.Perm fs) : Counted names fs s where
  counts c known := by rw [counted.counts c known, same.countP_eq]
  free c member e edge := counted.free c member e (same.mem_iff.mpr edge)
  nodup := counted.nodup

theorem release_eq {s : Progress} {e : Edge} {count : Nat}
    (counted : s.counts.find? e.higher = some (count + 1)) :
    s.release e = some ⟨s.counts.modify e.higher fun _ => count, s.levels,
      if count = 0 then s.next ++ [e.higher] else s.next⟩ := by
  unfold Progress.release
  rw [counted]

/-- One edge less: its higher class joins the next layer if no other edge ends there. -/
theorem Counted.release {names : List Nat} {es : List Edge} {s : Progress} {e : Edge}
    (counted : Counted names (e :: es) s) (known : e.higher ∈ names) :
    ∃ t, s.release e = some t ∧ Counted names es t ∧ t.levels = s.levels ∧
      ∀ c, c ∈ t.next ↔ c ∈ s.next ∨ c = e.higher ∧ ∀ f ∈ es, f.higher ≠ c := by
  have count := counted.counts _ known
  rw [List.countP_cons_of_pos (by simp)] at count
  have others : es.countP (·.higher == e.higher) = 0 ↔ ∀ f ∈ es, f.higher ≠ e.higher := by
    simp [List.countP_eq_zero]
  have fresh : e.higher ∉ s.next := fun member =>
    counted.free _ member e List.mem_cons_self rfl
  refine ⟨_, release_eq count, ⟨fun c member => ?_, ?_, ?_⟩, rfl, ?_⟩
  · simp only [Dict.find?_modify]
    split_ifs with same
    · rw [count, same]
      rfl
    · rw [counted.counts c member, List.countP_cons_of_neg (by simpa using Ne.symm same)]
  · intro c member f edge
    have old : c ∈ s.next → f.higher ≠ c := fun waiting =>
      counted.free c waiting f (List.mem_cons_of_mem _ edge)
    simp only at member
    split_ifs at member with none_left
    · obtain waiting | rfl := List.mem_append.mp member |>.imp_right List.mem_singleton.mp
      · exact old waiting
      · exact others.mp none_left f edge
    · exact old member
  · simp only
    split_ifs
    · exact List.nodup_append.mpr ⟨counted.nodup, by simp, by grind⟩
    · exact counted.nodup
  · intro c
    simp only
    split_ifs with none_left
    · rw [List.mem_append, List.mem_singleton]
      refine or_congr_right ⟨fun same => ⟨same, same ▸ others.mp none_left⟩, And.left⟩
    · refine ⟨Or.inl, fun member => member.resolve_right ?_⟩
      rintro ⟨rfl, none_else⟩
      exact none_left (others.mpr none_else)

theorem Counted.releaseAll {names : List Nat} {es : List Edge} (out : List Edge) {s : Progress}
    (counted : Counted names (out ++ es) s) (known : ∀ e ∈ out, e.higher ∈ names) :
    ∃ t, out.foldlM Progress.release s = some t ∧ Counted names es t ∧ t.levels = s.levels ∧
      ∀ c, c ∈ t.next ↔
        c ∈ s.next ∨ (∃ e ∈ out, e.higher = c) ∧ ∀ f ∈ es, f.higher ≠ c := by
  induction out generalizing s with
  | nil => exact ⟨s, rfl, counted, rfl, by simp⟩
  | cons e rest ih =>
    rw [List.cons_append] at counted
    obtain ⟨u, released, kept, same, joined⟩ := counted.release (known e List.mem_cons_self)
    obtain ⟨t, run, last, unchanged, members⟩ :=
      ih kept fun f later => known f (List.mem_cons_of_mem _ later)
    refine ⟨t, by rw [List.foldlM_cons, released]; exact run, last, unchanged.trans same,
      fun c => ?_⟩
    rw [members, joined]
    -- an edge that is counted off before another one to the same class frees nothing
    grind

theorem startingOutside_perm {done : List Nat} {c : Nat} (all : List Edge) (fresh : c ∉ done) :
    (all.filter (·.lower == c) ++ startingOutside (c :: done) all).Perm
      (startingOutside done all) := by
  have parts := List.filter_append_perm (·.lower == c) (startingOutside done all)
  have first : (startingOutside done all).filter (·.lower == c) = all.filter (·.lower == c) := by
    rw [startingOutside, List.filter_filter]
    refine List.filter_congr fun e _ => ?_
    by_cases here : e.lower = c <;> simp [here, fresh]
  have second : (startingOutside done all).filter (fun e => !(e.lower == c)) =
      startingOutside (c :: done) all := by
    rw [startingOutside, startingOutside, List.filter_filter]
    refine List.filter_congr fun e _ => ?_
    by_cases here : e.lower = c <;> simp [here]
  rwa [first, second] at parts

/-- A class gets its level, and the edges that start there are counted off. -/
theorem Counted.visit {names done : List Nat} {all : List Edge} {s : Progress} {c : Nat}
    (counted : Counted names (startingOutside done all) s)
    (inside : ∀ e ∈ all, e.higher ∈ names) (fresh : c ∉ done) (level : Nat) :
    ∃ t, s.visit all level c = some t ∧ Counted names (startingOutside (c :: done) all) t ∧
      t.levels = s.levels.insert c level ∧
      ∀ d, d ∈ t.next ↔ d ∈ s.next ∨ (∃ e ∈ all, e.lower = c ∧ e.higher = d) ∧
        ∀ e ∈ startingOutside (c :: done) all, e.higher ≠ d := by
  have split := counted.perm (startingOutside_perm all fresh).symm
  have begun : Counted names (all.filter (·.lower == c) ++ startingOutside (c :: done) all)
      { s with levels := s.levels.insert c level } :=
    ⟨split.counts, split.free, split.nodup⟩
  obtain ⟨t, run, kept, levels, members⟩ := begun.releaseAll _ fun e member =>
    inside e (List.mem_filter.mp member).1
  refine ⟨t, run, kept, levels, fun d => (members d).trans ?_⟩
  simp only [List.mem_filter, beq_iff_eq, and_assoc]

/-- A whole layer gets its level. -/
theorem Counted.visitAll {names done : List Nat} {all : List Edge} {s : Progress}
    (counted : Counted names (startingOutside done all) s)
    (inside : ∀ e ∈ all, e.higher ∈ names) (level : Nat) (layer : List Nat)
    (distinct : layer.Nodup) (fresh : ∀ c ∈ layer, c ∉ done) :
    ∃ t, layer.foldlM (Progress.visit all level) s = some t ∧
      Counted names (startingOutside (layer.reverse ++ done) all) t ∧
      (∀ c, t.levels.find? c = if c ∈ layer then some level else s.levels.find? c) ∧
      (s.levels.Sorted → t.levels.Sorted) ∧
      ∀ d, d ∈ t.next ↔ d ∈ s.next ∨ (∃ e ∈ all, e.lower ∈ layer ∧ e.higher = d) ∧
        ∀ e ∈ startingOutside (layer.reverse ++ done) all, e.higher ≠ d := by
  induction layer generalizing done s with
  | nil => exact ⟨s, rfl, counted, by simp, id, by simp⟩
  | cons c rest ih =>
    rw [List.nodup_cons] at distinct
    obtain ⟨u, visited, kept, levels, joined⟩ :=
      counted.visit inside (fresh c List.mem_cons_self) level
    obtain ⟨t, run, last, found, sorted, members⟩ := ih kept distinct.2 (by grind)
    have order : (c :: rest).reverse ++ done = rest.reverse ++ c :: done := by simp
    rw [order]
    refine ⟨t, by rw [List.foldlM_cons, visited]; exact run, last, fun d => ?_, fun old => ?_,
      fun d => ?_⟩
    · rw [found, levels, Dict.find?_insert]
      grind
    · exact sorted (levels ▸ old.insert c level)
    · rw [members, joined]
      simp only [mem_startingOutside, List.mem_append, List.mem_reverse, List.mem_cons]
      grind

/-! ### Layers -/

section Passed

variable {layer done passed : List Nat} (same : ∀ c, c ∈ passed ↔ c ∈ layer ∨ c ∈ done)

include same

theorem contains_passed (c : Nat) :
    (!layer.contains c && !done.contains c) = !passed.contains c := by
  rw [Bool.eq_iff_iff]
  simp [same]

theorem startingOutside_passed (all : List Edge) :
    startingOutside layer (startingOutside done all) = startingOutside passed all := by
  rw [startingOutside, startingOutside, startingOutside, List.filter_filter]
  exact List.filter_congr fun e _ => contains_passed same e.lower

theorem without_passed (names : List Nat) :
    without layer (without done names) = without passed names := by
  rw [without, without, without, List.filter_filter]
  exact List.filter_congr fun c _ => contains_passed same c

end Passed

/-- What holds before each layer, when the classes `done` have the levels `found`. -/
structure Stage (names : List Nat) (all : List Edge) (done : List Nat) (found : List (Nat × Nat))
    (s : Progress) : Prop where
  counted : Counted names (startingOutside done all) s
  layer : ∀ c, c ∈ s.next ↔ c ∈ ready (startingOutside done all) (without done names)
  closed : ∀ e ∈ all, e.higher ∈ done → e.lower ∈ done
  levels : ∀ c, s.levels.find? c = found.lookup c
  sorted : s.levels.Sorted
  settled : ∀ c n, (c, n) ∈ found → c ∈ done

section Stages

variable {names : List Nat} {all : List Edge} {done : List Nat} {found : List (Nat × Nat)}
  {s : Progress}

theorem Stage.next_eq_nil (stage : Stage names all done found s) :
    s.next = [] ↔ ready (startingOutside done all) (without done names) = [] := by
  simp only [List.eq_nil_iff_forall_not_mem, stage.layer]

theorem Stage.layers_more (stage : Stage names all done found s) (busy : s.next ≠ [])
    (level : Nat) :
    let layer := ready (startingOutside done all) (without done names)
    layers (startingOutside done all) (without done names) level found =
      layers (startingOutside (s.next.reverse ++ done) all)
        (without (s.next.reverse ++ done) names) (level + step)
        (found ++ layer.map (·, level)) := by
  intro layer
  have passed : ∀ c, c ∈ s.next.reverse ++ done ↔ c ∈ layer ∨ c ∈ done := by
    simp [stage.layer, layer]
  rw [← startingOutside_passed passed, ← without_passed passed]
  exact Levels.layers_more _ _ (mt stage.next_eq_nil.mpr busy)

theorem lookup_append_layer {layer : List Nat} (level c : Nat)
    (fresh : c ∈ layer → found.lookup c = none) :
    (found ++ layer.map (·, level)).lookup c =
      if c ∈ layer then some level else found.lookup c := by
  have own : (layer.map (·, level)).lookup c = if c ∈ layer then some level else none := by
    clear fresh
    induction layer with
    | nil => rfl
    | cons first rest ih =>
      rw [List.map_cons, List.lookup_cons]
      split <;> grind
  rw [List.lookup_append, own]
  split_ifs with member
  · rw [fresh member]
    rfl
  · exact Option.or_none

/-- A class whose turn it is has no level yet, and no edge from a class without one ends in it. -/
theorem Stage.next_free (stage : Stage names all done found s) {c : Nat} (member : c ∈ s.next) :
    c ∉ done ∧ ∀ e ∈ all, e.lower ∉ done → e.higher ≠ c := by
  obtain ⟨left, nothing⟩ := mem_ready.mp ((stage.layer c).mp member)
  exact ⟨(mem_without.mp left).2, fun e edge outside =>
    nothing e (mem_startingOutside.mpr ⟨edge, outside⟩)⟩

theorem Stage.closed_next (stage : Stage names all done found s) :
    ∀ e ∈ all, e.higher ∈ s.next.reverse ++ done → e.lower ∈ s.next.reverse ++ done := by
  intro e edge higher
  rw [List.mem_append, List.mem_reverse] at higher ⊢
  obtain turn | old := higher
  · by_contra outside
    exact (stage.next_free turn).2 e edge (fun below => outside (Or.inr below)) rfl
  · exact Or.inr (stage.closed e edge old)

/-- The next layer: the classes above this one that only edges from classes with a level end in. -/
theorem Stage.ready_next (stage : Stage names all done found s)
    (inside : ∀ e ∈ all, e.higher ∈ names) (c : Nat) :
    c ∈ ready (startingOutside (s.next.reverse ++ done) all)
        (without (s.next.reverse ++ done) names) ↔
      (∃ e ∈ all, e.lower ∈ s.next ∧ e.higher = c) ∧
        ∀ e ∈ startingOutside (s.next.reverse ++ done) all, e.higher ≠ c := by
  simp only [mem_ready, mem_without, List.mem_append, List.mem_reverse]
  constructor
  · rintro ⟨⟨known, fresh⟩, last⟩
    refine ⟨?_, last⟩
    by_contra nothing
    -- With no edge from this layer the class would have been in this layer itself.
    refine fresh (Or.inl ((stage.layer c).mpr (mem_ready.mpr
      ⟨mem_without.mpr ⟨known, fun old => fresh (Or.inr old)⟩, fun e edge same => ?_⟩)))
    obtain ⟨edge, outside⟩ := mem_startingOutside.mp edge
    refine last e (mem_startingOutside.mpr ⟨edge, ?_⟩) same
    rw [List.mem_append, List.mem_reverse]
    rintro (below | old)
    · exact nothing ⟨e, edge, below, same⟩
    · exact outside old
  · rintro ⟨⟨e, edge, below, rfl⟩, last⟩
    refine ⟨⟨inside e edge, ?_⟩, last⟩
    have fresh := (stage.next_free below).1
    rintro (turn | old)
    · exact (stage.next_free turn).2 e edge fresh rfl
    · exact fresh (stage.closed e edge old)

/-- What one layer does: it is the plain one, and the next one is again. -/
theorem Stage.step (stage : Stage names all done found s)
    (inside : ∀ e ∈ all, e.higher ∈ names) (level : Nat) :
    let layer := ready (startingOutside done all) (without done names)
    ∃ t, s.visitAll all level = some t ∧
      Stage names all (s.next.reverse ++ done) (found ++ layer.map (·, level)) t := by
  intro layer
  have begun : Counted names (startingOutside done all) { s with next := [] } :=
    ⟨stage.counted.counts, by simp, List.nodup_nil⟩
  obtain ⟨t, run, counted, levels, sorted, members⟩ := begun.visitAll inside level s.next
    stage.counted.nodup fun c member => (stage.next_free member).1
  refine ⟨t, run, counted, fun c => ?_, stage.closed_next, fun c => ?_, sorted stage.sorted, ?_⟩
  · rw [members, stage.ready_next inside]
    simp only [List.not_mem_nil, false_or]
  · have fresh : c ∈ layer → found.lookup c = none := by
      intro member
      rw [Option.eq_none_iff_forall_ne_some]
      intro n known
      exact (stage.next_free ((stage.layer c).mpr member)).1
        (stage.settled c n (mem_of_lookup known))
    rw [levels, lookup_append_layer level c fresh, stage.levels]
    simp only [stage.layer]
    rfl
  · intro c n member
    rw [List.mem_append, List.mem_reverse]
    obtain old | ⟨turn, -⟩ := mem_append_layer.mp member
    · exact Or.inr (stage.settled c n old)
    · exact Or.inl ((stage.layer c).mpr turn)

theorem mem_layers_of_mem {es : List Edge} {remaining : List Nat} {level : Nat} {p : Nat × Nat}
    (member : p ∈ found) : p ∈ layers es remaining level found := by
  induction es, remaining, level, found using layers_induction with
  | done es remaining level found free => rwa [layers_done _ _ free]
  | more es remaining level found free ih =>
    rw [Levels.layers_more _ _ free]
    exact ih (List.mem_append_left _ member)

/-- The counted layers are the plain ones, as long as their levels are numbers. -/
theorem Stage.advance (stage : Stage names all done found s)
    (inside : ∀ e ∈ all, e.higher ∈ names) (level : Nat)
    (small : ∀ p ∈ found, p.2 + Levels.step ≤ Limits.level) :
    let plain := layers (startingOutside done all) (without done names) level found
    (∃ d, s.advance all level = some d ∧ d.Sorted ∧ (∀ c, d.find? c = plain.lookup c) ∧
        ∀ p ∈ plain, p.2 + Levels.step ≤ Limits.level) ∨
      s.advance all level = none ∧ ∃ p ∈ plain, Limits.level < p.2 + Levels.step := by
  fun_induction Progress.advance all level s generalizing done found with
  | case1 level s empty =>
    rw [layers_done _ _ (stage.next_eq_nil.mp empty)]
    exact Or.inl ⟨s.levels, rfl, stage.sorted, stage.levels, small⟩
  | case2 level s busy failed =>
    obtain ⟨t, visited, -⟩ := stage.step inside level
    cases failed.symm.trans visited
  | case3 level s busy t visited _ large =>
    obtain ⟨c, first⟩ := List.exists_mem_of_ne_nil _ (mt stage.next_eq_nil.mpr busy)
    rw [stage.layers_more busy]
    refine Or.inr ⟨rfl, (c, level), ?_, large⟩
    exact mem_layers_of_mem (mem_append_layer.mpr (Or.inr ⟨first, rfl⟩))
  | case4 level s busy t visited _ large ih =>
    obtain ⟨u, also, next⟩ := stage.step inside level
    obtain rfl : u = t := Option.some.inj (also.symm.trans visited)
    rw [stage.layers_more busy]
    refine ih next fun p member => ?_
    obtain ⟨c, n⟩ := p
    obtain old | ⟨-, rfl⟩ := mem_append_layer.mp member
    · exact small _ old
    · exact Nat.le_of_not_lt large

end Stages

/-! ### The solver -/

theorem find?_zeros (names : List Nat) (start : Dict Nat Nat) (c : Nat) :
    (names.foldl (fun counts c => counts.insert c 0) start).find? c =
      if c ∈ names then some 0 else start.find? c := by
  induction names generalizing start with
  | nil => rfl
  | cons first rest ih =>
    rw [List.foldl_cons, ih, Dict.find?_insert]
    grind

/-- At first every count is the number of all edges that end in the class. -/
theorem find?_inDegrees {names : List Nat} (es : List Edge) {c : Nat} (known : c ∈ names) :
    (inDegrees names es).find? c = some (es.countP (·.higher == c)) := by
  have grown : ∀ (start : Dict Nat Nat) (n : Nat), start.find? c = some n →
      (es.foldl (fun counts e => counts.insert e.higher ((counts.find? e.higher).getD 0 + 1))
        start).find? c = some (n + es.countP (·.higher == c)) := by
    induction es with
    | nil => exact fun _ _ count => count
    | cons e rest ih =>
      intro start n count
      rw [List.foldl_cons]
      by_cases here : e.higher = c
      · rw [ih _ (n + 1) (by simp [Dict.find?_insert, here, count]),
          List.countP_cons_of_pos (by simpa using here), Nat.add_assoc, Nat.add_comm 1]
      · rw [ih _ n (by simp [Dict.find?_insert, Ne.symm here, count]),
          List.countP_cons_of_neg (by simpa using here)]
  rw [inDegrees, grown _ 0 (by rw [find?_zeros, if_pos known]), Nat.zero_add]

theorem startingOutside_nil (es : List Edge) : startingOutside [] es = es :=
  List.filter_eq_self.mpr (by simp)

theorem without_nil (names : List Nat) : without [] names = names :=
  List.filter_eq_self.mpr (by simp)

theorem stage_start {names : List Nat} (distinct : names.Nodup) (es : List Edge) :
    Stage names es [] [] ⟨inDegrees names es, .empty,
      names.filter fun c => (inDegrees names es).find? c == some 0⟩ := by
  have free : ∀ c, c ∈ names.filter (fun c => (inDegrees names es).find? c == some 0) ↔
      c ∈ names ∧ ∀ e ∈ es, e.higher ≠ c := by
    intro c
    rw [List.mem_filter]
    refine and_congr_right fun known => ?_
    simp [find?_inDegrees es known, List.countP_eq_zero]
  refine ⟨?_, fun c => ?_, by simp, fun c => rfl, Dict.Sorted.empty, by simp⟩
  · rw [startingOutside_nil]
    exact ⟨fun c known => find?_inDegrees es known, fun c member => ((free c).mp member).2,
      distinct.filter _⟩
  · rw [startingOutside_nil, without_nil, mem_ready]
    exact free c

/-- Layers do not depend on how often or in which order the edges are listed. -/
theorem layers_congr {es fs : List Edge} (same : ∀ e, e ∈ es ↔ e ∈ fs) (remaining : List Nat)
    (level : Nat) (found : List (Nat × Nat)) :
    layers es remaining level found = layers fs remaining level found := by
  have ready_same : ∀ {es fs : List Edge} (remaining : List Nat), (∀ e, e ∈ es ↔ e ∈ fs) →
      ready es remaining = ready fs remaining := by
    intro es fs remaining same
    refine List.filter_congr fun c _ => congrArg _ ?_
    rw [Bool.eq_iff_iff]
    simp [same]
  induction es, remaining, level, found using layers_induction generalizing fs with
  | done es remaining level found free =>
    rw [layers_done _ _ free, layers_done _ _ (ready_same remaining same ▸ free)]
  | more es remaining level found free ih =>
    have also : ready fs remaining ≠ [] := ready_same remaining same ▸ free
    rw [layers_more level found free, layers_more level found also, ← ready_same remaining same]
    exact ih fun e => by simp [mem_startingOutside, same]

/-- A dictionary of some of the names has fewer entries just when one of the names is missing. -/
theorem size_lt_iff {names : List Nat} {d : Dict Nat Nat} (sorted : d.Sorted)
    (distinct : names.Nodup) (known : ∀ c n, d.find? c = some n → c ∈ names) :
    d.size < names.length ↔ ∃ c ∈ names, d.find? c = none := by
  have keys : ∀ c, c ∈ d.entries.map (·.1) ↔ ∃ n, d.find? c = some n := by
    intro c
    simp [sorted.find?_iff]
  have once : (d.entries.map (·.1)).Nodup :=
    List.pairwise_map.mpr (sorted.imp fun below => Nat.ne_of_lt below)
  have length : d.size = (d.entries.map (·.1)).length := by simp [Dict.size]
  have part : (d.entries.map (·.1)).Subperm names :=
    once.subperm fun c key => by
      obtain ⟨n, found⟩ := (keys c).mp key
      exact known c n found
  rw [length]
  constructor
  · intro fewer
    by_contra all
    simp only [not_exists, not_and] at all
    refine absurd (distinct.subperm fun c member => (keys c).mpr ?_).length_le (by omega)
    exact Option.ne_none_iff_exists'.mp (all c member)
  · rintro ⟨c, member, missing⟩
    refine lt_of_le_of_ne part.length_le fun same => ?_
    obtain ⟨n, found⟩ := (keys c).mp ((part.perm_of_length_le same.ge).mem_iff.mpr member)
    cases missing.symm.trans found

/-- Every terminal has both levels just when every class has one. -/
theorem all_sides_iff {terminals : List τ} {cl : Classes}
    (length : cl.length = 2 * terminals.length) (level? : Nat → Option Nat) :
    (terminals.zipIdx.map fun (t, i) => (t, sides? cl level? i)).all (·.2.isSome) ↔
      ∀ c ∈ classNames cl, level? c ≠ none := by
  rw [all_zipIdx_isSome]
  simp only [sides?_isSome]
  constructor
  · intro all c member
    obtain ⟨v, known, rfl⟩ := mem_classNames.mp member
    obtain ⟨left, right⟩ := all (v / 2) (by omega)
    obtain even | odd := Nat.mod_two_eq_zero_or_one v
    · rwa [leftVar, show 2 * (v / 2) = v by omega] at left
    · rwa [rightVar, show 2 * (v / 2) + 1 = v by omega] at right
  · intro all i bound
    simp only [leftVar, rightVar]
    exact ⟨all _ (mem_classNames.mpr ⟨_, by omega, rfl⟩),
      all _ (mem_classNames.mpr ⟨_, by omega, rfl⟩)⟩

variable [DecidableEq τ] [LT τ] [DecidableLT τ]

/-- The solver comes to the levels of the plain layers, or to the same error. -/
theorem solve_eq_assign (terminals : List τ) (relations : Relations τ) :
    solve terminals relations = assign terminals relations := by
  have agrees : Agrees (equated (2 * terminals.length) (constraints terminals relations))
      (classes (2 * terminals.length) (constraints terminals relations)) :=
    agrees_equated fun c member => constraint_bounds member
  have length := length_classes (2 * terminals.length) (constraints terminals relations)
  simp only [solve, assign]
  generalize classes (2 * terminals.length) (constraints terminals relations) = cl at *
  obtain ⟨cause, plain, run⟩ | ⟨es, uf, plain, agrees, run⟩ :=
    order_eq (constraints terminals relations) [] agrees
  · rw [run, plain]
  · have distinct := nodup_classNames cl
    have tops : (uf.findAll (List.range (2 * terminals.length))).1 = cl := length ▸ agrees.findAll
    have again : ((uf.findAll (List.range (2 * terminals.length))).2.findAll
        (List.range (2 * terminals.length))).1 = cl := by
      rw [← tops, UnionFind.findAll_fst, UnionFind.findAll_fst]
      exact List.map_congr_left fun v _ => UnionFind.top_findAll uf _ v
    have same : ∀ e, e ∈ Ascending.ofList es ↔ e ∈ es := fun e => Ascending.mem_ofList
    have inside : ∀ e ∈ Ascending.ofList es, e.higher ∈ classNames cl := by
      intro e member
      rw [same, (edges_eq_ok_iff.mp plain).1] at member
      obtain ⟨c, constraint, edge⟩ := List.mem_filterMap.mp member
      obtain ⟨right, left⟩ := constraint_bounds constraint
      exact (edge_mem (length ▸ right) (length ▸ left) edge).2
    change order _ [] _ = .ok (Ascending.ofList es, uf) at run
    simp only [run, plain, tops, again, ← classNames_def]
    have result := (stage_start distinct (Ascending.ofList es)).advance inside 0 (by simp)
    simp only [startingOutside_nil, without_nil, layers_congr same] at result
    obtain ⟨d, run, sorted, find, small⟩ | ⟨run, large⟩ := result
    · rw [run, if_neg (by simpa using small)]
      have known : ∀ c n, d.find? c = some n → c ∈ classNames cl := fun c n found => by
        rw [find] at found
        exact ((mem_layers (mem_of_lookup found)).resolve_left (by simp)).1
      have complete : (classNames cl).length ≤ d.size ↔
          (terminals.zipIdx.map fun (t, i) => (t, sides? cl d.find? i)).all (·.2.isSome) := by
        rw [all_sides_iff length, ← Nat.not_lt, size_lt_iff sorted distinct known]
        simp
      have levels : (fun c => (layers es (classNames cl) 0 []).lookup c) = d.find? :=
        funext fun c => (find c).symm
      simp only [levels]
      exact congrArg (collect _) (Bool.eq_iff_iff.mpr (decide_eq_true_iff.trans complete))
    · rw [run, if_pos]
      simpa using large

end Levels
end SasLayout
