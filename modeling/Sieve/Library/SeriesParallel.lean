import Mathlib.Data.List.Nodup
import Mathlib.Data.Set.Insert
import Mathlib.Logic.Relation
import Mathlib.Order.Basic

/-!
# Series-parallel graphs with arrows in both directions

Graphs whose nodes list their successors and their predecessors, over any type of nodes with an
order that the arrows follow:

* `Arrows`: the two lists of every node; `Arrows.Step`, `Arrows.Path`: along the successors;
* `Part g nodes sources sinks`: the nodes are closed under both lists, which are inverse to each
  other; every node lies between a source and a sink, and the sources are the nodes where nothing
  arrives;
* `Part.single`, `Part.parallel`, `Part.series`: parts are put together side by side, and one after
  the other by an arrow from every sink to every source;
* `Part.acyclic`: no node of a part lies on a cycle.
-/

namespace Sieve.Library

variable {α : Type*}

/-- The successors and the predecessors of every node. -/
structure Arrows (α : Type*) where
  succ : α → List α
  pred : α → List α

namespace Arrows

def Step (g : Arrows α) (p q : α) : Prop := q ∈ g.succ p

def Path (g : Arrows α) : α → α → Prop := Relation.ReflTransGen g.Step

end Arrows

/-- The nodes lie between the sources and the sinks. -/
structure Part [DecidableEq α] [Preorder α] (g : Arrows α) (nodes : Set α) (sources sinks : List α) :
    Prop where
  nonempty : nodes.Nonempty
  sources_mem : ∀ p ∈ sources, p ∈ nodes
  sinks_mem : ∀ p ∈ sinks, p ∈ nodes
  sources_nodup : sources.Nodup
  sinks_nodup : sinks.Nodup
  forward : ∀ p ∈ nodes, ∀ q ∈ g.succ p, q ∈ nodes ∧ p < q
  backward : ∀ q ∈ nodes, ∀ p ∈ g.pred q, p ∈ nodes
  inverse : ∀ p ∈ nodes, ∀ q ∈ nodes, (g.succ p).count q = (g.pred q).count p
  starts : ∀ p ∈ nodes, p ∈ sources ↔ g.pred p = []
  reachable : ∀ p ∈ nodes, ∃ source ∈ sources, g.Path source p
  reaches : ∀ p ∈ nodes, ∃ sink ∈ sinks, g.Path p sink

namespace Part

variable [DecidableEq α] [Preorder α] {g g' : Arrows α} {nodes left right : Set α}
  {sources sinks sources' sinks' : List α} {p q : α}

/-! ### Paths -/

/-- A path that starts in a part stays there. -/
theorem path_mono (h : Part g nodes sources sinks)
    (hstep : ∀ p ∈ nodes, ∀ q, g.Step p q → g'.Step p q) (hp : p ∈ nodes) (hpath : g.Path p q) :
    q ∈ nodes ∧ g'.Path p q := by
  induction hpath with
  | refl => exact ⟨hp, .refl⟩
  | tail _ hlast ih => exact ⟨(h.forward _ ih.1 _ hlast).1, ih.2.tail (hstep _ ih.1 _ hlast)⟩

theorem lt_of_transGen (h : Part g nodes sources sinks) (hp : p ∈ nodes)
    (hpath : Relation.TransGen g.Step p q) : q ∈ nodes ∧ p < q := by
  induction hpath with
  | single hfirst => exact h.forward p hp _ hfirst
  | tail _ hlast ih =>
    have hnext := h.forward _ ih.1 _ hlast
    exact ⟨hnext.1, lt_trans ih.2 hnext.2⟩

/-- **There is no cycle.** -/
theorem acyclic (h : Part g nodes sources sinks) (hp : p ∈ nodes) : ¬ Relation.TransGen g.Step p p :=
  fun hcycle => lt_irrefl p (h.lt_of_transGen hp hcycle).2

theorem exists_source (h : Part g nodes sources sinks) : ∃ source, source ∈ sources := by
  have ⟨p, hp⟩ := h.nonempty
  have ⟨source, hsource, _⟩ := h.reachable p hp
  exact ⟨source, hsource⟩

theorem exists_sink (h : Part g nodes sources sinks) : ∃ sink, sink ∈ sinks := by
  have ⟨p, hp⟩ := h.nonempty
  have ⟨sink, hsink, _⟩ := h.reaches p hp
  exact ⟨sink, hsink⟩

/-! ### Putting parts together -/

/-- Only the lists of the part's own nodes matter. -/
theorem congr (h : Part g nodes sources sinks) (hsucc : ∀ p ∈ nodes, g'.succ p = g.succ p)
    (hpred : ∀ p ∈ nodes, g'.pred p = g.pred p) : Part g' nodes sources sinks := by
  have hpath : ∀ p ∈ nodes, ∀ q, g.Path p q → g'.Path p q := by
    intro p hp q hpath
    refine (h.path_mono (fun p hp q hq => ?_) hp hpath).2
    rw [Arrows.Step, hsucc p hp]
    exact hq
  refine ⟨h.nonempty, h.sources_mem, h.sinks_mem, h.sources_nodup, h.sinks_nodup,
    ?_, ?_, ?_, ?_, ?_, ?_⟩
  · intro p hp
    rw [hsucc p hp]
    exact h.forward p hp
  · intro q hq
    rw [hpred q hq]
    exact h.backward q hq
  · intro p hp q hq
    rw [hsucc p hp, hpred q hq]
    exact h.inverse p hp q hq
  · intro p hp
    rw [hpred p hp]
    exact h.starts p hp
  · intro p hp
    have ⟨source, hsource, hto⟩ := h.reachable p hp
    exact ⟨source, hsource, hpath source (h.sources_mem source hsource) p hto⟩
  · intro p hp
    have ⟨sink, hsink, hto⟩ := h.reaches p hp
    exact ⟨sink, hsink, hpath p hp sink hto⟩

/-- One node without arrows. -/
theorem single (hsucc : g.succ p = []) (hpred : g.pred p = []) : Part g {p} [p] [p] := by
  have hpath : g.Path p p := .refl
  refine ⟨⟨p, rfl⟩, ?_, ?_, List.nodup_singleton p, List.nodup_singleton p, ?_, ?_, ?_, ?_, ?_, ?_⟩ <;>
  · simp [hsucc, hpred, hpath]

/-- Between two parts there is no arrow. -/
theorem inverse_union (hl : Part g left sources sinks) (hr : Part g right sources' sinks')
    (hapart : ∀ p ∈ left, p ∉ right) (hp : p ∈ left ∪ right) (hq : q ∈ left ∪ right) :
    (g.succ p).count q = (g.pred q).count p := by
  rcases hp with hp | hp <;> rcases hq with hq | hq
  · exact hl.inverse p hp q hq
  · rw [List.count_eq_zero.mpr fun hmem => hapart _ (hl.forward p hp q hmem).1 hq,
      List.count_eq_zero.mpr fun hmem => hapart _ hp (hr.backward q hq p hmem)]
  · rw [List.count_eq_zero.mpr fun hmem => hapart _ hq (hr.forward p hp q hmem).1,
      List.count_eq_zero.mpr fun hmem => hapart _ (hl.backward q hq p hmem) hp]
  · exact hr.inverse p hp q hq

/-- Side by side. -/
theorem parallel (hl : Part g left sources sinks) (hr : Part g right sources' sinks')
    (hapart : ∀ p ∈ left, p ∉ right) : Part g (left ∪ right) (sources ++ sources') (sinks ++ sinks') := by
  constructor
  · exact hl.nonempty.inl
  · intro p hp
    exact (List.mem_append.mp hp).imp (hl.sources_mem p) (hr.sources_mem p)
  · intro p hp
    exact (List.mem_append.mp hp).imp (hl.sinks_mem p) (hr.sinks_mem p)
  · refine hl.sources_nodup.append hr.sources_nodup fun p hp hp' => ?_
    exact hapart _ (hl.sources_mem p hp) (hr.sources_mem p hp')
  · refine hl.sinks_nodup.append hr.sinks_nodup fun p hp hp' => ?_
    exact hapart _ (hl.sinks_mem p hp) (hr.sinks_mem p hp')
  · intro p hp q hq
    rcases hp with hp | hp
    · exact (hl.forward p hp q hq).imp_left .inl
    · exact (hr.forward p hp q hq).imp_left .inr
  · intro q hq p hp
    rcases hq with hq | hq
    · exact .inl (hl.backward q hq p hp)
    · exact .inr (hr.backward q hq p hp)
  · exact fun p hp q hq => hl.inverse_union hr hapart hp hq
  · intro p hp
    rw [List.mem_append]
    rcases hp with hp | hp
    · rw [← hl.starts p hp, or_iff_left]
      exact fun hmem => hapart _ hp (hr.sources_mem p hmem)
    · rw [← hr.starts p hp, or_iff_right]
      exact fun hmem => hapart _ (hl.sources_mem p hmem) hp
  · intro p hp
    rcases hp with hp | hp
    · have ⟨source, hsource, hpath⟩ := hl.reachable p hp
      exact ⟨source, List.mem_append_left _ hsource, hpath⟩
    · have ⟨source, hsource, hpath⟩ := hr.reachable p hp
      exact ⟨source, List.mem_append_right _ hsource, hpath⟩
  · intro p hp
    rcases hp with hp | hp
    · have ⟨sink, hsink, hpath⟩ := hl.reaches p hp
      exact ⟨sink, List.mem_append_left _ hsink, hpath⟩
    · have ⟨sink, hsink, hpath⟩ := hr.reaches p hp
      exact ⟨sink, List.mem_append_right _ hsink, hpath⟩

omit [Preorder α] in
/-- Arrows from every sink to every source, seen from both ends. -/
theorem count_link (hsinks : sinks.Nodup) (hsources : sources'.Nodup) (p q : α) :
    (if p ∈ sinks then sources' else []).count q = (if q ∈ sources' then sinks else []).count p := by
  by_cases hp : p ∈ sinks <;> by_cases hq : q ∈ sources'
  · rw [if_pos hp, if_pos hq, List.count_eq_one_of_mem hsources hq, List.count_eq_one_of_mem hsinks hp]
  · rw [if_pos hp, if_neg hq, List.count_eq_zero.mpr hq, List.count_nil]
  · rw [if_neg hp, if_pos hq, List.count_eq_zero.mpr hp, List.count_nil]
  · rw [if_neg hp, if_neg hq, List.count_nil, List.count_nil]

/-- **One after the other**: an arrow from every sink of the first to every source of the second. -/
theorem series (hl : Part g left sources sinks) (hr : Part g right sources' sinks')
    (horder : ∀ p ∈ left, ∀ q ∈ right, p < q)
    (hsucc : ∀ p ∈ left ∪ right, g'.succ p = g.succ p ++ if p ∈ sinks then sources' else [])
    (hpred : ∀ p ∈ left ∪ right, g'.pred p = g.pred p ++ if p ∈ sources' then sinks else []) :
    Part g' (left ∪ right) sources sinks' := by
  have hapart : ∀ p ∈ left, p ∉ right := fun p h h' => lt_irrefl p (horder p h p h')
  have hkept : ∀ p ∈ left ∪ right, ∀ q, g.Step p q → g'.Step p q := by
    intro p hp q hq
    rw [Arrows.Step, hsucc p hp]
    exact List.mem_append_left _ hq
  have hkeptl : ∀ p ∈ left, ∀ q, g.Step p q → g'.Step p q := fun p hp => hkept p (.inl hp)
  have hkeptr : ∀ p ∈ right, ∀ q, g.Step p q → g'.Step p q := fun p hp => hkept p (.inr hp)
  have hlink : ∀ sink ∈ sinks, ∀ source ∈ sources', g'.Step sink source := by
    intro sink hsink source hsource
    rw [Arrows.Step, hsucc sink (.inl (hl.sinks_mem sink hsink)), if_pos hsink]
    exact List.mem_append_right _ hsource
  constructor
  · exact hl.nonempty.inl
  · exact fun p hp => .inl (hl.sources_mem p hp)
  · exact fun p hp => .inr (hr.sinks_mem p hp)
  · exact hl.sources_nodup
  · exact hr.sinks_nodup
  · intro p hp q hq
    rw [hsucc p hp, List.mem_append] at hq
    rcases hq with hq | hq
    · exact (hl.parallel hr hapart).forward p hp q hq
    · split at hq
      case isTrue hsink =>
        have hq' := hr.sources_mem q hq
        exact ⟨.inr hq', horder p (hl.sinks_mem p hsink) q hq'⟩
      case isFalse => cases hq
  · intro q hq p hp
    rw [hpred q hq, List.mem_append] at hp
    rcases hp with hp | hp
    · exact (hl.parallel hr hapart).backward q hq p hp
    · split at hp
      case isTrue => exact .inl (hl.sinks_mem p hp)
      case isFalse => cases hp
  · intro p hp q hq
    rw [hsucc p hp, hpred q hq, List.count_append, List.count_append,
      hl.inverse_union hr hapart hp hq, count_link hl.sinks_nodup hr.sources_nodup p q]
  · intro p hp
    rw [hpred p hp, List.append_eq_nil_iff]
    rcases hp with hp | hp
    · have hnot : p ∉ sources' := fun hmem => hapart _ hp (hr.sources_mem p hmem)
      rw [if_neg hnot, hl.starts p hp, and_iff_left rfl]
    · -- a source of the second part has a predecessor now
      have ⟨sink, hsink⟩ := hl.exists_sink
      have hsinks : sinks ≠ [] := List.ne_nil_of_mem hsink
      rw [← hr.starts p hp]
      constructor
      · exact fun hmem => absurd hp (hapart _ (hl.sources_mem p hmem))
      · intro ⟨hmem, hempty⟩
        rw [if_pos hmem] at hempty
        exact absurd hempty hsinks
  · intro p hp
    rcases hp with hp | hp
    · have ⟨source, hsource, hpath⟩ := hl.reachable p hp
      exact ⟨source, hsource, (hl.path_mono hkeptl (hl.sources_mem source hsource) hpath).2⟩
    · have ⟨source', hsource', hpath'⟩ := hr.reachable p hp
      have ⟨sink, hsink⟩ := hl.exists_sink
      have ⟨source, hsource, hpath⟩ := hl.reachable sink (hl.sinks_mem sink hsink)
      have hfirst := (hl.path_mono hkeptl (hl.sources_mem source hsource) hpath).2
      have hsecond := (hr.path_mono hkeptr (hr.sources_mem source' hsource') hpath').2
      exact ⟨source, hsource, (hfirst.tail (hlink sink hsink source' hsource')).trans hsecond⟩
  · intro p hp
    rcases hp with hp | hp
    · have ⟨sink, hsink, hpath⟩ := hl.reaches p hp
      have ⟨source', hsource'⟩ := hr.exists_source
      have ⟨sink', hsink', hpath'⟩ := hr.reaches source' (hr.sources_mem source' hsource')
      have hfirst := (hl.path_mono hkeptl hp hpath).2
      have hsecond := (hr.path_mono hkeptr (hr.sources_mem source' hsource') hpath').2
      exact ⟨sink', hsink', (hfirst.tail (hlink sink hsink source' hsource')).trans hsecond⟩
    · have ⟨sink, hsink, hpath⟩ := hr.reaches p hp
      exact ⟨sink, hsink, (hr.path_mono hkeptr hp hpath).2⟩

end Part

end Sieve.Library
