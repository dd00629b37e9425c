import EditScope.Proofs.Attribution.Pass
import Mathlib.Data.List.Induction

set_option autoImplicit false

namespace EditScope

namespace HunkLine

def stop (l : HunkLine) : Nat := l.offset + l.length

def Precedes (l later : HunkLine) : Prop := l.stop ≤ later.offset

def on (side : DiffSide) (lines : List HunkLine) : List HunkLine := lines.filter (·.origin = side)

def hull (lines : List HunkLine) : Option EditRange :=
  (lines.map offset).min?.bind fun start => (lines.map stop).max?.map fun stop => ⟨start, stop⟩

variable {l last : HunkLine} {lines : List HunkLine} {r : EditRange}

theorem offset_le_stop (l : HunkLine) : l.offset ≤ l.stop := Nat.le_add_right _ _

instance : Trans Precedes Precedes Precedes :=
  ⟨fun {_ l _} before after => Nat.le_trans before (Nat.le_trans l.offset_le_stop after)⟩

theorem hull_eq_some : hull lines = some r ↔
    ((∃ l ∈ lines, l.offset = r.start) ∧ ∀ l ∈ lines, r.start ≤ l.offset) ∧
      (∃ l ∈ lines, l.stop = r.stop) ∧ ∀ l ∈ lines, l.stop ≤ r.stop := by
  obtain ⟨start, stop⟩ := r
  simp [hull, Option.bind_eq_some_iff, List.min?_eq_some_iff, List.max?_eq_some_iff]

theorem hull_eq_none : hull lines = none ↔ lines = [] := by
  cases lines <;> simp [hull]

theorem start_le_stop_of_hull (found : hull lines = some r) : r.start ≤ r.stop := by
  obtain ⟨⟨⟨l, mem, start⟩, _⟩, _, greatest⟩ := hull_eq_some.1 found
  have := l.offset_le_stop
  have := greatest l mem
  omega

theorem extend_hull (behind : ∀ l ∈ lines, l.Precedes last) :
    Hunk.extend (hull lines) last = hull (lines ++ [last]) := by
  refine Eq.symm (hull_eq_some.2 ?_)
  cases found : hull lines with
  | none => simp [hull_eq_none.1 found, stop]
  | some r =>
    obtain ⟨⟨⟨first, mem, start⟩, least⟩, _⟩ := hull_eq_some.1 found
    have low : r.start ≤ last.offset :=
      start ▸ Nat.le_trans first.offset_le_stop (behind first mem)
    have high (l : HunkLine) (mem : l ∈ lines) : l.stop ≤ last.stop :=
      Nat.le_trans (behind l mem) last.offset_le_stop
    refine ⟨⟨⟨first, List.mem_append_left _ mem, start⟩, ?_⟩, ⟨last, by simp, rfl⟩, ?_⟩
    · exact List.forall_mem_append.2 ⟨least, by simpa using low⟩
    · exact List.forall_mem_append.2 ⟨high, by simp [stop]⟩

theorem foldl_extend (sequence : lines.Pairwise Precedes) :
    lines.foldl Hunk.extend none = hull lines := by
  induction lines using List.reverseRecOn with
  | nil => rfl
  | append_singleton lines last ih =>
    obtain ⟨before, _, behind⟩ := List.pairwise_append.1 sequence
    rw [List.foldl_append, ih before, ← extend_hull fun l mem => behind l mem last (by simp)]
    rfl

end HunkLine

namespace Hunk

open HunkLine

def on (side : DiffSide) (h : Hunk) : Option EditRange :=
  match side with
  | .deletion => h.deleted
  | .addition => h.added
  | .context => none

variable {side : DiffSide} {l : HunkLine} {lines : List HunkLine}

theorem on_addLine (changed : side ≠ .context) (h : Hunk) (l : HunkLine) :
    (h.addLine l).on side = if l.origin = side then extend (h.on side) l else h.on side := by
  unfold addLine
  cases origin : l.origin <;> cases side <;> simp_all [on]

theorem on_covering (changed : side ≠ .context) (lines : List HunkLine) :
    (covering lines).on side = (HunkLine.on side lines).foldl extend none := by
  have run (h : Hunk) :
      (lines.foldl addLine h).on side = (HunkLine.on side lines).foldl extend (h.on side) := by
    rw [HunkLine.on, List.foldl_filter]
    induction lines generalizing h with
    | nil => rfl
    | cons l lines ih =>
      rw [List.foldl_cons, List.foldl_cons, ih, on_addLine changed]
      simp
  rw [covering, run]
  cases side <;> rfl

theorem on_covering_eq_hull (changed : side ≠ .context)
    (sequence : (HunkLine.on side lines).Pairwise Precedes) :
    (covering lines).on side = hull (HunkLine.on side lines) := by
  rw [on_covering changed, foldl_extend sequence]

theorem covering_eq_hulls (deletions : (HunkLine.on .deletion lines).Pairwise Precedes)
    (additions : (HunkLine.on .addition lines).Pairwise Precedes) :
    covering lines =
      ⟨hull (HunkLine.on .deletion lines), hull (HunkLine.on .addition lines)⟩ := by
  rw [← on_covering_eq_hull (by simp) deletions, ← on_covering_eq_hull (by simp) additions]
  rfl

theorem covers_line (changed : l.origin ≠ .context)
    (sequence : (HunkLine.on l.origin lines).Pairwise Precedes) (mem : l ∈ lines) :
    ∃ r, (covering lines).on l.origin = some r ∧ r.start ≤ l.offset ∧ l.stop ≤ r.stop := by
  have among : l ∈ HunkLine.on l.origin lines := by simpa [HunkLine.on] using mem
  rw [on_covering_eq_hull changed sequence]
  cases found : hull (HunkLine.on l.origin lines) with
  | none =>
    rw [hull_eq_none.1 found] at among
    cases among
  | some r =>
    obtain ⟨⟨_, least⟩, _, greatest⟩ := hull_eq_some.1 found
    exact ⟨r, rfl, least l among, greatest l among⟩

end Hunk

namespace Attribution

open HunkLine

variable {groups : List (List HunkLine)} {side : DiffSide}

theorem inOrder_hulls (sequence : groups.flatten.Pairwise Precedes) :
    InOrder (groups.filterMap hull) := by
  have forward {r : EditRange} (mem : r ∈ groups.filterMap hull) : r.start ≤ r.stop := by
    obtain ⟨g, _, found⟩ := List.mem_filterMap.1 mem
    exact start_le_stop_of_hull found
  refine ⟨fun r mem => forward mem, List.Pairwise.isChain (List.pairwise_filterMap.2 ?_)⟩
  refine (List.pairwise_flatten.1 sequence).2.imp ?_
  intro g g' apart r found r' found'
  have := start_le_stop_of_hull found
  obtain ⟨_, ⟨l, mem, stop⟩, _⟩ := hull_eq_some.1 found
  obtain ⟨⟨⟨l', mem', start⟩, _⟩, _⟩ := hull_eq_some.1 found'
  have : l.stop ≤ l'.offset := apart l mem l' mem'
  omega

theorem inOrder_coverings (changed : side ≠ .context)
    (sequence : (HunkLine.on side groups.flatten).Pairwise Precedes) :
    InOrder ((groups.map Hunk.covering).filterMap (Hunk.on side)) := by
  rw [HunkLine.on, List.filter_flatten] at sequence
  have hulls : (groups.map Hunk.covering).filterMap (Hunk.on side) =
      (groups.map (HunkLine.on side)).filterMap hull := by
    rw [List.filterMap_map, List.filterMap_map]
    refine List.filterMap_congr fun g mem => ?_
    exact Hunk.on_covering_eq_hull changed
      ((List.pairwise_flatten.1 sequence).1 _ (List.mem_map_of_mem mem))
  rw [hulls]
  exact inOrder_hulls sequence

theorem ordered_coverings (deletions : (HunkLine.on .deletion groups.flatten).Pairwise Precedes)
    (additions : (HunkLine.on .addition groups.flatten).Pairwise Precedes) :
    Ordered (groups.map Hunk.covering) :=
  ⟨inOrder_coverings (by simp) deletions, inOrder_coverings (by simp) additions⟩

theorem modified_coverings (lines : List HunkLine)
    (deletions : (HunkLine.on .deletion lines).IsChain Precedes)
    (additions : (HunkLine.on .addition lines).IsChain Precedes) :
    Hunk.covering lines =
        ⟨hull (HunkLine.on .deletion lines), hull (HunkLine.on .addition lines)⟩ ∧
      (∀ l ∈ lines, l.origin ≠ .context →
        ∃ r, (Hunk.covering lines).on l.origin = some r ∧ r.start ≤ l.offset ∧ l.stop ≤ r.stop) ∧
      (∀ others, HunkLine.on .deletion others = HunkLine.on .deletion lines →
        HunkLine.on .addition others = HunkLine.on .addition lines →
          Hunk.covering others = Hunk.covering lines) ∧
      ∀ groups : List (List HunkLine), groups.flatten = lines → ∀ old new : Outline,
        ∃ cs, modified old new (groups.map Hunk.covering) = .ok cs := by
  rw [List.isChain_iff_pairwise] at deletions additions
  refine ⟨Hunk.covering_eq_hulls deletions additions, fun l mem changed => ?_,
    fun others deleted added => ?_, fun groups cut old new => ?_⟩
  · refine Hunk.covers_line changed ?_ mem
    cases origin : l.origin with
    | context => exact absurd origin changed
    | addition => exact additions
    | deletion => exact deletions
  · rw [Hunk.covering_eq_hulls deletions additions, ← deleted, ← added]
    exact Hunk.covering_eq_hulls (deleted ▸ deletions) (added ▸ additions)
  · subst cut
    exact exists_modified_of_ordered old new (ordered_coverings deletions additions)

theorem modified_coverings_mixed :
    let groups : List (List HunkLine) := [[⟨.context, 0, 9⟩, ⟨.deletion, 9, 4⟩, ⟨.addition, 9, 6⟩],
      [⟨.deletion, 13, 0⟩, ⟨.context, 15, 5⟩], [⟨.addition, 20, 3⟩, ⟨.deletion, 18, 4⟩]]
    groups.map Hunk.covering =
        [.replacement ⟨9, 13⟩ ⟨9, 15⟩, .deletion ⟨13, 13⟩, .replacement ⟨18, 22⟩ ⟨20, 23⟩] ∧
      Hunk.covering groups.flatten = .replacement ⟨9, 22⟩ ⟨9, 23⟩ ∧
      ∀ old new : Outline, ∃ cs, modified old new (groups.map Hunk.covering) = .ok cs := by
  intro groups
  obtain ⟨covered, _, _, attributed⟩ := modified_coverings groups.flatten
    (by simp [groups, HunkLine.on, Precedes, stop]) (by simp [groups, HunkLine.on, Precedes, stop])
  exact ⟨by decide, covered.trans (by decide), attributed groups rfl⟩

end Attribution

end EditScope
