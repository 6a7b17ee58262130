import Mathlib.Data.Prod.Lex
import MidiScore.Schedule

/-!
# The order of marks

A timeline is merged from two queues.  Each is ordered by tick, rank, sequence and cue, and
the merge compares nothing but the ticks of the two heads.  Here the same order is given by one
key for the marks of both sides, `markKey`: the tick, then ends before beginnings, then rank,
sequence and cue.  The key tells any two marks apart, so sorting by it has one result.

*Queues.*  A queue is sorted by the key of its side, and holds its marks with their cues.

*Merge.*  The merge of two sorted queues is sorted by the key.  It takes every end and every
beginning but those at the last representable tick.  Those come last in their queue, and the
head of an empty queue counts as no later than they are, so none of them is ever taken.

Hence `order_map_sided`: the marks are taken in the order of one sort, whatever the order of
the two lists of the timeline was.
-/

namespace MidiScore

/-! ## Times -/

namespace Ticks

theorem ext {a b : Ticks} (same : a.sub = b.sub) : a = b := by
  cases a
  cases b
  cases same
  rfl

theorem lt_iff {a b : Ticks} : a < b ↔ a.sub < b.sub := Iff.rfl

theorem le_iff {a b : Ticks} : a ≤ b ↔ a.sub ≤ b.sub := Iff.rfl

@[simp] theorem latest_sub : latest.sub = 0x7fffffffffffffff := rfl

/-- No time is later than the last one. -/
theorem lt_latest_iff {t : Ticks} : t < latest ↔ t ≠ latest := by
  have upper := t.upper
  rw [lt_iff, latest_sub]
  constructor
  · intro before same
    rw [same, latest_sub] at before
    omega
  · intro different
    have : t.sub ≠ 0x7fffffffffffffff := fun same => different (ext same)
    omega

end Ticks

/-! ## The key -/

/-- Ends have their turn before beginnings. -/
def Side.turn : Side → Nat
  | .stop => 0
  | .start => 1

/-- The rank of the cue at an index. -/
def rankAt (cues : List Cue) (index : Nat) : Nat := (cues[index]?.map Cue.rank).getD 0

/-- The single key of a mark of either side: tick, ends before beginnings, rank, sequence and
cue. -/
def markKey (cues : List Cue) (mark : Side × Mark) : Int ×ₗ Nat ×ₗ Nat ×ₗ Nat ×ₗ Nat :=
  toLex (mark.2.tick.sub, toLex (mark.1.turn, toLex (rankAt cues mark.2.entry,
    toLex (mark.2.sequence, mark.2.entry))))

theorem Side.turn_injective : Function.Injective Side.turn := by
  intro a b same
  cases a <;> cases b <;> first | rfl | cases same

theorem markKey_injective (cues : List Cue) : Function.Injective (markKey cues) := by
  rintro ⟨side, tick, sequence, entry⟩ ⟨side', tick', sequence', entry'⟩ same
  simp only [markKey, EmbeddingLike.apply_eq_iff_eq, Prod.mk.injEq] at same
  obtain ⟨sameTick, sameTurn, -, sameSequence, sameEntry⟩ := same
  cases Side.turn_injective sameTurn
  cases Ticks.ext sameTick
  cases sameSequence
  cases sameEntry
  rfl

/-- A key is at most another one if its tick is earlier. -/
theorem markKey_le_of_tick_lt {cues : List Cue} {a b : Side × Mark}
    (earlier : a.2.tick < b.2.tick) : markKey cues a ≤ markKey cues b :=
  Prod.Lex.toLex_le_toLex.mpr (Or.inl earlier)

/-- An end comes before a beginning that is not earlier. -/
theorem markKey_stop_le_start {cues : List Cue} {stop start : Mark}
    (notLater : stop.tick ≤ start.tick) :
    markKey cues (.stop, stop) ≤ markKey cues (.start, start) := by
  refine Prod.Lex.toLex_le_toLex.mpr ?_
  rcases Int.lt_or_eq_of_le notLater with earlier | same
  · exact Or.inl earlier
  · exact Or.inr ⟨same, Prod.Lex.toLex_le_toLex.mpr (Or.inl Nat.zero_lt_one)⟩

theorem tick_le_of_markKey_le {cues : List Cue} {a b : Side × Mark}
    (ordered : markKey cues a ≤ markKey cues b) : a.2.tick ≤ b.2.tick := by
  rcases Prod.Lex.toLex_le_toLex.mp ordered with earlier | ⟨same, -⟩
  · exact Int.le_of_lt earlier
  · exact Int.le_of_eq same

/-- A beginning is before an end only if its tick is earlier. -/
theorem tick_lt_of_markKey_start_le {cues : List Cue} {start stop : Mark}
    (ordered : markKey cues (.start, start) ≤ markKey cues (.stop, stop)) :
    start.tick < stop.tick := by
  rcases Prod.Lex.toLex_le_toLex.mp ordered with earlier | ⟨-, turns⟩
  · exact earlier
  · rcases Prod.Lex.toLex_le_toLex.mp turns with lower | ⟨same, -⟩
    · exact absurd lower (Nat.not_lt_zero 1)
    · exact absurd same Nat.one_ne_zero

/-! ## Queues -/

/-- A mark with the cue that it points to. -/
def Queued.Attached (cues : List Cue) (queued : Queued) : Prop :=
  cues[queued.mark.entry]? = some queued.cue

/-- The key within one queue. -/
def Queued.key (queued : Queued) : Int ×ₗ Nat ×ₗ Nat ×ₗ Nat :=
  toLex (queued.mark.tick.sub, toLex (queued.cue.rank,
    toLex (queued.mark.sequence, queued.mark.entry)))

theorem Queued.le_iff {a b : Queued} : a.le b = true ↔ a.key ≤ b.key := by
  have sameTick : a.mark.tick = b.mark.tick ↔ a.mark.tick.sub = b.mark.tick.sub :=
    ⟨congrArg Ticks.sub, Ticks.ext⟩
  simp only [Queued.le, Queued.key, Prod.Lex.toLex_le_toLex, ne_eq, sameTick, Ticks.lt_iff]
  by_cases ticks : a.mark.tick.sub = b.mark.tick.sub
  · by_cases ranks : a.cue.rank = b.cue.rank
    · by_cases sequences : a.mark.sequence = b.mark.sequence
      · simp [ticks, ranks, sequences]
      · simp [ticks, ranks, sequences]
    · simp [ticks, ranks]
  · simp [ticks]

theorem rankAt_eq {cues : List Cue} {queued : Queued} (attached : queued.Attached cues) :
    rankAt cues queued.mark.entry = queued.cue.rank := by
  rw [rankAt, show cues[queued.mark.entry]? = some queued.cue from attached]
  rfl

/-- Marks of one side are ordered alike by both keys. -/
theorem markKey_le_of_key_le {cues : List Cue} {a b : Queued} (side : Side)
    (first : a.Attached cues) (second : b.Attached cues) (ordered : a.key ≤ b.key) :
    markKey cues (side, a.mark) ≤ markKey cues (side, b.mark) := by
  simp only [markKey, rankAt_eq first, rankAt_eq second]
  rcases Prod.Lex.toLex_le_toLex.mp ordered with earlier | ⟨same, later⟩
  · exact Prod.Lex.toLex_le_toLex.mpr (Or.inl earlier)
  · refine Prod.Lex.toLex_le_toLex.mpr (Or.inr ⟨same, ?_⟩)
    exact Prod.Lex.toLex_le_toLex.mpr (Or.inr ⟨rfl, later⟩)

theorem mem_attachCues {cues : List Cue} {marks : List Mark} {queued : Queued} :
    queued ∈ attachCues cues marks ↔ queued.mark ∈ marks ∧ queued.Attached cues := by
  simp only [attachCues, List.mem_filterMap, List.getElem?_toArray, Option.map_eq_some_iff]
  constructor
  · rintro ⟨mark, member, cue, found, rfl⟩
    exact ⟨member, found⟩
  · rintro ⟨member, attached⟩
    exact ⟨queued.mark, member, queued.cue, attached, rfl⟩

theorem mem_queue {cues : List Cue} {marks : List Mark} {queued : Queued} :
    queued ∈ queue cues marks ↔ queued.mark ∈ marks ∧ queued.Attached cues := by
  rw [queue, List.mem_mergeSort, mem_attachCues]

/-- Marks that all point to a cue are queued without loss. -/
theorem attachCues_map_mark {cues : List Cue} {marks : List Mark}
    (inside : ∀ mark ∈ marks, mark.entry < cues.length) :
    (attachCues cues marks).map (·.mark) = marks := by
  induction marks with
  | nil => rfl
  | cons mark rest ih =>
      have found : cues[mark.entry]? = some _ := List.getElem?_eq_getElem (inside mark (by simp))
      have others := ih fun other member => inside other (List.mem_cons_of_mem _ member)
      simp only [attachCues, List.getElem?_toArray, List.map_filterMap] at others ⊢
      rw [List.filterMap_cons, found]
      simpa using others

theorem queue_map_mark {cues : List Cue} {marks : List Mark}
    (inside : ∀ mark ∈ marks, mark.entry < cues.length) :
    ((queue cues marks).map (·.mark)).Perm marks := by
  have permuted := (List.mergeSort_perm (attachCues cues marks) Queued.le).map (·.mark)
  rwa [attachCues_map_mark inside] at permuted

/-- A mark with its side, as it is taken from a queue. -/
def sided (taken : Side × Queued) : Side × Mark := (taken.1, taken.2.mark)

/-- Marks taken one after another are in order. -/
def KeySorted (cues : List Cue) (taken : List (Side × Queued)) : Prop :=
  taken.Pairwise fun a b => markKey cues (sided a) ≤ markKey cues (sided b)

/-- A queue is sorted by the key of its side. -/
theorem queue_keySorted (cues : List Cue) (marks : List Mark) (side : Side) :
    KeySorted cues ((queue cues marks).map (side, ·)) := by
  have sorted : (queue cues marks).Pairwise fun a b => a.le b := by
    apply List.pairwise_mergeSort
    · intro a b c first second
      exact Queued.le_iff.mpr ((Queued.le_iff.mp first).trans (Queued.le_iff.mp second))
    · intro a b
      rw [Bool.or_eq_true, Queued.le_iff, Queued.le_iff]
      exact le_total a.key b.key
  refine List.pairwise_map.mpr (sorted.imp_of_mem ?_)
  intro a b memberA memberB ordered
  exact markKey_le_of_key_le side (mem_queue.mp memberA).2 (mem_queue.mp memberB).2
    (Queued.le_iff.mp ordered)

/-! ## The merge -/

theorem mem_merge {starts stops : List Queued} {taken : Side × Queued}
    (member : taken ∈ merge starts stops) :
    taken ∈ starts.map (Side.start, ·) ∨ taken ∈ stops.map (Side.stop, ·) := by
  fun_induction merge starts stops with
  | case1 => cases member
  | case2 stop stops ih =>
      rcases List.mem_cons.mp member with rfl | later
      · exact Or.inr (List.mem_cons_self ..)
      · exact Or.inr (List.mem_cons_of_mem _ ((ih later).resolve_left (List.not_mem_nil)))
  | case3 start starts early ih =>
      rcases List.mem_cons.mp member with rfl | later
      · exact Or.inl (List.mem_cons_self ..)
      · exact Or.inl (List.mem_cons_of_mem _ ((ih later).resolve_right (List.not_mem_nil)))
  | case4 => cases member
  | case5 start starts stop stops early ih =>
      rcases List.mem_cons.mp member with rfl | later
      · exact Or.inl (List.mem_cons_self ..)
      · exact (ih later).imp_left (List.mem_cons_of_mem _)
  | case6 start starts stop stops late ih =>
      rcases List.mem_cons.mp member with rfl | later
      · exact Or.inr (List.mem_cons_self ..)
      · exact (ih later).imp_right (List.mem_cons_of_mem _)

/-- The merge of two sorted queues is sorted. -/
theorem merge_keySorted (cues : List Cue) (starts stops : List Queued)
    (sortedStarts : KeySorted cues (starts.map (Side.start, ·)))
    (sortedStops : KeySorted cues (stops.map (Side.stop, ·))) :
    KeySorted cues (merge starts stops) := by
  fun_induction merge starts stops with
  | case1 => exact List.Pairwise.nil
  | case2 stop stops ih =>
      rw [List.map_cons] at sortedStops
      refine List.Pairwise.cons ?_ (ih sortedStarts sortedStops.tail)
      intro other member
      exact List.rel_of_pairwise_cons sortedStops
        ((mem_merge member).resolve_left (List.not_mem_nil))
  | case3 start starts early ih =>
      rw [List.map_cons] at sortedStarts
      refine List.Pairwise.cons ?_ (ih sortedStarts.tail sortedStops)
      intro other member
      exact List.rel_of_pairwise_cons sortedStarts
        ((mem_merge member).resolve_right (List.not_mem_nil))
  | case4 => exact List.Pairwise.nil
  | case5 start starts stop stops early ih =>
      rw [List.map_cons] at sortedStarts
      refine List.Pairwise.cons ?_ (ih sortedStarts.tail sortedStops)
      intro other member
      rcases mem_merge member with otherStart | otherStop
      · exact List.rel_of_pairwise_cons sortedStarts otherStart
      · -- every end that waits is at least as late as the first one
        apply markKey_le_of_tick_lt
        rw [List.map_cons] at sortedStops otherStop
        rcases List.mem_cons.mp otherStop with rfl | later
        · exact early
        · exact Int.lt_of_lt_of_le early
            (tick_le_of_markKey_le (List.rel_of_pairwise_cons sortedStops later))
  | case6 start starts stop stops late ih =>
      rw [List.map_cons] at sortedStops
      refine List.Pairwise.cons ?_ (ih sortedStarts sortedStops.tail)
      intro other member
      have notLater : stop.mark.tick ≤ start.mark.tick := Int.not_lt.mp late
      rcases mem_merge member with otherStart | otherStop
      · rw [List.map_cons] at sortedStarts otherStart
        rcases List.mem_cons.mp otherStart with rfl | later
        · exact markKey_stop_le_start notLater
        · exact (markKey_stop_le_start notLater).trans
            (List.rel_of_pairwise_cons sortedStarts later)
      · exact List.rel_of_pairwise_cons sortedStops otherStop

/-- The beginnings that the merge takes. -/
def takenStarts (starts : List Queued) : List Queued :=
  starts.filter fun queued => queued.mark.tick < .latest

theorem takenStarts_map_mark (starts : List Queued) :
    (takenStarts starts).map (·.mark) = (starts.map (·.mark)).filter (·.tick ≠ .latest) := by
  rw [takenStarts, List.filter_map]
  congr 1
  refine List.filter_congr ?_
  intro queued _
  exact decide_eq_decide.mpr Ticks.lt_latest_iff

/-- The merge takes every end, and every beginning that is not at the last tick. -/
theorem merge_perm (cues : List Cue) (starts stops : List Queued)
    (sorted : KeySorted cues (starts.map (Side.start, ·))) :
    (merge starts stops).Perm
      ((takenStarts starts).map (Side.start, ·) ++ stops.map (Side.stop, ·)) := by
  fun_induction merge starts stops with
  | case1 => exact List.Perm.refl _
  | case2 stop stops ih => exact (ih sorted).cons _
  | case3 start starts early ih =>
      rw [List.map_cons] at sorted
      have taken : takenStarts (start :: starts) = start :: takenStarts starts :=
        List.filter_cons_of_pos (decide_eq_true early)
      rw [taken]
      exact (ih sorted.tail).cons _
  | case4 start starts late =>
      rw [List.map_cons] at sorted
      have none : takenStarts (start :: starts) = [] := by
        refine List.filter_eq_nil_iff.mpr ?_
        intro other member early
        rcases List.mem_cons.mp member with rfl | later
        · exact late (of_decide_eq_true early)
        · have ordered : start.mark.tick ≤ other.mark.tick :=
            tick_le_of_markKey_le
              (List.rel_of_pairwise_cons sorted (List.mem_map_of_mem later))
          exact late (Int.lt_of_le_of_lt ordered (of_decide_eq_true early))
      rw [none]
      exact List.Perm.refl _
  | case5 start starts stop stops early ih =>
      rw [List.map_cons] at sorted
      have last : start.mark.tick < .latest :=
        Int.lt_of_lt_of_le early stop.mark.tick.upper
      have taken : takenStarts (start :: starts) = start :: takenStarts starts :=
        List.filter_cons_of_pos (decide_eq_true last)
      rw [taken]
      exact (ih sorted.tail).cons _
  | case6 start starts stop stops late ih =>
      exact ((ih sorted).cons _).trans List.perm_middle.symm

/-! ## One sort -/

namespace Timeline

/-- Whether every mark points to a cue. -/
def PointsInto (timeline : Timeline) (cues : List Cue) : Prop :=
  ∀ mark ∈ timeline.begins ++ timeline.ends, mark.entry < cues.length

/-- The marks of both sides.  Beginnings at the last representable tick are left out. -/
def sidedMarks (timeline : Timeline) : List (Side × Mark) :=
  (timeline.begins.filter (·.tick ≠ .latest)).map (Side.start, ·) ++
    timeline.ends.map (Side.stop, ·)

/-- The marks of both sides, sorted by the single key. -/
def sortedMarks (cues : List Cue) (timeline : Timeline) : List (Side × Mark) :=
  timeline.sidedMarks.mergeSort fun a b => markKey cues a ≤ markKey cues b

theorem sortedMarks_pairwise (cues : List Cue) (timeline : Timeline) :
    (timeline.sortedMarks cues).Pairwise fun a b => markKey cues a ≤ markKey cues b := by
  refine (List.pairwise_mergeSort ?_ ?_ timeline.sidedMarks).imp of_decide_eq_true
  · intro a b c first second
    exact decide_eq_true ((of_decide_eq_true first).trans (of_decide_eq_true second))
  · intro a b
    simpa using le_total (markKey cues a) (markKey cues b)

/-- A list of the same marks that is sorted by the key is the sorted list. -/
theorem eq_sortedMarks {cues : List Cue} {timeline : Timeline} {marks : List (Side × Mark)}
    (permuted : marks.Perm timeline.sidedMarks)
    (sorted : marks.Pairwise fun a b => markKey cues a ≤ markKey cues b) :
    marks = timeline.sortedMarks cues := by
  refine List.Perm.eq_of_pairwise ?_ sorted (timeline.sortedMarks_pairwise cues)
    (permuted.trans (List.mergeSort_perm _ _).symm)
  intro a b _ _ first second
  exact markKey_injective cues (le_antisymm first second)

/-- The sorted list does not depend on the order of the two lists of a timeline. -/
theorem sortedMarks_eq_of_perm {cues : List Cue} {timeline other : Timeline}
    (begins : other.begins.Perm timeline.begins) (ends : other.ends.Perm timeline.ends) :
    other.sortedMarks cues = timeline.sortedMarks cues := by
  apply eq_sortedMarks
  · refine (List.mergeSort_perm _ _).trans ?_
    exact ((begins.filter _).map _).append (ends.map _)
  · exact other.sortedMarks_pairwise cues

theorem order_pairwise (cues : List Cue) (timeline : Timeline) :
    ((timeline.order cues).map sided).Pairwise fun a b => markKey cues a ≤ markKey cues b :=
  List.pairwise_map.mpr (merge_keySorted cues (queue cues timeline.begins)
    (queue cues timeline.ends) (queue_keySorted cues _ _) (queue_keySorted cues _ _))

/-- The merge loses no mark but beginnings at the last representable tick. -/
theorem order_perm_sidedMarks {cues : List Cue} {timeline : Timeline}
    (inside : timeline.PointsInto cues) :
    ((timeline.order cues).map sided).Perm timeline.sidedMarks := by
  have merged := (merge_perm cues (queue cues timeline.begins) (queue cues timeline.ends)
    (queue_keySorted cues _ _)).map sided
  refine merged.trans ?_
  rw [List.map_append, List.map_map, List.map_map]
  have starts : ((takenStarts (queue cues timeline.begins)).map (·.mark)).Perm
      (timeline.begins.filter (·.tick ≠ .latest)) := by
    rw [takenStarts_map_mark]
    exact (queue_map_mark fun mark member => inside mark (List.mem_append_left _ member)).filter _
  have stops : ((queue cues timeline.ends).map (·.mark)).Perm timeline.ends :=
    queue_map_mark fun mark member => inside mark (List.mem_append_right _ member)
  have both := (starts.map (Side.start, ·)).append (stops.map (Side.stop, ·))
  rwa [List.map_map, List.map_map] at both

/-- The merge takes the marks in the order of the single key. -/
theorem order_map_sided {cues : List Cue} {timeline : Timeline}
    (inside : timeline.PointsInto cues) :
    (timeline.order cues).map sided = timeline.sortedMarks cues :=
  eq_sortedMarks (order_perm_sidedMarks inside) (timeline.order_pairwise cues)

/-- Every mark is taken with the cue that it points to. -/
theorem attached_of_mem_order {cues : List Cue} {timeline : Timeline} {taken : Side × Queued}
    (member : taken ∈ timeline.order cues) : taken.2.Attached cues := by
  rcases mem_merge member with start | stop
  · obtain ⟨queued, queuedMember, rfl⟩ := List.mem_map.mp start
    exact (mem_queue.mp queuedMember).2
  · obtain ⟨queued, queuedMember, rfl⟩ := List.mem_map.mp stop
    exact (mem_queue.mp queuedMember).2

/-- Every mark that is taken is one of the timeline. -/
theorem mark_mem_of_mem_order {cues : List Cue} {timeline : Timeline} {taken : Side × Queued}
    (member : taken ∈ timeline.order cues) : taken.2.mark ∈ timeline.begins ++ timeline.ends := by
  rcases mem_merge member with start | stop
  · obtain ⟨queued, queuedMember, rfl⟩ := List.mem_map.mp start
    exact List.mem_append_left _ (mem_queue.mp queuedMember).1
  · obtain ⟨queued, queuedMember, rfl⟩ := List.mem_map.mp stop
    exact List.mem_append_right _ (mem_queue.mp queuedMember).1

/-- A list of attached marks is determined by the marks and their sides. -/
theorem eq_of_map_sided_eq {cues : List Cue} :
    ∀ {first second : List (Side × Queued)}, (∀ taken ∈ first, taken.2.Attached cues) →
      (∀ taken ∈ second, taken.2.Attached cues) → first.map sided = second.map sided →
      first = second
  | [], [], _, _, _ => rfl
  | [], _ :: _, _, _, same => by cases same
  | _ :: _, [], _, _, same => by cases same
  | (side, ⟨mark, cue⟩) :: first, (side', ⟨mark', cue'⟩) :: second, attached, attached', same => by
      simp only [List.map_cons, List.cons.injEq, sided, Prod.mk.injEq] at same
      obtain ⟨⟨rfl, rfl⟩, rest⟩ := same
      have found : cues[mark.entry]? = some cue := attached _ (List.mem_cons_self ..)
      have found' : cues[mark.entry]? = some cue' := attached' _ (List.mem_cons_self ..)
      cases Option.some.inj (found.symm.trans found')
      rw [eq_of_map_sided_eq (fun taken member => attached taken (List.mem_cons_of_mem _ member))
        (fun taken member => attached' taken (List.mem_cons_of_mem _ member)) rest]

/-- The order in which marks are taken does not depend on that of the two lists. -/
theorem order_eq_of_perm {cues : List Cue} {timeline other : Timeline}
    (inside : timeline.PointsInto cues) (begins : other.begins.Perm timeline.begins)
    (ends : other.ends.Perm timeline.ends) : other.order cues = timeline.order cues := by
  have insideOther : other.PointsInto cues :=
    fun mark member => inside mark ((begins.append ends).mem_iff.mp member)
  refine eq_of_map_sided_eq (fun _ => attached_of_mem_order) (fun _ => attached_of_mem_order) ?_
  rw [order_map_sided insideOther, order_map_sided inside, sortedMarks_eq_of_perm begins ends]

end Timeline

end MidiScore
