import Mathlib.Data.List.Chain
import Mathlib.Data.List.Nodup
import MidiScore.Proofs.Inlining
import MidiScore.Proofs.Provenance

/-!
# Grouping of a track

Expansion loses nothing, repeats nothing and keeps the order.  What a track plays is written down
once more, without a loop over copies: `Track.walk` lists the items of the written-out entries, each
with its place.  The position of an item among the copies of a pattern gives the copy and the note
as quotient and remainder.

*Walk.*  Unrolling a track is its walk (`Score.unroll_eq_walk`), and no place comes twice.

*Blocks.*  Grouping cuts the items into blocks, one for each cue (`Cue.Joins`).  One item joins the
last block or opens one of its own (`addTo_cases`), whatever entry, copy or use of a pattern it
comes from, and `Grouped` says what a step keeps.  A chord-marked hit opens a block only if it
cannot join, so blocks are as large as they can be (`Cue.Apart`).
-/

namespace MidiScore

/-! ## The walk of a track -/

/-- The place of the item at a position among those that the entry at an index plays. -/
def Entry.place (score : Score) (index position : Nat) : Entry → Origin
  | .pattern use =>
    match score.pattern? use.pattern with
    | none => ⟨index, none⟩
    | some declared => ⟨index, some ⟨declared.name, position / declared.notes.length,
        position % declared.notes.length⟩⟩
  | _ => ⟨index, none⟩

/-- The items of the entry at an index, with their places. -/
def Entry.walk (score : Score) (defaults : Defaults) (index : Nat) (entry : Entry) : List Played :=
  ((entry.inlined score).filterMap (Entry.item? defaults)).zipIdx.map fun indexed =>
    ⟨entry.place score index indexed.2, indexed.1⟩

/-- The items of the entries of a track, with their places. -/
def Track.walk (score : Score) (defaults : Defaults) (track : Track) : List Played :=
  track.entries.zipIdx.flatMap fun indexed => indexed.1.walk score defaults indexed.2

/-- Items are determined by what they are and where they come from. -/
theorem eq_zipIdx_map {items : List Played} {place : Nat → Origin}
    (origins : items.map (·.origin) = (List.range items.length).map place) :
    items = (items.map (·.item)).zipIdx.map fun indexed => ⟨place indexed.2, indexed.1⟩ := by
  apply List.ext_getElem
  · simp
  · intro position inside _
    have here : items[position].origin = place position := by
      have same := congrArg (·[position]?) origins
      simpa [inside] using same
    simp [← here]

theorem Pattern.copy_origins (defaults : Defaults) (index : Nat) (pause : List NoteValue)
    (pattern : Pattern) (repetition : Nat) :
    (pattern.copy defaults index pause repetition).map (·.origin) =
      (List.range pattern.notes.length).map fun position =>
        ⟨index, some ⟨pattern.name, repetition, position⟩⟩ := by
  rw [Pattern.copy, List.map_map, List.range_eq_range', ← List.zipIdx_map_snd 0 pattern.notes,
    List.map_map]
  rfl

/-- The places of all copies, by quotient and remainder. -/
theorem Pattern.copies_origins (defaults : Defaults) (index : Nat) (pause : List NoteValue)
    (pattern : Pattern) (count : Nat) :
    ((List.range count).flatMap (pattern.copy defaults index pause)).map (·.origin) =
      (List.range (count * pattern.notes.length)).map fun position =>
        ⟨index, some ⟨pattern.name, position / pattern.notes.length,
          position % pattern.notes.length⟩⟩ := by
  induction count with
  | zero => simp
  | succ count ih =>
      rw [List.range_succ, List.flatMap_append, List.map_append, ih, List.flatMap_singleton,
        Pattern.copy_origins, Nat.succ_mul, List.range_add, List.map_append, List.map_map]
      congr 1
      refine List.map_congr_left ?_
      intro position inside
      have small := List.mem_range.mp inside
      simp only [Function.comp_apply]
      rw [Nat.mul_comm, Nat.mul_add_div (by omega), Nat.div_eq_of_lt small, Nat.add_zero,
        Nat.mul_add_mod, Nat.mod_eq_of_lt small]

section
variable {score : Score} {defaults : Defaults}

theorem Score.unrollEntry_origins {index : Nat} {entry : Entry} {items : List Played}
    (unrolled : score.unrollEntry defaults index entry = .ok items) :
    items.map (·.origin) = (List.range items.length).map (entry.place score index) := by
  cases entry with
  | pattern use =>
      obtain ⟨pattern, declared, rfl⟩ := Score.unrollUse_eq_ok unrolled
      have origins := pattern.copies_origins defaults index use.pause use.count.toInt.toNat
      have length := congrArg List.length origins
      rw [List.length_map, List.length_map, List.length_range] at length
      rw [length, origins]
      refine List.map_congr_left ?_
      intro position _
      simp only [Entry.place, declared]
  | note note => cases unrolled; rfl
  | hit hit => cases unrolled; rfl
  | meter meter => cases unrolled; rfl
  | tempo bpm => cases unrolled; rfl
  | bend bend => cases unrolled; rfl

theorem Score.unrollEntry_eq_walk {index : Nat} {entry : Entry} {items : List Played}
    (unrolled : score.unrollEntry defaults index entry = .ok items) :
    items = entry.walk score defaults index := by
  rw [Entry.walk, ← Score.unrollEntry_items unrolled]
  exact eq_zipIdx_map (Score.unrollEntry_origins unrolled)

theorem Score.unrollFrom_eq_walk {entries : List Entry} {index : Nat} {items : List Played}
    (unrolled : score.unrollFrom defaults index entries = .ok items) :
    items = (entries.zipIdx index).flatMap fun indexed =>
      indexed.1.walk score defaults indexed.2 := by
  induction entries generalizing index items with
  | nil => cases unrolled; rfl
  | cons entry entries ih =>
      obtain ⟨first, firstItems, rest⟩ := bind_eq_ok.mp unrolled
      obtain ⟨others, otherItems, same⟩ := bind_eq_ok.mp rest
      cases same
      rw [List.zipIdx_cons, List.flatMap_cons, ← ih otherItems,
        ← Score.unrollEntry_eq_walk firstItems]

/-- A track that can be unrolled plays its walk. -/
theorem Score.unroll_eq_walk {track : Track} {items : List Played}
    (unrolled : score.unroll defaults track = .ok items) : items = track.walk score defaults :=
  Score.unrollFrom_eq_walk unrolled

/-! ## Places -/

theorem Entry.place_entry (entry : Entry) (index position : Nat) :
    (entry.place score index position).entry = index := by
  unfold Entry.place
  split
  next => split <;> rfl
  next => rfl

theorem Entry.walk_origins (entry : Entry) (index : Nat) :
    (entry.walk score defaults index).map (·.origin) =
      (List.range ((entry.inlined score).filterMap (Entry.item? defaults)).length).map
        (entry.place score index) := by
  rw [Entry.walk, List.map_map, List.range_eq_range', ← List.zipIdx_map_snd 0, List.map_map]
  rfl

/-- No place of an entry comes twice. -/
theorem Entry.walk_origins_nodup (entry : Entry) (index : Nat) :
    ((entry.walk score defaults index).map (·.origin)).Nodup := by
  cases entry with
  | pattern use =>
      rw [Entry.walk_origins]
      cases declared : score.pattern? use.pattern with
      | none =>
          simp only [Entry.inlined, declared]
          exact List.nodup_nil
      | some pattern =>
          refine List.nodup_range.map ?_
          intro first second same
          simp only [Entry.place, declared, Origin.mk.injEq, Option.some.injEq,
            PatternOrigin.mk.injEq, true_and] at same
          rw [← Nat.div_add_mod first pattern.notes.length, same.1, same.2, Nat.div_add_mod]
  | note note => exact List.nodup_singleton _
  | hit hit => exact List.nodup_singleton _
  | meter meter => exact List.nodup_singleton _
  | tempo bpm => exact List.nodup_singleton _
  | bend bend => exact List.nodup_singleton _

/-- No place of a track comes twice. -/
theorem Track.walk_origins_nodup (track : Track) :
    ((track.walk score defaults).map (·.origin)).Nodup := by
  rw [Track.walk, List.map_flatMap, List.nodup_flatMap]
  refine ⟨fun indexed _ => indexed.1.walk_origins_nodup indexed.2, ?_⟩
  have indices : track.entries.zipIdx.Pairwise fun a b => a.2 < b.2 := by
    rw [← List.pairwise_map (f := Prod.snd), List.zipIdx_map_snd]
    exact List.pairwise_lt_range'
  refine indices.imp ?_
  intro earlier later before origin first second
  simp only [Entry.walk_origins] at first second
  obtain ⟨_, -, rfl⟩ := List.mem_map.mp first
  obtain ⟨_, -, same⟩ := List.mem_map.mp second
  have entries := congrArg Origin.entry same
  rw [Entry.place_entry, Entry.place_entry] at entries
  omega

end

/-! ## Blocks -/

/-- The items that a cue stands for: the hits of a group in order, or itself. -/
def Cue.items (cue : Cue) : List Item :=
  match cue.action with
  | .tone tone => [.tone tone]
  | .hits group => group.hits.map .hit
  | .bend bend => [.bend bend]
  | .meter meter => [.meter meter]
  | .tempo bpm => [.tempo bpm]

/-- A cue that stands for a block of items, and comes from the place of the first one. -/
def Cue.Joins (cue : Cue) (block : List Played) : Prop :=
  block.map (·.item) = cue.items ∧ block.head?.map (·.origin) = some cue.origin

/-- A cue that could not join the one before it: not a group of hits after another one, unless its
leader is a hit of its own. -/
def Cue.Apart (earlier cue : Cue) : Prop :=
  ∀ group, cue.action = .hits group → group.leader.isChordMarked = true →
    ∀ other, earlier.action ≠ .hits other

theorem Played.cue_joins (played : Played) : played.cue.Joins [played] := by
  obtain ⟨origin, item⟩ := played
  cases item with
  | tone tone => exact ⟨rfl, rfl⟩
  | hit hit => exact ⟨rfl, rfl⟩
  | bend bend => exact ⟨rfl, rfl⟩
  | meter meter => exact ⟨rfl, rfl⟩
  | tempo bpm => exact ⟨rfl, rfl⟩

/-- A hit that joins a group joins its block. -/
theorem Cue.Joins.add {origin : Origin} {group : HitGroup} {block : List Played} {played : Played}
    {hit : Hit} (joins : Cue.Joins ⟨origin, .hits group⟩ block) (isHit : played.item = .hit hit) :
    Cue.Joins ⟨origin, .hits (group.add hit)⟩ (block ++ [played]) := by
  obtain ⟨items, first⟩ := joins
  refine ⟨?_, ?_⟩
  · rw [List.map_append, items, List.map_singleton, isHit]
    simp [Cue.items, HitGroup.hits, HitGroup.add]
  · cases block with
    | nil => cases first
    | cons head rest => exact first

/-! ## Steps -/

/-- An item joins the last cue, a group of hits that it is struck with, or opens a cue of its own
because it cannot join.  Cues are given last first. -/
theorem addTo_cases (cues : List Cue) (played : Played) :
    (∃ origin group rest hit, cues = ⟨origin, .hits group⟩ :: rest ∧ played.item = .hit hit ∧
        played.addTo cues = ⟨origin, .hits (group.add hit)⟩ :: rest) ∨
      (∀ last ∈ cues.head?, last.Apart played.cue) ∧ played.addTo cues = played.cue :: cues := by
  unfold Played.addTo
  split
  next hit origin group rest isHit =>
    split
    next => exact Or.inl ⟨origin, group, rest, hit, rfl, isHit, rfl⟩
    next unmarked =>
      refine Or.inr ⟨?_, rfl⟩
      intro last _ opened isOpened marked
      simp only [Played.cue, isHit, Action.hits.injEq] at isOpened
      subst isOpened
      exact absurd marked unmarked
  next cannotJoin =>
    refine Or.inr ⟨?_, rfl⟩
    intro last isLast opened isOpened _ other isGroup
    obtain ⟨rest, rfl⟩ := List.head?_eq_some_iff.mp isLast
    obtain ⟨origin, item⟩ := played
    cases item with
    | hit hit => exact cannotJoin hit last.origin other rest rfl (by rw [← isGroup])
    | tone tone => cases isOpened
    | bend bend => cases isOpened
    | meter meter => cases isOpened
    | tempo bpm => cases isOpened

/-- Cues, last first, that stand for items block by block and are as large as they can be. -/
structure Grouped (items : List Played) (cues : List Cue) : Prop where
  blocks : ∃ blocks : List (List Played),
    blocks.reverse.flatten = items ∧ List.Forall₂ Cue.Joins cues blocks
  apart : cues.IsChain fun cue earlier => earlier.Apart cue

theorem Grouped.nil : Grouped [] [] := ⟨⟨[], rfl, .nil⟩, .nil⟩

theorem Grouped.addTo {items : List Played} {cues : List Cue} (grouped : Grouped items cues)
    (played : Played) : Grouped (items ++ [played]) (played.addTo cues) := by
  obtain ⟨⟨blocks, rfl, joins⟩, apart⟩ := grouped
  rcases addTo_cases cues played with ⟨origin, group, rest, hit, rfl, isHit, same⟩ | ⟨apart', same⟩
  · rw [same]
    cases joins with
    | @cons _ block _ blocks first others =>
        refine ⟨⟨(block ++ [played]) :: blocks, by simp, .cons (first.add isHit) others⟩, ?_⟩
        -- the leader of the group decides, and it stays
        rw [List.isChain_cons] at apart ⊢
        refine ⟨?_, apart.2⟩
        rintro earlier isEarlier _ ⟨⟩
        exact apart.1 earlier isEarlier group rfl
  · rw [same]
    exact ⟨⟨[played] :: blocks, by simp, .cons played.cue_joins joins⟩,
      List.isChain_cons.mpr ⟨apart', apart⟩⟩

/-! ## Runs -/

theorem Grouped.foldl {items : List Played} {cues : List Cue} (grouped : Grouped items cues)
    (more : List Played) : Grouped (items ++ more) (more.foldl Played.addTo cues) := by
  induction more generalizing items cues with
  | nil => simpa using grouped
  | cons played more ih =>
      rw [List.foldl_cons, List.append_cons]
      exact ih (grouped.addTo played)

/-- Grouping cuts items into blocks, one for each cue, and no cue could have joined the one before
it. -/
theorem group_blocks (items : List Played) :
    (∃ blocks : List (List Played),
        blocks.flatten = items ∧ List.Forall₂ Cue.Joins (group items) blocks) ∧
      (group items).IsChain Cue.Apart := by
  obtain ⟨⟨blocks, flat, joins⟩, apart⟩ := Grouped.nil.foldl items
  exact ⟨⟨blocks.reverse, flat, List.forall₂_reverse_iff.mpr joins⟩,
    List.isChain_reverse.mpr apart⟩

section
variable {cues : List Cue} {blocks : List (List Played)}
  (joins : List.Forall₂ Cue.Joins cues blocks)

include joins

theorem flatMap_items : cues.flatMap Cue.items = blocks.flatten.map (·.item) := by
  induction joins with
  | nil => rfl
  | cons first _ ih => rw [List.flatMap_cons, List.flatten_cons, List.map_append, ih, first.1]

/-- Cues come from different items, in order. -/
theorem origins_sublist : (cues.map (·.origin)).Sublist (blocks.flatten.map (·.origin)) := by
  induction joins with
  | nil => exact List.Sublist.slnil
  | @cons cue block cues blocks first _ ih =>
      obtain ⟨head, isHead, sameOrigin⟩ := Option.map_eq_some_iff.mp first.2
      obtain ⟨rest, rfl⟩ := List.head?_eq_some_iff.mp isHead
      rw [List.flatten_cons, List.map_append, List.map_cons, List.map_cons, sameOrigin]
      exact (ih.trans (List.sublist_append_right ..)).cons_cons _

end

/-- The cues of a track that can be expanded.  With every group of hits replaced by its hits in
order they are the items of the walk of the track.  They cut the walk into blocks, and each cue
comes from the place of the first item of its block; no two cues come from the same place.  A group
has a hit, all its hits but the leader are chord-marked, and a group whose leader is chord-marked
comes first or after a cue that is no group. -/
theorem expand_groups_walk {score : Score} {defaults : Defaults} {track : Track} {cues : List Cue}
    (expanded : score.expand defaults track = .ok cues) :
    cues.flatMap Cue.items = (track.walk score defaults).map (·.item) ∧
      (∃ blocks : List (List Played), blocks.flatten = track.walk score defaults ∧
        List.Forall₂ Cue.Joins cues blocks) ∧
      (cues.map (·.origin)).Nodup ∧
      (∀ cue ∈ cues, ∀ group, cue.action = .hits group →
        group.hits ≠ [] ∧ ∀ hit ∈ group.hits.tail, hit.isChordMarked = true) ∧
      cues.IsChain Cue.Apart := by
  obtain ⟨items, unrolled, rfl⟩ := map_eq_ok.mp expanded
  cases Score.unroll_eq_walk unrolled
  obtain ⟨⟨blocks, flat, joins⟩, apart⟩ := group_blocks (track.walk score defaults)
  refine ⟨?_, ⟨blocks, flat, joins⟩, ?_, ?_, apart⟩
  · rw [flatMap_items joins, flat]
  · have origins := origins_sublist joins
    rw [flat] at origins
    exact track.walk_origins_nodup.sublist origins
  · intro cue member group isGroup
    exact ⟨List.cons_ne_nil _ _, fun hit inside => chordMarked_of_mem_others member isGroup inside⟩

/-- The cues of a hit and two copies of a fill.  The first hit of each copy joins the group before
it. -/
def fillCues : List Cue :=
  [⟨⟨0, none⟩, .hits ⟨⟨.ride, 100, [], []⟩, [⟨.snare, 100, [.chord], [.quarter]⟩]⟩⟩,
    ⟨⟨1, some ⟨"fill", 0, 1⟩⟩, .hits ⟨⟨.kick, 100, [], []⟩, [⟨.snare, 100, [.chord], []⟩]⟩⟩,
    ⟨⟨1, some ⟨"fill", 1, 1⟩⟩, .hits ⟨⟨.kick, 100, [], []⟩, []⟩⟩]

theorem fillCues_group_walk :
    (fillScore ⟨4, by decide, by decide⟩).expand {} fillTrack = .ok fillCues ∧
      fillTrack.walk (fillScore ⟨4, by decide, by decide⟩) {} =
        [⟨⟨0, none⟩, .hit ⟨.ride, 100, [], []⟩⟩,
          ⟨⟨1, some ⟨"fill", 0, 0⟩⟩, .hit ⟨.snare, 100, [.chord], [.quarter]⟩⟩,
          ⟨⟨1, some ⟨"fill", 0, 1⟩⟩, .hit ⟨.kick, 100, [], []⟩⟩,
          ⟨⟨1, some ⟨"fill", 1, 0⟩⟩, .hit ⟨.snare, 100, [.chord], []⟩⟩,
          ⟨⟨1, some ⟨"fill", 1, 1⟩⟩, .hit ⟨.kick, 100, [], []⟩⟩] ∧
      fillCues.flatMap Cue.items =
        (fillTrack.walk (fillScore ⟨4, by decide, by decide⟩) {}).map (·.item) ∧
      fillCues.IsChain Cue.Apart := by
  have expanded : (fillScore ⟨4, by decide, by decide⟩).expand {} fillTrack = .ok fillCues := by
    decide
  obtain ⟨items, -, -, -, apart⟩ := expand_groups_walk expanded
  exact ⟨expanded, by decide, items, apart⟩

end MidiScore
