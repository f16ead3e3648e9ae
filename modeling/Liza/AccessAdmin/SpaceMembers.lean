/-
# The rooms of a space

`servers/synapse/modules/access_admin/_space_members.py`: the rooms whose members are listed for a
space.  `SpaceMembersBuilder.collect` loads the edges of the hierarchy layer by layer, with one
query a layer, and stops when `MAX_SPACE_ROOMS` rooms are known, in the middle of a layer if need
be; then `collect_space_room_ids` goes through the loaded edges once more, from the start, and the
result is cut to `MAX_SPACE_ROOMS` rooms.

The table of edges does not change while it is read, and each query returns the rows of the rooms
it asks for in some order.  `json.loads` is a parameter.  What is then done with the rooms (their
members, names and power levels) is left out.
-/

import Liza.Lib.Assoc
import Liza.Lib.BreadthFirst
import Liza.Lib.Json

set_option autoImplicit false

namespace Liza
namespace AccessAdmin
namespace SpaceMembers

open Lib Lib.BreadthFirst

/-- The id of a room. -/
abbrev RoomId := PyStr

/-- `MAX_SPACE_DEPTH`. -/
def maxSpaceDepth : ℕ := 10

/-- `MAX_SPACE_ROOMS`. -/
def maxSpaceRooms : ℕ := 1000

/-- A row of `_child_edges_sql`: an `m.space.child` event of the current state of a room. -/
structure Row where
  roomId : RoomId
  stateKey : RoomId
  json : Option PyStr

/-- The children of the rooms, by room. -/
abbrev Edges := Assoc RoomId (List RoomId)

/-- `edges.get(room, ())`. -/
def children (edges : Edges) (room : RoomId) : List RoomId := (edges.get? room).getD []

/-- `_content_from_json`. -/
def contentFromJson (loads : PyStr → Option Json) : Option PyStr → Option Dict
  | none => none
  | some raw =>
      if raw = [] then none
      else match loads raw with
        | some (.obj parsed) =>
            match Dict.get parsed "content" with
            | .obj content => some content
            | _ => none
        | _ => none

/-- The edge is not revoked: its content has a `via`. -/
def live (loads : PyStr → Option Json) (row : Row) : Bool :=
  match contentFromJson loads row.json with
  | some content => (Dict.get content "via").truthy
  | none => false

/-- `edges.setdefault(parent, []).append(child)`. -/
def addEdge (edges : Edges) (row : Row) : Edges :=
  edges.set row.roomId (children edges row.roomId ++ [row.stateKey])

/-- The loop of `_child_edges` over the rows. -/
def edgesOf (loads : PyStr → Option Json) (rows : List Row) : Edges :=
  (rows.filter (live loads)).foldl addEdge []

/-- `edges.update(layer)`. -/
def update (edges layer : Edges) : Edges := layer.foldl (fun m e => m.set e.1 e.2) edges

/-! ### `collect_space_room_ids` -/

/-- The loop over the children of a room. -/
def visit (s : List RoomId × List RoomId × List RoomId) (child : RoomId) :
    List RoomId × List RoomId × List RoomId :=
  if child ∈ s.1 then s else (child :: s.1, s.2.1 ++ [child], s.2.2 ++ [child])

/-- The `while` loop, with the number of rounds that are left. -/
def walk (childEdges : Edges) : ℕ → List RoomId → List RoomId → List RoomId → List RoomId
  | 0, _, order, _ => order
  | rounds + 1, seen, order, frontier =>
      if frontier = [] then order
      else
        let s := frontier.foldl
          (fun s roomId => (children childEdges roomId).foldl visit s)
          (seen, order, [])
        walk childEdges rounds s.1 s.2.1 s.2.2

/-- `collect_space_room_ids`. -/
def collectSpaceRoomIds (childEdges : Edges) (root : RoomId) (maxDepth : ℕ) : List RoomId :=
  walk childEdges maxDepth [root] [root] [root]

/-! ### `SpaceMembersBuilder.collect` -/

section Collect

variable (maxRooms : ℕ)

/-- The loop over the children of a parent: it ends when `maxRooms` rooms are known. -/
def addChildren (known nextFrontier : List RoomId) : List RoomId → List RoomId × List RoomId
  | [] => (known, nextFrontier)
  | child :: rest =>
      if child ∈ known then addChildren known nextFrontier rest
      else if (known ++ [child]).length ≥ maxRooms then (known ++ [child], nextFrontier ++ [child])
      else addChildren (known ++ [child]) (nextFrontier ++ [child]) rest

/-- The loop over the parents of a layer. -/
def addParents (layer : Edges) (known nextFrontier : List RoomId) :
    List RoomId → List RoomId × List RoomId
  | [] => (known, nextFrontier)
  | parent :: rest =>
      let s := addChildren maxRooms known nextFrontier (children layer parent)
      if s.1.length ≥ maxRooms then s else addParents layer s.1 s.2 rest

/-- The variables of the loop over the layers, and the queries so far. -/
structure Load where
  known : List RoomId
  edges : Edges
  frontier : List RoomId
  queries : List (List RoomId)

/-- One layer; `select` answers the queries by their number. -/
def loadLayer (loads : PyStr → Option Json) (select : ℕ → List RoomId → List Row) (s : Load) :
    Load :=
  let layer := edgesOf loads (select s.queries.length s.frontier)
  let next := addParents maxRooms layer s.known [] s.frontier
  ⟨next.1, update s.edges layer, next.2, s.queries ++ [s.frontier]⟩

/-- The loop over the layers, with the number of rounds that are left. -/
def load (loads : PyStr → Option Json) (select : ℕ → List RoomId → List Row) : ℕ → Load → Load
  | 0, s => s
  | rounds + 1, s =>
      if s.frontier = [] || s.known.length ≥ maxRooms then s
      else load loads select rounds (loadLayer maxRooms loads select s)

/-- `collect`, up to the list of the rooms. -/
def collect (maxDepth : ℕ) (loads : PyStr → Option Json) (select : ℕ → List RoomId → List Row)
    (root : RoomId) : List RoomId × List (List RoomId) :=
  let s := load maxRooms loads select maxDepth ⟨[root], [], [root], []⟩
  ((collectSpaceRoomIds s.edges root maxDepth).take maxRooms, s.queries)

end Collect

/-! ### The second walk -/

section Walk

variable {seen order nextFrontier frontier cs : List RoomId} {edges : Edges} {n : ℕ}

/-- What the visits of some children add. -/
theorem foldl_visit (cs seen order nextFrontier : List RoomId) :
    ∃ seen', cs.foldl visit (seen, order, nextFrontier) =
      (seen', order ++ fresh seen cs, nextFrontier ++ fresh seen cs) ∧
    ∀ a, a ∈ seen' ↔ a ∈ seen ∨ a ∈ fresh seen cs := by
  induction cs generalizing seen order nextFrontier with
  | nil => exact ⟨seen, by simp [fresh], by simp [fresh]⟩
  | cons c cs ih =>
      rw [List.foldl_cons, visit, fresh]
      dsimp only
      split
      · exact ih _ _ _
      · obtain ⟨seen', hfold, hseen⟩ :=
          ih (c :: seen) (order ++ [c]) (nextFrontier ++ [c])
        refine ⟨seen', by simpa using hfold, fun a => ?_⟩
        rw [hseen, List.mem_cons, List.mem_cons]
        tauto

/-- **`collect_space_room_ids` is a breadth-first search.** -/
theorem walk_eq (h : ∀ a, a ∈ seen ↔ a ∈ order) :
    walk edges n seen order frontier = searchFrom (children edges) n (order, frontier) := by
  induction n generalizing seen order frontier with
  | zero => rfl
  | succ n ih =>
      rw [walk]
      split
      · rename_i hempty
        rw [hempty, searchFrom_nil]
      · rw [← List.foldl_flatMap]
        obtain ⟨seen', hfold, hseen⟩ := foldl_visit
          (frontier.flatMap (children edges)) seen order []
        rw [hfold]
        dsimp only
        rw [List.nil_append, searchFrom, expand, ← fresh_congr h]
        refine ih fun a => ?_
        rw [hseen, List.mem_append, h]

end Walk

/-! ### The loaded edges -/

section Edges

variable {loads : PyStr → Option Json} {rows table : List Row} {edges layer : Edges} {room : RoomId}

/-- The children of a room by the table. -/
def liveChildren (loads : PyStr → Option Json) (rows : List Row) (room : RoomId) : List RoomId :=
  (rows.filter fun row => live loads row && row.roomId = room).map Row.stateKey

theorem children_addEdge (row : Row) : children (addEdge edges row) room =
    children edges room ++ if row.roomId = room then [row.stateKey] else [] := by
  unfold addEdge
  by_cases h : row.roomId = room
  · rw [if_pos h, ← h, children, Assoc.get?_set_self]
    rfl
  · rw [if_neg h, List.append_nil, children, Assoc.get?_set_of_ne _ _ (Ne.symm h)]
    rfl

theorem children_foldl_addEdge (rows : List Row) (edges : Edges) :
    children (rows.foldl addEdge edges) room =
      children edges room ++ (rows.filter fun row => row.roomId = room).map Row.stateKey := by
  induction rows generalizing edges with
  | nil => simp
  | cons row rows ih =>
      rw [List.foldl_cons, ih, children_addEdge]
      by_cases h : row.roomId = room <;> simp [h]

/-- **The loaded children of a room** are those of its rows that are not revoked. -/
theorem children_edgesOf : children (edgesOf loads rows) room = liveChildren loads rows room := by
  unfold edgesOf liveChildren
  rw [children_foldl_addEdge, List.filter_filter]
  simp only [Bool.and_comm, children, Assoc.get?, Option.getD_none, List.nil_append]

theorem keyed_edgesOf : Assoc.Keyed (edgesOf loads rows) := by
  have hfold : ∀ (l : List Row) (edges : Edges), Assoc.Keyed edges →
      Assoc.Keyed (l.foldl addEdge edges) := by
    intro l
    induction l with
    | nil => exact fun _ h => h
    | cons row l ih => exact fun edges h => ih _ (h.set _ _)
  exact hfold _ [] List.nodup_nil

/-- Rows of a room are needed for the room to be a key. -/
theorem get?_edgesOf_eq_none (h : ∀ row ∈ rows, row.roomId ≠ room) :
    Assoc.get? (edgesOf loads rows) room = none := by
  have hfold : ∀ (l : List Row) (edges : Edges), (∀ row ∈ l, row.roomId ≠ room) →
      Assoc.get? edges room = none → Assoc.get? (l.foldl addEdge edges) room = none := by
    intro l
    induction l with
    | nil => exact fun _ _ h => h
    | cons row l ih =>
        intro edges hrows hedges
        refine ih _ (fun r hr => hrows r (List.mem_cons_of_mem _ hr)) ?_
        rw [addEdge, Assoc.get?_set_of_ne _ _ (hrows row List.mem_cons_self).symm]
        exact hedges
  exact hfold _ [] (fun row hrow => h row (List.mem_filter.1 hrow).1) rfl

/-- A room without rows keeps its children in an update. -/
theorem children_update_of_ne (h : ∀ row ∈ rows, row.roomId ≠ room) :
    children (update edges (edgesOf loads rows)) room = children edges room := by
  rw [children, update, keyed_edgesOf.get?_foldl_set, get?_edgesOf_eq_none h]
  rfl

/-- A room without children gets those of the layer. -/
theorem children_update_of_nil (h : children edges room = []) :
    children (update edges (edgesOf loads rows)) room = liveChildren loads rows room := by
  rw [← children_edgesOf, children, update, keyed_edgesOf.get?_foldl_set, children]
  cases Assoc.get? (edgesOf loads rows) room with
  | none => exact h
  | some _ => rfl

/-- The rows of a query hold the children of the rooms it asks for. -/
theorem liveChildren_perm {ids : List RoomId}
    (h : rows.Perm (table.filter fun row => row.roomId ∈ ids)) (hroom : room ∈ ids) :
    (liveChildren loads rows room).Perm (liveChildren loads table room) := by
  unfold liveChildren
  refine (List.Perm.map _ (h.filter _)).trans ?_
  rw [List.filter_filter]
  refine List.Perm.of_eq (congrArg _ (List.filter_congr fun row _ => ?_))
  by_cases hrow : row.roomId = room
  · simp [hrow, hroom]
  · simp [hrow]

end Edges

/-! ### The loop over the layers -/

section Load

variable {maxRooms : ℕ} {loads : PyStr → Option Json} {select : ℕ → List RoomId → List Row}
  {table : List Row} {known nextFrontier cs ps : List RoomId} {layer : Edges} {s : Load}
  {room : RoomId} {n : ℕ}

/-- All new children are added, or as many as there is place for. -/
def Added (maxRooms : ℕ) (known nextFrontier new : List RoomId)
    (s : List RoomId × List RoomId) : Prop :=
  ∃ t, s = (known ++ t, nextFrontier ++ t) ∧ t <+: new ∧
    (t = new ∨ maxRooms ≤ (known ++ t).length)

theorem added_children (cs known nextFrontier : List RoomId) :
    Added maxRooms known nextFrontier (fresh known cs)
      (addChildren maxRooms known nextFrontier cs) := by
  induction cs generalizing known nextFrontier with
  | nil => exact ⟨[], by simp [addChildren], List.prefix_refl _, .inl rfl⟩
  | cons c cs ih =>
      rw [addChildren, fresh]
      split
      · exact ih _ _
      · rename_i hc
        have hseen : fresh (c :: known) cs = fresh (known ++ [c]) cs :=
          fresh_congr fun a => by rw [List.mem_append, List.mem_singleton, List.mem_cons, or_comm]
        split
        · rename_i hfull
          exact ⟨[c], rfl, ⟨fresh (c :: known) cs, rfl⟩, .inr hfull⟩
        · obtain ⟨t, ht, hpre, hall⟩ := ih (known ++ [c]) (nextFrontier ++ [c])
          refine ⟨c :: t, by rw [ht]; simp, ?_, ?_⟩
          · rw [hseen]
            exact List.prefix_cons_inj c |>.2 hpre
          · rw [hseen]
            refine hall.imp (congrArg _) fun hfull => ?_
            rwa [List.append_assoc] at hfull

theorem added_parents (layer : Edges) (ps known nextFrontier : List RoomId) :
    Added maxRooms known nextFrontier (fresh known (ps.flatMap (children layer)))
      (addParents maxRooms layer known nextFrontier ps) := by
  induction ps generalizing known nextFrontier with
  | nil => exact ⟨[], by simp [addParents], List.prefix_refl _, .inl rfl⟩
  | cons p ps ih =>
      rw [addParents, List.flatMap_cons, fresh_append]
      obtain ⟨t, ht, hpre, hall⟩ := added_children (children layer p) known nextFrontier
      rw [ht]
      dsimp only
      split
      · rename_i hfull
        exact ⟨t, rfl, hpre.trans (List.prefix_append _ _), .inr hfull⟩
      · rename_i hroom
        obtain rfl := hall.resolve_right hroom
        obtain ⟨t', ht', hpre', hall'⟩ := ih (known ++ fresh known (children layer p))
          (nextFrontier ++ fresh known (children layer p))
        refine ⟨fresh known (children layer p) ++ t', by rw [ht']; simp, ?_, ?_⟩
        · exact List.prefix_append_right_inj _ |>.2 hpre'
        · refine hall'.imp (congrArg _) fun hfull => ?_
          rwa [List.append_assoc] at hfull

/-- Each query returns the rows of the rooms it asks for. -/
def Answers (table : List Row) (select : ℕ → List RoomId → List Row) : Prop :=
  ∀ k ids, (select k ids).Perm (table.filter fun row => row.roomId ∈ ids)

/-- What holds of the variables between two layers. -/
structure Loaded (loads : PyStr → Option Json) (table : List Row) (s : Load) : Prop where
  nodup : s.queries.flatten.Nodup
  nodup_frontier : s.frontier.Nodup
  known : ∀ room ∈ s.queries.flatten, room ∈ s.known
  frontier : ∀ room ∈ s.frontier, room ∈ s.known ∧ room ∉ s.queries.flatten
  edges : ∀ room ∈ s.queries.flatten,
    (children s.edges room).Perm (liveChildren loads table room)
  others : ∀ room, room ∉ s.queries.flatten → children s.edges room = []

theorem loaded_start (root : RoomId) : Loaded loads table ⟨[root], [], [root], []⟩ := by
  refine ⟨List.nodup_nil, List.nodup_singleton _, nofun, fun room hroom => ⟨hroom, nofun⟩, nofun,
    fun _ _ => rfl⟩

theorem mem_queries_loadLayer : room ∈ (loadLayer maxRooms loads select s).queries.flatten ↔
    room ∈ s.queries.flatten ∨ room ∈ s.frontier := by
  simp [loadLayer]

/-- A query returns rows of the rooms it asks for only. -/
theorem Answers.roomId_ne (hselect : Answers table select) {k : ℕ} {ids : List RoomId}
    (h : room ∉ ids) : ∀ row ∈ select k ids, row.roomId ≠ room := by
  rintro row hrow rfl
  have hmem := (List.mem_filter.1 ((hselect k ids).mem_iff.1 hrow)).2
  exact h (of_decide_eq_true hmem)

/-- The edges of a room that was asked for stay. -/
theorem Loaded.children_loadLayer (h : Loaded loads table s) (hselect : Answers table select)
    (hroom : room ∈ s.queries.flatten) :
    children (loadLayer maxRooms loads select s).edges room = children s.edges room :=
  children_update_of_ne (hselect.roomId_ne fun hfrontier => (h.frontier room hfrontier).2 hroom)

/-- The layer that is loaded. -/
theorem Loaded.children_frontier (h : Loaded loads table s) (hroom : room ∈ s.frontier) :
    children (loadLayer maxRooms loads select s).edges room =
      liveChildren loads (select s.queries.length s.frontier) room :=
  children_update_of_nil (h.others room (h.frontier room hroom).2)

/-- **The rooms of a layer** are the new ones of its edges, or as many as there is place for. -/
theorem loadLayer_added (maxRooms : ℕ) (loads : PyStr → Option Json)
    (select : ℕ → List RoomId → List Row) (s : Load) : Added maxRooms s.known []
    (fresh s.known (s.frontier.flatMap
      (liveChildren loads (select s.queries.length s.frontier))))
    ((loadLayer maxRooms loads select s).known, (loadLayer maxRooms loads select s).frontier) := by
  have hadded : Added maxRooms s.known [] _ _ :=
    added_parents (edgesOf loads (select s.queries.length s.frontier)) s.frontier s.known []
  have hchildren : s.frontier.flatMap
      (children (edgesOf loads (select s.queries.length s.frontier))) =
      s.frontier.flatMap (liveChildren loads (select s.queries.length s.frontier)) :=
    List.flatMap_congr fun _ _ => children_edgesOf
  rw [hchildren] at hadded
  exact hadded

/-- **One layer keeps the invariant.** -/
theorem Loaded.loadLayer (h : Loaded loads table s) (hselect : Answers table select)
    (maxRooms : ℕ) :
    Loaded loads table (loadLayer maxRooms loads select s) := by
  obtain ⟨t, ht, ⟨rest, hrest⟩, -⟩ := loadLayer_added maxRooms loads select s
  obtain ⟨hknown, hfrontier⟩ := Prod.mk.inj ht
  have hnew : ∀ room ∈ t, room ∉ s.known := fun room hroom =>
    (mem_fresh.1 (hrest ▸ List.mem_append_left rest hroom)).2
  refine ⟨?_, ?_, fun room hroom => ?_, fun room hroom => ?_, fun room hroom => ?_,
    fun room hroom => ?_⟩
  · have hflat : (SpaceMembers.loadLayer maxRooms loads select s).queries.flatten =
        s.queries.flatten ++ s.frontier := by simp [SpaceMembers.loadLayer]
    rw [hflat]
    exact h.nodup.append h.nodup_frontier fun room hold hnew => (h.frontier room hnew).2 hold
  · rw [hfrontier, List.nil_append]
    have hnodup : (t ++ rest).Nodup := hrest ▸ nodup_fresh
    exact hnodup.sublist (List.sublist_append_left t rest)
  · rw [hknown]
    refine List.mem_append_left _ ?_
    rcases mem_queries_loadLayer.1 hroom with hold | hfront
    · exact h.known room hold
    · exact (h.frontier room hfront).1
  · rw [hfrontier, List.nil_append] at hroom
    refine ⟨hknown ▸ List.mem_append_right _ hroom, fun hqueried => hnew room hroom ?_⟩
    rcases mem_queries_loadLayer.1 hqueried with hold | hfront
    · exact h.known room hold
    · exact (h.frontier room hfront).1
  · rcases mem_queries_loadLayer.1 hroom with hold | hfront
    · rw [h.children_loadLayer hselect hold]
      exact h.edges room hold
    · rw [h.children_frontier hfront]
      exact liveChildren_perm (hselect _ _) hfront
  · rw [mem_queries_loadLayer, not_or] at hroom
    rw [← h.others room hroom.1]
    exact children_update_of_ne (hselect.roomId_ne hroom.2)

/-- What holds after the loop: the invariant, and that the edges of the rooms that were asked for
before stay. -/
theorem Loaded.load (h : Loaded loads table s) (hselect : Answers table select) (maxRooms n : ℕ) :
    Loaded loads table (load maxRooms loads select n s) ∧
      ∀ room ∈ s.queries.flatten,
        room ∈ (load maxRooms loads select n s).queries.flatten ∧
          children (load maxRooms loads select n s).edges room = children s.edges room := by
  induction n generalizing s with
  | zero => exact ⟨h, fun room hroom => ⟨hroom, rfl⟩⟩
  | succ n ih =>
      rw [SpaceMembers.load]
      split
      · exact ⟨h, fun room hroom => ⟨hroom, rfl⟩⟩
      · obtain ⟨hloaded, hkept⟩ := ih (h.loadLayer hselect maxRooms)
        refine ⟨hloaded, fun room hroom => ?_⟩
        obtain ⟨hmem, hchildren⟩ := hkept room (mem_queries_loadLayer.2 (.inl hroom))
        exact ⟨hmem, hchildren.trans (h.children_loadLayer hselect hroom)⟩

/-- There are no more queries than rounds. -/
theorem length_queries_load (maxRooms : ℕ) (loads : PyStr → Option Json)
    (select : ℕ → List RoomId → List Row) (n : ℕ) (s : Load) :
    (load maxRooms loads select n s).queries.length ≤ s.queries.length + n := by
  induction n generalizing s with
  | zero => exact Nat.le_refl _
  | succ n ih =>
      rw [load]
      split
      · omega
      · have hlayer := ih (loadLayer maxRooms loads select s)
        have hlength : (loadLayer maxRooms loads select s).queries.length =
            s.queries.length + 1 := by
          simp [loadLayer]
        omega

/-- **The walk over the loaded edges finds what a walk over all edges finds**, up to the place where
the loop stopped for the number of rooms. -/
theorem Loaded.take_searchFrom (h : Loaded loads table s) (hselect : Answers table select)
    {next : RoomId → List RoomId}
    (hnext : ∀ room ∈ (SpaceMembers.load maxRooms loads select n s).queries.flatten,
      next room = children (SpaceMembers.load maxRooms loads select n s).edges room) :
    (searchFrom (children (SpaceMembers.load maxRooms loads select n s).edges) n
        (s.known, s.frontier)).take maxRooms =
      (searchFrom next n (s.known, s.frontier)).take maxRooms := by
  induction n generalizing s with
  | zero => rfl
  | succ n ih =>
      by_cases hempty : s.frontier = []
      · rw [hempty, searchFrom_nil, searchFrom_nil]
      · by_cases hfull : maxRooms ≤ s.known.length
        · rw [BreadthFirst.take_searchFrom hfull, BreadthFirst.take_searchFrom hfull]
        · have hload : SpaceMembers.load maxRooms loads select (n + 1) s =
              SpaceMembers.load maxRooms loads select n
                (SpaceMembers.loadLayer maxRooms loads select s) := by
            rw [SpaceMembers.load, if_neg (by simp [hempty]; omega)]
          rw [hload] at hnext ⊢
          have hlayer := h.loadLayer hselect maxRooms
          have hkept := (hlayer.load hselect maxRooms n).2
          -- both walks go on with the edges of this layer
          have hedges : ∀ room ∈ s.frontier,
              children (SpaceMembers.load maxRooms loads select n
                (SpaceMembers.loadLayer maxRooms loads select s)).edges room =
              liveChildren loads (select s.queries.length s.frontier) room := fun room hroom =>
            (hkept room (mem_queries_loadLayer.2 (.inr hroom))).2.trans (h.children_frontier hroom)
          have hedges' : ∀ room ∈ s.frontier,
              next room = liveChildren loads (select s.queries.length s.frontier) room :=
            fun room hroom =>
              (hnext room (hkept room (mem_queries_loadLayer.2 (.inr hroom))).1).trans
                (hedges room hroom)
          rw [searchFrom, searchFrom, expand_congr (s := (s.known, s.frontier)) hedges,
            expand_congr (s := (s.known, s.frontier)) hedges']
          obtain ⟨t, ht, hpre, rfl | hcut⟩ := loadLayer_added maxRooms loads select s
          · have hstate : expand (liveChildren loads (select s.queries.length s.frontier))
                (s.known, s.frontier) =
                ((SpaceMembers.loadLayer maxRooms loads select s).known,
                  (SpaceMembers.loadLayer maxRooms loads select s).frontier) := by
              rw [ht]
              rfl
            rw [hstate]
            exact ih hlayer hnext
          · have hlong : maxRooms ≤ (expand (liveChildren loads
                (select s.queries.length s.frontier)) (s.known, s.frontier)).1.length := by
              have hle := hpre.length_le
              rw [List.length_append] at hcut
              rw [expand, List.length_append]
              dsimp only
              omega
            rw [BreadthFirst.take_searchFrom hlong, BreadthFirst.take_searchFrom hlong]

end Load

/-- A walk along the children does not depend on their order. -/
theorem walk_congr {next next' : RoomId → List RoomId} (h : ∀ room, (next room).Perm (next' room))
    {k : ℕ} {a b : RoomId} : Walk next k a b ↔ Walk next' k a b := by
  induction k generalizing b with
  | zero => exact Iff.rfl
  | succ k ih => exact exists_congr fun c => and_congr ih (h c).mem_iff

/-- **The rooms of a space are found breadth first.**  For every table of `m.space.child` events
and every root: there is an order of the edges of each room that are not revoked such that the
list of the rooms is the order of the breadth-first search along them, down to the depth
`MAX_SPACE_DEPTH`, cut to the first `MAX_SPACE_ROOMS`.  This order has each room once, those at
most `MAX_SPACE_DEPTH` edges away from the root, the near ones first.  No room is asked for twice,
and there are at most `MAX_SPACE_DEPTH` queries. -/
theorem collect_breadth_first (table : List Row) (loads : PyStr → Option Json)
    (select : ℕ → List RoomId → List Row) (root : RoomId) (hselect : Answers table select) :
    let collected := collect maxSpaceRooms maxSpaceDepth loads select root
    ∃ next : RoomId → List RoomId,
      (∀ room, (next room).Perm (liveChildren loads table room)) ∧
        collected.1 = (search next maxSpaceDepth root).take maxSpaceRooms ∧
        (search next maxSpaceDepth root).Nodup ∧
        (search next maxSpaceDepth root).Pairwise (Nearer (liveChildren loads table) root) ∧
        (∀ room, room ∈ search next maxSpaceDepth root ↔
          ∃ k ≤ maxSpaceDepth, Walk (liveChildren loads table) k root room) ∧
        collected.2.flatten.Nodup ∧ collected.2.length ≤ maxSpaceDepth := by
  intro collected
  have hstart : Loaded loads table ⟨[root], [], [root], []⟩ := loaded_start root
  obtain ⟨hloaded, -⟩ := hstart.load hselect maxSpaceRooms maxSpaceDepth
  set final := load maxSpaceRooms loads select maxSpaceDepth ⟨[root], [], [root], []⟩
  -- the order in which the rows came, where a room was asked for, and else that of the table
  let next : RoomId → List RoomId := fun room =>
    if room ∈ final.queries.flatten then children final.edges room
    else liveChildren loads table room
  have hperm : ∀ room, (next room).Perm (liveChildren loads table room) := by
    intro room
    by_cases hroom : room ∈ final.queries.flatten
    · rw [show next room = children final.edges room from if_pos hroom]
      exact hloaded.edges room hroom
    · rw [show next room = liveChildren loads table room from if_neg hroom]
  refine ⟨next, hperm, ?_, nodup_search, sorted_search.imp fun hnearer k hk => ?_, fun room => ?_,
    hloaded.nodup, ?_⟩
  · change (collectSpaceRoomIds final.edges root maxSpaceDepth).take maxSpaceRooms = _
    rw [collectSpaceRoomIds, walk_eq fun _ => Iff.rfl]
    exact hstart.take_searchFrom hselect fun room hroom => if_pos hroom
  · obtain ⟨j, hj, hwalk⟩ := hnearer k ((walk_congr hperm).2 hk)
    exact ⟨j, hj, (walk_congr hperm).1 hwalk⟩
  · rw [mem_search_iff]
    exact exists_congr fun k => and_congr_right fun _ => walk_congr hperm
  · have hlength := length_queries_load maxSpaceRooms loads select maxSpaceDepth
      ⟨[root], [], [root], []⟩
    exact Nat.le_trans hlength (Nat.le_of_eq (Nat.zero_add _))

/-- An edge with a `via`, and what `json.loads` returns for its event. -/
def viaEvent : PyStr := "\x7b\"content\":\x7b\"via\":[\"h\"]\x7d\x7d"

def viaLoads (raw : PyStr) : Option Json :=
  if raw = viaEvent then some (.obj [("content", .obj [("via", .arr [.str "h"])])]) else none

/-- A space `r` with the room `a`, which has the space as a child, and a room that was taken out. -/
def cycleTable : List Row :=
  [⟨"r", "b", none⟩, ⟨"r", "a", some viaEvent⟩, ⟨"a", "r", some viaEvent⟩]

theorem collect_breadth_first_cycle :
    let collected := collect maxSpaceRooms maxSpaceDepth viaLoads
      (fun _ ids => cycleTable.filter fun row => row.roomId ∈ ids) "r"
    collected.1 = [py "r", py "a"] ∧ collected.2.flatten.Nodup := by
  obtain ⟨-, -, -, -, -, -, hnodup, -⟩ := collect_breadth_first cycleTable viaLoads
    (fun _ ids => cycleTable.filter fun row => row.roomId ∈ ids) "r" fun _ _ => List.Perm.refl _
  exact ⟨by decide, hnodup⟩

end SpaceMembers
end AccessAdmin
end Liza
