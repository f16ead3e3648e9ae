/-
# Who sets the stories room of a channel

The mapping from a channel to its stories room is written when a room is created
whose creation content names the channel, and never changed afterwards: the
first such room whose job comes to its insert wins.  That is all there is to it:
nobody asks who created the room, so a user without any power in the channel, or
even outside it, can take its stories audience.
-/

import Liza.ChannelStories.Module

set_option autoImplicit false

namespace Liza
namespace ChannelStories

open Lib Synapse
open Lib.Task (Obeys)

/-- The jobs of a run: a callback goes back to its event, or is that of a
membership event the module has sent; the job of a new room goes back to the
creation of that room. -/
def mappingJobs (frozen : Freezes) (es : List Ev) (o : ℕ) : Job → Prop
  | .onNewEvent e => es[o]? = some (.newEvent e) ∨ e.type ≠ createState
  | .onRoomCreate room content fr => ∃ e, es[o]? = some (.newEvent e) ∧ e.type = createState ∧
      e.roomId = room ∧ e.content = content ∧ frozen e.eventId = fr
  | _ => True

/-- What the jobs do about the mapping: only the job of a new room inserts, and
that room, under the channel its creation content names; only the callback of a
creation event starts such a job. -/
def mappingOps (frozen : Freezes) (job : Job) : Op → Prop
  | .own (.putStoriesRoom channel room) => ∃ content fr, job = .onRoomCreate room content fr ∧
      claimedChannel fr content = some channel
  | .background (.onRoomCreate room content fr) => ∃ e, job = .onNewEvent e ∧
      e.type = createState ∧ e.roomId = room ∧ e.content = content ∧ frozen e.eventId = fr
  | .background (.onNewEvent _) => False
  | .sendEvent _ => False
  | _ => True

/-- The law of the module. -/
def mapping (frozen : Freezes) : System.Law World Ev Job Op Res where
  I := fun _ => True
  J := mappingJobs frozen
  A := fun _ _ => True
  P := fun job _ op => mappingOps frozen job op

section Law

variable {frozen : Freezes} {host : PyStr} {job : Job} {h : List (Done Op Res)} {α β : Type}

/-- The task keeps the law of the mapping. -/
def Keeping (frozen : Freezes) (job : Job) (t : Code α) : Prop :=
  ∀ h, Obeys (fun _ _ => True) (fun _ op => mappingOps frozen job op) (fun _ _ => True) h t

theorem Keeping.bind {t : Code α} {f : α → Code β} (ht : Keeping frozen job t)
    (hf : ∀ a, Keeping frozen job (f a)) : Keeping frozen job (t >>= f) :=
  fun h => (ht h).bind (fun h a _ => hf a h) fun _ _ => trivial

theorem Keeping.orElse {t u : Code α} (ht : Keeping frozen job t) (hu : Keeping frozen job u) :
    Keeping frozen job (t.orElse u) :=
  fun h => (ht h).orElse (fun _ _ _ => trivial) fun h _ => hu h

theorem Keeping.ret (a : α) : Keeping frozen job (.ret a) := fun _ => trivial

theorem Keeping.raised : Keeping frozen job (.raised : Code α) := fun _ => trivial

theorem Keeping.call {op : Op} (hp : mappingOps frozen job op) : Keeping frozen job (call op) :=
  fun _ => Obeys.call hp fun _ _ => trivial

theorem Keeping.attempt {t : Code α} (ht : Keeping frozen job t) : Keeping frozen job (attempt t) :=
  (ht.bind fun _ => .ret ()).orElse (.ret ())

theorem Keeping.forEach {f : β → Code Unit} (hf : ∀ b, Keeping frozen job (f b)) (bs : List β) :
    Keeping frozen job (Task.forEach f bs) :=
  fun _ => Obeys.forEach (I := fun _ => True) (fun b _ h _ => hf b h) trivial

theorem keeping_isAi (user : UserId) : Keeping frozen job (isAi host user) := by
  unfold isAi
  split
  · exact .ret _
  · split
    · exact .ret _
    · exact ((Keeping.call (by trivial)).bind fun _ => .ret _).orElse (.ret _)

theorem keeping_roomCreator (room : Json) : Keeping frozen job (roomCreator room) :=
  (Keeping.call (by trivial)).bind fun _ => .ret _

theorem keeping_muteIfLocal (user : UserId) (room : Json) :
    Keeping frozen job (muteIfLocal host user room) := by
  unfold muteIfLocal
  split
  · refine .attempt ((Keeping.call (by trivial)).bind fun b => ?_)
    split
    · exact .ret _
    · exact .call (by trivial)
  · exact .ret _

theorem keeping_remoteHosts (user : UserId) : Keeping frozen job (remoteHosts host user) := by
  unfold remoteHosts
  split
  · exact .ret _
  · split
    · exact .ret _
    · exact .raised

theorem keeping_addMember (channel : Json) (member : UserId) :
    Keeping frozen job (addMember host channel member) := by
  refine (keeping_isAi member).bind fun ai => ?_
  split
  · exact .ret _
  refine (Keeping.call (by trivial)).bind fun room => ?_
  cases room with
  | none => exact .ret _
  | some room =>
      refine (keeping_roomCreator _).bind fun owner => ?_
      cases owner with
      | none => exact .ret _
      | some owner =>
          refine (keeping_muteIfLocal _ _).bind fun _ => (keeping_remoteHosts _).bind fun _ => ?_
          exact .attempt (.call (by trivial))

theorem keeping_removeMember (channel : Json) (member : UserId) :
    Keeping frozen job (removeMember channel member) := by
  refine (Keeping.call (by trivial)).bind fun room => ?_
  cases room with
  | none => exact .ret _
  | some room =>
      refine (keeping_roomCreator _).bind fun owner => ?_
      cases owner with
      | none => exact .ret _
      | some owner => exact .attempt (.call (by trivial))

theorem keeping_onRoomCreate (room : RoomId) (content : Dict) (fr : Bool) :
    Keeping frozen (.onRoomCreate room content fr) (onRoomCreate host room content fr) := by
  unfold onRoomCreate
  split
  · exact .ret _
  · rename_i channel hchannel
    have hput : mappingOps frozen (.onRoomCreate room content fr)
        (.own (.putStoriesRoom channel room)) := ⟨content, fr, rfl, hchannel⟩
    refine (Keeping.call hput).bind fun _ => ?_
    exact (Keeping.call (by trivial)).bind fun members => .forEach (keeping_addMember _) members

theorem keeping_onNewEvent (e : Event) : Keeping frozen (.onNewEvent e) (onNewEvent frozen e) := by
  unfold onNewEvent
  split
  · rename_i ht
    exact .call ⟨e, rfl, ht, rfl, rfl, rfl⟩
  · split
    · refine Keeping.bind ?_ fun chatType => ?_
      · exact Keeping.bind (.bind (.call (by trivial)) fun _ => .ret _) fun _ => .ret _
      · split
        · split
          · exact .raised
          · split
            · exact .call (by trivial)
            · exact .call (by trivial)
        · exact .ret _
    · exact .ret _

/-- **Every job of the module keeps the law.** -/
theorem code_keeping (j : Job) : Keeping frozen j (code frozen host j) := by
  cases j with
  | onNewEvent e => exact keeping_onNewEvent e
  | ensureSchema => exact .call (by trivial)
  | onRoomCreate room content fr => exact keeping_onRoomCreate room content fr
  | addMember c m => exact keeping_addMember _ m
  | removeMember c m => exact keeping_removeMember _ m

theorem mapping_keeps (frozen : Freezes) (host : PyStr) :
    (system frozen host).Keeps (fun _ _ => True) (mapping frozen) where
  code := fun _ _ j _ => code_keeping j []
  later := by
    intro es o j e hj ho
    cases j with
    | onNewEvent e' =>
        refine hj.imp (fun hj => ?_) id
        rw [List.getElem?_append_left ho, hj]
    | onRoomCreate room content fr =>
        obtain ⟨e', he', hrest⟩ := hj
        exact ⟨e', by rw [List.getElem?_append_left ho, he'], hrest⟩
    | _ => exact trivial
  event := by
    refine fun s e _ _ => ⟨trivial, fun j hj => ?_⟩
    cases e with
    | newEvent e =>
        obtain rfl := List.mem_singleton.1 hj
        exact .inl (by simp)
    | emptied room => cases hj
    | setRole user data => cases hj
    | restart =>
        obtain rfl := List.mem_singleton.1 hj
        exact trivial
  op := by
    intro s i raises o j op k hs _ hi hp
    refine ⟨trivial, trivial, fun j' hj' => ?_⟩
    have hj : mappingJobs frozen s.events o j := (hs.jobs _ (List.mem_of_getElem? hi)).2
    change j' ∈ (perform (channelStories frozen) host s.world op raises).2.2 at hj'
    rcases perform_cases (channelStories frozen) host s.world op raises with ⟨-, hb⟩ | ⟨e, he, -,
        hjobs⟩
    · obtain rfl := hb j' hj'
      cases j' with
      | onRoomCreate room content fr =>
          obtain ⟨e, rfl, ht, hroom, hcontent, hfr⟩ := hp
          rcases hj with hj | hj
          · exact ⟨e, hj, ht, hroom, hcontent, hfr⟩
          · exact absurd ht hj
      | onNewEvent e => exact hp.elim
      | _ => exact trivial
    · rw [hjobs] at hj'
      obtain rfl := List.mem_singleton.1 hj'
      cases op with
      | updateRoomMembership sender target room action hosts =>
          refine .inr ?_
          rw [(createdEvent_membership he).2.1]
          decide
      | sendEvent d => exact hp.elim
      | _ => cases he

end Law

/-! ### The first claim wins -/

/-- The room that an entry of the log has inserted for a channel. -/
def insertedBy (channel : RoomId) (e : LogEntry) : Option RoomId :=
  match e.done with
  | ⟨.own (.putStoriesRoom c room), some _⟩ => if c = .str channel then some room else none
  | _ => none

/-- The room of the first insert for a channel, the log having its latest entry
first. -/
def firstInserted (channel : RoomId) : List LogEntry → Option RoomId
  | [] => none
  | e :: earlier => (firstInserted channel earlier).or (insertedBy channel e)

section Runs

variable {frozen : Freezes} {host : PyStr} {w : World} {s t : State} {as : List Act}
    {channel : RoomId}

/-- One operation: the table gains at most what it inserts. -/
theorem room_perform (w : World) (op : Op) (raises : Bool) (i o : ℕ) (j : Job) :
    (perform (channelStories frozen) host w op raises).1.store.room channel =
      (w.store.room channel).or (insertedBy channel
        ⟨i, o, j, w, ⟨op, (perform (channelStories frozen) host w op raises).2.1⟩⟩) := by
  unfold perform
  split
  · -- it has raised: nothing is inserted
    have hnone : insertedBy channel ⟨i, o, j, w, ⟨op, none⟩⟩ = none := by
      cases op with
      | own op => cases op <;> rfl
      | _ => rfl
    rw [hnone, Option.or_none]
  · cases op with
    | own op =>
        cases op with
        | putStoriesRoom c room =>
            cases c with
            | str c =>
                change (storeOp w.rooms w.store (.putStoriesRoom (.str c) room)).1.room channel =
                  (w.store.room channel).or (if Json.str c = .str channel then some room else none)
                rw [room_putStoriesRoom]
                simp only [Json.str.injEq, eq_comm]
            | _ => exact Option.or_none.symm
        | getStoriesRoom c => cases c <;> exact Option.or_none.symm
        | ensureSchema => exact Option.or_none.symm
    | updateRoomMembership sender target room action hosts =>
        simp only [complete]
        split <;> exact Option.or_none.symm
    | sendEvent d =>
        simp only [complete]
        split <;> exact Option.or_none.symm
    | _ => exact Option.or_none.symm

/-- One move: the table gains at most what the new entry of the log inserts. -/
theorem room_step {a : Act} (h : (system frozen host).step s a = some t)
    (hs : s.world.store.room channel =
      (w.store.room channel).or (firstInserted channel s.log)) :
    t.world.store.room channel = (w.store.room channel).or (firstInserted channel t.log) := by
  rcases System.step_cases h with ⟨e, rfl, rfl⟩ | ⟨i, raises, o, j, op, k, rfl, hi, rfl⟩
  · have : (arrive (channelStories frozen) s.world e).1.store = s.world.store := by cases e <;> rfl
    change ((arrive (channelStories frozen) s.world e).1.store).room channel = _
    rw [this, hs]
  · change ((perform (channelStories frozen) host s.world op raises).1.store).room channel =
      (w.store.room channel).or ((firstInserted channel s.log).or
        (insertedBy channel ⟨i, o, j, s.world, ⟨op, (perform (channelStories frozen) host s.world op
          raises).2.1⟩⟩))
    rw [← Option.or_assoc, ← hs]
    exact room_perform s.world op raises i o j

/-- **The mapping of a channel is its first claim.**  In every run the stories room of
a channel is the one it had at the start, or else that of the first insert; it is
never changed.  Every insert goes back to an `m.room.create` event whose content
names the channel, and inserts the room of that event.  Nothing else is asked for:
neither that the creator has power in the channel nor that the creator is in it. -/
theorem stories_room_is_first_claim
    (h : Exec (system frozen host).step (fun _ _ => True) (start w) as s) :
    s.world.store.room channel =
        (w.store.room channel).or (firstInserted channel s.log) ∧
      ∀ e ∈ s.log, ∀ room, e.done.op = .own (.putStoriesRoom (.str channel) room) →
        ∃ ev, s.events[e.origin]? = some (.newEvent ev) ∧ ev.type = createState ∧
          ev.roomId = room ∧ claimedChannel (frozen ev.eventId) ev.content =
              some (.str channel) := by
  refine ⟨?_, fun e he room hop => ?_⟩
  · refine h.invariant (I := fun s => s.world.store.room channel =
      (w.store.room channel).or (firstInserted channel s.log)) ?_
      fun s a t hs _ hstep => room_step hstep hs
    simp [start, firstInserted]
  · have hlaw := (mapping_keeps frozen host).lawful (System.lawful_start trivial) h
    obtain ⟨l₁, l₂, hl⟩ := List.append_of_mem he
    have hp : mappingOps frozen e.job e.done.op := hlaw.log.of_split hl
    have hj : mappingJobs frozen s.events e.origin e.job := (hlaw.bound e he).2.2
    rw [hop] at hp
    obtain ⟨content, fr, hjob, hclaim⟩ := hp
    rw [hjob] at hj
    obtain ⟨ev, hev, ht, hroom, hcontent, hfr⟩ := hj
    exact ⟨ev, hev, ht, hroom, by rw [hcontent, hfr]; exact hclaim⟩

end Runs

/-! ### Anybody's claim -/

/-- A homeserver where no module asks about events. -/
abbrev thawed : Freezes := fun _ => false

/-- A channel of `@ann:h` with the member `@bob:h`, and a room that `@eve:h`, who is
not in the channel, is about to create. -/
def claimWorld : World :=
  World.ofLists []
    [("!c", createState, ⟨"@ann:h", [(chatTypeKey, .str channelTypeName)]⟩),
      ("!c", "m.room.power_levels", ⟨"@ann:h", [("users", .obj [("@ann:h", .int 100)])]⟩)]
    [("!c", "@bob:h", .join), ("!r", "@eve:h", .join)]

/-- The creation of a stories room of the channel `!c`. -/
def claim (id : EventId) (room : RoomId) (creator : UserId) : Act :=
  .event (.newEvent ⟨id, createState, room, creator, some [],
    [(channelStoriesOf, .obj [("channel_id", .str "!c")])], none⟩)

/-- `@eve:h` creates a room naming the channel, then `@ann:h` does. -/
def claims : List Act :=
  [claim "$1" "!r" "@eve:h"] ++ List.replicate 1 (.step 0 false : Act) ++
    List.replicate 8 (.step 1 false : Act) ++ [claim "$2" "!s" "@ann:h"] ++
    List.replicate 1 (.step 3 false : Act) ++ List.replicate 1 (.step 4 false : Act)

/-- **An outsider takes the stories of a channel:** the mapping is set by the room of
a user without power in the channel, its member is invited there, and the room of
the channel's owner is not linked any more. -/
theorem outsider_claims_stories :
    claimWorld.power "!c" "@eve:h" = 0 ∧ claimWorld.power "!c" "@ann:h" = 100 ∧
    claimWorld.rooms.membership "!c" "@eve:h" = none ∧
    ∃ s, Exec (system thawed "h").step (fun _ _ => True) (start claimWorld) claims s ∧
      s.world.store.room "!c" = some "!r" ∧ s.world.creator "!r" = some "@eve:h" ∧
      s.world.rooms.membership "!r" "@bob:h" = some .invite :=
  ⟨by decide, by decide, by decide, exists_exec_of_runs (by decide +kernel)⟩

/-- Both claims went back to creation events that name the channel. -/
theorem claims_first_claim :
    ∃ s, Exec (system thawed "h").step (fun _ _ => True) (start claimWorld) claims s ∧
      s.world.store.room "!c" =
        (claimWorld.store.room "!c").or (firstInserted "!c" s.log) := by
  obtain ⟨s, hs, -⟩ := exists_exec_of_runs (f := (system thawed "h").step) (C := fun _ _ => True)
    (s := start claimWorld) (l := claims) (p := fun _ => True) (by decide +kernel)
  exact ⟨s, hs, (stories_room_is_first_claim hs).1⟩

end ChannelStories
end Liza
