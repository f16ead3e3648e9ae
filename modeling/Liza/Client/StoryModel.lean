/-
# The content of stories

`StoryOverlay`, `StoryTrim`, `StoryMedia`, `StoryContent` and `StoryRef` of
`clients/flutter/lib/utils/stories/story_model.dart`.  A content has no floats, so shares and
factors are stored as integers of a unit; older contents have floats.

A content is written by any client, and what does not fit is left out, with `tryGet`.  The list of
overlays alone is cast: `StoryContent.fromContent` throws on anything else in its place, where
`tryGetList` would have given null.  This is the only way for it to throw, and what was written is
read again (`story_codec_iff`).

A `double` is the rational number that it stands for.  `floatValue` is the number that the text of a
float in JSON stands for, on which nothing rests.
-/

import Liza.Client.NewsPoll
import Mathlib.Algebra.Order.Floor.Ring
import Mathlib.Data.Rat.Floor
import Mathlib.Tactic.FieldSimp

set_option autoImplicit false

namespace Liza
namespace Client
namespace StoryModel

open Lib

/-! ### Encoding and decoding JSON -/

mutual

/-- `jsonDecode(jsonEncode(v))`. -/
def reread : Json → Json
  | .null => .null
  | .bool b => .bool b
  | .int n => .int n
  | .float r => .float r
  | .str s => .str s
  | .arr l => .arr (rereadList l)
  | .obj d => .obj (rereadDict [] d)

/-- The elements of a list. -/
def rereadList : List Json → List Json
  | [] => []
  | v :: l => reread v :: rereadList l

/-- The items of a map, which the decoder assigns one after the other. -/
def rereadDict (decoded : Dict) : List (PyStr × Json) → Dict
  | [] => decoded
  | (k, v) :: d => rereadDict (Dict.set decoded k (reread v)) d

end

/-! ### Numbers -/

/-- An integer of 64 bits: `n`, or the closest one. -/
def saturate (n : ℤ) : ℤ := max (-2 ^ 63) (min n (2 ^ 63 - 1))

/-- `(q).round()`: to the nearest integer, away from 0 in the middle. -/
def round (q : ℚ) : ℤ := saturate (if 0 ≤ q then ⌊q + 1 / 2⌋ else ⌈q - 1 / 2⌉)

/-- A number of whole units, which an integer of 64 bits counts. -/
def Whole (unit q : ℚ) : Prop := ∃ n : ℤ, saturate n = n ∧ q = n / unit

section Fields

variable (floatValue : PyStr → ℚ)

/-- `if (value != null) key: value`. -/
def optionalItem (key : PyStr) (value : Option Json) : Dict := (value.map fun v => (key, v)).toList

/-- An integer is a number of units, a float the number itself. -/
def readScaled (unit default : ℚ) : Option Json → ℚ
  | some (.int n) => n / unit
  | some (.float r) => floatValue r
  | _ => default

/-! ### The parts of a story -/

/-- `StoryOverlay`. -/
structure StoryOverlay where
  text : PyStr
  x : ℚ
  y : ℚ
deriving DecidableEq

namespace StoryOverlay

/-- `_coordScale`. -/
def coordScale : ℚ := 10000

/-- `toJson`. -/
def toJson (o : StoryOverlay) : Dict :=
  [("text", .str o.text), ("x", .int (round (o.x * coordScale))),
    ("y", .int (round (o.y * coordScale)))]

/-- `_readCoord`. -/
def readCoord (raw : Option Json) : ℚ := readScaled floatValue coordScale (1 / 2) raw

/-- `fromJson`. -/
def fromJson (json : Dict) : Option StoryOverlay :=
  (tryGetString json "text").map fun text =>
    ⟨text, readCoord floatValue (Dict.get? json "x"), readCoord floatValue (Dict.get? json "y")⟩

end StoryOverlay

/-- `StoryMediaBackground`. -/
inductive StoryMediaBackground where
  | cover
  | blur
deriving DecidableEq

/-- `StoryTrim`. -/
structure StoryTrim where
  startMs : ℤ
  endMs : ℤ
deriving DecidableEq

/-- `StoryTrim.toJson`. -/
def StoryTrim.toJson (t : StoryTrim) : Dict :=
  [("start_ms", .int t.startMs), ("end_ms", .int t.endMs)]

/-- `StoryTrim.fromJson`. -/
def StoryTrim.fromJson (json : Dict) : Option StoryTrim := do
  return ⟨← tryGetInt json "start_ms", ← tryGetInt json "end_ms"⟩

/-- `StoryMedia`. -/
structure StoryMedia where
  background : StoryMediaBackground
  scale : ℚ
  dx : ℚ
  dy : ℚ
  trim : Option StoryTrim
deriving DecidableEq

namespace StoryMedia

/-- `_scaleUnit`. -/
def scaleUnit : ℚ := 1000

/-- `_offsetScale`. -/
def offsetScale : ℚ := 10000

/-- `toJson`. -/
def toJson (m : StoryMedia) : Dict :=
  [(py "bg", .str (if m.background = .blur then "blur" else "cover")),
    (py "scale", .int (round (m.scale * scaleUnit))),
    (py "dx", .int (round (m.dx * offsetScale))), (py "dy", .int (round (m.dy * offsetScale)))] ++
  optionalItem "trim" (m.trim.map fun trim => .obj trim.toJson)

/-- `_readScale`. -/
def readScale (raw : Option Json) : ℚ := readScaled floatValue scaleUnit 1 raw

/-- `_readOffset`. -/
def readOffset (raw : Option Json) : ℚ := readScaled floatValue offsetScale 0 raw

/-- `fromJson`. -/
def fromJson (json : Option Dict) : Option StoryMedia :=
  json.map fun json =>
    { background := if tryGetString json "bg" = some (py "blur") then .blur else .cover
      scale := readScale floatValue (Dict.get? json "scale")
      dx := readOffset floatValue (Dict.get? json "dx")
      dy := readOffset floatValue (Dict.get? json "dy")
      trim := (tryGetMap json "trim").bind StoryTrim.fromJson }

end StoryMedia

/-! ### The content of a story -/

/-- `StoryContent`. -/
structure StoryContent where
  expiresTs : ℤ
  overlays : List StoryOverlay
  caption : Option PyStr
  media : Option StoryMedia
deriving DecidableEq

/-- What a cast throws. -/
inductive CastError where
  | notAList
deriving DecidableEq

/-- `(raw as List?) ?? []`. -/
def castList : Option Json → Except CastError (List Json)
  | none => .ok []
  | some .null => .ok []
  | some (.arr l) => .ok l
  | some _ => .error .notAList

/-- `whereType<Map<String, Object?>>`. -/
def mapsOf (l : List Json) : List Dict :=
  l.filterMap fun v =>
    match v with
    | .obj d => some d
    | _ => none

/-- `storyContentKey`. -/
def storyContentKey : PyStr := "com.liza.story"

namespace StoryContent

/-- `toJson`. -/
def toJson (c : StoryContent) : Dict :=
  [(py "expires_ts", .int c.expiresTs)] ++
  optionalItem "caption" ((c.caption.filter fun caption => !caption.isEmpty).map .str) ++
  [(py "overlays", .arr (c.overlays.map fun o => .obj o.toJson))] ++
  optionalItem "media" (c.media.map fun media => .obj media.toJson)

/-- `fromContent`. -/
def fromContent (content : Dict) : Except CastError (Option StoryContent) :=
  match tryGetMap content storyContentKey with
  | none => return none
  | some map => do
      let rawOverlays := mapsOf (← castList (Dict.get? map "overlays"))
      return some
        { expiresTs := (tryGetInt map "expires_ts").getD 0
          caption := tryGetString map "caption"
          overlays := rawOverlays.filterMap (StoryOverlay.fromJson floatValue)
          media := StoryMedia.fromJson floatValue (tryGetMap map "media") }

end StoryContent

end Fields

/-! ### The reference to a story -/

/-- `StoryRef`. -/
structure StoryRef where
  roomId : PyStr
  eventId : PyStr
  authorId : PyStr
  thumbnailMxc : Option PyStr
  expiresTs : ℤ
deriving DecidableEq

/-- `storyRefKey`. -/
def storyRefKey : PyStr := "com.liza.story.ref"

namespace StoryRef

/-- `toJson`. -/
def toJson (r : StoryRef) : Dict :=
  [(py "room_id", .str r.roomId), (py "event_id", .str r.eventId),
    (py "author_id", .str r.authorId)] ++
  optionalItem "thumbnail_mxc" (r.thumbnailMxc.map .str) ++
  [(py "expires_ts", .int r.expiresTs)]

/-- `fromContent`. -/
def fromContent (content : Dict) : Except CastError (Option StoryRef) :=
  match tryGetMap content storyRefKey with
  | none => return none
  | some map =>
      let roomId := tryGetString map "room_id"
      let eventId := tryGetString map "event_id"
      let authorId := tryGetString map "author_id"
      match roomId, eventId, authorId with
      | some roomId, some eventId, some authorId =>
          return some
            { roomId := roomId
              eventId := eventId
              authorId := authorId
              thumbnailMxc := tryGetString map "thumbnail_mxc"
              expiresTs := (tryGetInt map "expires_ts").getD 0 }
      | _, _, _ => return none

end StoryRef

/-! ### Reading again -/

section Reread

variable {d decoded : Dict} {k : PyStr} {l : List Json}

theorem get?_rereadDict (h : (d.map Prod.fst).Nodup) :
    Dict.get? (rereadDict decoded d) k =
      ((Dict.get? d k).map reread).or (Dict.get? decoded k) := by
  induction d generalizing decoded with
  | nil => rfl
  | cons e d ih =>
      obtain ⟨j, v⟩ := e
      obtain ⟨hj, hd⟩ := List.nodup_cons.1 h
      rw [rereadDict, ih hd, Dict.get?_cons, Dict.get?_set]
      by_cases hjk : j = k
      · subst hjk
        have hnone : Dict.get? d j = none := by
          rcases hget : Dict.get? d j with _ | w
          · rfl
          · exact absurd (List.mem_map.2 ⟨_, Dict.mem_of_get? hget, rfl⟩) hj
        simp [hnone]
      · simp [hjk, Ne.symm hjk]

/-- `jsonDecode(jsonEncode(content))`. -/
def rereadMap (content : Dict) : Dict := rereadDict [] content

theorem get?_rereadMap (h : (d.map Prod.fst).Nodup) :
    Dict.get? (rereadMap d) k = (Dict.get? d k).map reread := by
  rw [rereadMap, get?_rereadDict h, Dict.get?_nil, Option.or_none]

theorem tryGetString_rereadMap (h : (d.map Prod.fst).Nodup) :
    tryGetString (rereadMap d) k = tryGetString d k := by
  rw [tryGetString, tryGetString, get?_rereadMap h]
  rcases Dict.get? d k with _ | v
  · rfl
  · cases v <;> rfl

theorem tryGetInt_rereadMap (h : (d.map Prod.fst).Nodup) :
    tryGetInt (rereadMap d) k = tryGetInt d k := by
  rw [tryGetInt, tryGetInt, get?_rereadMap h]
  rcases Dict.get? d k with _ | v
  · rfl
  · cases v <;> rfl

theorem tryGetMap_rereadMap (h : (d.map Prod.fst).Nodup) :
    tryGetMap (rereadMap d) k = (tryGetMap d k).map rereadMap := by
  rw [tryGetMap, tryGetMap, get?_rereadMap h]
  rcases Dict.get? d k with _ | v
  · rfl
  · cases v <;> rfl

end Reread

/-! ### Units -/

section Units

variable {unit q : ℚ} (floatValue : PyStr → ℚ)

theorem round_intCast {n : ℤ} (h : saturate n = n) : round n = n := by
  have hround : (if 0 ≤ (n : ℚ) then ⌊(n : ℚ) + 1 / 2⌋ else ⌈(n : ℚ) - 1 / 2⌉) = n := by
    split
    · rw [Int.floor_eq_iff]
      constructor <;> norm_num
    · rw [Int.ceil_eq_iff]
      constructor <;> norm_num
  rw [round, hround, h]

/-- **Whole units are read as they were written.** -/
theorem readScaled_round (hunit : unit ≠ 0) (h : Whole unit q) (default : ℚ) :
    readScaled floatValue unit default (some (.int (round (q * unit)))) = q := by
  obtain ⟨n, hn, rfl⟩ := h
  rw [div_mul_cancel₀ _ hunit, round_intCast hn]
  rfl

end Units

/-! ### Round trips -/

section RoundTrip

variable (floatValue : PyStr → ℚ)

/-- The coordinates are whole units. -/
def StoryOverlay.Exact (o : StoryOverlay) : Prop := Whole coordScale o.x ∧ Whole coordScale o.y

/-- The factor and the offsets are whole units. -/
def StoryMedia.Exact (m : StoryMedia) : Prop :=
  Whole scaleUnit m.scale ∧ Whole offsetScale m.dx ∧ Whole offsetScale m.dy

theorem StoryOverlay.fromJson_toJson {o : StoryOverlay} (h : o.Exact) :
    StoryOverlay.fromJson floatValue (rereadMap o.toJson) = some o := by
  have hkeys : (o.toJson.map Prod.fst).Nodup := by
    change [py "text", py "x", py "y"].Nodup
    decide
  have htext : tryGetString o.toJson "text" = some o.text := rfl
  have hx : Dict.get? o.toJson "x" = some (.int (round (o.x * coordScale))) := rfl
  have hy : Dict.get? o.toJson "y" = some (.int (round (o.y * coordScale))) := rfl
  rw [StoryOverlay.fromJson, tryGetString_rereadMap hkeys, htext, get?_rereadMap hkeys,
    get?_rereadMap hkeys, hx, hy]
  simp only [Option.map_some, reread, readCoord]
  rw [readScaled_round floatValue (by decide) h.1, readScaled_round floatValue (by decide) h.2]

theorem StoryTrim.fromJson_toJson (t : StoryTrim) :
    StoryTrim.fromJson (rereadMap t.toJson) = some t := by
  have hkeys : (t.toJson.map Prod.fst).Nodup := by
    change [py "start_ms", py "end_ms"].Nodup
    decide
  have hstart : tryGetInt t.toJson "start_ms" = some t.startMs := rfl
  have hend : tryGetInt t.toJson "end_ms" = some t.endMs := rfl
  rw [StoryTrim.fromJson, tryGetInt_rereadMap hkeys, tryGetInt_rereadMap hkeys, hstart, hend]
  rfl

theorem StoryMedia.fromJson_toJson {m : StoryMedia} (h : m.Exact) :
    StoryMedia.fromJson floatValue (some (rereadMap m.toJson)) = some m := by
  have hkeys : (m.toJson.map Prod.fst).Nodup := by
    rcases m with ⟨background, scale, dx, dy, _ | trim⟩
    · change [py "bg", py "scale", py "dx", py "dy"].Nodup
      decide
    · change [py "bg", py "scale", py "dx", py "dy", py "trim"].Nodup
      decide
  have hbg : tryGetString m.toJson "bg" =
      some (if m.background = .blur then py "blur" else py "cover") := rfl
  have hscale : Dict.get? m.toJson "scale" = some (.int (round (m.scale * scaleUnit))) := rfl
  have hdx : Dict.get? m.toJson "dx" = some (.int (round (m.dx * offsetScale))) := rfl
  have hdy : Dict.get? m.toJson "dy" = some (.int (round (m.dy * offsetScale))) := rfl
  have htrim : tryGetMap m.toJson "trim" = m.trim.map StoryTrim.toJson := by
    rcases m with ⟨background, scale, dx, dy, _ | trim⟩ <;> rfl
  rw [StoryMedia.fromJson, Option.map_some, tryGetString_rereadMap hkeys, hbg, get?_rereadMap hkeys,
    get?_rereadMap hkeys, get?_rereadMap hkeys, hscale, hdx, hdy, tryGetMap_rereadMap hkeys, htrim]
  simp only [Option.map_some, reread, readScale, readOffset]
  rw [readScaled_round floatValue (by decide) h.1, readScaled_round floatValue (by decide) h.2.1,
    readScaled_round floatValue (by decide) h.2.2]
  rcases m with ⟨background, scale, dx, dy, _ | trim⟩
  · cases background <;> rfl
  · rw [Option.map_some, Option.map_some, Option.bind_some, StoryTrim.fromJson_toJson]
    cases background <;> rfl

/-- All numbers of a story are whole units. -/
structure StoryContent.Exact (c : StoryContent) : Prop where
  overlays : ∀ o ∈ c.overlays, o.Exact
  media : ∀ m ∈ c.media, m.Exact

/-- An empty caption is read back as absent. -/
def StoryContent.normal (c : StoryContent) : StoryContent :=
  { c with caption := c.caption.filter fun caption => !caption.isEmpty }

/-- The overlays are read one by one. -/
theorem overlays_reread {overlays : List StoryOverlay} (h : ∀ o ∈ overlays, o.Exact) :
    (mapsOf (rereadList (overlays.map fun o => .obj o.toJson))).filterMap
      (StoryOverlay.fromJson floatValue) = overlays := by
  induction overlays with
  | nil => rfl
  | cons o overlays ih =>
      have ho := StoryOverlay.fromJson_toJson floatValue (h o List.mem_cons_self)
      have hrest := ih fun p hp => h p (List.mem_cons_of_mem _ hp)
      rw [List.map_cons, rereadList]
      change (rereadMap o.toJson :: mapsOf _).filterMap _ = _
      rw [List.filterMap_cons, ho, hrest]

theorem StoryContent.fromContent_toJson {content : Dict} {c : StoryContent}
    (hcontent : (content.map Prod.fst).Nodup)
    (hget : Dict.get? content storyContentKey = some (.obj c.toJson)) (h : c.Exact) :
    StoryContent.fromContent floatValue (rereadMap content) = .ok (some c.normal) := by
  have hmap : tryGetMap content storyContentKey = some c.toJson := by rw [tryGetMap, hget]
  have hkeys : (c.toJson.map Prod.fst).Nodup := by
    rcases c with ⟨expiresTs, overlays, _ | _ | ⟨a, s⟩, _ | media⟩
    · change [py "expires_ts", py "overlays"].Nodup
      decide
    · change [py "expires_ts", py "overlays", py "media"].Nodup
      decide
    · change [py "expires_ts", py "overlays"].Nodup
      decide
    · change [py "expires_ts", py "overlays", py "media"].Nodup
      decide
    · change [py "expires_ts", py "caption", py "overlays"].Nodup
      decide
    · change [py "expires_ts", py "caption", py "overlays", py "media"].Nodup
      decide
  have hexpires : tryGetInt c.toJson "expires_ts" = some c.expiresTs := rfl
  have hcaption : tryGetString c.toJson "caption" = c.normal.caption := by
    rcases c with ⟨expiresTs, overlays, _ | _ | ⟨a, s⟩, _ | media⟩ <;> rfl
  have hoverlays : Dict.get? c.toJson "overlays" =
      some (.arr (c.overlays.map fun o => .obj o.toJson)) := by
    rcases c with ⟨expiresTs, overlays, _ | _ | ⟨a, s⟩, _ | media⟩ <;> rfl
  have hmedia : tryGetMap c.toJson "media" = c.media.map StoryMedia.toJson := by
    rcases c with ⟨expiresTs, overlays, _ | _ | ⟨a, s⟩, _ | media⟩ <;> rfl
  have hread : StoryMedia.fromJson floatValue ((c.media.map StoryMedia.toJson).map rereadMap) =
      c.media := by
    rcases hm : c.media with _ | m
    · rfl
    · exact StoryMedia.fromJson_toJson floatValue (h.media m hm)
  rw [StoryContent.fromContent, tryGetMap_rereadMap hcontent, hmap, Option.map_some]
  dsimp only
  rw [get?_rereadMap hkeys, hoverlays, Option.map_some, reread, tryGetInt_rereadMap hkeys, hexpires,
    tryGetString_rereadMap hkeys, hcaption, tryGetMap_rereadMap hkeys, hmedia, hread]
  change Except.ok (some (StoryContent.mk c.expiresTs (List.filterMap _ _) _ _)) = _
  rw [overlays_reread floatValue h.overlays]
  rfl

theorem StoryRef.fromContent_toJson {content : Dict} {r : StoryRef}
    (hcontent : (content.map Prod.fst).Nodup)
    (hget : Dict.get? content storyRefKey = some (.obj r.toJson)) :
    StoryRef.fromContent (rereadMap content) = .ok (some r) := by
  have hmap : tryGetMap content storyRefKey = some r.toJson := by rw [tryGetMap, hget]
  have hkeys : (r.toJson.map Prod.fst).Nodup := by
    rcases r with ⟨roomId, eventId, authorId, _ | thumbnailMxc, expiresTs⟩
    · change [py "room_id", py "event_id", py "author_id", py "expires_ts"].Nodup
      decide
    · change [py "room_id", py "event_id", py "author_id", py "thumbnail_mxc",
        py "expires_ts"].Nodup
      decide
  have hroom : tryGetString r.toJson "room_id" = some r.roomId := rfl
  have hevent : tryGetString r.toJson "event_id" = some r.eventId := rfl
  have hauthor : tryGetString r.toJson "author_id" = some r.authorId := rfl
  have hthumbnail : tryGetString r.toJson "thumbnail_mxc" = r.thumbnailMxc := by
    rcases r with ⟨roomId, eventId, authorId, _ | thumbnailMxc, expiresTs⟩ <;> rfl
  have hexpires : tryGetInt r.toJson "expires_ts" = some r.expiresTs := by
    rcases r with ⟨roomId, eventId, authorId, _ | thumbnailMxc, expiresTs⟩ <;> rfl
  rw [StoryRef.fromContent, tryGetMap_rereadMap hcontent, hmap, Option.map_some]
  dsimp only
  rw [tryGetString_rereadMap hkeys, tryGetString_rereadMap hkeys, tryGetString_rereadMap hkeys,
    tryGetString_rereadMap hkeys, tryGetInt_rereadMap hkeys, hroom, hevent, hauthor, hthumbnail,
    hexpires]
  rfl

end RoundTrip

/-! ### What throws -/

/-- In the map of a story, `overlays` is absent, null or a list. -/
def Castable (content : Dict) : Prop :=
  ∀ map, tryGetMap content storyContentKey = some map →
    ∀ v, Dict.get? map "overlays" = some v → v = .null ∨ ∃ l, v = .arr l

theorem castList_ok_iff (raw : Option Json) :
    (∃ l, castList raw = .ok l) ↔ ∀ v, raw = some v → v = .null ∨ ∃ l, v = .arr l := by
  rcases raw with _ | v
  · exact ⟨fun _ v hv => (by cases hv), fun _ => ⟨_, rfl⟩⟩
  · have hsome : (∀ w, some v = some w → w = .null ∨ ∃ l, w = .arr l) ↔
        v = .null ∨ ∃ l, v = .arr l :=
      ⟨fun h => h v rfl, fun h w hw => Option.some.inj hw ▸ h⟩
    rw [hsome]
    cases v <;> simp [castList]

theorem fromContent_ok_iff (floatValue : PyStr → ℚ) (content : Dict) :
    (∃ story, StoryContent.fromContent floatValue content = .ok story) ↔ Castable content := by
  unfold Castable StoryContent.fromContent
  rcases tryGetMap content storyContentKey with _ | map
  · exact ⟨fun _ map hmap => (by cases hmap), fun _ => ⟨none, rfl⟩⟩
  · have hmap : (∀ m, some map = some m → ∀ v, Dict.get? m "overlays" = some v →
        v = .null ∨ ∃ l, v = .arr l) ↔ ∃ l, castList (Dict.get? map "overlays") = .ok l := by
      rw [castList_ok_iff]
      exact ⟨fun h => h map rfl, fun h m hm => Option.some.inj hm ▸ h⟩
    rw [hmap]
    dsimp only
    rcases castList (Dict.get? map "overlays") with e | l
    · constructor
      · rintro ⟨_, h⟩
        cases h
      · rintro ⟨_, h⟩
        cases h
    · exact ⟨fun _ => ⟨l, rfl⟩, fun _ => ⟨_, rfl⟩⟩

theorem StoryRef.fromContent_ok (content : Dict) :
    ∃ ref, StoryRef.fromContent content = .ok ref := by
  unfold StoryRef.fromContent
  split
  · exact ⟨none, rfl⟩
  · dsimp only
    split <;> exact ⟨_, rfl⟩

/-- **The codec of stories.**  Reading a content throws exactly when the map of the story has
something else than a list as `overlays`.  A story in whole units and a reference are read as they
were written, with an empty caption as absent. -/
theorem story_codec_iff (floatValue : PyStr → ℚ) :
    (∀ content, ((∃ story, StoryContent.fromContent floatValue content = .ok story) ∧
      ∃ ref, StoryRef.fromContent content = .ok ref) ↔ Castable content) ∧
    (∀ (content : Dict) (c : StoryContent), (content.map Prod.fst).Nodup →
      Dict.get? content storyContentKey = some (.obj c.toJson) → c.Exact →
      StoryContent.fromContent floatValue (rereadMap content) = .ok (some c.normal)) ∧
    ∀ (content : Dict) (r : StoryRef), (content.map Prod.fst).Nodup →
      Dict.get? content storyRefKey = some (.obj r.toJson) →
      StoryRef.fromContent (rereadMap content) = .ok (some r) :=
  ⟨fun content => (and_iff_left (StoryRef.fromContent_ok content)).trans
      (fromContent_ok_iff floatValue content),
    fun _ _ => StoryContent.fromContent_toJson floatValue,
    fun _ _ => StoryRef.fromContent_toJson⟩

/-- Another client wrote a text in place of the list of overlays. -/
def hostile : Dict :=
  [(py "msgtype", .str "m.image"), (storyContentKey, .obj [(py "expires_ts", .int 1750700000000),
    (py "overlays", .str "none")])]

theorem hostile_throws :
    StoryContent.fromContent (fun _ => 0) hostile = .error .notAList ∧
      ¬∃ story, StoryContent.fromContent (fun _ => 0) hostile = .ok story := by
  have hthrows : StoryContent.fromContent (fun _ => 0) hostile = .error .notAList := rfl
  refine ⟨hthrows, ?_⟩
  rintro ⟨story, h⟩
  rw [hthrows] at h
  cases h

/-- A story with an overlay in the middle, an empty caption and a trimmed video. -/
def posted : StoryContent where
  expiresTs := 1750700000000
  overlays := [⟨"Hi", 1 / 2, 3 / 10⟩]
  caption := some []
  media := some ⟨.blur, 3 / 2, -3 / 100, 0, some ⟨0, 60000⟩⟩

theorem posted_exact : posted.Exact where
  overlays := fun o ho => by
    obtain rfl := List.mem_singleton.1 ho
    exact ⟨⟨5000, rfl, by norm_num [StoryOverlay.coordScale]⟩, 3000, rfl,
      by norm_num [StoryOverlay.coordScale]⟩
  media := fun m hm => by
    obtain rfl := Option.some.inj hm
    exact ⟨⟨1500, rfl, by norm_num [StoryMedia.scaleUnit]⟩,
      ⟨-300, rfl, by norm_num [StoryMedia.offsetScale]⟩, 0, rfl,
      by norm_num [StoryMedia.offsetScale]⟩

theorem posted_read_back :
    let content : Dict := [(py "body", .str "Story"), (storyContentKey, .obj posted.toJson)]
    StoryContent.fromContent (fun _ => 0) (rereadMap content) =
      .ok (some { posted with caption := none }) :=
  (story_codec_iff fun _ => 0).2.1 _ posted (by decide) rfl posted_exact

end StoryModel
end Client
end Liza
