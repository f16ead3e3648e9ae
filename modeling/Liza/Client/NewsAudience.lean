/-
# Push gateway and client on the audience of a news post

`clients/flutter/lib/utils/news_audience.dart`.  The client hides a post of the news bot whose
list of platforms does not have its own.  It takes the names as they are, while the gateway
lowers their case and leaves out the unknown ones, and it knows one news bot more.  So the two
agree on a device exactly when they read the list alike for its platform (`ReadAlike`).
-/

import Liza.Sygnal.NewsAudience

set_option autoImplicit false

namespace Liza
namespace Client

open Lib Sygnal

/-- `newsBotMxids`. -/
def newsBotMxids : List PyStr := [py "@liza-news:bots.liza.ru", py "@liza-news:liza.local"]

/-- `newsAudiencePlatforms`. -/
def newsAudiencePlatforms (content : Dict) : Option (List PyStr) :=
  match Dict.get content audienceKey with
  | .obj audience =>
      match Dict.get audience "platforms" with
      | .arr platforms =>
          match platforms.filterMap asStr with
          | [] => none
          | result => some result
      | _ => none
  | _ => none

/-- `newsAudienceAllows`. -/
def newsAudienceAllows (platforms : Option (List PyStr)) (platform : Option PyStr) : Bool :=
  match platforms with
  | none => true
  | some platforms => platform.any fun p => p ∈ platforms

/-- `isHiddenByNewsAudience`, of an event with this sender and content on a client whose
`currentNewsPlatform` is given. -/
def isHiddenByNewsAudience (senderId : PyStr) (content : Dict) (currentNewsPlatform : Option PyStr) :
    Bool :=
  if senderId ∈ newsBotMxids then
    !newsAudienceAllows (newsAudiencePlatforms content) currentNewsPlatform
  else false

/-! ### The names of a label -/

/-- The strings of the list of platforms; none where there is no list. -/
def audienceNames (content : Dict) : List PyStr :=
  match Dict.get content audienceKey with
  | .obj audience =>
      match Dict.get audience "platforms" with
      | .arr raw => raw.filterMap asStr
      | _ => []
  | _ => []

/-- **The client hides a post whose names are not its platform's.** -/
theorem isHidden_iff {senderId p : PyStr} {content : Dict} :
    isHiddenByNewsAudience senderId content (some p) = true ↔
      senderId ∈ newsBotMxids ∧ audienceNames content ≠ [] ∧ p ∉ audienceNames content := by
  have hplatforms : newsAudiencePlatforms content =
      if audienceNames content = [] then none else some (audienceNames content) := by
    unfold newsAudiencePlatforms audienceNames
    split
    · split
      · split
        · rename_i hnil
          simp [hnil]
        · rename_i hne
          rw [if_neg hne]
      · rfl
    · rfl
  unfold isHiddenByNewsAudience
  rw [hplatforms]
  by_cases hsender : senderId ∈ newsBotMxids
  · rw [if_pos hsender]
    by_cases hnil : audienceNames content = []
    · simp [hnil, newsAudienceAllows]
    · simp [hnil, hsender, newsAudienceAllows]
  · simp [hsender]

variable (F : CaseFolding)

/-- The platforms that the gateway finds among the names. -/
def loweredNames (content : Dict) : List PyStr :=
  ((audienceNames content).map F.lower).filter fun p => p ∈ platforms

theorem audiencePlatforms_eq {n : Notification} {senderId : PyStr} {content : Dict}
    (hsender : n.sender = .str senderId) (hcontent : n.content = .obj content) :
    audiencePlatforms F n = .ok (if senderId ∈ newsSenders ∧ loweredNames F content ≠ [] then
      some (loweredNames F content) else none) := by
  have hlabel : (match Dict.get content audienceKey with
      | .obj audience =>
          match Dict.get audience "platforms" with
          | .arr raw => .ok (knownPlatforms F raw)
          | _ => .ok none
      | _ => .ok none : Py SygnalExn (Option (List PyStr))) =
        .ok (if loweredNames F content ≠ [] then some (loweredNames F content) else none) := by
    unfold loweredNames audienceNames
    cases Dict.get content audienceKey with
    | obj audience =>
        cases hlist : Dict.get audience "platforms" with
        | arr raw =>
            simp only [hlist, knownPlatforms]
            split
            · rename_i hnil
              rw [hnil]
              rfl
            · rename_i hne
              rw [if_pos hne]
        | _ =>
            simp only [hlist]
            rfl
    | _ => rfl
  unfold audiencePlatforms
  rw [hsender, hcontent]
  by_cases hnews : senderId ∈ newsSenders
  · simp only [isNewsSender, hnews, decide_true, Py.ok_bind, if_true, true_and]
    exact hlabel
  · simp [isNewsSender, hnews]

/-- **The gateway skips a device whose platform is none of the known names in lower case.** -/
theorem shouldSkip_eq {n : Notification} {device : Device} {senderId p : PyStr} {content : Dict}
    (hsender : n.sender = .str senderId) (hcontent : n.content = .obj content)
    (hplatform : devicePlatform F device = some p) (hp : p ∈ platforms) :
    shouldSkip F n device = .ok (if senderId ∈ newsSenders ∧ loweredNames F content ≠ [] ∧
      p ∉ loweredNames F content then some p else none) := by
  have hne : p ≠ appleUnknown := by
    rintro rfl
    exact absurd hp (by decide)
  unfold shouldSkip
  rw [audiencePlatforms_eq F hsender hcontent, Py.ok_bind]
  by_cases hlabel : senderId ∈ newsSenders ∧ loweredNames F content ≠ []
  · rw [if_pos hlabel]
    simp only [hplatform, skipFor, if_neg hne]
    by_cases hmem : p ∈ loweredNames F content
    · simp [hmem]
    · simp [hmem, hlabel]
  · rw [if_neg hlabel, if_neg fun h => hlabel ⟨h.1, h.2.1⟩]

/-! ### When they agree -/

/-- The gateway and a client on `p` read the label of a post alike: it is no post of a news bot,
or has no names, or names `p` as it is; or it is a post of the bot that the gateway knows, no name
is `p` in other letter case, and some name is a platform. -/
def ReadAlike (senderId : PyStr) (content : Dict) (p : PyStr) : Prop :=
  senderId ∉ newsBotMxids ∨ audienceNames content = [] ∨ p ∈ audienceNames content ∨
    senderId ∈ newsSenders ∧ (∀ name ∈ audienceNames content, F.lower name ≠ p) ∧
      ∃ name ∈ audienceNames content, F.lower name ∈ platforms

theorem lower_platform {p : PyStr} (hp : p ∈ platforms) : F.lower p = p := by
  have hall : ∀ p ∈ platforms, (p.all fun c => c.val < 128) = true ∧ p.map lowerAscii = p := by
    decide
  have hascii : ∀ c ∈ p, c.val < 128 := by
    simpa using List.all_eq_true.1 (hall p hp).1
  rw [F.ascii p hascii, (hall p hp).2]

theorem mem_loweredNames {p : PyStr} {content : Dict} :
    p ∈ loweredNames F content ↔ p ∈ platforms ∧ ∃ name ∈ audienceNames content, F.lower name = p := by
  simp [loweredNames, and_comm]

theorem loweredNames_ne_nil {content : Dict} :
    loweredNames F content ≠ [] ↔ ∃ name ∈ audienceNames content, F.lower name ∈ platforms := by
  simp [loweredNames, List.filter_eq_nil_iff]

/-- **The gateway and the client agree exactly when they read the label alike.**  The gateway
skips a device on a known platform, if and only if the client there hides the post. -/
theorem push_agrees_iff {n : Notification} {device : Device} {senderId p : PyStr} {content : Dict}
    (hsender : n.sender = .str senderId) (hcontent : n.content = .obj content)
    (hplatform : devicePlatform F device = some p) (hp : p ∈ platforms) :
    (∃ skipped, shouldSkip F n device = .ok skipped ∧
        (skipped.isSome = true ↔ isHiddenByNewsAudience senderId content (some p) = true)) ↔
      ReadAlike F senderId content p := by
  have hlower := lower_platform F hp
  have hskip : ∀ skipped, shouldSkip F n device = .ok skipped → (skipped.isSome = true ↔
      senderId ∈ newsSenders ∧ loweredNames F content ≠ [] ∧ p ∉ loweredNames F content) := by
    intro skipped heq
    rw [shouldSkip_eq F hsender hcontent hplatform hp] at heq
    obtain rfl := Except.ok.inj heq
    split
    · rename_i hskips
      simp [hskips]
    · rename_i hskips
      simp only [Option.isSome_none, Bool.false_eq_true, false_iff]
      exact hskips
  have hbots : senderId ∈ newsSenders → senderId ∈ newsBotMxids := by
    intro hmem
    rw [List.mem_singleton.1 hmem]
    exact List.mem_cons_self
  have hiff : (∃ skipped, shouldSkip F n device = .ok skipped ∧
        (skipped.isSome = true ↔ isHiddenByNewsAudience senderId content (some p) = true)) ↔
      (senderId ∈ newsSenders ∧ loweredNames F content ≠ [] ∧ p ∉ loweredNames F content ↔
        senderId ∈ newsBotMxids ∧ audienceNames content ≠ [] ∧ p ∉ audienceNames content) := by
    rw [← isHidden_iff]
    constructor
    · rintro ⟨skipped, heq, hagree⟩
      rw [← hskip skipped heq, hagree]
    · intro hagree
      refine ⟨_, shouldSkip_eq F hsender hcontent hplatform hp, ?_⟩
      rw [hskip _ (shouldSkip_eq F hsender hcontent hplatform hp), hagree]
  rw [hiff, loweredNames_ne_nil, mem_loweredNames]
  unfold ReadAlike
  by_cases hnews : senderId ∈ newsBotMxids
  · by_cases hmem : p ∈ audienceNames content
    · -- The client shows the post, and the gateway finds the name too.
      have hfound : p ∈ platforms ∧ ∃ name ∈ audienceNames content, F.lower name = p :=
        ⟨hp, p, hmem, hlower⟩
      simp [hmem, hfound]
    · by_cases hnil : audienceNames content = []
      · simp [hnil]
      · simp only [hnews, hnil, hmem, hp, true_and, not_true_eq_false, false_or, ne_eq,
          not_false_eq_true, and_true, iff_true]
        push Not
        exact ⟨fun h => ⟨h.1, h.2.2, h.2.1⟩, fun h => ⟨h.1, h.2.2, h.2.1⟩⟩
  · have hother : senderId ∉ newsSenders := fun hmem => hnews (hbots hmem)
    simp [hnews, hother]

/-- The content of a post for the given names. -/
def newsContent (names : List Json) : Dict :=
  [("body", .str "Новость"), (audienceKey, .obj [("platforms", .arr names)])]

/-- The notification of such a post. -/
def newsNotification (names : List Json) : Notification where
  roomName := .null
  roomAlias := .null
  prio := .null
  membership := .null
  senderDisplayName := .null
  content := .obj (newsContent names)
  eventId := .str "$post"
  roomId := .str "!news:bots.liza.ru"
  userIsTarget := .null
  type := .str "m.room.message"
  sender := .str "@liza-news:bots.liza.ru"
  counts := ⟨none, none⟩
  devices := []

/-- A device that names its platform. -/
def deviceOn (platform : PyStr) : Device where
  appId := "ru.liza.app"
  pushkey := "key"
  pushkeyTs := .int 0
  data := some [("default_payload", .obj [("platform", .str platform)])]
  tweaks := ⟨none⟩

/-- A post for iPhones: no push on Android, where it is hidden. -/
theorem push_agrees_on_android :
    ∃ skipped, shouldSkip asciiFolding (newsNotification [.str "ios"]) (deviceOn "android") =
        .ok skipped ∧
      (skipped.isSome = true ↔ isHiddenByNewsAudience "@liza-news:bots.liza.ru"
        (newsContent [.str "ios"]) (some (py "android")) = true) := by
  refine (push_agrees_iff asciiFolding rfl rfl (by decide) (by decide)).2 ?_
  exact .inr (.inr (.inr ⟨by decide, by decide, by decide⟩))

/-- A post for `iOS` is pushed to an iPhone, which hides it; so is one for `windows`. -/
theorem push_for_hidden_post :
    devicePlatform asciiFolding (deviceOn "ios") = some (py "ios") ∧
      shouldSkip asciiFolding (newsNotification [.str "iOS"]) (deviceOn "ios") = .ok none ∧
      isHiddenByNewsAudience "@liza-news:bots.liza.ru" (newsContent [.str "iOS"])
        (some (py "ios")) = true ∧
      shouldSkip asciiFolding (newsNotification [.str "windows"]) (deviceOn "ios") = .ok none ∧
      isHiddenByNewsAudience "@liza-news:bots.liza.ru" (newsContent [.str "windows"])
        (some (py "ios")) = true := by
  refine ⟨by decide, ?_, by decide, ?_, by decide⟩
  · rfl
  · rfl

end Client
end Liza
