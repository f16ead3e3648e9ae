/-
# Whose device it is

Both tables of the gate are keyed by the device id alone, and a device id is unique
for a user only: the client chooses it at login.  The servlet lets a device set its
own row only, but compares device ids, so two users with one device id write each
other's row, and the sync of one consumes the marker of the other.

As long as no two users have a device id in common, a request of one user leaves the
row and the marker of every other user's devices alone, in every interleaving of
requests, and with them what `device_passed_gate` says at that moment: the cache of
the thresholds is shared by all, but a refresh of it is not observed by anybody who
could have asked the version gate himself (`getMinBuild_again`).
-/

import Liza.SyncGate.Module

set_option autoImplicit false

namespace Liza
namespace SyncGate

open Lib Synapse
open Lib.Task (Obeys)

/-- The device whose row or marker an operation writes. -/
def Op.writes : Op → Option DeviceId
  | .upsertCapability device _ _ _ => some device
  | .mark device => some device
  | .consume device => some device
  | _ => none

/-! ### A request writes to the device of its access token only -/

/-- The task writes to the device `token` only. -/
def WritesOwn {α : Type} (token : Option DeviceId) (t : Code α) : Prop :=
  ∀ h, Obeys (fun _ _ => True) (fun _ op => ∀ d, op.writes = some d → token = some d)
    (fun _ _ => True) h t

section Code

variable {cfg : Config} {token : Option DeviceId} {α β : Type}

theorem WritesOwn.ret (a : α) : WritesOwn token (.ret a) := fun _ => trivial

theorem WritesOwn.raised : WritesOwn token (.raised : Code α) := fun _ => trivial

theorem WritesOwn.call {op : Op} (hop : ∀ d, op.writes = some d → token = some d) :
    WritesOwn token (call op) :=
  fun _ => Obeys.call hop fun _ _ => trivial

theorem WritesOwn.bind {t : Code α} {f : α → Code β} (ht : WritesOwn token t)
    (hf : ∀ a, WritesOwn token (f a)) : WritesOwn token (t >>= f) :=
  fun h => (ht h).bind (fun h a _ => hf a h) fun _ _ => trivial

/-- An operation that writes nothing. -/
theorem WritesOwn.read {op : Op} (hop : op.writes = none) : WritesOwn token (SyncGate.call op) := by
  refine .call fun d hd => ?_
  rw [hop] at hd
  cases hd

theorem writesOwn_devicePassedGate (device : DeviceId) :
    WritesOwn token (devicePassedGate cfg device) := by
  unfold devicePassedGate
  split
  · exact .ret _
  · refine (WritesOwn.read rfl).bind fun capability => ?_
    split
    · exact .ret _
    · refine (WritesOwn.read rfl).bind fun minBuild => ?_
      split
      · exact .ret _
      · split
        · exact .raised
        · exact .ret _

theorem writesOwn_onPut (user : UserId) (device : DeviceId) (body : Dict) :
    WritesOwn token (onPut cfg user token device body) := by
  unfold onPut
  split
  · exact .ret _
  · rename_i htoken
    have hown : ∀ op : Op, op.writes = some device → ∀ d, op.writes = some d → token = some d := by
      intro op hop d hd
      rw [← hd, hop]
      exact of_not_not htoken
    split
    · exact .ret _
    · split
      · exact .ret _
      · refine (WritesOwn.call (hown _ rfl)).bind fun increased => ?_
        split
        · refine (writesOwn_devicePassedGate _).bind fun passed => ?_
          split
          · exact (WritesOwn.call (hown _ rfl)).bind fun _ => .ret _
          · exact .ret _
        · exact .ret _

theorem writesOwn_syncGate (user : UserId) (since : Bool) :
    WritesOwn token (syncGate cfg user token since) := by
  refine WritesOwn.bind ?_ fun excluded => WritesOwn.bind ?_ fun forced => .ret _
  · unfold excludedHidden
    split
    · refine WritesOwn.bind ?_ fun passed => ?_
      · unfold passedGate
        split
        · exact writesOwn_devicePassedGate _
        · exact .ret _
      · split
        · exact .ret _
        · exact .read rfl
    · exact .ret _
  · unfold forcedNewlyJoined
    split
    · refine (WritesOwn.call fun d hd => hd).bind fun consumed => ?_
      split
      · exact .read rfl
      · exact .ret _
    · exact .ret _

/-- **Every request writes to its own device only.** -/
theorem writesOwn_code (job : Job) : WritesOwn job.device (code cfg job) := by
  cases job with
  | put user token device body =>
      exact (writesOwn_onPut user device body).bind fun _ => .ret _
  | sync user device since =>
      exact (writesOwn_syncGate user since).bind fun _ => .ret _

/-- The law of the requests: each writes to its own device only. -/
def ownWrites : System.Law World Ev Job Op Res where
  I := fun _ => True
  J := fun _ _ _ => True
  A := fun _ _ => True
  P := fun job _ op => ∀ d, op.writes = some d → job.device = some d

theorem ownWrites_keeps (cfg : Config) : (system cfg).Keeps (fun _ _ => True) ownWrites where
  code := fun _ _ job _ => writesOwn_code job []
  later := fun _ _ _ _ _ _ => trivial
  event := fun _ _ _ _ => ⟨trivial, fun _ _ => trivial⟩
  op := fun _ _ _ _ _ _ _ _ _ _ _ => ⟨trivial, trivial, fun _ _ => trivial⟩

end Code

/-! ### What an operation leaves alone -/

section Frame

variable {cfg : Config} {env : Env} {w w' : World} {device : DeviceId}

/-- The gate of a device is decided by its row and by the thresholds. -/
theorem passedGate_congr (hrow : w'.capabilities device = w.capabilities device)
    (hmin : ∀ platform,
      (getMinBuild (cfg.baseUrl.getD []) cfg.ttlSeconds env w'.thresholds platform).2 =
        (getMinBuild (cfg.baseUrl.getD []) cfg.ttlSeconds env w.thresholds platform).2) :
    w'.passedGate cfg env device = w.passedGate cfg env device := by
  unfold World.passedGate devicePassedGate
  split
  · rfl
  · by_cases hraises : env.raises = true
    · simp [Task.call, Task.eval, perform, hraises]
    · simp only [Task.call, Task.await_bind, Task.eval, perform, hraises, complete,
        getCapability, hrow]
      cases w.capabilities device with
      | none => rfl
      | some row =>
          simp only [Bool.false_eq_true, if_false, Option.map_some, Task.ret_bind,
            Task.eval, perform, hraises, complete, hmin]
          cases (getMinBuild (cfg.baseUrl.getD []) cfg.ttlSeconds env w.thresholds row.platform).2
          · rfl
          · simp only [Task.ret_bind]
            split
            · rfl
            · split <;> rfl

/-- An operation that does not write to a device leaves its row and its marker. -/
theorem perform_rows {op : Op} (hop : op.writes ≠ some device) :
    (perform cfg env w op).1.capabilities device = w.capabilities device ∧
      (perform cfg env w op).1.forced device = w.forced device := by
  unfold perform
  split
  · exact ⟨rfl, rfl⟩
  · cases op with
    | upsertCapability d user platform build =>
        have hne : device ≠ d := fun h => hop (by rw [h]; rfl)
        exact ⟨Function.update_of_ne hne _ _, rfl⟩
    | mark d =>
        have hne : device ≠ d := fun h => hop (by rw [h]; rfl)
        exact ⟨rfl, Function.update_of_ne hne _ _⟩
    | consume d =>
        have hne : device ≠ d := fun h => hop (by rw [h]; rfl)
        exact ⟨rfl, Function.update_of_ne hne _ _⟩
    | getCapability d => exact ⟨rfl, rfl⟩
    | getMinBuild platform => exact ⟨rfl, rfl⟩
    | getHiddenRoomIdsForUser user => exact ⟨rfl, rfl⟩

/-- At the moment it completes, an operation does not change what the version gate
would answer. -/
theorem perform_minBuild (op : Op) (platform : PyStr) :
    (getMinBuild (cfg.baseUrl.getD []) cfg.ttlSeconds env (perform cfg env w op).1.thresholds
      platform).2 =
    (getMinBuild (cfg.baseUrl.getD []) cfg.ttlSeconds env w.thresholds platform).2 := by
  unfold perform
  split
  · rfl
  · cases op with
    | getMinBuild p => exact getMinBuild_again _ _ _ _ _ _
    | upsertCapability d user platform build => rfl
    | getCapability d => rfl
    | mark d => rfl
    | consume d => rfl
    | getHiddenRoomIdsForUser user => rfl

end Frame

/-! ### Runs in which no device id is shared -/

/-- No two users have a device id in common. -/
def OneOwner (devices : List (UserId × DeviceId)) : Prop :=
  ∀ u v d, (u, d) ∈ devices → (v, d) ∈ devices → u = v

/-- No user logs in with a device id that another user has. -/
def OwnDeviceId (s : State) : Act → Prop
  | .event (.login user device) => ∀ p ∈ s.world.devices, p.2 = device → p.1 = user
  | _ => True

instance (s : State) : (a : Act) → Decidable (OwnDeviceId s a)
  | .event (.login user device) =>
      inferInstanceAs (Decidable (∀ p ∈ s.world.devices, p.2 = device → p.1 = user))
  | .event (.request _) => .isTrue trivial
  | .event (.persisted _) => .isTrue trivial
  | .step _ _ => .isTrue trivial

/-- The user whose login or request a move belongs to. -/
def actor (s : State) : Act → Option UserId
  | .event (.login user _) => some user
  | .event (.request job) => some job.user
  | .event (.persisted _) => none
  | .step i _ => s.threads[i]?.map fun t => t.job.user

/-- The moment a move takes place in: that of the await it completes. -/
def At (env : Env) : Act → Prop
  | .event _ => True
  | .step _ env' => env' = env

/-- What holds of every state: the device ids have one owner, and every request that
runs came with an access token of its user. -/
structure Owned (s : State) : Prop where
  oneOwner : OneOwner s.world.devices
  accepted : ∀ t ∈ s.threads, s.world.accepts t.job = true

section Runs

variable {cfg : Config} {w : World} {s t : State} {a : Act} {as : List Act} {user : UserId}
  {device : DeviceId}

/-- The devices of the users only grow. -/
theorem accepts_of_subset {w w' : World} {job : Job} (hsub : w.devices ⊆ w'.devices)
    (h : w.accepts job = true) : w'.accepts job = true := by
  unfold World.accepts at h ⊢
  split
  · rfl
  · rename_i d hd
    rw [hd] at h
    exact decide_eq_true (hsub (of_decide_eq_true h))

theorem perform_devices (env : Env) (w : World) (op : Op) :
    (perform cfg env w op).1.devices = w.devices := by
  unfold perform
  split
  · rfl
  · cases op <;> rfl

/-- A device once logged in stays a device of its user. -/
theorem devices_step {p : UserId × DeviceId} (h : (system cfg).step s a = some t)
    (hp : p ∈ s.world.devices) : p ∈ t.world.devices := by
  rcases System.step_cases h with ⟨e, rfl, rfl⟩ | ⟨i, env, o, job, op, k, rfl, hi, rfl⟩
  · cases e with
    | login u d => exact List.mem_cons_of_mem _ hp
    | request job => exact hp
    | persisted event => exact hp
  · change p ∈ (perform cfg env s.world op).1.devices
    rw [perform_devices]
    exact hp

/-- One allowed move keeps the owners. -/
theorem owned_step (hs : Owned s) (hc : OwnDeviceId s a)
    (h : (system cfg).step s a = some t) : Owned t := by
  rcases System.step_cases h with ⟨e, rfl, rfl⟩ | ⟨i, env, o, job, op, k, rfl, hi, rfl⟩
  · cases e with
    | login u d =>
        refine ⟨fun x y c hx hy => ?_, fun v hv => ?_⟩
        · -- the new pair meets the old ones at its own device id only
          rcases List.mem_cons.1 hx with hx' | hx' <;> rcases List.mem_cons.1 hy with hy' | hy'
          · exact (Prod.mk.inj hx').1.trans (Prod.mk.inj hy').1.symm
          · obtain ⟨rfl, rfl⟩ := Prod.mk.inj hx'
            exact (hc (y, c) hy' rfl).symm
          · obtain ⟨rfl, rfl⟩ := Prod.mk.inj hy'
            exact hc (x, c) hx' rfl
          · exact hs.oneOwner x y c hx' hy'
        · have hv' : v ∈ s.threads := by
            rcases List.mem_append.1 hv with hv | hv
            · exact hv
            · cases hv
          exact accepts_of_subset (fun p hp => List.mem_cons_of_mem _ hp) (hs.accepted v hv')
    | request job =>
        refine ⟨hs.oneOwner, fun v hv => ?_⟩
        rcases List.mem_append.1 hv with hv | hv
        · exact hs.accepted v hv
        · obtain ⟨j, hj, rfl⟩ := System.mem_fork hv
          change j ∈ (if s.world.accepts job = true then [job] else []) at hj
          split at hj
          · rename_i hacc
            obtain rfl := List.mem_singleton.1 hj
            exact hacc
          · cases hj
    | persisted event =>
        refine ⟨hs.oneOwner, fun v hv => ?_⟩
        rcases List.mem_append.1 hv with hv | hv
        · exact hs.accepted v hv
        · cases hv
  · have hdev : (perform cfg env s.world op).1.devices = s.world.devices :=
      perform_devices env s.world op
    have hjob := hs.accepted _ (List.mem_of_getElem? hi)
    refine ⟨?_, fun v hv => ?_⟩
    · change OneOwner (perform cfg env s.world op).1.devices
      rw [hdev]
      exact hs.oneOwner
    · have hsub : s.world.devices ⊆ (perform cfg env s.world op).1.devices := by rw [hdev]; simp
      refine accepts_of_subset hsub ?_
      rcases List.mem_append.1 hv with hv | hv
      · rcases List.mem_or_eq_of_mem_set hv with hv | rfl
        · exact hs.accepted v hv
        · exact hjob
      · cases hv

/-- One move of another user leaves the row, the marker and the gate of a device. -/
theorem unaffected_step (hs : Owned s) (hlaw : System.Lawful ownWrites s)
    (hdevice : (user, device) ∈ s.world.devices) (ha : actor s a ≠ some user)
    (h : (system cfg).step s a = some t) :
    t.world.capabilities device = s.world.capabilities device ∧
      t.world.forced device = s.world.forced device ∧
      ∀ env, At env a →
        t.world.passedGate cfg env device = s.world.passedGate cfg env device := by
  rcases System.step_cases h with ⟨e, rfl, rfl⟩ | ⟨i, env, o, job, op, k, rfl, hi, rfl⟩
  · cases e with
    | login u d => exact ⟨rfl, rfl, fun env _ => passedGate_congr rfl fun _ => rfl⟩
    | request job => exact ⟨rfl, rfl, fun env _ => rfl⟩
    | persisted event => exact ⟨rfl, rfl, fun env _ => passedGate_congr rfl fun _ => rfl⟩
  · have hown : ∀ d, op.writes = some d → job.device = some d := (hlaw.threads i _ hi).1
    have hacc := hs.accepted _ (List.mem_of_getElem? hi)
    have huser : job.user ≠ user := by
      intro heq
      apply ha
      rw [actor, hi, ← heq]
      rfl
    have hop : op.writes ≠ some device := by
      intro hwrites
      have hjob : (job.user, device) ∈ s.world.devices := by
        simpa [World.accepts, hown device hwrites] using hacc
      exact huser (hs.oneOwner _ _ _ hjob hdevice)
    refine ⟨(perform_rows hop).1, (perform_rows hop).2, fun env' henv => ?_⟩
    obtain rfl : env = env' := henv
    exact passedGate_congr (perform_rows hop).1 fun platform => perform_minBuild op platform

theorem owned_run (hw : OneOwner w.devices)
    (h : Exec (system cfg).step OwnDeviceId (start w) as s) :
    Owned s ∧ System.Lawful ownWrites s := by
  refine ⟨?_, ?_⟩
  · refine h.invariant (I := Owned) ⟨hw, ?_⟩ fun _ _ _ hs hc hstep => owned_step hs hc hstep
    intro v hv
    cases hv
  · exact (ownWrites_keeps cfg).lawful (System.lawful_start trivial)
      (h.mono fun _ _ _ => trivial)

/-- **A device that is one user's own is touched by that user's requests only.**  In
every run in which no user logs in with a device id that another user has, a move of
another user leaves the capabilities of the device, its marker, and what
`device_passed_gate` says of it at that moment; and over any number of such moves the
capabilities and the marker stay what they were. -/
theorem device_is_its_users_own (hw : OneOwner w.devices)
    (h : Exec (system cfg).step OwnDeviceId (start w) as s)
    (hdevice : (user, device) ∈ s.world.devices) :
    (∀ a t, (system cfg).step s a = some t → actor s a ≠ some user →
      t.world.forced device = s.world.forced device ∧
      ∀ env, At env a →
        t.world.passedGate cfg env device = s.world.passedGate cfg env device) ∧
    ∀ bs t, Exec (system cfg).step (fun s a => OwnDeviceId s a ∧ actor s a ≠ some user) s bs t →
      t.world.forced device = s.world.forced device ∧
        t.world.capabilities device = s.world.capabilities device := by
  obtain ⟨hs, hlaw⟩ := owned_run hw h
  refine ⟨fun a t hstep ha => (unaffected_step hs hlaw hdevice ha hstep).2, fun bs t hrun => ?_⟩
  -- the device stays the user's, so that the step lemma applies again
  have hinv : (Owned t ∧ System.Lawful ownWrites t) ∧ (user, device) ∈ t.world.devices ∧
      t.world.forced device = s.world.forced device ∧
      t.world.capabilities device = s.world.capabilities device := by
    refine hrun.invariant
      (I := fun u => (Owned u ∧ System.Lawful ownWrites u) ∧ (user, device) ∈ u.world.devices ∧
        u.world.forced device = s.world.forced device ∧
        u.world.capabilities device = s.world.capabilities device)
      ⟨⟨hs, hlaw⟩, hdevice, rfl, rfl⟩ ?_
    rintro u a v ⟨⟨hu, hul⟩, hud, huf, huc⟩ ⟨hc, ha⟩ hstep
    obtain ⟨hrow, hmarker, -⟩ := unaffected_step hu hul hud ha hstep
    refine ⟨⟨owned_step hu hc hstep, (ownWrites_keeps cfg).lawful_step hul trivial hstep⟩,
      devices_step hstep hud, hmarker.trans huf, hrow.trans huc⟩
  exact hinv.2.2

end Runs

/-! ### Two users with one device id -/

/-- The gate is on, and the version gate asks for build 50. -/
def gateConfig : Config := ⟨true, some "https://gate", 300, fun _ _ => false⟩

/-- A moment at which the version gate answers. -/
def answering : Env := ⟨0, fun _ => .obj [("min_stories_build", .int 50)], false⟩

/-- Nobody has logged in. -/
def emptyWorld : World where
  devices := []
  capabilities := fun _ => none
  forced := fun _ => false
  thresholds := ⟨fun _ => .null, fun _ => none⟩
  rooms := ⟨[], fun _ _ _ => none, fun _ => []⟩
  hidden := fun _ => none

/-- A device tells its build. -/
def tells (user : UserId) (device : DeviceId) (build : ℤ) : Act :=
  .event (.request (.put user (some device) device [("platform", .str "web"),
    ("build", .int build)]))

/-- `@bob:h` passes the gate with the device `D`, and `@ann:h` tells the build of a
device `device` of hers, up to the point where it is written. -/
def twoDevices (device : DeviceId) : List Act :=
  [.event (.login "@bob:h" "D"), .event (.login "@ann:h" device), tells "@bob:h" "D" 100] ++
    List.replicate 4 (.step 0 answering : Act) ++ [tells "@ann:h" device 1]

/-- `@ann:h` syncs with her device instead, up to the point where the marker is consumed. -/
def twoSyncs (device : DeviceId) : List Act :=
  twoDevices device ++ [Move.event (Ev.request (.sync "@ann:h" (some device) true))] ++
    List.replicate 2 (.step 2 answering : Act)

/-- **The requests of one user reach another user's device:** after both have logged in
with the device id `D`, the build that `@ann:h` tells closes the gate of `@bob:h`, and
the sync of `@ann:h` consumes his marker. -/
theorem shared_device_interferes :
    (∃ s t, Exec (system gateConfig).step (fun _ _ => True) (start emptyWorld)
        (twoDevices "D") s ∧ (system gateConfig).step s (.step 1 answering) = some t ∧
      (py "@bob:h", py "D") ∈ s.world.devices ∧ actor s (.step 1 answering) = some (py "@ann:h") ∧
      s.world.passedGate gateConfig answering "D" = some true ∧
      t.world.passedGate gateConfig answering "D" = some false) ∧
    ∃ s t, Exec (system gateConfig).step (fun _ _ => True) (start emptyWorld)
        (twoSyncs "D") s ∧ (system gateConfig).step s (.step 2 answering) = some t ∧
      (py "@bob:h", py "D") ∈ s.world.devices ∧ actor s (.step 2 answering) = some (py "@ann:h") ∧
      s.world.forced "D" = true ∧ t.world.forced "D" = false :=
  ⟨exists_step_of_runs (by decide +kernel), exists_step_of_runs (by decide +kernel)⟩

/-- With a device id of her own, `@ann:h` leaves the gate and the marker of `@bob:h`. -/
theorem own_device_is_bobs_own :
    ∃ s t, Exec (system gateConfig).step OwnDeviceId (start emptyWorld) (twoDevices "E") s ∧
      (system gateConfig).step s (.step 1 answering) = some t ∧
      s.world.passedGate gateConfig answering "D" = some true ∧
      t.world.passedGate gateConfig answering "D" = some true ∧
      t.world.forced "D" = s.world.forced "D" := by
  obtain ⟨s, t, hs, hstep, hdevice, hactor, hgate⟩ := exists_step_of_runs
    (f := (system gateConfig).step) (C := OwnDeviceId) (s := start emptyWorld)
    (l := twoDevices "E") (a := .step 1 answering)
    (p := fun s _ => (py "@bob:h", py "D") ∈ s.world.devices ∧
      actor s (.step 1 answering) ≠ some (py "@bob:h") ∧
      s.world.passedGate gateConfig answering "D" = some true) (by decide +kernel)
  have hone : OneOwner emptyWorld.devices := by
    intro u v d hu
    cases hu
  obtain ⟨hmarker, hkept⟩ := (device_is_its_users_own hone hs hdevice).1 _ _ hstep hactor
  exact ⟨s, t, hs, hstep, hgate, (hkept answering rfl).trans hgate, hmarker⟩

end SyncGate
end Liza
