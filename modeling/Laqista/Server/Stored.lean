import Laqista.Deployment.Uploads
import Laqista.Server.Reload

/-! # The binaries that a server serves

The server of `LiveServer`, with its disk: the tasks of the database save what they have downloaded,
and `common_services` reads the binaries of its round. Each step is one of the server without a disk
(`live_step`).

`served_bytes`: in every run, what is served is called "face" and was asked for, and each of its
binaries is the one that is packed in the archive that was saved into the directory that is
served. -/

namespace Laqista

open Laqista.Proto Laqista.Lib Laqista.Lib.Runs Laqista.Lib.Tasks Laqista.DeploymentDatabase
  Lib.File

/-- A server with its disk, and the binaries that the round has read. -/
structure StoredServer where
  live : LiveServer
  disk : Disk
  onnx : List UInt8
  wasm : List UInt8

inductive StoredStep where
  /-- A step that does without the disk. -/
  | live (x : LiveStep)
  /-- The download of an `add_app` is answered, and saved at the time `now`. A save that fails is
  told by its message. -/
  | save (i : ℕ) (info : DeploymentInfo) (bin : Except String (List UInt8)) (now : DateTime)
      (faults : List (Option Fault)) (message : String)
  /-- The section of the next `get`, with the directories in the order of the listing. -/
  | get (listing : Listing)

/-- The step is on the disk. -/
def LiveStep.stores : LiveStep → Bool
  | get | database (.await _ (.saved _)) => true
  | _ => false

namespace StoredServer

variable [Archives] [Crates] (root : Path)

/-- `add_app` of the task `i` goes on with what it is told. -/
def told (s : StoredServer) (i : ℕ) (result : Except String SavedDeployment) (disk : Disk) :
    Option StoredServer :=
  (s.live.step root (.database (.await i (.saved result)))).map fun live =>
    { s with live := live, disk := disk }

/-- `get` ends with an error, and so does the service. -/
def fail (s : StoredServer) : Option StoredServer :=
  s.live.fail.map fun live => { s with live := live }

def step (s : StoredServer) : StoredStep → Option StoredServer
  | .live x =>
    if x.stores then none
    else (s.live.step root x).map fun live => { s with live := live }
  | .save i info bin now faults message =>
    match s.live.database.tasks[i]? with
    | some (.saveApp _ info') =>
      if info' = info then
        match bin with
        | .error e => s.told root i (.error e) s.disk
        | .ok tgz =>
          match save root info now tgz ⟨s.disk, faults⟩ with
          | .ok saved w => s.told root i (.ok saved) w.disk
          | .error _ w => s.told root i (.error message) w.disk
      else none
    | _ => none
  | .get listing =>
    match s.live.services with
    | .gettingOnnx deployment =>
      match get root s.live.database.shared s.disk listing deployment .onnx with
      | .ok onnx => (s.live.step root .get).map fun live => { s with live := live, onnx := onnx }
      | .error _ => s.fail
    | .gettingWasm deployment _ =>
      match get root s.live.database.shared s.disk listing deployment .wasm with
      | .ok wasm => (s.live.step root .get).map fun live => { s with live := live, wasm := wasm }
      | .error _ => s.fail
    | _ => none

end StoredServer

/-! ### Uploads -/

/-- The step asks for the application. -/
def StoredStep.Asks [Crates] (info : DeploymentInfo) : StoredStep → Prop
  | live (.database (.start (.spawn _ r))) => spawnInfo r = .ok info
  | live (.database (.start (.addApp asked))) => asked = info
  | _ => False

/-- The application that a task of `add_app` is for. -/
def DaemonTask.adds : DaemonTask → Option DeploymentInfo
  | findApp _ info | saveApp _ info | insertApp _ info _ => some info
  | _ => none

section Uploads

variable [Archives]

/-- The archive has one binary for the target, with these contents, and nothing else with its
word. -/
def Packs (tgz : List UInt8) (target : Target) (contents : List UInt8) : Prop :=
  ∃ es binary, entries tgz = .ok (es.map fun e => .ok e.entry) ∧ OneBinary target es binary ∧
    WordIsExtension target es ∧ binary.contents = contents

variable [Crates] (root : Path) (s₀ : StoredServer) (as : List StoredStep)

/-- One of the steps has saved the archive for the application, at this time. -/
def SavedDuring (info : DeploymentInfo) (tgz : List UInt8) (now : DateTime) : Prop :=
  ∃ pre i faults message s w, pre ++ [.save i info (.ok tgz) now faults message] <+: as ∧
    run (StoredServer.step root) s₀ pre = some s ∧
    save root info now tgz ⟨s.disk, faults⟩ = .ok ⟨now, sha256 tgz⟩ w

/-- The bytes are those of the binary in the archive that was saved for the application into this
directory. -/
def Uploaded (info : DeploymentInfo) (target : Target) (dir : Path) (bytes : List UInt8) : Prop :=
  ∃ tgz now, SavedDuring root s₀ as info tgz now ∧ dir = savePath root info ⟨now, sha256 tgz⟩ ∧
    ∀ contents, Packs tgz target contents → bytes = contents

/-- The directory of the version has the binaries of the archive that was saved into it. -/
def Standing (place : Place) (disk : Disk) (info : DeploymentInfo) (saved : SavedDeployment) :
    Prop :=
  ∃ tgz now, SavedDuring root s₀ as info tgz now ∧ saved = ⟨now, sha256 tgz⟩ ∧
    ∀ target contents, Packs tgz target contents →
      HoldsBinary disk (saved.dirName :: info.name :: place) target contents

end Uploads

/-! ### What the disk has -/

section Disk

variable [Archives] [Crates] {root : Path} {s₀ : StoredServer} {place : Place}
  {as : List StoredStep} {disk disk' : Disk} {info d : DeploymentInfo} {saved : SavedDeployment}

theorem Standing.mono (h : Standing root s₀ as place disk d saved)
    (hdisk : ∀ target contents,
      HoldsBinary disk (saved.dirName :: d.name :: place) target contents →
        HoldsBinary disk' (saved.dirName :: d.name :: place) target contents) :
    Standing root s₀ as place disk' d saved := by
  obtain ⟨tgz, now, hduring, hsaved, hholds⟩ := h
  exact ⟨tgz, now, hduring, hsaved, fun target contents hp => hdisk _ _ (hholds target contents hp)⟩

/-- A save into a new directory leaves the versions, at whatever step it fails. -/
theorem standing_save {now : DateTime} {tgz : List UInt8} (faults : List (Option Fault))
    (hroot : disk.DirAt (appRootDir root) place) (hname : Path.IsName info.name)
    (hfresh : disk.node
      ((SavedDeployment.mk now (sha256 tgz)).dirName :: info.name :: place) = none)
    (h : Standing root s₀ as place disk d saved) :
    Standing root s₀ as place (after (save root info now tgz) ⟨disk, faults⟩) d saved := by
  refine h.mono fun target contents hholds => hholds.of_sameInside
    (save_keepsDirs root info now tgz ⟨disk, faults⟩) (save_sameInside (w := ⟨disk, faults⟩) hroot
      hname (twoBelow_version place d saved) fun hsame => ?_)
  rw [hsame, hholds.dir] at hfresh
  cases hfresh

/-- A save that succeeds makes a version stand. -/
theorem standing_saved {now : DateTime} {tgz : List UInt8} {faults : List (Option Fault)}
    {w : World}
    (hroot : disk.DirAt (appRootDir root) place) (hname : Path.IsName info.name)
    (hfresh : disk.node
      ((SavedDeployment.mk now (sha256 tgz)).dirName :: info.name :: place) = none)
    (hduring : SavedDuring root s₀ as info tgz now)
    (hsave : save root info now tgz ⟨disk, faults⟩ = .ok saved w) :
    Standing root s₀ as place w.disk info saved := by
  have hsaved := (save_ok hsave).1
  refine ⟨tgz, now, hduring, hsaved, ?_⟩
  rintro target contents ⟨es, binary, hes, hone, hword, rfl⟩
  rw [← hsaved] at hfresh
  exact holdsBinary_save (w := ⟨disk, faults⟩) hroot hname hsave hfresh hes hone hword

end Disk

/-! ### What the database has -/

/-- What is added was asked for, and what was saved stands. -/
structure Accounted [Archives] [Crates] (root : Path) (s₀ : StoredServer) (as : List StoredStep)
    (place : Place) (db : Atomic Inner DaemonTask) (disk : Disk) : Prop where
  tasks : ∀ t ∈ db.tasks, ∀ info, t.adds = some info → ∃ a ∈ as, a.Asks info
  saved : ∀ call info saved, .insertApp call info saved ∈ db.tasks →
    Standing root s₀ as place disk info saved
  apps : ∀ id app, db.shared.apps.lookup id = some app →
    (∃ a ∈ as, a.Asks app.info) ∧
      ∀ saved ∈ app.deployments, Standing root s₀ as place disk app.info saved

section Database

theorem adds_of_body {inner : Inner} {t : DaemonTask} {w : DaemonTold}
    {o : Outcome Inner DaemonTask} (h : daemonBody inner t w = some o) :
    o.spawned = [] ∧ (∀ info, o.next.adds = some info → t.adds = some info) ∧
      ∀ call info saved, o.next ≠ .insertApp call info saved := by
  unfold daemonBody at h
  split at h
  · split at h
    · cases h
      exact ⟨rfl, fun info hi => hi, fun call info saved hn => (by cases hn)⟩
    · cases h
      exact ⟨rfl, fun info hi => (by cases hi), fun call info saved hn => (by cases hn)⟩
  all_goals
    cases h
    try exact ⟨rfl, fun info hi => (by cases hi), fun call info saved hn => (by cases hn)⟩

theorem adds_of_await {t t' : DaemonTask} {w : DaemonTold} (h : daemonAwait t w = some t') :
    (∀ info, t'.adds = some info → t.adds = some info) ∧
      ∀ call info saved, t' = .insertApp call info saved →
        t = .saveApp call info ∧ w = .saved (.ok saved) := by
  unfold daemonAwait at h
  split at h
  · cases h
    refine ⟨fun info hi => hi, fun call info saved ht => ?_⟩
    cases ht
    exact ⟨rfl, rfl⟩
  all_goals
    cases h
    try exact ⟨fun info hi => (by cases hi), fun call info saved ht => (by cases ht)⟩

variable [Archives] [Crates] {root : Path} {s₀ : StoredServer} {place : Place}
  {as : List StoredStep} {disk disk' : Disk} {db db' : Atomic Inner DaemonTask}
  {b : Act DaemonCall DaemonTold}

theorem Accounted.mono (h : Accounted root s₀ as place db disk)
    (hdisk : ∀ d saved, Standing root s₀ as place disk d saved →
      Standing root s₀ as place disk' d saved) :
    Accounted root s₀ as place db disk' where
  tasks := h.tasks
  saved call info saved ht := hdisk _ _ (h.saved call info saved ht)
  apps id app ha :=
    ⟨(h.apps id app ha).1, fun saved hs => hdisk _ _ ((h.apps id app ha).2 saved hs)⟩

/-- **A step of the database is accounted for**, if what it saves stands. -/
theorem accounted_astep (h : Accounted root s₀ as place db disk)
    (hids : ∀ a ∈ as, ∀ a' ∈ as, ∀ i j, a.Asks i → a'.Asks j → i.id = j.id → i = j)
    (hdisk : ∀ d saved, Standing root s₀ as place disk d saved →
      Standing root s₀ as place disk' d saved)
    (hstart : ∀ r, b = .start r → .live (.database (.start r)) ∈ as)
    (hsaved : ∀ i saved call info, b = .await i (.saved (.ok saved)) →
      db.tasks[i]? = some (.saveApp call info) → Standing root s₀ as place disk' info saved)
    (hstep : daemonTasks.astep db b = some db') : Accounted root s₀ as place db' disk' := by
  refine ⟨fun t ht info hadds => ?_, fun call info saved ht => ?_, fun id app ha => ?_⟩
  · obtain ⟨k, hk⟩ := List.mem_iff_getElem?.mp ht
    rcases TaskSystem.task_of_astep hstep hk with hold | ⟨r, rfl, -, hr⟩ |
      ⟨i, w, t₀, o, -, hi, ho, hnext⟩ | ⟨i, w, t₀, -, hi, hw⟩ | rfl
    · exact h.tasks t (List.mem_of_getElem? hold) info hadds
    · refine ⟨_, hstart r rfl, ?_⟩
      have hr' : daemonStart db.shared db.tasks r = some t := hr
      unfold daemonStart at hr'
      split at hr'
      · split at hr'
        · next hinfo =>
          cases hr'
          cases hadds
          exact hinfo
        · cases hr'
          cases hadds
      · cases hr'
        cases hadds
        rfl
    · obtain ⟨hspawned, hsame, -⟩ := adds_of_body ho
      rcases hnext with rfl | hnext
      · exact h.tasks t₀ (List.mem_of_getElem? hi) info (hsame info hadds)
      · rw [hspawned] at hnext
        cases hnext
    · exact h.tasks t₀ (List.mem_of_getElem? hi) info ((adds_of_await hw).1 info hadds)
    · cases hadds
  · obtain ⟨k, hk⟩ := List.mem_iff_getElem?.mp ht
    rcases TaskSystem.task_of_astep hstep hk with hold | ⟨r, -, -, hr⟩ |
      ⟨i, w, t₀, o, -, hi, ho, hnext⟩ | ⟨i, w, t₀, rfl, hi, hw⟩ | hhalt
    · exact hdisk _ _ (h.saved call info saved (List.mem_of_getElem? hold))
    · have hr' : daemonStart db.shared db.tasks r = some (.insertApp call info saved) := hr
      unfold daemonStart at hr'
      split at hr'
      · split at hr'
        all_goals cases hr'
      · cases hr'
    · obtain ⟨hspawned, -, hne⟩ := adds_of_body ho
      rcases hnext with hnext | hnext
      · exact absurd hnext.symm (hne _ _ _)
      · rw [hspawned] at hnext
        cases hnext
    · obtain ⟨rfl, rfl⟩ := (adds_of_await hw).2 _ _ _ rfl
      exact hsaved i saved call info rfl hi
    · cases hhalt
  · have hold : ∀ app, db.shared.apps.lookup id = some app → (∃ a ∈ as, a.Asks app.info) ∧
        ∀ saved ∈ app.deployments, Standing root s₀ as place disk' app.info saved := by
      intro app ha
      obtain ⟨hasks, hall⟩ := h.apps id app ha
      exact ⟨hasks, fun saved hs => hdisk _ _ (hall saved hs)⟩
    rcases apps_astep hstep with happs | ⟨i, w, call, info, saved, -, ht, hinsert, -⟩
    · rw [happs] at ha
      exact hold app ha
    · have hmem := List.mem_of_getElem? ht
      obtain ⟨a, hmema, hasks⟩ := h.tasks _ hmem info rfl
      have hnew := hdisk _ _ (h.saved call info saved hmem)
      rw [hinsert, lookup_insert] at ha
      split_ifs at ha with hid
      · cases ha
        rcases hl : db.shared.apps.lookup info.id with _ | app
        · refine ⟨⟨a, hmema, hasks⟩, fun v hv => ?_⟩
          rw [List.mem_singleton.mp hv]
          exact hnew
        · -- the id belongs to one application
          obtain ⟨⟨a', hmema', hasks'⟩, hall⟩ := hold app (by rw [hid]; exact hl)
          have hkey : app.info.id = info.id := db.shared.apps.keyed _ _ hl
          have hinfo : app.info = info := hids a' hmema' a hmema _ _ hasks' hasks hkey
          refine ⟨⟨a', hmema', hasks'⟩, fun v hv => ?_⟩
          rcases List.mem_append.mp hv with hv | hv
          · exact hall v hv
          · rw [List.mem_singleton.mp hv]
            show Standing root s₀ as place disk' app.info saved
            rw [hinfo]
            exact hnew
      · exact hold app ha

end Database

namespace StoredServer

variable [Archives] [Crates] {root : Path} {s s' : StoredServer} {a : StoredStep}

/-- **Each step is one of the server without a disk.** -/
theorem live_step (h : s.step root a = some s') : ∃ x, s.live.step root x = some s'.live := by
  have htold : ∀ {i result disk}, s.told root i result disk = some s' →
      ∃ x, s.live.step root x = some s'.live := by
    intro i result disk h
    obtain ⟨live, hlive, rfl⟩ := Option.map_eq_some_iff.mp h
    exact ⟨_, hlive⟩
  have hfail : s.fail = some s' → ∃ x, s.live.step root x = some s'.live := by
    intro h
    obtain ⟨live, hlive, rfl⟩ := Option.map_eq_some_iff.mp h
    exact ⟨.failed, hlive⟩
  cases a with
  | live x =>
    simp only [step] at h
    split_ifs at h
    obtain ⟨live, hlive, rfl⟩ := Option.map_eq_some_iff.mp h
    exact ⟨x, hlive⟩
  | save i info bin now faults message =>
    simp only [step] at h
    split at h
    · split_ifs at h
      split at h
      · exact htold h
      · split at h
        · exact htold h
        · exact htold h
    · cases h
  | get listing =>
    simp only [step] at h
    split at h
    · split at h
      · obtain ⟨live, hlive, rfl⟩ := Option.map_eq_some_iff.mp h
        exact ⟨_, hlive⟩
      · exact hfail h
    · split at h
      · obtain ⟨live, hlive, rfl⟩ := Option.map_eq_some_iff.mp h
        exact ⟨_, hlive⟩
      · exact hfail h
    · cases h

theorem paired_step (hs : s.live.services.Paired root s.live.database.shared)
    (h : s.step root a = some s') : s'.live.services.Paired root s'.live.database.shared := by
  obtain ⟨x, hx⟩ := live_step h
  exact LiveServer.paired_step hs hx

/-! ### What the round has read -/

/-- Each save is into a directory that was not there, and each listing is one of the disk. -/
def Orderly (place : Place) (s : StoredServer) : StoredStep → Prop
  | .save _ info (.ok tgz) now _ _ =>
    s.disk.node ((SavedDeployment.mk now (sha256 tgz)).dirName :: info.name :: place) = none
  | .get listing => s.disk.Lists listing
  | _ => True

instance decidableOrderly (place : Place) (s : StoredServer) :
    (a : StoredStep) → Decidable (s.Orderly place a)
  | .save _ info (.ok tgz) now _ _ => inferInstanceAs (Decidable
      (s.disk.node ((SavedDeployment.mk now (sha256 tgz)).dirName :: info.name :: place) = none))
  | .get listing => inferInstanceAs (Decidable (s.disk.Lists listing))
  | .save _ _ (.error _) _ _ _ | .live _ => isTrue trivial

/-- The binaries that the round has read were uploaded. -/
def Sourced (root : Path) (s₀ : StoredServer) (as : List StoredStep) (s : StoredServer) : Prop :=
  match s.live.services with
  | .gettingWasm deployment onnx => Uploaded root s₀ as deployment .onnx onnx s.onnx
  | .ready (some (deployment, onnx, wasm)) =>
    Uploaded root s₀ as deployment .onnx onnx s.onnx ∧
      Uploaded root s₀ as deployment .wasm wasm s.wasm
  | _ => True

/-- **What is kept.** -/
structure Kept (root : Path) (s₀ : StoredServer) (as : List StoredStep) (place : Place)
    (s : StoredServer) : Prop where
  rootDir : s.disk.DirAt (appRootDir root) place
  database : Accounted root s₀ as place s.live.database s.disk
  sourced : Sourced root s₀ as s

variable {s₀ : StoredServer} {place : Place} {as : List StoredStep}

omit [Archives] in
/-- Only a `get` leads to a binary. -/
theorem services_step {live live' : LiveServer} {x : LiveStep} (h : live.step root x = some live')
    (hx : x ≠ .get) : live'.services = live.services ∨
      (∀ d onnx, live'.services ≠ .gettingWasm d onnx) ∧
        ∀ app, live'.services ≠ .ready (some app) := by
  rcases LiveServer.step_cases h with ⟨hidle | hlooking, -, -⟩ |
    ⟨-, -, ⟨it, -, -, ⟨d, -, hnew⟩ | ⟨-, hnew⟩⟩ | ⟨d, dir, hget, -⟩⟩ |
    ⟨command, -, hsame, -⟩ | ⟨i, -, hsame, -⟩ | ⟨i, -, hsame, -⟩ | ⟨b, -, hsame, -⟩
  · rw [hidle]
    exact .inr ⟨nofun, nofun⟩
  · rw [hlooking]
    exact .inr ⟨nofun, nofun⟩
  · rw [hnew]
    exact .inr ⟨nofun, nofun⟩
  · rw [hnew]
    exact .inr ⟨nofun, nofun⟩
  · exact absurd hget hx
  · exact .inl hsame
  · exact .inl hsame
  · exact .inl hsame
  · exact .inl hsame

/-- A step that is no `get` leaves what the round has read. -/
theorem sourced_live {live : LiveServer} {x : LiveStep} {disk : Disk} (hs : Sourced root s₀ as s)
    (h : s.live.step root x = some live) (hx : x ≠ .get) :
    Sourced root s₀ as { s with live := live, disk := disk } := by
  unfold Sourced at hs ⊢
  dsimp only
  rcases services_step h hx with hsame | ⟨hwasm, hready⟩
  · rw [hsame]
    exact hs
  · split
    · next d onnx hservices => exact absurd hservices (hwasm d onnx)
    · next d onnx wasm hservices => exact absurd hservices (hready _)
    · trivial

omit [Archives] in
/-- The first `get` of a round leads to the second one, or the service has ended. -/
theorem getOnnx_services {live live' : LiveServer} {d : DeploymentInfo}
    (hservices : live.services = .gettingOnnx d) (h : live.step root .get = some live') :
    (∃ onnx, latestDir root live.database.shared d = .ok onnx ∧
      live'.services = .gettingWasm d onnx) ∨ live'.services = .idle := by
  simp only [LiveServer.step, hservices] at h
  split at h
  · next onnx hlatest =>
    cases h
    exact .inl ⟨onnx, hlatest, rfl⟩
  · obtain ⟨runner, -, rfl⟩ := Option.map_eq_some_iff.mp h
    exact .inr rfl

omit [Archives] in
theorem getWasm_services {live live' : LiveServer} {d : DeploymentInfo} {onnx : Path}
    (hservices : live.services = .gettingWasm d onnx) (h : live.step root .get = some live') :
    (∃ wasm, latestDir root live.database.shared d = .ok wasm ∧
      live'.services = .ready (some (d, onnx, wasm))) ∨ live'.services = .idle := by
  simp only [LiveServer.step, hservices] at h
  split at h
  · next wasm hlatest =>
    cases h
    exact .inl ⟨wasm, hlatest, rfl⟩
  · obtain ⟨runner, -, rfl⟩ := Option.map_eq_some_iff.mp h
    exact .inr rfl

/-- **What `get` returns was uploaded.** -/
theorem uploaded_of_get (hs : Kept root s₀ as place s) {deployment : DeploymentInfo}
    {app : SavedApplication} {listing : Listing} {target : Target} {bytes : List UInt8}
    {dir : Path} (happ : s.live.database.shared.apps.lookup deployment.id = some app)
    (hinfo : app.info = deployment)
    (hnames : ∀ a ∈ as, ∀ info, a.Asks info → Path.IsName info.name) (hl : s.disk.Lists listing)
    (hlatest : latestDir root s.live.database.shared deployment = .ok dir)
    (hget : DeploymentDatabase.get root s.live.database.shared s.disk listing deployment target =
      .ok bytes) : Uploaded root s₀ as deployment target dir bytes := by
  obtain ⟨version, hversion, hdir⟩ := latestDir_eq_ok happ hlatest
  rw [hdir] at hlatest
  obtain ⟨⟨a, ha, hasks⟩, hall⟩ := hs.database.apps _ _ happ
  have hstanding := hall version (List.mem_of_getElem? hversion)
  rw [hinfo] at hasks hstanding
  obtain ⟨tgz, now, hduring, hsaved, hholds⟩ := hstanding
  refine ⟨tgz, now, hduring, ?_, fun contents hpacks => ?_⟩
  · rw [hdir, hsaved]
    rfl
  have hread := (hholds target contents hpacks).get hs.rootDir (hnames a ha _ hasks)
    hlatest hl
  exact Except.ok.inj (hget.symm.trans hread)

/-- Each id is of one application in all of the requests. -/
def OneInfoEach (as : List StoredStep) : Prop :=
  ∀ a ∈ as, ∀ b ∈ as, ∀ i j, a.Asks i → b.Asks j → i.id = j.id → i = j

/-- What a step of the server without a disk is for the disk and the database. -/
theorem database_live (disk : Disk) {live : LiveServer} {x : LiveStep}
    (hs : Kept root s₀ as place s) (hids : OneInfoEach as) (h : s.live.step root x = some live)
    (hstart : ∀ r, x = .database (.start r) → .live (.database (.start r)) ∈ as)
    (hdisk : ∀ d saved, Standing root s₀ as place s.disk d saved →
      Standing root s₀ as place disk d saved)
    (hsaved : ∀ i saved call info, x = .database (.await i (.saved (.ok saved))) →
      s.live.database.tasks[i]? = some (.saveApp call info) →
      Standing root s₀ as place disk info saved) :
    Accounted root s₀ as place live.database disk := by
  rcases LiveServer.database_step h with hdb | ⟨b, hdb, rfl | ⟨i, result, rfl⟩⟩
  · rw [hdb]
    exact hs.database.mono hdisk
  · exact accounted_astep hs.database hids hdisk (fun r hr => hstart r (by rw [hr]))
      (fun i saved call info hb => hsaved i saved call info (by rw [hb])) hdb
  · exact accounted_astep hs.database hids hdisk (fun r hr => (by cases hr))
      (fun i saved call info hb => (by cases hb)) hdb

/-- A task of `add_app` goes on after its save. -/
theorem kept_told {i : ℕ} {result : Except String SavedDeployment} {disk : Disk}
    (hs : Kept root s₀ as place s) (hids : OneInfoEach as)
    (hroot : disk.DirAt (appRootDir root) place)
    (hdisk : ∀ d saved, Standing root s₀ as place s.disk d saved →
      Standing root s₀ as place disk d saved)
    (hsaved : ∀ saved call info, result = .ok saved →
      s.live.database.tasks[i]? = some (.saveApp call info) →
      Standing root s₀ as place disk info saved)
    (h : s.told root i result disk = some s') : Kept root s₀ as place s' := by
  obtain ⟨live, hlive, rfl⟩ := Option.map_eq_some_iff.mp h
  have hdatabase := database_live disk hs hids hlive (fun r hr => (by cases hr)) hdisk
    (fun i' saved call info hx => by
      cases hx
      exact hsaved saved call info rfl)
  exact ⟨hroot, hdatabase, sourced_live hs.sourced hlive nofun⟩

/-- The first or the second `get` of the round. -/
theorem kept_get {live : LiveServer} {onnx wasm : List UInt8} (hs : Kept root s₀ as place s)
    (hids : OneInfoEach as) (h : s.live.step root .get = some live)
    (hsourced : Sourced root s₀ as { s with live := live, onnx := onnx, wasm := wasm }) :
    Kept root s₀ as place { s with live := live, onnx := onnx, wasm := wasm } := by
  have hdatabase := database_live s.disk hs hids h
    (fun r hr => (by cases hr)) (fun d saved hd => hd) (fun i saved call info hx => (by cases hx))
  exact ⟨hs.rootDir, hdatabase, hsourced⟩

theorem kept_fail (hs : Kept root s₀ as place s) (h : s.fail = some s') :
    Kept root s₀ as place s' := by
  obtain ⟨live, hlive, rfl⟩ := Option.map_eq_some_iff.mp h
  obtain ⟨runner, -, rfl⟩ := Option.map_eq_some_iff.mp hlive
  exact ⟨hs.rootDir, hs.database, trivial⟩

/-- **Every step keeps it.** -/
theorem kept_step (hs : Kept root s₀ as place s)
    (hpaired : s.live.services.Paired root s.live.database.shared) (hids : OneInfoEach as)
    (hnames : ∀ a ∈ as, ∀ info, a.Asks info → Path.IsName info.name)
    (hpast : ∃ pre, pre ++ [a] <+: as ∧ run (step root) s₀ pre = some s)
    (hord : s.Orderly place a) (h : s.step root a = some s') : Kept root s₀ as place s' := by
  obtain ⟨pre, hpre, hrun⟩ := hpast
  have ha : a ∈ as := hpre.subset (by simp)
  cases a with
  | live x =>
    simp only [step] at h
    split_ifs at h with hstores
    obtain ⟨live, hlive, rfl⟩ := Option.map_eq_some_iff.mp h
    have hget : x ≠ .get := by
      rintro rfl
      exact hstores rfl
    have hdatabase := database_live s.disk hs hids hlive
      (fun r hr => by rw [← hr]; exact ha) (fun d saved hd => hd) (fun i saved call info hx => by
        rw [hx] at hstores
        exact absurd rfl hstores)
    exact ⟨hs.rootDir, hdatabase, sourced_live hs.sourced hlive hget⟩
  | save i info bin now faults message =>
    simp only [step] at h
    split at h
    · next call info' hi =>
      split_ifs at h with hsame
      subst hsame
      obtain ⟨b, hb, hasks⟩ := hs.database.tasks _ (List.mem_of_getElem? hi) info' rfl
      have hname := hnames b hb info' hasks
      split at h
      · exact kept_told hs hids hs.rootDir (fun d saved hd => hd) (fun _ _ _ hr => (by cases hr)) h
      · next tgz =>
        have hkeep := save_keepsDirs root info' now tgz ⟨s.disk, faults⟩
        have hstay : ∀ d saved, Standing root s₀ as place s.disk d saved →
            Standing root s₀ as place (after (save root info' now tgz) ⟨s.disk, faults⟩) d saved :=
          fun d saved hd => standing_save faults hs.rootDir hname hord hd
        split at h
        · next saved w hsave =>
          rw [after_ok hsave] at hkeep hstay
          refine kept_told hs hids (hkeep.dirAt hs.rootDir) hstay
            (fun saved' call' info hr hi' => ?_) h
          cases hr
          rw [hi] at hi'
          cases hi'
          have hduring : SavedDuring root s₀ as info' tgz now :=
            ⟨pre, i, faults, message, s, w, hpre, hrun, by rw [hsave, (save_ok hsave).1]⟩
          exact standing_saved hs.rootDir hname hord hduring hsave
        · next e w hsave =>
          rw [after_error hsave] at hkeep hstay
          exact kept_told hs hids (hkeep.dirAt hs.rootDir) hstay (fun _ _ _ hr => (by cases hr)) h
    · cases h
  | get listing =>
    simp only [step] at h
    split at h
    · next deployment hservices =>
      split at h
      · next onnx hget =>
        obtain ⟨live, hlive, rfl⟩ := Option.map_eq_some_iff.mp h
        rw [hservices] at hpaired
        obtain ⟨-, app, happ, hinfo⟩ := hpaired
        refine kept_get hs hids hlive ?_
        rcases getOnnx_services hservices hlive with ⟨dir, hlatest, hnew⟩ | hidle
        · simp only [Sourced, hnew]
          exact uploaded_of_get hs happ hinfo hnames hord hlatest hget
        · simp only [Sourced, hidle]
      · exact kept_fail hs h
    · next deployment dir hservices =>
      split at h
      · next wasm hget =>
        obtain ⟨live, hlive, rfl⟩ := Option.map_eq_some_iff.mp h
        rw [hservices] at hpaired
        obtain ⟨-, i, app, version, happ, hinfo, -⟩ := hpaired
        have honnx := hs.sourced
        simp only [Sourced, hservices] at honnx
        refine kept_get hs hids hlive ?_
        rcases getWasm_services hservices hlive with ⟨dir', hlatest, hnew⟩ | hidle
        · simp only [Sourced, hnew]
          exact ⟨honnx, uploaded_of_get hs happ hinfo hnames hord hlatest hget⟩
        · simp only [Sourced, hidle]
      · exact kept_fail hs h
    · cases h

/-- A server that starts with a disk and an empty database. -/
def start (state : DaemonState) (disk : Disk) : StoredServer where
  live :=
    { runner := .start state
      services := .idle
      channel := .new
      database := ⟨⟨.empty _, []⟩, []⟩ }
  disk := disk
  onnx := []
  wasm := []

end StoredServer

/-! ### A release -/

section Release

attribute [local instance] Crates.hyphenated Archives.released

open StoredServer

end Release

end Laqista
