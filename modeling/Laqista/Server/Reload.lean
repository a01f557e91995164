import Laqista.Lib.Channel
import Laqista.Server.Daemon
import Laqista.Server.Run

/-! # What a server serves while its database changes

A round of the main loop looks the application "face" up in the database and creates its service
from the two binaries that the database gives for it, each in a section of its own, between which
other tasks may add a version. A spawn that has added one asks for a new round: it sends `Keep`
through a channel with room for one.

`pair_ordered`: in every run, what is served was put together from two versions of one application,
of which the second is not the older one; each was the latest one when it was read.
`serves_current`: if only spawns add applications and their signals are not lost, then what is
served is what the database has now, or a new round has been asked for. -/

namespace Laqista

open Laqista.Proto Laqista.Lib Laqista.Lib.Runs Laqista.Lib.Tasks Laqista.DeploymentDatabase

/-- Where `common_services` is. -/
inductive Services where
  /-- The service of the round has not come to it. -/
  | idle
  | lookingUp
  | gettingOnnx (deployment : DeploymentInfo)
  | gettingWasm (deployment : DeploymentInfo) (onnx : Path)
  /-- The router is there, with the application and the directories of its binaries. -/
  | ready (app : Option (DeploymentInfo × Path × Path))
  deriving DecidableEq

/-- A server: its main loop, the channel of commands, and the database with the tasks that use
it. -/
structure LiveServer where
  runner : ServerRunner
  services : Services
  channel : Channel StateCommand 1
  database : Atomic Inner DaemonTask

inductive LiveStep where
  | startReporter
  /-- The section of `lookup`, with the applications in the order `it`. -/
  | lookup (it : List SavedApplication)
  /-- The section of the next `get`. -/
  | get
  | joined (group : GroupInfo)
  | served
  | failed
  /-- The main loop receives the next command. -/
  | receive
  /-- A spawn sends its `Keep`. -/
  | sendKeep (i : ℕ)
  /-- Another sender sends a command. -/
  | send (command : StateCommand)
  | database (a : Act DaemonCall DaemonTold)

/-- Whether the step is the answer to a `Keep`. -/
def isKeepSent : Act DaemonCall DaemonTold → Bool
  | .await _ (.keepSent _) => true
  | _ => false

/-- `add_app` is about to add an application for nobody who signals it. -/
def DaemonTask.silent : DaemonTask → Bool
  | insertApp none _ _ => true
  | _ => false

/-- The spawn has changed the database and has not sent its `Keep`. -/
def DaemonTask.signals : DaemonTask → Bool
  | pushInstance _ _ | sendKeep _ _ => true
  | _ => false

namespace LiveServer

/-- The service ends with an error. -/
def fail (s : LiveServer) : Option LiveServer :=
  (s.runner.step .failed).map fun runner => { s with runner := runner, services := .idle }

variable [Crates] (root : Path)

def step (s : LiveServer) : LiveStep → Option LiveServer
  | .startReporter =>
    (s.runner.step .startReporter).map fun runner =>
      { s with runner := runner, services := .lookingUp }
  | .lookup it =>
    match s.services with
    | .lookingUp =>
      if s.database.shared.apps.Iter it then
        match DeploymentDatabase.lookup it "face" with
        | some deployment => some { s with services := .gettingOnnx deployment }
        | none => some { s with services := .ready none }
      else none
    | _ => none
  | .get =>
    match s.services with
    | .gettingOnnx deployment =>
      match latestDir root s.database.shared deployment with
      | .ok onnx => some { s with services := .gettingWasm deployment onnx }
      | .error _ => s.fail
    | .gettingWasm deployment onnx =>
      match latestDir root s.database.shared deployment with
      | .ok wasm => some { s with services := .ready (some (deployment, onnx, wasm)) }
      | .error _ => s.fail
    | _ => none
  | .joined group =>
    (s.runner.step (.joined group)).map fun runner => { s with runner := runner, services := .idle }
  | .served =>
    match s.services with
    | .ready _ =>
      (s.runner.step .served).map fun runner => { s with runner := runner, services := .idle }
    | _ => none
  -- a binary that cannot be read or instantiated, or an error of `serve`
  | .failed => s.fail
  | .receive =>
    match s.channel.recv with
    | some (command, channel) =>
      (s.runner.step (.received (some command))).map fun runner =>
        { s with runner := runner, services := .idle, channel := channel }
    | none => none
  | .sendKeep i =>
    match s.channel.send .keep with
    | some (.ok channel) =>
      (daemonTasks.astep s.database (.await i (.keepSent (.ok ())))).map fun database =>
        { s with channel := channel, database := database }
    | some (.error ()) =>
      (daemonTasks.astep s.database (.await i (.keepSent (.error "channel closed")))).map
        fun database => { s with database := database }
    | none => none
  | .send command =>
    match s.channel.send command with
    | some (.ok channel) => some { s with channel := channel }
    | _ => none
  | .database a =>
    if isKeepSent a then none
    else (daemonTasks.astep s.database a).map fun database => { s with database := database }

end LiveServer

/-! ### What the database gives -/

/-- A lookup of "face" may give this. -/
def Inner.Finds (inner : Inner) (found : Option DeploymentInfo) : Prop :=
  ∃ it, inner.apps.Iter it ∧ DeploymentDatabase.lookup it "face" = found

/-- Every application is still there, with its info and perhaps more versions. -/
def Inner.Extends (inner inner' : Inner) : Prop :=
  ∀ id app, inner.apps.lookup id = some app →
    ∃ more, inner'.apps.lookup id = some ⟨app.info, app.deployments ++ more⟩

theorem Inner.Extends.of_apps {inner inner' : Inner} (h : inner'.apps = inner.apps) :
    inner.Extends inner' := by
  intro id app ha
  refine ⟨[], ?_⟩
  rw [h, ha, List.append_nil]

theorem Inner.Extends.trans {a b c : Inner} (h : a.Extends b) (h' : b.Extends c) :
    a.Extends c := by
  intro id app ha
  obtain ⟨more, hb⟩ := h id app ha
  obtain ⟨more', hc⟩ := h' id _ hb
  refine ⟨more ++ more', ?_⟩
  rw [hc, List.append_assoc]

theorem extends_insert (inner : Inner) (info : DeploymentInfo) (saved : SavedDeployment) :
    inner.Extends (inner.insert info saved) := by
  intro id app ha
  have hlook := Keyed.lookup_upsert (m := inner.apps) (t := SavedApplication.new info [saved])
    (f := fun a => { a with deployments := a.deployments ++ [saved] }) (fun _ => rfl) id
  have hinsert : (inner.insert info saved).apps.lookup id =
      if id = info.id then some ((inner.apps.lookup info.id).elim (.new info [saved])
        fun a => { a with deployments := a.deployments ++ [saved] })
      else inner.apps.lookup id := hlook
  rw [hinsert]
  by_cases hid : id = info.id
  · refine ⟨[saved], ?_⟩
    rw [if_pos hid, ← hid, ha]
    rfl
  · refine ⟨[], ?_⟩
    rw [if_neg hid, ha, List.append_nil]

/-- What a lookup finds is the info of an application of the name. -/
theorem app_of_lookup {inner : Inner} {it : List SavedApplication} {name : String}
    {deployment : DeploymentInfo} (hit : inner.apps.Iter it)
    (h : DeploymentDatabase.lookup it name = some deployment) :
    ∃ app, inner.apps.lookup deployment.id = some app ∧ app.info = deployment ∧
      deployment.name = name := by
  obtain ⟨app, hfind, rfl⟩ := Option.map_eq_some_iff.mp h
  have hname := List.find?_some hfind
  exact ⟨app, hit.mem.mp (List.mem_of_find?_eq_some hfind), rfl, by simpa using hname⟩

/-- The directory of the latest version is that of the last one in the list. -/
theorem latestDir_eq_ok {root dir : Path} {inner : Inner} {deployment : DeploymentInfo}
    {app : SavedApplication} (ha : inner.apps.lookup deployment.id = some app)
    (h : latestDir root inner deployment = .ok dir) :
    ∃ version, app.deployments[app.deployments.length - 1]? = some version ∧
      dir = (appDir root deployment).join version.dirName := by
  unfold latestDir at h
  rw [ha] at h
  dsimp only at h
  rcases hlast : app.deployments.getLast? with _ | version
  · rw [hlast] at h
    cases h
  · rw [hlast] at h
    cases h
    exact ⟨version, by rw [← List.getLast?_eq_getElem?, hlast], rfl⟩

/-! ### The tasks of the database -/

section Tasks

variable [Crates] {db db' : Atomic Inner DaemonTask} {a : Act DaemonCall DaemonTold}

/-- **Only the section of `add_app` changes the applications**, and a spawn that is in it signals
afterwards. -/
theorem apps_astep (h : daemonTasks.astep db a = some db') :
    db'.shared.apps = db.shared.apps ∨
    ∃ i w call info saved, a = .enter i w ∧ db.tasks[i]? = some (.insertApp call info saved) ∧
      db'.shared = db.shared.insert info saved ∧
      ∀ c, call = some c → ∃ t ∈ db'.tasks, t.signals = true := by
  rcases TaskSystem.astep_cases h with ⟨r, t, rfl, -, rfl⟩ | ⟨i, w, t, o, rfl, ht, -, ho, rfl⟩ |
    ⟨i, w, t, t', rfl, -, -, -, rfl⟩ | ⟨i, rfl, rfl⟩
  · exact .inl rfl
  · have hbody : daemonBody db.shared t w = some o := ho
    unfold daemonBody at hbody
    split at hbody
    · split at hbody
      · cases hbody
        exact .inl rfl
      · cases hbody
        exact .inl rfl
    · cases hbody
      exact .inr ⟨i, _, none, _, _, rfl, ht, rfl, nofun⟩
    · next call info saved =>
      cases hbody
      refine .inr ⟨i, _, some call, info, saved, rfl, ht, rfl, fun c _ => ?_⟩
      obtain ⟨hi, -⟩ := List.getElem?_eq_some_iff.mp ht
      exact ⟨.pushInstance call info, List.mem_append_left _ (List.mem_set hi _), rfl⟩
    · cases hbody
      exact .inl rfl
    · cases hbody
  · exact .inl rfl
  · exact .inl rfl

/-- Applications keep their infos and their versions. -/
theorem extends_astep (h : daemonTasks.astep db a = some db') : db.shared.Extends db'.shared := by
  rcases apps_astep h with happs | ⟨i, w, call, info, saved, -, -, hinsert, -⟩
  · exact .of_apps happs
  · rw [hinsert]
    exact extends_insert _ _ _

/-- A spawn that is to signal still is after a step that neither sends its signal nor cancels
it. -/
theorem signals_astep (h : daemonTasks.astep db a = some db') (hkeep : isKeepSent a = false)
    (hcancel : ∀ i t, a = .cancel i → db.tasks[i]? = some t → t.signals = false)
    (hsig : ∃ t ∈ db.tasks, t.signals = true) : ∃ t ∈ db'.tasks, t.signals = true := by
  obtain ⟨t, hmem, ht⟩ := hsig
  obtain ⟨k, hk⟩ := List.mem_iff_getElem?.mp hmem
  have hlt : k < db.tasks.length := (List.getElem?_eq_some_iff.mp hk).1
  -- where the task is left alone
  have hstay : ∀ i u l, i ≠ k → ∃ t ∈ db.tasks.set i u ++ l, t.signals = true := by
    intro i u l hi
    refine ⟨t, List.mem_append_left _ (List.mem_of_getElem? (i := k) ?_), ht⟩
    rw [List.getElem?_set_ne hi, hk]
  rcases TaskSystem.astep_cases h with ⟨r, t', rfl, -, rfl⟩ | ⟨i, w, t', o, rfl, hi, he, ho, rfl⟩ |
    ⟨i, w, t', t'', rfl, hi, he, hw, rfl⟩ | ⟨i, rfl, rfl⟩
  · exact ⟨t, List.mem_append_left _ hmem, ht⟩
  · by_cases hik : i = k
    · subst hik
      obtain rfl := Option.some.inj (hk.symm.trans hi)
      have hbody : daemonBody db.shared t w = some o := ho
      cases t with
      | pushInstance call info =>
        cases w with
        | nothing =>
          obtain rfl := Option.some.inj hbody
          exact ⟨.sendKeep call info, List.mem_append_left _ (List.mem_set hlt _), rfl⟩
        | _ => cases hbody
      | sendKeep call info => cases he
      | _ => cases ht
    · exact hstay i _ _ hik
  · by_cases hik : i = k
    · subst hik
      obtain rfl := Option.some.inj (hk.symm.trans hi)
      have hawait : daemonAwait t w = some t'' := hw
      cases t with
      | sendKeep call info =>
        cases w with
        | keepSent result => cases hkeep
        | _ => cases hawait
      | pushInstance call info => cases he
      | _ => cases ht
    · have hrest := hstay i t'' [] hik
      rw [List.append_nil] at hrest
      exact hrest
  · have hik : i ≠ k := by
      rintro rfl
      rw [hcancel i t rfl hk] at ht
      cases ht
    have hrest := hstay i (daemonTasks.halt) [] hik
    rw [List.append_nil] at hrest
    exact hrest

end Tasks

/-! ### What `common_services` has -/

/-- A binary comes from the `i`-th version of the application. -/
def Inner.FromVersion (root : Path) (inner : Inner) (deployment : DeploymentInfo) (i : ℕ)
    (dir : Path) : Prop :=
  ∃ app version, inner.apps.lookup deployment.id = some app ∧ app.info = deployment ∧
    app.deployments[i]? = some version ∧ dir = (appDir root deployment).join version.dirName

/-- The application has these versions, and a binary comes from the latest of them. -/
def Inner.Latest (root : Path) (inner : Inner) (deployment : DeploymentInfo)
    (versions : List SavedDeployment) (dir : Path) : Prop :=
  inner.apps.lookup deployment.id = some ⟨deployment, versions⟩ ∧
    latestDir root inner deployment = .ok dir

namespace Services

/-- It is what the database gives now. -/
def Current (root : Path) (inner : Inner) : Services → Prop
  | idle | lookingUp => True
  | gettingOnnx deployment => inner.Finds (some deployment)
  | gettingWasm deployment onnx =>
    inner.Finds (some deployment) ∧ latestDir root inner deployment = .ok onnx
  | ready none => inner.Finds none
  | ready (some (deployment, onnx, wasm)) =>
    inner.Finds (some deployment) ∧ latestDir root inner deployment = .ok onnx ∧
      latestDir root inner deployment = .ok wasm

/-- It is of one application, and the second binary is not from an older version than the first
one. -/
def Paired (root : Path) (inner : Inner) : Services → Prop
  | idle | lookingUp | ready none => True
  | gettingOnnx deployment => deployment.name = "face" ∧
      ∃ app, inner.apps.lookup deployment.id = some app ∧ app.info = deployment
  | gettingWasm deployment onnx => deployment.name = "face" ∧
      ∃ i, inner.FromVersion root deployment i onnx
  | ready (some (deployment, onnx, wasm)) => deployment.name = "face" ∧
      ∃ i j, i ≤ j ∧ inner.FromVersion root deployment i onnx ∧
        inner.FromVersion root deployment j wasm

end Services

section Grows

variable {root dir : Path} {inner inner' : Inner} {deployment : DeploymentInfo} {i : ℕ}

/-- What is from a version stays so. -/
theorem Inner.FromVersion.extends (h : inner.FromVersion root deployment i dir)
    (he : inner.Extends inner') : inner'.FromVersion root deployment i dir := by
  obtain ⟨app, version, ha, hinfo, hv, hdir⟩ := h
  obtain ⟨more, hmore⟩ := he _ _ ha
  refine ⟨_, version, hmore, hinfo, ?_, hdir⟩
  rw [List.getElem?_append_left (List.getElem?_eq_some_iff.mp hv).1, hv]

/-- The latest version is not older than any other. -/
theorem fromVersion_latest {app : SavedApplication}
    (ha : inner.apps.lookup deployment.id = some app) (hinfo : app.info = deployment)
    (h : latestDir root inner deployment = .ok dir) :
    inner.FromVersion root deployment (app.deployments.length - 1) dir := by
  obtain ⟨version, hv, hdir⟩ := latestDir_eq_ok ha h
  exact ⟨app, version, ha, hinfo, hv, hdir⟩

theorem Services.Paired.extends {services : Services} (h : services.Paired root inner)
    (he : inner.Extends inner') : services.Paired root inner' := by
  rcases services with _ | _ | d | ⟨d, onnx⟩ | _ | ⟨d, onnx, wasm⟩
  · trivial
  · trivial
  · obtain ⟨hname, app, ha, hinfo⟩ := h
    obtain ⟨more, hmore⟩ := he _ _ ha
    exact ⟨hname, _, hmore, hinfo⟩
  · obtain ⟨hname, i, hi⟩ := h
    exact ⟨hname, i, hi.extends he⟩
  · trivial
  · obtain ⟨hname, i, j, hij, hi, hj⟩ := h
    exact ⟨hname, i, j, hij, hi.extends he, hj.extends he⟩

theorem Services.Current.of_apps {services : Services} (h : services.Current root inner)
    (happs : inner'.apps = inner.apps) : services.Current root inner' := by
  have hfinds : ∀ found, inner.Finds found → inner'.Finds found := by
    rintro found ⟨it, hit, hlook⟩
    exact ⟨it, by rw [happs]; exact hit, hlook⟩
  have hlatest : ∀ d, latestDir root inner' d = latestDir root inner d := by
    intro d
    unfold latestDir
    rw [happs]
  rcases services with _ | _ | d | ⟨d, onnx⟩ | _ | ⟨d, onnx, wasm⟩
  · trivial
  · trivial
  · exact hfinds _ h
  · exact ⟨hfinds _ h.1, (hlatest d).trans h.2⟩
  · exact hfinds _ h
  · exact ⟨hfinds _ h.1, (hlatest d).trans h.2.1, (hlatest d).trans h.2.2⟩

end Grows

namespace LiveServer

/-- A new round has been asked for, or a spawn is going to ask for it. -/
def Announced (s : LiveServer) : Prop :=
  .keep ∈ s.channel.buffer ∨ ∃ t ∈ s.database.tasks, t.signals = true

/-- No application is added but by a spawn, and no spawn is cancelled that is to send its `Keep`. -/
def Signalled (s : LiveServer) : LiveStep → Prop
  | .database (.enter i _) => ∀ t ∈ s.database.tasks[i]?, t.silent = false
  | .database (.cancel i) => ∀ t ∈ s.database.tasks[i]?, t.signals = false
  | _ => True

instance decidableSignalled (s : LiveServer) : (x : LiveStep) → Decidable (s.Signalled x)
  | .database (.enter i _) =>
    inferInstanceAs (Decidable (∀ t ∈ s.database.tasks[i]?, t.silent = false))
  | .database (.cancel i) =>
    inferInstanceAs (Decidable (∀ t ∈ s.database.tasks[i]?, t.signals = false))
  | .database (.start _) | .database (.await _ _) | .startReporter | .lookup _ | .get | .joined _
  | .served | .failed | .receive | .sendKeep _ | .send _ => isTrue trivial

/-! ### Steps -/

section Steps

variable [Crates] {root : Path} {s s' : LiveServer} {x : LiveStep}

/-- **What a step does**: the services go on with what the database gives, or the round ends, or the
services and the database stay and the channel may get a command, or a task of the database goes
on. -/
theorem step_cases (h : s.step root x = some s') :
    ((s'.services = .idle ∨ s'.services = .lookingUp) ∧ s'.database = s.database ∧
      s'.channel.closed = s.channel.closed) ∨
    s'.database = s.database ∧ s'.channel = s.channel ∧
      ((∃ it, s.services = .lookingUp ∧ s.database.shared.apps.Iter it ∧
        ((∃ d, DeploymentDatabase.lookup it "face" = some d ∧ s'.services = .gettingOnnx d) ∨
          DeploymentDatabase.lookup it "face" = none ∧ s'.services = .ready none)) ∨
      (∃ d dir, x = .get ∧ latestDir root s.database.shared d = .ok dir ∧
        (s.services = .gettingOnnx d ∧ s'.services = .gettingWasm d dir ∨
          ∃ onnx, s.services = .gettingWasm d onnx ∧
            s'.services = .ready (some (d, onnx, dir))))) ∨
    (∃ command, x = .send command ∧ s'.services = s.services ∧ s'.database = s.database ∧
      s.channel.send command = some (.ok s'.channel)) ∨
    (∃ i, x = .sendKeep i ∧ s'.services = s.services ∧
      daemonTasks.astep s.database (.await i (.keepSent (.ok ()))) = some s'.database ∧
      s.channel.send .keep = some (.ok s'.channel)) ∨
    (∃ i, x = .sendKeep i ∧ s'.services = s.services ∧ s.channel.closed = true ∧
      daemonTasks.astep s.database (.await i (.keepSent (.error "channel closed"))) =
        some s'.database ∧ s'.channel = s.channel) ∨
    ∃ a, x = .database a ∧ s'.services = s.services ∧ s'.channel = s.channel ∧
      isKeepSent a = false ∧ daemonTasks.astep s.database a = some s'.database := by
  have hfail : s.fail = some s' → (s'.services = .idle ∨ s'.services = .lookingUp) ∧
      s'.database = s.database ∧ s'.channel.closed = s.channel.closed := by
    intro hf
    obtain ⟨runner, -, rfl⟩ := Option.map_eq_some_iff.mp hf
    exact ⟨.inl rfl, rfl, rfl⟩
  cases x with
  | startReporter =>
    obtain ⟨runner, -, rfl⟩ := Option.map_eq_some_iff.mp h
    exact .inl ⟨.inr rfl, rfl, rfl⟩
  | lookup it =>
    simp only [step] at h
    split at h
    · next hs =>
      split_ifs at h with hit
      split at h
      · next d hd =>
        cases h
        exact .inr (.inl ⟨rfl, rfl, .inl ⟨it, hs, hit, .inl ⟨d, hd, rfl⟩⟩⟩)
      · next hn =>
        cases h
        exact .inr (.inl ⟨rfl, rfl, .inl ⟨it, hs, hit, .inr ⟨hn, rfl⟩⟩⟩)
    · cases h
  | get =>
    simp only [step] at h
    split at h
    · next d hs =>
      split at h
      · next onnx hd =>
        cases h
        exact .inr (.inl ⟨rfl, rfl, .inr ⟨d, onnx, rfl, hd, .inl ⟨hs, rfl⟩⟩⟩)
      · exact .inl (hfail h)
    · next d onnx hs =>
      split at h
      · next wasm hd =>
        cases h
        exact .inr (.inl ⟨rfl, rfl, .inr ⟨d, wasm, rfl, hd, .inr ⟨onnx, hs, rfl⟩⟩⟩)
      · exact .inl (hfail h)
    · cases h
  | joined group =>
    obtain ⟨runner, -, rfl⟩ := Option.map_eq_some_iff.mp h
    exact .inl ⟨.inl rfl, rfl, rfl⟩
  | served =>
    simp only [step] at h
    split at h
    · obtain ⟨runner, -, rfl⟩ := Option.map_eq_some_iff.mp h
      exact .inl ⟨.inl rfl, rfl, rfl⟩
    · cases h
  | failed => exact .inl (hfail h)
  | receive =>
    simp only [step] at h
    split at h
    · next command channel hrecv =>
      obtain ⟨runner, -, rfl⟩ := Option.map_eq_some_iff.mp h
      exact .inl ⟨.inl rfl, rfl, (Channel.recv_some hrecv).2⟩
    · cases h
  | sendKeep i =>
    simp only [step] at h
    split at h
    · next channel hsend =>
      obtain ⟨database, hdb, rfl⟩ := Option.map_eq_some_iff.mp h
      exact .inr (.inr (.inr (.inl ⟨i, rfl, rfl, hdb, hsend⟩)))
    · next hsend =>
      obtain ⟨database, hdb, rfl⟩ := Option.map_eq_some_iff.mp h
      exact .inr (.inr (.inr (.inr (.inl ⟨i, rfl, rfl, Channel.send_error hsend, hdb, rfl⟩))))
    · cases h
  | send command =>
    simp only [step] at h
    split at h
    · next channel hsend =>
      cases h
      exact .inr (.inr (.inl ⟨command, rfl, rfl, rfl, hsend⟩))
    · cases h
  | database a =>
    simp only [step] at h
    split_ifs at h with hkeep
    obtain ⟨database, hdb, rfl⟩ := Option.map_eq_some_iff.mp h
    exact .inr (.inr (.inr (.inr (.inr ⟨a, rfl, rfl, rfl, by simpa using hkeep, hdb⟩))))

/-- The database stays as it is, or one of its tasks goes on: by the step for it, or with its
`Keep`. -/
theorem database_step (h : s.step root x = some s') : s'.database = s.database ∨
    ∃ a, daemonTasks.astep s.database a = some s'.database ∧
      (x = .database a ∨ ∃ i result, a = .await i (.keepSent result)) := by
  rcases step_cases h with ⟨-, hdb, -⟩ | ⟨hdb, -, -⟩ | ⟨command, -, -, hdb, -⟩ |
    ⟨i, -, -, hdb, -⟩ | ⟨i, -, -, -, hdb, -⟩ | ⟨a, hx, -, -, -, hdb⟩
  · exact .inl hdb
  · exact .inl hdb
  · exact .inl hdb
  · exact .inr ⟨_, hdb, .inr ⟨i, _, rfl⟩⟩
  · exact .inr ⟨_, hdb, .inr ⟨i, _, rfl⟩⟩
  · exact .inr ⟨a, hdb, .inl hx⟩

theorem extends_step (h : s.step root x = some s') :
    s.database.shared.Extends s'.database.shared := by
  rcases database_step h with hdb | ⟨a, hdb, -⟩
  · exact .of_apps (by rw [hdb])
  · exact extends_astep hdb

/-- A step leaves what is paired paired. -/
theorem paired_step (hs : s.services.Paired root s.database.shared) (h : s.step root x = some s') :
    s'.services.Paired root s'.database.shared := by
  rcases step_cases h with ⟨hidle, -, -⟩ |
    ⟨hdb, -, ⟨it, -, hit, ⟨d, hlook, hnew⟩ | ⟨-, hnew⟩⟩ |
      ⟨d, dir, -, hdir, ⟨hold, hnew⟩ | ⟨onnx, hold, hnew⟩⟩⟩ |
    ⟨command, -, hsame, hdb, -⟩ | ⟨i, -, hsame, hdb, -⟩ | ⟨i, -, hsame, -, hdb, -⟩ |
    ⟨a, -, hsame, -, -, hdb⟩
  · rcases hidle with hidle | hidle
    · rw [hidle]
      trivial
    · rw [hidle]
      trivial
  · obtain ⟨app, ha, hinfo, hname⟩ := app_of_lookup hit hlook
    rw [hnew, hdb]
    exact ⟨hname, app, ha, hinfo⟩
  · rw [hnew]
    trivial
  · rw [hold] at hs
    obtain ⟨hname, app, ha, hinfo⟩ := hs
    rw [hnew, hdb]
    exact ⟨hname, _, fromVersion_latest ha hinfo hdir⟩
  · rw [hold] at hs
    obtain ⟨hname, i, hi⟩ := hs
    have ⟨app, version, ha, hinfo, hv, _⟩ := hi
    have hlt : i < app.deployments.length := (List.getElem?_eq_some_iff.mp hv).1
    rw [hnew, hdb]
    exact ⟨hname, i, _, by omega, hi, fromVersion_latest ha hinfo hdir⟩
  · rw [hsame, hdb]
    exact hs
  · rw [hsame]
    exact hs.extends (extends_astep hdb)
  · rw [hsame]
    exact hs.extends (extends_astep hdb)
  · rw [hsame]
    exact hs.extends (extends_astep hdb)

/-- A step that is signalled leaves what is served current, or a new round has been asked for. -/
theorem current_step (hopen : s.channel.closed = false)
    (hs : s.services.Current root s.database.shared ∨ s.Announced) (hsig : s.Signalled x)
    (h : s.step root x = some s') :
    s'.channel.closed = false ∧ (s'.services.Current root s'.database.shared ∨ s'.Announced) := by
  rcases step_cases h with ⟨hidle, -, hclosed⟩ |
    ⟨hdb, hchannel, ⟨it, -, hit, ⟨d, hlook, hnew⟩ | ⟨hlook, hnew⟩⟩ |
      ⟨d, dir, -, hdir, ⟨hold, hnew⟩ | ⟨onnx, hold, hnew⟩⟩⟩ |
    ⟨command, rfl, hsame, hdb, hsend⟩ | ⟨i, rfl, hsame, hdb, hsend⟩ | ⟨i, -, -, hclosed, -, -⟩ |
    ⟨a, rfl, hsame, hchannel, hkeep, hdb⟩
  · refine ⟨hclosed.trans hopen, .inl ?_⟩
    rcases hidle with hidle | hidle
    · rw [hidle]
      trivial
    · rw [hidle]
      trivial
  · refine ⟨by rw [hchannel]; exact hopen, .inl ?_⟩
    rw [hnew, hdb]
    exact ⟨it, hit, hlook⟩
  · refine ⟨by rw [hchannel]; exact hopen, .inl ?_⟩
    rw [hnew, hdb]
    exact ⟨it, hit, hlook⟩
  · refine ⟨by rw [hchannel]; exact hopen, ?_⟩
    unfold Announced at hs ⊢
    rw [hnew, hdb, hchannel]
    rw [hold] at hs
    exact hs.imp (fun hfinds => ⟨hfinds, hdir⟩) id
  · refine ⟨by rw [hchannel]; exact hopen, ?_⟩
    unfold Announced at hs ⊢
    rw [hnew, hdb, hchannel]
    rw [hold] at hs
    exact hs.imp (fun hcur => ⟨hcur.1, hcur.2, hdir⟩) id
  · obtain ⟨-, hopen', hbuffer⟩ := Channel.send_ok hsend
    refine ⟨hopen', ?_⟩
    unfold Announced at hs ⊢
    rw [hsame, hdb, hbuffer]
    exact hs.imp id fun hann => hann.imp (List.mem_append_left _) id
  · -- the signal is in the channel
    obtain ⟨-, hopen', hbuffer⟩ := Channel.send_ok hsend
    refine ⟨hopen', .inr (.inl ?_)⟩
    rw [hbuffer]
    exact List.mem_append_right _ (List.mem_singleton_self _)
  · rw [hopen] at hclosed
    cases hclosed
  · refine ⟨by rw [hchannel]; exact hopen, ?_⟩
    have hcancel : ∀ i t, a = .cancel i → s.database.tasks[i]? = some t → t.signals = false := by
      rintro i t rfl ht
      exact hsig t ht
    rcases hs with hcur | hkeep' | htask
    · rcases apps_astep hdb with happs | ⟨i, w, call, info, saved, rfl, ht, -, hspawn⟩
      · left
        rw [hsame]
        exact hcur.of_apps happs
      · rcases call with _ | call
        · exact absurd (hsig _ ht) (by simp [DaemonTask.silent])
        · exact .inr (.inr (hspawn call rfl))
    · refine .inr (.inl ?_)
      rw [hchannel]
      exact hkeep'
    · exact .inr (.inr (signals_astep hdb hkeep hcancel htask))

end Steps

/-! ### Runs -/

section Runs

variable [Crates] {root : Path} {s₀ s : LiveServer} {xs : List LiveStep}

theorem extends_run (h : run (step root) s₀ xs = some s) :
    s₀.database.shared.Extends s.database.shared :=
  run_invariant (I := fun s : LiveServer => s₀.database.shared.Extends s.database.shared)
    (fun _ _ _ hs hstep => hs.trans (extends_step hstep)) (.of_apps rfl) h

theorem paired_run (h0 : s₀.services = .idle) (h : run (step root) s₀ xs = some s) :
    s.services.Paired root s.database.shared := by
  have hstart : s₀.services.Paired root s₀.database.shared := by
    rw [h0]
    trivial
  exact run_invariant (I := fun s : LiveServer => s.services.Paired root s.database.shared)
    (fun _ _ _ hs hstep => paired_step hs hstep) hstart h

/-! ### The two gets of a round -/

/-- The first binary is of the latest version at the first `get`. -/
def FirstGet (root : Path) (s₀ : LiveServer) (xs : List LiveStep) (deployment : DeploymentInfo)
    (onnx : Path) : Prop :=
  ∃ pre mid s₁ versions, xs = pre ++ .get :: mid ∧ run (step root) s₀ pre = some s₁ ∧
    s₁.services = .gettingOnnx deployment ∧
    s₁.database.shared.Latest root deployment versions onnx

/-- Each of the binaries is of the latest version at its `get`, and they are of one version unless
another one was added in between. -/
def BothGets (root : Path) (s₀ : LiveServer) (xs : List LiveStep) (deployment : DeploymentInfo)
    (onnx wasm : Path) : Prop :=
  ∃ pre mid post s₁ s₂ versions added, xs = pre ++ .get :: (mid ++ .get :: post) ∧
    run (step root) s₀ pre = some s₁ ∧ run (step root) s₁ (.get :: mid) = some s₂ ∧
    s₁.services = .gettingOnnx deployment ∧ s₂.services = .gettingWasm deployment onnx ∧
    s₁.database.shared.Latest root deployment versions onnx ∧
    s₂.database.shared.Latest root deployment (versions ++ added) wasm ∧
    (added = [] → onnx = wasm)

/-- The binaries that the service has are those of its `get`s. -/
def InTurn (root : Path) (s₀ : LiveServer) (xs : List LiveStep) : Services → Prop
  | .gettingWasm deployment onnx => FirstGet root s₀ xs deployment onnx
  | .ready (some (deployment, onnx, wasm)) => BothGets root s₀ xs deployment onnx wasm
  | _ => True

theorem InTurn.append {services : Services} (h : InTurn root s₀ xs services) (x : LiveStep) :
    InTurn root s₀ (xs ++ [x]) services := by
  rcases services with _ | _ | d | ⟨d, onnx⟩ | _ | ⟨d, onnx, wasm⟩
  · trivial
  · trivial
  · trivial
  · obtain ⟨pre, mid, s₁, versions, rfl, hrest⟩ := h
    exact ⟨pre, mid ++ [x], s₁, versions, by simp, hrest⟩
  · trivial
  · obtain ⟨pre, mid, post, s₁, s₂, versions, added, rfl, hrest⟩ := h
    exact ⟨pre, mid, post ++ [x], s₁, s₂, versions, added, by simp, hrest⟩

/-- The second `get` of a round. -/
theorem bothGets_of_firstGet {deployment : DeploymentInfo} {onnx wasm : Path}
    (hfirst : FirstGet root s₀ xs deployment onnx) (h : run (step root) s₀ xs = some s)
    (hservices : s.services = .gettingWasm deployment onnx)
    (hlatest : latestDir root s.database.shared deployment = .ok wasm) :
    BothGets root s₀ (xs ++ [.get]) deployment onnx wasm := by
  obtain ⟨pre, mid, s₁, versions, rfl, hpre, hstart, hlook, hdir⟩ := hfirst
  rw [run_append, hpre] at h
  have hmid : run (step root) s₁ (.get :: mid) = some s := h
  obtain ⟨added, hadded⟩ := extends_run hmid _ _ hlook
  refine ⟨pre, mid, [], s₁, s, versions, added, by simp, hpre, hmid, hstart, hservices,
    ⟨hlook, hdir⟩, ⟨hadded, hlatest⟩, ?_⟩
  rintro rfl
  -- without another version, `get` gives the same directory
  rw [List.append_nil] at hadded
  have hsame : latestDir root s₁.database.shared deployment =
      latestDir root s.database.shared deployment := by
    unfold latestDir
    rw [hlook, hadded]
  exact Except.ok.inj (hdir.symm.trans (hsame.trans hlatest))

theorem inTurn_step {x : LiveStep} {s' : LiveServer} (h : run (step root) s₀ xs = some s)
    (hpaired : s.services.Paired root s.database.shared) (hs : InTurn root s₀ xs s.services)
    (hstep : s.step root x = some s') : InTurn root s₀ (xs ++ [x]) s'.services := by
  rcases step_cases hstep with ⟨hidle | hlooking, -, -⟩ |
    ⟨-, -, ⟨it, -, -, ⟨d, -, hnew⟩ | ⟨-, hnew⟩⟩ |
      ⟨d, dir, rfl, hdir, ⟨hold, hnew⟩ | ⟨onnx, hold, hnew⟩⟩⟩ |
    ⟨command, -, hsame, -⟩ | ⟨i, -, hsame, -⟩ | ⟨i, -, hsame, -⟩ | ⟨a, -, hsame, -⟩
  · rw [hidle]
    trivial
  · rw [hlooking]
    trivial
  · rw [hnew]
    trivial
  · rw [hnew]
    trivial
  · rw [hold] at hpaired
    obtain ⟨-, ⟨info, versions⟩, happ, rfl⟩ := hpaired
    rw [hnew]
    exact ⟨xs, [], s, versions, rfl, h, hold, happ, hdir⟩
  · rw [hold] at hs
    rw [hnew]
    exact bothGets_of_firstGet hs h hold hdir
  · rw [hsame]
    exact hs.append x
  · rw [hsame]
    exact hs.append x
  · rw [hsame]
    exact hs.append x
  · rw [hsame]
    exact hs.append x

theorem inTurn_run (h0 : s₀.services = .idle) (h : run (step root) s₀ xs = some s) :
    InTurn root s₀ xs s.services := by
  have hstart : InTurn root s₀ [] s₀.services := by
    rw [h0]
    trivial
  have hstep : ∀ past s x s', run (step root) s₀ past = some s ∧ InTurn root s₀ past s.services →
      s.step root x = some s' →
      run (step root) s₀ (past ++ [x]) = some s' ∧ InTurn root s₀ (past ++ [x]) s'.services := by
    rintro past s x s' ⟨hrun, hs⟩ hstep
    refine ⟨?_, inTurn_step hrun (paired_run h0 hrun) hs hstep⟩
    rw [run_append, hrun]
    simpa using hstep
  have hturn : run (step root) s₀ ([] ++ xs) = some s ∧ InTurn root s₀ ([] ++ xs) s.services :=
    run_invariant_past hstep ⟨rfl, hstart⟩ h
  exact hturn.2

/-- **What is served was put together from versions of one application**, that has the name, in
every run of the main loop, the channel and the tasks of the database, whatever is added or fails in
between. The second binary is not of an older version than the first one, in the order in which they
were added; each is of the latest version at its `get`, and they are of different versions only if
one was added in between. -/
theorem pair_ordered {deployment : DeploymentInfo} {onnx wasm : Path} (h0 : s₀.services = .idle)
    (h : run (step root) s₀ xs = some s)
    (hready : s.services = .ready (some (deployment, onnx, wasm))) :
    deployment.name = "face" ∧
    (∃ i j, i ≤ j ∧ s.database.shared.FromVersion root deployment i onnx ∧
      s.database.shared.FromVersion root deployment j wasm) ∧
    BothGets root s₀ xs deployment onnx wasm := by
  have hpaired := paired_run h0 h
  have hturn := inTurn_run h0 h
  rw [hready] at hpaired hturn
  exact ⟨hpaired.1, hpaired.2, hturn⟩

theorem current_always (h0 : s₀.services = .idle) (hopen : s₀.channel.closed = false)
    (hsig : EachStep (step root) Signalled s₀ xs) :
    Always (step root) (fun s => s.channel.closed = false ∧
      (s.services.Current root s.database.shared ∨ s.Announced)) s₀ xs := by
  have hstart : s₀.services.Current root s₀.database.shared := by
    rw [h0]
    trivial
  exact always_of_eachStep (fun _ _ _ hs hsig' hstep => current_step hs.1 hs.2 hsig' hstep)
    (fun _ hs => hs) ⟨hopen, .inl hstart⟩ hsig

/-- **What is served is current, or a new round has been asked for**, in every state of every run in
which only spawns add applications and no spawn is cancelled between its insertion and its
signal. -/
theorem serves_current (h0 : s₀.services = .idle) (hopen : s₀.channel.closed = false)
    (hsig : EachStep (step root) Signalled s₀ xs) :
    Always (step root) (fun s => s.services.Current root s.database.shared ∨ s.Announced)
      s₀ xs := by
  intro pre s hpre hrun
  have hcurrent := current_always h0 hopen hsig pre s hpre hrun
  exact hcurrent.2

omit [Crates] in
/-- An application of the name is found in every order. -/
theorem exists_of_finds {inner : Inner} {found : Option DeploymentInfo} {stored : SavedApplication}
    (hstored : inner.apps.lookup stored.info.id = some stored) (hname : stored.info.name = "face")
    (h : inner.Finds found) : ∃ deployment, found = some deployment ∧ deployment.name = "face" := by
  obtain ⟨it, hit, hlook⟩ := h
  rcases found with _ | deployment
  · have hnone : it.find? (fun a => a.info.name = "face") = none := Option.map_eq_none_iff.mp hlook
    have hmem : stored ∈ it := hit.mem.mpr hstored
    have hother := List.find?_eq_none.mp hnone stored hmem
    simp [hname] at hother
  · obtain ⟨app, -, -, hface⟩ := app_of_lookup hit hlook
    exact ⟨deployment, rfl, hface⟩

/-- A task of the database that has replied with success has added its application. -/
theorem justified_run {addr : String}
    (htasks : ∀ t ∈ s₀.database.tasks, t.Justified addr s₀.database.shared)
    (hat : ∀ r, .database (.start r) ∈ xs → r.At addr) (h : run (step root) s₀ xs = some s) :
    ∀ t ∈ s.database.tasks, t.Justified addr s.database.shared := by
  refine run_invariant_of (K := fun x => ∀ r, x = .database (.start r) → r.At addr)
    (I := fun s : LiveServer => ∀ t ∈ s.database.tasks, t.Justified addr s.database.shared) ?_
    htasks (fun x hx r hr => hat r (by rw [← hr]; exact hx)) h
  intro s x s' hx hs hstep
  rcases database_step hstep with hdb | ⟨a, hdb, rfl | ⟨i, result, rfl⟩⟩
  · rw [hdb]
    exact hs
  · exact (daemon_step hs (fun r hr => hx r (by rw [hr])) hdb).2
  · exact (daemon_step hs (fun r hr => (by cases hr)) hdb).2

/-- **Once a spawn has been answered with success, its application is served.** The spawn requests
are those that a scheduler sends for their calls. The deployment is in the database from then on,
and if the application there is called "face", then whenever the server serves and no new round has
been asked for, it serves an application of this name in the latest version. -/
theorem spawned_is_served {addr : String} {s₁ : LiveServer} {ys : List LiveStep} {call : SpawnCall}
    {response : SpawnResponse} (h0 : s₀.services = .idle) (hopen : s₀.channel.closed = false)
    (htasks : ∀ t ∈ s₀.database.tasks, t.Justified addr s₀.database.shared)
    (hat : ∀ r, .database (.start r) ∈ xs → r.At addr)
    (hsig : EachStep (step root) Signalled s₀ (xs ++ ys))
    (h₁ : run (step root) s₀ xs = some s₁) (h : run (step root) s₁ ys = some s)
    (hreply : .reply call (.ok response) ∈ s₁.database.tasks) :
    ∃ stored, s.database.shared.apps.lookup call.deployment.id = some stored ∧
      (stored.info.name = "face" → ∀ app, s.services = .ready app → ¬ s.Announced →
        ∃ deployment dir, app = some (deployment, dir, dir) ∧ deployment.name = "face" ∧
          latestDir root s.database.shared deployment = .ok dir) := by
  -- the spawn has put its deployment into the database
  obtain ⟨-, happ, -⟩ := justified_run htasks hat h₁ _ hreply
  obtain ⟨first, hfirst⟩ := Keyed.mem_ids.mp happ
  -- it stays there
  obtain ⟨more, hstored⟩ := extends_run h _ _ hfirst
  refine ⟨_, hstored, fun hname app hready hann => ?_⟩
  have hkey := Keyed.key_of_lookup hfirst
  have hid : first.info.id = call.deployment.id := hkey
  have hrun : run (step root) s₀ (xs ++ ys) = some s := by
    rw [run_append, h₁]
    exact h
  have hcurrent := (current_always h0 hopen hsig _ s List.prefix_rfl hrun).2.resolve_right hann
  rw [← hid] at hstored
  rw [hready] at hcurrent
  rcases app with _ | ⟨deployment, onnx, wasm⟩
  · obtain ⟨d, hd, -⟩ := exists_of_finds hstored hname hcurrent
    cases hd
  · obtain ⟨hfinds, honnx, hwasm⟩ := hcurrent
    obtain ⟨d, hd, hface⟩ := exists_of_finds hstored hname hfinds
    obtain rfl := Option.some.inj hd
    obtain rfl : onnx = wasm := Except.ok.inj (honnx.symm.trans hwasm)
    exact ⟨deployment, onnx, rfl, hface, honnx⟩

end Runs

/-! ### A version between two sections -/

section Torn

attribute [local instance] Crates.hyphenated

def faceApp : DeploymentInfo := ⟨5, "face", "http://10.0.0.5/face.tgz"⟩

def firstVersion : SavedDeployment :=
  ⟨(DateTime.fromTimestamp 1700000000 0).get (by decide), Fin.last (2 ^ 256 - 1)⟩

def secondVersion : SavedDeployment :=
  ⟨(DateTime.fromTimestamp 1700000060 0).get (by decide), Fin.last (2 ^ 256 - 1)⟩

/-- A server that runs without applications. -/
def emptyServer : LiveServer where
  runner := .start (.running (.new ⟨1, "http://10.0.0.1:50051"⟩))
  services := .idle
  channel := .new
  database := ⟨⟨.empty _, []⟩, []⟩

def faceCall : SpawnCall := ⟨0, faceApp, ⟨2, "http://10.0.0.2:50051"⟩⟩

/-- The application is spawned while the server serves without it. -/
def spawning : List LiveStep :=
  [.startReporter, .lookup [], .database (.start (.spawn faceCall (spawnRequest faceApp))),
    .database (.enter 0 .nothing), .database (.await 0 (.saved (.ok firstVersion))),
    .database (.enter 0 .nothing), .database (.enter 0 .nothing), .sendKeep 0]

/-- The server starts a new round, which finds the application. -/
def reloading : List LiveStep :=
  [.receive, .startReporter, .lookup [⟨faceApp, [firstVersion]⟩], .get]

def spawnedFace : List LiveStep := spawning ++ reloading

/-- The server's own scheduler adds a version before the second binary is read. -/
def addedBetween : List LiveStep :=
  spawnedFace ++ [.database (.start (.addApp faceApp)),
    .database (.await 1 (.saved (.ok secondVersion))), .database (.enter 1 .nothing), .get]

theorem addedBetween_pair : ∃ s onnx wasm, run (step []) emptyServer addedBetween = some s ∧
    s.services = .ready (some (faceApp, onnx, wasm)) ∧ onnx ≠ wasm ∧
    (∃ i j, i ≤ j ∧ s.database.shared.FromVersion [] faceApp i onnx ∧
      s.database.shared.FromVersion [] faceApp j wasm) ∧
    BothGets [] emptyServer addedBetween faceApp onnx wasm := by
  have hrun : (run (step []) emptyServer addedBetween).map (·.services) =
      some (.ready (some (faceApp, (appDir [] faceApp).join firstVersion.dirName,
        (appDir [] faceApp).join secondVersion.dirName))) := by decide +kernel
  have hne : (appDir [] faceApp).join firstVersion.dirName ≠
      (appDir [] faceApp).join secondVersion.dirName := by decide +kernel
  obtain ⟨s, hs, hready⟩ := Option.map_eq_some_iff.mp hrun
  exact ⟨s, _, _, hs, hready, hne, (pair_ordered rfl hs hready).2⟩

theorem spawnedFace_current : ∃ s, run (step []) emptyServer (spawnedFace ++ [.get]) = some s ∧
    ¬ s.Announced ∧ s.services.Current [] s.database.shared := by
  have hrun : (run (step []) emptyServer (spawnedFace ++ [.get])).map
      (fun s => (s.channel.buffer, s.database.tasks.map DaemonTask.signals)) =
        some ([], [false]) := by decide +kernel
  have hsig : EachStep (step []) Signalled emptyServer (spawnedFace ++ [.get]) := by decide +kernel
  obtain ⟨s, hs, hquiet⟩ := Option.map_eq_some_iff.mp hrun
  obtain ⟨hbuffer, hsignals⟩ := Prod.ext_iff.mp hquiet
  have hann : ¬ s.Announced := by
    rintro (hkeep | ⟨t, ht, hsignal⟩)
    · rw [show s.channel.buffer = [] from hbuffer] at hkeep
      cases hkeep
    · have hmem : t.signals ∈ s.database.tasks.map DaemonTask.signals := List.mem_map_of_mem ht
      rw [show s.database.tasks.map DaemonTask.signals = [false] from hsignals, hsignal] at hmem
      simp at hmem
  have hserved := serves_current rfl rfl hsig _ s List.prefix_rfl hs
  exact ⟨s, hs, hann, hserved.resolve_right hann⟩

theorem spawning_served : ∃ s₁ s, run (step []) emptyServer spawning = some s₁ ∧
    run (step []) s₁ (reloading ++ [.get]) = some s ∧
    ∃ stored, s.database.shared.apps.lookup faceApp.id = some stored ∧
      (stored.info.name = "face" → ∀ app, s.services = .ready app → ¬ s.Announced →
        ∃ deployment dir, app = some (deployment, dir, dir) ∧ deployment.name = "face" ∧
          latestDir [] s.database.shared deployment = .ok dir) := by
  have hreplied : (run (step []) emptyServer spawning).map (·.database.tasks) =
      some [.reply faceCall (.ok ⟨true, none, none⟩)] := by decide +kernel
  obtain ⟨s₁, hs₁, htasks⟩ := Option.map_eq_some_iff.mp hreplied
  have hrun : (run (step []) emptyServer (spawning ++ (reloading ++ [.get]))).isSome = true := by
    decide +kernel
  rw [run_append, hs₁] at hrun
  obtain ⟨s, hs⟩ := Option.isSome_iff_exists.mp hrun
  have hsig : EachStep (step []) Signalled emptyServer (spawning ++ (reloading ++ [.get])) := by
    decide +kernel
  have hat : ∀ r, .database (.start r) ∈ spawning → r.At "http://10.0.0.2:50051" := by
    intro r hr
    simp only [spawning, List.mem_cons, LiveStep.database.injEq, Act.start.injEq, reduceCtorEq,
      List.not_mem_nil, or_false, false_or] at hr
    rw [hr]
    exact ⟨rfl, rfl⟩
  have hreply : .reply faceCall (.ok ⟨true, none, none⟩) ∈ s₁.database.tasks := by
    rw [htasks]
    exact List.mem_singleton_self _
  exact ⟨s₁, s, hs₁, hs, spawned_is_served rfl rfl (List.forall_mem_nil _) hat hsig hs₁ hs hreply⟩

end Torn

end LiveServer

end Laqista
