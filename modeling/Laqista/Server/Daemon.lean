import Laqista.Deployment.Database
import Laqista.Scheduler.Placed

/-! # The daemon and its database

A call of `spawn` is a task around the mutex of the daemon's database, and so is an `add_app` that
the scheduler of the same server asks for. Downloading and saving take place between two sections,
and so does the signal to the main loop; a task is told how they end. The mutex of the daemon's
runtime, which a `spawn` holds all the time, is left out, so that more orders are possible than with
it.

`daemon_step`: the database only grows, and a task that has replied with success has put its
deployment into the database before (`DaemonTask.Justified`). -/

namespace Laqista

open Laqista.Proto Laqista.Lib Laqista.Lib.Runs Laqista.Lib.Tasks

/-- Where a task of the daemon is. It has the call that it replies to, if there is one. -/
inductive DaemonTask where
  /-- `add_instance` looks for the application. -/
  | findApp (call : SpawnCall) (info : DeploymentInfo)
  /-- `add_app` waits for the download and saves it. -/
  | saveApp (call : Option SpawnCall) (info : DeploymentInfo)
  /-- `add_app` at its section. -/
  | insertApp (call : Option SpawnCall) (info : DeploymentInfo) (saved : SavedDeployment)
  /-- `add_instance` at its second section. -/
  | pushInstance (call : SpawnCall) (info : DeploymentInfo)
  /-- `add_instance` waits until the state command is sent. -/
  | sendKeep (call : SpawnCall) (info : DeploymentInfo)
  /-- `spawn` has returned. -/
  | reply (call : SpawnCall) (result : Except Status SpawnResponse)
  | done
  deriving DecidableEq

/-- What a step is told from outside: how the download and `save` end, and whether the state command
was sent. An error is told as its text. -/
inductive DaemonTold where
  | nothing
  | saved (result : Except String SavedDeployment)
  | keepSent (result : Except String Unit)

inductive DaemonCall where
  | spawn (call : SpawnCall) (r : SpawnRequest)
  | addApp (info : DeploymentInfo)

/-- The request of `deploy_in_us`. -/
def spawnRequest [Crates] (deployment : DeploymentInfo) : SpawnRequest := ⟨some deployment.into⟩

/-- The deployment of a request. -/
def spawnInfo [Crates] (r : SpawnRequest) : Except Status DeploymentInfo :=
  match r.deployment with
  | none => .error (.aborted "`deployment` is required`")
  | some deployment =>
    match DeploymentInfo.tryFrom deployment with
    | .ok info => .ok info
    | .error e => .error e.intoStatus

def insertFailed (e : String) : Status :=
  .aborted ("failed to insert deployment into database: " ++ e)

/-- The section of `add_instance`. -/
def Inner.addInstance (inner : Inner) (id : Uuid) : Inner :=
  { inner with instances := inner.instances ++ [id] }

/-- The task is at a request for the mutex. -/
def DaemonTask.enters : DaemonTask → Bool
  | findApp _ _ | insertApp _ _ _ | pushInstance _ _ => true
  | _ => false

def daemonStart [Crates] (_ : Inner) (_ : List DaemonTask) : DaemonCall → Option DaemonTask
  | .spawn call r =>
    match spawnInfo r with
    | .ok info => some (.findApp call info)
    | .error e => some (.reply call (.error e))
  | .addApp info => some (.saveApp none info)

def daemonBody (inner : Inner) : DaemonTask → DaemonTold → Option (Outcome Inner DaemonTask)
  | .findApp call info, .nothing =>
    match inner.apps.lookup info.id with
    | none => some ⟨inner, .saveApp (some call) info, [], false⟩
    | some _ => some ⟨inner, .pushInstance call info, [], false⟩
  | .insertApp none info saved, .nothing => some ⟨inner.insert info saved, .done, [], false⟩
  | .insertApp (some call) info saved, .nothing =>
    some ⟨inner.insert info saved, .pushInstance call info, [], false⟩
  | .pushInstance call info, .nothing =>
    some ⟨inner.addInstance info.id, .sendKeep call info, [], false⟩
  | _, _ => none

def daemonAwait : DaemonTask → DaemonTold → Option DaemonTask
  | .saveApp call info, .saved (.ok saved) => some (.insertApp call info saved)
  | .saveApp none _, .saved (.error _) => some .done
  | .saveApp (some call) _, .saved (.error e) => some (.reply call (.error (insertFailed e)))
  | .sendKeep call _, .keepSent (.ok ()) => some (.reply call (.ok ⟨true, none, none⟩))
  | .sendKeep call _, .keepSent (.error e) => some (.reply call (.error (insertFailed e)))
  | .reply _ _, .nothing => some .done
  | _, _ => none

/-- **The tasks of a daemon** around the mutex of its database. -/
def daemonTasks [Crates] : TaskSystem Inner DaemonTask DaemonCall DaemonTold where
  start := daemonStart
  enters := DaemonTask.enters
  body := daemonBody
  await := daemonAwait
  halt := .done

/-! ### The database -/

/-- The application is in the database and among the instances. -/
def Inner.Hosts (inner : Inner) (id : Uuid) : Prop := id ∈ inner.apps.ids ∧ id ∈ inner.instances

/-- Applications and instances stay. -/
structure Inner.Grows (inner inner' : Inner) : Prop where
  apps : ∀ id ∈ inner.apps.ids, id ∈ inner'.apps.ids
  instances : ∀ id ∈ inner.instances, id ∈ inner'.instances

theorem Inner.Grows.refl (inner : Inner) : inner.Grows inner := ⟨fun _ h => h, fun _ h => h⟩

theorem Inner.Grows.hosts {inner inner' : Inner} (h : inner.Grows inner') {id : Uuid}
    (hid : inner.Hosts id) : inner'.Hosts id :=
  ⟨h.apps id hid.1, h.instances id hid.2⟩

theorem mem_ids_insert {inner : Inner} {info : DeploymentInfo} {saved : SavedDeployment}
    {id : Uuid} : id ∈ (inner.insert info saved).apps.ids ↔ id = info.id ∨ id ∈ inner.apps.ids :=
  Keyed.mem_ids_upsert (m := inner.apps) (t := SavedApplication.new info [saved])
    (f := fun a => { a with deployments := a.deployments ++ [saved] }) fun _ => rfl

theorem grows_insert (inner : Inner) (info : DeploymentInfo) (saved : SavedDeployment) :
    inner.Grows (inner.insert info saved) :=
  ⟨fun _ h => mem_ids_insert.mpr (.inr h), fun _ h => h⟩

theorem grows_addInstance (inner : Inner) (id : Uuid) : inner.Grows (inner.addInstance id) :=
  ⟨fun _ h => h, fun _ h => List.mem_append_left _ h⟩

/-! ### Where a task is -/

/-- The task serves its call at the right address, and has done its work so far. -/
def DaemonTask.Justified (addr : String) (inner : Inner) : DaemonTask → Prop
  | findApp call info | saveApp (some call) info | insertApp (some call) info _ =>
    call.target.addr = addr ∧ call.deployment = info
  | pushInstance call info =>
    call.target.addr = addr ∧ call.deployment = info ∧ info.id ∈ inner.apps.ids
  | sendKeep call info =>
    call.target.addr = addr ∧ call.deployment = info ∧ inner.Hosts info.id
  | reply call (.ok _) => call.target.addr = addr ∧ inner.Hosts call.deployment.id
  | _ => True

section Steps

variable {addr : String} {inner inner' : Inner} {t t' : DaemonTask} {w : DaemonTold}

theorem justified_grows (hg : inner.Grows inner') (h : t.Justified addr inner) :
    t.Justified addr inner' := by
  cases t with
  | findApp call info => exact h
  | saveApp call info =>
    cases call with
    | none => trivial
    | some call => exact h
  | insertApp call info saved =>
    cases call with
    | none => trivial
    | some call => exact h
  | pushInstance call info =>
    obtain ⟨haddr, hinfo, happ⟩ := h
    exact ⟨haddr, hinfo, hg.apps _ happ⟩
  | sendKeep call info =>
    obtain ⟨haddr, hinfo, hhosts⟩ := h
    exact ⟨haddr, hinfo, hg.hosts hhosts⟩
  | reply call result =>
    cases result with
    | error e => trivial
    | ok r =>
      obtain ⟨haddr, hhosts⟩ := h
      exact ⟨haddr, hg.hosts hhosts⟩
  | done => trivial

/-- **What a section does**: the database grows, and the task has done what it is now past. -/
theorem justified_section {o : Outcome Inner DaemonTask} (h : t.Justified addr inner)
    (ho : daemonBody inner t w = some o) :
    inner.Grows o.shared ∧ o.next.Justified addr o.shared ∧ o.spawned = [] := by
  unfold daemonBody at ho
  split at ho
  · next call info =>
    split at ho
    · obtain rfl := Option.some.inj ho
      exact ⟨.refl _, h, rfl⟩
    · next a ha =>
      obtain rfl := Option.some.inj ho
      exact ⟨.refl _, ⟨h.1, h.2, Keyed.mem_ids_of_lookup ha⟩, rfl⟩
  · obtain rfl := Option.some.inj ho
    exact ⟨grows_insert _ _ _, trivial, rfl⟩
  · next call info saved =>
    obtain rfl := Option.some.inj ho
    exact ⟨grows_insert _ _ _, ⟨h.1, h.2, mem_ids_insert.mpr (.inl rfl)⟩, rfl⟩
  · next call info =>
    obtain rfl := Option.some.inj ho
    obtain ⟨haddr, hinfo, happ⟩ := h
    have hpushed : info.id ∈ (inner.addInstance info.id).instances :=
      List.mem_append_right _ (List.mem_singleton_self _)
    exact ⟨grows_addInstance _ _, ⟨haddr, hinfo, happ, hpushed⟩, rfl⟩
  · simp at ho

theorem justified_await (h : t.Justified addr inner) (ha : daemonAwait t w = some t') :
    t'.Justified addr inner := by
  unfold daemonAwait at ha
  split at ha
  · next call info saved =>
    obtain rfl := Option.some.inj ha
    cases call with
    | none => trivial
    | some call => exact h
  · obtain rfl := Option.some.inj ha
    trivial
  · obtain rfl := Option.some.inj ha
    trivial
  · next call info =>
    obtain rfl := Option.some.inj ha
    obtain ⟨haddr, rfl, hhosts⟩ := h
    exact ⟨haddr, hhosts⟩
  · obtain rfl := Option.some.inj ha
    trivial
  · obtain rfl := Option.some.inj ha
    trivial
  · simp at ha

variable [Crates]

@[simp] theorem spawnInfo_spawnRequest (deployment : DeploymentInfo) :
    spawnInfo (spawnRequest deployment) = .ok deployment := by
  simp [spawnInfo, spawnRequest]

/-- The call is for a daemon at the address, with the request of the scheduler. -/
def DaemonCall.At (addr : String) : DaemonCall → Prop
  | spawn call r => call.target.addr = addr ∧ r = spawnRequest call.deployment
  | addApp _ => True

/-- **What a step of a daemon keeps.** -/
theorem daemon_step {sys sys' : Atomic Inner DaemonTask} {a : Act DaemonCall DaemonTold}
    (h : ∀ t ∈ sys.tasks, t.Justified addr sys.shared) (hr : ∀ r, a = .start r → r.At addr)
    (hs : daemonTasks.astep sys a = some sys') :
    sys.shared.Grows sys'.shared ∧ ∀ t ∈ sys'.tasks, t.Justified addr sys'.shared := by
  rcases TaskSystem.astep_cases hs with ⟨r, t, rfl, ht, rfl⟩ | ⟨i, w, t, o, rfl, ht, -, ho, rfl⟩ |
    ⟨i, w, t, t', rfl, ht, -, ha, rfl⟩ | ⟨i, rfl, rfl⟩
  · refine ⟨.refl _, fun u hu => ?_⟩
    rcases List.mem_append.mp hu with hu | hu
    · exact h u hu
    · rw [List.mem_singleton.mp hu]
      rcases r with ⟨call, r⟩ | info
      · obtain ⟨haddr, rfl⟩ := hr _ rfl
        have hstart : daemonStart sys.shared sys.tasks (.spawn call
            (spawnRequest call.deployment)) = some t := ht
        simp only [daemonStart, spawnInfo_spawnRequest] at hstart
        obtain rfl := Option.some.inj hstart
        exact ⟨haddr, rfl⟩
      · obtain rfl := Option.some.inj ht
        trivial
  · obtain ⟨hgrows, hnext, hspawned⟩ := justified_section (h t (List.mem_of_getElem? ht)) ho
    refine ⟨hgrows, fun u hu => ?_⟩
    rw [hspawned, List.append_nil] at hu
    rcases List.mem_or_eq_of_mem_set hu with hu | rfl
    · exact justified_grows hgrows (h u hu)
    · exact hnext
  · refine ⟨.refl _, fun u hu => ?_⟩
    rcases List.mem_or_eq_of_mem_set hu with hu | rfl
    · exact h u hu
    · exact justified_await (h t (List.mem_of_getElem? ht)) ha
  · refine ⟨.refl _, fun u hu => ?_⟩
    rcases List.mem_or_eq_of_mem_set hu with hu | rfl
    · exact h u hu
    · trivial

/-- A task that only adds an application does to the database what `add_app` does. -/
theorem addApp_task [Archives] {root : Path} {info : DeploymentInfo}
    {bin : Except String (List UInt8)} {now : DateTime} {w w' : World}
    (h : DeploymentDatabase.addApp root inner info bin now w = (.ok (), inner', w')) :
    ∃ saved, run daemonTasks.astep ⟨inner, []⟩
      [.start (.addApp info), .await 0 (.saved (.ok saved)), .enter 0 .nothing] =
        some ⟨inner', [.done]⟩ := by
  unfold DeploymentDatabase.addApp at h
  rcases bin with e | tgz
  · simp at h
  · rcases hsave : DeploymentDatabase.save root info now tgz w with ⟨saved, w₁⟩ | ⟨e, w₁⟩
    · simp only [hsave, Prod.mk.injEq, true_and] at h
      obtain ⟨rfl, -⟩ := h
      exact ⟨saved, rfl⟩
    · simp [hsave] at h

end Steps
end Laqista
