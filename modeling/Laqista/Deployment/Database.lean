import Laqista.Deployment.Fs

/-! # The database of a server

`Inner` is what is behind the database's mutex: the applications that were added, and the instances
that were started. `addApp` downloads an archive, saves it below the root directory and then stores
the application; `read` opens the directory again. -/

namespace Laqista

open Laqista.Proto Laqista.Lib

def SavedApplication.new (info : DeploymentInfo) (deployments : List SavedDeployment) :
    SavedApplication := ⟨info, deployments⟩

structure Inner where
  apps : ApplicationMap
  instances : List Uuid
  deriving DecidableEq

def appRootDir (root : Path) : Path := root.join "apps"

def appDir (root : Path) (deployment : DeploymentInfo) : Path :=
  (appRootDir root).join deployment.name

namespace Inner

/-- An application that is there keeps its info and gets one more deployment. -/
def insert (inner : Inner) (info : DeploymentInfo) (saved : SavedDeployment) : Inner :=
  { inner with
    apps := inner.apps.upsert (.new info [saved]) fun a =>
      { a with deployments := a.deployments ++ [saved] } }

variable [Archives] [Crates]

def read (listing : Listing) (root : Path) : EStateM DatabaseError World Inner := do
  let apps ← Fs.readApps listing (appRootDir root)
  return ⟨apps, []⟩

end Inner

namespace DeploymentDatabase

variable [Archives] [Crates]

/-- `DeploymentDatabase::read_dir`, with the directories in the order of the listing. -/
def readDir (listing : Listing) (root : Path) :
    EStateM DatabaseError World Inner :=
  Inner.read listing root

/-- `save`, at the time `now`. -/
def save (root : Path) (info : DeploymentInfo) (now : DateTime) (tgz : List UInt8) :
    File SavedDeployment := do
  let appPath := appDir root info
  let saved : SavedDeployment := ⟨now, sha256 tgz⟩
  let savePath := appPath.join saved.dirName
  Fs.writeTgz savePath tgz
  let infoPath := appPath.join infoFileName
  Fs.writeInfo infoPath info
  return saved

/-- `add_app`, with the answer to the download and the time at which it arrives. -/
def addApp (root : Path) (inner : Inner) (info : DeploymentInfo)
    (bin : Except String (List UInt8)) (now : DateTime) (w : World) :
    Except DatabaseError Unit × Inner × World :=
  match bin with
  | .error e => (.error (.request e), inner, w)
  | .ok bin =>
    match save root info now bin w with
    | .ok saved w => (.ok (), inner.insert info saved, w)
    | .error e w => (.error (.io e), inner, w)

/-- The directory that `get` reads from. -/
def latestDir (root : Path) (inner : Inner) (info : DeploymentInfo) : Except DatabaseError Path :=
  match inner.apps.lookup info.id with
  | none => .error (.noApplication info)
  | some app =>
    match app.deployments.getLast? with
    | none => .error (.noDeployment info)
    | some latestDeployment => .ok ((appDir root info).join latestDeployment.dirName)

def get (root : Path) (inner : Inner) (d : Disk) (listing : Listing) (info : DeploymentInfo)
    (target : Target) : Except DatabaseError (List UInt8) := do
  let dir ← latestDir root inner info
  (Fs.readBinary d listing dir target).mapError .io

/-- `lookup`, with the applications in the order `it`. -/
def lookup (it : List SavedApplication) (name : String) : Option DeploymentInfo :=
  (it.find? fun a => a.info.name = name).map (·.info)

end DeploymentDatabase
end Laqista
