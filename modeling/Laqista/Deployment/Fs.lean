import Laqista.Deployment.Saved
import Laqista.Info
import Laqista.Lib.Protobuf

/-! # The database on the disk

Writing archives and info files, and reading the applications back. Writing is a computation in
`File`, of which any operation can fail. Reading is a function of the disk and of the order in which
the directories are listed. `Archives` has what the program takes from prost, from tar with flate2,
and from sha2. -/

namespace Laqista

open Laqista.Proto Laqista.Lib

/-- `Box<dyn Error>`, by what is in the box. -/
inductive DatabaseError where
  | io (e : IoError)
  | request (err : String)
  | decode (err : String)
  | text (err : String)
  /-- "Application not found: ..", with the info that was asked for. -/
  | noApplication (info : DeploymentInfo)
  /-- "Deployment not found for app: ..", with the info that was asked for. -/
  | noDeployment (info : DeploymentInfo)
  deriving DecidableEq, Repr

/-- An entry of an archive: its path and its contents, each of which can be unreadable. -/
structure Entry where
  path : Except IoError String
  contents : Except IoError (List UInt8)

/-- The functions of the prost, tar, flate2 and sha2 crates that the program calls. A message that
was encoded is decoded. -/
class Archives where
  /-- `encode_to_vec`. -/
  encode : Deployment → List UInt8
  /-- `Message::decode`, with the text of the error. -/
  decode : List UInt8 → Except String Deployment
  /-- `Archive::entries` of a `GzDecoder`: the entries up to the first that cannot be read. -/
  entries : List UInt8 → Except IoError (List (Except IoError Entry))
  sha256 : List UInt8 → Hash
  decode_encode : ∀ d, decode (encode d) = .ok d

export Archives (encode decode entries sha256)

@[simp] theorem decode_encode [Archives] (d : Deployment) : decode (encode d) = .ok d :=
  Archives.decode_encode d

/-- A compressed archive without entries. -/
def emptyArchive : List UInt8 :=
  [31, 139, 8, 0, 0, 0, 0, 0, 2, 255, 99, 96, 24, 5, 163, 96, 20, 140, 84, 0, 0, 46, 175, 181, 239,
    0, 4, 0, 0]

/-- What a server sends when there is no archive: "404: Not Found". -/
def notFoundPage : List UInt8 := Protobuf.utf8 "404: Not Found"

/-- The format of prost, and what the other crates make of the empty archive and of a page that is
not an archive. -/
@[reducible] def Archives.sample : Archives where
  encode d := Protobuf.message [d.id, d.source, d.name]
  decode contents :=
    match Protobuf.readMessage 3 contents with
    | some [id, source, name] => .ok ⟨id, source, name⟩
    | _ => .error "failed to decode Protobuf message"
  entries tgz := .ok (if tgz = emptyArchive then [] else [.error (.other "invalid gzip header")])
  sha256 tgz :=
    if tgz = emptyArchive then 0xa1b1b81d3d1afdb8fe119b002318c12c20934713b9754a40f702adb18a2540b9
    else if tgz = notFoundPage then
      0xd5558cd419c8d46bdc958064cb97f963d1ea793866414c025906ec15033512ed
    else 0
  decode_encode d := by
    have hread := Protobuf.readMessage_message [d.id, d.source, d.name]
    rw [List.length_cons, List.length_cons, List.length_cons, List.length_nil] at hread
    simp only [hread]

structure SavedApplication where
  info : DeploymentInfo
  deployments : List SavedDeployment
  deriving DecidableEq

/-- `IdMap<SavedApplication>`: applications are stored under the id of their info. -/
abbrev ApplicationMap := Keyed fun a : SavedApplication => a.info.id

inductive Target where
  | onnx
  | wasm
  deriving DecidableEq, Repr

def Target.toString : Target → String
  | .wasm => "wasm"
  | .onnx => "onnx"

/-- `extension_matches`. -/
def Target.extensionMatches (target : Target) (filename : String) : Bool :=
  target.toString.toList.isSuffixOf filename.toList

def infoFileName : String := "info.laqista"

def gitignoreFileName : String := ".gitignore"

def gitignoreContent : List UInt8 := "*".toUTF8.toList

namespace Fs

open Lib.File

/-- `?` on a result that does not depend on the disk. -/
def lift {α : Type} : Except IoError α → File α
  | .ok a => pure a
  | .error e => throw e

/-! ### Writing -/

def openDir (p : Path) : File Place := do
  match ← attempt (readDir p) with
  | .ok dir => return dir
  | .error .notFound => do
    createDirAll p
    readDir p
  | .error e => throw e

def openDirRoot (p : Path) : File Place := do
  let dir ← openDir p
  write (p.join gitignoreFileName) gitignoreContent
  return dir

variable [Archives] [Crates]

/-- The closure of `write_tgz`: one entry is read and written into the directory, under its own
file name. -/
def writeEntry (p : Path) (entryResult : Except IoError Entry) : File Unit := do
  let entry ← lift entryResult
  let entryPath ← lift entry.path
  let fileName ← lift ((Path.ofText entryPath).fileName.elim (.error .notFound) .ok)
  let filePath := p.join fileName
  let contents ← lift entry.contents
  write filePath contents

def writeTgz (p : Path) (tgz : List UInt8) : File Unit := do
  let _ ← openDir p
  let archive ← lift (entries tgz)
  archive.forM (writeEntry p)

def writeInfo (p : Path) (info : DeploymentInfo) : File Unit := write p (encode info.into)

/-! ### Reading -/

def readInfo (d : Disk) (place : Place) : Except DatabaseError Deployment :=
  match d.node place with
  | some (.file contents) =>
    match decode contents with
    | .ok deployment => .ok deployment
    | .error e => .error (.decode e)
  | some .dir => .error (.io .isADirectory)
  | none => .error (.io .notFound)

/-- The body of the loop of `read_per_app`: a file is the info, whatever its name, and a directory
is a saved deployment. -/
def readAppEntry (d : Disk) (app : Place) (acc : List SavedDeployment × Option DeploymentInfo)
    (name : String) : Except DatabaseError (List SavedDeployment × Option DeploymentInfo) :=
  match d.node (name :: app) with
  | some (.file _) => do
    let deployment ← readInfo d (name :: app)
    return (acc.1, (DeploymentInfo.tryFrom deployment).toOption)
  | some .dir =>
    match SavedDeployment.read name with
    | some deployment => .ok (acc.1 ++ [deployment], acc.2)
    | none => .error (.text "failed to parse directory name")
  | none => .error (.io .notFound)

def readPerApp (d : Disk) (listing : Listing) (app : Place) :
    Except DatabaseError SavedApplication := do
  let (v, info) ← (listing app).foldlM (readAppEntry d app) ([], none)
  match info with
  | some i => return ⟨i, v⟩
  | none => .error (.text "failed to get id")

/-- The body of the loop of `read_apps`. -/
def readRootEntry (d : Disk) (listing : Listing) (root : Place) (map : ApplicationMap)
    (name : String) : Except DatabaseError ApplicationMap :=
  match d.node (name :: root) with
  | some .dir => do
    let app ← readPerApp d listing (name :: root)
    return map.insert app
  | some (.file _) => .ok map
  | none => .error (.io .notFound)

def readApps (listing : Listing) (p : Path) : EStateM DatabaseError World ApplicationMap := fun w =>
  match openDirRoot p w with
  | .error e w => .error (.io e) w
  | .ok root w =>
    match (listing root).foldlM (readRootEntry w.disk listing root) (.empty _) with
    | .ok map => .ok map w
    | .error e => .error e w

/-- The first entry whose name ends with the extension of the target. -/
def readBinary (d : Disk) (listing : Listing) (p : Path) (target : Target) :
    Except IoError (List UInt8) := do
  let place ← d.resolve p
  match d.node place with
  | some .dir =>
    match (listing place).find? target.extensionMatches with
    | none => .error .notFound
    | some name =>
      match d.node (name :: place) with
      | some (.file contents) => return contents
      | some .dir => .error .isADirectory
      | none => .error .notFound
  | some (.file _) => .error .notADirectory
  | none => .error .notFound

end Fs
end Laqista
