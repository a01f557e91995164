import Laqista.Crates

/-! # The error type

`Error` collects the errors of the libraries. An error of a library that the program only prints is
kept as its text. The conversions are the `From` instances: which constructor an error ends up in
decides how the reporter reacts to it. -/

namespace Laqista

inductive Error where
  | appInstantiation (err : String)
  | io (err : String)
  | ip (err : String)
  | mac (err : String)
  | noneError
  | requestError (err : Status)
  | sendStateError (err : String)
  | transportError (err : TransportError)
  | text (err : String)
  | url (err : String)
  | uuid (err : String)
  | other (err : String)
  deriving DecidableEq, Repr

namespace Error

/-- `Display`. -/
def display [Crates] : Error → String
  | appInstantiation err => "error instantiating an application: " ++ err
  | io err => "io error: " ++ err
  | ip err => "local ip address error: " ++ err
  | mac err => "error parsing a mac address: " ++ err
  | noneError => "an empty value occured somewhere"
  | requestError err => "request to another node failed: " ++ showStatus err
  | sendStateError err => "failed to send state via tx: " ++ err
  | transportError err => "tonic transport error: " ++ err.text
  | text err => err
  | url err => "error parsing an url: " ++ err
  | uuid err => "error parsing uuid: " ++ err
  | other err => err

/-- `Into<Status>`. -/
def intoStatus [Crates] (e : Error) : Status := Status.aborted e.display

/-- `From<Status>`. -/
def fromStatus (s : Status) : Error := requestError s

/-- `From<String>` and `From<&str>`. -/
def fromString (s : String) : Error := text s

/-- `From<uuid::Error>`, by the text of the error. -/
def fromUuid (s : String) : Error := uuid s

end Error

/-- A status never becomes a transport error. -/
theorem fromStatus_ne_transport (s : Status) (e : TransportError) :
    Error.fromStatus s ≠ .transportError e := by
  intro h
  cases h

end Laqista
