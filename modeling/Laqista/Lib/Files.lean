import Mathlib.Data.Finmap
import Mathlib.Tactic.Common

/-! # Files and directories

A `Disk` is a finite tree of files and directories, given by what is at each place. A `Path` is what
a program asks for; it is resolved from directory to directory, also through `..`. A program on
files is a computation in `File`: each operation takes the next entry of `faults`, with which the
operating system may refuse it, or stop a write in the middle.

* `join`: the path of a name inside a directory, as `std::path` builds it.
* `createDirAll`, `write`: the operations of `std::fs`.
* `Keeps`: what every operation of a computation keeps, the whole computation keeps.
* `createDirAll_addsDirs`: creating directories only adds directories on the way to the path.
* `Lists`: a listing gives the entries of each directory once, in any order. -/

namespace Laqista.Lib

/-! ### Disks -/

/-- An error of the operating system, by its kind. -/
inductive IoError where
  | notFound | alreadyExists | notADirectory | isADirectory
  | other (text : String)
  deriving DecidableEq, Repr

inductive Node where
  | file (contents : List UInt8)
  | dir
  deriving DecidableEq, Repr

/-- The names on the way to a node, the innermost first. -/
abbrev Place := List String

/-- What is at each place. Only directories have something inside. -/
structure Disk where
  nodes : Finmap fun _ : Place => Node
  top : nodes.lookup [] = some .dir
  closed : ∀ name place, nodes.lookup (name :: place) ≠ none → nodes.lookup place = some .dir

namespace Disk

/-- `at`: the node at a place. -/
def node (d : Disk) (place : Place) : Option Node := d.nodes.lookup place

/-- A disk without anything but its top directory. -/
def blank : Disk where
  nodes := (∅ : Finmap fun _ : Place => Node).insert [] .dir
  top := Finmap.lookup_insert _
  closed := by
    intro name place h
    rw [Finmap.lookup_insert_of_ne _ (by simp)] at h
    exact absurd (Finmap.lookup_empty _) h

/-- Put a node where there is no directory. -/
def put (d : Disk) (name : String) (place : Place) (node : Node)
    (hdir : d.node place = some .dir) (hfree : d.node (name :: place) ≠ some .dir) : Disk where
  nodes := d.nodes.insert (name :: place) node
  top := by
    rw [Finmap.lookup_insert_of_ne _ (by simp)]
    exact d.top
  closed := by
    intro m q h
    have hq : d.node q = some .dir := by
      by_cases hm : m :: q = name :: place
      · obtain ⟨-, rfl⟩ := List.cons.inj hm
        exact hdir
      · rw [Finmap.lookup_insert_of_ne _ hm] at h
        exact d.closed m q h
    have hne : q ≠ name :: place := by
      rintro rfl
      exact hfree hq
    rw [Finmap.lookup_insert_of_ne _ hne]
    exact hq

theorem node_put {d : Disk} {name : String} {place : Place} {node : Node}
    {hdir : d.node place = some .dir} {hfree : d.node (name :: place) ≠ some .dir} (q : Place) :
    (d.put name place node hdir hfree).node q =
      if q = name :: place then some node else d.node q := by
  unfold Disk.node put
  by_cases hq : q = name :: place
  · subst hq
    rw [if_pos rfl, Finmap.lookup_insert]
  · rw [if_neg hq, Finmap.lookup_insert_of_ne _ hq]

@[simp] theorem node_nil (d : Disk) : d.node [] = some .dir := d.top

theorem node_blank (q : Place) : blank.node q = if q = [] then some .dir else none := by
  by_cases hq : q = []
  · subst hq
    exact blank.node_nil
  · unfold Disk.node blank
    rw [if_neg hq, Finmap.lookup_insert_of_ne _ hq, Finmap.lookup_empty]

/-- What is inside something is inside a directory. -/
theorem node_tail {d : Disk} {name : String} {place : Place} {node : Node}
    (h : d.node (name :: place) = some node) : d.node place = some .dir :=
  d.closed name place (by
    intro hnone
    rw [Disk.node, hnone] at h
    exact absurd h (by simp))

/-- Make a directory. -/
def mkdir (d : Disk) : Place → Except IoError Disk
  | [] => .error .alreadyExists
  | name :: place =>
    if hdir : d.node place = some .dir then
      if hfree : d.node (name :: place) = none then
        .ok (d.put name place .dir hdir (by simp [hfree]))
      else .error .alreadyExists
    else .error .notFound

/-- Make a file with the given contents, or replace its contents. -/
def store (d : Disk) (contents : List UInt8) : Place → Except IoError Disk
  | [] => .error .isADirectory
  | name :: place =>
    if hdir : d.node place = some .dir then
      if hfree : d.node (name :: place) = some .dir then .error .isADirectory
      else .ok (d.put name place (.file contents) hdir hfree)
    else .error .notFound

theorem mkdir_ok {d d' : Disk} {q : Place} (h : d.mkdir q = .ok d') :
    d.node q = none ∧ ∀ p, d'.node p = if p = q then some .dir else d.node p := by
  rcases q with _ | ⟨name, place⟩
  · simp [mkdir] at h
  · simp only [mkdir] at h
    split_ifs at h with hdir hfree
    obtain rfl := Except.ok.inj h
    exact ⟨hfree, node_put⟩

theorem store_ok {d d' : Disk} {contents : List UInt8} {q : Place}
    (h : d.store contents q = .ok d') :
    d.node q ≠ some .dir ∧ ∀ p, d'.node p = if p = q then some (.file contents) else d.node p := by
  rcases q with _ | ⟨name, place⟩
  · simp [store] at h
  · simp only [store] at h
    split_ifs at h with hdir hfree
    obtain rfl := Except.ok.inj h
    exact ⟨hfree, node_put⟩

end Disk

/-! ### Paths -/

inductive Component where
  | parent
  | normal (name : String)
  deriving DecidableEq, Repr

/-- The components of an absolute path, the innermost first. -/
abbrev Path := List Component

/-- Where a component leads. -/
def Component.enter : Component → Place → Place
  | .parent, place => place.tail
  | .normal name, place => name :: place

/-- The place that a path names: everything before its last component is a directory. -/
def Disk.resolve (d : Disk) : Path → Except IoError Place
  | [] => .ok []
  | c :: p =>
    match d.resolve p with
    | .error e => .error e
    | .ok place =>
      match d.node place with
      | some .dir => .ok (c.enter place)
      | some (.file _) => .error .notADirectory
      | none => .error .notFound

/-- A path names a directory. -/
def Disk.DirAt (d : Disk) (p : Path) (place : Place) : Prop :=
  d.resolve p = .ok place ∧ d.node place = some .dir

theorem Disk.DirAt.resolve_cons {d : Disk} {p : Path} {q : Place} (h : d.DirAt p q)
    (c : Component) : d.resolve (c :: p) = .ok (c.enter q) := by
  simp only [Disk.resolve, h.1, h.2]

namespace Path

/-- The components of a text: nothing between two slashes, or a dot, is not one. -/
def component (s : List Char) : Option Component :=
  if s = [] ∨ s = ['.'] then none
  else if s = ['.', '.'] then some .parent
  else some (.normal (String.ofList s))

/-- `Path::components`, the innermost first. -/
def ofText (s : String) : Path := ((s.toList.splitOn '/').filterMap component).reverse

/-- `Path::join`: an absolute text replaces the path. -/
def join (p : Path) (s : String) : Path :=
  if s.toList.head? = some '/' then ofText s else ofText s ++ p

/-- `Path::file_name`. -/
def fileName : Path → Option String
  | .normal name :: _ => some name
  | _ => none

/-- `Path::extension`: what follows the last dot of the file name, unless nothing stands before the
dot. -/
def extension (p : Path) : Option String :=
  p.fileName.bind fun name =>
    let text := name.toList.reverse
    let after := text.takeWhile (· ≠ '.')
    if text.length ≤ after.length + 1 then none else some (String.ofList after.reverse)

/-- A text that is a single component. -/
def IsName (s : String) : Prop :=
  s.toList ≠ [] ∧ s.toList ≠ ['.'] ∧ s.toList ≠ ['.', '.'] ∧ '/' ∉ s.toList

theorem join_name {s : String} (h : IsName s) (p : Path) : join p s = .normal s :: p := by
  obtain ⟨hne, hdot, hdots, hslash⟩ := h
  have hcomponent : component s.toList = some (.normal s) := by
    unfold component
    rw [if_neg (by tauto), if_neg hdots, String.ofList_toList]
  have hhead : s.toList.head? ≠ some '/' := fun hs => hslash (List.mem_of_mem_head? hs)
  unfold join ofText
  rw [List.splitOn_eq_singleton hslash, if_neg hhead]
  simp [hcomponent]

/-- A file name ends with its extension. -/
theorem suffix_of_extension {p : Path} {e : String} (h : extension p = some e) :
    ∃ name, fileName p = some name ∧ e.toList <:+ name.toList := by
  unfold extension at h
  obtain ⟨name, hname, h⟩ := Option.bind_eq_some_iff.mp h
  refine ⟨name, hname, ?_⟩
  simp only at h
  split_ifs at h
  obtain rfl := Option.some.inj h
  have hprefix := List.takeWhile_prefix (l := name.toList.reverse) (· ≠ '.')
  rw [String.toList_ofList]
  simpa using List.reverse_suffix.mpr hprefix

/-- The parts between separators contain none. -/
theorem not_mem_of_mem_splitOn {a : Char} {xs l : List Char} (h : l ∈ xs.splitOn a) : a ∉ l := by
  induction xs generalizing l with
  | nil =>
    rw [List.splitOn_nil, List.mem_singleton] at h
    simp [h]
  | cons x xs ih =>
    rw [List.splitOn_cons_eq_if_modifyHead] at h
    rcases hs : xs.splitOn a with _ | ⟨m, ms⟩
    · exact absurd hs (List.splitOn_ne_nil a xs)
    · rw [hs] at h ih
      by_cases hx : x == a
      · rw [if_pos hx] at h
        rcases List.mem_cons.mp h with rfl | h
        · simp
        · exact ih h
      · rw [if_neg hx, List.modifyHead_cons] at h
        rcases List.mem_cons.mp h with rfl | h
        · have hne : a ≠ x := fun heq => hx (by simp [heq])
          simp [hne, ih (List.mem_cons_self ..)]
        · exact ih (List.mem_cons_of_mem _ h)

/-- A file name is a single component. -/
theorem isName_of_fileName {s name : String} (h : fileName (ofText s) = some name) :
    IsName name := by
  have hmem : .normal name ∈ ofText s := by
    rcases hp : ofText s with _ | ⟨c, p⟩
    · rw [hp] at h
      simp [fileName] at h
    · rw [hp] at h
      rcases c with _ | n
      · simp [fileName] at h
      · obtain rfl := Option.some.inj h
        exact List.mem_cons_self ..
  obtain ⟨l, hl, hc⟩ := List.mem_filterMap.mp (List.mem_reverse.mp hmem)
  unfold component at hc
  split_ifs at hc with hdot hdots
  · simp at hc
  · simp only [Option.some.injEq, Component.normal.injEq] at hc
    subst hc
    have hslash := not_mem_of_mem_splitOn hl
    unfold IsName
    rw [String.toList_ofList]
    tauto

end Path

/-! ### Computations on files -/

/-- What an operation meets: an error instead of its work, or, for a write with `written`, after
so many bytes. -/
structure Fault where
  error : IoError
  written : Option ℕ
  deriving DecidableEq, Repr

/-- The disk, and what the next operations meet. -/
structure World where
  disk : Disk
  faults : List (Option Fault)

/-- `io::Result`, on a world. -/
abbrev File := EStateM IoError World

namespace File

/-- An operation that does all of its work or nothing. -/
def operation {α : Type} (f : Disk → Except IoError (α × Disk)) : File α := fun w =>
  match w.faults.head? with
  | some (some fault) => .error fault.error ⟨w.disk, w.faults.tail⟩
  | _ =>
    match f w.disk with
    | .ok (a, d) => .ok a ⟨d, w.faults.tail⟩
    | .error e => .error e ⟨w.disk, w.faults.tail⟩

/-- `std::fs::read_dir`: the directory whose entries can then be listed. -/
def readDir (p : Path) : File Place :=
  operation fun d => do
    let place ← d.resolve p
    match d.node place with
    | some .dir => return (place, d)
    | some (.file _) => .error .notADirectory
    | none => .error .notFound

/-- `std::fs::create_dir`. -/
def createDir (p : Path) : File Unit :=
  operation fun d => do
    let place ← d.resolve p
    let d ← d.mkdir place
    return ((), d)

/-- `std::fs::metadata`. -/
def stat (p : Path) : File Node :=
  operation fun d => do
    let place ← d.resolve p
    match d.node place with
    | some node => return (node, d)
    | none => .error .notFound

/-- `Path::is_dir`: an error counts as no. -/
def isDir (p : Path) : File Bool := fun w =>
  match stat p w with
  | .ok node w => .ok (node = .dir) w
  | .error _ w => .ok false w

/-- The result of a computation as a value. -/
def attempt {α : Type} (x : File α) : File (Except IoError α) := fun w =>
  match x w with
  | .ok a w => .ok (.ok a) w
  | .error e w => .ok (.error e) w

/-- A directory that could not be created may be there. -/
def orIsDir (p : Path) : Except IoError Unit → File Unit
  | .ok () => pure ()
  | .error e => do if ← isDir p then pure () else throw e

/-- `std::fs::create_dir_all`. -/
def createDirAll : Path → File Unit
  | [] => do
    match ← attempt (createDir []) with
    | .error .notFound => throw (.other "failed to create whole tree")
    | r => orIsDir [] r
  | c :: p => do
    match ← attempt (createDir (c :: p)) with
    | .error .notFound => do
      createDirAll p
      orIsDir (c :: p) (← attempt (createDir (c :: p)))
    | r => orIsDir (c :: p) r

/-- `std::fs::write` without an error in the middle: the file is created or emptied, then
written. -/
def writeAll (p : Path) (contents : List UInt8) : File Unit :=
  operation fun d => do
    let place ← d.resolve p
    let d ← d.store contents place
    return ((), d)

/-- `std::fs::write`. -/
def write (p : Path) (contents : List UInt8) : File Unit := fun w =>
  match w.faults.head? with
  | some (some ⟨error, some k⟩) =>
    if k < contents.length then
      match writeAll p (contents.take k) ⟨w.disk, none :: w.faults.tail⟩ with
      | .ok () w => .error error w
      | .error e w => .error e w
    else writeAll p contents ⟨w.disk, none :: w.faults.tail⟩
  | _ => writeAll p contents w

end File

/-! ### What a computation leaves -/

/-- The disk after a computation, whether it succeeds or not. -/
def after {ε α : Type} (x : EStateM ε World α) (w : World) : Disk :=
  match x w with
  | .ok _ w' => w'.disk
  | .error _ w' => w'.disk

section After
variable {ε α β : Type} {w w' : World}

theorem after_ok {x : EStateM ε World α} {a : α} (h : x w = .ok a w') : after x w = w'.disk := by
  unfold after
  rw [h]

theorem after_error {x : EStateM ε World α} {e : ε} (h : x w = .error e w') :
    after x w = w'.disk := by
  unfold after
  rw [h]

theorem bind_ok {x : EStateM ε World α} {f : α → EStateM ε World β} {b : β} :
    (x >>= f) w = .ok b w' ↔ ∃ a w₁, x w = .ok a w₁ ∧ f a w₁ = .ok b w' := by
  simp only [bind, EStateM.bind]
  rcases x w with ⟨a, w₁⟩ | ⟨e, w₁⟩
  · simp
  · simp

theorem bind_error {x : EStateM ε World α} {f : α → EStateM ε World β} {e : ε} :
    (x >>= f) w = .error e w' ↔
      x w = .error e w' ∨ ∃ a w₁, x w = .ok a w₁ ∧ f a w₁ = .error e w' := by
  simp only [bind, EStateM.bind]
  rcases x w with ⟨a, w₁⟩ | ⟨e, w₁⟩
  · simp
  · simp

theorem throw_ne_ok {e : ε} {a : α} : (throw e : EStateM ε World α) w ≠ .ok a w' := by
  intro h
  cases h

theorem pure_ne_error {e : ε} {a : α} : (pure a : EStateM ε World α) w ≠ .error e w' := by
  intro h
  cases h

/-- What holds of the disk after a part that fails, or after the rest, holds after both. -/
theorem after_bind {P : Disk → Prop} {x : EStateM ε World α} {f : α → EStateM ε World β}
    (herror : ∀ e w₁, x w = .error e w₁ → P w₁.disk)
    (hok : ∀ a w₁, x w = .ok a w₁ → P (after (f a) w₁)) : P (after (x >>= f) w) := by
  rcases h : (x >>= f) w with ⟨b, w'⟩ | ⟨e, w'⟩
  · obtain ⟨a, w₁, hx, hf⟩ := bind_ok.mp h
    rw [after_ok h, ← after_ok hf]
    exact hok a w₁ hx
  · rw [after_error h]
    rcases bind_error.mp h with hx | ⟨a, w₁, hx, hf⟩
    · exact herror e w' hx
    · rw [← after_error hf]
      exact hok a w₁ hx

end After

namespace File

variable {w w' : World}

theorem operation_ok {α : Type} {f : Disk → Except IoError (α × Disk)} {a : α}
    (h : operation f w = .ok a w') : f w.disk = .ok (a, w'.disk) := by
  unfold operation at h
  split at h
  · simp at h
  · split at h
    · next b d hf =>
      simp only [EStateM.Result.ok.injEq] at h
      obtain ⟨rfl, rfl⟩ := h
      exact hf
    · simp at h

theorem operation_error {α : Type} {f : Disk → Except IoError (α × Disk)} {e : IoError}
    (h : operation f w = .error e w') : w'.disk = w.disk := by
  unfold operation at h
  split at h
  · obtain ⟨rfl, rfl⟩ := EStateM.Result.error.inj h
    rfl
  · split at h
    · simp at h
    · obtain ⟨rfl, rfl⟩ := EStateM.Result.error.inj h
      rfl

theorem readDir_ok {p : Path} {place : Place} (h : readDir p w = .ok place w') :
    w'.disk = w.disk ∧ w.disk.DirAt p place := by
  have hf := operation_ok h
  rcases hr : w.disk.resolve p with e | q
  · rw [hr] at hf
    simp [bind, Except.bind] at hf
  · rw [hr] at hf
    rcases hn : w.disk.node q with _ | _ | _
    · simp [bind, Except.bind, hn] at hf
    · simp [bind, Except.bind, hn] at hf
    · simp only [bind, Except.bind, hn, pure, Except.pure, Except.ok.injEq, Prod.mk.injEq] at hf
      obtain ⟨rfl, hd⟩ := hf
      exact ⟨hd.symm, hr, hn⟩

theorem readDir_error {p : Path} {e : IoError} (h : readDir p w = .error e w') :
    w'.disk = w.disk := operation_error h

/-- Without faults, a directory that is there is opened. -/
theorem readDir_of_dirAt {d : Disk} {p : Path} {place : Place} (h : d.DirAt p place) :
    readDir p ⟨d, []⟩ = .ok place ⟨d, []⟩ := by
  unfold readDir operation
  simp only [List.head?_nil, h.1, bind, Except.bind, h.2, pure, Except.pure, List.tail_nil]

theorem createDir_ok {p : Path} (h : createDir p w = .ok () w') :
    ∃ q, w.disk.resolve p = .ok q ∧ w.disk.node q = none ∧
      ∀ r, w'.disk.node r = if r = q then some .dir else w.disk.node r := by
  have hf := operation_ok h
  rcases hr : w.disk.resolve p with e | q
  · rw [hr] at hf
    simp [bind, Except.bind] at hf
  · rw [hr] at hf
    rcases hm : w.disk.mkdir q with e | d
    · simp [bind, Except.bind, hm] at hf
    · simp only [bind, Except.bind, hm, pure, Except.pure, Except.ok.injEq, Prod.mk.injEq,
        true_and] at hf
      obtain ⟨hnone, hnode⟩ := Disk.mkdir_ok hm
      exact ⟨q, rfl, hnone, fun r => by rw [← hf]; exact hnode r⟩

theorem createDir_error {p : Path} {e : IoError} (h : createDir p w = .error e w') :
    w'.disk = w.disk := operation_error h

theorem stat_ok {p : Path} {node : Node} (h : stat p w = .ok node w') :
    w'.disk = w.disk ∧ ∃ q, w.disk.resolve p = .ok q ∧ w.disk.node q = some node := by
  have hf := operation_ok h
  rcases hr : w.disk.resolve p with e | q
  · rw [hr] at hf
    simp [bind, Except.bind] at hf
  · rw [hr] at hf
    rcases hn : w.disk.node q with _ | n
    · simp [bind, Except.bind, hn] at hf
    · simp only [bind, Except.bind, hn, pure, Except.pure, Except.ok.injEq, Prod.mk.injEq] at hf
      obtain ⟨rfl, hd⟩ := hf
      exact ⟨hd.symm, q, rfl, hn⟩

/-- Asking whether a path is a directory does not fail, and yes is right. -/
theorem isDir_eq (p : Path) (w : World) : ∃ b w', isDir p w = .ok b w' ∧ w'.disk = w.disk ∧
    (b = true → ∃ q, w.disk.DirAt p q) := by
  unfold isDir
  rcases h : stat p w with ⟨node, w'⟩ | ⟨e, w'⟩
  · obtain ⟨hd, q, hq, hn⟩ := stat_ok h
    refine ⟨_, w', rfl, hd, fun hb => ⟨q, hq, ?_⟩⟩
    rw [hn, of_decide_eq_true hb]
  · exact ⟨false, w', rfl, operation_error h, by simp⟩

theorem after_orIsDir (p : Path) (r : Except IoError Unit) (w : World) :
    after (orIsDir p r) w = w.disk := by
  rcases r with e | ⟨⟩
  · unfold orIsDir
    obtain ⟨b, w', hb, hd, -⟩ := isDir_eq p w
    refine after_bind (P := fun d => d = w.disk) ?_ ?_
    · intro e w₁ h
      rw [hb] at h
      simp at h
    · intro b' w₁ h
      rw [hb] at h
      obtain ⟨rfl, rfl⟩ := EStateM.Result.ok.inj h
      rcases b
      · exact hd
      · exact hd
  · rfl

theorem attempt_bind_ok {α β : Type} {x : File α} {f : Except IoError α → File β} {a : α}
    (h : x w = .ok a w') : (attempt x >>= f) w = f (.ok a) w' := by
  simp only [bind, EStateM.bind, attempt, h]

theorem attempt_bind_error {α β : Type} {x : File α} {f : Except IoError α → File β} {e : IoError}
    (h : x w = .error e w') : (attempt x >>= f) w = f (.error e) w' := by
  simp only [bind, EStateM.bind, attempt, h]

/-- Looking whether a directory is there, after trying to create it. -/
theorem after_attempt_orIsDir (p : Path) (w : World) :
    after (attempt (createDir p) >>= orIsDir p) w = after (createDir p) w := by
  rcases h : createDir p w with ⟨a, w'⟩ | ⟨e, w'⟩
  · rw [after_ok h, ← after_orIsDir p (.ok a) w']
    unfold after
    rw [attempt_bind_ok h]
  · rw [after_error h, ← after_orIsDir p (.error e) w']
    unfold after
    rw [attempt_bind_error h]

/-- **What each attempt to create a directory keeps, creating all of them keeps.** -/
theorem createDirAll_keeps {R : Disk → Disk → Prop} (hrefl : ∀ d, R d d)
    (htrans : ∀ d₁ d₂ d₃, R d₁ d₂ → R d₂ d₃ → R d₁ d₃) {p : Path}
    (h : ∀ q, q <:+ p → ∀ w, R w.disk (after (createDir q) w)) (w : World) :
    R w.disk (after (createDirAll p) w) := by
  -- the first attempt, and what follows it unless it says that the parent is missing
  have hfirst : ∀ (p : Path) (f : Except IoError Unit → File Unit),
      (∀ w, R w.disk (after (createDir p) w)) →
      (∀ r, r ≠ .error .notFound → f r = orIsDir p r) →
      (∀ w, R w.disk (after (f (.error .notFound)) w)) →
      ∀ w, R w.disk (after (attempt (createDir p) >>= f) w) := by
    intro p f hc hf hmissing w
    have hw := hc w
    rcases hr : createDir p w with ⟨a, w'⟩ | ⟨e, w'⟩
    · rw [after_ok hr, ← after_orIsDir p (.ok a) w', ← hf _ (by simp)] at hw
      unfold after at hw ⊢
      rw [attempt_bind_ok hr]
      exact hw
    · by_cases he : e = .notFound
      · subst he
        have hsame := createDir_error hr
        have hrest := hmissing w'
        rw [hsame] at hrest
        unfold after at hrest ⊢
        rw [attempt_bind_error hr]
        exact hrest
      · rw [after_error hr, ← after_orIsDir p (.error e) w', ← hf _ (by simp [he])] at hw
        unfold after at hw ⊢
        rw [attempt_bind_error hr]
        exact hw
  induction p generalizing w with
  | nil =>
    rw [createDirAll]
    refine hfirst [] _ (h [] List.suffix_rfl) ?_ (fun w => hrefl _) w
    intro r hr
    rcases r with e | a
    · cases e <;> first | rfl | exact absurd rfl hr
    · rfl
  | cons c p ih =>
    rw [createDirAll]
    refine hfirst (c :: p) _ (h _ List.suffix_rfl) ?_ ?_ w
    · intro r hr
      rcases r with e | a
      · cases e <;> first | rfl | exact absurd rfl hr
      · rfl
    · intro w
      have hparent := ih (fun q hq => h q (hq.trans (List.suffix_cons c p)))
      refine after_bind ?_ ?_
      · intro e w₁ hp
        have hw := hparent w
        rwa [after_error hp] at hw
      · intro a w₁ hp
        have hw := hparent w
        rw [after_ok hp] at hw
        rw [after_attempt_orIsDir]
        exact htrans _ _ _ hw (h _ List.suffix_rfl w₁)

theorem writeAll_ok {p : Path} {contents : List UInt8} (h : writeAll p contents w = .ok () w') :
    ∃ q, w.disk.resolve p = .ok q ∧ w.disk.node q ≠ some .dir ∧
      ∀ r, w'.disk.node r = if r = q then some (.file contents) else w.disk.node r := by
  have hf := operation_ok h
  rcases hr : w.disk.resolve p with e | q
  · rw [hr] at hf
    simp [bind, Except.bind] at hf
  · rw [hr] at hf
    rcases hm : w.disk.store contents q with e | d
    · simp [bind, Except.bind, hm] at hf
    · simp only [bind, Except.bind, hm, pure, Except.pure, Except.ok.injEq, Prod.mk.injEq,
        true_and] at hf
      obtain ⟨hfree, hnode⟩ := Disk.store_ok hm
      exact ⟨q, rfl, hfree, fun r => by rw [← hf]; exact hnode r⟩

/-- A write that succeeds replaces the contents of one file. -/
theorem write_ok {p : Path} {contents : List UInt8} (h : write p contents w = .ok () w') :
    ∃ q, w.disk.resolve p = .ok q ∧ w.disk.node q ≠ some .dir ∧
      ∀ r, w'.disk.node r = if r = q then some (.file contents) else w.disk.node r := by
  unfold write at h
  split at h
  · split_ifs at h with hk
    · split at h
      · simp at h
      · simp at h
    · exact writeAll_ok (w := ⟨w.disk, none :: w.faults.tail⟩) h
  · exact writeAll_ok h

/-- Without faults, a file in a directory is written. -/
theorem write_of_dirAt {d : Disk} {p : Path} {place : Place} (h : d.DirAt p place) {name : String}
    (hfree : d.node (name :: place) ≠ some .dir) (contents : List UInt8) :
    ∃ d', write (.normal name :: p) contents ⟨d, []⟩ = .ok () ⟨d', []⟩ := by
  refine ⟨d.put name place (.file contents) h.2 hfree, ?_⟩
  have hresolve : d.resolve (.normal name :: p) = .ok (name :: place) := h.resolve_cons _
  unfold write writeAll operation
  simp only [List.head?_nil, hresolve, bind, Except.bind, Disk.store, dif_pos h.2, dif_neg hfree,
    pure, Except.pure, List.tail_nil]

/-- The next write of `n` bytes is interrupted after `k` of them. -/
def Interrupted (w : World) (n k : ℕ) : Prop :=
  k < n ∧ ∃ e, w.faults.head? = some (some ⟨e, some k⟩)

/-- A write that fails changes nothing, or it is interrupted and leaves the beginning. -/
theorem write_error {p : Path} {contents : List UInt8} {e : IoError}
    (h : write p contents w = .error e w') :
    w'.disk = w.disk ∨ ∃ k, Interrupted w contents.length k ∧
      ∃ q, w.disk.resolve p = .ok q ∧ w.disk.node q ≠ some .dir ∧
        ∀ r, w'.disk.node r = if r = q then some (.file (contents.take k)) else w.disk.node r := by
  unfold write at h
  split at h
  · next e' k hfault =>
    split_ifs at h with hk
    · split at h
      · next w₁ hw =>
        obtain ⟨-, rfl⟩ := EStateM.Result.error.inj h
        exact .inr ⟨k, ⟨hk, e', hfault⟩,
          writeAll_ok (w := ⟨w.disk, none :: w.faults.tail⟩) hw⟩
      · next e'' w₁ hw =>
        obtain ⟨-, rfl⟩ := EStateM.Result.error.inj h
        exact .inl (operation_error (w := ⟨w.disk, none :: w.faults.tail⟩) hw)
    · exact .inl (operation_error (w := ⟨w.disk, none :: w.faults.tail⟩) h)
  · exact .inl (operation_error h)

/-- A write into a directory that is interrupted leaves the beginning. -/
theorem write_interrupted {p : Path} {place : Place} {name : String} {contents : List UInt8} {k : ℕ}
    (h : w.disk.DirAt p place) (hfree : w.disk.node (name :: place) ≠ some .dir)
    (hk : Interrupted w contents.length k) :
    ∃ e w', write (.normal name :: p) contents w = .error e w' ∧
      w'.disk.node (name :: place) = some (.file (contents.take k)) := by
  obtain ⟨hlt, e, hfault⟩ := hk
  have hresolve : w.disk.resolve (.normal name :: p) = .ok (name :: place) := h.resolve_cons _
  refine ⟨e, ⟨w.disk.put name place (.file (contents.take k)) h.2 hfree, w.faults.tail⟩, ?_, ?_⟩
  · unfold write writeAll operation
    simp only [hfault, hlt, if_true, List.head?_cons, hresolve, bind, Except.bind, Disk.store,
      dif_pos h.2, dif_neg hfree, pure, Except.pure, List.tail_cons]
  · rw [Disk.node_put, if_pos rfl]

end File

/-! ### Changes of a disk -/

theorem Disk.ext_node {d d' : Disk} (h : ∀ q, d.node q = d'.node q) : d = d' := by
  have hnodes : d.nodes = d'.nodes := Finmap.ext_lookup h
  cases d
  cases d'
  cases hnodes
  rfl

/-- Directories stay. -/
def KeepsDirs (d d' : Disk) : Prop := ∀ q, d.node q = some .dir → d'.node q = some .dir

/-- Only directories are added, at some places. -/
def AddsDirs (A : Place → Prop) (d d' : Disk) : Prop :=
  ∀ q, d'.node q = d.node q ∨ (d.node q = none ∧ d'.node q = some .dir ∧ A q)

/-- Only files are written, at some places. -/
def WritesFiles (A : Place → Prop) (d d' : Disk) : Prop :=
  ∀ q, d'.node q = d.node q ∨
    (d.node q ≠ some .dir ∧ (∃ contents, d'.node q = some (.file contents)) ∧ A q)

theorem AddsDirs.keepsDirs {A : Place → Prop} {d d' : Disk} (h : AddsDirs A d d') :
    KeepsDirs d d' := by
  intro q hq
  rcases h q with hsame | ⟨-, hdir, -⟩
  · rw [hsame, hq]
  · exact hdir

theorem WritesFiles.keepsDirs {A : Place → Prop} {d d' : Disk} (h : WritesFiles A d d') :
    KeepsDirs d d' := by
  intro q hq
  rcases h q with hsame | ⟨hfree, -⟩
  · rw [hsame, hq]
  · exact absurd hq hfree

theorem AddsDirs.refl (A : Place → Prop) (d : Disk) : AddsDirs A d d := fun _ => .inl rfl

theorem WritesFiles.refl (A : Place → Prop) (d : Disk) : WritesFiles A d d := fun _ => .inl rfl

theorem AddsDirs.trans {A : Place → Prop} {d₁ d₂ d₃ : Disk} (h : AddsDirs A d₁ d₂)
    (h' : AddsDirs A d₂ d₃) : AddsDirs A d₁ d₃ := by
  intro q
  rcases h q with hsame | ⟨hnone, hdir, hA⟩
  · rw [← hsame]
    exact h' q
  · exact .inr ⟨hnone, h'.keepsDirs q hdir, hA⟩

theorem WritesFiles.trans {A : Place → Prop} {d₁ d₂ d₃ : Disk} (h : WritesFiles A d₁ d₂)
    (h' : WritesFiles A d₂ d₃) : WritesFiles A d₁ d₃ := by
  intro q
  rcases h q with hsame | ⟨hfree, hfile, hA⟩
  · rw [← hsame]
    exact h' q
  · rcases h' q with hsame | ⟨-, hfile', -⟩
    · rw [hsame]
      exact .inr ⟨hfree, hfile, hA⟩
    · exact .inr ⟨hfree, hfile', hA⟩

theorem AddsDirs.mono {A B : Place → Prop} {d d' : Disk} (h : AddsDirs A d d')
    (hAB : ∀ q, A q → B q) : AddsDirs B d d' := by
  intro q
  rcases h q with hsame | ⟨hnone, hdir, hA⟩
  · exact .inl hsame
  · exact .inr ⟨hnone, hdir, hAB q hA⟩

theorem WritesFiles.mono {A B : Place → Prop} {d d' : Disk} (h : WritesFiles A d d')
    (hAB : ∀ q, A q → B q) : WritesFiles B d d' := by
  intro q
  rcases h q with hsame | ⟨hfree, hfile, hA⟩
  · exact .inl hsame
  · exact .inr ⟨hfree, hfile, hAB q hA⟩

/-- Other places are as they were. -/
theorem AddsDirs.node_eq {A : Place → Prop} {d d' : Disk} (h : AddsDirs A d d') {q : Place}
    (hq : ¬ A q) : d'.node q = d.node q := by
  rcases h q with hsame | ⟨-, -, hA⟩
  · exact hsame
  · exact absurd hA hq

theorem WritesFiles.node_eq {A : Place → Prop} {d d' : Disk} (h : WritesFiles A d d') {q : Place}
    (hq : ¬ A q) : d'.node q = d.node q := by
  rcases h q with hsame | ⟨-, -, hA⟩
  · exact hsame
  · exact absurd hA hq

/-- A file written at one place. -/
theorem WritesFiles.single {A : Place → Prop} {d d' : Disk} {contents : List UInt8} {q : Place}
    (hfree : d.node q ≠ some .dir)
    (h : ∀ r, d'.node r = if r = q then some (.file contents) else d.node r) (hA : A q) :
    WritesFiles A d d' := by
  intro r
  by_cases hr : r = q
  · subst hr
    rw [h r, if_pos rfl]
    exact .inr ⟨hfree, ⟨contents, rfl⟩, hA⟩
  · rw [h r, if_neg hr]
    exact .inl rfl

/-- Where directories stay, a path names the same place. -/
theorem KeepsDirs.resolve {d d' : Disk} (h : KeepsDirs d d') {p : Path} {q : Place}
    (hp : d.resolve p = .ok q) : d'.resolve p = .ok q := by
  induction p generalizing q with
  | nil => exact hp
  | cons c p ih =>
    simp only [Disk.resolve] at hp ⊢
    rcases hr : d.resolve p with e | r
    · rw [hr] at hp
      simp at hp
    · rw [hr] at hp
      rcases hn : d.node r with _ | _ | _
      · simp [hn] at hp
      · simp [hn] at hp
      · simp only [hn] at hp
        rw [ih hr]
        simp only [h r hn]
        exact hp

theorem KeepsDirs.dirAt {d d' : Disk} (h : KeepsDirs d d') {p : Path} {q : Place}
    (hp : d.DirAt p q) : d'.DirAt p q :=
  ⟨h.resolve hp.1, h q hp.2⟩

/-- What comes before the last component is a directory. -/
theorem Disk.resolve_cons {d : Disk} {c : Component} {p : Path} {q : Place}
    (h : d.resolve (c :: p) = .ok q) : ∃ r, d.DirAt p r ∧ q = c.enter r := by
  simp only [Disk.resolve] at h
  rcases hr : d.resolve p with e | r
  · rw [hr] at h
    simp at h
  · rw [hr] at h
    rcases hn : d.node r with _ | _ | _
    · simp [hn] at h
    · simp [hn] at h
    · simp only [hn, Except.ok.injEq] at h
      exact ⟨r, ⟨hr, hn⟩, h.symm⟩

/-- Names below a directory lead to the place with these names. -/
theorem Disk.DirAt.resolve_names {d : Disk} {p : Path} {place q : Place} (h : d.DirAt p place)
    {names : List String} (hq : d.resolve (names.map .normal ++ p) = .ok q) :
    q = names ++ place := by
  induction names generalizing q with
  | nil =>
    rw [List.map_nil, List.nil_append, h.1] at hq
    exact (Except.ok.inj hq).symm
  | cons name names ih =>
    obtain ⟨r, hr, rfl⟩ := Disk.resolve_cons hq
    rw [ih hr.1]
    rfl

/-- The beginning of a path below a directory leads to the directory or goes on below it. -/
theorem suffix_names {p s : Path} {names : List String} (h : s <:+ names.map .normal ++ p) :
    s <:+ p ∨ ∃ below, below <:+ names ∧ s = below.map .normal ++ p := by
  induction names with
  | nil => exact .inl h
  | cons name names ih =>
    rcases List.suffix_cons_iff.mp h with rfl | h
    · exact .inr ⟨name :: names, List.suffix_rfl, rfl⟩
    · rcases ih h with hp | ⟨below, hbelow, rfl⟩
      · exact .inl hp
      · exact .inr ⟨below, hbelow.trans (List.suffix_cons name names), rfl⟩

/-- The beginning of a path to a directory is a path to a directory. -/
theorem Disk.DirAt.suffix {d : Disk} {p s : Path} {place : Place} (h : d.DirAt p place)
    (hs : s <:+ p) : ∃ q, d.DirAt s q := by
  induction p generalizing place with
  | nil =>
    obtain rfl := List.suffix_nil.mp hs
    exact ⟨place, h⟩
  | cons c p ih =>
    rcases List.suffix_cons_iff.mp hs with rfl | hs
    · exact ⟨place, h⟩
    · obtain ⟨r, hr, -⟩ := Disk.resolve_cons h.1
      exact ih hr hs

namespace File

/-- A directory is not created twice. -/
theorem after_createDir_of_dirAt {p : Path} {q : Place} {w : World} (h : w.disk.DirAt p q) :
    after (createDir p) w = w.disk := by
  rcases hc : createDir p w with ⟨⟨⟩, w'⟩ | ⟨e, w'⟩
  · obtain ⟨r, hr, hnone, -⟩ := createDir_ok hc
    rw [h.1] at hr
    obtain rfl := Except.ok.inj hr
    rw [h.2] at hnone
    exact absurd hnone (by simp)
  · rw [after_error hc, createDir_error hc]

/-- Without faults, a file in a directory is written unless a directory has its name. -/
theorem write_ok_iff {d : Disk} {p : Path} {place : Place} {w' : World} (h : d.DirAt p place)
    {name : String} {contents : List UInt8} :
    write (.normal name :: p) contents ⟨d, []⟩ = .ok () w' ↔
      d.node (name :: place) ≠ some .dir ∧ w'.faults = [] ∧ ∀ q, w'.disk.node q =
        if q = name :: place then some (.file contents) else d.node q := by
  have hleft : ∀ w', write (.normal name :: p) contents ⟨d, []⟩ = .ok () w' →
      d.node (name :: place) ≠ some .dir ∧ ∀ q, w'.disk.node q =
        if q = name :: place then some (.file contents) else d.node q := by
    intro w' hw
    obtain ⟨q, hq, hfree, hnode⟩ := write_ok hw
    have hresolve := h.resolve_cons (.normal name)
    rw [hresolve] at hq
    obtain rfl := Except.ok.inj hq
    exact ⟨hfree, hnode⟩
  constructor
  · intro hw
    obtain ⟨hfree, hnode⟩ := hleft w' hw
    obtain ⟨d', hw'⟩ := write_of_dirAt h hfree contents
    rw [hw] at hw'
    obtain ⟨-, rfl⟩ := EStateM.Result.ok.inj hw'
    exact ⟨hfree, rfl, hnode⟩
  · rintro ⟨hfree, hfaults, hnode⟩
    obtain ⟨d', hw⟩ := write_of_dirAt h hfree contents
    have hsame : d' = w'.disk := Disk.ext_node fun q => by
      rw [hnode, (hleft _ hw).2]
    rw [hw, hsame, ← hfaults]

/-- A write into a directory changes at most the file. -/
theorem after_write {contents : List UInt8} {name : String} {p : Path} {place : Place} {w : World}
    (h : w.disk.DirAt p place) : WritesFiles (fun q => q = name :: place) w.disk
      (after (write (.normal name :: p) contents) w) := by
  have hresolve := h.resolve_cons (.normal name)
  rcases hw : write (.normal name :: p) contents w with ⟨⟨⟩, w₁⟩ | ⟨e, w₁⟩
  · obtain ⟨q, hq, hfree, hnode⟩ := write_ok hw
    rw [hresolve] at hq
    obtain rfl := Except.ok.inj hq
    rw [after_ok hw]
    exact .single hfree hnode rfl
  · rw [after_error hw]
    rcases write_error hw with hsame | ⟨k, -, q, hq, hfree, hnode⟩
    · rw [hsame]
      exact .refl _ _
    · rw [hresolve] at hq
      obtain rfl := Except.ok.inj hq
      exact .single hfree hnode rfl

/-- What a computation keeps for each element of a list, it keeps for the list. -/
theorem forM_keeps {α : Type} {R : Disk → Disk → Prop} (hrefl : ∀ d, R d d)
    (htrans : ∀ d₁ d₂ d₃, R d₁ d₂ → R d₂ d₃ → R d₁ d₃) {f : α → File PUnit}
    (h : ∀ a w, R w.disk (after (f a) w)) (l : List α) (w : World) :
    R w.disk (after (l.forM f) w) := by
  induction l generalizing w with
  | nil => exact hrefl _
  | cons a l ih =>
    have ha := h a w
    refine after_bind (x := f a) (f := fun _ => l.forM f) ?_ ?_
    · intro e w₁ hf
      rwa [after_error hf] at ha
    · intro b w₁ hf
      rw [after_ok hf] at ha
      exact htrans _ _ _ ha (ih w₁)

/-- Creating a directory adds at most this one. -/
theorem after_createDir (p : Path) (w : World) :
    AddsDirs (fun q => w.disk.resolve p = .ok q) w.disk (after (createDir p) w) := by
  rcases hc : createDir p w with ⟨⟨⟩, w'⟩ | ⟨e, w'⟩
  · rw [after_ok hc]
    obtain ⟨q, hq, hnone, hnode⟩ := createDir_ok hc
    intro r
    by_cases hr : r = q
    · subst hr
      exact .inr ⟨hnone, by rw [hnode, if_pos rfl], hq⟩
    · exact .inl (by rw [hnode, if_neg hr])
  · rw [after_error hc, createDir_error hc]
    exact AddsDirs.refl _ _

/-- Creating all directories on a path only adds directories. -/
theorem createDirAll_onlyAdds (p : Path) (w : World) :
    AddsDirs (fun _ => True) w.disk (after (createDirAll p) w) :=
  createDirAll_keeps (R := AddsDirs fun _ => True) (fun d => AddsDirs.refl _ d)
    (fun _ _ _ h₁ h₂ => h₁.trans h₂) (fun q _ w => (after_createDir q w).mono fun _ _ => trivial) w

/-- **Creating all directories on a path below a directory only adds some of these.** -/
theorem createDirAll_addsDirs {p : Path} {place : Place} {w : World} (h : w.disk.DirAt p place)
    (names : List String) :
    AddsDirs (fun q => ∃ below, below ≠ [] ∧ below <:+ names ∧ q = below ++ place) w.disk
      (after (createDirAll (names.map .normal ++ p)) w) := by
  refine createDirAll_keeps (R := fun d d' => d.DirAt p place → AddsDirs (fun q =>
    ∃ below, below ≠ [] ∧ below <:+ names ∧ q = below ++ place) d d')
    (fun d _ => AddsDirs.refl _ d)
    (fun d₁ d₂ d₃ h₁ h₂ hp => (h₁ hp).trans (h₂ ((h₁ hp).keepsDirs.dirAt hp))) ?_ w h
  intro s hs w hp
  rcases suffix_names hs with hbase | ⟨below, hbelow, rfl⟩
  · obtain ⟨q, hq⟩ := hp.suffix hbase
    rw [after_createDir_of_dirAt hq]
    exact AddsDirs.refl _ _
  · rintro r
    rcases after_createDir (below.map .normal ++ p) w r with hsame | ⟨hnone, hdir, hq⟩
    · exact .inl hsame
    · obtain rfl := hp.resolve_names hq
      refine .inr ⟨hnone, hdir, below, ?_, hbelow, rfl⟩
      rintro rfl
      rw [List.nil_append, hp.2] at hnone
      exact absurd hnone (by simp)

end File

/-! ### Listings -/

/-- The entries of each directory, in the order in which they are listed. -/
abbrev Listing := Place → List String

/-- A listing gives each entry of each directory once. -/
def Disk.Lists (d : Disk) (listing : Listing) : Prop :=
  ∀ place, d.node place = some .dir →
    (listing place).Nodup ∧ ∀ name, name ∈ listing place ↔ d.node (name :: place) ≠ none

/-- A listing is checked at the places of the disk. -/
theorem Disk.lists_iff {d : Disk} {listing : Listing} : d.Lists listing ↔ ∀ place ∈ d.nodes.keys,
    (d.node place = some .dir → (listing place).Nodup ∧
      ∀ name ∈ listing place, d.node (name :: place) ≠ none) ∧
    (place ≠ [] → place.headD "" ∈ listing place.tail) := by
  have hmem : ∀ q, q ∈ d.nodes.keys ↔ d.node q ≠ none := by
    intro q
    rw [Finmap.mem_keys, ← Finmap.lookup_isSome, Option.isSome_iff_ne_none]
    rfl
  simp only [hmem]
  constructor
  · intro h place hplace
    refine ⟨fun hdir => ⟨(h place hdir).1, fun name => ((h place hdir).2 name).mp⟩, fun hne => ?_⟩
    rcases place with _ | ⟨name, place⟩
    · exact absurd rfl hne
    · obtain ⟨node, hnode⟩ := Option.ne_none_iff_exists'.mp hplace
      exact ((h place (node_tail hnode)).2 name).mpr hplace
  · intro h place hdir
    obtain ⟨hnodup, hsub⟩ := (h place (by simp [hdir])).1 hdir
    exact ⟨hnodup, fun name => ⟨hsub name, fun hn => (h (name :: place) hn).2 (by simp)⟩⟩

instance Disk.decidableLists (d : Disk) (listing : Listing) : Decidable (d.Lists listing) :=
  decidable_of_iff _ Disk.lists_iff.symm

theorem Disk.exists_lists (d : Disk) : ∃ listing, d.Lists listing := by
  classical
  refine ⟨fun place => ((d.nodes.keys.filter fun q => q.tail = place ∧ q ≠ []).image
    fun q => q.headD "").toList, fun place _ => ⟨Finset.nodup_toList _, fun name => ?_⟩⟩
  have hmem : ∀ q, q ∈ d.nodes.keys ↔ d.node q ≠ none := by
    intro q
    rw [Finmap.mem_keys, ← Finmap.lookup_isSome, Option.isSome_iff_ne_none]
    rfl
  simp only [Finset.mem_toList, Finset.mem_image, Finset.mem_filter, hmem]
  constructor
  · rintro ⟨q, ⟨hq, rfl, hne⟩, rfl⟩
    rcases q with _ | ⟨m, q⟩
    · exact absurd rfl hne
    · exact hq
  · intro h
    exact ⟨name :: place, ⟨h, rfl, by simp⟩, rfl⟩

/-- Any entry of a directory may be listed first. -/
theorem Disk.exists_lists_first {d : Disk} {name : String} {place : Place}
    (h : d.node (name :: place) ≠ none) :
    ∃ listing names, d.Lists listing ∧ listing place = name :: names := by
  obtain ⟨listing, hl⟩ := d.exists_lists
  refine ⟨Function.update listing place (name :: (listing place).erase name), _, ?_,
    Function.update_self ..⟩
  intro q hdir
  by_cases hq : q = place
  · subst hq
    obtain ⟨hnodup, hmem⟩ := hl q hdir
    have hperm := List.perm_cons_erase ((hmem name).mpr h)
    rw [Function.update_self]
    exact ⟨hperm.nodup_iff.mp hnodup, fun n => hperm.mem_iff.symm.trans (hmem n)⟩
  · rw [Function.update_of_ne hq]
    exact hl q hdir

/-- A listing of one disk can be used, at some directories, in a listing of another that has the
same entries there. -/
theorem Disk.Lists.exists_patch {d d' : Disk} {listing : Listing} (h : d'.Lists listing)
    {S : Place → Prop} (hS : ∀ place, S place → d.node place = some .dir →
      d'.node place = some .dir ∧
      ∀ name, d.node (name :: place) ≠ none ↔ d'.node (name :: place) ≠ none) :
    ∃ listing', d.Lists listing' ∧ ∀ place, S place → listing' place = listing place := by
  classical
  obtain ⟨other, hother⟩ := d.exists_lists
  refine ⟨fun place => if S place then listing place else other place, fun place hdir => ?_,
    fun place hp => if_pos hp⟩
  by_cases hp : S place
  · obtain ⟨hdir', hsame⟩ := hS place hp hdir
    simp only [if_pos hp, hsame]
    exact h place hdir'
  · simp only [if_neg hp]
    exact hother place hdir

end Laqista.Lib
