import Laqista.Deployment.Newest
import Laqista.Deployment.Saving
import Laqista.Lib.Runs

/-! # Restarting the database

Memory stores applications under their ids, the disk under their names, with one info file in the
directory of a name. A run of successful `add_app` calls keeps the two in step as far as that goes
(`Mirrors`); opening the directory again gives back what was in memory exactly when no name was used
with two ids, and no call was made before 1970 (`restart_preserves_iff`). -/

namespace Laqista

open Laqista.Proto Laqista.Lib Laqista.Lib.Runs Laqista.Fs Laqista.DeploymentDatabase

/-- A call of `add_app`: its argument, the answer to the download, the time, and the errors that its
operations on files meet. -/
structure AddCall where
  info : DeploymentInfo
  bin : Except String (List UInt8)
  now : DateTime
  faults : List (Option Fault)

/-- A database between two calls. -/
structure Database where
  inner : Inner
  disk : Disk

/-- The application is in memory. -/
def Inner.Holds (inner : Inner) (a : SavedApplication) : Prop :=
  inner.apps.lookup a.info.id = some a

/-- The same info, and the same times to the second and hashes. -/
def SameApplication (a b : SavedApplication) : Prop :=
  a.info = b.info ∧ ∀ k, k ∈ a.deployments.map SavedDeployment.key ↔
    k ∈ b.deployments.map SavedDeployment.key

/-- The same ids, with the same application under each. -/
def SameApplications (m m' : ApplicationMap) : Prop :=
  m.ids = m'.ids ∧
    ∀ id a b, m.lookup id = some a → m'.lookup id = some b → SameApplication a b

/-- No name is used with two ids, and no time is before 1970. -/
def Restorable (cs : List AddCall) : Prop :=
  (∀ c ∈ cs, ∀ c' ∈ cs, c.info.name = c'.info.name → c.info.id = c'.info.id) ∧
    ∀ c ∈ cs, 0 ≤ c.now.secs

/-! ### Memory -/

section Memory

variable {inner : Inner} {info : DeploymentInfo} {saved : SavedDeployment}

/-- An id belongs to one info. -/
def Inner.Consistent (inner : Inner) (info : DeploymentInfo) : Prop :=
  ∀ a, inner.Holds a → a.info.id = info.id → a.info = info

theorem lookup_insert (inner : Inner) (info : DeploymentInfo) (saved : SavedDeployment)
    (id : Uuid) : (inner.insert info saved).apps.lookup id =
    if id = info.id then some ((inner.apps.lookup info.id).elim ⟨info, [saved]⟩ fun a =>
      { a with deployments := a.deployments ++ [saved] }) else inner.apps.lookup id :=
  Keyed.lookup_upsert (m := inner.apps) (t := SavedApplication.new info [saved])
    (f := fun a => { a with deployments := a.deployments ++ [saved] }) (fun _ => rfl) id

theorem Inner.Holds.insert {a : SavedApplication} (h : inner.Holds a) (hid : a.info.id ≠ info.id) :
    (inner.insert info saved).Holds a := by
  unfold Inner.Holds
  rw [lookup_insert, if_neg hid]
  exact h

/-- The application of the info after an insertion. -/
theorem holds_insert_self (saved : SavedDeployment) (hc : inner.Consistent info) :
    ∃ old, (inner.insert info saved).Holds ⟨info, old ++ [saved]⟩ ∧
      ∀ a, inner.Holds a → a.info.id = info.id → a = ⟨info, old⟩ := by
  have hinsert := lookup_insert inner info saved info.id
  rw [if_pos rfl] at hinsert
  rcases hl : inner.apps.lookup info.id with _ | b
  · refine ⟨[], ?_, ?_⟩
    · rw [hl] at hinsert
      exact hinsert
    · intro a ha hid
      rw [Inner.Holds, hid, hl] at ha
      exact absurd ha (by simp)
  · have hkey := Keyed.key_of_lookup hl
    have hb : inner.Holds b := by rw [Inner.Holds, hkey, hl]
    have hinfo := hc b hb hkey
    refine ⟨b.deployments, ?_, ?_⟩
    · rw [hl] at hinsert
      rw [← hinfo]
      rw [← hinfo] at hinsert
      exact hinsert
    · intro a ha hid
      rw [Inner.Holds, hid, hl] at ha
      obtain rfl := Option.some.inj ha
      rw [← hinfo]

/-- What memory holds after an insertion. -/
theorem holds_insert (hc : inner.Consistent info) {b : SavedApplication}
    (h : (inner.insert info saved).Holds b) :
    (inner.Holds b ∧ b.info.id ≠ info.id) ∨ (b.info = info ∧ ∃ old,
      b.deployments = old ++ [saved] ∧ (old = [] ∨ inner.Holds ⟨info, old⟩)) := by
  unfold Inner.Holds at h
  rw [lookup_insert] at h
  by_cases hid : b.info.id = info.id
  · rw [if_pos hid] at h
    right
    rcases hl : inner.apps.lookup info.id with _ | a
    · rw [hl] at h
      obtain rfl := Option.some.inj h
      exact ⟨rfl, [], rfl, .inl rfl⟩
    · rw [hl] at h
      have hkey := Keyed.key_of_lookup hl
      have ha : inner.Holds a := by rw [Inner.Holds, hkey, hl]
      have hinfo := hc a ha hkey
      obtain rfl := Option.some.inj h
      refine ⟨hinfo, a.deployments, rfl, .inr ?_⟩
      rw [← hinfo]
      exact ha
  · rw [if_neg hid] at h
    exact .inl ⟨h, hid⟩

/-- The names in memory after an insertion. -/
theorem exists_name_insert (hc : inner.Consistent info) {x : String} :
    (∃ b, (inner.insert info saved).Holds b ∧ b.info.name = x) ↔
      x = info.name ∨ ∃ a, inner.Holds a ∧ a.info.name = x := by
  obtain ⟨old, hnew, hold⟩ := holds_insert_self saved hc
  constructor
  · rintro ⟨b, hb, rfl⟩
    rcases holds_insert hc hb with ⟨hb, -⟩ | ⟨hinfo, -⟩
    · exact .inr ⟨b, hb, rfl⟩
    · exact .inl (congrArg DeploymentInfo.name hinfo)
  · rintro (rfl | ⟨a, ha, rfl⟩)
    · exact ⟨_, hnew, rfl⟩
    · by_cases hid : a.info.id = info.id
      · obtain rfl := hold a ha hid
        exact ⟨_, hnew, rfl⟩
      · exact ⟨a, ha.insert hid, rfl⟩

/-- The deployments in memory after an insertion, by the name of the application and the name of
the directory. -/
theorem exists_version_insert (hc : inner.Consistent info) {x v : String} :
    (∃ b, (inner.insert info saved).Holds b ∧ b.info.name = x ∧
        ∃ s ∈ b.deployments, s.dirName = v) ↔
      (x = info.name ∧ v = saved.dirName) ∨
        ∃ a, inner.Holds a ∧ a.info.name = x ∧ ∃ s ∈ a.deployments, s.dirName = v := by
  obtain ⟨old, hnew, hold⟩ := holds_insert_self saved hc
  constructor
  · rintro ⟨b, hb, rfl, s, hs, rfl⟩
    rcases holds_insert hc hb with ⟨hb, -⟩ | ⟨hinfo, old', hdeps, hold'⟩
    · exact .inr ⟨b, hb, rfl, s, hs, rfl⟩
    · rw [hdeps] at hs
      rw [hinfo]
      rcases List.mem_append.mp hs with hs | hs
      · rcases hold' with rfl | hold'
        · exact absurd hs (by simp)
        · exact .inr ⟨_, hold', rfl, s, hs, rfl⟩
      · rw [List.mem_singleton.mp hs]
        exact .inl ⟨rfl, rfl⟩
  · rintro (⟨rfl, rfl⟩ | ⟨a, ha, rfl, s, hs, rfl⟩)
    · exact ⟨_, hnew, rfl, saved, by simp, rfl⟩
    · by_cases hid : a.info.id = info.id
      · obtain rfl := hold a ha hid
        exact ⟨_, hnew, rfl, s, List.mem_append_left _ hs, rfl⟩
      · exact ⟨a, ha.insert hid, rfl, s, hs, rfl⟩

/-- Memory holds what the calls have added. -/
structure Remembers (done : List AddCall) (inner : Inner) : Prop where
  known : ∀ a, inner.Holds a → (∃ c ∈ done, c.info = a.info) ∧
    ∀ s ∈ a.deployments, ∃ c ∈ done, c.info = a.info ∧ c.now = s.timestamp
  stored : ∀ c ∈ done, ∃ a, inner.Holds a ∧ a.info = c.info ∧
    ∃ s ∈ a.deployments, s.timestamp = c.now

/-- A successful call is remembered. -/
theorem Remembers.insert {done : List AddCall} {c : AddCall} (h : Remembers done inner)
    (hc : inner.Consistent c.info) (hnow : saved.timestamp = c.now) :
    Remembers (done ++ [c]) (inner.insert c.info saved) := by
  have hc' : c ∈ done ++ [c] := by simp
  have hdone : ∀ c' ∈ done, c' ∈ done ++ [c] := fun c' => List.mem_append_left _
  constructor
  · intro b hb
    rcases holds_insert hc hb with ⟨hb, -⟩ | ⟨hinfo, old, hdeps, hold⟩
    · obtain ⟨⟨c', hmem, hinfo⟩, hs⟩ := h.known b hb
      refine ⟨⟨c', hdone c' hmem, hinfo⟩, fun s hmem => ?_⟩
      obtain ⟨c', hmem, hs⟩ := hs s hmem
      exact ⟨c', hdone c' hmem, hs⟩
    · refine ⟨⟨c, hc', hinfo.symm⟩, fun s hs => ?_⟩
      rw [hdeps] at hs
      rcases List.mem_append.mp hs with hs | hs
      · rcases hold with rfl | hold
        · exact absurd hs (by simp)
        · obtain ⟨c', hmem, hinfo', ht⟩ := (h.known _ hold).2 s hs
          exact ⟨c', hdone c' hmem, hinfo'.trans hinfo.symm, ht⟩
      · rw [List.mem_singleton.mp hs]
        exact ⟨c, hc', hinfo.symm, hnow.symm⟩
  · obtain ⟨old, hnew, hold⟩ := holds_insert_self saved hc
    intro c' hmem
    rcases List.mem_append.mp hmem with hmem | hmem
    · obtain ⟨a, ha, hinfo, s, hs, ht⟩ := h.stored c' hmem
      by_cases hid : a.info.id = c.info.id
      · obtain rfl := hold a ha hid
        exact ⟨_, hnew, hinfo, s, List.mem_append_left _ hs, ht⟩
      · exact ⟨a, ha.insert hid, hinfo, s, hs, ht⟩
    · rw [List.mem_singleton.mp hmem]
      exact ⟨_, hnew, rfl, saved, by simp, hnow⟩

/-- The application with a name, if the calls can be restored. -/
theorem Remembers.eq_of_name {cs : List AddCall} (hr : Remembers cs inner) (hcs : Restorable cs)
    {a b : SavedApplication} (ha : inner.Holds a) (hb : inner.Holds b)
    (hname : b.info.name = a.info.name) : b = a := by
  obtain ⟨⟨c, hc, hca⟩, -⟩ := hr.known a ha
  obtain ⟨⟨c', hc', hcb⟩, -⟩ := hr.known b hb
  have hid : b.info.id = a.info.id := by
    rw [← hca, ← hcb]
    rw [← hca, ← hcb] at hname
    exact hcs.1 c' hc' c hc hname
  rw [Inner.Holds, hid, ha] at hb
  exact (Option.some.inj hb).symm

/-- No deployment in memory is from before 1970, if the calls can be restored. -/
theorem Remembers.secs_nonneg {cs : List AddCall} (hr : Remembers cs inner) (hcs : Restorable cs)
    {a : SavedApplication} (ha : inner.Holds a) : ∀ s ∈ a.deployments, 0 ≤ s.timestamp.secs := by
  intro s hs
  obtain ⟨c, hc, -, hnow⟩ := (hr.known a ha).2 s hs
  rw [← hnow]
  exact hcs.2 c hc

/-- An id belongs to one info in memory if it does in the calls. -/
theorem Remembers.consistent {cs : List AddCall} (hr : Remembers cs inner)
    (hids : ∀ c ∈ cs, c.info.id = info.id → c.info = info) : inner.Consistent info := by
  intro a ha hid
  obtain ⟨⟨c, hc, hinfo⟩, -⟩ := hr.known a ha
  rw [← hinfo] at hid ⊢
  exact hids c hc hid

end Memory

/-! ### Memory and the disk -/

section Run

variable [Archives] [Crates]

/-- A call of `add_app` that succeeds. -/
def addStep (root : Path) (db : Database) (c : AddCall) : Option Database :=
  match addApp root db.inner c.info c.bin c.now ⟨db.disk, c.faults⟩ with
  | (.ok (), inner, w) => some ⟨inner, w.disk⟩
  | (.error _, _, _) => none

/-- A directory for each name in memory, with the info of one of its applications and a directory
for each of their deployments. -/
structure Mirrors (root : Path) (place : Place) (db : Database) : Prop where
  opened : Opened db.disk root place
  app : ∀ x, db.disk.node (x :: place) = some .dir ↔ ∃ a, db.inner.Holds a ∧ a.info.name = x
  info : ∀ x, db.disk.node (x :: place) = some .dir → ∃ a, db.inner.Holds a ∧ a.info.name = x ∧
    db.disk.node (infoFileName :: x :: place) = some (.file (encode a.info.into))
  only : ∀ x name contents, db.disk.node (name :: x :: place) = some (.file contents) →
    name = infoFileName
  versions : ∀ x name, db.disk.node (name :: x :: place) = some .dir ↔
    ∃ a, db.inner.Holds a ∧ a.info.name = x ∧ ∃ s ∈ a.deployments, s.dirName = name

variable {root : Path} {place : Place} {db db' : Database} {c : AddCall}

/-- A successful call saves the archive and stores the application. -/
theorem addStep_eq_some (h : addStep root db c = some db') : ∃ tgz w, c.bin = .ok tgz ∧
    save root c.info c.now tgz ⟨db.disk, c.faults⟩ = .ok ⟨c.now, sha256 tgz⟩ w ∧
      db' = ⟨db.inner.insert c.info ⟨c.now, sha256 tgz⟩, w.disk⟩ := by
  unfold addStep addApp at h
  rcases hb : c.bin with e | tgz
  · simp [hb] at h
  · rcases hs : save root c.info c.now tgz ⟨db.disk, c.faults⟩ with ⟨saved, w⟩ | ⟨e, w⟩
    · simp only [hb, hs, Option.some.injEq] at h
      obtain ⟨rfl, -⟩ := save_ok hs
      exact ⟨tgz, w, rfl, hs, h.symm⟩
    · simp [hb, hs] at h

/-- **A successful call keeps memory and the disk in step.** -/
theorem Mirrors.insert {inner : Inner} {info : DeploymentInfo} {saved : SavedDeployment}
    {d d' : Disk} (h : Mirrors root place ⟨inner, d⟩) (hc : inner.Consistent info)
    (hd : SavedAt root place info saved d d') :
    Mirrors root place ⟨inner.insert info saved, d'⟩ := by
  refine ⟨hd.opened, fun x => ?_, fun x hdir => ?_, fun x name contents hfile => ?_,
    fun x name => ?_⟩
  · rw [exists_name_insert hc]
    by_cases hx : x = info.name
    · subst hx
      exact iff_of_true hd.app (.inl rfl)
    · show d'.node (x :: place) = some .dir ↔ _
      rw [hd.root_eq hx, or_iff_right hx]
      exact h.app x
  · by_cases hx : x = info.name
    · subst hx
      obtain ⟨old, hnew, -⟩ := holds_insert_self saved hc
      exact ⟨_, hnew, rfl, hd.infoFile⟩
    · have hdir' : d.node (x :: place) = some .dir := by
        rw [← hd.root_eq hx]
        exact hdir
      obtain ⟨a, ha, hname, hfile⟩ := h.info x hdir'
      have hid : a.info.id ≠ info.id := by
        intro hid
        rw [hc a ha hid] at hname
        exact hx hname.symm
      refine ⟨a, ha.insert hid, hname, ?_⟩
      show d'.node _ = _
      rw [hd.entry_eq (.inl hx)]
      exact hfile
  · rcases hd.entry_cases x name with ⟨-, -, hn⟩ | ⟨-, hi, -⟩ | ⟨-, hn⟩
    · exact absurd (hn.symm.trans hfile) (by simp)
    · exact hi
    · exact h.only x name contents (hn.symm.trans hfile)
  · rw [exists_version_insert hc]
    show d'.node _ = _ ↔ _
    rcases hd.entry_cases x name with ⟨hx, hv, hn⟩ | ⟨-, rfl, hn⟩ | ⟨hother, hn⟩
    · exact iff_of_true hn (.inl ⟨hx, hv⟩)
    · rw [hn]
      refine iff_of_false (by simp) ?_
      rintro (⟨-, hsaved⟩ | ⟨a, -, -, s, -, hs⟩)
      · exact dirName_ne_infoFileName saved hsaved.symm
      · exact dirName_ne_infoFileName s hs
    · have hne : ¬ (x = info.name ∧ name = saved.dirName) := by tauto
      rw [hn, or_iff_right hne]
      exact h.versions x name

/-- Ids are fresh: the calls with one id have one info. -/
def FreshIds (cs : List AddCall) : Prop :=
  ∀ c ∈ cs, ∀ c' ∈ cs, c.info.id = c'.info.id → c.info = c'.info

/-- **What a run of successful calls keeps.** -/
theorem run_mirrors {cs done : List AddCall} (h : Mirrors root place db)
    (hr : Remembers done db.inner) (hids : FreshIds (done ++ cs))
    (hnames : ∀ c ∈ cs, Path.IsName c.info.name) (hrun : run (addStep root) db cs = some db') :
    Mirrors root place db' ∧ Remembers (done ++ cs) db'.inner := by
  induction cs generalizing db done with
  | nil =>
    obtain rfl := Option.some.inj hrun
    rw [List.append_nil]
    exact ⟨h, hr⟩
  | cons c cs ih =>
    obtain ⟨db₁, hstep, hrest⟩ := Option.bind_eq_some_iff.mp hrun
    obtain ⟨tgz, w, -, hsave, rfl⟩ := addStep_eq_some hstep
    have hc := hr.consistent fun c' hmem hid => hids c' (by simp [hmem]) c (by simp) hid
    have hd := save_savedAt h.opened (hnames c (List.mem_cons_self ..)) hsave
    have happend : done ++ c :: cs = (done ++ [c]) ++ cs := by simp
    rw [happend] at hids ⊢
    exact ih (h.insert hc hd) (hr.insert hc rfl) hids
      (fun c' hc' => hnames c' (List.mem_cons_of_mem _ hc')) hrest

/-! ### Opening the database again -/

/-- Opening the root directory again gives back what is in memory, whatever the order of the
directories. -/
def RestartPreserves (root : Path) (db : Database) : Prop :=
  ∀ listing, db.disk.Lists listing → ∃ inner w,
    readDir listing root ⟨db.disk, []⟩ = .ok inner w ∧ SameApplications inner.apps db.inner.apps

/-- A root directory without applications is opened as an empty database. -/
theorem readDir_empty {listing : Listing} {w w' : World} {inner : Inner}
    (h : readDir listing root w = .ok inner w')
    (hroot : w'.disk.DirAt (appRootDir root) place)
    (hempty : ∀ name, w'.disk.node (name :: place) ≠ some .dir) :
    Mirrors root place ⟨inner, w'.disk⟩ ∧ Remembers [] inner := by
  obtain ⟨q, hopen, hfold, -⟩ := readDir_ok.mp h
  have hopened := openDirRoot_opened hopen
  obtain rfl : q = place := by
    have hq := hopened.dirAt.1
    rw [hroot.1] at hq
    exact (Except.ok.inj hq).symm
  have hnone : ∀ a, ¬ inner.Holds a := by
    intro a ha
    rcases lookup_of_readRootEntries hfold ha with hnil | ⟨name, -, hdir, -⟩
    · rw [Keyed.lookup_empty] at hnil
      exact absurd hnil (by simp)
    · exact hempty name hdir
  have hinside : ∀ x name node, w'.disk.node (name :: x :: q) ≠ some node :=
    fun x name node hn => hempty x (Disk.node_tail hn)
  refine ⟨⟨hopened, ?_, ?_, ?_, ?_⟩, ⟨?_, by simp⟩⟩
  · intro x
    exact ⟨fun hdir => absurd hdir (hempty x), fun ⟨a, ha, _⟩ => absurd ha (hnone a)⟩
  · exact fun x hdir => absurd hdir (hempty x)
  · exact fun x name contents hfile => absurd hfile (hinside x name _)
  · intro x name
    exact ⟨fun hdir => absurd hdir (hinside x name _), fun ⟨a, ha, _⟩ => absurd ha (hnone a)⟩
  · exact fun a ha => absurd ha (hnone a)

namespace Mirrors

variable {listing : Listing}

/-- The directory of a name is that of the one application with the name, if its deployments can be
read. -/
theorem appDir (h : Mirrors root place db) {a : SavedApplication} (ha : db.inner.Holds a)
    (hname : ∀ b, db.inner.Holds b → b.info.name = a.info.name → b = a)
    (hsecs : ∀ s ∈ a.deployments, 0 ≤ s.timestamp.secs) :
    AppDir db.disk (a.info.name :: place) a.info := by
  have hdir := (h.app a.info.name).mpr ⟨a, ha, rfl⟩
  obtain ⟨b, hb, hbn, hfile⟩ := h.info a.info.name hdir
  obtain rfl := hname b hb hbn
  refine ⟨hdir, ⟨_, hfile, infoOf_encode _⟩, h.only _, fun name hn => ?_⟩
  obtain ⟨b', hb', hbn', s, hs, rfl⟩ := (h.versions _ _).mp hn
  obtain rfl := hname b' hb' hbn'
  rw [SavedDeployment.read_dirName (hsecs s hs)]
  rfl

/-- What is read from it. -/
theorem mem_filterMap_read (h : Mirrors root place db) (hl : db.disk.Lists listing)
    {a : SavedApplication} (ha : db.inner.Holds a)
    (hname : ∀ b, db.inner.Holds b → b.info.name = a.info.name → b = a)
    (hsecs : ∀ s ∈ a.deployments, 0 ≤ s.timestamp.secs) (k : ℤ × Hash) :
    k ∈ ((listing (a.info.name :: place)).filterMap SavedDeployment.read).map
      SavedDeployment.key ↔ k ∈ a.deployments.map SavedDeployment.key := by
  have hdir := (h.app a.info.name).mpr ⟨a, ha, rfl⟩
  have hmem := (hl _ hdir).2
  simp only [List.mem_map, List.mem_filterMap]
  constructor
  · rintro ⟨s', ⟨name, hn, hs'⟩, rfl⟩
    rcases hnode : db.disk.node (name :: a.info.name :: place) with _ | contents | _
    · exact absurd hnode ((hmem name).mp hn)
    · obtain rfl := h.only _ _ _ hnode
      rw [read_infoFileName] at hs'
      exact absurd hs' (by simp)
    · obtain ⟨b, hb, hbn, s, hs, rfl⟩ := (h.versions _ _).mp hnode
      obtain rfl := hname b hb hbn
      rw [SavedDeployment.read_dirName (hsecs s hs)] at hs'
      obtain rfl := Option.some.inj hs'
      exact ⟨s, hs, rfl⟩
  · rintro ⟨s, hs, rfl⟩
    have hnode := (h.versions _ _).mpr ⟨a, ha, rfl, s, hs, rfl⟩
    exact ⟨s.toSecond, ⟨s.dirName, (hmem _).mpr (by simp [hnode]),
      SavedDeployment.read_dirName (hsecs s hs)⟩, rfl⟩

/-- The applications that are read are those in memory, if the directory of each can be read as its
own. -/
theorem exists_map (h : Mirrors root place db) (hl : db.disk.Lists listing)
    (hread : ∀ a, db.inner.Holds a → readPerApp db.disk listing (a.info.name :: place) =
      .ok ⟨a.info, (listing (a.info.name :: place)).filterMap SavedDeployment.read⟩) :
    ∃ map, (listing place).foldlM (readRootEntry db.disk listing place) (.empty _) = .ok map ∧
      (∀ a, db.inner.Holds a → map.lookup a.info.id =
        some ⟨a.info, (listing (a.info.name :: place)).filterMap SavedDeployment.read⟩) ∧
      ∀ id b, map.lookup id = some b → ∃ a, db.inner.Holds a ∧ a.info.id = id := by
  -- each directory is that of an application in memory
  have hroot := (hl place h.opened.dirAt.2).2
  have hreadable : ∀ name ∈ listing place, db.disk.node (name :: place) ≠ none ∧
      (db.disk.node (name :: place) = some .dir →
        ∃ b, readPerApp db.disk listing (name :: place) = .ok b) := by
    intro name hmem
    refine ⟨(hroot name).mp hmem, fun hdir => ?_⟩
    obtain ⟨a, ha, rfl⟩ := (h.app name).mp hdir
    exact ⟨_, hread a ha⟩
  have hfrom : ∀ name b, db.disk.node (name :: place) = some .dir →
      readPerApp db.disk listing (name :: place) = .ok b → ∃ a, db.inner.Holds a ∧
        b = ⟨a.info, (listing (a.info.name :: place)).filterMap SavedDeployment.read⟩ := by
    intro name b hdir hb
    obtain ⟨a, ha, rfl⟩ := (h.app name).mp hdir
    rw [hread a ha] at hb
    exact ⟨a, ha, (Except.ok.inj hb).symm⟩
  obtain ⟨map, hmap⟩ := isOk_readRootEntries.mpr hreadable
  refine ⟨map, hmap, fun a ha => ?_, fun id b hb => ?_⟩
  · have hdir := (h.app a.info.name).mpr ⟨a, ha, rfl⟩
    refine readRootEntries_lookup (a := ⟨a.info, _⟩) hmap ?_
      (.inr ⟨a.info.name, (hroot _).mpr (by simp [hdir]), hdir, hread a ha⟩)
    intro name _ b hb hreadb hid
    obtain ⟨a', ha', rfl⟩ := hfrom name b hb hreadb
    have hid' : a'.info.id = a.info.id := hid
    rw [Inner.Holds, hid', ha] at ha'
    rw [Option.some.inj ha']
  · have hkey := Keyed.key_of_lookup hb
    rcases lookup_of_readRootEntries hmap hb with hnil | ⟨name, -, hdir, hreadb⟩
    · rw [Keyed.lookup_empty] at hnil
      exact absurd hnil (by simp)
    · obtain ⟨a, ha, rfl⟩ := hfrom name b hdir hreadb
      exact ⟨a, ha, hkey⟩

/-- After calls that can be restored, the directory of each application in memory is its own. -/
theorem readPerApp_of_restorable {cs : List AddCall} (h : Mirrors root place db)
    (hr : Remembers cs db.inner) (hcs : Restorable cs) (hl : db.disk.Lists listing)
    {a : SavedApplication} (ha : db.inner.Holds a) :
    readPerApp db.disk listing (a.info.name :: place) =
      .ok ⟨a.info, (listing (a.info.name :: place)).filterMap SavedDeployment.read⟩ :=
  (h.appDir ha (fun _ => hr.eq_of_name hcs ha) (hr.secs_nonneg hcs ha)).readPerApp hl

/-- Calls that can be restored are. -/
theorem restartPreserves {cs : List AddCall} (h : Mirrors root place db)
    (hr : Remembers cs db.inner) (hcs : Restorable cs) : RestartPreserves root db := by
  intro listing hl
  obtain ⟨map, hmap, hlookup, hids⟩ := h.exists_map hl fun a =>
    h.readPerApp_of_restorable hr hcs hl
  refine ⟨⟨map, []⟩, _, readDir_ok.mpr ⟨place, h.opened.openDirRoot, hmap, rfl⟩, ?_, ?_⟩
  · ext id
    rw [Keyed.mem_ids, Keyed.mem_ids]
    constructor
    · rintro ⟨b, hb⟩
      obtain ⟨a, ha, rfl⟩ := hids id b hb
      exact ⟨a, ha⟩
    · rintro ⟨a, ha⟩
      obtain rfl := Keyed.key_of_lookup ha
      exact ⟨_, hlookup a ha⟩
  · intro id b a hb ha
    obtain rfl := Keyed.key_of_lookup ha
    rw [hlookup a ha] at hb
    obtain rfl := Option.some.inj hb
    exact ⟨rfl, h.mem_filterMap_read hl ha (fun _ => hr.eq_of_name hcs ha)
      (hr.secs_nonneg hcs ha)⟩

/-- What is read for an application in memory comes from the directory of its name. -/
theorem readPerApp_of_preserved (h : Mirrors root place db) {listing : Listing} {inner : Inner}
    {w : World} (hl : db.disk.Lists listing)
    (hread : readDir listing root ⟨db.disk, []⟩ = .ok inner w)
    (hsame : SameApplications inner.apps db.inner.apps) {a : SavedApplication}
    (ha : db.inner.Holds a) : ∃ b, readPerApp db.disk listing (a.info.name :: place) = .ok b ∧
      b.info = a.info := by
  obtain ⟨q, hopen, hfold, -⟩ := readDir_ok.mp hread
  rw [h.opened.openDirRoot] at hopen
  obtain ⟨rfl, rfl⟩ := EStateM.Result.ok.inj hopen
  have hmem : a.info.id ∈ inner.apps.ids := by
    rw [hsame.1]
    exact Keyed.mem_ids_of_lookup ha
  obtain ⟨b, hb⟩ := Keyed.mem_ids.mp hmem
  obtain ⟨hinfo, -⟩ := hsame.2 _ b a hb ha
  rcases lookup_of_readRootEntries hfold hb with hnil | ⟨name, -, hdir, hreadb⟩
  · rw [Keyed.lookup_empty] at hnil
    exact absurd hnil (by simp)
  · obtain ⟨contents, hc, hi⟩ := (AppDir.of_readPerApp hdir (h.only name) hl hreadb).info
    obtain ⟨a', ha', rfl, hfile⟩ := h.info name hdir
    rw [hc] at hfile
    obtain rfl := Node.file.inj (Option.some.inj hfile)
    rw [infoOf_encode] at hi
    have hname : a'.info = a.info := (Option.some.inj hi).trans hinfo
    rw [hname] at hreadb
    exact ⟨b, hreadb, hinfo⟩

/-- Calls that are restored can be. -/
theorem restorable {cs : List AddCall} (h : Mirrors root place db) (hr : Remembers cs db.inner)
    (hp : RestartPreserves root db) : Restorable cs := by
  obtain ⟨listing, hl⟩ := db.disk.exists_lists
  obtain ⟨inner, w, hread, hsame⟩ := hp listing hl
  have hof := fun a => h.readPerApp_of_preserved hl hread hsame (a := a)
  constructor
  · intro c hc c' hc' hname
    obtain ⟨a, ha, hca, -⟩ := hr.stored c hc
    obtain ⟨a', ha', hca', -⟩ := hr.stored c' hc'
    obtain ⟨b, hb, hinfo⟩ := hof a ha
    obtain ⟨b', hb', hinfo'⟩ := hof a' ha'
    rw [hca', ← hname, ← hca, hb] at hb'
    obtain rfl := Except.ok.inj hb'
    rw [← hca, ← hca', ← hinfo, ← hinfo']
  · intro c hc
    obtain ⟨a, ha, hca, s, hs, hnow⟩ := hr.stored c hc
    obtain ⟨b, hb, hinfo⟩ := hof a ha
    have hdir := (h.app a.info.name).mpr ⟨a, ha, rfl⟩
    have hversion := (AppDir.of_readPerApp hdir (h.only _) hl hb).versions _
      ((h.versions _ _).mpr ⟨a, ha, rfl, s, hs, rfl⟩)
    rw [← hnow]
    by_cases hsecs : 0 ≤ s.timestamp.secs
    · exact hsecs
    · rw [SavedDeployment.read_dirName_neg (by omega)] at hversion
      exact absurd hversion (by simp)

end Mirrors

/-- **Restarting gives back what the calls added exactly when no name was used with two ids**, and
no call was made before 1970. -/
theorem restart_preserves_iff {listing : Listing} {w₀ w₁ : World} {inner : Inner}
    {cs : List AddCall} (hopen : readDir listing root w₀ = .ok inner w₁)
    (hroot : w₁.disk.DirAt (appRootDir root) place)
    (hempty : ∀ name, w₁.disk.node (name :: place) ≠ some .dir) (hids : FreshIds cs)
    (hnames : ∀ c ∈ cs, Path.IsName c.info.name)
    (hrun : run (addStep root) ⟨inner, w₁.disk⟩ cs = some db) :
    RestartPreserves root db ↔ Restorable cs := by
  obtain ⟨hm, hr⟩ := readDir_empty hopen hroot hempty
  obtain ⟨hm', hr'⟩ := run_mirrors hm hr hids hnames hrun
  exact ⟨hm'.restorable hr', hm'.restartPreserves hr'⟩

end Run

section Examples

attribute [local instance] Crates.hyphenated Archives.sample

/-- A listing of the root directory without applications. -/
def freshListing : Listing := fun place =>
  if place = ["apps"] then [gitignoreFileName] else if place = [] then ["apps"] else []

/-- An application with the name of `face`. -/
def addFace (id : Uuid) (now : DateTime) : AddCall :=
  ⟨⟨id, face.name, face.source⟩, .ok emptyArchive, now, []⟩

/-- The same name is deployed twice, each time with a new id. -/
def redeployed : List AddCall := [addFace 5 older.timestamp, addFace 6 newer.timestamp]

theorem freshDisk_nodes : freshDisk.Lists freshListing ∧
    freshDisk.resolve (appRootDir []) = .ok ["apps"] ∧ freshDisk.node ["apps"] = some .dir ∧
    freshDisk.node [gitignoreFileName, "apps"] = some (.file gitignoreContent) := by
  decide +kernel

theorem opened_freshDisk : Opened freshDisk [] ["apps"] :=
  ⟨⟨freshDisk_nodes.2.1, freshDisk_nodes.2.2.1⟩, freshDisk_nodes.2.2.2⟩

theorem freshDisk_empty (name : String) : freshDisk.node (name :: ["apps"]) ≠ some .dir := by
  intro hn
  have hmem := ((freshDisk_nodes.1 _ (Disk.node_tail hn)).2 name).mpr (by simp [hn])
  obtain rfl : name = gitignoreFileName := by simpa [freshListing] using hmem
  rw [opened_freshDisk.gitignore] at hn
  exact absurd hn (by simp)

/-- The database is opened in an empty directory. -/
theorem readDir_freshDisk : readDir freshListing [] ⟨freshDisk, []⟩ =
    .ok ⟨.empty _, []⟩ ⟨freshDisk, []⟩ := by
  refine readDir_ok.mpr ⟨["apps"], opened_freshDisk.openDirRoot, ?_, rfl⟩
  have hlist : freshListing ["apps"] = [gitignoreFileName] := by decide
  rw [hlist]
  simp [readRootEntry, opened_freshDisk.gitignore]

theorem redeployed_succeeds :
    (run (addStep []) ⟨⟨.empty _, []⟩, freshDisk⟩ redeployed).isSome := by
  decide +kernel

theorem redeployed_ids : FreshIds redeployed ∧ ∀ c ∈ redeployed, Path.IsName c.info.name := by
  refine ⟨?_, ?_⟩
  · intro c hc c' hc' hid
    simp only [redeployed, List.mem_cons, List.not_mem_nil, or_false] at hc hc'
    rcases hc with rfl | rfl
    · rcases hc' with rfl | rfl
      · rfl
      · exact absurd hid (by decide)
    · rcases hc' with rfl | rfl
      · exact absurd hid (by decide)
      · rfl
  · intro c hc
    simp only [redeployed, List.mem_cons, List.not_mem_nil, or_false] at hc
    rcases hc with rfl | rfl
    · exact isName_face
    · exact isName_face

/-- Two applications: two versions of `face`, and `hello` between them. -/
def twoApps : List AddCall :=
  [addFace 5 older.timestamp, ⟨⟨6, "hello", face.source⟩, .ok emptyArchive, older.timestamp, []⟩,
    addFace 5 newer.timestamp]

theorem twoApps_succeeds :
    (run (addStep []) ⟨⟨.empty _, []⟩, freshDisk⟩ twoApps).isSome := by
  decide +kernel

theorem twoApps_ids : FreshIds twoApps ∧ (∀ c ∈ twoApps, Path.IsName c.info.name) ∧
    Restorable twoApps := by
  refine ⟨?_, ?_, ?_, ?_⟩
  · unfold FreshIds
    decide
  · unfold Path.IsName
    decide
  · decide
  · decide

/-- Two applications are given back. -/
theorem twoApps_restored : ∃ db,
    run (addStep []) ⟨⟨.empty _, []⟩, freshDisk⟩ twoApps = some db ∧ RestartPreserves [] db := by
  obtain ⟨db, hrun⟩ := Option.isSome_iff_exists.mp twoApps_succeeds
  obtain ⟨hids, hnames, hrestorable⟩ := twoApps_ids
  exact ⟨db, hrun, (restart_preserves_iff readDir_freshDisk opened_freshDisk.dirAt
    freshDisk_empty hids hnames hrun).mpr hrestorable⟩

/-- **Of two applications with one name, one is lost.** -/
theorem redeployed_lost : ∃ db,
    run (addStep []) ⟨⟨.empty _, []⟩, freshDisk⟩ redeployed = some db ∧ FreshIds redeployed ∧
      (∀ c ∈ redeployed, Path.IsName c.info.name) ∧ ¬ RestartPreserves [] db := by
  obtain ⟨db, hrun⟩ := Option.isSome_iff_exists.mp redeployed_succeeds
  obtain ⟨hids, hnames⟩ := redeployed_ids
  obtain ⟨hm, hr⟩ := readDir_empty readDir_freshDisk opened_freshDisk.dirAt freshDisk_empty
  obtain ⟨hm', hr'⟩ := run_mirrors hm hr hids hnames hrun
  refine ⟨db, hrun, hids, hnames, fun hp => ?_⟩
  have hid := (hm'.restorable hr' hp).1 _ (List.mem_cons_self ..) _
    (List.mem_cons_of_mem _ (List.mem_cons_self ..)) rfl
  exact absurd hid (by decide)

end Examples

end Laqista
