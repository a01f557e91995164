import Laqista.Deployment.Restart

/-! # The application that a name stands for

`common_services` looks an application up by its name and loads the latest version of it. Every
deploy has a new id, so an application that is deployed again is stored a second time, and which of
the two a lookup finds depends on the order of the map. `servesNewest_iff`: it is the one that was
added last, in every order, exactly when the name was added with one info only. -/

namespace Laqista

open Laqista.Proto Laqista.Lib Laqista.Lib.Runs Laqista.Fs Laqista.DeploymentDatabase

/-- The calls for a name, in their order. -/
def callsFor (name : String) (cs : List AddCall) : List AddCall :=
  cs.filter fun c => c.info.name = name

/-- The calls with an id, in their order. -/
def callsOf (id : Uuid) (cs : List AddCall) : List AddCall := cs.filter fun c => c.info.id = id

/-- The name is used with one info. -/
def OneInfo (name : String) (cs : List AddCall) : Prop :=
  ∀ c ∈ callsFor name cs, ∀ c' ∈ callsFor name cs, c.info = c'.info

theorem mem_callsFor {name : String} {cs : List AddCall} {c : AddCall} :
    c ∈ callsFor name cs ↔ c ∈ cs ∧ c.info.name = name := by
  unfold callsFor
  rw [List.mem_filter, decide_eq_true_iff]

theorem mem_callsOf {id : Uuid} {cs : List AddCall} {c : AddCall} :
    c ∈ callsOf id cs ↔ c ∈ cs ∧ c.info.id = id := by
  unfold callsOf
  rw [List.mem_filter, decide_eq_true_iff]

/-- The calls for a name with one info are those with its id. -/
theorem callsOf_eq {name : String} {cs : List AddCall} (hids : FreshIds cs)
    (hone : OneInfo name cs) {c : AddCall} (hc : c ∈ callsFor name cs) :
    callsOf c.info.id cs = callsFor name cs := by
  obtain ⟨hmem, hname⟩ := mem_callsFor.mp hc
  refine List.filter_congr fun c' hc' => ?_
  rw [decide_eq_decide]
  constructor
  · intro hid
    rw [hids c' hc' c hmem hid]
    exact hname
  · intro hname'
    rw [hone c' (mem_callsFor.mpr ⟨hc', hname'⟩) c hc]

section Stored

variable [Archives]

/-- The version that a successful call saves. -/
def AddCall.saved (c : AddCall) : SavedDeployment := ⟨c.now, sha256 (c.bin.toOption.getD [])⟩

theorem AddCall.saved_of_ok {c : AddCall} {tgz : List UInt8} (h : c.bin = .ok tgz) :
    c.saved = ⟨c.now, sha256 tgz⟩ := by
  unfold AddCall.saved
  rw [h]
  rfl

/-- The applications after the calls. -/
def storeCalls (m : ApplicationMap) (cs : List AddCall) : ApplicationMap :=
  (cs.map fun c => SavedApplication.new c.info [c.saved]).foldl
    (fun m a => m.upsert a fun b => { b with deployments := b.deployments ++ a.deployments }) m

omit [Archives] in
theorem foldl_deployments (as : List SavedApplication) (a : SavedApplication) :
    as.foldl (fun b a => { b with deployments := b.deployments ++ a.deployments }) a =
      ⟨a.info, a.deployments ++ as.flatMap (·.deployments)⟩ := by
  induction as generalizing a with
  | nil => simp
  | cons b as ih =>
    rw [List.foldl_cons, ih, List.flatMap_cons, List.append_assoc]

/-- **What the calls leave**: the info of the first call with an id, and the versions of all. -/
theorem lookup_storeCalls (cs : List AddCall) (id : Uuid) :
    (storeCalls (.empty _) cs).lookup id = (callsOf id cs).head?.map fun c =>
      ⟨c.info, (callsOf id cs).map AddCall.saved⟩ := by
  have hfold := Keyed.lookup_foldl_upsert_empty (fun a : SavedApplication => a.info.id)
    (fun a b => { b with deployments := b.deployments ++ a.deployments }) (fun _ _ => rfl)
    (cs.map fun c => SavedApplication.new c.info [c.saved]) id
  have hfilter : (cs.map fun c => SavedApplication.new c.info [c.saved]).filter
      (fun a => a.info.id = id) =
        (callsOf id cs).map fun c => SavedApplication.new c.info [c.saved] := by
    rw [List.filter_map]
    rfl
  refine hfold.trans ?_
  rw [hfilter]
  rcases callsOf id cs with _ | ⟨c, rest⟩
  · rfl
  · simp only [List.map_cons, List.head?_cons, List.tail_cons, Option.map_some, foldl_deployments,
      SavedApplication.new, List.flatMap_map, List.singleton_append]
    rw [← List.map_eq_flatMap]

/-- A stored application has the info of a call. -/
theorem exists_call {cs : List AddCall} {a : SavedApplication}
    (h : (storeCalls (.empty _) cs).lookup a.info.id = some a) : ∃ c ∈ cs, c.info = a.info := by
  rw [lookup_storeCalls] at h
  obtain ⟨c, hc, ha⟩ := Option.map_eq_some_iff.mp h
  exact ⟨c, (mem_callsOf.mp (List.mem_of_mem_head? hc)).1, congrArg SavedApplication.info ha⟩

/-- Every call has stored its info, if its id is not used for another one. -/
theorem exists_stored {cs : List AddCall} (hids : FreshIds cs) {c : AddCall} (hc : c ∈ cs) :
    ∃ a, (storeCalls (.empty _) cs).lookup c.info.id = some a ∧ a.info = c.info := by
  have hmem : c ∈ callsOf c.info.id cs := mem_callsOf.mpr ⟨hc, rfl⟩
  have hhead := List.head?_eq_some_head (List.ne_nil_of_mem hmem)
  obtain ⟨hfirst, hid⟩ := mem_callsOf.mp (List.mem_of_mem_head? hhead)
  rw [lookup_storeCalls, hhead]
  exact ⟨_, rfl, hids _ hfirst c hc hid⟩

variable [Crates] {root : Path} {cs : List AddCall} {db db' : Database} {name : String}

/-- **A run of successful calls** leaves in memory what they store. -/
theorem run_storeCalls (hrun : run (addStep root) db cs = some db') :
    db'.inner.apps = storeCalls db.inner.apps cs ∧ ∀ c ∈ cs, ∃ tgz, c.bin = .ok tgz := by
  induction cs generalizing db with
  | nil =>
    obtain rfl := Option.some.inj hrun
    exact ⟨rfl, by simp⟩
  | cons c cs ih =>
    obtain ⟨db₁, hstep, hrest⟩ := Option.bind_eq_some_iff.mp hrun
    obtain ⟨tgz, w, hbin, -, rfl⟩ := addStep_eq_some hstep
    obtain ⟨happs, hbins⟩ := ih hrest
    refine ⟨?_, ?_⟩
    · rw [happs, ← AddCall.saved_of_ok hbin]
      rfl
    · intro c' hc'
      rcases List.mem_cons.mp hc' with rfl | hc'
      · exact ⟨tgz, hbin⟩
      · exact hbins c' hc'

/-- The application of a name is the one of the latest call for it, in every order of the
applications, and its latest version is the one that this call has saved. -/
structure ServesNewest (root : Path) (cs : List AddCall) (inner : Inner) (name : String) :
    Prop where
  info : ∀ it, inner.apps.Iter it →
    DeploymentDatabase.lookup it name = (callsFor name cs).getLast?.map (·.info)
  version : ∀ c, (callsFor name cs).getLast? = some c → ∃ tgz, c.bin = .ok tgz ∧
    latestDir root inner c.info =
      .ok ((appDir root c.info).join (SavedDeployment.mk c.now (sha256 tgz)).dirName)

omit [Crates] in
/-- Whatever the order, a lookup finds an application of the name, and any of them may be first. -/
theorem oneInfo_of_lookup {inner : Inner} (happs : inner.apps = storeCalls (.empty _) cs)
    (hids : FreshIds cs) {info : Option DeploymentInfo}
    (h : ∀ it, inner.apps.Iter it → DeploymentDatabase.lookup it name = info) :
    OneInfo name cs := by
  have key : ∀ c ∈ callsFor name cs, some c.info = info := by
    intro c hc
    obtain ⟨hmem, hname⟩ := mem_callsFor.mp hc
    obtain ⟨a, ha, hinfo⟩ := exists_stored hids hmem
    rw [← happs] at ha
    obtain ⟨it, hit⟩ := Keyed.exists_iter_cons ha
    rw [← h _ hit]
    unfold DeploymentDatabase.lookup
    rw [List.find?_cons_of_pos (by simp [hinfo, hname]), Option.map_some, hinfo]
  intro c hc c' hc'
  exact Option.some.inj ((key c hc).trans (key c' hc').symm)

omit [Crates] in
/-- A name with one info is looked up as the latest call has it. -/
theorem lookup_of_oneInfo {inner : Inner} (happs : inner.apps = storeCalls (.empty _) cs)
    (hids : FreshIds cs) (hone : OneInfo name cs) {it : List SavedApplication}
    (hit : inner.apps.Iter it) :
    DeploymentDatabase.lookup it name = (callsFor name cs).getLast?.map (·.info) := by
  have hcall : ∀ a ∈ it, a.info.name = name → ∃ c ∈ callsFor name cs, c.info = a.info := by
    intro a ha hname
    have hstored := hit.lookup ha
    rw [happs] at hstored
    obtain ⟨c, hc, hinfo⟩ := exists_call hstored
    exact ⟨c, mem_callsFor.mpr ⟨hc, by rw [hinfo]; exact hname⟩, hinfo⟩
  unfold DeploymentDatabase.lookup
  rcases hlast : (callsFor name cs).getLast? with _ | latest
  · have hnone : it.find? (fun a => a.info.name = name) = none := by
      rw [List.find?_eq_none]
      intro a ha hname
      obtain ⟨c, hc, -⟩ := hcall a ha (of_decide_eq_true hname)
      rw [List.getLast?_eq_none_iff.mp hlast] at hc
      exact absurd hc (by simp)
    rw [hnone]
    rfl
  · have hlatest := List.mem_of_getLast? hlast
    obtain ⟨hmem, hname⟩ := mem_callsFor.mp hlatest
    obtain ⟨a, ha, hinfo⟩ := exists_stored hids hmem
    rw [← happs] at ha
    rcases hfind : it.find? (fun a => a.info.name = name) with _ | b
    · have hnot := List.find?_eq_none.mp hfind a (hit.mem_of_lookup ha)
      simp [hinfo, hname] at hnot
    · have hb := List.find?_some hfind
      obtain ⟨c, hc, hcb⟩ := hcall b (List.mem_of_find?_eq_some hfind) (of_decide_eq_true hb)
      rw [hfind, Option.map_some, ← hcb, hone c hc latest hlatest]
      rfl

/-- **A name is served by the application that was added last exactly when it was added with one
info**, whatever the order of the applications. -/
theorem servesNewest_iff (hnew : db.inner.apps = .empty _) (hids : FreshIds cs)
    (hrun : run (addStep root) db cs = some db') (name : String) :
    ServesNewest root cs db'.inner name ↔ OneInfo name cs := by
  obtain ⟨happs, hbins⟩ := run_storeCalls hrun
  rw [hnew] at happs
  constructor
  · intro h
    exact oneInfo_of_lookup happs hids h.info
  · intro hone
    refine ⟨fun it hit => lookup_of_oneInfo happs hids hone hit, fun c hlast => ?_⟩
    have hc := List.mem_of_getLast? hlast
    obtain ⟨tgz, hbin⟩ := hbins c (mem_callsFor.mp hc).1
    have hhead := List.head?_eq_some_head (List.ne_nil_of_mem hc)
    have hlook : db'.inner.apps.lookup c.info.id =
        some ⟨((callsFor name cs).head (List.ne_nil_of_mem hc)).info,
          (callsFor name cs).map AddCall.saved⟩ := by
      rw [happs, lookup_storeCalls, callsOf_eq hids hone hc, hhead]
      rfl
    refine ⟨tgz, hbin, ?_⟩
    unfold latestDir
    rw [hlook]
    simp only [List.getLast?_map, hlast, Option.map_some]
    rw [AddCall.saved_of_ok hbin]

end Stored

section Examples

attribute [local instance] Crates.hyphenated Archives.sample

/-- **Of two applications with one name, the older one may be found.** -/
theorem older_is_served : ∃ db, run (addStep []) ⟨⟨.empty _, []⟩, freshDisk⟩ redeployed = some db ∧
    FreshIds redeployed ∧ ¬ ServesNewest [] redeployed db.inner face.name := by
  obtain ⟨db, hrun⟩ := Option.isSome_iff_exists.mp redeployed_succeeds
  refine ⟨db, hrun, redeployed_ids.1, fun h => ?_⟩
  have hone := oneInfo_of_lookup (run_storeCalls hrun).1 redeployed_ids.1 h.info
  have hinfo := hone (addFace 5 older.timestamp) (mem_callsFor.mpr ⟨by simp [redeployed], rfl⟩)
    (addFace 6 newer.timestamp) (mem_callsFor.mpr ⟨by simp [redeployed], rfl⟩)
  exact absurd (congrArg DeploymentInfo.id hinfo) (by decide)

/-- Of two applications, the latest version of the one with two is found. -/
theorem twoApps_are_served : ∃ db,
    run (addStep []) ⟨⟨.empty _, []⟩, freshDisk⟩ twoApps = some db ∧
      ServesNewest [] twoApps db.inner face.name ∧ ServesNewest [] twoApps db.inner "hello" := by
  obtain ⟨db, hrun⟩ := Option.isSome_iff_exists.mp twoApps_succeeds
  have hone : OneInfo face.name twoApps ∧ OneInfo "hello" twoApps := by
    unfold OneInfo
    decide
  exact ⟨db, hrun, (servesNewest_iff rfl twoApps_ids.1 hrun face.name).mpr hone.1,
    (servesNewest_iff rfl twoApps_ids.1 hrun "hello").mpr hone.2⟩

end Examples

end Laqista
