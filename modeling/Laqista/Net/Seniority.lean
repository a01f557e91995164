import Laqista.Lib.SortedId
import Laqista.Net.Provenance

/-! # The oldest server takes over

A server that is started without an id makes one from the time, a counter and its hardware address
(`create_info`, `gen_id`), and an election takes the least id. Since these ids are sorted by time,
`turns_to_oldest` follows: in every run, whoever loses its scheduler turns to the server that was
started first among those of its last reply. -/

namespace Laqista

open Laqista.Proto Laqista.Lib Laqista.Lib.Runs

/-! ### The info of a server -/

/-- What `create_info` asks of the machine: an address for its sockets, its hardware address, the
clock, and the counter of the uuid crate. An error is its text. -/
structure Machine where
  localIp : Except String String
  macAddress : Except String (Option (Fin (2 ^ 48)))
  ticks : Fin (2 ^ 60)
  counter : Fin (2 ^ 14)

/-- `SocketAddr`, with the address as it is printed. -/
structure Socket where
  ip : String
  isUnspecified : Bool
  port : UInt16

def getMac (m : Machine) : Except String (Fin (2 ^ 48)) :=
  match m.macAddress with
  | .ok (some addr) => .ok addr
  | .ok none => .error "Internal API error"
  | .error err => .error err

/-- The id has the layout of version 6. -/
def SortedId.uuid (v : SortedId) : Uuid := ⟨v.toNat, v.toNat_lt⟩

def ServerInfo.genId (m : Machine) : Result Uuid :=
  match getMac m with
  | .ok mac => .ok (SortedId.uuid ⟨m.ticks, m.counter, mac⟩)
  | .error err => .error (.mac err)

def ServerInfo.withId (host : String) (id : Uuid) : ServerInfo := ⟨id, "http://" ++ host⟩

def ServerInfo.new (host : String) (m : Machine) : Except Panic ServerInfo :=
  match ServerInfo.genId m with
  | .ok id => .ok (.withId host id)
  | .error _ => .error ⟨"called `Result::unwrap()` on an `Err` value"⟩

section

variable [Crates]

def ServerInfo.withIdStr (id host : String) : Result ServerInfo :=
  match tryParseUuid id with
  | .ok id => .ok (.withId host id)
  | .error e => .error (.fromUuid e)

/-- The second argument is the id of the command line. -/
def createInfo (socket : Socket) (id : Option String) (m : Machine) :
    Except Panic (Result ServerInfo) :=
  let ip : Result String :=
    if socket.isUnspecified then
      match m.localIp with
      | .ok ip => .ok ip
      | .error err => .error (.ip err)
    else .ok socket.ip
  match ip with
  | .error e => .ok (.error e)
  | .ok ip =>
    let host := ip ++ ":" ++ toString socket.port
    match id with
    | some id => .ok (ServerInfo.withIdStr id host)
    | none => (ServerInfo.new host m).map .ok

/-- The server was started without an id, at this time on this machine. -/
def ServerInfo.StartedAt (server : ServerInfo) (v : SortedId) : Prop :=
  ∃ socket m, createInfo socket none m = .ok (.ok server) ∧ m.ticks = v.ticks ∧
    m.counter = v.counter ∧ getMac m = .ok v.node

/-- The first server was started no later. At the same time, the counters and the hardware addresses
decide. -/
def ServerInfo.StartedBefore (server other : ServerInfo) : Prop :=
  ∃ v w, server.StartedAt v ∧ other.StartedAt w ∧ v.key ≤ w.key

theorem ServerInfo.StartedAt.id_eq {server : ServerInfo} {v : SortedId} (h : server.StartedAt v) :
    server.id = SortedId.uuid v := by
  obtain ⟨socket, m, hcreate, hticks, hcounter, hmac⟩ := h
  have hnew : ∀ host info, ServerInfo.new host m = .ok info → info.id = SortedId.uuid v := by
    intro host info hinfo
    simp only [ServerInfo.new, ServerInfo.genId, hmac, hticks, hcounter, Except.ok.injEq] at hinfo
    rw [← hinfo]
    rfl
  unfold createInfo at hcreate
  dsimp only at hcreate
  split at hcreate
  · cases hcreate
  · next ip _ =>
    rcases hinfo : ServerInfo.new (ip ++ ":" ++ toString socket.port) m with p | info
    · rw [hinfo] at hcreate
      cases hcreate
    · rw [hinfo] at hcreate
      cases hcreate
      exact hnew _ _ hinfo

/-- The order of the ids is the one in which the servers were started. -/
theorem startedBefore_of_le {server other : ServerInfo} {v w : SortedId} (h : server.StartedAt v)
    (h' : other.StartedAt w) (hle : server.id ≤ other.id) : server.StartedBefore other := by
  rw [h.id_eq, h'.id_eq] at hle
  have hnat : v.toNat ≤ w.toNat := hle
  exact ⟨v, w, h, h', SortedId.toNat_le_iff.mp hnat⟩

/-! ### A lost scheduler -/

/-- The cluster without its scheduler. -/
def Cluster.survivors (c : Cluster) : Cluster := (c.removeServer c.group.schedulerInfo.id).2

/-- **Whoever loses its scheduler turns to the oldest server.** In every run of servers that were
started without an id, whatever joins, fails and takes over in which order: when a reporter fails
over, it has saved a cluster with the scheduler and the ids of its last reply; of the servers that
are left of it without this scheduler it takes the one that was started first, and becomes the
scheduler if it is its own server, or joins its address. -/
theorem turns_to_oldest {as : List NetAct} {s : Net} {seat : Seat} {command : StateCommand}
    (hstarted : ∀ a ∈ as, ∀ server, a.Names server → ∃ v, server.StartedAt v)
    (h : run Net.step .empty as = some s) (hseat : seat ∈ s.seats)
    (hc : seat.reporter.failover = .ok (.ok command)) :
    ∃ state c saved next, seat.reporter.lastClusterState = some state ∧
      Cluster.tryFrom state = .ok saved ∧ seat.seen = some c ∧ SameIds saved c ∧
      next ∈ saved.survivors.servers ∧
      (∀ other ∈ saved.survivors.servers, next.StartedBefore other) ∧
      command = if next.id = seat.reporter.server.id then
        .becomeScheduler
          { saved.survivors with group := { saved.group with schedulerInfo := next } }
      else .update (.joining next.addr) := by
  -- every server of a saved state was started
  have hfrom : s.From (fun server => ∃ v, server.StartedAt v) (fun _ => True) :=
    from_run hstarted (fun _ _ _ _ => trivial) h
  have htracks : s.Tracks :=
    run_invariant (fun _ _ _ h hs => tracks_step h hs) tracks_empty h
  obtain ⟨state, saved, next, hl, hdecode, hmem, hleast, hcommand⟩ := failover_ok hc
  have hsaved := ((hfrom.seats seat hseat).2 state saved hl hdecode).removeServer
    saved.group.schedulerInfo.id
  obtain ⟨c, hseen, hids⟩ := seen_of_saved (htracks seat hseat) hl hdecode
  refine ⟨state, c, saved, next, hl, hdecode, hseen, hids, hmem, fun other hother => ?_, hcommand⟩
  obtain ⟨v, hv⟩ := hsaved.servers next hmem
  obtain ⟨w, hw⟩ := hsaved.servers other hother
  exact startedBefore_of_le hv hw (hleast other hother)

end

section Ages

attribute [local instance] Crates.hyphenated

/-- A server that was started at this time. -/
def startedServer (ip : String) (v : SortedId) : ServerInfo :=
  .withId (ip ++ ":" ++ toString (50051 : UInt16)) (SortedId.uuid v)

theorem startedServer_startedAt (ip : String) (v : SortedId) : (startedServer ip v).StartedAt v :=
  ⟨⟨ip, false, 50051⟩, ⟨.ok ip, .ok (some v.node), v.ticks, v.counter⟩, rfl, rfl, rfl, rfl⟩

def oldestServer : ServerInfo := startedServer "10.0.0.1" ⟨100, 5, 0xA⟩

def olderServer : ServerInfo := startedServer "10.0.0.2" ⟨200, 7, 0xB⟩

def youngestServer : ServerInfo := startedServer "10.0.0.3" ⟨300, 3, 0xC⟩

/-- Two servers join the oldest one, the youngest of them first. It gets a reply, and the oldest one
crashes. -/
def agesRun : List NetAct :=
  [.boot oldestServer,
    .serve oldestServer.addr (.start (.join ⟨some youngestServer.into⟩)),
    .serve oldestServer.addr (.enter 0 .nothing), .startReporter youngestServer oldestServer,
    .serve oldestServer.addr (.start (.join ⟨some olderServer.into⟩)),
    .serve oldestServer.addr (.enter 1 .nothing), .startReporter olderServer oldestServer,
    .report 0 idleWindow [], .crash oldestServer.addr]

theorem agesRun_started : ∀ a ∈ agesRun, ∀ server, a.Names server → ∃ v, server.StartedAt v := by
  have hjoin : ∀ {own server : ServerInfo}, joinServer ⟨some own.into⟩ = .ok (.ok server) →
      server = own := by
    intro own server h
    rw [joinServer_into] at h
    cases h
    rfl
  intro a ha server hn
  have hmem : server = oldestServer ∨ server = youngestServer ∨ server = olderServer := by
    simp only [agesRun, List.mem_cons, List.not_mem_nil, or_false] at ha
    rcases ha with rfl | rfl | rfl | rfl | rfl | rfl | rfl | rfl | rfl
    · exact .inl hn
    · exact .inr (.inl (hjoin hn))
    · exact hn.elim
    · exact .inr (.inl hn)
    · exact .inr (.inr (hjoin hn))
    · exact hn.elim
    · exact .inr (.inr hn)
    · exact hn.elim
    · exact hn.elim
  rcases hmem with rfl | rfl | rfl
  · exact ⟨_, startedServer_startedAt _ _⟩
  · exact ⟨_, startedServer_startedAt _ _⟩
  · exact ⟨_, startedServer_startedAt _ _⟩

/-- The youngest server joins the older one. -/
theorem agesRun_turns : ∃ s seat command, run Net.step .empty agesRun = some s ∧ seat ∈ s.seats ∧
    seat.reporter.failover = .ok (.ok command) ∧ command = .update (.joining olderServer.addr) ∧
    ∃ state saved, seat.reporter.lastClusterState = some state ∧
      Cluster.tryFrom state = .ok saved ∧
      ∃ next ∈ saved.survivors.servers, ∀ other ∈ saved.survivors.servers,
        next.StartedBefore other := by
  have hrun : (run Net.step .empty agesRun).map (fun s => s.seats[0]?.map fun seat =>
      decide (seat.reporter.failover = .ok (.ok (.update (.joining olderServer.addr))))) =
        some (some true) := by decide +kernel
  obtain ⟨s, hs, hfirst⟩ := Option.map_eq_some_iff.mp hrun
  obtain ⟨seat, hget, hjoins⟩ := Option.map_eq_some_iff.mp hfirst
  have hmem := List.mem_of_getElem? hget
  have hc : seat.reporter.failover = .ok (.ok (.update (.joining olderServer.addr))) :=
    of_decide_eq_true hjoins
  obtain ⟨state, c, saved, next, hl, hdecode, -, -, hnext, hbefore, -⟩ :=
    turns_to_oldest agesRun_started hs hmem hc
  exact ⟨s, seat, _, hs, hmem, hc, rfl, state, saved, hl, hdecode, next, hnext, hbefore⟩

end Ages

end Laqista
