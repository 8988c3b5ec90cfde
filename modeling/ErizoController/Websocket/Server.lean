import Mathlib.Data.Fintype.Defs
import Mathlib.Data.String.Basic
import ErizoController.Library.Machine
import ErizoController.Library.Table
import ErizoController.Thread.SendThread

/-!
# SocketIOServer

Each thread of the server polls a hub of its own, and the callbacks of a socket run on the
thread that has accepted it. The handler of a socket is filed in `clients_` after it has been
made, and it is erased and deleted after its close handler has been called. The send thread
takes messages from its queue and looks their handlers up in `clients_`; its loop and the queue
are those of `SendThread`. `close` joins all threads and then calls the close handler of every
client that is left.

The declarations `std::unique_lock<std::mutex>(clients_mux_)` and `…(mux_)` make new variables
and lock nothing: the send thread holds no mutex between its lookup and the end of
`sendMessage`, nor does `sendMessage` between its test of `ws_` and its use.
-/

namespace SocketIOServer

/-! ## Handlers -/

/-- A frame that is sent on a socket; the first two are those of the constructor. -/
inductive Frame where
  | handshake
  | connected
  | other (message : String)
  deriving DecidableEq

/-- What happens to a handler: it sends a frame, the send thread sends a message on its socket,
`on_message_hdl_` is called, its socket is taken from it, and `on_close_hdl_` is called. -/
inductive Entry where
  | sent (frame : Frame)
  | event (message : String)
  | onMessage (msg : String)
  | detached
  | onClose
  deriving DecidableEq

/-- The entries of a connection that is open. -/
def Entry.IsTraffic : Entry → Prop
  | sent (.other _) => True
  | event _ => True
  | onMessage _ => True
  | _ => False

/-- `SocketIOClientHandler`, with the thread of its socket and with what has happened to it. -/
structure Handler (ι : Type) where
  id : String
  thread : ι
  ws_ : Bool
  deleted : Bool
  log : List Entry

namespace Handler

variable {ι : Type} {hd : Handler ι} {ending : List Entry}

/-- The constructor. -/
def new (client_id : String) (i : ι) : Handler ι where
  id := client_id
  thread := i
  ws_ := true
  deleted := false
  log := [.sent .handshake, .sent .connected]

def note (hd : Handler ι) (e : Entry) : Handler ι := { hd with log := hd.log ++ [e] }

/-- `sendMessage` on the thread of the socket. -/
def reply (hd : Handler ι) : Option String → Handler ι
  | none => hd
  | some message => hd.note (.sent (.other message))

def Live (hd : Handler ι) : Prop := hd.ws_ = true ∧ hd.deleted = false

instance (hd : Handler ι) : Decidable hd.Live := inferInstanceAs (Decidable (_ ∧ _))

/-- The two frames of the constructor come first, then the traffic, and then the ending. -/
def Session (hd : Handler ι) (ending : List Entry) : Prop :=
  ∃ traffic, (∀ e ∈ traffic, e.IsTraffic) ∧
    hd.log = [.sent .handshake, .sent .connected] ++ traffic ++ ending

theorem session_new (client_id : String) (i : ι) : (new client_id i).Session [] :=
  ⟨[], fun _ he => (List.not_mem_nil he).elim, rfl⟩

theorem Session.append (h : hd.Session ending) (e : Entry) :
    (hd.note e).Session (ending ++ [e]) := by
  obtain ⟨traffic, htraffic, hlog⟩ := h
  exact ⟨traffic, htraffic, by rw [note, hlog, List.append_assoc _ ending]⟩

theorem Session.traffic (h : hd.Session []) {e : Entry} (he : e.IsTraffic) :
    (hd.note e).Session [] := by
  obtain ⟨traffic, htraffic, hlog⟩ := h
  refine ⟨traffic ++ [e], fun x hx => ?_, ?_⟩
  · rcases List.mem_append.mp hx with hx | hx
    · exact htraffic x hx
    · rwa [List.mem_singleton.mp hx]
  · rw [note, hlog, List.append_nil, List.append_nil, List.append_assoc]

end Handler

/-! ## The server -/

/-- A row of `clients_`. -/
structure Registered where
  id : String
  hdl : ℕ
  deriving DecidableEq

instance : Keyed Registered String := ⟨Registered.id⟩

/-- Where a thread of the server stands: before it listens, in its loop, in one of the three
callbacks, or at its end. -/
inductive HubThread where
  | starting
  | polling
  | connecting (hdl : ℕ)
  | handling (hdl : ℕ)
  | detached (hdl : ℕ)
  | erasing (hdl : ℕ)
  | exited
  deriving DecidableEq

/-- The thread is filing or erasing the handler. -/
def HubThread.Holds (h : ℕ) : HubThread → Prop
  | connecting hdl => hdl = h
  | detached hdl => hdl = h
  | erasing hdl => hdl = h
  | _ => False

/-- Where the send thread stands: it drains the queue, has found a handler, has found its
socket, or has been joined. -/
inductive Sender where
  | draining
  | found (hdl : ℕ)
  | sending (hdl : ℕ)
  | joined
  deriving DecidableEq

/-- How far `close` has got. -/
inductive Closer where
  | serving
  | joining
  | sweeping (rest : List Registered)
  | closed
  deriving DecidableEq

/-- The server with the threads `ι`. The handlers are numbered in the order in which they are
made. `handed` has the messages that the send thread has taken from its queue, and `data` is the
last of them. `crashed` says that a deleted handler or a socket that is gone has been used. -/
structure State (ι : Type) where
  run_ : Bool
  clients_ : Table Registered
  threads_ : ι → HubThread
  size : ℕ
  handler : ℕ → Handler ι
  sender : Sender
  data : SIOData
  handed : List SIOData
  closer : Closer
  crashed : Bool

variable {ι : Type}

/-- The callbacks of the hubs, the steps of the send thread, and those of `close`. -/
inductive Action (ι : Type) where
  | listen (i : ι) (ok : Bool)
  | connect (i : ι) (client_id : String)
  | register (i : ι)
  | receive (i : ι) (hdl : ℕ) (msg : String)
  | answer (i : ι) (frame : Option String)
  | pong (i : ι) (hdl : ℕ)
  | disconnect (i : ι) (hdl : ℕ)
  | onClose (i : ι)
  | erase (i : ι)
  | leave (i : ι)
  | lookup (data : SIOData)
  | test
  | send
  | quit
  | close
  | join
  | sweep
  | clear

section Step

variable [DecidableEq ι]

def State.move (s : State ι) (i : ι) (t : HubThread) : State ι :=
  { s with threads_ := Function.update s.threads_ i t }

def State.put (s : State ι) (hdl : ℕ) (hd : Handler ι) : State ι :=
  { s with handler := Function.update s.handler hdl hd }

/-- The socket of the handler is open, and on this thread. -/
def State.Open (s : State ι) (i : ι) (hdl : ℕ) : Prop :=
  hdl < s.size ∧ (s.handler hdl).thread = i ∧ (s.handler hdl).ws_ = true

instance (s : State ι) (i : ι) (hdl : ℕ) : Decidable (s.Open i hdl) :=
  inferInstanceAs (Decidable (_ ∧ _))

variable [Fintype ι]

def act : Action ι → State ι → Option (State ι)
  | .listen i ok, s =>
      match s.threads_ i with
      | .starting => some (s.move i (if ok then .polling else .exited))
      | _ => none
  | .connect i client_id, s =>
      match s.threads_ i with
      | .polling => some { (s.put s.size (.new client_id i)).move i (.connecting s.size) with
          size := s.size + 1 }
      | _ => none
  | .register i, s =>
      match s.threads_ i with
      | .connecting hdl => some { s.move i .polling with
          clients_ := s.clients_.set ⟨(s.handler hdl).id, hdl⟩ }
      | _ => none
  | .receive i hdl msg, s =>
      if s.threads_ i = .polling ∧ s.Open i hdl then
        some ((s.put hdl ((s.handler hdl).note (.onMessage msg))).move i (.handling hdl))
      else none
  | .answer i frame, s =>
      match s.threads_ i with
      | .handling hdl => some ((s.put hdl ((s.handler hdl).reply frame)).move i .polling)
      | _ => none
  | .pong i hdl, s =>
      if s.threads_ i = .polling ∧ s.Open i hdl then
        some (s.put hdl ((s.handler hdl).note (.sent (.other "3"))))
      else none
  | .disconnect i hdl, s =>
      if s.threads_ i = .polling ∧ s.Open i hdl then
        some ((s.put hdl { (s.handler hdl).note .detached with ws_ := false }).move i
          (.detached hdl))
      else none
  | .onClose i, s =>
      match s.threads_ i with
      | .detached hdl =>
          some ((s.put hdl ((s.handler hdl).note .onClose)).move i (.erasing hdl))
      | _ => none
  | .erase i, s =>
      match s.threads_ i with
      | .erasing hdl => some {
          (s.put hdl { s.handler hdl with deleted := true }).move i .polling with
          clients_ := s.clients_.erase [(s.handler hdl).id] }
      | _ => none
  | .leave i, s =>
      if s.threads_ i = .polling ∧ s.run_ = false then some (s.move i .exited) else none
  | .lookup data, s =>
      match s.sender, s.clients_.get? data.client_id with
      | .draining, some row => some { s with
          sender := .found row.hdl, data := data, handed := s.handed ++ [data] }
      | .draining, none => some { s with data := data, handed := s.handed ++ [data] }
      | _, _ => none
  | .test, s =>
      match s.sender with
      | .found hdl =>
          if (s.handler hdl).deleted then some { s with crashed := true }
          else some { s with sender := if (s.handler hdl).ws_ then .sending hdl else .draining }
      | _ => none
  | .send, s =>
      match s.sender with
      | .sending hdl =>
          if (s.handler hdl).Live then
            some { s.put hdl ((s.handler hdl).note (.event s.data.message)) with
              sender := .draining }
          else some { s with crashed := true }
      | _ => none
  | .quit, s =>
      if s.sender = .draining ∧ s.run_ = false then some { s with sender := .joined } else none
  | .close, s =>
      if s.closer = .serving then some { s with run_ := false, closer := .joining } else none
  | .join, s =>
      if s.closer = .joining ∧ s.sender = .joined ∧ ∀ i, s.threads_ i = .exited then
        some { s with closer := .sweeping s.clients_.rows }
      else none
  | .sweep, s =>
      match s.closer with
      | .sweeping (row :: rest) =>
          if (s.handler row.hdl).deleted then some { s with crashed := true }
          else some { s.put row.hdl { (s.handler row.hdl).note .onClose with deleted := true } with
            closer := .sweeping rest }
      | _ => none
  | .clear, s =>
      match s.closer with
      | .sweeping [] => some { s with clients_ := ∅, closer := .closed }
      | _ => none

/-- Threads that have not listened yet, and no clients. -/
def machine (ι : Type) [DecidableEq ι] [Fintype ι] : Machine (Action ι) (State ι) where
  init s := s.run_ = true ∧ s.clients_ = ∅ ∧ (∀ i, s.threads_ i = .starting) ∧ s.size = 0 ∧
    s.sender = .draining ∧ s.handed = [] ∧ s.closer = .serving ∧ s.crashed = false
  step a s := if s.crashed then none else act a s

/-- What a step is. -/
inductive Steps : Action ι → State ι → State ι → Prop
  | listen {i : ι} {s : State ι} (ok : Bool) (hthread : s.threads_ i = .starting) :
      Steps (.listen i ok) s (s.move i (if ok then .polling else .exited))
  | connect {i : ι} {s : State ι} (client_id : String) (hthread : s.threads_ i = .polling) :
      Steps (.connect i client_id) s
        { (s.put s.size (.new client_id i)).move i (.connecting s.size) with size := s.size + 1 }
  | register {i : ι} {s : State ι} {hdl : ℕ} (hthread : s.threads_ i = .connecting hdl) :
      Steps (.register i) s { s.move i .polling with
        clients_ := s.clients_.set ⟨(s.handler hdl).id, hdl⟩ }
  | receive {i : ι} {s : State ι} {hdl : ℕ} (msg : String) (hthread : s.threads_ i = .polling)
      (hopen : s.Open i hdl) : Steps (.receive i hdl msg) s
        ((s.put hdl ((s.handler hdl).note (.onMessage msg))).move i (.handling hdl))
  | answer {i : ι} {s : State ι} {hdl : ℕ} (frame : Option String)
      (hthread : s.threads_ i = .handling hdl) : Steps (.answer i frame) s
        ((s.put hdl ((s.handler hdl).reply frame)).move i .polling)
  | pong {i : ι} {s : State ι} {hdl : ℕ} (hthread : s.threads_ i = .polling)
      (hopen : s.Open i hdl) : Steps (.pong i hdl) s
        (s.put hdl ((s.handler hdl).note (.sent (.other "3"))))
  | disconnect {i : ι} {s : State ι} {hdl : ℕ} (hthread : s.threads_ i = .polling)
      (hopen : s.Open i hdl) : Steps (.disconnect i hdl) s
        ((s.put hdl { (s.handler hdl).note .detached with ws_ := false }).move i (.detached hdl))
  | onClose {i : ι} {s : State ι} {hdl : ℕ} (hthread : s.threads_ i = .detached hdl) :
      Steps (.onClose i) s
        ((s.put hdl ((s.handler hdl).note .onClose)).move i (.erasing hdl))
  | erase {i : ι} {s : State ι} {hdl : ℕ} (hthread : s.threads_ i = .erasing hdl) :
      Steps (.erase i) s
        { (s.put hdl { s.handler hdl with deleted := true }).move i .polling with
          clients_ := s.clients_.erase [(s.handler hdl).id] }
  | leave {i : ι} {s : State ι} (hthread : s.threads_ i = .polling) (hrun : s.run_ = false) :
      Steps (.leave i) s (s.move i .exited)
  | lookup {s : State ι} {data : SIOData} {row : Registered} (hsender : s.sender = .draining)
      (hrow : s.clients_.get? data.client_id = some row) : Steps (.lookup data) s
        { s with sender := .found row.hdl, data := data, handed := s.handed ++ [data] }
  | miss {s : State ι} {data : SIOData} (hsender : s.sender = .draining)
      (hrow : s.clients_.get? data.client_id = none) :
      Steps (.lookup data) s { s with data := data, handed := s.handed ++ [data] }
  | test {s : State ι} {hdl : ℕ} (hsender : s.sender = .found hdl)
      (hkept : (s.handler hdl).deleted = false) : Steps .test s
        { s with sender := if (s.handler hdl).ws_ then .sending hdl else .draining }
  | testDeleted {s : State ι} {hdl : ℕ} (hsender : s.sender = .found hdl)
      (hdeleted : (s.handler hdl).deleted = true) : Steps .test s { s with crashed := true }
  | send {s : State ι} {hdl : ℕ} (hsender : s.sender = .sending hdl)
      (hlive : (s.handler hdl).Live) : Steps .send s
        { s.put hdl ((s.handler hdl).note (.event s.data.message)) with sender := .draining }
  | sendNowhere {s : State ι} {hdl : ℕ} (hsender : s.sender = .sending hdl)
      (hgone : ¬ (s.handler hdl).Live) : Steps .send s { s with crashed := true }
  | quit {s : State ι} (hsender : s.sender = .draining) (hrun : s.run_ = false) :
      Steps .quit s { s with sender := .joined }
  | close {s : State ι} (hcloser : s.closer = .serving) :
      Steps .close s { s with run_ := false, closer := .joining }
  | join {s : State ι} (hcloser : s.closer = .joining) (hsender : s.sender = .joined)
      (hexited : ∀ i, s.threads_ i = .exited) :
      Steps .join s { s with closer := .sweeping s.clients_.rows }
  | sweep {s : State ι} {row : Registered} {rest : List Registered}
      (hcloser : s.closer = .sweeping (row :: rest))
      (hkept : (s.handler row.hdl).deleted = false) : Steps .sweep s
        { s.put row.hdl { (s.handler row.hdl).note .onClose with deleted := true } with
          closer := .sweeping rest }
  | sweepDeleted {s : State ι} {row : Registered} {rest : List Registered}
      (hcloser : s.closer = .sweeping (row :: rest))
      (hdeleted : (s.handler row.hdl).deleted = true) : Steps .sweep s { s with crashed := true }
  | clear {s : State ι} (hcloser : s.closer = .sweeping []) :
      Steps .clear s { s with clients_ := ∅, closer := .closed }

theorem step_cases {a : Action ι} {s s' : State ι} (h : (machine ι).step a s = some s') :
    s.crashed = false ∧ Steps a s s' := by
  change (if s.crashed then none else act a s) = some s' at h
  split at h
  · cases h
  · rename_i hcrashed
    refine ⟨Bool.eq_false_iff.mpr hcrashed, ?_⟩
    cases a with
    | listen i ok =>
        simp only [act] at h
        split at h
        · obtain rfl := Option.some.inj h
          exact .listen ok ‹_›
        · cases h
    | connect i client_id =>
        simp only [act] at h
        split at h
        · obtain rfl := Option.some.inj h
          exact .connect client_id ‹_›
        · cases h
    | register i =>
        simp only [act] at h
        split at h
        · obtain rfl := Option.some.inj h
          exact .register ‹_›
        · cases h
    | receive i hdl msg =>
        simp only [act] at h
        split at h
        · rename_i hopen
          obtain rfl := Option.some.inj h
          exact .receive msg hopen.1 hopen.2
        · cases h
    | answer i frame =>
        simp only [act] at h
        split at h
        · obtain rfl := Option.some.inj h
          exact .answer frame ‹_›
        · cases h
    | pong i hdl =>
        simp only [act] at h
        split at h
        · rename_i hopen
          obtain rfl := Option.some.inj h
          exact .pong hopen.1 hopen.2
        · cases h
    | disconnect i hdl =>
        simp only [act] at h
        split at h
        · rename_i hopen
          obtain rfl := Option.some.inj h
          exact .disconnect hopen.1 hopen.2
        · cases h
    | onClose i =>
        simp only [act] at h
        split at h
        · obtain rfl := Option.some.inj h
          exact .onClose ‹_›
        · cases h
    | erase i =>
        simp only [act] at h
        split at h
        · obtain rfl := Option.some.inj h
          exact .erase ‹_›
        · cases h
    | leave i =>
        simp only [act] at h
        split at h
        · rename_i hleave
          obtain rfl := Option.some.inj h
          exact .leave hleave.1 hleave.2
        · cases h
    | lookup data =>
        simp only [act] at h
        split at h
        · obtain rfl := Option.some.inj h
          exact .lookup ‹_› ‹_›
        · obtain rfl := Option.some.inj h
          exact .miss ‹_› ‹_›
        · cases h
    | test =>
        simp only [act] at h
        split at h
        · split at h
          · obtain rfl := Option.some.inj h
            exact .testDeleted ‹_› ‹_›
          · rename_i hkept
            obtain rfl := Option.some.inj h
            exact .test ‹_› (Bool.eq_false_iff.mpr hkept)
        · cases h
    | send =>
        simp only [act] at h
        split at h
        · split at h
          · obtain rfl := Option.some.inj h
            exact .send ‹_› ‹_›
          · obtain rfl := Option.some.inj h
            exact .sendNowhere ‹_› ‹_›
        · cases h
    | quit =>
        simp only [act] at h
        split at h
        · rename_i hquit
          obtain rfl := Option.some.inj h
          exact .quit hquit.1 hquit.2
        · cases h
    | close =>
        simp only [act] at h
        split at h
        · obtain rfl := Option.some.inj h
          exact .close ‹_›
        · cases h
    | join =>
        simp only [act] at h
        split at h
        · rename_i hjoin
          obtain rfl := Option.some.inj h
          exact .join hjoin.1 hjoin.2.1 hjoin.2.2
        · cases h
    | sweep =>
        simp only [act] at h
        split at h
        · split at h
          · obtain rfl := Option.some.inj h
            exact .sweepDeleted ‹_› ‹_›
          · rename_i hkept
            obtain rfl := Option.some.inj h
            exact .sweep ‹_› (Bool.eq_false_iff.mpr hkept)
        · cases h
    | clear =>
        simp only [act] at h
        split at h
        · obtain rfl := Option.some.inj h
          exact .clear ‹_›
        · cases h

end Step

/-! ## While the server runs -/

/-- Where a handler stands, by the thread of its socket: it is being made, it is filed in
`clients_`, its socket is gone, its close handler has been called, or it is deleted. -/
inductive Standing (t : HubThread) (filed : Prop) (h : ℕ) (hd : Handler ι) : Prop
  | connecting (hthread : t = .connecting h) (hnot : ¬ filed) (hlive : hd.Live)
      (hlog : hd.Session [])
  | serving (hthread : ¬ t.Holds h) (hfiled : filed) (hlive : hd.Live) (hlog : hd.Session [])
  | detached (hthread : t = .detached h) (hfiled : filed) (hws : hd.ws_ = false)
      (hkept : hd.deleted = false) (hlog : hd.Session [.detached])
  | erasing (hthread : t = .erasing h) (hfiled : filed) (hws : hd.ws_ = false)
      (hkept : hd.deleted = false) (hlog : hd.Session [.detached, .onClose])
  | gone (hthread : ¬ t.Holds h) (hnot : ¬ filed) (hws : hd.ws_ = false)
      (hdeleted : hd.deleted = true) (hlog : hd.Session [.detached, .onClose])

section Standing

variable {t t' : HubThread} {filed filed' : Prop} {h : ℕ} {hd : Handler ι}

/-- The thread takes care of another handler. -/
theorem Standing.other (hs : Standing t filed h hd) (ht : ¬ t.Holds h) (ht' : ¬ t'.Holds h)
    (hfiled : filed' ↔ filed) : Standing t' filed' h hd := by
  cases hs with
  | connecting hthread => exact absurd (hthread ▸ rfl) ht
  | serving _ hf hlive hlog => exact .serving ht' (hfiled.mpr hf) hlive hlog
  | detached hthread => exact absurd (hthread ▸ rfl) ht
  | erasing hthread => exact absurd (hthread ▸ rfl) ht
  | gone _ hnot hws hdeleted hlog => exact .gone ht' (mt hfiled.mp hnot) hws hdeleted hlog

theorem Standing.congr (hs : Standing t filed h hd) (hfiled : filed' ↔ filed) :
    Standing t filed' h hd := by
  rwa [propext hfiled]

theorem Standing.note (hs : Standing t filed h hd) (hws : hd.ws_ = true) {e : Entry}
    (he : e.IsTraffic) : Standing t filed h (hd.note e) := by
  cases hs with
  | connecting hthread hnot hlive hlog => exact .connecting hthread hnot hlive (hlog.traffic he)
  | serving hthread hfiled hlive hlog => exact .serving hthread hfiled hlive (hlog.traffic he)
  | detached _ _ hgone | erasing _ _ hgone | gone _ _ hgone =>
      exact nomatch hws.symm.trans hgone

end Standing

/-- The row of a handler is in `clients_`. -/
def State.Files (s : State ι) (h : ℕ) : Prop :=
  (⟨(s.handler h).id, h⟩ : Registered) ∈ s.clients_

/-- What holds until `close` has joined the threads. -/
structure State.Serving (s : State ι) : Prop where
  standing : ∀ h < s.size, Standing (s.threads_ (s.handler h).thread) (s.Files h) h (s.handler h)
  held : ∀ i h, (s.threads_ i).Holds h → h < s.size ∧ (s.handler h).thread = i
  handling : ∀ i h, s.threads_ i = .handling h → s.Open i h
  rows : ∀ row ∈ s.clients_, row.hdl < s.size ∧ (s.handler row.hdl).id = row.id
  ids : ∀ h < s.size, ∀ h' < s.size, (s.handler h).id = (s.handler h').id → h = h'

section Serving

variable {s s' : State ι}

/-- A row of `clients_` is the row of its handler, which is neither new nor deleted. -/
theorem State.Serving.files_row (hs : s.Serving) {row : Registered} (hrow : row ∈ s.clients_) :
    s.Files row.hdl := by
  have hid := (hs.rows row hrow).2
  rw [State.Files, hid]
  exact hrow

variable [DecidableEq ι]

/-- A step on one handler, by the thread of its socket or by the send thread. -/
theorem State.Serving.update (hs : s.Serving) {hdl : ℕ} {i : ι} {hd : Handler ι} {t : HubThread}
    (hlt : hdl < s.size) (hi : (s.handler hdl).thread = i)
    (hthreads : s'.threads_ = Function.update s.threads_ i t)
    (hhandler : s'.handler = Function.update s.handler hdl hd) (hsize : s'.size = s.size)
    (hid : hd.id = (s.handler hdl).id) (hthread : hd.thread = i)
    (hmove : t = s.threads_ i ∨ ∀ h, (s.threads_ i).Holds h ∨ t.Holds h → h = hdl)
    (hhandling : ∀ h, t = .handling h → h = hdl ∧ hd.ws_ = true ∨ h ≠ hdl ∧ t = s.threads_ i)
    (hself : Standing t (s'.Files hdl) hdl hd)
    (hfiles : ∀ h < s.size, h ≠ hdl → (s'.Files h ↔ s.Files h))
    (hrows : ∀ row ∈ s'.clients_, row ∈ s.clients_ ∨ row = ⟨hd.id, hdl⟩) : s'.Serving := by
  have hself' : s'.handler hdl = hd := by rw [hhandler, Function.update_self]
  have hne : ∀ {h}, h ≠ hdl → s'.handler h = s.handler h := fun hne => by
    rw [hhandler, Function.update_of_ne hne]
  have hids : ∀ h, (s'.handler h).id = (s.handler h).id := by
    intro h
    by_cases hh : h = hdl
    · rw [hh, hself', hid]
    · rw [hne hh]
  have howner : ∀ h, (s'.handler h).thread = (s.handler h).thread := by
    intro h
    by_cases hh : h = hdl
    · rw [hh, hself', hthread, hi]
    · rw [hne hh]
  have hi' : s'.threads_ i = t := by rw [hthreads, Function.update_self]
  have hother : ∀ {j}, j ≠ i → s'.threads_ j = s.threads_ j := fun hj => by
    rw [hthreads, Function.update_of_ne hj]
  refine ⟨fun h hh => ?_, fun j h hh => ?_, fun j h hh => ?_, fun row hrow => ?_,
    fun h hh h' hh' heq => ?_⟩
  · rw [hsize] at hh
    rw [howner]
    by_cases heq : h = hdl
    · subst heq
      rw [hi, hi', hself']
      exact hself
    · have hstanding := hs.standing h hh
      rw [hne heq]
      by_cases hj : (s.handler h).thread = i
      · rw [hj] at hstanding ⊢
        rw [hi']
        rcases hmove with hsame | hmove
        · rw [hsame]
          exact hstanding.congr (hfiles h hh heq)
        · exact hstanding.other (fun hold => heq (hmove h (.inl hold)))
            (fun hold => heq (hmove h (.inr hold))) (hfiles h hh heq)
      · rw [hother hj]
        exact hstanding.congr (hfiles h hh heq)
  · rw [hsize, howner]
    by_cases hj : j = i
    · subst hj
      rw [hi'] at hh
      rcases hmove with hsame | hmove
      · exact hs.held j h (hsame ▸ hh)
      · obtain rfl := hmove h (.inr hh)
        exact ⟨hlt, hi⟩
    · rw [hother hj] at hh
      exact hs.held j h hh
  · rw [State.Open, hsize, howner]
    by_cases hj : j = i
    · subst hj
      rw [hi'] at hh
      rcases hhandling h hh with ⟨rfl, hws⟩ | ⟨hnot, hsame⟩
      · exact ⟨hlt, hi, by rw [hself', hws]⟩
      · obtain ⟨hlt', hi'', hws⟩ := hs.handling j h (hsame ▸ hh)
        exact ⟨hlt', hi'', by rw [hne hnot, hws]⟩
    · rw [hother hj] at hh
      obtain ⟨hlt', hj', hws⟩ := hs.handling j h hh
      refine ⟨hlt', hj', ?_⟩
      rw [hne, hws]
      rintro rfl
      exact hj (hj'.symm.trans hi)
  · rw [hsize, hids]
    rcases hrows row hrow with hold | rfl
    · exact hs.rows row hold
    · exact ⟨hlt, hid.symm⟩
  · rw [hsize] at hh hh'
    rw [hids, hids] at heq
    exact hs.ids h hh h' hh' heq

/-- A step of a thread that leaves all handlers alone. -/
theorem State.Serving.idle (hs : s.Serving) {i : ι} {t : HubThread}
    (hthreads : s'.threads_ = Function.update s.threads_ i t) (hhandler : s'.handler = s.handler)
    (hsize : s'.size = s.size) (hclients : s'.clients_ = s.clients_)
    (hold : ∀ h, ¬ (s.threads_ i).Holds h) (ht : t = .polling ∨ t = .exited) : s'.Serving := by
  have hfiles : ∀ h, s'.Files h ↔ s.Files h := fun h => by
    rw [State.Files, State.Files, hhandler, hclients]
  have hnot : ∀ h, ¬ t.Holds h := by
    rcases ht with rfl | rfl <;> exact fun _ => id
  have hi' : s'.threads_ i = t := by rw [hthreads, Function.update_self]
  have hother : ∀ {j}, j ≠ i → s'.threads_ j = s.threads_ j := fun hj => by
    rw [hthreads, Function.update_of_ne hj]
  refine ⟨fun h hh => ?_, fun j h hh => ?_, fun j h hh => ?_, ?_, ?_⟩
  · rw [hsize] at hh
    have hstanding := hs.standing h hh
    rw [hhandler]
    by_cases hj : (s.handler h).thread = i
    · rw [hj] at hstanding ⊢
      rw [hi']
      exact hstanding.other (hold h) (hnot h) (hfiles h)
    · rw [hother hj]
      exact hstanding.congr (hfiles h)
  · rw [hsize, hhandler]
    by_cases hj : j = i
    · subst hj
      rw [hi'] at hh
      exact absurd hh (hnot h)
    · exact hs.held j h (hother hj ▸ hh)
  · rw [State.Open, hsize, hhandler]
    by_cases hj : j = i
    · subst hj
      rw [hi'] at hh
      rcases ht with rfl | rfl <;> cases hh
    · exact hs.handling j h (hother hj ▸ hh)
  · rw [hsize, hhandler, hclients]
    exact hs.rows
  · rw [hsize, hhandler]
    exact hs.ids

omit [DecidableEq ι] in
/-- A step that only concerns the send thread or `close`. -/
theorem State.Serving.of_eq (hs : s.Serving) (hthreads : s'.threads_ = s.threads_)
    (hhandler : s'.handler = s.handler) (hsize : s'.size = s.size)
    (hclients : s'.clients_ = s.clients_) : s'.Serving := by
  have hfiles : ∀ h, s'.Files h ↔ s.Files h := fun h => by
    rw [State.Files, State.Files, hhandler, hclients]
  refine ⟨fun h hh => ?_, ?_, ?_, ?_, ?_⟩
  · rw [hthreads, hhandler]
    exact (hs.standing h (hsize ▸ hh)).congr (hfiles h)
  · rw [hthreads, hhandler, hsize]
    exact hs.held
  · simp only [State.Open, hthreads, hhandler, hsize]
    exact hs.handling
  · rw [hclients, hhandler, hsize]
    exact hs.rows
  · rw [hhandler, hsize]
    exact hs.ids

/-- `Utils::getUUID` returns an id that no handler has. -/
def FreshIds : Action ι → State ι → Prop
  | .connect _ client_id, s => ∀ h < s.size, (s.handler h).id ≠ client_id
  | _, _ => True

instance (a : Action ι) (s : State ι) : Decidable (FreshIds a s) := by
  unfold FreshIds
  split <;> infer_instance

theorem State.Serving.connect (hs : s.Serving) {i : ι} {client_id : String}
    (hthread : s.threads_ i = .polling) (hfresh : ∀ h < s.size, (s.handler h).id ≠ client_id) :
    State.Serving { (s.put s.size (.new client_id i)).move i (.connecting s.size) with
      size := s.size + 1 } := by
  have hnew : ∀ row ∈ s.clients_, row.hdl ≠ s.size :=
    fun row hrow heq => absurd (hs.rows row hrow).1 (heq ▸ Nat.lt_irrefl _)
  refine ⟨fun h hh => ?_, fun j h hh => ?_, fun j h hh => ?_, fun row hrow => ?_,
    fun h hh h' hh' heq => ?_⟩
  · change Standing (Function.update s.threads_ i (.connecting s.size)
      ((Function.update s.handler s.size (.new client_id i)) h).thread)
      ((⟨((Function.update s.handler s.size (.new client_id i)) h).id, h⟩ : Registered) ∈
        s.clients_) h ((Function.update s.handler s.size (.new client_id i)) h)
    rcases Nat.lt_succ_iff_lt_or_eq.mp hh with hlt | rfl
    · have hstanding := hs.standing h hlt
      rw [Function.update_of_ne hlt.ne]
      by_cases hj : (s.handler h).thread = i
      · rw [hj, Function.update_self]
        rw [hj, hthread] at hstanding
        exact hstanding.other id hlt.ne' Iff.rfl
      · rw [Function.update_of_ne hj]
        exact hstanding
    · rw [Function.update_self]
      refine .connecting (Function.update_self _ _ _) (fun hrow => hnew _ hrow rfl) ⟨rfl, rfl⟩ ?_
      exact Handler.session_new client_id i
  · change h < s.size + 1 ∧ ((Function.update s.handler s.size (.new client_id i)) h).thread = j
    change (Function.update s.threads_ i (.connecting s.size) j).Holds h at hh
    by_cases hj : j = i
    · subst hj
      rw [Function.update_self] at hh
      obtain rfl : s.size = h := hh
      exact ⟨Nat.lt_succ_self _, by rw [Function.update_self]; rfl⟩
    · rw [Function.update_of_ne hj] at hh
      obtain ⟨hlt, hthread⟩ := hs.held j h hh
      exact ⟨Nat.lt_succ_of_lt hlt, by rw [Function.update_of_ne hlt.ne, hthread]⟩
  · change h < s.size + 1 ∧ ((Function.update s.handler s.size (.new client_id i)) h).thread = j ∧
      ((Function.update s.handler s.size (.new client_id i)) h).ws_ = true
    change Function.update s.threads_ i (.connecting s.size) j = .handling h at hh
    by_cases hj : j = i
    · subst hj
      rw [Function.update_self] at hh
      cases hh
    · rw [Function.update_of_ne hj] at hh
      obtain ⟨hlt, hthread, hws⟩ := hs.handling j h hh
      rw [Function.update_of_ne hlt.ne]
      exact ⟨Nat.lt_succ_of_lt hlt, hthread, hws⟩
  · change row.hdl < s.size + 1 ∧
      ((Function.update s.handler s.size (.new client_id i)) row.hdl).id = row.id
    obtain ⟨hlt, hid⟩ := hs.rows row hrow
    rw [Function.update_of_ne hlt.ne]
    exact ⟨Nat.lt_succ_of_lt hlt, hid⟩
  · change ((Function.update s.handler s.size (.new client_id i)) h).id =
      ((Function.update s.handler s.size (.new client_id i)) h').id at heq
    rcases Nat.lt_succ_iff_lt_or_eq.mp hh with hlt | rfl
    · rw [Function.update_of_ne hlt.ne] at heq
      rcases Nat.lt_succ_iff_lt_or_eq.mp hh' with hlt' | rfl
      · rw [Function.update_of_ne hlt'.ne] at heq
        exact hs.ids h hlt h' hlt' heq
      · rw [Function.update_self] at heq
        exact absurd heq (hfresh h hlt)
    · rw [Function.update_self] at heq
      rcases Nat.lt_succ_iff_lt_or_eq.mp hh' with hlt' | rfl
      · rw [Function.update_of_ne hlt'.ne] at heq
        exact absurd heq.symm (hfresh h' hlt')
      · rfl

omit [DecidableEq ι] in
/-- The handler that a thread is filing or erasing is its own, and stands accordingly. -/
theorem State.Serving.of_holds (hs : s.Serving) {i : ι} {hdl : ℕ} (h : (s.threads_ i).Holds hdl) :
    hdl < s.size ∧ (s.handler hdl).thread = i ∧
      Standing (s.threads_ i) (s.Files hdl) hdl (s.handler hdl) := by
  obtain ⟨hlt, hi⟩ := hs.held i hdl h
  exact ⟨hlt, hi, hi ▸ hs.standing hdl hlt⟩

theorem State.Serving.register (hs : s.Serving) {i : ι} {hdl : ℕ}
    (hthread : s.threads_ i = .connecting hdl) :
    State.Serving { s.move i .polling with
      clients_ := s.clients_.set ⟨(s.handler hdl).id, hdl⟩ } := by
  have hholds : (s.threads_ i).Holds hdl := by
    rw [hthread]
    rfl
  obtain ⟨hlt, hi, hstanding⟩ := hs.of_holds hholds
  rw [hthread] at hstanding
  have hthreads : (s.move i .polling).threads_ = Function.update s.threads_ i .polling := rfl
  refine hs.update hlt hi hthreads (Function.update_eq_self _ _).symm rfl rfl hi
    (.inr fun h hh => ?_)     (fun h hh => nomatch hh) ?_ (fun h hh hne => ?_) fun row hrow => ?_
  · rw [hthread] at hh
    exact hh.elim Eq.symm False.elim
  · cases hstanding with
    | connecting _ _ hlive hlog => exact .serving id (Table.mem_set_self _ _) hlive hlog
    | serving hnot => exact absurd rfl hnot
    | detached hthread => cases hthread
    | erasing hthread => cases hthread
    | gone hnot => exact absurd rfl hnot
  · change (⟨(s.handler h).id, h⟩ : Registered) ∈ s.clients_.set ⟨(s.handler hdl).id, hdl⟩ ↔ _
    rw [Table.mem_set]
    constructor
    · rintro (heq | ⟨hrow, -⟩)
      · exact absurd (congrArg Registered.hdl heq) hne
      · exact hrow
    · exact fun hrow => .inr ⟨hrow, fun hid => hne (hs.ids h hh hdl hlt hid)⟩
  · rcases Table.mem_set.mp hrow with rfl | ⟨hold, -⟩
    · exact .inr rfl
    · exact .inl hold

/-- A step on one handler that leaves `clients_` alone. -/
theorem State.Serving.onHandler (hs : s.Serving) {hdl : ℕ} {i : ι} {hd : Handler ι}
    {t : HubThread} (hlt : hdl < s.size) (hi : (s.handler hdl).thread = i)
    (hid : hd.id = (s.handler hdl).id) (hthread : hd.thread = i)
    (hmove : t = s.threads_ i ∨ ∀ h, (s.threads_ i).Holds h ∨ t.Holds h → h = hdl)
    (hhandling : ∀ h, t = .handling h → h = hdl ∧ hd.ws_ = true ∨ h ≠ hdl ∧ t = s.threads_ i)
    (hself : Standing t (s.Files hdl) hdl hd) : ((s.put hdl hd).move i t).Serving := by
  have hfiles : ∀ h, ((s.put hdl hd).move i t).Files h ↔ s.Files h := by
    intro h
    change (⟨(Function.update s.handler hdl hd h).id, h⟩ : Registered) ∈ s.clients_ ↔ _
    by_cases hh : h = hdl
    · subst hh
      rw [Function.update_self, hid]
      exact Iff.rfl
    · rw [Function.update_of_ne hh]
      exact Iff.rfl
  exact hs.update hlt hi rfl rfl rfl hid hthread hmove hhandling (hself.congr (hfiles hdl))
    (fun h _ _ => hfiles h) fun row hrow => .inl hrow

/-- Traffic of a handler with a socket. -/
theorem State.Serving.note (hs : s.Serving) {hdl : ℕ} {i : ι} {t : HubThread} {e : Entry}
    (hopen : s.Open i hdl) (he : e.IsTraffic)
    (hmove : t = s.threads_ i ∨ ∀ h, ¬ (s.threads_ i).Holds h ∧ ¬ t.Holds h)
    (hhandling : ∀ h, t = .handling h → h = hdl ∨ t = s.threads_ i) :
    ((s.put hdl ((s.handler hdl).note e)).move i t).Serving := by
  obtain ⟨hlt, hi, hws⟩ := hopen
  have hstanding := hs.standing hdl hlt
  rw [hi] at hstanding
  refine hs.onHandler hlt hi rfl hi (hmove.imp id fun hmove h hh => ?_) (fun h hh => ?_) ?_
  · exact (hh.elim (hmove h).1 (hmove h).2).elim
  · by_cases hne : h = hdl
    · exact .inl ⟨hne, hws⟩
    · exact .inr ⟨hne, (hhandling h hh).resolve_left hne⟩
  · rcases hmove with rfl | hmove
    · exact hstanding.note hws he
    · exact (hstanding.note hws he).other (hmove hdl).1 (hmove hdl).2 Iff.rfl

theorem State.Serving.disconnect (hs : s.Serving) {hdl : ℕ} {i : ι}
    (hthread : s.threads_ i = .polling) (hopen : s.Open i hdl) :
    ((s.put hdl { (s.handler hdl).note .detached with ws_ := false }).move i
      (.detached hdl)).Serving := by
  obtain ⟨hlt, hi, hws⟩ := hopen
  have hstanding := hs.standing hdl hlt
  rw [hi, hthread] at hstanding
  refine hs.onHandler hlt hi rfl hi (.inr fun h hh => ?_) (fun h hh => nomatch hh) ?_
  · rw [hthread] at hh
    exact hh.elim False.elim Eq.symm
  · cases hstanding with
    | connecting hthread => cases hthread
    | serving _ hfiled hlive hlog => exact .detached rfl hfiled rfl hlive.2 (hlog.append .detached)
    | detached hthread => cases hthread
    | erasing hthread => cases hthread
    | gone _ _ hgone => exact nomatch hws.symm.trans hgone

theorem State.Serving.onClose (hs : s.Serving) {hdl : ℕ} {i : ι}
    (hthread : s.threads_ i = .detached hdl) :
    ((s.put hdl ((s.handler hdl).note .onClose)).move i (.erasing hdl)).Serving := by
  have hholds : (s.threads_ i).Holds hdl := by
    rw [hthread]
    rfl
  obtain ⟨hlt, hi, hstanding⟩ := hs.of_holds hholds
  rw [hthread] at hstanding
  refine hs.onHandler hlt hi rfl hi (.inr fun h hh => ?_) (fun h hh => nomatch hh) ?_
  · rw [hthread] at hh
    exact hh.elim Eq.symm Eq.symm
  · cases hstanding with
    | connecting hthread => cases hthread
    | serving hnot => exact absurd rfl hnot
    | detached _ hfiled hws hkept hlog => exact .erasing rfl hfiled hws hkept (hlog.append .onClose)
    | erasing hthread => cases hthread
    | gone hnot => exact absurd rfl hnot

theorem State.Serving.erase (hs : s.Serving) {hdl : ℕ} {i : ι}
    (hthread : s.threads_ i = .erasing hdl) :
    State.Serving { (s.put hdl { s.handler hdl with deleted := true }).move i .polling with
      clients_ := s.clients_.erase [(s.handler hdl).id] } := by
  have hholds : (s.threads_ i).Holds hdl := by
    rw [hthread]
    rfl
  obtain ⟨hlt, hi, hstanding⟩ := hs.of_holds hholds
  rw [hthread] at hstanding
  have hhandler : (s.put hdl { s.handler hdl with deleted := true }).handler =
      Function.update s.handler hdl { s.handler hdl with deleted := true } := rfl
  refine hs.update hlt hi (t := .polling) rfl hhandler rfl rfl hi (.inr fun h hh => ?_)
    (fun h hh => nomatch hh) ?_ (fun h hh hne => ?_)
    fun row hrow => .inl (Table.mem_erase.mp hrow).1
  · rw [hthread] at hh
    exact hh.elim Eq.symm False.elim
  · cases hstanding with
    | connecting hthread => cases hthread
    | serving hnot => exact absurd rfl hnot
    | detached hthread => cases hthread
    | erasing _ hfiled hws hkept hlog =>
        refine .gone id (fun hrow => ?_) hws rfl hlog
        refine (Table.mem_erase.mp hrow).2 (List.mem_singleton.mpr ?_)
        change ((Function.update s.handler hdl { s.handler hdl with deleted := true }) hdl).id = _
        rw [Function.update_self]
    | gone hnot => exact absurd rfl hnot
  · change (⟨((Function.update s.handler hdl { s.handler hdl with deleted := true }) h).id, h⟩ :
      Registered) ∈ s.clients_.erase [(s.handler hdl).id] ↔ _
    rw [Function.update_of_ne hne, Table.mem_erase]
    refine and_iff_left fun hid => hne (hs.ids h hh hdl hlt (List.mem_singleton.mp hid))

variable {a : Action ι}

theorem State.Serving.next (hs : s.Serving) (hfresh : FreshIds a s)
    (hknown : ∀ h, s.sender = .sending h → h < s.size)
    (hcloser : ∀ rest, s.closer ≠ .sweeping rest) (hstep : Steps a s s') : s'.Serving := by
  cases hstep with
  | @listen i _ ok hthread =>
      refine hs.idle rfl rfl rfl rfl (fun h hh => ?_) (by cases ok <;> simp)
      rw [hthread] at hh
      exact hh
  | connect client_id hthread => exact hs.connect hthread hfresh
  | register hthread => exact hs.register hthread
  | receive msg hthread hopen =>
      refine hs.note hopen trivial (.inr fun h => ?_) fun h hh =>
        .inl (HubThread.handling.inj hh).symm
      rw [hthread]
      exact ⟨id, id⟩
  | @answer i _ hdl frame hthread =>
      have hopen := hs.handling i hdl hthread
      have hidle : ∀ h, ¬ (s.threads_ i).Holds h := fun h => by
        rw [hthread]
        exact id
      cases frame with
      | none =>
          refine hs.idle rfl (Function.update_eq_self _ _) rfl rfl hidle (.inl rfl)
      | some message =>
          exact hs.note hopen trivial (.inr fun h => ⟨hidle h, id⟩) fun h hh => nomatch hh
  | @pong i _ hdl hthread hopen =>
      have hnote := hs.note (t := s.threads_ i) (e := .sent (.other "3")) hopen trivial (.inl rfl)
        fun _ _ => .inr rfl
      exact hnote.of_eq (Function.update_eq_self _ _).symm rfl rfl rfl
  | disconnect hthread hopen => exact hs.disconnect hthread hopen
  | onClose hthread => exact hs.onClose hthread
  | erase hthread => exact hs.erase hthread
  | leave hthread =>
      refine hs.idle rfl rfl rfl rfl (fun h hh => ?_) (.inr rfl)
      rw [hthread] at hh
      exact hh
  | @send _ hdl hsender hlive =>
      have hnote := hs.note (t := s.threads_ (s.handler hdl).thread) (e := .event s.data.message)
        ⟨hknown hdl hsender, rfl, hlive.1⟩ trivial (.inl rfl) fun _ _ => .inr rfl
      exact hnote.of_eq (Function.update_eq_self _ _).symm rfl rfl rfl
  | sweep hcloser' => exact absurd hcloser' (hcloser _)
  | clear hcloser' => exact absurd hcloser' (hcloser _)
  | _ => exact hs.of_eq rfl rfl rfl rfl

end Serving

/-! ## While the server shuts down -/

/-- A handler whose close handler has been called. -/
def Handler.Over (hd : Handler ι) : Prop :=
  hd.deleted = true ∧ (hd.Session [.detached, .onClose] ∨ hd.Session [.onClose])

/-- What holds once the threads have been joined: the handlers that are left are those that
`close` has yet to close. -/
structure State.Sweeping (s : State ι) (rest : List Registered) : Prop where
  exited : ∀ i, s.threads_ i = .exited
  joined : s.sender = .joined
  known : ∀ h ∈ rest.map Registered.hdl, h < s.size
  nodup : (rest.map Registered.hdl).Nodup
  left : ∀ h ∈ rest.map Registered.hdl, (s.handler h).Live ∧ (s.handler h).Session []
  finished : ∀ h < s.size, h ∉ rest.map Registered.hdl → (s.handler h).Over

section Sweeping

variable {s s' : State ι} {rest : List Registered}

theorem State.Serving.sweeping (hs : s.Serving) (hexited : ∀ i, s.threads_ i = .exited)
    (hjoined : s.sender = .joined) :
    State.Sweeping { s with closer := .sweeping s.clients_.rows } s.clients_.rows := by
  have hrow : ∀ row ∈ s.clients_, row.hdl < s.size := fun row h => (hs.rows row h).1
  have hstanding : ∀ h < s.size, Standing .exited (s.Files h) h (s.handler h) := fun h hh => by
    have hstanding := hs.standing h hh
    rwa [hexited] at hstanding
  refine ⟨hexited, hjoined, fun h hh => ?_, ?_, fun h hh => ?_, fun h hh hnot => ?_⟩
  · obtain ⟨row, hmem, rfl⟩ := List.mem_map.mp hh
    exact hrow row hmem
  · refine List.Nodup.map_on (fun row hmem row' hmem' heq => ?_) s.clients_.nodup
    have hid : row.id = row'.id := by
      rw [← (hs.rows row hmem).2, ← (hs.rows row' hmem').2, heq]
    exact Table.eq_of_key_eq hmem hmem' hid
  · obtain ⟨row, hmem, rfl⟩ := List.mem_map.mp hh
    cases hstanding row.hdl (hrow row hmem) with
    | connecting hthread => cases hthread
    | serving _ _ hlive hlog => exact ⟨hlive, hlog⟩
    | detached hthread => cases hthread
    | erasing hthread => cases hthread
    | gone _ hnot => exact absurd (hs.files_row hmem) hnot
  · cases hstanding h hh with
    | connecting hthread => cases hthread
    | serving _ hfiled => exact absurd (List.mem_map.mpr ⟨_, hfiled, rfl⟩) hnot
    | detached hthread => cases hthread
    | erasing hthread => cases hthread
    | gone _ _ _ hdeleted hlog => exact ⟨hdeleted, .inl hlog⟩

theorem State.Sweeping.sweep {row : Registered} (hs : s.Sweeping (row :: rest)) :
    State.Sweeping { s.put row.hdl { (s.handler row.hdl).note .onClose with deleted := true } with
      closer := .sweeping rest } rest := by
  obtain ⟨hnot, hnodup⟩ := List.nodup_cons.mp hs.nodup
  refine ⟨hs.exited, hs.joined, fun h hh => hs.known h (List.mem_cons_of_mem _ hh), hnodup,
    fun h hh => ?_, fun h hh hmem => ?_⟩
  · change (Function.update s.handler row.hdl _ h).Live ∧
      (Function.update s.handler row.hdl _ h).Session []
    have hne : h ≠ row.hdl := by
      rintro rfl
      exact hnot hh
    rw [Function.update_of_ne hne]
    exact hs.left h (List.mem_cons_of_mem _ hh)
  · change (Function.update s.handler row.hdl _ h).Over
    by_cases hne : h = row.hdl
    · subst hne
      rw [Function.update_self]
      obtain ⟨-, hlog⟩ := hs.left row.hdl List.mem_cons_self
      exact ⟨rfl, .inr (hlog.append .onClose)⟩
    · rw [Function.update_of_ne hne]
      exact hs.finished h hh (List.not_mem_cons_of_ne_of_not_mem hne hmem)

/-- Where `close` stands. -/
def State.Phase (s : State ι) : Prop :=
  match s.closer with
  | .sweeping rest => s.Sweeping rest
  | .closed => s.Sweeping []
  | _ => s.Serving

theorem State.Serving.phase (hs : s.Serving) (hcloser : s.closer = .serving ∨ s.closer = .joining) :
    s.Phase := by
  rw [State.Phase]
  rcases hcloser with h | h <;> rw [h] <;> exact hs

theorem State.Sweeping.phase (hs : s.Sweeping rest)
    (hcloser : s.closer = .sweeping rest ∨ s.closer = .closed ∧ rest = []) : s.Phase := by
  rw [State.Phase]
  rcases hcloser with h | ⟨h, rfl⟩ <;> rw [h] <;> exact hs

theorem State.Sweeping.next [DecidableEq ι] {a : Action ι} (hs : s.Sweeping rest)
    (hcloser : s.closer = .sweeping rest ∨ s.closer = .closed ∧ rest = [])
    (hstep : Steps a s s') : s'.Phase := by
  have hidle : ∀ {i t}, s.threads_ i = t → t ≠ .exited → False := fun hi ht =>
    ht (hi.symm.trans (hs.exited _))
  have hsender : ∀ {t}, s.sender = t → t ≠ .joined → False := fun hi ht =>
    ht (hi.symm.trans hs.joined)
  have hsweeping : ∀ {l}, s.closer = .sweeping l → rest = l := fun hl => by
    rcases hcloser with h | ⟨h, -⟩
    · exact Closer.sweeping.inj (h.symm.trans hl)
    · exact nomatch h.symm.trans hl
  cases hstep with
  | listen _ h | connect _ h | register h | receive _ h | answer _ h | pong h | disconnect h
  | onClose h | erase h | leave h => exact (hidle h (fun h => nomatch h)).elim
  | lookup h | miss h | test h | testDeleted h | send h | sendNowhere h | quit h =>
      exact (hsender h (fun h => nomatch h)).elim
  | close h =>
      rcases hcloser with h' | ⟨h', -⟩ <;> exact nomatch h'.symm.trans h
  | join h =>
      rcases hcloser with h' | ⟨h', -⟩ <;> exact nomatch h'.symm.trans h
  | sweep h =>
      obtain rfl := hsweeping h
      exact hs.sweep.phase (.inl rfl)
  | sweepDeleted h hdeleted =>
      obtain rfl := hsweeping h
      exact nomatch hdeleted.symm.trans (hs.left _ List.mem_cons_self).1.2
  | clear h =>
      obtain rfl := hsweeping h
      have hover : State.Sweeping { s with clients_ := ∅, closer := .closed } [] :=
        ⟨hs.exited, hs.joined, hs.known, hs.nodup, hs.left, hs.finished⟩
      exact hover.phase (.inr ⟨rfl, rfl⟩)

end Sweeping

/-! ## Every run -/

/-- The invariant of the server. -/
structure State.Sound (s : State ι) : Prop where
  phase : s.Phase
  known : ∀ h, s.sender = .found h ∨ s.sender = .sending h → h < s.size

section Run

variable {s s' : State ι} {a : Action ι}

/-- Until the send thread has been joined, the server serves. -/
theorem State.Sound.serving (hs : s.Sound) (hsender : s.sender ≠ .joined) : s.Serving := by
  have hphase := hs.phase
  rw [State.Phase] at hphase
  split at hphase
  · exact absurd hphase.joined hsender
  · exact absurd hphase.joined hsender
  · exact hphase

variable [DecidableEq ι]

theorem Steps.size_le (hstep : Steps a s s') : s.size ≤ s'.size := by
  cases hstep with
  | connect => exact Nat.le_succ _
  | _ => exact le_rfl

/-- The handlers that the send thread finds are in `clients_`. -/
theorem Steps.sender_cases (hstep : Steps a s s') {h : ℕ}
    (hh : s'.sender = .found h ∨ s'.sender = .sending h) :
    (s.sender = .found h ∨ s.sender = .sending h) ∨
      s.sender = .draining ∧ ∃ row ∈ s.clients_, row.hdl = h := by
  cases hstep with
  | @lookup _ data row hsender hrow =>
      rcases hh with hh | hh
      · exact .inr ⟨hsender, row, (Table.get?_eq_some_iff.mp hrow).1, Sender.found.inj hh⟩
      · cases hh
  | test hsender =>
      refine .inl (.inl (hsender.trans ?_))
      rcases hh with hh | hh
      · change (if _ then _ else _) = _ at hh
        split at hh <;> cases hh
      · change (if _ then _ else _) = _ at hh
        split at hh <;> cases hh
        rfl
  | send => rcases hh with hh | hh <;> cases hh
  | quit => rcases hh with hh | hh <;> cases hh
  | _ => exact .inl hh

/-- A step of `close`, or a step that leaves it where it stands. -/
theorem Steps.closer_cases (hstep : Steps a s s') :
    s'.closer = s.closer ∨ s.closer = .serving ∧ s'.closer = .joining ∨
      (s.closer = .joining ∧ s.sender = .joined ∧ (∀ i, s.threads_ i = .exited) ∧
        s' = { s with closer := .sweeping s.clients_.rows }) ∨
      ∃ rest, s.closer = .sweeping rest := by
  cases hstep with
  | close hcloser => exact .inr (.inl ⟨hcloser, rfl⟩)
  | join hcloser hsender hexited => exact .inr (.inr (.inl ⟨hcloser, hsender, hexited, rfl⟩))
  | sweep hcloser => exact .inr (.inr (.inr ⟨_, hcloser⟩))
  | clear hcloser => exact .inr (.inr (.inr ⟨_, hcloser⟩))
  | _ => exact .inl rfl

theorem State.Sound.phase_next (hs : s.Sound) (hfresh : FreshIds a s) (hstep : Steps a s s') :
    s'.Phase := by
  have hphase := hs.phase
  rw [State.Phase] at hphase
  split at hphase
  · rename_i hcloser
    exact hphase.next (.inl hcloser) hstep
  · rename_i hcloser
    exact hphase.next (.inr ⟨hcloser, rfl⟩) hstep
  · rename_i hsweeping hclosed
    have hnext : s'.Serving :=
      hphase.next hfresh (fun h hh => hs.known h (.inr hh)) hsweeping hstep
    rcases hstep.closer_cases with hsame | ⟨-, hjoining⟩ | ⟨-, hsender, hexited, rfl⟩ | ⟨_, hrest⟩
    · refine hnext.phase ?_
      rw [hsame]
      cases hcloser : s.closer with
      | serving => exact .inl rfl
      | joining => exact .inr rfl
      | sweeping rest => exact absurd hcloser (hsweeping rest)
      | closed => exact absurd hcloser hclosed
    · exact hnext.phase (.inr hjoining)
    · exact (hphase.sweeping hexited hsender).phase (.inl rfl)
    · exact absurd hrest (hsweeping _)

theorem State.Sound.next (hs : s.Sound) (hfresh : FreshIds a s) (hstep : Steps a s s') :
    s'.Sound := by
  refine ⟨hs.phase_next hfresh hstep, fun h hh => ?_⟩
  rcases hstep.sender_cases hh with hold | ⟨hdraining, row, hrow, rfl⟩
  · exact (hs.known h hold).trans_le hstep.size_le
  · have hserving : s.Serving := hs.serving (by rw [hdraining]; exact fun h => nomatch h)
    exact (hserving.rows row hrow).1.trans_le hstep.size_le

variable [Fintype ι]

theorem State.Sound.of_init (hinit : (machine ι).init s) : s.Sound := by
  obtain ⟨-, hclients, hthreads, hsize, hsender, -, hcloser, -⟩ := hinit
  refine ⟨State.Serving.phase ⟨fun h hh => ?_, fun i h hh => ?_, fun i h hh => ?_,
    fun row hrow => ?_, fun h hh => ?_⟩ (.inl hcloser), fun h hh => ?_⟩
  · exact absurd (hsize ▸ hh) (Nat.not_lt_zero h)
  · rw [hthreads] at hh
    exact hh.elim
  · exact nomatch hh.symm.trans (hthreads i)
  · rw [hclients] at hrow
    exact absurd hrow (Table.not_mem_empty row)
  · exact absurd (hsize ▸ hh) (Nat.not_lt_zero h)
  · rcases hh with hh | hh <;> exact nomatch hh.symm.trans hsender

theorem sound_of_reaches (h : (machine ι).Reaches FreshIds s) : s.Sound :=
  h.invariant (fun _ => State.Sound.of_init) fun _ _ _ hs hfresh hstep =>
    hs.next hfresh (step_cases hstep).2

end Run

/-! ## Sessions -/

/-- How a session may end so far; a handler is deleted after the last two endings only. -/
def Handler.Ended (hd : Handler ι) (ending : List Entry) : Prop :=
  (ending = [] ∨ ending = [.detached]) ∧ hd.deleted = false ∨
    ending = [.detached, .onClose] ∨ ending = [.onClose] ∧ hd.deleted = true

theorem Standing.session {t : HubThread} {filed : Prop} {h : ℕ} {hd : Handler ι}
    (hs : Standing t filed h hd) : ∃ ending, hd.Session ending ∧ hd.Ended ending := by
  cases hs with
  | connecting _ _ hlive hlog | serving _ _ hlive hlog =>
      exact ⟨[], hlog, .inl ⟨.inl rfl, hlive.2⟩⟩
  | detached _ _ _ hkept hlog => exact ⟨_, hlog, .inl ⟨.inr rfl, hkept⟩⟩
  | erasing _ _ _ _ hlog | gone _ _ _ _ hlog => exact ⟨_, hlog, .inr (.inl rfl)⟩

section Sessions

variable {s : State ι}

theorem State.Sweeping.session {rest : List Registered} (hs : s.Sweeping rest) {h : ℕ}
    (hh : h < s.size) : ∃ ending, (s.handler h).Session ending ∧ (s.handler h).Ended ending := by
  by_cases hrest : h ∈ rest.map Registered.hdl
  · obtain ⟨hlive, hlog⟩ := hs.left h hrest
    exact ⟨[], hlog, .inl ⟨.inl rfl, hlive.2⟩⟩
  · obtain ⟨hdeleted, hlog | hlog⟩ := hs.finished h hh hrest
    · exact ⟨_, hlog, .inr (.inl rfl)⟩
    · exact ⟨_, hlog, .inr (.inr ⟨rfl, hdeleted⟩)⟩

theorem State.Sound.session (hs : s.Sound) {h : ℕ} (hh : h < s.size) :
    ∃ ending, (s.handler h).Session ending ∧ (s.handler h).Ended ending := by
  have hphase := hs.phase
  rw [State.Phase] at hphase
  split at hphase
  · exact hphase.session hh
  · exact hphase.session hh
  · exact (hphase.standing h hh).session

/-- `clients_` has the handlers that have not been deleted, except those that are being made. -/
theorem State.Serving.files_iff (hs : s.Serving) {h : ℕ} (hh : h < s.size) :
    s.Files h ↔ (s.handler h).deleted = false ∧
      s.threads_ (s.handler h).thread ≠ .connecting h := by
  have hstanding := hs.standing h hh
  generalize s.threads_ (s.handler h).thread = t at hstanding ⊢
  cases hstanding with
  | connecting hthread hnot => exact iff_of_false hnot fun hne => hne.2 hthread
  | serving hthread hfiled hlive =>
      refine iff_of_true hfiled ⟨hlive.2, ?_⟩
      rintro rfl
      exact hthread rfl
  | detached hthread hfiled _ hkept | erasing hthread hfiled _ hkept =>
      exact iff_of_true hfiled ⟨hkept, by rw [hthread]; exact fun h => nomatch h⟩
  | gone _ hnot _ hdeleted =>
      exact iff_of_false hnot fun hne => nomatch hne.1.symm.trans hdeleted

variable [DecidableEq ι] [Fintype ι]

/-- Every session is the two frames of the constructor, then traffic, then at most one call of
the close handler, after which nothing happens to the handler but that it is deleted. Until
`close` has joined the threads, `clients_` has exactly the handlers that are registered and not
deleted, each under its id. After `close`, every handler that was ever made is deleted, and
its close handler has been called. -/
theorem sessions_end_once (h : (machine ι).Reaches FreshIds s) :
    (∀ hdl < s.size, ∃ ending,
      (s.handler hdl).Session ending ∧ (s.handler hdl).Ended ending) ∧
    (s.closer = .serving ∨ s.closer = .joining →
      (∀ row ∈ s.clients_, row.hdl < s.size ∧ s.Files row.hdl) ∧
      ∀ hdl < s.size, (s.Files hdl ↔ (s.handler hdl).deleted = false ∧
        s.threads_ (s.handler hdl).thread ≠ .connecting hdl)) ∧
    (s.closer = .closed → ∀ hdl < s.size, (s.handler hdl).Over) := by
  have hs : s.Sound := sound_of_reaches h
  have hphase := hs.phase
  rw [State.Phase] at hphase
  refine ⟨fun hdl hlt => hs.session hlt, fun hcloser => ?_, fun hcloser hdl hlt => ?_⟩
  · have hserving : s.Serving := by
      rcases hcloser with hcloser | hcloser <;> rwa [hcloser] at hphase
    exact ⟨fun row hrow => ⟨(hserving.rows row hrow).1, hserving.files_row hrow⟩,
      fun hdl hlt => hserving.files_iff hlt⟩
  · rw [hcloser] at hphase
    exact hphase.finished hdl hlt List.not_mem_nil

/-- A server with two threads that has just been set up. -/
def start : State Bool where
  run_ := true
  clients_ := ∅
  threads_ _ := .starting
  size := 0
  handler _ := .new "" false
  sender := .draining
  data := ⟨"", ""⟩
  handed := []
  closer := .serving
  crashed := false

theorem init_start : (machine Bool).init start :=
  ⟨rfl, rfl, fun _ => rfl, rfl, rfl, rfl, rfl, rfl⟩

/-- A client that leaves, a client that is served, and `close`. -/
theorem sessions_end_once_two : ∃ s, (machine Bool).Reaches FreshIds s ∧ s.size = 2 ∧
    (s.handler 0).Over ∧ (s.handler 1).Over := by
  obtain ⟨s, hs, hq⟩ := Machine.exists_reaches_of_runChecked (M := machine Bool) (P := FreshIds)
    (p := fun a s => decide (FreshIds a s)) (q := fun s => s.closer = .closed ∧ s.size = 2)
    (fun _ _ => of_decide_eq_true) (s := start) init_start
    (l := [.listen false true, .listen true true, .connect false "a", .register false,
      .connect true "b", .register true, .receive false 0 "m", .answer false (some "n"),
      .disconnect false 0, .onClose false, .erase false, .close, .leave false, .leave true,
      .quit, .join, .sweep, .clear]) (by decide)
  obtain ⟨hclosed, hsize⟩ := of_decide_eq_true hq
  have hover := (sessions_end_once hs).2.2 hclosed
  exact ⟨s, hs, hsize, hover 0 (by rw [hsize]; decide), hover 1 (by rw [hsize]; decide)⟩

end Sessions

/-! ## The messages of the send thread -/

/-- The messages that the send thread has sent on the socket of the handler. -/
def Handler.events (hd : Handler ι) : List String :=
  hd.log.filterMap fun
    | .event message => some message
    | _ => none

theorem Handler.events_note (hd : Handler ι) {e : Entry} (he : ∀ message, e ≠ .event message) :
    (hd.note e).events = hd.events := by
  rw [Handler.events, Handler.note, List.filterMap_append]
  cases e with
  | event message => exact absurd rfl (he message)
  | _ => exact List.append_nil _

theorem Handler.events_event (hd : Handler ι) (message : String) :
    (hd.note (.event message)).events = hd.events ++ [message] := by
  rw [Handler.events, Handler.note, List.filterMap_append]
  rfl

/-- The messages for a client among those that the send thread has taken from its queue. -/
def State.messages (s : State ι) (client_id : String) : List String :=
  (s.handed.filter fun data => data.client_id = client_id).map SIOData.message

/-- The message that the send thread has for the handler. -/
def State.pending (s : State ι) (h : ℕ) : List String :=
  match s.sender with
  | .found hdl => if hdl = h then [s.data.message] else []
  | .sending hdl => if hdl = h then [s.data.message] else []
  | _ => []

/-- A message is pushed for a client after it has been registered: its id is first known to the
handlers of its own messages. -/
def Addressed : Action ι → State ι → Prop
  | .connect _ client_id, s => s.messages client_id = []
  | .lookup data, s => ∀ h < s.size, (s.handler h).id = data.client_id →
      s.threads_ (s.handler h).thread ≠ .connecting h
  | _, _ => True

instance [DecidableEq ι] (a : Action ι) (s : State ι) : Decidable (Addressed a s) := by
  unfold Addressed
  split <;> infer_instance

/-- What has been sent to a client is a first part of what has been taken from the queue for it,
and all of it but the message under way as long as its handler is live. -/
structure State.Delivered (s : State ι) : Prop where
  sent : ∀ h < s.size, (s.handler h).events <+: s.messages (s.handler h).id
  live : ∀ h < s.size, (s.handler h).Live →
    (s.handler h).events ++ s.pending h = s.messages (s.handler h).id

section Delivered

variable {s s' : State ι} {a : Action ι}

theorem State.messages_of_handed {data : SIOData} (hhanded : s'.handed = s.handed ++ [data])
    (client_id : String) : s'.messages client_id =
      s.messages client_id ++ if data.client_id = client_id then [data.message] else [] := by
  rw [State.messages, hhanded, List.filter_append, List.map_append]
  by_cases h : data.client_id = client_id
  · rw [if_pos h, List.filter_cons_of_pos (by simpa using h)]
    rfl
  · rw [if_neg h, List.filter_cons_of_neg (by simpa using h)]
    rfl

theorem State.pending_of_eq (hsender : s'.sender = s.sender) (hdata : s'.data = s.data) (h : ℕ) :
    s'.pending h = s.pending h := by
  rw [State.pending, State.pending, hsender, hdata]

theorem State.pending_eq_nil {h : ℕ} (hnot : ¬ (s.sender = .found h ∨ s.sender = .sending h)) :
    s.pending h = [] := by
  rw [State.pending]
  cases hat : s.sender with
  | found hdl => exact if_neg fun heq : hdl = h => hnot (.inl (heq ▸ hat))
  | sending hdl => exact if_neg fun heq : hdl = h => hnot (.inr (heq ▸ hat))
  | draining | joined => rfl

theorem State.pending_of_to {h : ℕ} (hto : s.sender = .found h ∨ s.sender = .sending h) :
    s.pending h = [s.data.message] := by
  rcases hto with hto | hto <;> rw [State.pending, hto] <;> exact if_pos rfl

/-- A step that sends no message and takes none from the queue. -/
theorem State.Delivered.of_eq (hs : s.Delivered) (hsize : s'.size = s.size)
    (hhanded : s'.handed = s.handed) (hid : ∀ h, (s'.handler h).id = (s.handler h).id)
    (hevents : ∀ h, (s'.handler h).events = (s.handler h).events)
    (hlive : ∀ h, (s'.handler h).Live → (s.handler h).Live ∧ s'.pending h = s.pending h) :
    s'.Delivered := by
  have hmessages : ∀ client_id, s'.messages client_id = s.messages client_id := fun client_id => by
    rw [State.messages, State.messages, hhanded]
  refine ⟨fun h hh => ?_, fun h hh hl => ?_⟩
  · rw [hevents, hid, hmessages]
    exact hs.sent h (hsize ▸ hh)
  · obtain ⟨hl', hpending⟩ := hlive h hl
    rw [hevents, hid, hmessages, hpending]
    exact hs.live h (hsize ▸ hh) hl'

/-- A step on one handler that sends no message on its socket. -/
theorem State.Delivered.of_put (hs : s.Delivered) {hdl : ℕ} {hd : Handler ι}
    (hhandler : s'.handler = Function.update s.handler hdl hd) (hsize : s'.size = s.size)
    (hhanded : s'.handed = s.handed) (hsender : s'.sender = s.sender) (hdata : s'.data = s.data)
    (hid : hd.id = (s.handler hdl).id) (hevents : hd.events = (s.handler hdl).events)
    (hlive : hd.Live → (s.handler hdl).Live) : s'.Delivered := by
  refine hs.of_eq hsize hhanded (fun h => ?_) (fun h => ?_) fun h hl => ?_
  · by_cases hh : h = hdl
    · rw [hhandler, hh, Function.update_self, hid]
    · rw [hhandler, Function.update_of_ne hh]
  · by_cases hh : h = hdl
    · rw [hhandler, hh, Function.update_self, hevents]
    · rw [hhandler, Function.update_of_ne hh]
  · refine ⟨?_, State.pending_of_eq hsender hdata h⟩
    rw [hhandler] at hl
    by_cases hh : h = hdl
    · subst hh
      rw [Function.update_self] at hl
      exact hlive hl
    · rwa [Function.update_of_ne hh] at hl

/-- A handler that the send thread could not find is not live. -/
theorem State.Serving.not_live (hs : s.Serving) {data : SIOData}
    (haddressed : Addressed (.lookup data) s) (hrow : s.clients_.get? data.client_id = none)
    {h : ℕ} (hh : h < s.size) (hid : (s.handler h).id = data.client_id) : ¬ (s.handler h).Live := by
  intro hlive
  have hfiled : s.Files h := (hs.files_iff hh).mpr ⟨hlive.2, haddressed h hh hid⟩
  exact Table.get?_eq_none_iff.mp hrow _ hfiled hid

variable [DecidableEq ι]

theorem State.Delivered.next (hs : s.Delivered) (hsound : s.Sound) (haddressed : Addressed a s)
    (hstep : Steps a s s') : s'.Delivered := by
  have hserving : s.sender = .draining → s.Serving := fun hsender =>
    hsound.serving (by rw [hsender]; exact fun h => nomatch h)
  have hidle : ∀ {t : State ι}, t.sender = .draining → ∀ h, t.pending h = [] := fun hsender h => by
    rw [State.pending, hsender]
  cases hstep with
  | @connect i _ client_id hthread =>
      have hnone : s.messages client_id = [] := haddressed
      refine ⟨fun h hh => ?_, fun h hh hl => ?_⟩
      · change (Function.update s.handler s.size _ h).events <+:
          s.messages (Function.update s.handler s.size _ h).id
        rcases Nat.lt_succ_iff_lt_or_eq.mp hh with hlt | rfl
        · rw [Function.update_of_ne hlt.ne]
          exact hs.sent h hlt
        · rw [Function.update_self]
          exact List.nil_prefix
      · change (Function.update s.handler s.size _ h).events ++ s.pending h =
          s.messages (Function.update s.handler s.size _ h).id
        change (Function.update s.handler s.size _ h).Live at hl
        rcases Nat.lt_succ_iff_lt_or_eq.mp hh with hlt | rfl
        · rw [Function.update_of_ne hlt.ne] at hl ⊢
          exact hs.live h hlt hl
        · rw [Function.update_self]
          rw [State.pending_eq_nil fun hto => (hsound.known _ hto).false]
          exact hnone.symm
  | receive | pong | onClose =>
      exact hs.of_put rfl rfl rfl rfl rfl rfl (Handler.events_note _ (fun _ h => nomatch h)) id
  | @answer _ _ hdl frame =>
      cases frame with
      | none => exact hs.of_put rfl rfl rfl rfl rfl rfl rfl id
      | some message =>
          exact hs.of_put rfl rfl rfl rfl rfl rfl (Handler.events_note _ (fun _ h => nomatch h)) id
  | disconnect =>
      exact hs.of_put rfl rfl rfl rfl rfl rfl (Handler.events_note _ (fun _ h => nomatch h))
        fun hl => nomatch hl.1
  | erase => exact hs.of_put rfl rfl rfl rfl rfl rfl rfl fun hl => nomatch hl.2
  | sweep =>
      exact hs.of_put rfl rfl rfl rfl rfl rfl (Handler.events_note _ (fun _ h => nomatch h))
        fun hl => nomatch hl.2
  | @lookup _ data row hsender hrow =>
      obtain ⟨hmem, hkey⟩ := Table.get?_eq_some_iff.mp hrow
      obtain ⟨hlt, hid⟩ := (hserving hsender).rows row hmem
      have hkey' : row.id = data.client_id := hkey
      refine ⟨fun h hh => ?_, fun h hh hl => ?_⟩
      · rw [State.messages_of_handed rfl]
        exact (hs.sent h hh).trans (List.prefix_append _ _)
      · have hlive := hs.live h hh hl
        rw [hidle hsender, List.append_nil] at hlive
        rw [State.messages_of_handed rfl, ← hlive]
        change (s.handler h).events ++ (if row.hdl = h then [data.message] else []) = _
        refine congrArg ((s.handler h).events ++ ·) (if_congr ?_ rfl rfl)
        constructor
        · rintro rfl
          exact hkey'.symm.trans hid.symm
        · exact fun heq => (hserving hsender).ids _ hlt h hh (hid.trans (hkey'.trans heq))
  | @miss _ data hsender hrow =>
      refine ⟨fun h hh => ?_, fun h hh hl => ?_⟩
      · rw [State.messages_of_handed rfl]
        exact (hs.sent h hh).trans (List.prefix_append _ _)
      · have hlive := hs.live h hh hl
        rw [hidle hsender, List.append_nil] at hlive
        have hother : ¬ data.client_id = (s.handler h).id := fun heq =>
          (hserving hsender).not_live haddressed hrow hh heq.symm hl
        rw [State.messages_of_handed rfl, ← hlive, if_neg hother]
        exact congrArg ((s.handler h).events ++ ·)
          (hidle (t := { s with data := data, handed := s.handed ++ [data] }) hsender h)
  | @test _ hdl hsender hkept =>
      refine hs.of_eq rfl rfl (fun _ => rfl) (fun _ => rfl) fun h hl => ⟨hl, ?_⟩
      by_cases hh : hdl = h
      · subst hh
        rw [State.pending_of_to (.inl hsender)]
        exact State.pending_of_to (.inr (if_pos hl.1))
      · rw [State.pending_eq_nil (s := s) (h := h) (by simp [hsender, hh])]
        refine State.pending_eq_nil ?_
        change ¬ ((if (s.handler hdl).ws_ then Sender.sending hdl else .draining) = .found h ∨
          (if (s.handler hdl).ws_ then Sender.sending hdl else .draining) = .sending h)
        split <;> simp [hh]
  | @send _ hdl hsender hlive =>
      have hpending : s.pending hdl = [s.data.message] := State.pending_of_to (.inr hsender)
      have hall := hs.live hdl (hsound.known hdl (.inr hsender)) hlive
      rw [hpending] at hall
      refine ⟨fun h hh => ?_, fun h hh hl => ?_⟩
      · change (Function.update s.handler hdl _ h).events <+:
          s.messages (Function.update s.handler hdl _ h).id
        by_cases hne : h = hdl
        · subst hne
          rw [Function.update_self, Handler.events_event, hall]
          exact List.prefix_refl _
        · rw [Function.update_of_ne hne]
          exact hs.sent h hh
      · change (Function.update s.handler hdl _ h).events ++ [] =
          s.messages (Function.update s.handler hdl _ h).id
        change (Function.update s.handler hdl _ h).Live at hl
        rw [List.append_nil]
        by_cases hne : h = hdl
        · subst hne
          rw [Function.update_self, Handler.events_event, hall]
          rfl
        · rw [Function.update_of_ne hne] at hl ⊢
          have hlive' := hs.live h hh hl
          rwa [State.pending_eq_nil (by rw [hsender]; simpa using Ne.symm hne),
            List.append_nil] at hlive'
  | quit hsender =>
      refine hs.of_eq rfl rfl (fun _ => rfl) (fun _ => rfl) fun h hl => ⟨hl, ?_⟩
      exact (hidle hsender h).symm
  | _ => exact hs.of_eq rfl rfl (fun _ => rfl) (fun _ => rfl) fun h hl => ⟨hl, rfl⟩

variable [Fintype ι]

/-- In every interleaving the messages that a client has been sent are the first of those that
the send thread has taken from its queue for it, in their order, and no others; and as long as
the client has its socket, only the message under way is missing. -/
theorem delivered_in_order (h : (machine ι).Reaches (fun a s => FreshIds a s ∧ Addressed a s) s) :
    ∀ hdl < s.size, (s.handler hdl).events <+: s.messages (s.handler hdl).id ∧
      ((s.handler hdl).Live →
        (s.handler hdl).events ++ s.pending hdl = s.messages (s.handler hdl).id) := by
  have hinv : s.Sound ∧ s.Delivered := by
    refine h.invariant (I := fun t => t.Sound ∧ t.Delivered)
      (fun t hinit => ⟨.of_init hinit, ?_⟩) fun a t t' hI hP hstep => ?_
    · obtain ⟨-, -, -, hsize, -⟩ := hinit
      exact ⟨fun h hh => absurd (hsize ▸ hh) (Nat.not_lt_zero h),
        fun h hh => absurd (hsize ▸ hh) (Nat.not_lt_zero h)⟩
    · have hsteps := (step_cases hstep).2
      exact ⟨hI.1.next hP.1 hsteps, hI.2.next hI.1 hP.2 hsteps⟩
  exact fun hdl hlt => ⟨hinv.2.sent hdl hlt, hinv.2.live hdl hlt⟩

/-- Two messages for a client that leaves before the second is sent. -/
theorem delivered_in_order_two : ∃ s, (machine Bool).Reaches
    (fun a s => FreshIds a s ∧ Addressed a s) s ∧ s.size = 1 ∧
      s.messages (s.handler 0).id = ["m", "n"] ∧ (s.handler 0).events <+: ["m", "n"] := by
  obtain ⟨s, hs, hq⟩ := Machine.exists_reaches_of_runChecked (M := machine Bool)
    (P := fun a s => FreshIds a s ∧ Addressed a s)
    (p := fun a s => decide (FreshIds a s ∧ Addressed a s))
    (q := fun s => s.size = 1 ∧ s.messages (s.handler 0).id = ["m", "n"])
    (fun _ _ => of_decide_eq_true) (s := start) init_start
    (l := [.listen false true, .connect false "a", .register false, .lookup ⟨"a", "m"⟩, .test,
      .send, .disconnect false 0, .lookup ⟨"a", "n"⟩, .test]) (by decide)
  obtain ⟨hsize, hmessages⟩ := of_decide_eq_true hq
  have hevents := (delivered_in_order hs 0 (by rw [hsize]; decide)).1
  exact ⟨s, hs, hsize, hmessages, hmessages ▸ hevents⟩

end Delivered

/-! ## What is used is there -/

/-- What a hub thread uses is there: the handler of the callback that it is in, with its socket
where the callback uses it, and, while it polls, the handlers of its open sockets. So is the
handler that `close` is about to delete. -/
structure State.HubsSafe (s : State ι) : Prop where
  callback : ∀ i hdl, s.threads_ i = .connecting hdl ∨ s.threads_ i = .handling hdl →
    hdl < s.size ∧ (s.handler hdl).Live
  closing : ∀ i hdl, s.threads_ i = .detached hdl ∨ s.threads_ i = .erasing hdl →
    hdl < s.size ∧ (s.handler hdl).deleted = false
  polling : ∀ i hdl, s.threads_ i = .polling → s.Open i hdl → (s.handler hdl).deleted = false
  sweeping : ∀ row rest, s.closer = .sweeping (row :: rest) →
    row.hdl < s.size ∧ (s.handler row.hdl).Live

/-- A handler with its socket that nobody is taking care of has not been deleted. -/
theorem Standing.live_of_ws {t : HubThread} {filed : Prop} {h : ℕ} {hd : Handler ι}
    (hs : Standing t filed h hd) (hws : hd.ws_ = true) : hd.Live := by
  cases hs with
  | connecting _ _ hlive => exact hlive
  | serving _ _ hlive => exact hlive
  | detached _ _ hgone => rw [hws] at hgone; cases hgone
  | erasing _ _ hgone => rw [hws] at hgone; cases hgone
  | gone _ _ hgone => rw [hws] at hgone; cases hgone

/-- A handler that a thread is filing or erasing has not been deleted, and one that it is filing
has its socket. -/
theorem Standing.kept_of_holds {t : HubThread} {filed : Prop} {h : ℕ} {hd : Handler ι}
    (hs : Standing t filed h hd) (ht : t.Holds h) :
    hd.deleted = false ∧ (t = .connecting h → hd.ws_ = true) := by
  cases hs with
  | connecting _ _ hlive => exact ⟨hlive.2, fun _ => hlive.1⟩
  | serving hthread => exact absurd ht hthread
  | detached hthread _ _ hkept => exact ⟨hkept, fun h => by rw [hthread] at h; cases h⟩
  | erasing hthread _ _ hkept => exact ⟨hkept, fun h => by rw [hthread] at h; cases h⟩
  | gone hthread => exact absurd ht hthread

theorem State.Serving.hubsSafe {s : State ι} (hs : s.Serving)
    (hcloser : ∀ rest, s.closer ≠ .sweeping rest) : s.HubsSafe where
  callback i hdl := by
    rintro (hthread | hthread)
    · have hhold : (s.threads_ i).Holds hdl := by
        rw [hthread]
        rfl
      obtain ⟨hlt, hi⟩ := hs.held i hdl hhold
      have hstanding := hs.standing hdl hlt
      rw [hi] at hstanding
      obtain ⟨hkept, hws⟩ := hstanding.kept_of_holds hhold
      exact ⟨hlt, hws hthread, hkept⟩
    · have hopen := hs.handling i hdl hthread
      exact ⟨hopen.1, (hs.standing hdl hopen.1).live_of_ws hopen.2.2⟩
  closing i hdl hthread := by
    have hhold : (s.threads_ i).Holds hdl := by
      rcases hthread with hthread | hthread
      · rw [hthread]
        rfl
      · rw [hthread]
        rfl
    obtain ⟨hlt, hi⟩ := hs.held i hdl hhold
    have hstanding := hs.standing hdl hlt
    rw [hi] at hstanding
    exact ⟨hlt, (hstanding.kept_of_holds hhold).1⟩
  polling i hdl _ hopen := ((hs.standing hdl hopen.1).live_of_ws hopen.2.2).2
  sweeping row rest hsweeping := absurd hsweeping (hcloser _)

theorem State.Sweeping.hubsSafe {s : State ι} {rest : List Registered} (hs : s.Sweeping rest)
    (hcloser : ∀ rest', s.closer = .sweeping rest' → rest' = rest) : s.HubsSafe where
  callback i hdl := by
    rw [hs.exited]
    rintro (hthread | hthread)
    · cases hthread
    · cases hthread
  closing i hdl := by
    rw [hs.exited]
    rintro (hthread | hthread)
    · cases hthread
    · cases hthread
  polling i hdl hthread := by
    rw [hs.exited] at hthread
    cases hthread
  sweeping row rest' hsweeping := by
    obtain rfl := hcloser _ hsweeping
    exact ⟨hs.known row.hdl List.mem_cons_self, (hs.left row.hdl List.mem_cons_self).1⟩

/-- The invariant of the server keeps what the hubs and `close` use. -/
theorem State.Sound.hubsSafe {s : State ι} (hs : s.Sound) : s.HubsSafe := by
  have hphase := hs.phase
  rw [State.Phase] at hphase
  split at hphase
  · rename_i rest hcloser
    exact hphase.hubsSafe fun rest' h => Closer.sweeping.inj (h.symm.trans hcloser)
  · rename_i hcloser
    refine hphase.hubsSafe fun rest' h => ?_
    rw [hcloser] at h
    cases h
  · rename_i hsweeping _
    exact hphase.hubsSafe fun rest h => hsweeping rest h

/-- Nothing that is gone has been used, and what the send thread is about to use is there. -/
def State.Safe (s : State ι) : Prop :=
  s.crashed = false ∧
    match s.sender with
    | .found hdl => (s.handler hdl).deleted = false
    | .sending hdl => (s.handler hdl).Live
    | _ => True

/-- The step takes neither the handler that the send thread has found nor the socket that it is
about to use. -/
def Undisturbed : Action ι → State ι → Prop
  | .disconnect _ hdl, s => s.sender ≠ .sending hdl
  | .erase i, s => ∀ hdl, s.threads_ i = .erasing hdl → s.sender ≠ .found hdl
  | _, _ => True

section Safe

variable {s s' : State ι} {a : Action ι}

theorem State.Safe.found (hs : s.Safe) {hdl : ℕ} (hfound : s.sender = .found hdl) :
    (s.handler hdl).deleted = false := by
  have hsafe := hs.2
  rwa [hfound] at hsafe

theorem State.Safe.sending (hs : s.Safe) {hdl : ℕ} (hsending : s.sender = .sending hdl) :
    (s.handler hdl).Live := by
  have hsafe := hs.2
  rwa [hsending] at hsafe

/-- A step that leaves the send thread alone, and the sockets of the handlers that are made. -/
theorem State.Safe.of_kept (hs : s.Safe) (hcrashed : s'.crashed = s.crashed)
    (hsender : s'.sender = s.sender)
    (hknown : ∀ h, s.sender = .found h ∨ s.sender = .sending h → h < s.size)
    (hdeleted : ∀ h < s.size, s.sender = .found h ∨ s.sender = .sending h →
      (s'.handler h).deleted = (s.handler h).deleted)
    (hws : ∀ h < s.size, s.sender = .sending h → (s'.handler h).ws_ = (s.handler h).ws_) :
    s'.Safe := by
  refine ⟨hcrashed.trans hs.1, ?_⟩
  rw [hsender]
  cases hat : s.sender with
  | found hdl => exact (hdeleted hdl (hknown hdl (.inl hat)) (.inl hat)).trans (hs.found hat)
  | sending hdl =>
      have hlt : hdl < s.size := hknown hdl (.inr hat)
      have hlive : (s.handler hdl).Live := hs.sending hat
      exact ⟨(hws hdl hlt hat).trans hlive.1, (hdeleted hdl hlt (.inr hat)).trans hlive.2⟩
  | draining | joined => trivial

/-- A step that only writes in the log of a handler. -/
theorem State.Safe.of_note (hs : s.Safe) {hdl : ℕ} {hd : Handler ι}
    (hknown : ∀ h, s.sender = .found h ∨ s.sender = .sending h → h < s.size)
    (hcrashed : s'.crashed = s.crashed) (hsender : s'.sender = s.sender)
    (hhandler : s'.handler = Function.update s.handler hdl hd)
    (hws : hd.ws_ = (s.handler hdl).ws_) (hdeleted : hd.deleted = (s.handler hdl).deleted) :
    s'.Safe := by
  refine hs.of_kept hcrashed hsender hknown (fun h _ _ => ?_) fun h _ _ => ?_
  · by_cases hh : h = hdl
    · rw [hhandler, hh, Function.update_self, hdeleted]
    · rw [hhandler, Function.update_of_ne hh]
  · by_cases hh : h = hdl
    · rw [hhandler, hh, Function.update_self, hws]
    · rw [hhandler, Function.update_of_ne hh]

variable [DecidableEq ι]

theorem Steps.safe_next_iff (hsound : s.Sound) (hs : s.Safe) (hstep : Steps a s s') :
    s'.Safe ↔ Undisturbed a s := by
  have hknown := hsound.known
  have hjoined : ∀ {rest}, s.closer = .sweeping rest → s.Sweeping rest := fun hcloser => by
    have hphase := hsound.phase
    rwa [State.Phase, hcloser] at hphase
  cases hstep with
  | @connect i _ client_id =>
      refine iff_of_true (hs.of_kept rfl rfl hknown (fun h hh _ => ?_) fun h hh _ => ?_) trivial
      · change (Function.update s.handler s.size _ h).deleted = _
        rw [Function.update_of_ne hh.ne]
      · change (Function.update s.handler s.size _ h).ws_ = _
        rw [Function.update_of_ne hh.ne]
  | receive | pong | onClose => exact iff_of_true (hs.of_note hknown rfl rfl rfl rfl rfl) trivial
  | @answer _ _ _ frame =>
      refine iff_of_true (hs.of_note hknown rfl rfl rfl ?_ ?_) trivial
      · cases frame <;> rfl
      · cases frame <;> rfl
  | @disconnect i _ hdl hthread hopen =>
      constructor
      · intro hsafe hsending
        have hlive := hsafe.sending hsending
        change (Function.update s.handler hdl _ hdl).Live at hlive
        rw [Function.update_self] at hlive
        exact nomatch hlive.1
      · intro hne
        refine hs.of_kept rfl rfl hknown (fun h _ _ => ?_) fun h _ hsending => ?_
        · change (Function.update s.handler hdl _ h).deleted = _
          by_cases hh : h = hdl
          · rw [hh, Function.update_self]
            rfl
          · rw [Function.update_of_ne hh]
        · change (Function.update s.handler hdl _ h).ws_ = _
          rw [Function.update_of_ne]
          rintro rfl
          exact hne hsending
  | @erase i _ hdl hthread =>
      constructor
      · intro hsafe hdl' hthread' hfound
        obtain rfl := HubThread.erasing.inj (hthread.symm.trans hthread')
        have hdeleted := hsafe.found hfound
        change (Function.update s.handler hdl _ hdl).deleted = false at hdeleted
        rw [Function.update_self] at hdeleted
        cases hdeleted
      · intro hne
        refine hs.of_kept rfl rfl hknown (fun h hlt hsender => ?_) fun h _ _ => ?_
        · change (Function.update s.handler hdl _ h).deleted = _
          rw [Function.update_of_ne]
          rintro rfl
          rcases hsender with hfound | hsending
          · exact hne _ hthread hfound
          · have hserving : s.Serving := hsound.serving (by rw [hsending]; exact fun h => nomatch h)
            have hhold : (s.threads_ i).Holds h := by rw [hthread]; rfl
            have hstanding := (hserving.of_holds hhold).2.2
            rw [hthread] at hstanding
            cases hstanding with
            | connecting h => cases h
            | serving h => exact h rfl
            | detached h => cases h
            | erasing _ _ hws => exact nomatch hws.symm.trans (hs.sending hsending).1
            | gone h => exact h rfl
        · change (Function.update s.handler hdl _ h).ws_ = _
          by_cases hh : h = hdl
          · rw [hh, Function.update_self]
          · rw [Function.update_of_ne hh]
  | @lookup _ data row hsender hrow =>
      have hserving : s.Serving := hsound.serving (by rw [hsender]; exact fun h => nomatch h)
      have hmem : row ∈ s.clients_ := (Table.get?_eq_some_iff.mp hrow).1
      have hfiles : s.Files row.hdl := hserving.files_row hmem
      refine iff_of_true ⟨hs.1, ?_⟩ trivial
      exact ((hserving.files_iff (hserving.rows row hmem).1).mp hfiles).1
  | @test _ hdl hsender hkept =>
      refine iff_of_true ⟨hs.1, ?_⟩ trivial
      change match (if (s.handler hdl).ws_ then Sender.sending hdl else .draining) with
        | .found h => (s.handler h).deleted = false
        | .sending h => (s.handler h).Live
        | _ => True
      cases hws : (s.handler hdl).ws_ with
      | true => exact ⟨hws, hkept⟩
      | false => trivial
  | testDeleted hsender hdeleted => exact nomatch hdeleted.symm.trans (hs.found hsender)
  | send => exact iff_of_true ⟨hs.1, trivial⟩ trivial
  | sendNowhere hsender hgone => exact absurd (hs.sending hsender) hgone
  | quit => exact iff_of_true ⟨hs.1, trivial⟩ trivial
  | @sweep _ row rest hcloser =>
      have hsender := (hjoined hcloser).joined
      refine iff_of_true (hs.of_kept rfl rfl hknown (fun h _ hh => ?_) fun h _ hh => ?_) trivial
      · rcases hh with hh | hh <;> exact nomatch hh.symm.trans hsender
      · exact nomatch hh.symm.trans hsender
  | sweepDeleted hcloser hdeleted =>
      exact nomatch hdeleted.symm.trans ((hjoined hcloser).left _ List.mem_cons_self).1.2
  | _ => exact iff_of_true ⟨hs.1, hs.2⟩ trivial

variable [Fintype ι]

/-- The hubs and `close` only use handlers and sockets that are there, in every state of every
run. The send thread does so throughout a run exactly when no step of the run takes from it the
handler that it has found or the socket that it is about to use. -/
theorem safe_iff_undisturbed {as : List (Action ι)} (hinit : (machine ι).init s)
    (hfresh : (machine ι).Along FreshIds as s) (hrun : (machine ι).run as s = some s') :
    (machine ι).Throughout State.HubsSafe as s ∧
      ((machine ι).Throughout State.Safe as s ↔ (machine ι).Along Undisturbed as s) := by
  have hnext : ∀ a s s', s.Sound → FreshIds a s → (machine ι).step a s = some s' → s'.Sound :=
    fun a s s' hs hfresh hstep => hs.next hfresh (step_cases hstep).2
  refine ⟨hfresh.throughout (fun _ => State.Sound.hubsSafe) hnext (.of_init hinit), ?_⟩
  have hsafe : s.Safe := by
    obtain ⟨-, -, -, -, hsender, -, -, hcrashed⟩ := hinit
    refine ⟨hcrashed, ?_⟩
    rw [hsender]
    trivial
  exact hfresh.throughout_iff (I := State.Sound) hnext
    (fun a s s' hs hsafe _ hstep => (step_cases hstep).2.safe_next_iff hs hsafe) (.of_init hinit)
    hsafe hrun

/-- The client leaves while a message is being sent to it. -/
theorem safe_iff_undisturbed_race : ∃ s',
    (machine Bool).run [.listen false true, .connect false "a", .register false, .lookup ⟨"a", "m"⟩,
      .test, .disconnect false 0, .send] start = some s' ∧ s'.crashed = true ∧
    ¬ (machine Bool).Along Undisturbed [.listen false true, .connect false "a", .register false,
      .lookup ⟨"a", "m"⟩, .test, .disconnect false 0, .send] start := by
  have hchecked : ((machine Bool).runChecked (fun a s => decide (FreshIds a s))
      [.listen false true, .connect false "a", .register false, .lookup ⟨"a", "m"⟩, .test,
        .disconnect false 0, .send] start).any State.crashed = true := by decide
  obtain ⟨s', hs', hcrashed⟩ := (Option.any_eq_true _ _).mp hchecked
  obtain ⟨hrun, hfresh⟩ := Machine.run_of_runChecked (P := FreshIds)
    (fun _ _ => of_decide_eq_true) hs'
  refine ⟨s', hrun, hcrashed, fun hundisturbed => ?_⟩
  have hsafe := (safe_iff_undisturbed init_start hfresh hrun).2.mpr hundisturbed
  exact nomatch hcrashed.symm.trans (hsafe.last hrun).1

end Safe

end SocketIOServer
